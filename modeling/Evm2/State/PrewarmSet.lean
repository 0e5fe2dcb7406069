import Evm2.Lib.Map
import Evm2.Primitives

/-!
# Pre-warmed addresses and slots

`PrewarmSet` holds what is warm before any code runs. Short addresses are kept in a bit vector,
the first few others in a short list, and the rest, with all warm slots, in a map.
-/

namespace Evm2

def SHORT_ADDRESS_CAP : Nat := 320

def INLINE_CAP : Nat := 3

def shortAddress (a : Address) : Option Nat :=
  if a.toNat < SHORT_ADDRESS_CAP then some a.toNat else none

structure PrewarmSet where
  accessList : Map Address (List Word)
  shortAddresses : BitVec 320
  inlined : List Address
  hasStorage : Bool

namespace PrewarmSet

def new : PrewarmSet := ⟨∅, 0, [], false⟩

def warmShortAddress (w : PrewarmSet) (a : Address) : Bool × PrewarmSet :=
  match shortAddress a with
  | some i => (true, { w with shortAddresses := w.shortAddresses ||| (1#320 <<< i) })
  | none => (false, w)

def warm (w : PrewarmSet) (a : Address) : PrewarmSet :=
  match w.warmShortAddress a with
  | (true, w') => w'
  | (false, w') =>
    if w'.inlined.contains a then w'
    else if w'.inlined.length < INLINE_CAP then { w' with inlined := w'.inlined ++ [a] }
    else { w' with accessList := w'.accessList.adjust a [] id }

def warmStorage (w : PrewarmSet) (a : Address) (slots : List Word) : PrewarmSet :=
  match w.warmShortAddress a with
  | (short, w') =>
    if short && slots.isEmpty then w'
    else { w' with
      accessList := w'.accessList.adjust a [] (fun old => slots ++ old)
      hasStorage := w'.hasStorage || !slots.isEmpty }

def warmShortAddresses (w : PrewarmSet) (as : BitVec 320) : PrewarmSet :=
  { w with shortAddresses := w.shortAddresses ||| as }

/-- The removal from the inline list: the last address takes the place of the removed one. -/
def swapRemove (inlined : List Address) (a : Address) : List Address :=
  match inlined.idxOf? a with
  | some index => (inlined.set index (inlined.getLastD a)).dropLast
  | none => inlined

def remove (w : PrewarmSet) (a : Address) : PrewarmSet where
  accessList := w.accessList.erase a
  shortAddresses := match shortAddress a with
    | some i => w.shortAddresses &&& ~~~(1#320 <<< i)
    | none => w.shortAddresses
  inlined := swapRemove w.inlined a
  hasStorage := w.hasStorage

def clear (_ : PrewarmSet) : PrewarmSet := new

def isWarm (w : PrewarmSet) (a : Address) : Bool :=
  (match shortAddress a with
    | some i => w.shortAddresses.getLsbD i
    | none => false) || w.inlined.contains a || (w.accessList.lookup a).isSome

def isStorageWarm (w : PrewarmSet) (a : Address) (key : Word) : Bool :=
  w.hasStorage && ((w.accessList.lookup a).elim false fun slots => slots.contains key)

def isCold (w : PrewarmSet) (a : Address) : Bool := !w.isWarm a

@[simp] theorem isWarm_new (a : Address) : new.isWarm a = false := by
  simp only [isWarm, new, List.contains_nil, Bool.or_false, AList.lookup_empty, Option.isSome_none]
  cases shortAddress a <;> simp

@[simp] theorem isStorageWarm_new (a : Address) (key : Word) :
    new.isStorageWarm a key = false := rfl

end PrewarmSet

end Evm2
