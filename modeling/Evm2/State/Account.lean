import Evm2.Lib.Map
import Evm2.Primitives

/-!
# Accounts of the state overlay

The types the transaction overlay is made of: `AccountInfo`, `AccountFlags`, `StorageSlot`,
`StorageOverlay` and `Account`.
-/

namespace Evm2

/-! ## Account info -/

structure AccountInfo where
  balance : Word
  nonce : U64
  codeHash : B256
  code : Option Bytecode
  deriving DecidableEq, Repr

namespace AccountInfo

def default : AccountInfo := ⟨0, 0, KECCAK256_EMPTY, some Bytecode.new⟩

instance : Inhabited AccountInfo := ⟨default⟩

def eq (x y : AccountInfo) : Bool :=
  x.balance == y.balance && x.nonce == y.nonce && x.codeHash == y.codeHash

def cloneNoCode (x : AccountInfo) : AccountInfo := { x with code := none }

def isEmptyCodeHash (x : AccountInfo) : Bool := x.codeHash == KECCAK256_EMPTY

def isEmpty (x : AccountInfo) : Bool := x.balance == 0 && x.nonce == 0 && x.isEmptyCodeHash

theorem eq_iff {x y : AccountInfo} :
    x.eq y = true ↔ x.balance = y.balance ∧ x.nonce = y.nonce ∧ x.codeHash = y.codeHash := by
  simp [eq, and_assoc]

theorem eq_iff_cloneNoCode {x y : AccountInfo} : x.eq y = true ↔ x.cloneNoCode = y.cloneNoCode := by
  rw [eq_iff]
  cases x; cases y
  simp [cloneNoCode]

end AccountInfo

def optInfoEq : Option AccountInfo → Option AccountInfo → Bool
  | some x, some y => x.eq y
  | none, none => true
  | _, _ => false

theorem optInfoEq_iff {x y : Option AccountInfo} :
    optInfoEq x y = true ↔ x.map AccountInfo.cloneNoCode = y.map AccountInfo.cloneNoCode := by
  cases x <;> cases y <;> simp [optInfoEq, AccountInfo.eq_iff_cloneNoCode]

/-! ## Flags -/

structure AccountFlags where
  warm : Bool
  touched : Bool
  destroyed : Bool
  created : Bool
  discardsStorage : Bool
  deriving DecidableEq, Repr

namespace AccountFlags

def empty : AccountFlags := ⟨false, false, false, false, false⟩

def loaded (isWarm : Bool) : AccountFlags := { empty with warm := isWarm }

end AccountFlags

/-! ## Storage -/

/-- `Tracked`: a value at the start of the transaction and now. -/
structure Tracked (α : Type) where
  original : α
  current : α
  deriving DecidableEq, Repr

def Tracked.new {α : Type} (a : α) : Tracked α := ⟨a, a⟩

def Tracked.isChanged {α : Type} [DecidableEq α] (t : Tracked α) : Bool := t.original != t.current

structure StorageSlot where
  value : Tracked Word
  isWarm : Bool
  deriving DecidableEq, Repr

namespace StorageSlot

def loaded (v : Word) (isWarm : Bool) : StorageSlot := ⟨.new v, isWarm⟩

def isChanged (slot : StorageSlot) (wiped : Bool) : Bool :=
  if wiped then slot.value.current != 0 else slot.value.isChanged

def setCurrent (slot : StorageSlot) (v : Word) : StorageSlot :=
  { slot with value := { slot.value with current := v } }

def setWarm (slot : StorageSlot) (warm : Bool) : StorageSlot := { slot with isWarm := warm }

end StorageSlot

structure StorageOverlay where
  wiped : Bool
  slots : Map Word StorageSlot

namespace StorageOverlay

def empty : StorageOverlay := ⟨false, ∅⟩

def changedSlots (o : StorageOverlay) : List (Word × Tracked Word) :=
  o.slots.entries.filterMap fun e =>
    if e.2.isChanged o.wiped then some (e.1, e.2.value) else none

def zeroLoaded (o : StorageOverlay) : StorageOverlay :=
  { o with slots := o.slots.mapValues fun slot => slot.setCurrent 0 }

def wipe (o : StorageOverlay) : StorageOverlay := { o.zeroLoaded with wiped := true }

end StorageOverlay

/-! ## Accounts -/

structure Account where
  original : Option AccountInfo
  present : Option AccountInfo
  flags : AccountFlags
  storage : StorageOverlay

namespace Account

def loaded (info : Option AccountInfo) (isWarm : Bool) : Account :=
  ⟨info, info, .loaded isWarm, .empty⟩

def markCreated (x : Account) : Account := { x with flags := { x.flags with created := true } }

def markCreatedDiscardingStorage (x : Account) : Account :=
  { x.markCreated with flags := { x.markCreated.flags with discardsStorage := true } }

def isChanged (x : Account) : Bool := !optInfoEq x.original x.present

def isExistingDead (x : Account) : Bool := x.present.elim false AccountInfo.isEmpty

def changedCode (x : Account) : Option (B256 × Bytecode) :=
  match x.present with
  | none => none
  | some info =>
    match info.code with
    | none => none
    | some code =>
      if (x.original.map AccountInfo.codeHash != some info.codeHash) && !code.isEmpty then
        some (info.codeHash, code)
      else none

end Account

end Evm2
