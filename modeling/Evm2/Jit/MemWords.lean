import Evm2.Jit.AbsValue
import Evm2.Interpreter.Effects

/-!
# Tracked memory words

The analysis tracks words of the memory at constant offsets, to fold the loads from them.
-/

namespace Evm2.Jit

/-! ## Joining values -/

namespace AbsValue

def isSetMember (jumpdests : ℕ → Bool) : AbsValue → Bool
  | const v => (getInline v).any jumpdests
  | constSet _ => true
  | range _ | top => false

def absConstSet : AbsValue → Option (List Word)
  | range _ | top => none
  | const v => some [v]
  | constSet vs => some vs

def mergeSets : List Word → List Word → List Word
  | [], bs => bs
  | as, [] => as
  | a :: as, b :: bs =>
    match compare a.toNat b.toNat with
    | .lt => a :: mergeSets as (b :: bs)
    | .gt => b :: mergeSets (a :: as) bs
    | .eq => a :: mergeSets as bs

def internSet : List Word → AbsValue
  | [v] => const v
  | vs => constSet vs

/-- The arm of `ConstSetInterner::join` for a range: it only absorbs values that it contains. -/
def joinRange (s : Span) (other : AbsValue) : AbsValue :=
  match other.bounds with
  | some (lo, hi) =>
    if s.start ≤ lo ∧ lo ≤ s.last ∧ s.start ≤ hi ∧ hi ≤ s.last then range s else top
  | none => top

def join (jumpdests : ℕ → Bool) (a b : AbsValue) : AbsValue :=
  if a = b then a
  else
    match a, b with
    | range s, other => joinRange s other
    | other, range s => joinRange s other
    | a, b =>
      if !a.isSetMember jumpdests || !b.isSetMember jumpdests then top
      else
        match a.absConstSet, b.absConstSet with
        | some as, some bs => internSet (mergeSets as bs)
        | _, _ => top

theorem mem_mergeSets {w : Word} (as bs : List Word) :
    w ∈ mergeSets as bs ↔ w ∈ as ∨ w ∈ bs := by
  fun_induction mergeSets as bs with
  | case1 bs => simp
  | case2 as h => simp
  | case3 a as b bs h ih | case4 a as b bs h ih =>
    rw [List.mem_cons, ih, List.mem_cons, List.mem_cons]
    tauto
  | case5 a as b bs h ih =>
    have hab : a = b := BitVec.eq_of_toNat_eq (Nat.compare_eq_eq.mp h)
    rw [List.mem_cons, ih, List.mem_cons, List.mem_cons, hab]
    tauto

theorem has_internSet {w : Word} {vs : List Word} (h : w ∈ vs) : (internSet vs).Has w := by
  unfold internSet
  split
  · exact List.mem_singleton.mp h
  · exact h

theorem Has.mem_absConstSet {v : AbsValue} {w : Word} {vs : List Word} (h : v.Has w)
    (hvs : v.absConstSet = some vs) : w ∈ vs := by
  cases v with
  | const c =>
    cases hvs
    exact List.mem_singleton.mpr h
  | constSet cs =>
    cases hvs
    exact h
  | range s | top => cases hvs

theorem has_joinRange {s : Span} {other : AbsValue} {w : Word}
    (h : (range s).Has w ∨ other.Has w) : (joinRange s other).Has w := by
  unfold joinRange
  split
  case h_2 => trivial
  case h_1 lo hi hb =>
    by_cases hin : s.start ≤ lo ∧ lo ≤ s.last ∧ s.start ≤ hi ∧ hi ≤ s.last
    · rw [if_pos hin]
      rcases h with h | h
      · exact h
      · have := h.within hb
        exact ⟨by omega, by omega⟩
    · rw [if_neg hin]
      trivial

theorem has_join (jumpdests : ℕ → Bool) {a b : AbsValue} {w : Word} (h : a.Has w ∨ b.Has w) :
    (join jumpdests a b).Has w := by
  unfold join
  by_cases hab : a = b
  · rw [if_pos hab]
    rcases h with h | h
    · exact h
    · exact hab ▸ h
  · rw [if_neg hab]
    split
    · exact has_joinRange h
    · exact has_joinRange h.symm
    · split_ifs
      · trivial
      · split
        · rename_i has hbs
          refine has_internSet ((mem_mergeSets _ _).mpr ?_)
          exact h.imp (fun h => h.mem_absConstSet has) fun h => h.mem_absConstSet hbs
        · trivial

end AbsValue

/-! ## The functions of the analysis -/

structure MemWords where
  words : List (ℕ × AbsValue)
  pristine : Bool
  deriving DecidableEq, Repr

def inputAt (inputs : List AbsValue) (depth : ℕ) : AbsValue := inputs.reverse.getD depth .top

def immAt (inputs : List AbsValue) (depth : ℕ) : Option ℕ :=
  (inputAt inputs depth).asConst.bind getInline

def boundsAt (inputs : List AbsValue) (depth : ℕ) : Option (ℕ × ℕ) :=
  (inputAt inputs depth).bounds

def lenAt (inputs : List AbsValue) (depth : ℕ) : Option ℕ := (boundsAt inputs depth).map Prod.snd

def insertWord (offset : ℕ) (value : AbsValue) : List (ℕ × AbsValue) → List (ℕ × AbsValue)
  | [] => [(offset, value)]
  | p :: ps => if p.1 < offset then p :: insertWord offset value ps else (offset, value) :: p :: ps

namespace MemWords

def entry (stackObserved : Bool) : MemWords := ⟨[], !stackObserved⟩

/-- `MemWords::default`, the state after an instruction of the host. -/
protected def default : MemWords := ⟨[], false⟩

def find (m : MemWords) (offset : ℕ) : Option AbsValue := m.words.lookup offset

def set (m : MemWords) (offset : ℕ) (value : AbsValue) : MemWords :=
  { m with words := insertWord offset value m.words }

def writeEnd (last : ℕ) (len : Option ℕ) : ℕ := (len.map (last + ·)).getD (2 ^ 32 - 1)

def clobber (m : MemWords) : Option (ℕ × ℕ) → Option ℕ → MemWords
  | _, some 0 => ⟨m.words, false⟩
  | some (start, last), len =>
    ⟨m.words.filter fun p => p.1 + 32 ≤ start || writeEnd last len ≤ p.1, false⟩
  | none, _ => ⟨[], false⟩

def endOffset (dest len : ℕ) : Option ℕ :=
  if dest + len < 2 ^ 32 ∧ 32 ≤ dest + len ∧ 1 ≤ len ∧ len ≤ 32 then some (dest + len - 32)
  else none

def baseWord (m : MemWords) (offset : ℕ) : Option Word :=
  match m.find offset with
  | some value => value.asConst
  | none => if m.pristine then some 0 else none

def copiedWord (base : Word) (src len : ℕ) (code : Bytes) : Word :=
  BitVec.ofNat 256 (ofBeBytes ((beBytes 32 base.toNat).take (32 - len) ++ paddedSlice code src len))

def codecopyWord (m : MemWords) (dest src len : Option ℕ) (code : Bytes) : Option (ℕ × Word) := do
  let dest ← dest
  let src ← src
  let len ← len
  let offset ← endOffset dest len
  let base ← m.baseWord offset
  some (offset, copiedWord base src len code)

def mstore (m : MemWords) (inputs : List AbsValue) : MemWords :=
  let clobbered := m.clobber (boundsAt inputs 0) (some 32)
  match immAt inputs 0 with
  | some offset => if inputAt inputs 1 ≠ .top then clobbered.set offset (inputAt inputs 1)
    else clobbered
  | none => clobbered

def codecopy (m : MemWords) (inputs : List AbsValue) (code : Bytes) : MemWords :=
  let clobbered := m.clobber (boundsAt inputs 0) (lenAt inputs 2)
  match m.codecopyWord (immAt inputs 0) (immAt inputs 1) (immAt inputs 2) code with
  | some (offset, value) => clobbered.set offset (.const value)
  | none => clobbered

def transfer (m : MemWords) (op : OpCode) (inputs : List AbsValue) (code : Bytes) :
    Option AbsValue × MemWords :=
  match op with
  | .mload => ((immAt inputs 0).bind m.find, m)
  | .mstore => (none, m.mstore inputs)
  | .mstore8 => (none, m.clobber (boundsAt inputs 0) (some 1))
  | .codecopy => (none, m.codecopy inputs code)
  | .calldatacopy | .returndatacopy | .mcopy =>
    (none, m.clobber (boundsAt inputs 0) (lenAt inputs 2))
  | .extcodecopy => (none, m.clobber (boundsAt inputs 1) (lenAt inputs 3))
  | .call | .callcode => (none, m.clobber (boundsAt inputs 5) (lenAt inputs 6))
  | .delegatecall | .staticcall => (none, m.clobber (boundsAt inputs 4) (lenAt inputs 5))
  | _ => (none, m)

def joinWord (jumpdests : ℕ → Bool) (other : MemWords) (p : ℕ × AbsValue) :
    Option (ℕ × AbsValue) :=
  (other.find p.1).bind fun value =>
    if p.2.join jumpdests value = .top then none else some (p.1, p.2.join jumpdests value)

def join (jumpdests : ℕ → Bool) (m other : MemWords) : MemWords × Bool :=
  let words := m.words.filterMap (joinWord jumpdests other)
  (⟨words, m.pristine && other.pristine⟩, m.pristine && !other.pristine || words ≠ m.words)

end MemWords

end Evm2.Jit
