import Evm2.Interpreter.Arithmetic

/-!
# Abstract values

The words an operand may hold, as far as the analysis of the compiler knows them. Interned
constants are kept as the words they stand for.

* `AbsValue`: a constant, a set of constants, a range of small words, or nothing known;
* `AbsValue.ofRange`, `AbsValue.bounds`: ranges and their bounds.
-/

namespace Evm2.Jit

def INLINE_TAG : ℕ := 2 ^ 31

/-- `RangeInclusive<u32>`: more than one inline immediate. -/
structure Span where
  start : ℕ
  last : ℕ
  start_lt : start < last
  last_lt : last < INLINE_TAG
  deriving DecidableEq, Repr

inductive AbsValue
  | const (value : Word)
  | constSet (values : List Word)
  | range (span : Span)
  | top
  deriving DecidableEq, Repr

def getInline (value : Word) : Option ℕ :=
  if value.toNat < INLINE_TAG then some value.toNat else none

namespace AbsValue

def Has : AbsValue → Word → Prop
  | const c, w => w = c
  | constSet cs, w => w ∈ cs
  | range s, w => s.start ≤ w.toNat ∧ w.toNat ≤ s.last
  | top, _ => True

instance (v : AbsValue) (w : Word) : Decidable (v.Has w) := by
  cases v <;> unfold Has <;> infer_instance

def asConst : AbsValue → Option Word
  | const v => some v
  | _ => none

/-- `AbsValue::range`, unless the last value is not an inline immediate. It is only called with
`start ≤ last`. -/
def ofRange (start last : ℕ) : Option AbsValue :=
  if hlast : last < INLINE_TAG then
    if start = last then some (const (BitVec.ofNat 256 last))
    else if hstart : start < last then some (range ⟨start, last, hstart, hlast⟩)
    else none
  else none

def bounds : AbsValue → Option (ℕ × ℕ)
  | const v => (getInline v).map fun v => (v, v)
  | range s => some (s.start, s.last)
  | constSet _ | top => none

variable {v : AbsValue} {w c : Word} {lo hi : ℕ}

theorem Has.eq_of_asConst (h : v.Has w) (hc : v.asConst = some c) : w = c := by
  cases v with
  | const c' =>
    cases hc
    exact h
  | _ => cases hc

theorem Has.within (h : v.Has w) (hb : v.bounds = some (lo, hi)) :
    lo ≤ w.toNat ∧ w.toNat ≤ hi ∧ hi < INLINE_TAG := by
  cases v with
  | const c =>
    obtain ⟨n, hn, heq⟩ := Option.map_eq_some_iff.mp hb
    unfold getInline at hn
    by_cases hlt : c.toNat < INLINE_TAG
    · rw [if_pos hlt] at hn
      cases hn
      cases heq
      rw [show w = c from h]
      exact ⟨le_rfl, le_rfl, hlt⟩
    · rw [if_neg hlt] at hn
      cases hn
  | range s =>
    cases hb
    exact ⟨h.1, h.2, s.last_lt⟩
  | constSet cs | top => cases hb

theorem le_of_bounds_none (hc : v.asConst = some c) (hb : v.bounds = none) :
    INLINE_TAG ≤ c.toNat := by
  cases v with
  | const c' =>
    cases hc
    by_contra hlt
    have hnone : getInline c = none := Option.map_eq_none_iff.mp hb
    unfold getInline at hnone
    rw [if_pos (Nat.lt_of_not_le hlt)] at hnone
    cases hnone
  | _ => cases hc

theorem has_ofRange (hv : ofRange lo hi = some v) (hlo : lo ≤ w.toNat) (hhi : w.toNat ≤ hi) :
    v.Has w := by
  unfold ofRange at hv
  by_cases hlast : hi < INLINE_TAG
  · rw [dif_pos hlast] at hv
    by_cases heq : lo = hi
    · rw [if_pos heq] at hv
      cases hv
      refine BitVec.eq_of_toNat_eq ?_
      unfold INLINE_TAG at hlast
      rw [BitVec.toNat_ofNat, Nat.mod_eq_of_lt (by omega)]
      omega
    · rw [if_neg heq] at hv
      by_cases hstart : lo < hi
      · rw [dif_pos hstart] at hv
        cases hv
        exact ⟨hlo, hhi⟩
      · rw [dif_neg hstart] at hv
        cases hv
  · rw [dif_neg hlast] at hv
    cases hv

end AbsValue

end Evm2.Jit
