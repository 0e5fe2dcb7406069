import Mathlib

/-!
# Fixed-width counters

Unsigned and signed 64-bit counters as `Nat` and `Int`, with the operations that saturate or wrap
written out. Each operation is exact when its result fits (`satAdd64_eq`, `wrapSub64_eq`, …).
-/

def maxU64 : Nat := 2 ^ 64 - 1

@[irreducible]
def satAdd64 (a b : Nat) : Nat := min (a + b) maxU64

@[irreducible]
def satMul64 (a b : Nat) : Nat := min (a * b) maxU64

@[irreducible]
def wrapSub64 (a b : Nat) : Nat := (a + 2 ^ 64 - b % 2 ^ 64) % 2 ^ 64

@[irreducible]
def wrapAdd64 (a b : Nat) : Nat := (a + b) % 2 ^ 64

def maxI64 : Int := 2 ^ 63 - 1

def minI64 : Int := -2 ^ 63

@[irreducible]
def clampI64 (x : Int) : Int := max minI64 (min x maxI64)

@[irreducible]
def wrapI64 (x : Int) : Int := x.bmod (2 ^ 64)

@[irreducible]
def satAddSigned64 (a : Nat) (x : Int) : Nat := (max 0 (min ((a : Int) + x) maxU64)).toNat

variable {a b : Nat} {x : Int}

theorem satAdd64_eq (h : a + b < 2 ^ 64) : satAdd64 a b = a + b := by
  simp only [satAdd64, maxU64]
  omega

theorem satAdd64_le (a b : Nat) : satAdd64 a b ≤ a + b := by
  simp only [satAdd64]
  omega

theorem wrapSub64_eq (hb : b ≤ a) (ha : a < 2 ^ 64) : wrapSub64 a b = a - b := by
  simp only [wrapSub64]
  omega

theorem wrapAdd64_eq (h : a + b < 2 ^ 64) : wrapAdd64 a b = a + b := by
  simp only [wrapAdd64]
  omega

theorem wrapAdd64_lt (a b : Nat) : wrapAdd64 a b < 2 ^ 64 := by
  simp only [wrapAdd64]
  omega

theorem clampI64_eq (h₁ : minI64 ≤ x) (h₂ : x ≤ maxI64) : clampI64 x = x := by
  simp only [clampI64]
  omega

theorem wrapI64_eq (h₁ : minI64 ≤ x) (h₂ : x ≤ maxI64) : wrapI64 x = x := by
  unfold minI64 at h₁
  unfold maxI64 at h₂
  unfold wrapI64
  refine Int.bmod_eq_of_le ?_ ?_ <;> omega

theorem clampI64_of_natAbs (h : x.natAbs < 2 ^ 63) : clampI64 x = x :=
  clampI64_eq (by unfold minI64; omega) (by unfold maxI64; omega)

theorem wrapI64_of_natAbs (h : x.natAbs < 2 ^ 63) : wrapI64 x = x :=
  wrapI64_eq (by unfold minI64; omega) (by unfold maxI64; omega)

theorem wrapI64_add_left (x y : Int) : wrapI64 (wrapI64 x + y) = wrapI64 (x + y) := by
  unfold wrapI64
  exact Int.bmod_add_bmod

theorem satAddSigned64_eq (h₁ : 0 ≤ (a : Int) + x) (h₂ : (a : Int) + x < 2 ^ 64) :
    (satAddSigned64 a x : Int) = a + x := by
  simp only [satAddSigned64, maxU64]
  omega
