import Mathlib

/-!
# Counting the arguments of a function

`Count.count p c` is the number of arguments `k` with `p k (c k)`. Updating the function at one
argument changes it only by what is counted there (`Count.count_update`).
-/

namespace Count

variable {K V : Type} (p : K → V → Prop)

noncomputable def count (c : K → V) : ℕ := Set.ncard {k | p k (c k)}

noncomputable def one (k : K) (v : V) : ℕ :=
  open scoped Classical in if p k v then 1 else 0

theorem one_eq (k : K) (v : V) [Decidable (p k v)] : one p k v = if p k v then 1 else 0 := by
  unfold one
  congr

theorem one_pos {k : K} {v : V} (h : p k v) : one p k v = 1 := if_pos h

theorem one_neg {k : K} {v : V} (h : ¬p k v) : one p k v = 0 := if_neg h

theorem count_eq_zero {c : K → V} (h : ∀ k, ¬p k (c k)) : count p c = 0 := by
  have hempty : {k | p k (c k)} = ∅ := Set.eq_empty_of_forall_notMem h
  unfold count
  rw [hempty, Set.ncard_empty]

variable [Finite K] [DecidableEq K]

theorem count_eq (c : K → V) (k : K) :
    count p c = Set.ncard {x | x ≠ k ∧ p x (c x)} + one p k (c k) := by
  have hk : k ∉ {x | x ≠ k ∧ p x (c x)} := fun h => h.1 rfl
  unfold count
  by_cases h : p k (c k)
  · rw [one_pos p h, ← Set.ncard_insert_of_notMem hk (Set.toFinite _)]
    congr 1
    ext x
    by_cases hx : x = k
    · simp [hx, h]
    · simp [hx]
  · rw [one_neg p h, Nat.add_zero]
    congr 1
    ext x
    by_cases hx : x = k
    · simp [hx, h]
    · simp [hx]

theorem count_update (c : K → V) (k : K) (v : V) :
    count p (Function.update c k v) + one p k (c k) = count p c + one p k v := by
  have hrest : {x | x ≠ k ∧ p x (Function.update c k v x)} = {x | x ≠ k ∧ p x (c x)} := by
    ext x
    refine and_congr_right fun hx => ?_
    rw [Function.update_of_ne hx]
  rw [count_eq p c k, count_eq p (Function.update c k v) k, hrest, Function.update_self]
  omega

end Count
