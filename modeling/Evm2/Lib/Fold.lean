import Mathlib

/-!
# Folds, one component at a time

A fold over events that each change only one component of a state is, for each component, a fold
over the events about it.
-/

namespace Fold

variable {σ ε ρ : Type}

theorem foldl_proj (π : σ → ρ) {step : σ → ε → σ} (own : ρ → ε → ρ) {mine : ε → Bool}
    (h : ∀ s e, π (step s e) = if mine e then own (π s) e else π s) (l : List ε) (s : σ) :
    π (l.foldl step s) = (l.filter mine).foldl own (π s) := by
  induction l generalizing s with
  | nil => rfl
  | cons e l ih =>
    rw [List.foldl_cons, ih, h, List.filter_cons]
    split_ifs with he
    · rw [List.foldl_cons]
    · rfl

theorem filter_key {α κ : Type} [DecidableEq κ] {key : α → κ} {l : List α}
    (hl : (l.map key).Nodup) (k : κ) :
    (l.filter fun x => key x = k) = (l.find? fun x => key x = k).toList := by
  induction l with
  | nil => rfl
  | cons x l ih =>
    obtain ⟨hx, hl⟩ := List.nodup_cons.mp hl
    rw [List.filter_cons, List.find?_cons]
    by_cases hk : key x = k
    · have hnone : (l.filter fun x => key x = k) = [] := by
        refine List.filter_eq_nil_iff.mpr fun y hy => ?_
        simp only [decide_eq_true_eq]
        intro hyk
        exact hx (List.mem_map.mpr ⟨y, hy, hyk.trans hk.symm⟩)
      simp [hk, hnone]
    · simp [hk, ih hl]

theorem filter_flatMap_key {α κ : Type} [DecidableEq κ] {key : α → κ} {events : α → List ε}
    {own : α → List ε} {mine : κ → ε → Bool}
    (h : ∀ x k, (events x).filter (mine k) = if key x = k then own x else []) {l : List α}
    (hl : (l.map key).Nodup) (k : κ) :
    (l.flatMap events).filter (mine k) = (l.find? fun x => key x = k).elim [] own := by
  have hall : (l.flatMap events).filter (mine k) = (l.filter fun x => key x = k).flatMap own := by
    clear hl
    induction l with
    | nil => rfl
    | cons x l ih =>
      rw [List.flatMap_cons, List.filter_append, h, ih, List.filter_cons]
      split_ifs with hk <;> simp_all
  rw [hall, filter_key hl]
  cases l.find? fun x => key x = k <;> simp

end Fold
