import Mathlib

/-!
# Runs of a step function

A step leads to another state, or ends the run with a result.

* `Runs.Ends step a r`: the run from `a` ends with `r`;
* `Runs.Reaches step a b`: the run from `a` passes through `b`;
* `Runs.Reaches.invariant`: what one step preserves holds along a run;
* **`Runs.Matched.ends`**: if related states step to related states, or both runs end with results
  that agree, however many steps either of them still takes, then one run ends if the other does.
-/

namespace Runs

variable {α β α' β' : Type*}

/-- The run ends with a result. -/
inductive Ends (step : α → α ⊕ β) : α → β → Prop
  | done {a : α} {r : β} (h : step a = .inr r) : Ends step a r
  | next {a b : α} {r : β} (h : step a = .inl b) (hr : Ends step b r) : Ends step a r

def Reaches (step : α → α ⊕ β) : α → α → Prop :=
  Relation.ReflTransGen fun a b => step a = .inl b

variable {step : α → α ⊕ β} {step' : α' → α' ⊕ β'}

theorem Ends.unique {a : α} {r r' : β} (h : Ends step a r) (h' : Ends step a r') : r = r' := by
  induction h with
  | done hdone =>
    cases h' with
    | done hdone' => exact Sum.inr.inj (hdone.symm.trans hdone')
    | next hnext _ => exact absurd (hdone.symm.trans hnext) Sum.inr_ne_inl
  | next hnext _ ih =>
    cases h' with
    | done hdone => exact absurd (hnext.symm.trans hdone) Sum.inl_ne_inr
    | next hnext' hr =>
      obtain rfl := Sum.inl.inj (hnext.symm.trans hnext')
      exact ih hr

theorem Reaches.invariant {I : α → Prop} (hstep : ∀ a b, I a → step a = .inl b → I b) {a b : α}
    (h : Reaches step a b) (ha : I a) : I b := by
  induction h with
  | refl => exact ha
  | tail _ hlast ih => exact hstep _ _ ih hlast

/-- Two states step to related states, or both of their runs end with results that agree. -/
def Matched (step : α → α ⊕ β) (step' : α' → α' ⊕ β') (R : α → α' → Prop) (Q : β → β' → Prop)
    (a : α) (a' : α') : Prop :=
  (∃ b b', step a = .inl b ∧ step' a' = .inl b' ∧ R b b') ∨
    ∃ r r', Ends step a r ∧ Ends step' a' r' ∧ Q r r'

variable {R : α → α' → Prop} {Q : β → β' → Prop}

theorem Matched.ends (hR : ∀ a a', R a a' → Matched step step' R Q a a') {a : α} {a' : α'}
    (ha : R a a') {r : β} (hr : Ends step a r) : ∃ r', Ends step' a' r' ∧ Q r r' := by
  induction hr generalizing a' with
  | done hdone =>
    rcases hR _ _ ha with ⟨b, b', hnext, -, -⟩ | ⟨s, s', hs, hs', hQ⟩
    · exact absurd (hdone.symm.trans hnext) Sum.inr_ne_inl
    · obtain rfl := hs.unique (.done hdone)
      exact ⟨s', hs', hQ⟩
  | next hnext hrest ih =>
    rcases hR _ _ ha with ⟨b, b', hnext', hstep', hb⟩ | ⟨s, s', hs, hs', hQ⟩
    · obtain rfl := Sum.inl.inj (hnext.symm.trans hnext')
      obtain ⟨r', hr', hQ⟩ := ih hb
      exact ⟨r', .next hstep' hr', hQ⟩
    · obtain rfl := hs.unique (.next hnext hrest)
      exact ⟨s', hs', hQ⟩

theorem Matched.ends_symm (hR : ∀ a a', R a a' → Matched step step' R Q a a') {a : α} {a' : α'}
    (ha : R a a') {r' : β'} (hr : Ends step' a' r') : ∃ r, Ends step a r ∧ Q r r' := by
  refine Matched.ends (R := fun a' a => R a a') (Q := fun r' r => Q r r') ?_ ha hr
  rintro b' b hb
  rcases hR b b' hb with ⟨c, c', hc, hc', hcR⟩ | ⟨s, s', hs, hs', hQ⟩
  · exact Or.inl ⟨c', c, hc', hc, hcR⟩
  · exact Or.inr ⟨s', s, hs', hs, hQ⟩

end Runs
