import Evm2.Block.Bundle
import Evm2.Lib.Fold

/-!
# A bundle, account by account

The operations of a bundle treat each account on its own. These are the laws that reduce them to one
account: the account that the bundle has, if any, and the reverts that the blocks recorded of it.

* **`BundleState.apply_spec`**, `BundleState.apply_isSome`: applying the transitions of a block.
-/

namespace Evm2

namespace BundleState

@[simp]
theorem lookup_setAccount (b : BundleState) (a' : Address) (e : Option BundleAccount)
    (a : Address) :
    (b.setAccount a' e).state.lookup a = if a = a' then e else b.state.lookup a :=
  Map.lookup_alter b.state a' a fun _ => e

/-! ## Transitions -/

def progress (s : BundleState × List (Address × AccountRevert)) (a : Address) :
    Option BundleAccount × Option AccountRevert :=
  (s.1.state.lookup a, s.2.lookup a)

def progressOne (retention : BundleRetention) (x : Option BundleAccount × Option AccountRevert)
    (t : TransitionAccount) : Option (Option BundleAccount × Option AccountRevert) :=
  (applyTransition x.1 t).map fun (e, r) =>
    (e, x.2.or (r.filter fun _ => retention.includesReverts))

theorem applyOne_eq (retention : BundleRetention)
    (s : BundleState × List (Address × AccountRevert)) (a : Address) (t : TransitionAccount) :
    (applyOne retention s a t = none ↔ applyTransition (s.1.state.lookup a) t = none) ∧
      ∀ s', applyOne retention s a t = some s' →
        (∃ x, progressOne retention (progress s a) t = some x ∧
          ∀ a', progress s' a' = if a' = a then x else progress s a') ∧
        s'.1.reverts = s.1.reverts ∧
        (s'.2 = s.2 ∨ ∃ r, s'.2 = s.2 ++ [(a, r)]) := by
  unfold applyOne
  cases h : applyTransition (s.1.state.lookup a) t with
  | none => simp
  | some result =>
    obtain ⟨e, r⟩ := result
    simp only [Option.bind_eq_bind, Option.bind_some]
    cases hr : r.filter fun _ => retention.includesReverts with
    | none =>
      refine ⟨by simp, ?_⟩
      rintro s' hs'
      cases hs'
      refine ⟨⟨(e, (s.2.lookup a).or none), by simp [progressOne, progress, h, hr], fun a' => ?_⟩,
        rfl, .inl rfl⟩
      simp only [progress, lookup_setAccount]
      split_ifs with ha
      · subst ha
        simp
      · rfl
    | some r' =>
      refine ⟨by simp, ?_⟩
      rintro s' hs'
      cases hs'
      refine ⟨⟨(e, (s.2.lookup a).or (some r')), by simp [progressOne, progress, h, hr],
        fun a' => ?_⟩, rfl, .inr ⟨r', rfl⟩⟩
      simp only [progress, lookup_setAccount, List.lookup_append]
      split_ifs with ha
      · subst ha
        simp [List.lookup]
      · have hb : (a' == a) = false := by simpa using ha
        simp [List.lookup, hb]

theorem reverts_foldlM {retention : BundleRetention} {l : List (Σ _ : Address, TransitionAccount)}
    {s s' : BundleState × List (Address × AccountRevert)}
    (h : l.foldlM (fun s e => applyOne retention s e.1 e.2) s = some s') :
    s'.1.reverts = s.1.reverts ∧ ∃ rs, s'.2 = s.2 ++ rs ∧ (rs.map Prod.fst).Sublist l.keys := by
  induction l generalizing s with
  | nil => cases h; exact ⟨rfl, [], by simp, List.nil_sublist _⟩
  | cons e l ih =>
    rw [List.foldlM_cons] at h
    obtain ⟨s₁, hs₁, h⟩ := Option.bind_eq_some_iff.mp h
    obtain ⟨-, hrev, hadd⟩ := (applyOne_eq retention s e.1 e.2).2 s₁ hs₁
    obtain ⟨hrev', rs, hrs, hsub⟩ := ih h
    refine ⟨hrev'.trans hrev, ?_⟩
    rcases hadd with hadd | ⟨r, hadd⟩
    · exact ⟨rs, by rw [hrs, hadd], hsub.cons _⟩
    · refine ⟨(e.1, r) :: rs, by rw [hrs, hadd]; simp, ?_⟩
      exact hsub.cons_cons e.1

/-- **Applying the transitions of a block, for each account.** -/
theorem apply_spec {b b' : BundleState} {transitions : Map Address TransitionAccount}
    {retention : BundleRetention}
    (h : b.applyTransitionsAndCreateReverts transitions retention = some b') :
    ∃ rs, b'.reverts = b.reverts ++ [rs] ∧ (rs.map Prod.fst).Nodup ∧ ∀ a,
      match transitions.lookup a with
      | none => b'.state.lookup a = b.state.lookup a ∧ rs.lookup a = none
      | some t => ∃ r, applyTransition (b.state.lookup a) t = some (b'.state.lookup a, r) ∧
        rs.lookup a = r.filter fun _ => retention.includesReverts := by
  obtain ⟨⟨b₁, rs⟩, hs, rfl⟩ := Option.map_eq_some_iff.mp h
  obtain ⟨hrev, rs', hrs, hsub⟩ := reverts_foldlM hs
  rw [List.nil_append] at hrs
  obtain rfl : rs = rs' := hrs
  refine ⟨rs, congrArg (· ++ [rs]) hrev, List.Nodup.sublist hsub transitions.nodupKeys,
    fun a => ?_⟩
  have hown := Map.foldlM_entries_eq_some progress (progressOne retention)
    (fun s k v s' hs' => ((applyOne_eq retention s k v).2 s' hs').1) transitions hs a
  cases ht : transitions.lookup a with
  | none =>
    rw [ht] at hown
    have hsame := Option.some.inj hown
    exact ⟨(congrArg Prod.fst hsame).symm, (congrArg Prod.snd hsame).symm⟩
  | some t =>
    rw [ht] at hown
    obtain ⟨⟨e, r⟩, htr, he⟩ := Option.map_eq_some_iff.mp hown
    simp only [progress, List.lookup, Option.none_or, Prod.mk.injEq] at htr he
    exact ⟨r, by rw [htr, he.1], he.2.symm⟩

theorem apply_isSome {b : BundleState} {transitions : Map Address TransitionAccount}
    (retention : BundleRetention)
    (h : ∀ a t, transitions.lookup a = some t →
      (applyTransition (b.state.lookup a) t).isSome) :
    (b.applyTransitionsAndCreateReverts transitions retention).isSome := by
  have hstep : ∀ s k v r, progressOne retention (progress s k) v = some r →
      ∃ s', applyOne retention s k v = some s' ∧
        ∀ k', progress s' k' = if k' = k then r else progress s k' := by
    intro s k v r hr
    obtain ⟨hnone, hsome⟩ := applyOne_eq retention s k v
    cases hs' : applyOne retention s k v with
    | none =>
      have := hnone.mp hs'
      simp [progressOne, progress, this] at hr
    | some s' =>
      obtain ⟨⟨x, hx, hall⟩, -⟩ := hsome s' hs'
      rw [hr] at hx
      cases hx
      exact ⟨s', rfl, hall⟩
  obtain ⟨s', hs', -⟩ := Map.foldlM_entries_isSome progress (progressOne retention) hstep
    transitions (s := (b, [])) fun a t ht => by simpa [progressOne, progress] using h a t ht
  simp [applyTransitionsAndCreateReverts, hs']

end BundleState

end Evm2
