import Evm2.Block.Accounts
import Evm2.Block.BlockState

/-!
# The sizes of a bundle

A bundle counts the size of its state and of its reverts.
-/

namespace Evm2

namespace BundleState

/-- Those of the reverts that wipe an account find no slots of it in `b`. -/
def HasNoSlots (b : BundleState) (reverts : List (Address × AccountRevert)) : Prop :=
  ∀ e ∈ reverts, e.2.wipeStorage = true →
    ∀ account, b.state.lookup e.1 = some account → account.storage.entries = []

/-- The reverts of `other` that wipe an account find no slots of it in `b`. -/
def WipesNoSlots (b other : BundleState) : Prop := b.HasNoSlots other.reverts.flatten

/-- The bundles that operations lead to, where a bundle is only extended by another one as `ok`
allows. -/
inductive Reached (ok : BundleState → BundleState → Prop) : BundleState → Prop
  | default : Reached ok default
  | apply {b b' : BundleState} (transitions : Map Address TransitionAccount)
      (retention : BundleRetention) (h : Reached ok b)
      (hb : b.applyTransitionsAndCreateReverts transitions retention = some b') : Reached ok b'
  | extend {b other : BundleState} (h : Reached ok b) (ho : Reached ok other)
      (hok : ok b other) : Reached ok (b.extend other)
  | prependState {b other : BundleState} (h : Reached ok b) (ho : Reached ok other)
      (hok : ok other b) : Reached ok (b.prependState other)
  | revertLatest {b : BundleState} (h : Reached ok b) : Reached ok b.revertLatest.2
  | revert {b : BundleState} (n : ℕ) (h : Reached ok b) : Reached ok (b.revert n)
  | takeNReverts {b : BundleState} (n : ℕ) (h : Reached ok b) : Reached ok (b.takeNReverts n)
  | takeAllReverts {b : BundleState} (h : Reached ok b) : Reached ok b.takeAllReverts

/-! ## One account -/

/-- The state is counted with an excess of `d`, and no subtraction went below zero. -/
structure Counted (d : ℕ) (b : BundleState) : Prop where
  state : b.stateSize = b.state.total BundleAccount.sizeHint + d
  underflowed : b.underflowed = false

theorem Counted.setAccount {d : ℕ} {b : BundleState} (h : b.Counted d) (a : Address)
    (e : Option BundleAccount) : (b.setAccount a e).Counted d := by
  have hle := Map.le_total BundleAccount.sizeHint b.state a
  have hsum := Map.total_alter BundleAccount.sizeHint b.state a fun _ => e
  have hst := h.state
  constructor
  · simp only [BundleState.setAccount]
    omega
  · simp only [BundleState.setAccount, h.underflowed, Bool.false_or, decide_eq_false_iff_not]
    omega

def sizeOfBlock (reverts : List (Address × AccountRevert)) : ℕ :=
  (reverts.map fun e => e.2.sizeHint).sum

theorem sizeOfReverts_append (l l' : List (List (Address × AccountRevert))) :
    sizeOfReverts (l ++ l') = sizeOfReverts l + sizeOfReverts l' := by
  simp [sizeOfReverts]

theorem sizeOfReverts_singleton (l : List (Address × AccountRevert)) :
    sizeOfReverts [l] = sizeOfBlock l := by
  simp [sizeOfReverts, sizeOfBlock]

theorem sizeOfReverts_cons (l : List (Address × AccountRevert))
    (ls : List (List (Address × AccountRevert))) :
    sizeOfReverts (l :: ls) = sizeOfBlock l + sizeOfReverts ls := by
  simp [sizeOfReverts, sizeOfBlock]

/-- All is counted, the state with an excess of `d`. -/
structure Sized (d : ℕ) (b : BundleState) : Prop extends Counted d b where
  reverts : b.revertsSize = sizeOfReverts b.reverts

/-! ## The operations -/

section Operations

variable {d : ℕ} {b : BundleState}

theorem Counted.applyOne {retention : BundleRetention} {rs : List (Address × AccountRevert)}
    {a : Address} {t : TransitionAccount} {s : BundleState × List (Address × AccountRevert)}
    (h : b.Counted d) (hs : applyOne retention (b, rs) a t = some s) :
    s.1.Counted d ∧ s.1.reverts = b.reverts ∧
      s.1.revertsSize + sizeOfBlock rs = b.revertsSize + sizeOfBlock s.2 := by
  unfold BundleState.applyOne at hs
  simp only [Option.bind_eq_bind] at hs
  obtain ⟨⟨account, r⟩, -, hs⟩ := Option.bind_eq_some_iff.mp hs
  have hb : ∀ contracts, ({ b with contracts := contracts } : BundleState).Counted d := fun _ =>
    ⟨h.state, h.underflowed⟩
  have hc := fun contracts => (hb contracts).setAccount a account
  cases hr : r.filter fun _ => retention.includesReverts with
  | none =>
    rw [hr] at hs
    cases hs
    exact ⟨hc _, rfl, rfl⟩
  | some r' =>
    rw [hr] at hs
    cases hs
    refine ⟨⟨(hc _).state, (hc _).underflowed⟩, rfl, ?_⟩
    simp only [sizeOfBlock, List.map_append, List.sum_append, List.map_cons, List.map_nil,
      List.sum_cons, List.sum_nil, BundleState.setAccount]
    omega

theorem Sized.apply {transitions : Map Address TransitionAccount} {retention : BundleRetention}
    {b' : BundleState} (h : b.Sized d)
    (hb : b.applyTransitionsAndCreateReverts transitions retention = some b') : b'.Sized d := by
  obtain ⟨⟨b₁, rs₁⟩, hs, rfl⟩ := Option.map_eq_some_iff.mp hb
  have hloop : ∀ (l : List (Σ _ : Address, TransitionAccount))
      (s s' : BundleState × List (Address × AccountRevert)),
      l.foldlM (fun s e => BundleState.applyOne retention s e.1 e.2) s = some s' →
      s.1.Counted d → s'.1.Counted d ∧ s'.1.reverts = s.1.reverts ∧
        s'.1.revertsSize + sizeOfBlock s.2 = s.1.revertsSize + sizeOfBlock s'.2 := by
    intro l
    induction l with
    | nil =>
      intro s s' hs hc
      cases hs
      exact ⟨hc, rfl, rfl⟩
    | cons e l ih =>
      intro s s' hs hc
      rw [List.foldlM_cons] at hs
      obtain ⟨s₁, hs₁, hs⟩ := Option.bind_eq_some_iff.mp hs
      obtain ⟨hc₁, hr₁, hz₁⟩ := hc.applyOne hs₁
      obtain ⟨hc', hr', hz'⟩ := ih s₁ s' hs hc₁
      exact ⟨hc', hr'.trans hr₁, by omega⟩
  obtain ⟨hc, hr, hz⟩ := hloop _ _ _ hs h.toCounted
  have hrev := h.reverts
  refine ⟨⟨hc.state, hc.underflowed⟩, ?_⟩
  simp only [sizeOfBlock, List.map_nil, List.sum_nil] at hz hr
  rw [sizeOfReverts_append, sizeOfReverts_singleton, hr]
  simp only [sizeOfBlock]
  omega

theorem Counted.revertOne {a : Address} {r : AccountRevert} (h : b.Counted d)
    (hle : r.sizeHint ≤ b.revertsSize) :
    (b.revertOne a r).Counted d ∧ (b.revertOne a r).reverts = b.reverts ∧
      (b.revertOne a r).revertsSize + r.sizeHint = b.revertsSize := by
  have hb : ({ b with
      revertsSize := b.revertsSize - r.sizeHint
      underflowed := b.underflowed || b.revertsSize < r.sizeHint } : BundleState).Counted d := by
    refine ⟨h.state, ?_⟩
    simp only [h.underflowed, Bool.false_or, decide_eq_false_iff_not]
    omega
  refine ⟨hb.setAccount a _, rfl, ?_⟩
  simp only [BundleState.revertOne, BundleState.setAccount]
  omega

theorem Sized.revertLatest (h : b.Sized d) : b.revertLatest.2.Sized d := by
  have hloop : ∀ (rs : List (Address × AccountRevert)) (b : BundleState), b.Counted d →
      b.revertsSize = sizeOfReverts b.reverts + sizeOfBlock rs →
      (rs.foldl (fun b e => b.revertOne e.1 e.2) b).Sized d := by
    intro rs
    induction rs with
    | nil => exact fun b hc hz => ⟨hc, hz⟩
    | cons e rs ih =>
      intro b hc hz
      have hsum : sizeOfBlock (e :: rs) = e.2.sizeHint + sizeOfBlock rs := rfl
      obtain ⟨hc', hr', hz'⟩ := hc.revertOne (a := e.1) (r := e.2) (by omega)
      refine ih (b.revertOne e.1 e.2) hc' ?_
      rw [hr']
      omega
  unfold BundleState.revertLatest
  cases hlast : b.reverts.getLast? with
  | none => exact h
  | some rs =>
    refine hloop rs _ ⟨h.state, h.underflowed⟩ ?_
    have hsplit := List.dropLast_append_getLast? rs hlast
    have hrev := h.reverts
    rw [← hsplit, sizeOfReverts_append, sizeOfReverts_singleton] at hrev
    exact hrev

theorem Sized.revert (h : b.Sized d) (n : ℕ) : (b.revert n).Sized d := by
  induction n generalizing b with
  | zero => exact h
  | succ n ih =>
    unfold BundleState.revert
    split_ifs
    · exact ih h.revertLatest
    · exact h

theorem Sized.takeNReverts (h : b.Sized d) (n : ℕ) : (b.takeNReverts n).Sized d := by
  unfold BundleState.takeNReverts
  split_ifs
  · exact ⟨⟨h.state, h.underflowed⟩, rfl⟩
  · exact ⟨⟨h.state, h.underflowed⟩, rfl⟩

end Operations

/-! ## Extending -/

section Extend

variable {d : ℕ} {b : BundleState}

theorem sizeHint_extendRevert (e : Option BundleAccount) (seen : Bool) (r : AccountRevert) :
    ((extendRevert e seen r).1.elim 0 BundleAccount.sizeHint ≤ e.elim 0 BundleAccount.sizeHint) ∧
      ((r.wipeStorage = true → ∀ account, e = some account → account.storage.entries = []) →
        (extendRevert e seen r).1.elim 0 BundleAccount.sizeHint =
          e.elim 0 BundleAccount.sizeHint) := by
  cases e with
  | none => exact ⟨Nat.le_refl _, fun _ => rfl⟩
  | some this =>
    unfold extendRevert
    cases hw : r.wipeStorage with
    | false => simp
    | true =>
      have hempty : (∅ : BundleStorage).entries = [] := rfl
      refine ⟨?_, fun h => ?_⟩
      · simp [BundleAccount.sizeHint, hempty]
      · simp [BundleAccount.sizeHint, hempty, h rfl this rfl]

theorem entries_extendRevert {e : Option BundleAccount} {seen : Bool} {r : AccountRevert}
    {account : BundleAccount} (h : (extendRevert e seen r).1 = some account) :
    account.storage.entries = [] ∨ e = some account := by
  cases e with
  | none => cases h
  | some this =>
    unfold extendRevert at h
    cases hw : r.wipeStorage with
    | false =>
      simp only [hw, Bool.false_eq_true, if_false] at h
      exact .inr h
    | true =>
      simp only [hw, if_true] at h
      cases h
      exact .inl rfl

theorem Counted.extendReverts (h : b.Counted d) (seen : List Address)
    (l : List (Address × AccountRevert)) :
    ∃ d', (extendReverts (b, seen) l).1.1.Counted d' ∧ (b.HasNoSlots l → d' = d) ∧
      (extendReverts (b, seen) l).1.1.reverts = b.reverts ∧
      (extendReverts (b, seen) l).1.1.revertsSize =
        b.revertsSize + sizeOfBlock (extendReverts (b, seen) l).2 ∧
      ∀ l', b.HasNoSlots l' → (extendReverts (b, seen) l).1.1.HasNoSlots l' := by
  induction l generalizing b d seen with
  | nil => exact ⟨d, h, fun _ => rfl, rfl, rfl, fun _ h' => h'⟩
  | cons e l ih =>
    obtain ⟨a, r⟩ := e
    have hstep := sizeHint_extendRevert (b.state.lookup a) (seen.contains a) r
    have hslots := @entries_extendRevert (b.state.lookup a) (seen.contains a) r
    simp only [BundleState.extendReverts]
    generalize extendRevert (b.state.lookup a) (seen.contains a) r = result at hstep hslots
    obtain ⟨account, r'⟩ := result
    have hsum := Map.total_alter BundleAccount.sizeHint b.state a fun _ => account
    have hst := h.state
    simp only at hstep hslots hsum ⊢
    set b₁ : BundleState := { b with
      state := b.state.alter a fun _ => account
      revertsSize := b.revertsSize + r'.sizeHint } with hb₁
    -- the excess grows by the size of what is moved
    have hb : b₁.Counted (d + ((b.state.lookup a).elim 0 BundleAccount.sizeHint -
        account.elim 0 BundleAccount.sizeHint)) := by
      refine ⟨?_, h.underflowed⟩
      simp only [hb₁]
      omega
    have hkeep : ∀ l', b.HasNoSlots l' → b₁.HasNoSlots l' := by
      intro l' hl' e he hw x hx
      rw [hb₁, Map.lookup_alter] at hx
      split_ifs at hx with ha
      · rcases hslots hx with hs | hs
        · exact hs
        · exact hl' e he hw x (by rw [ha, hs])
      · exact hl' e he hw x hx
    obtain ⟨d', hd', heq, hrev, hsize, hkeep'⟩ :=
      ih hb (if account.isSome then a :: seen else seen)
    refine ⟨d', hd', fun hno => ?_, hrev, ?_, fun l' hl' => hkeep' l' (hkeep l' hl')⟩
    · have hrest := heq (hkeep l fun e he => hno e (List.mem_cons_of_mem _ he))
      have hsame := hstep.2 fun hw x hx => hno (a, r) List.mem_cons_self hw x hx
      omega
    · have hcons : sizeOfBlock ((a, r') :: (extendReverts
          (b₁, if account.isSome then a :: seen else seen) l).2) = r'.sizeHint +
          sizeOfBlock (extendReverts (b₁, if account.isSome then a :: seen else seen) l).2 := rfl
      rw [hsize, hcons, hb₁]
      simp only
      omega

theorem Counted.extendBlocks (h : b.Counted d) (seen : List Address)
    (ls : List (List (Address × AccountRevert))) :
    ∃ d', (extendBlocks (b, seen) ls).1.1.Counted d' ∧ (b.HasNoSlots ls.flatten → d' = d) ∧
      (extendBlocks (b, seen) ls).1.1.reverts = b.reverts ∧
      (extendBlocks (b, seen) ls).1.1.revertsSize =
        b.revertsSize + sizeOfReverts (extendBlocks (b, seen) ls).2 := by
  induction ls generalizing b d seen with
  | nil => exact ⟨d, h, fun _ => rfl, rfl, rfl⟩
  | cons l ls ih =>
    obtain ⟨d₁, hc₁, heq₁, hrev₁, hsize₁, hkeep⟩ := h.extendReverts seen l
    simp only [BundleState.extendBlocks]
    generalize BundleState.extendReverts (b, seen) l = result at *
    obtain ⟨⟨b₁, seen₁⟩, l'⟩ := result
    obtain ⟨d₂, hc₂, heq₂, hrev₂, hsize₂⟩ := ih hc₁ seen₁
    refine ⟨d₂, hc₂, fun hno => ?_, hrev₂.trans hrev₁, ?_⟩
    · have h₁ := heq₁ fun e he => hno e (List.mem_flatten.mpr ⟨l, List.mem_cons_self, he⟩)
      have h₂ := heq₂ (hkeep _ fun e he => by
        obtain ⟨x, hx, he⟩ := List.mem_flatten.mp he
        exact hno e (List.mem_flatten.mpr ⟨x, List.mem_cons_of_mem _ hx, he⟩))
      exact h₂.trans h₁
    · simp only at hsize₁ hsize₂ ⊢
      rw [hsize₂, hsize₁, sizeOfReverts_cons]
      omega

theorem Counted.extendState (h : b.Counted d) (other : Map Address BundleAccount) :
    (b.extendState other).Counted d ∧ (b.extendState other).reverts = b.reverts ∧
      (b.extendState other).revertsSize = b.revertsSize := by
  unfold BundleState.extendState
  generalize other.entries = l
  induction l generalizing b with
  | nil => exact ⟨h, rfl, rfl⟩
  | cons e l ih =>
    obtain ⟨hc, hr, hs⟩ := ih (h.setAccount e.1 (some (extendAccount (b.state.lookup e.1) e.2)))
    exact ⟨hc, hr, hs⟩

theorem Sized.extend {d₂ : ℕ} {other : BundleState} (h : b.Sized d) (ho : other.Sized d₂) :
    ∃ d', (b.extend other).Sized d' ∧ (b.WipesNoSlots other → d' = d) := by
  obtain ⟨d', hc, heq, hrev, hsize⟩ := h.toCounted.extendBlocks [] other.reverts
  obtain ⟨hc', hrev', hsize'⟩ := hc.extendState other.state
  refine ⟨d', ⟨⟨hc'.state, ?_⟩, ?_⟩, heq⟩
  · simp only [BundleState.extend, hc'.underflowed, ho.underflowed, Bool.or_self]
  · simp only [BundleState.extend]
    rw [hrev', hsize', hrev, hsize, sizeOfReverts_append, h.reverts]

end Extend

/-! ## All runs -/

theorem reached_sized {ok : BundleState → BundleState → Prop} {b : BundleState}
    (h : Reached ok b) : ∃ d, b.Sized d ∧ ((∀ b o, ok b o → b.WipesNoSlots o) → d = 0) := by
  induction h with
  | default => exact ⟨0, ⟨⟨rfl, rfl⟩, rfl⟩, fun _ => rfl⟩
  | apply transitions retention _ hb ih =>
    obtain ⟨d, hd, h0⟩ := ih
    exact ⟨d, hd.apply hb, h0⟩
  | extend _ _ hok ih iho =>
    obtain ⟨d, hd, h0⟩ := ih
    obtain ⟨d₂, hd₂, -⟩ := iho
    obtain ⟨d', hd', heq⟩ := hd.extend hd₂
    exact ⟨d', hd', fun hall => (heq (hall _ _ hok)).trans (h0 hall)⟩
  | prependState _ _ hok ih iho =>
    obtain ⟨d, hd, -⟩ := ih
    obtain ⟨d₂, hd₂, h0⟩ := iho
    obtain ⟨d', hd', heq⟩ := hd₂.extend hd
    exact ⟨d', hd'.takeNReverts _, fun hall => (heq (hall _ _ hok)).trans (h0 hall)⟩
  | revertLatest _ ih =>
    obtain ⟨d, hd, h0⟩ := ih
    exact ⟨d, hd.revertLatest, h0⟩
  | revert n _ ih =>
    obtain ⟨d, hd, h0⟩ := ih
    exact ⟨d, hd.revert n, h0⟩
  | takeNReverts n _ ih =>
    obtain ⟨d, hd, h0⟩ := ih
    exact ⟨d, hd.takeNReverts n, h0⟩
  | takeAllReverts _ ih =>
    obtain ⟨d, hd, h0⟩ := ih
    exact ⟨d, ⟨⟨hd.state, hd.underflowed⟩, rfl⟩, h0⟩

/-- **The sizes are exact** in every run whose extensions move no slots into reverts. -/
theorem sizes_exact {b : BundleState} (h : Reached WipesNoSlots b) :
    b.stateSize = b.state.total BundleAccount.sizeHint ∧
      b.revertsSize = sizeOfReverts b.reverts ∧ b.underflowed = false := by
  obtain ⟨d, hd, h0⟩ := reached_sized h
  obtain rfl := h0 fun _ _ hok => hok
  exact ⟨hd.state, hd.reverts, hd.underflowed⟩

/-- A change of the nonce and of slot 3. -/
def changeTransition : TransitionAccount where
  info := some { AccountInfo.empty with nonce := 2 }
  status := .changed
  previousInfo := some { AccountInfo.empty with nonce := 1 }
  previousStatus := .loaded
  storage := AList.singleton 3 ⟨0, 5⟩
  storageWasDestroyed := false

/-- A deletion. -/
def destroyTransition : TransitionAccount where
  info := none
  status := .destroyed
  previousInfo := some { AccountInfo.empty with nonce := 2 }
  previousStatus := .loaded
  storage := ∅
  storageWasDestroyed := false

/-- The bundle of a block with one transition. -/
def ofTransition (a : Address) (t : TransitionAccount) : Option BundleState :=
  default.applyTransitionsAndCreateReverts (AList.singleton a t) .reverts

/-- The later bundle wipes an account that the earlier one does not have. -/
theorem sizes_exact_change :
    ∃ b o, ofTransition 1 changeTransition = some b ∧ ofTransition 2 destroyTransition = some o ∧
      o.reverts.flatten.map (fun e => e.2.wipeStorage) = [true] ∧ (b.extend o).stateSize = 3 := by
  have hsize : (ofTransition 1 changeTransition).bind (fun b =>
      (ofTransition 2 destroyTransition).map fun o =>
        ((b.extend o).state.total BundleAccount.sizeHint, o.reverts.flatten.map fun e =>
          (e.2.wipeStorage, (b.state.lookup e.1).isNone))) = some (3, [(true, true)]) := by
    decide +kernel
  obtain ⟨b, hb, hsize⟩ := Option.bind_eq_some_iff.mp hsize
  obtain ⟨o, ho, hsize⟩ := Option.map_eq_some_iff.mp hsize
  obtain ⟨htotal, hreverts⟩ := Prod.mk.inj hsize
  have hwipes : WipesNoSlots b o := by
    intro e he _ account haccount
    have hmem := List.mem_map_of_mem (f := fun e : Address × AccountRevert =>
      (e.2.wipeStorage, (b.state.lookup e.1).isNone)) he
    rw [hreverts] at hmem
    simp [haccount] at hmem
  have hreached : Reached WipesNoSlots (b.extend o) :=
    .extend (.apply _ _ .default hb) (.apply _ _ .default ho) hwipes
  refine ⟨b, o, hb, ho, ?_, (sizes_exact hreached).1.trans htotal⟩
  have hfst := congrArg (List.map Prod.fst) hreverts
  rwa [List.map_map] at hfst

/-- The slot of the account is moved into the revert of the later block, but it stays counted. -/
theorem extend_miscounts :
    ∃ b, Reached (fun _ _ => True) b ∧ b.stateSize = 2 ∧
      b.state.total BundleAccount.sizeHint = 1 := by
  have hsize : (ofTransition 1 changeTransition).bind (fun b =>
      (ofTransition 1 destroyTransition).map fun o =>
        ((b.extend o).stateSize, (b.extend o).state.total BundleAccount.sizeHint)) =
          some (2, 1) := by
    decide +kernel
  obtain ⟨b, hb, hsize⟩ := Option.bind_eq_some_iff.mp hsize
  obtain ⟨o, ho, hsize⟩ := Option.map_eq_some_iff.mp hsize
  exact ⟨b.extend o, .extend (.apply _ _ .default hb) (.apply _ _ .default ho) trivial,
    congrArg Prod.fst hsize, congrArg Prod.snd hsize⟩

end BundleState

end Evm2
