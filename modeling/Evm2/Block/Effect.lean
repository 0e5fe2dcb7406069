import Evm2.Block.Transitions
import Evm2.Block.Write

/-!
# What a block does to the state

The changes of a block's transactions are applied one after another to a plain state, and are
committed to a `BlockState` at the same time.
-/

namespace Evm2

/-! ## The changes of a block -/

namespace AccountChanges

variable {c : AccountChanges} {x : PlainAccount}

theorem Follows.commit (h : c.Follows x) : c.commit.Follows x where
  original := by simpa [AccountChanges.commit, Function.comp_def] using h.original
  slot k slot hk := by
    obtain ⟨s, hs, rfl⟩ := StorageOverlay.lookup_changedSlotMap hk
    exact h.slot k s hs
  absent hn k slot hk := by
    obtain ⟨s, hs, rfl⟩ := StorageOverlay.lookup_changedSlotMap hk
    exact h.absent (Option.map_eq_none_iff.mp hn) k s hs

theorem apply_commit (c : AccountChanges) (x : PlainAccount) : c.commit.apply x = c.apply x := by
  refine PlainAccount.ext ?_ (funext fun k => ?_)
  · simp [AccountChanges.commit, AccountCommit.apply, apply, Function.comp_def]
  · simp only [AccountChanges.commit, AccountCommit.apply, apply, written, Option.isNone_map]
    cases c.storage.changedSlotMap.lookup k <;> rfl

theorem apply_of_not_isChanged (h : c.Follows x) (hx : x.info = none → ∀ k, x.storage k = 0)
    (hc : c.isChanged = false) : c.apply x = x := by
  simp only [isChanged, isInfoChanged, StorageOverlay.isChanged, Bool.or_eq_false_iff,
    Bool.not_eq_false'] at hc
  obtain ⟨⟨⟨hinfo, -⟩, -⟩, hw, hslots⟩ := hc
  have hsame : c.current.map AccountInfo.plain = x.info :=
    (optInfoEq_iff_plain.mp hinfo).symm.trans h.original
  have hnone : ∀ k, c.storage.changedSlotMap.lookup k = none := by
    intro k
    rw [StorageOverlay.changedSlotMap, Map.lookup_filterMapValues]
    cases hk : c.storage.slots.lookup k with
    | none => rfl
    | some slot =>
      have hmem := AList.mem_lookup_iff.mp hk
      rw [StorageOverlay.changedSlots, List.isEmpty_iff, List.filterMap_eq_nil_iff] at hslots
      have := hslots _ hmem
      simpa [StorageOverlay.changedValue] using this
  refine PlainAccount.ext hsame (funext fun k => ?_)
  simp only [apply, written, hnone, hw]
  cases hn : c.current with
  | none =>
    have hz := hx (by rw [← hsame, hn]; rfl)
    simp [hz]
  | some info => simp

end AccountChanges

def BlockState.ofChanges (changes : List AccountChanges) : BlockState :=
  changes.foldl BlockState.commitAccountChanges BlockState.new

def changesAt (a : Address) (changes : List AccountChanges) : List AccountCommit :=
  (changes.filter fun c => c.isChanged && c.address == a).map AccountChanges.commit

theorem lookup_ofChanges (changes : List AccountChanges) (a : Address) :
    (BlockState.ofChanges changes).transitions.lookup a =
      AccountCommit.transitions none (changesAt a changes) := by
  have hstep : ∀ (s : BlockState) (c : AccountChanges),
      (s.commitAccountChanges c).transitions.lookup a =
        if (c.isChanged && c.address == a) = true then
          some (c.commit.transition (s.transitions.lookup a))
        else s.transitions.lookup a := by
    intro s c
    unfold BlockState.commitAccountChanges
    cases hc : c.isChanged with
    | false => simp
    | true =>
      simp only [if_true, BlockState.commitAccount, Map.lookup_alter, Bool.true_and, beq_iff_eq]
      by_cases h : c.address = a
      · subst h
        cases c.code <;> simp
      · cases c.code <;> simp [h, Ne.symm h]
  rw [BlockState.ofChanges, Fold.foldl_proj (fun s : BlockState => s.transitions.lookup a)
    (fun t c => some (c.commit.transition t)) hstep, AccountCommit.transitions, changesAt,
    List.foldl_map]
  rfl

theorem chain_changesAt {a : Address} {changes : List AccountChanges} {D : PlainState}
    (hD : (D a).info = none → ∀ k, (D a).storage k = 0) (h : Chained D changes) :
    AccountCommit.Chain (D a) (changesAt a changes) ∧
      AccountCommit.applyAll (D a) (changesAt a changes) = D.commitAll changes a := by
  induction changes generalizing D with
  | nil => exact ⟨trivial, rfl⟩
  | cons c changes ih =>
    obtain ⟨hc, hrest⟩ := h
    by_cases ha : c.address = a
    · subst ha
      have hstep : D.commit c c.address = c.apply (D c.address) := Function.update_self _ _ _
      have hzero : (D.commit c c.address).info = none →
          ∀ k, (D.commit c c.address).storage k = 0 := by
        rw [hstep]
        intro hn k
        simp [AccountChanges.apply, Option.map_eq_none_iff.mp hn]
      obtain ⟨hchain, happly⟩ := ih hzero hrest
      rw [hstep] at hchain happly
      cases hch : c.isChanged with
      | false =>
        rw [AccountChanges.apply_of_not_isChanged hc hD hch] at hchain happly
        simp only [changesAt, List.filter_cons, hch, Bool.false_and, Bool.false_eq_true, if_false]
        exact ⟨hchain, happly⟩
      | true =>
        simp only [changesAt, List.filter_cons, hch, Bool.true_and, beq_self_eq_true, if_true]
        rw [← AccountChanges.apply_commit] at hchain happly
        exact ⟨⟨hc.commit, hchain⟩, happly⟩
    · have hstep : D.commit c a = D a := Function.update_of_ne (Ne.symm ha) _ _
      obtain ⟨hchain, happly⟩ := ih (by rw [hstep]; exact hD) hrest
      rw [hstep] at hchain happly
      have hat : changesAt a (c :: changes) = changesAt a changes := by
        simp [changesAt, ha]
      rw [hat]
      exact ⟨hchain, happly⟩

theorem block_tracks {D : PlainState} {a : Address} {changes : List AccountChanges}
    (hD : (D a).info = none → ∀ k, (D a).storage k = 0) (h : Chained D changes) :
    match (BlockState.ofChanges changes).transitions.lookup a with
    | none => D.commitAll changes a = D a
    | some t => Tracks (D a) (D.commitAll changes a) (fun k => ∃ c ∈ changesAt a changes, c.Lists k)
        t := by
  obtain ⟨hchain, happly⟩ := chain_changesAt hD h
  rw [lookup_ofChanges, ← happly]
  by_cases hne : changesAt a changes = []
  · rw [hne]
    rfl
  · obtain ⟨u, hu, htr⟩ := tracks_transitions hD hchain hne
    rw [hu]
    exact htr

theorem intoBundle_ofChanges (changes : List AccountChanges) :
    ∃ b, (BlockState.ofChanges changes).intoBundle = some b :=
  Option.isSome_iff_exists.mp (intoBundle_isSome fun a _ ht =>
    TransitionAccount.legal_transitions (t := none) (by simp)
      ((lookup_ofChanges changes a).symm.trans ht))

/-! ## Reverts -/

def AccountInfoRevert.RevertsTo (info : Option PlainInfo) : AccountInfoRevert → Prop
  | doNothing => False
  | deleteIt => info = none
  | revertTo i => info = some i.plain

def AccountInfoRevert.Leaves (info : Option PlainInfo) : AccountInfoRevert → Prop
  | doNothing => True
  | deleteIt => False
  | revertTo i => info = some i.plain

/-- A transaction's changes list slot `k` of the account at `a`, which they wipe or delete. -/
def AccountChanges.Replaces (c : AccountChanges) (a : Address) (k : Word) : Prop :=
  c.address = a ∧ (c.current = none ∨ c.storage.wiped = true) ∧
    (c.storage.changedSlotMap.lookup k).isSome

/-- The revert of an account tells what it was before the block. -/
structure AccountRevert.Restores (before after : PlainAccount) (replaced : Word → Prop)
    (r : Option AccountRevert) : Prop where
  info : after.info ≠ before.info → ∃ r', r = some r' ∧ r'.account.RevertsTo before.info
  sameInfo : after.info = before.info → ∀ r', r = some r' → r'.account.Leaves before.info
  slot : ∀ k, after.storage k ≠ before.storage k → ∃ r', r = some r' ∧
    (r'.storage.lookup k = some (.some (before.storage k)) ∨
      (r'.wipeStorage = true ∧
        (r'.storage.lookup k = none ∨ r'.storage.lookup k = some .destroyed)) ∨
      r'.account = .deleteIt)
  value : ∀ r' k w, r = some r' → r'.storage.lookup k = some (.some w) →
    w = before.storage k ∨ (r'.account = .deleteIt ∧ replaced k)

section Restores

variable {x₀ x : PlainAccount} {listed : Word → Prop} {t : TransitionAccount}

theorem AccountRevert.Restores.none (hi : x.info = x₀.info)
    (hs : ∀ k, x.storage k = x₀.storage k) : AccountRevert.Restores x₀ x listed none where
  info hne := absurd hi hne
  sameInfo _ r hr := by cases hr
  slot k hne := absurd (hs k) hne
  value r k w hr := by cases hr

theorem Tracks.infoRevert_revertsTo (h : Tracks x₀ x listed t)
    (hp : t.previousStatus ≠ .loadedNotExisting) (hne : x.info ≠ x₀.info) :
    t.infoRevert.RevertsTo x₀.info := by
  have hdiff : ¬optInfoEq t.previousInfo t.info = true := fun he =>
    hne (by rw [← h.info, ← h.previousInfo, optInfoEq_iff_plain.mp he])
  rw [h.legal.previous] at hp
  cases hi : t.previousInfo with
  | none => exact absurd (loadedStatus_eq_loadedNotExisting.mpr hi) hp
  | some info =>
    rw [TransitionAccount.infoRevert, if_neg hdiff, hi, ← h.previousInfo, hi]
    rfl

theorem Tracks.infoRevert_leaves (h : Tracks x₀ x listed t) (he : x.info = x₀.info) :
    t.infoRevert = .doNothing := by
  rw [TransitionAccount.infoRevert, if_pos]
  exact optInfoEq_iff_plain.mpr (by rw [h.info, h.previousInfo, he])

theorem lookup_previousStorageFromUpdate (update : BundleStorage) (k : Word) :
    (BundleAccount.previousStorageFromUpdate update).lookup k =
      (update.lookup k).bind fun slot =>
        if slot.isChanged then some (.some slot.original) else none :=
  Map.lookup_filterMapValues update _ k

theorem Tracks.restores_keep (h : Tracks x₀ x listed t)
    (hp : t.previousStatus ≠ .loadedNotExisting) (hd : t.status.wasDestroyed = false) :
    AccountRevert.Restores x₀ x listed ((some t.keepRevert).filter fun r => !r.isEmpty) := by
  have hor : ∀ k slot, t.storage.lookup k = some slot → slot.original = x₀.storage k := by
    intro k slot hk
    simpa [hd] using h.original k slot hk
  refine ⟨fun hne => ⟨t.keepRevert, ?_, h.infoRevert_revertsTo hp hne⟩, fun he r hr => ?_,
    fun k hne => ?_, fun r k w hr hk => ?_⟩
  · have hrev := h.infoRevert_revertsTo hp hne
    refine Option.filter_eq_some_iff.mpr ⟨rfl, ?_⟩
    simp only [AccountRevert.isEmpty, TransitionAccount.keepRevert]
    cases hi : t.infoRevert with
    | doNothing => rw [hi] at hrev; exact hrev.elim
    | deleteIt | revertTo info => simp
  · obtain rfl := Option.some.inj (Option.filter_eq_some_iff.mp hr).1
    simp only [TransitionAccount.keepRevert, h.infoRevert_leaves he]
    trivial
  · -- a slot with a new value is one of the transition's, and recorded
    have hst := h.storage k
    cases hk : t.storage.lookup k with
    | none =>
      rw [hk] at hst
      simp only [hd, Bool.false_eq_true, if_false] at hst
      exact absurd hst hne
    | some slot =>
      rw [hk] at hst
      simp only at hst
      have hlk : t.keepRevert.storage.lookup k = some (.some (x₀.storage k)) := by
        refine (lookup_previousStorageFromUpdate t.storage k).trans ?_
        rw [hk, Option.bind_some, if_pos, hor k slot hk]
        simp [Tracked.isChanged, hor k slot hk, ← hst, Ne.symm hne]
      refine ⟨t.keepRevert, Option.filter_eq_some_iff.mpr ⟨rfl, ?_⟩, .inl hlk⟩
      have hne' : t.keepRevert.storage.entries ≠ [] := by
        intro he
        have hmem := AList.mem_lookup_iff.mp hlk
        rw [he] at hmem
        cases hmem
      simp [AccountRevert.isEmpty, hne']
  · obtain rfl := Option.some.inj (Option.filter_eq_some_iff.mp hr).1
    replace hk := (lookup_previousStorageFromUpdate t.storage k).symm.trans hk
    obtain ⟨slot, hslot, hw⟩ := Option.bind_eq_some_iff.mp hk
    split_ifs at hw
    cases hw
    exact .inl (hor k slot hslot)

theorem Tracks.restores_created (hx₀ : x₀.info = none → ∀ k, x₀.storage k = 0)
    (h : Tracks x₀ x listed t) (hp : t.previousStatus = .loadedNotExisting)
    (hi : t.info ≠ none) : AccountRevert.Restores x₀ x listed (some t.createdRevert) := by
  have hnone : t.previousInfo = none :=
    loadedStatus_eq_loadedNotExisting.mp (h.legal.previous.symm.trans hp)
  have hx : x₀.info = none := by rw [← h.previousInfo, hnone]; rfl
  refine ⟨fun _ => ⟨_, rfl, hx⟩, fun he => ?_, fun k _ => ⟨_, rfl, .inr (.inr rfl)⟩,
    fun r k w hr hk => ?_⟩
  · rw [hx, ← h.info] at he
    exact absurd (Option.map_eq_none_iff.mp he) hi
  · cases hr
    replace hk := (lookup_previousStorageFromUpdate t.storage k).symm.trans hk
    obtain ⟨slot, hslot, hw⟩ := Option.bind_eq_some_iff.mp hk
    split_ifs at hw
    cases hw
    have hor := h.original k slot hslot
    split_ifs at hor
    · exact hor.imp (fun h0 => h0.trans (hx₀ hx k).symm) fun hl => ⟨rfl, hl⟩
    · exact .inl hor

theorem Tracks.restores_wipe (h : Tracks x₀ x listed t)
    (hp : t.previousStatus ≠ .loadedNotExisting) :
    AccountRevert.Restores x₀ x listed (some t.wipeRevert) := by
  refine ⟨fun hne => ⟨_, rfl, h.infoRevert_revertsTo hp hne⟩, fun he r hr => ?_,
    fun k _ => ⟨_, rfl, .inr (.inl ⟨rfl, t.lookup_wipeRevert k⟩)⟩, fun r k w hr hk => ?_⟩
  · cases hr
    simp only [TransitionAccount.wipeRevert, h.infoRevert_leaves he]
    trivial
  · cases hr
    rcases t.lookup_wipeRevert k with hn | hn <;> simp [hn] at hk

theorem Tracks.restores (hx₀ : x₀.info = none → ∀ k, x₀.storage k = 0)
    (h : Tracks x₀ x listed t) {r : Option AccountRevert} (hr : t.createRevert = some r) :
    AccountRevert.Restores x₀ x listed r := by
  rcases t.createRevert_cases h.legal with ⟨hp, hs, hc⟩ | ⟨hp, hs, hc⟩ | ⟨hp, -, hc⟩ | ⟨hp, hs, hc⟩
  · obtain rfl := Option.some.inj (hc.symm.trans hr)
    exact h.restores_keep hp (by rcases hs with hs | hs <;> rw [hs] <;> rfl)
  · obtain rfl := Option.some.inj (hc.symm.trans hr)
    refine h.restores_created hx₀ hp fun hn => ?_
    have habs := h.legal.absent.mp hn
    rcases hs with hs | hs <;> rw [hs] at habs <;> cases habs
  · obtain rfl := Option.some.inj (hc.symm.trans hr)
    exact h.restores_wipe hp
  · -- the account was absent, and it is absent again
    obtain rfl := Option.some.inj (hc.symm.trans hr)
    have hn := h.legal.absent.mpr hs
    have hx : x₀.info = none := by
      rw [← h.previousInfo,
        loadedStatus_eq_loadedNotExisting.mp (h.legal.previous.symm.trans hp)]
      rfl
    refine .none (by rw [← h.info, hn, hx]; rfl) fun k => ?_
    exact (h.absent hn k).trans (hx₀ hx k).symm

end Restores

/-- **The reverts of a block determine the state before it.** A value that a revert records is that
of before, but for a slot that a transaction listed when it wiped or deleted an account which was
absent before the block. -/
theorem reverts_determine_previous_state (D : PlainState) (hD : ∀ a, (D a).Regular)
    (changes : List AccountChanges) (h : Chained D changes) :
    ∃ b rs, (BlockState.ofChanges changes).intoBundle = some b ∧ b.reverts = [rs] ∧ ∀ a,
      AccountRevert.Restores (D a) (D.commitAll changes a)
        (fun k => ∃ c ∈ changes, c.Replaces a k) (rs.lookup a) := by
  obtain ⟨b, hb⟩ := intoBundle_ofChanges changes
  obtain ⟨rs, hrs, -, hall⟩ := intoBundle_spec hb
  refine ⟨b, rs, hb, hrs, fun a => ?_⟩
  have hx₀ : (D a).info = none → ∀ k, (D a).storage k = 0 := fun hn =>
    hD a fun info hi => by rw [hn] at hi; cases hi
  have htr := block_tracks hx₀ h
  have ha := hall a
  cases ht : (BlockState.ofChanges changes).transitions.lookup a with
  | none =>
    rw [ht] at htr ha
    simp only at htr ha
    rw [ha.2, htr]
    exact .none rfl fun _ => rfl
  | some t =>
    rw [ht] at htr ha
    obtain ⟨r, hr, -, hlk⟩ := ha
    have hres := htr.restores hx₀ hr
    rw [hlk]
    refine ⟨hres.info, hres.sameInfo, hres.slot, fun r' k w hr' hk => ?_⟩
    refine (hres.value r' k w hr' hk).imp_right fun ⟨hdel, c', hc', hlists⟩ => ⟨hdel, ?_⟩
    obtain ⟨c, hc, rfl⟩ := List.mem_map.mp hc'
    obtain ⟨hmem, hat⟩ := List.mem_filter.mp hc
    simp only [Bool.and_eq_true, beq_iff_eq] at hat
    exact ⟨c, hmem, hat.2, hlists.1.imp_left Option.map_eq_none_iff.mp, hlists.2⟩

def createChanges : AccountChanges where
  address := 1
  original := none
  current := some .empty
  created := true
  selfdestructed := false
  code := none
  storage := ⟨false, AList.singleton 3 ⟨⟨0, 5⟩, false⟩⟩
  code_changed := by simp

def wipeChanges : AccountChanges where
  address := 1
  original := some .empty
  current := some .empty
  created := false
  selfdestructed := false
  code := none
  storage := ⟨true, AList.singleton 3 ⟨⟨5, 9⟩, false⟩⟩
  code_changed := by simp

theorem chained_create_wipe : Chained .empty [createChanges, wipeChanges] := by
  have hsingle : ∀ {k : Word} {v slot : StorageSlot},
      (AList.singleton 3 v : Map Word StorageSlot).lookup k = some slot → k = 3 ∧ v = slot := by
    intro k v slot hk
    rw [Map.lookup_singleton] at hk
    split_ifs at hk with h3
    exact ⟨h3, Option.some.inj hk⟩
  refine ⟨⟨rfl, fun k slot hk => ?_, by simp [createChanges]⟩,
    ⟨rfl, fun k slot hk => ?_, by simp [wipeChanges]⟩, trivial⟩
  · obtain ⟨rfl, rfl⟩ := hsingle hk
    rfl
  · obtain ⟨rfl, rfl⟩ := hsingle hk
    rfl

/-- The account is absent before the block, and the revert deletes it; the value 5 of slot 3 that
the second transaction lists as it wipes the storage is recorded. -/
theorem reverts_record_replaced_value :
    (∀ a, (PlainState.empty a).Regular) ∧ Chained .empty [createChanges, wipeChanges] ∧
      ∃ b rs r, (BlockState.ofChanges [createChanges, wipeChanges]).intoBundle = some b ∧
        b.reverts = [rs] ∧ rs.lookup 1 = some r ∧ r.storage.lookup 3 = some (.some 5) ∧
        (PlainState.empty 1).storage 3 ≠ 5 := by
  refine ⟨fun _ _ _ => rfl, chained_create_wipe, ?_⟩
  obtain ⟨b, hb⟩ := intoBundle_ofChanges [createChanges, wipeChanges]
  obtain ⟨rs, hrs, -⟩ := intoBundle_spec hb
  have hval : ((BlockState.ofChanges [createChanges, wipeChanges]).intoBundle.bind fun b =>
      (b.reverts.head?.bind fun rs => rs.lookup 1).bind fun r => r.storage.lookup 3) =
        some (.some 5) := by
    decide +kernel
  rw [hb, Option.bind_some, hrs, List.head?_cons, Option.bind_some] at hval
  obtain ⟨r, hr, hlk⟩ := Option.bind_eq_some_iff.mp hval
  exact ⟨b, rs, r, hb, hrs, hr, hlk, by decide⟩

theorem reverts_determine_previous_state_create :
    ∃ b rs, (BlockState.ofChanges [createChanges, wipeChanges]).intoBundle = some b ∧
      b.reverts = [rs] ∧ ∃ r, rs.lookup 1 = some r ∧ r.account.RevertsTo none := by
  obtain ⟨b, rs, hb, hrs, h⟩ := reverts_determine_previous_state .empty (fun _ _ _ => rfl)
    [createChanges, wipeChanges] chained_create_wipe
  exact ⟨b, rs, hb, hrs, (h 1).info (by decide)⟩

/-! ## The changeset -/

theorem AccountRevert.Restores.eq {x₀ x : PlainAccount} {listed : Word → Prop}
    (h : AccountRevert.Restores x₀ x listed Option.none) : x = x₀ := by
  refine PlainAccount.ext ?_ (funext fun k => ?_)
  · by_contra hne
    obtain ⟨r, hr, -⟩ := h.info hne
    cases hr
  · by_contra hne
    obtain ⟨r, hr, -⟩ := h.slot k hne
    cases hr

theorem BundleAccount.writtenStorage_none {e : BundleAccount} {f : Word → Word} {k : Word}
    (h : e.storage.lookup k = none) :
    e.writtenStorage f k = if e.wasDestroyed then 0 else f k := by
  unfold writtenStorage
  rw [h]

theorem BundleAccount.writtenStorage_some {e : BundleAccount} {f : Word → Word} {k : Word}
    {slot : Tracked Word} (h : e.storage.lookup k = some slot) : e.writtenStorage f k =
      if e.wasDestroyed || slot.isChanged then slot.current else f k := by
  unfold writtenStorage
  rw [h]

theorem Tracks.written {x₀ x : PlainAccount} {listed : Word → Prop} {t : TransitionAccount}
    (h : Tracks x₀ x listed t) :
    ⟨t.presentBundleAccount.writtenInfo x₀.info, t.presentBundleAccount.writtenStorage x₀.storage⟩ =
      x := by
  refine PlainAccount.ext ?_ (funext fun k => ?_)
  · change t.presentBundleAccount.writtenInfo x₀.info = x.info
    rw [BundleAccount.writtenInfo, BundleAccount.isInfoChanged]
    by_cases he : optInfoEq t.info t.previousInfo = true
    · have hsame := optInfoEq_iff_plain.mp he
      simp only [TransitionAccount.presentBundleAccount, he]
      rw [← h.info, hsame, h.previousInfo]
      rfl
    · simp only [TransitionAccount.presentBundleAccount, he]
      exact h.info
  · change t.presentBundleAccount.writtenStorage x₀.storage k = x.storage k
    have hst := h.storage k
    cases hk : t.storage.lookup k with
    | none =>
      rw [hk] at hst
      rw [BundleAccount.writtenStorage_none hk]
      exact hst.symm
    | some slot =>
      have hd : t.presentBundleAccount.wasDestroyed = t.status.wasDestroyed := rfl
      rw [hk] at hst
      rw [BundleAccount.writtenStorage_some hk, hd]
      simp only at hst ⊢
      by_cases hc : (t.status.wasDestroyed || slot.isChanged) = true
      · rw [if_pos hc]
        exact hst.symm
      · -- the slot has its original value, which is that of before
        rw [if_neg hc]
        simp only [Bool.or_eq_true, not_or, Bool.not_eq_true] at hc
        have hor := h.original k slot hk
        rw [hc.1, if_neg (by decide)] at hor
        have hsame : slot.original = slot.current := by simpa [Tracked.isChanged] using hc.2
        rw [← hor, hsame, hst]

/-- **The bundle of a block writes the effect of the block.** -/
theorem plain_changeset_writes_effect (D : PlainState) (hD : ∀ a, (D a).Regular)
    (changes : List AccountChanges) (h : Chained D changes) :
    ∃ b, (BlockState.ofChanges changes).intoBundle = some b ∧
      D.write (b.toPlainState .yes) = D.commitAll changes := by
  obtain ⟨b, hb⟩ := intoBundle_ofChanges changes
  obtain ⟨rs, -, -, hall⟩ := intoBundle_spec hb
  refine ⟨b, hb, funext fun a => ?_⟩
  have hx₀ : (D a).info = none → ∀ k, (D a).storage k = 0 := fun hn =>
    hD a fun info hi => by rw [hn] at hi; cases hi
  have htr := block_tracks hx₀ h
  have ha := hall a
  rw [write_toPlainState]
  cases ht : (BlockState.ofChanges changes).transitions.lookup a with
  | none =>
    rw [ht] at htr ha
    rw [ha.1]
    exact htr.symm
  | some t =>
    rw [ht] at htr ha
    obtain ⟨r, hr, he, -⟩ := ha
    rw [he]
    cases r with
    | none => exact (htr.restores hx₀ hr).eq.symm
    | some r => exact htr.written

theorem plain_changeset_writes_effect_create :
    ∃ b, (BlockState.ofChanges [createChanges, wipeChanges]).intoBundle = some b ∧
      PlainState.empty.write (b.toPlainState .yes) =
        PlainState.empty.commitAll [createChanges, wipeChanges] :=
  plain_changeset_writes_effect .empty (fun _ _ _ => rfl) _ chained_create_wipe

end Evm2
