import Evm2.Block.Accounts
import Evm2.Block.BlockState

/-!
# The transitions of a block

* **`block_state_safe`**: a block's bundle is made without a panic, and has no entry for an account
  that the block left as it was.
-/

namespace Evm2

/-! ## What a commit means -/

namespace AccountCommit

variable (c : AccountCommit)

def apply (x : PlainAccount) : PlainAccount where
  info := c.current.map AccountInfo.plain
  storage k :=
    if c.current.isNone then 0
    else match c.storage.lookup k with
      | some slot => slot.current
      | none => if c.wiped then 0 else x.storage k

/-- The original values of a commit are those of the account, and a deletion leaves no slot. -/
structure Follows (x : PlainAccount) : Prop where
  original : c.original.map AccountInfo.plain = x.info
  slot : ∀ k slot, c.storage.lookup k = some slot → slot.original = x.storage k
  absent : c.current = none → ∀ k slot, c.storage.lookup k = some slot → slot.current = 0

def applyAll (x : PlainAccount) (cs : List AccountCommit) : PlainAccount :=
  cs.foldl (fun x c => c.apply x) x

def Chain : PlainAccount → List AccountCommit → Prop
  | _, [] => True
  | x, c :: cs => c.Follows x ∧ Chain (c.apply x) cs

def transitions (t : Option TransitionAccount) (cs : List AccountCommit) :
    Option TransitionAccount :=
  cs.foldl (fun t c => some (c.transition t)) t

end AccountCommit

/-! ## Statuses -/

namespace AccountStatus

def isAbsent : AccountStatus → Bool
  | loadedNotExisting | destroyed | destroyedAgain => true
  | _ => false

def isNotModified : AccountStatus → Bool
  | loadedNotExisting | loaded | loadedEmptyEIP161 => true
  | _ => false

end AccountStatus

theorem isNotModified_loadedStatus (info : Option AccountInfo) :
    (loadedStatus info).isNotModified = true := by
  cases info with
  | none => rfl
  | some info => simp only [loadedStatus]; split_ifs <;> rfl

theorem loadedStatus_eq_loadedNotExisting {info : Option AccountInfo} :
    loadedStatus info = .loadedNotExisting ↔ info = none := by
  cases info with
  | none => simp [loadedStatus]
  | some info => simp only [loadedStatus]; split_ifs <;> simp

theorem AccountCommit.status_eq (c : AccountCommit) (s : AccountStatus) :
    (c.current = none ∧ c.status s = s.onSelfdestructed) ∨
      (c.current ≠ none ∧ c.wiped = true ∧ c.status s = .destroyedChanged) ∨
      (c.current ≠ none ∧ c.wiped = false ∧ (c.status s = s.onCreated ∨
        c.status s = s.onChanged (hadNoNonceAndCode c.original))) := by
  unfold status
  cases hc : c.current with
  | none => simp
  | some info =>
    cases hw : c.wiped with
    | true => simp
    | false => cases c.created <;> simp

namespace TransitionAccount

/-- A transition whose statuses can be reached by commits. -/
structure Legal (t : TransitionAccount) : Prop where
  previous : t.previousStatus = loadedStatus t.previousInfo
  status : t.status ≠ .loaded ∧ t.status ≠ .loadedEmptyEIP161
  changed : t.status = .changed → t.previousStatus = .loaded
  notExisting : t.status = .loadedNotExisting → t.previousStatus = .loadedNotExisting
  absent : t.info = none ↔ t.status.isAbsent = true

/-- The statuses that are legal for an account, next to those it may come from. -/
def LegalStatus (previous status : AccountStatus) : Prop :=
  (status ≠ .loaded ∧ status ≠ .loadedEmptyEIP161) ∧
    (status = .changed → previous = .loaded) ∧
    (status = .loadedNotExisting → previous = .loadedNotExisting)

instance (previous status : AccountStatus) : Decidable (LegalStatus previous status) := by
  unfold LegalStatus
  infer_instance

theorem legalStatus_step (c : AccountCommit) {p s : AccountStatus}
    (h : LegalStatus p s ∨ s = p ∧ p.isNotModified = true) :
    LegalStatus p (c.status s) ∧ (c.current = none ↔ (c.status s).isAbsent = true) := by
  -- every pair of statuses is looked at, for each of the three kinds of commits
  rcases c.status_eq s with ⟨hc, hs⟩ | ⟨hc, -, hs⟩ | ⟨hc, -, hs | hs⟩
  · rw [hs]
    refine ⟨?_, iff_of_true hc ?_⟩
    · revert h; cases p <;> cases s <;> decide
    · cases s <;> rfl
  · rw [hs]
    exact ⟨by cases p <;> decide, iff_of_false hc (by decide)⟩
  · rw [hs]
    refine ⟨?_, iff_of_false hc ?_⟩
    · revert h; cases p <;> cases s <;> decide
    · cases s <;> decide
  · rw [hs]
    refine ⟨?_, iff_of_false hc ?_⟩
    · generalize hadNoNonceAndCode c.original = empty
      revert h; cases p <;> cases s <;> cases empty <;> decide
    · generalize hadNoNonceAndCode c.original = empty
      cases s <;> cases empty <;> decide

theorem Legal.legalStatus {t : TransitionAccount} (h : t.Legal) :
    LegalStatus t.previousStatus t.status := ⟨h.status, h.changed, h.notExisting⟩

theorem legal_start (c : AccountCommit) : c.start.Legal := by
  obtain ⟨⟨h1, h2, h3⟩, h4⟩ := legalStatus_step c (p := loadedStatus c.original)
    (.inr ⟨rfl, isNotModified_loadedStatus c.original⟩)
  exact ⟨rfl, h1, h2, h3, h4⟩

theorem Legal.resume {t : TransitionAccount} (h : t.Legal) (c : AccountCommit) :
    (c.resume t).Legal := by
  obtain ⟨⟨h1, h2, h3⟩, h4⟩ := legalStatus_step c (.inl h.legalStatus)
  unfold AccountCommit.resume
  simp only
  split_ifs
  · exact ⟨h.previous, h1, h2, h3, h4⟩
  · exact ⟨h.previous, h1, h2, h3, h4⟩

theorem legal_transitions {cs : List AccountCommit} {t : Option TransitionAccount}
    (h : ∀ u, t = some u → u.Legal) {u : TransitionAccount}
    (hu : AccountCommit.transitions t cs = some u) : u.Legal := by
  induction cs generalizing t with
  | nil => exact h u hu
  | cons c cs ih =>
    refine ih ?_ hu
    rintro v ⟨⟩
    cases t with
    | none => exact legal_start c
    | some t => exact (h t rfl).resume c

/-! ## The revert of a transition -/

variable (t : TransitionAccount)

def infoRevert : AccountInfoRevert :=
  if optInfoEq t.previousInfo t.info then .doNothing
  else .revertTo (t.previousInfo.getD .default)

def keepRevert : AccountRevert :=
  ⟨t.infoRevert, BundleAccount.previousStorageFromUpdate t.storage, t.previousStatus, false⟩

def createdRevert : AccountRevert :=
  ⟨.deleteIt, BundleAccount.previousStorageFromUpdate t.storage, t.previousStatus, false⟩

def wipeRevert : AccountRevert :=
  ⟨t.infoRevert,
    if t.status = .destroyedChanged then
      (∅ : Map Word RevertToSlot).mergeWith t.storage fun slot _ => some (slot.getD .destroyed)
    else ∅, t.previousStatus, true⟩

theorem lookup_wipeRevert (k : Word) :
    t.wipeRevert.storage.lookup k = none ∨
      t.wipeRevert.storage.lookup k = some RevertToSlot.destroyed := by
  unfold wipeRevert
  simp only
  split_ifs
  · rw [Map.lookup_mergeWith]
    cases t.storage.lookup k with
    | none => exact .inl rfl
    | some slot => exact .inr rfl
  · exact .inl rfl

theorem createRevert_cases (h : t.Legal) :
    (t.previousStatus ≠ .loadedNotExisting ∧ (t.status = .changed ∨ t.status = .inMemoryChange) ∧
      t.createRevert = some ((some t.keepRevert).filter fun r => !r.isEmpty)) ∨
    (t.previousStatus = .loadedNotExisting ∧
      (t.status = .inMemoryChange ∨ t.status = .destroyedChanged) ∧
      t.createRevert = some (some t.createdRevert)) ∨
    (t.previousStatus ≠ .loadedNotExisting ∧ t.status.wasDestroyed = true ∧
      t.createRevert = some (some t.wipeRevert)) ∨
    (t.previousStatus = .loadedNotExisting ∧ t.status.isAbsent = true ∧
      t.createRevert = some none) := by
  obtain ⟨hprev, ⟨hl, he⟩, hch, hne, -⟩ := h
  have hp : t.previousStatus.isNotModified = true := hprev ▸ isNotModified_loadedStatus _
  clear hprev
  unfold createRevert keepRevert createdRevert wipeRevert originalBundleAccount infoRevert
    BundleAccount.updateAndCreateRevert
  generalize hps : t.previousStatus = p at *
  generalize hss : t.status = s at *
  cases s with
  | loaded => exact absurd rfl hl
  | loadedEmptyEIP161 => exact absurd rfl he
  | changed =>
    obtain rfl := hch rfl
    exact .inl ⟨by decide, .inl rfl, rfl⟩
  | loadedNotExisting =>
    obtain rfl := hne rfl
    exact .inr (.inr (.inr ⟨rfl, rfl, rfl⟩))
  | inMemoryChange =>
    cases p with
    | loadedNotExisting => exact .inr (.inl ⟨rfl, .inl rfl, rfl⟩)
    | loaded | loadedEmptyEIP161 => exact .inl ⟨by decide, .inr rfl, rfl⟩
    | inMemoryChange | changed | destroyed | destroyedChanged | destroyedAgain => cases hp
  | destroyed =>
    cases p with
    | loadedNotExisting => exact .inr (.inr (.inr ⟨rfl, rfl, rfl⟩))
    | loaded | loadedEmptyEIP161 =>
      refine .inr (.inr (.inl ⟨by decide, rfl, ?_⟩))
      simp [BundleAccount.updateDestroyed, AccountRevert.newSelfdestructed, AccountRevert.isEmpty]
      rfl
    | inMemoryChange | changed | destroyed | destroyedChanged | destroyedAgain => cases hp
  | destroyedChanged =>
    cases p with
    | loadedNotExisting => exact .inr (.inl ⟨rfl, .inr rfl, rfl⟩)
    | loaded | loadedEmptyEIP161 =>
      refine .inr (.inr (.inl ⟨by decide, rfl, ?_⟩))
      simp [BundleAccount.updateDestroyedChanged, BundleAccount.newSelfdestructedFromBundle,
        AccountRevert.newSelfdestructedAgain, AccountRevert.isEmpty]
      rfl
    | inMemoryChange | changed | destroyed | destroyedChanged | destroyedAgain => cases hp
  | destroyedAgain =>
    cases p with
    | loadedNotExisting => exact .inr (.inr (.inr ⟨rfl, rfl, rfl⟩))
    | loaded | loadedEmptyEIP161 =>
      refine .inr (.inr (.inl ⟨by decide, rfl, ?_⟩))
      simp [BundleAccount.updateDestroyedAgain, BundleAccount.newSelfdestructedFromBundle,
        AccountRevert.newSelfdestructedAgain, AccountRevert.isEmpty]
      rfl
    | inMemoryChange | changed | destroyed | destroyedChanged | destroyedAgain => cases hp

theorem Legal.createRevert_isSome {t : TransitionAccount} (h : t.Legal) :
    t.createRevert.isSome := by
  rcases t.createRevert_cases h with ⟨-, -, hr⟩ | ⟨-, -, hr⟩ | ⟨-, -, hr⟩ | ⟨-, -, hr⟩ <;> simp [hr]

end TransitionAccount

/-! ## What a transition tracks -/

/-- A transition says what commits did to an account that was `x₀` and is now `x`. Once the storage
was replaced, the originals of its slots are zero, but for slots that a commit listed then. -/
structure Tracks (x₀ x : PlainAccount) (listed : Word → Prop) (t : TransitionAccount) : Prop where
  legal : t.Legal
  previousInfo : t.previousInfo.map AccountInfo.plain = x₀.info
  info : t.info.map AccountInfo.plain = x.info
  absent : t.info = none → ∀ k, x.storage k = 0
  storage : ∀ k, x.storage k = match t.storage.lookup k with
    | some slot => slot.current
    | none => if t.status.wasDestroyed then 0 else x₀.storage k
  original : ∀ k slot, t.storage.lookup k = some slot →
    if t.status.wasDestroyed then slot.original = 0 ∨ listed k else slot.original = x₀.storage k

def AccountCommit.Lists (c : AccountCommit) (k : Word) : Prop :=
  (c.current = none ∨ c.wiped = true) ∧ (c.storage.lookup k).isSome

section Tracks

variable {x₀ x : PlainAccount} {listed : Word → Prop} {c : AccountCommit} {t : TransitionAccount}

theorem AccountCommit.apply_storage_of_none (hc : c.current = none) (k : Word) :
    (c.apply x).storage k = 0 := by
  simp [apply, hc]

theorem AccountCommit.apply_storage (hc : c.current ≠ none) (k : Word) :
    (c.apply x).storage k = match c.storage.lookup k with
      | some slot => slot.current
      | none => if c.wiped then 0 else x.storage k := by
  simp [apply, hc]

theorem AccountStatus.wasDestroyed_onSelfdestructed (s : AccountStatus) :
    s.onSelfdestructed.wasDestroyed = (s != .loadedNotExisting) := by cases s <;> rfl

theorem AccountStatus.wasDestroyed_onCreated (s : AccountStatus) :
    s.onCreated.wasDestroyed = s.wasDestroyed := by cases s <;> rfl

theorem AccountStatus.wasDestroyed_onChanged (s : AccountStatus) (empty : Bool) :
    (s.onChanged empty).wasDestroyed = s.wasDestroyed := by cases s <;> cases empty <;> rfl

theorem Tracks.replace (hf : c.Follows x) (hc : c.current = none ∨ c.wiped = true)
    (ht : t.Legal) (hp : t.previousInfo.map AccountInfo.plain = x₀.info)
    (hi : t.info = c.current) (hs : t.storage = c.storage) (hd : t.status.wasDestroyed = true) :
    Tracks x₀ (c.apply x) (fun k => listed k ∨ c.Lists k) t where
  legal := ht
  previousInfo := hp
  info := by rw [hi]; rfl
  absent hn k := AccountCommit.apply_storage_of_none (hi ▸ hn) k
  storage k := by
    rw [hs, hd, if_pos rfl]
    by_cases hn : c.current = none
    · rw [AccountCommit.apply_storage_of_none hn]
      cases hk : c.storage.lookup k with
      | none => rfl
      | some slot => exact (hf.absent hn k slot hk).symm
    · rw [AccountCommit.apply_storage hn, hc.resolve_left hn, if_pos rfl]
  original k slot hk := by
    rw [hd, if_pos rfl]
    exact .inr (.inr ⟨hc, by rw [← hs, hk]; rfl⟩)

theorem Tracks.never (hx₀ : ∀ k, x₀.storage k = 0) (hn : c.current = none) (ht : t.Legal)
    (hp : t.previousInfo.map AccountInfo.plain = x₀.info) (hi : t.info = c.current)
    (hd : t.status.wasDestroyed = false)
    (hs : ∀ k slot, t.storage.lookup k = some slot → slot.original = 0 ∧ slot.current = 0) :
    Tracks x₀ (c.apply x) (fun k => listed k ∨ c.Lists k) t where
  legal := ht
  previousInfo := hp
  info := by rw [hi]; rfl
  absent _ k := AccountCommit.apply_storage_of_none hn k
  storage k := by
    rw [AccountCommit.apply_storage_of_none hn]
    cases hk : t.storage.lookup k with
    | none => simp [hx₀]
    | some slot => exact (hs k slot hk).2.symm
  original k slot hk := by
    simp only [hd, Bool.false_eq_true, if_false, hx₀]
    exact (hs k slot hk).1

theorem tracks_start (hx₀ : x₀.info = none → ∀ k, x₀.storage k = 0) (hf : c.Follows x₀) :
    Tracks x₀ (c.apply x₀) (fun k => listed k ∨ c.Lists k) c.start := by
  have hlegal := TransitionAccount.legal_start c
  have hs : c.start.status = c.status (loadedStatus c.original) := rfl
  rcases c.status_eq (loadedStatus c.original) with ⟨hn, hst⟩ | ⟨-, hw, hst⟩ | ⟨hn, hw, hst⟩
  · rw [← hs] at hst
    by_cases hl : loadedStatus c.original = .loadedNotExisting
    · -- an absent account stays absent
      have hz := hx₀ (by rw [← hf.original, loadedStatus_eq_loadedNotExisting.mp hl]; rfl)
      refine .never hz hn hlegal hf.original rfl (by rw [hst, hl]; rfl) fun k slot hk => ?_
      exact ⟨(hf.slot k slot hk).trans (hz k), hf.absent hn k slot hk⟩
    · refine .replace hf (.inl hn) hlegal hf.original rfl rfl ?_
      rw [hst, AccountStatus.wasDestroyed_onSelfdestructed]
      simpa using hl
  · exact .replace hf (.inr hw) hlegal hf.original rfl rfl (by rw [hs, hst]; rfl)
  · have hd : c.start.status.wasDestroyed = false := by
      have hload : (loadedStatus c.original).wasDestroyed = false := by
        have := isNotModified_loadedStatus c.original
        revert this
        cases loadedStatus c.original <;> decide
      rcases hst with hst | hst
      · rw [hs, hst, AccountStatus.wasDestroyed_onCreated, hload]
      · rw [hs, hst, AccountStatus.wasDestroyed_onChanged, hload]
    refine ⟨hlegal, hf.original, rfl, fun h => absurd h hn, fun k => ?_, fun k slot hk => ?_⟩
    · rw [AccountCommit.apply_storage hn, hw, hd]
      rfl
    · simp only [hd, Bool.false_eq_true, if_false]
      exact hf.slot k slot hk

theorem Tracks.merge (h : Tracks x₀ x listed t) (hf : c.Follows x) (hn : c.current ≠ none)
    (hw : c.wiped = false) {status : AccountStatus}
    (hd : status.wasDestroyed = t.status.wasDestroyed) {u : TransitionAccount} (hu : u.Legal)
    (hp : u.previousInfo = t.previousInfo) (hi : u.info = c.current) (hs : u.status = status)
    (hst : u.storage = t.storage.mergeWith c.storage
      (AccountCommit.commitSlot (t.storageWasDestroyed || status.wasDestroyed))) :
    Tracks x₀ (c.apply x) (fun k => listed k ∨ c.Lists k) u := by
  have hwl : t.status.wasDestroyed = true →
      (t.storageWasDestroyed || status.wasDestroyed) = true := by
    intro ht
    simp [hd, ht]
  generalize hwd : (t.storageWasDestroyed || status.wasDestroyed) = wl at *
  have hold := h.storage
  refine ⟨hu, hp ▸ h.previousInfo, by rw [hi]; rfl, fun h => absurd (hi ▸ h) hn, fun k => ?_,
    fun k slot hk => ?_⟩
  · rw [AccountCommit.apply_storage hn, hst, Map.lookup_mergeWith, hs, hd, hw]
    cases hc : c.storage.lookup k with
    | none => simpa using hold k
    | some new =>
      cases ho : t.storage.lookup k with
      | none => rfl
      | some old =>
        by_cases hback : (!wl && old.original == new.current) = true
        · -- a slot is dropped only while the storage is the original one
          simp only [AccountCommit.commitSlot, if_pos hback]
          simp only [Bool.and_eq_true, Bool.not_eq_true', beq_iff_eq] at hback
          have hlive : ¬t.status.wasDestroyed = true := fun hdes => by simp [hwl hdes] at hback
          have hor := h.original k old ho
          rw [if_neg hlive] at hor ⊢
          rw [← hor, hback.2]
        · simp only [AccountCommit.commitSlot, if_neg hback]
  · rw [hst, Map.lookup_mergeWith] at hk
    rw [hs, hd]
    cases hc : c.storage.lookup k with
    | none =>
      rw [hc] at hk
      have hor := h.original k slot hk
      split_ifs at hor ⊢ with hdes
      · exact hor.imp_right .inl
      · exact hor
    | some new =>
      rw [hc] at hk
      simp only at hk
      cases ho : t.storage.lookup k with
      | none =>
        rw [ho] at hk
        have hslot : new = slot := Option.some.inj hk
        subst hslot
        have hnew := hf.slot k new hc
        rw [hold k, ho] at hnew
        simp only at hnew
        split_ifs at hnew ⊢ with hdes
        · exact .inl hnew
        · exact hnew
      | some old =>
        rw [ho] at hk
        have hor := h.original k old ho
        simp only [AccountCommit.commitSlot] at hk
        split_ifs at hk
        cases hk
        simp only
        split_ifs at hor ⊢ with hdes
        · exact hor.imp_right .inl
        · exact hor

theorem Tracks.resume (hx₀ : x₀.info = none → ∀ k, x₀.storage k = 0) (h : Tracks x₀ x listed t)
    (hf : c.Follows x) :
    Tracks x₀ (c.apply x) (fun k => listed k ∨ c.Lists k) (c.resume t) := by
  have hlegal := h.legal.resume c
  have hprev : (c.resume t).previousInfo = t.previousInfo := by
    unfold AccountCommit.resume
    simp only
    split_ifs <;> rfl
  have hinfo : (c.resume t).info = c.current := by
    unfold AccountCommit.resume
    simp only
    split_ifs <;> rfl
  have hstatus : (c.resume t).status = c.status t.status := by
    unfold AccountCommit.resume
    simp only
    split_ifs <;> rfl
  have hp : (c.resume t).previousInfo.map AccountInfo.plain = x₀.info := hprev ▸ h.previousInfo
  rcases c.status_eq t.status with ⟨hn, hst⟩ | ⟨-, hw, hst⟩ | ⟨hn, hw, hst⟩
  · by_cases hl : t.status = .loadedNotExisting
    · -- the account never existed, and the commit deletes it
      have hnone : t.previousInfo = none := by
        have := h.legal.previous
        rw [h.legal.notExisting hl] at this
        exact loadedStatus_eq_loadedNotExisting.mp this.symm
      have hz := hx₀ (by rw [← h.previousInfo, hnone]; rfl)
      have hx : ∀ k, x.storage k = 0 := h.absent (h.legal.absent.mpr (by rw [hl]; rfl))
      have hold : ∀ k slot, t.storage.lookup k = some slot →
          slot.original = 0 ∧ slot.current = 0 := by
        intro k slot hk
        have hor := h.original k slot hk
        have hcur := h.storage k
        simp only [hl, AccountStatus.wasDestroyed, Bool.false_eq_true, if_false, hz] at hor
        rw [hk, hx] at hcur
        exact ⟨hor, hcur.symm⟩
      have hnew : ∀ k slot, c.storage.lookup k = some slot →
          slot.original = 0 ∧ slot.current = 0 := fun k slot hk =>
        ⟨(hf.slot k slot hk).trans (hx k), hf.absent hn k slot hk⟩
      refine .never hz hn hlegal hp hinfo (by rw [hstatus, hst, hl]; rfl) fun k slot hk => ?_
      unfold AccountCommit.resume at hk
      simp only [hl] at hk
      split_ifs at hk
      · exact hnew k slot hk
      · rw [Map.lookup_mergeWith] at hk
        cases hc : c.storage.lookup k with
        | none => exact hold k slot (by rw [hc] at hk; exact hk)
        | some new =>
          have hnew0 := hnew k new hc
          rw [hc] at hk
          cases ho : t.storage.lookup k with
          | none =>
            rw [ho] at hk
            exact Option.some.inj hk ▸ hnew0
          | some old =>
            rw [ho] at hk
            simp only [AccountCommit.commitSlot] at hk
            split_ifs at hk
            exact Option.some.inj hk ▸ ⟨(hold k old ho).1, hnew0.2⟩
    · refine .replace hf (.inl hn) hlegal hp hinfo ?_ ?_
      · unfold AccountCommit.resume
        simp only [hst]
        rw [if_pos]
        cases ht : t.status <;> simp_all [AccountStatus.onSelfdestructed]
      · rw [hstatus, hst, AccountStatus.wasDestroyed_onSelfdestructed]
        simpa using hl
  · refine .replace hf (.inr hw) hlegal hp hinfo ?_ (by rw [hstatus, hst]; rfl)
    unfold AccountCommit.resume
    simp [hw]
  · have hd : (c.status t.status).wasDestroyed = t.status.wasDestroyed := by
      rcases hst with hst | hst
      · rw [hst, AccountStatus.wasDestroyed_onCreated]
      · rw [hst, AccountStatus.wasDestroyed_onChanged]
    refine h.merge hf hn hw hd hlegal hprev hinfo hstatus ?_
    have hkeep : ¬(c.wiped || c.status t.status == .destroyed ||
        c.status t.status == .destroyedAgain) = true := by
      have habs : ¬(c.status t.status).isAbsent = true := by
        have := (hlegal.absent).not.mp (by rw [hinfo]; exact hn)
        rwa [hstatus] at this
      rw [hw]
      revert habs
      cases c.status t.status <;> decide
    unfold AccountCommit.resume
    simp only
    rw [if_neg hkeep]

theorem Tracks.mono {listed' : Word → Prop} (h : Tracks x₀ x listed t)
    (hl : ∀ k, listed k → listed' k) : Tracks x₀ x listed' t := by
  refine { h with original := fun k slot hk => ?_ }
  have hor := h.original k slot hk
  split_ifs at hor ⊢
  · exact hor.imp_right (hl k)
  · exact hor

theorem Tracks.transitions (hx₀ : x₀.info = none → ∀ k, x₀.storage k = 0)
    {cs : List AccountCommit} (h : Tracks x₀ x listed t) (hcs : AccountCommit.Chain x cs) :
    ∃ u, AccountCommit.transitions (some t) cs = some u ∧
      Tracks x₀ (AccountCommit.applyAll x cs) (fun k => listed k ∨ ∃ c ∈ cs, c.Lists k) u := by
  induction cs generalizing x listed t with
  | nil => exact ⟨t, rfl, h.mono fun _ => .inl⟩
  | cons c cs ih =>
    obtain ⟨u, hu, htr⟩ := ih (h.resume hx₀ hcs.1) hcs.2
    refine ⟨u, hu, htr.mono ?_⟩
    rintro k ((hl | hl) | ⟨c', hc', hl⟩)
    · exact .inl hl
    · exact .inr ⟨c, List.mem_cons_self, hl⟩
    · exact .inr ⟨c', List.mem_cons_of_mem _ hc', hl⟩

theorem tracks_transitions (hx₀ : x₀.info = none → ∀ k, x₀.storage k = 0)
    {cs : List AccountCommit} (hcs : AccountCommit.Chain x₀ cs) (hne : cs ≠ []) :
    ∃ u, AccountCommit.transitions none cs = some u ∧
      Tracks x₀ (AccountCommit.applyAll x₀ cs) (fun k => ∃ c ∈ cs, c.Lists k) u := by
  obtain ⟨c, cs, rfl⟩ := List.exists_cons_of_ne_nil hne
  have hstart : Tracks x₀ (c.apply x₀) (fun k => False ∨ c.Lists k) c.start :=
    tracks_start hx₀ hcs.1
  obtain ⟨u, hu, htr⟩ := hstart.transitions hx₀ hcs.2
  refine ⟨u, hu, htr.mono ?_⟩
  rintro k ((hl | hl) | ⟨c', hc', hl⟩)
  · exact hl.elim
  · exact ⟨c, List.mem_cons_self, hl⟩
  · exact ⟨c', List.mem_cons_of_mem _ hc', hl⟩

end Tracks

theorem wasDestroyed_transitions {cs : List AccountCommit}
    (hcs : ∀ c ∈ cs, c.current ≠ none ∧ c.wiped = false) {t : Option TransitionAccount}
    (ht : ∀ u, t = some u → u.status.wasDestroyed = false) {u : TransitionAccount}
    (hu : AccountCommit.transitions t cs = some u) : u.status.wasDestroyed = false := by
  induction cs generalizing t with
  | nil => exact ht u hu
  | cons c cs ih =>
    refine ih (fun c' hc' => hcs c' (List.mem_cons_of_mem _ hc')) ?_ hu
    rintro v ⟨⟩
    obtain ⟨hn, hw⟩ := hcs c List.mem_cons_self
    have hstep : ∀ s : AccountStatus, (c.status s).wasDestroyed = s.wasDestroyed := by
      intro s
      rcases c.status_eq s with ⟨hc, -⟩ | ⟨-, hc, -⟩ | ⟨-, -, hs | hs⟩
      · exact absurd hc hn
      · simp [hw] at hc
      · rw [hs, AccountStatus.wasDestroyed_onCreated]
      · rw [hs, AccountStatus.wasDestroyed_onChanged]
    cases t with
    | none =>
      change (c.status _).wasDestroyed = false
      rw [hstep]
      have := isNotModified_loadedStatus c.original
      revert this
      cases loadedStatus c.original <;> decide
    | some t =>
      have hstatus : (c.resume t).status = c.status t.status := by
        unfold AccountCommit.resume
        simp only
        split_ifs <;> rfl
      change (c.resume t).status.wasDestroyed = false
      rw [hstatus, hstep]
      exact ht t rfl

/-! ## A whole block -/

def commitsAt (a : Address) (commits : List (Address × AccountCommit)) : List AccountCommit :=
  (commits.filter fun e => e.1 = a).map Prod.snd

theorem lookup_commits (commits : List (Address × AccountCommit)) (s : BlockState) (a : Address) :
    (commits.foldl (fun s e => s.commitAccount e.1 e.2) s).transitions.lookup a =
      AccountCommit.transitions (s.transitions.lookup a) (commitsAt a commits) := by
  have hstep : ∀ (s : BlockState) (e : Address × AccountCommit),
      (s.commitAccount e.1 e.2).transitions.lookup a =
        if (decide (e.1 = a)) = true then some (e.2.transition (s.transitions.lookup a))
        else s.transitions.lookup a := by
    intro s e
    rw [BlockState.commitAccount, Map.lookup_alter]
    by_cases h : e.1 = a
    · subst h
      simp
    · simp [h, Ne.symm h]
  rw [Fold.foldl_proj (fun s : BlockState => s.transitions.lookup a)
    (fun t e => some (e.2.transition t)) hstep, AccountCommit.transitions, commitsAt,
    List.foldl_map]

theorem intoBundle_spec {s : BlockState} {b : BundleState} (h : s.intoBundle = some b) :
    ∃ rs, b.reverts = [rs] ∧ (rs.map Prod.fst).Nodup ∧ ∀ a,
      match s.transitions.lookup a with
      | none => b.state.lookup a = none ∧ rs.lookup a = none
      | some t => ∃ r, t.createRevert = some r ∧
        b.state.lookup a = r.map (fun _ => t.presentBundleAccount) ∧ rs.lookup a = r := by
  obtain ⟨b₁, hb₁, rfl⟩ := Option.map_eq_some_iff.mp h
  obtain ⟨rs, hrev, hnodup, hall⟩ := BundleState.apply_spec hb₁
  refine ⟨rs, hrev, hnodup, fun a => ?_⟩
  have ha := hall a
  cases ht : s.transitions.lookup a with
  | none =>
    rw [ht] at ha
    exact ha
  | some t =>
    rw [ht] at ha
    obtain ⟨r, hr, hrs⟩ := ha
    obtain ⟨r', hr', he⟩ := Option.map_eq_some_iff.mp hr
    simp only [Prod.mk.injEq] at he
    obtain ⟨he, rfl⟩ := he
    refine ⟨r', hr', he.symm, hrs.trans ?_⟩
    cases r' <;> rfl

theorem intoBundle_isSome {s : BlockState}
    (h : ∀ a t, s.transitions.lookup a = some t → t.Legal) : s.intoBundle.isSome := by
  rw [BlockState.intoBundle, BlockState.intoBundleWithRetention, Option.isSome_map]
  refine BundleState.apply_isSome .reverts fun a t ht => ?_
  obtain ⟨r, hr⟩ := Option.isSome_iff_exists.mp (h a t ht).createRevert_isSome
  simp [BundleState.default, applyTransition, hr]

theorem createRevert_of_nil {t : TransitionAccount} (h : t.Legal) (hi : t.previousInfo ≠ none)
    (hsame : optInfoEq t.previousInfo t.info = true) (hd : t.status.wasDestroyed = false)
    (hs : ∀ k slot, t.storage.lookup k = some slot → slot.original = slot.current) :
    t.createRevert = some none := by
  have hprev : t.previousStatus ≠ .loadedNotExisting := by
    rw [h.previous]
    exact fun hl => hi (loadedStatus_eq_loadedNotExisting.mp hl)
  rcases t.createRevert_cases h with ⟨-, -, hr⟩ | ⟨hl, -⟩ | ⟨-, hd', -⟩ | ⟨hl, -⟩
  · have hempty : (BundleAccount.previousStorageFromUpdate t.storage).entries = [] := by
      refine Map.entries_eq_nil fun k => ?_
      rw [BundleAccount.previousStorageFromUpdate, Map.lookup_filterMapValues]
      cases hk : t.storage.lookup k with
      | none => rfl
      | some slot => simp [Tracked.isChanged, hs k slot hk]
    rw [hr]
    simp [TransitionAccount.keepRevert, AccountRevert.isEmpty, TransitionAccount.infoRevert, hsame,
      hempty]
  · exact absurd hl hprev
  · rw [hd] at hd'
    cases hd'
  · exact absurd hl hprev

open AccountCommit in
/-- **Status machine safety.** The bundle of a block is made without a panic, and it has neither an
entry nor a revert for an account whose commits leave everything as it was, without a deletion or a
wipe. -/
theorem block_state_safe (commits : List (Address × AccountCommit)) :
    ∃ b, (commits.foldl (fun s e => s.commitAccount e.1 e.2) BlockState.new).intoBundle = some b ∧
      ∀ (D : PlainState) (a : Address), Chain (D a) (commitsAt a commits) →
        (∀ c ∈ commitsAt a commits, c.current ≠ none ∧ c.wiped = false) →
        applyAll (D a) (commitsAt a commits) = D a →
        b.state.lookup a = none ∧ ∀ rs ∈ b.reverts, rs.lookup a = none := by
  set s := commits.foldl (fun s e => s.commitAccount e.1 e.2) BlockState.new with hs
  have hlookup : ∀ a, s.transitions.lookup a = transitions none (commitsAt a commits) :=
    fun a => lookup_commits commits .new a
  have hlegal : ∀ a t, s.transitions.lookup a = some t → t.Legal := fun a t ht =>
    TransitionAccount.legal_transitions (t := none) (by simp) ((hlookup a).symm.trans ht)
  obtain ⟨b, hb⟩ := Option.isSome_iff_exists.mp (intoBundle_isSome hlegal)
  refine ⟨b, hb, fun D a hchain hkeep hnil => ?_⟩
  obtain ⟨rs, hrev, -, hall⟩ := intoBundle_spec hb
  have ha := hall a
  have hgoal : b.state.lookup a = none ∧ rs.lookup a = none := by
    cases ht : s.transitions.lookup a with
    | none =>
      rw [ht] at ha
      exact ha
    | some t =>
      rw [ht] at ha
      have hne : commitsAt a commits ≠ [] := by
        intro he
        rw [hlookup, he] at ht
        cases ht
      -- the last commit leaves an account, so there was one before the block
      have hsome : (D a).info ≠ none := by
        rw [← hnil]
        obtain ⟨cs, c, hcs⟩ := List.eq_nil_or_concat (commitsAt a commits) |>.resolve_left hne
        have hc := (hkeep c (by rw [hcs]; simp)).1
        rw [hcs]
        simpa [applyAll, apply] using hc
      obtain ⟨u, hu, htr⟩ := tracks_transitions (fun h => absurd h hsome) hchain hne
      have hut : t = u := Option.some.inj (ht.symm.trans ((hlookup a).trans hu))
      subst hut
      rw [hnil] at htr
      have hd := wasDestroyed_transitions hkeep (t := none) (by simp) hu
      have hnone := createRevert_of_nil htr.legal
        (fun h => hsome (by rw [← htr.previousInfo, h]; rfl))
        (optInfoEq_iff_plain.mpr (htr.previousInfo.trans htr.info.symm)) hd fun k slot hk => by
          have hor := htr.original k slot hk
          have hcur := htr.storage k
          rw [hk] at hcur
          simp only [hd, Bool.false_eq_true, if_false] at hor
          exact hor.trans hcur
      obtain ⟨r, hr, he, hrs⟩ := ha
      rw [hnone] at hr
      cases hr
      exact ⟨he, hrs⟩
  refine ⟨hgoal.1, fun rs' hrs' => ?_⟩
  rw [hrev, List.mem_singleton] at hrs'
  rw [hrs']
  exact hgoal.2

def slotCommit (original current : Word) : AccountCommit where
  original := some .empty
  current := some .empty
  created := false
  wiped := false
  storage := AList.singleton 3 ⟨original, current⟩

open AccountCommit in
/-- Two commits that cancel each other leave no entry. -/
theorem block_state_safe_cancel :
    ∃ b, ([(1, slotCommit 7 8), (1, slotCommit 8 7)].foldl (fun s e => s.commitAccount e.1 e.2)
      BlockState.new).intoBundle = some b ∧ b.state.lookup 1 = none := by
  obtain ⟨b, hb, h⟩ := block_state_safe [(1, slotCommit 7 8), (1, slotCommit 8 7)]
  refine ⟨b, hb, ?_⟩
  have hat : commitsAt 1 [(1, slotCommit 7 8), (1, slotCommit 8 7)] =
      [slotCommit 7 8, slotCommit 8 7] := rfl
  -- the account has the value 7 in every slot before the block
  have hsingle : ∀ {k : Word} {v slot : Tracked Word},
      (AList.singleton 3 v : BundleStorage).lookup k = some slot → k = 3 ∧ v = slot := by
    intro k v slot hk
    rw [Map.lookup_singleton] at hk
    split_ifs at hk with h3
    exact ⟨h3, Option.some.inj hk⟩
  refine (h (fun _ => ⟨some AccountInfo.empty.plain, fun _ => 7⟩) 1 ?_ ?_ ?_).1
  · rw [hat]
    refine ⟨⟨rfl, ?_, by simp [slotCommit]⟩, ⟨rfl, ?_, by simp [slotCommit]⟩, trivial⟩
    · intro k slot hk
      obtain ⟨rfl, rfl⟩ := hsingle hk
      rfl
    · intro k slot hk
      obtain ⟨rfl, rfl⟩ := hsingle hk
      rfl
  · rw [hat]
    simp [slotCommit]
  · rw [hat]
    refine PlainAccount.ext rfl (funext fun k => ?_)
    by_cases h3 : k = 3
    · subst h3
      rfl
    · have hnone : ∀ original current, (slotCommit original current).storage.lookup k = none :=
        fun original current => (Map.lookup_singleton 3 k _).trans (if_neg h3)
      simp only [applyAll, List.foldl_cons, List.foldl_nil, apply, hnone]
      rfl

end Evm2
