import Evm2.State.Script
import Evm2.State.View

/-!
# Laws of finalization

Finalization works account by account (`State.finalizeTransaction_run`). Here: what it makes of an
account is final, and what holds of every account of an overlay afterwards.
-/

namespace Evm2

/-! ## One account -/

namespace StorageOverlay

theorem zeroLoaded_idem (o : StorageOverlay) : o.zeroLoaded.zeroLoaded = o.zeroLoaded := by
  simp only [zeroLoaded, Map.mapValues, Map.mapWithKey, List.map_map]
  rfl

theorem wipe_idem (o : StorageOverlay) : o.wipe.wipe = o.wipe := by
  have h := zeroLoaded_idem o
  simp only [zeroLoaded, StorageOverlay.mk.injEq] at h
  simp only [wipe, zeroLoaded, h.2]

def ReadsZero (o : StorageOverlay) : Prop :=
  ∀ key slot, o.slots.lookup key = some slot → slot.value.current = 0

theorem readsZero_zeroLoaded (o : StorageOverlay) : o.zeroLoaded.ReadsZero := by
  intro key slot h
  simp only [zeroLoaded, Map.lookup_mapValues, Option.map_eq_some_iff] at h
  obtain ⟨slot', -, rfl⟩ := h
  rfl

theorem readsZero_wipe (o : StorageOverlay) : o.wipe.ReadsZero := readsZero_zeroLoaded o

end StorageOverlay

section Account

variable (features : EvmFeatures) (x : Account)

theorem destroyedAccount_flags : (destroyedAccount features x).flags = x.flags := by
  unfold destroyedAccount
  dsimp only
  split_ifs <;> rfl

theorem readsZero_destroyedAccount : (destroyedAccount features x).storage.ReadsZero := by
  unfold destroyedAccount
  dsimp only
  split_ifs
  · exact StorageOverlay.readsZero_zeroLoaded _
  · exact StorageOverlay.readsZero_wipe _
  · exact StorageOverlay.readsZero_wipe _

theorem destroyedAccount_present :
    (destroyedAccount features x).present = none ∨ features.contains .eip8246 = true ∧
      ∃ info, (destroyedAccount features x).present = some info ∧ info.balance ≠ 0 ∧
        info.nonce = 0 ∧ info.codeHash = KECCAK256_EMPTY ∧ info.code = some Bytecode.new := by
  unfold destroyedAccount
  by_cases hs : (features.contains .eip8246 && x.present.elim 0 AccountInfo.balance != 0) = true
  · rw [if_pos hs]
    rw [Bool.and_eq_true, bne_iff_ne] at hs
    exact .inr ⟨hs.1, _, rfl, hs.2, rfl, rfl, rfl⟩
  · rw [if_neg hs]
    exact .inl rfl

theorem destroyedAccount_idem :
    destroyedAccount features (destroyedAccount features x) = destroyedAccount features x := by
  unfold destroyedAccount
  dsimp only
  by_cases hs : (features.contains .eip8246 && x.present.elim 0 AccountInfo.balance != 0) = true
  · -- a survivor keeps its balance, so it survives again
    rw [if_pos hs]
    simp only [Option.elim_some, if_pos hs]
    split_ifs
    · rw [StorageOverlay.zeroLoaded_idem]
    · rw [StorageOverlay.wipe_idem]
  · rw [if_neg hs]
    simp [StorageOverlay.wipe_idem]

theorem selectsTouched_touchedAccount :
    State.selectsTouched features (touchedAccount features x) = false ∨
      touchedAccount features x = x := by
  unfold touchedAccount
  by_cases h161 : features.contains .eip161 = true
  · left
    simp [State.selectsTouched, h161, Account.isExistingDead]
  · rw [if_neg h161]
    split_ifs
    · left
      simp [State.selectsTouched, h161, Account.markCreatedDiscardingStorage, Account.markCreated]
    · exact .inr rfl

theorem touchedAccount_destroyed :
    (touchedAccount features x).flags.destroyed = x.flags.destroyed := by
  unfold touchedAccount
  split_ifs <;> rfl

/-- **Finalization is final**: a second time nothing changes. -/
theorem finalizeAccount_idem :
    finalizeAccount features (finalizeAccount features x) = finalizeAccount features x := by
  by_cases hd : State.selectsDestroyed x = true
  · have hx : finalizeAccount features x = destroyedAccount features x := if_pos hd
    have hd' : State.selectsDestroyed (destroyedAccount features x) = true := by
      rwa [State.selectsDestroyed, destroyedAccount_flags]
    rw [hx, finalizeAccount, if_pos hd', destroyedAccount_idem]
  · by_cases ht : State.selectsTouched features x = true
    · have hx : finalizeAccount features x = touchedAccount features x := by
        rw [finalizeAccount, if_neg hd, if_pos ht]
      have hd' : ¬State.selectsDestroyed (touchedAccount features x) = true := by
        rwa [State.selectsDestroyed, touchedAccount_destroyed]
      rw [hx]
      rcases selectsTouched_touchedAccount features x with ht' | hsame
      · simp only [finalizeAccount, if_neg hd', ht', Bool.false_eq_true, if_false]
      · rw [hsame, hx, hsame]
    · have hx : finalizeAccount features x = x := by
        rw [finalizeAccount, if_neg hd, if_neg ht]
      rw [hx, hx]

end Account

/-- What finalization leaves of account `x`. -/
structure Account.Finalized (features : EvmFeatures) (x x' : Account) : Prop where
  /-- An account that is not selected is kept as it is. -/
  unselected : State.selectsDestroyed x = false → State.selectsTouched features x = false → x' = x
  /-- With EIP-161 no touched account is present and empty. -/
  touched : features.contains .eip161 = true → x.flags.touched = true →
    ∀ info, x'.present = some info → info.isEmpty = false
  /-- Without EIP-161 every touched account is present or was destroyed. -/
  materialized : features.contains .eip161 = false → x.flags.touched = true →
    x'.present.isSome = true ∨ x.flags.destroyed = true
  /-- A destroyed account is absent, or holds a balance and nothing else. -/
  destroyed : x.flags.destroyed = true → x'.present = none ∨ features.contains .eip8246 = true ∧
    ∃ info, x'.present = some info ∧ info.balance ≠ 0 ∧ info.nonce = 0 ∧
      info.codeHash = KECCAK256_EMPTY ∧ info.code = some Bytecode.new
  /-- The loaded slots of an account that is destroyed, or deleted for EIP-161, read zero. -/
  cleared : State.selectsDestroyed x = true ∨
    features.contains .eip161 = true ∧ State.selectsTouched features x = true →
    x'.storage.ReadsZero
  /-- An account that comes into being before EIP-161 keeps its slots. -/
  kept : features.contains .eip161 = false → State.selectsTouched features x = true →
    x'.storage = x.storage

section Finalized

variable {features : EvmFeatures} {x : Account}

theorem finalized_destroyed (hd : x.flags.destroyed = true) :
    x.Finalized features (destroyedAccount features x) where
  unselected h := absurd hd (by simpa [State.selectsDestroyed] using h)
  touched _ _ info hp := by
    rcases destroyedAccount_present features x with hnone | ⟨-, info', hp', hb, -⟩
    · rw [hnone] at hp
      cases hp
    · rw [hp'] at hp
      cases hp
      have hb' : (info.balance == 0) = false := beq_false_of_ne hb
      rw [AccountInfo.isEmpty, hb']
      rfl
  materialized _ _ := .inr hd
  destroyed _ := destroyedAccount_present features x
  cleared _ := readsZero_destroyedAccount features x
  kept _ h := absurd h (by simp [State.selectsTouched, hd])

theorem finalized_cleaned (h161 : features.contains .eip161 = true)
    (ht : State.selectsTouched features x = true) :
    x.Finalized features (touchedAccount features x) := by
  rw [touchedAccount, if_pos h161]
  exact {
    unselected := fun _ h => absurd (ht.symm.trans h) nofun
    touched := fun _ _ info hp => nomatch hp
    materialized := fun h => absurd (h161.symm.trans h) nofun
    destroyed := fun _ => .inl rfl
    cleared := fun _ => StorageOverlay.readsZero_wipe _
    kept := fun h => absurd (h161.symm.trans h) nofun }

theorem finalized_materialized (h161 : features.contains .eip161 = false)
    (hx : x.present = none → x.original = none) (hd : x.flags.destroyed = false)
    (ht : State.selectsTouched features x = true) :
    x.Finalized features (touchedAccount features x) := by
  have hp : x.present = none := by
    simp only [State.selectsTouched, h161, Bool.and_eq_true] at ht
    simpa using ht.2
  simp only [touchedAccount, h161, Bool.false_eq_true, if_false, hp, hx hp, Option.isNone_none,
    Bool.and_self, if_true]
  exact {
    unselected := fun _ h => absurd (h.symm.trans ht) Bool.false_ne_true
    touched := fun h => absurd (h161.symm.trans h) Bool.false_ne_true
    materialized := fun _ _ => .inl rfl
    destroyed := fun h => absurd (hd.symm.trans h) Bool.false_ne_true
    cleared := fun h => absurd h (by simp [State.selectsDestroyed, hd, h161])
    kept := fun _ _ => rfl }

theorem finalized_unselected (hd : x.flags.destroyed = false)
    (ht : State.selectsTouched features x = false) : x.Finalized features x where
  unselected _ _ := rfl
  touched h161 htouch info hp := by
    simpa [State.selectsTouched, hd, htouch, h161, Account.isExistingDead, hp] using ht
  materialized h161 htouch := by
    left
    simpa [State.selectsTouched, hd, htouch, h161] using ht
  destroyed h := absurd (hd.symm.trans h) nofun
  cleared h := absurd h (by simp [State.selectsDestroyed, hd, ht])
  kept _ _ := rfl

theorem finalized_finalizeAccount (features : EvmFeatures)
    (hx : x.present = none → x.original = none) :
    x.Finalized features (finalizeAccount features x) := by
  unfold finalizeAccount State.selectsDestroyed
  split_ifs with hd ht
  · exact finalized_destroyed hd
  · rw [Bool.not_eq_true] at hd
    by_cases h161 : features.contains .eip161 = true
    · exact finalized_cleaned h161 ht
    · exact finalized_materialized (by simpa using h161) hx hd ht
  · exact finalized_unselected (by simpa using hd) (by simpa using ht)

end Finalized

/-! ## The overlays of a transaction -/

namespace State

def setAccountWarm (s : State) (a : Address) (warm : Bool) : State :=
  { s with
    accounts := s.accounts.modify a fun x => { x with flags := { x.flags with warm := warm } } }

/-- The overlays of a transaction: what operations, rollbacks and the setters that write no journal
lead to from an empty overlay and an empty journal. The rest of the state can change freely. -/
inductive Pending [Keccak] (db : Database) (features : EvmFeatures) : State → Prop
  | start {s : State} : s.accounts = ∅ → s.journal = [] → Pending db features s
  | op {s : State} (o : StateOp) : Pending db features s → Pending db features (o.run db features s)
  | rollback {s : State} (cp : StateCheckpoint) :
      Pending db features s → Pending db features (s.rollback cp features)
  | setAccountWarm {s : State} (a : Address) (warm : Bool) :
      Pending db features s → Pending db features (s.setAccountWarm a warm)
  | setStorageWarm {s : State} (a : Address) (key : Word) (warm : Bool) :
      Pending db features s →
        Pending db features { s with accounts := setStorageWarm s.accounts a key warm }
  | wipe {s : State} (a : Address) :
      Pending db features s →
        Pending db features ((storageSession db a StorageHandle.wipe).run s).2
  | other {s : State} (inner : StateInner) (transientStorage : Map (Address × Word) Word) :
      inner.journal = s.journal → Pending db features s →
        Pending db features { s with inner := inner, transientStorage := transientStorage }

/-! ## Only finalization removes accounts -/

/-- An absent account has never been there, and journal entries bring back no other absence. -/
structure NeverRemoved (m : Map Address Account) (js : List JournalEntry) : Prop where
  accounts : ∀ a x, m.lookup a = some x → x.present = none → x.original = none
  journal : ∀ a flags, .accountChange a none flags ∈ js →
    ∃ x, m.lookup a = some x ∧ x.original = none

namespace NeverRemoved

variable {m : Map Address Account} {js : List JournalEntry} {a : Address} {x y : Account}

theorem empty : NeverRemoved ∅ [] := ⟨nofun, nofun⟩

theorem set (h : NeverRemoved m js) (hx : m.lookup a = some x) (ho : y.original = x.original)
    (hp : y.present = none → x.original = none) : NeverRemoved (m.set a y) js where
  accounts b z hz hn := by
    rw [Map.lookup_set] at hz
    split_ifs at hz with hb
    · cases hz
      exact ho.trans (hp hn)
    · exact h.accounts b z hz hn
  journal b flags hmem := by
    obtain ⟨z, hz, hoz⟩ := h.journal b flags hmem
    rw [Map.lookup_set]
    split_ifs with hb
    · subst hb
      obtain rfl : x = z := Option.some.inj (hx.symm.trans hz)
      exact ⟨y, rfl, ho.trans hoz⟩
    · exact ⟨z, hz, hoz⟩

theorem setSlot (h : NeverRemoved m js) (hx : m.lookup a = some x) (key : Word)
    (slot : StorageSlot) : NeverRemoved (m.set a (x.setSlot key slot)) js :=
  h.set hx rfl (h.accounts a x hx)

theorem modify (h : NeverRemoved m js) (f : Account → Account)
    (ho : ∀ x, (f x).original = x.original)
    (hp : ∀ x, m.lookup a = some x → (f x).present = none → x.original = none) :
    NeverRemoved (m.modify a f) js := by
  cases hx : m.lookup a with
  | none =>
    rwa [Map.modify_eq_self fun v hv => by rw [hx] at hv; cases hv]
  | some x =>
    have hset : m.modify a f = m.set a (f x) := by
      rw [Map.set_of_some hx]
      refine AList.ext ?_
      simp only [Map.entries_modify]
      refine List.map_congr_left fun e he => ?_
      by_cases hk : e.1 = a
      · have hv := AList.mem_lookup_iff.mpr he
        rw [hk, hx] at hv
        cases hv
        simp [hk]
      · simp [hk]
    rw [hset]
    exact h.set hx (ho x) (hp x hx)

theorem modify_same (h : NeverRemoved m js) (f : Account → Account)
    (ho : ∀ x, (f x).original = x.original) (hp : ∀ x, (f x).present = x.present) :
    NeverRemoved (m.modify a f) js :=
  h.modify f ho fun x hx hn => h.accounts a x hx ((hp x).symm.trans hn)

theorem insert (h : NeverRemoved m js) (hn : m.lookup a = none)
    (hp : y.present = none → y.original = none) : NeverRemoved (m.set a y) js where
  accounts b z hz hz' := by
    rw [Map.lookup_set] at hz
    split_ifs at hz with hb
    · cases hz
      exact hp hz'
    · exact h.accounts b z hz hz'
  journal b flags hmem := by
    obtain ⟨z, hz, hoz⟩ := h.journal b flags hmem
    refine ⟨z, ?_, hoz⟩
    rw [Map.lookup_set, if_neg, hz]
    rintro rfl
    rw [hn] at hz
    cases hz

theorem cons {e : JournalEntry} (h : NeverRemoved m js)
    (he : ∀ a flags, e = .accountChange a none flags →
      ∃ x, m.lookup a = some x ∧ x.original = none) : NeverRemoved m (e :: js) where
  accounts := h.accounts
  journal a flags hmem := by
    rcases List.mem_cons.mp hmem with he' | hmem
    · exact he a flags he'.symm
    · exact h.journal a flags hmem

theorem tail {e : JournalEntry} (h : NeverRemoved m (e :: js)) : NeverRemoved m js :=
  ⟨h.accounts, fun a flags hmem => h.journal a flags (List.mem_cons_of_mem e hmem)⟩

theorem undoEntry {e : JournalEntry} {core : Core} (b : Bool)
    (h : NeverRemoved core.1 (e :: js)) : NeverRemoved (undoEntry b e core).1 js := by
  cases e with
  | accountChange a previous flags =>
    simp only [State.undoEntry]
    refine h.tail.modify _ (by intro; rfl) fun x hx hn => ?_
    obtain rfl : previous = none := hn
    obtain ⟨x', hx', ho⟩ := h.journal a flags List.mem_cons_self
    obtain rfl : x = x' := Option.some.inj (hx.symm.trans hx')
    exact ho
  | storageChange a key previous =>
    simp only [State.undoEntry]
    exact h.tail.modify_same _ (by intro; rfl) (by intro; rfl)
  | transientStorageChange a key previous =>
    cases previous with
    | none | some v => exact h.tail
  | storageWarmed a key =>
    simp only [State.undoEntry, State.setStorageWarm]
    exact h.tail.modify_same _ (by intro; rfl) (by intro; rfl)

theorem popEntries (b : Bool) (n : Nat) {core : Core} (h : NeverRemoved core.1 js) :
    NeverRemoved (popEntries b n js core).2.1 (popEntries b n js core).1 := by
  induction js generalizing core with
  | nil => exact h
  | cons e js ih =>
    unfold State.popEntries
    split_ifs
    · exact ih (h.undoEntry b)
    · exact h

end NeverRemoved

section Overlay

variable [Keccak] {db : Database} {features : EvmFeatures} {s t : State}

theorem NeverRemoved.step (h : NeverRemoved s.accounts s.journal)
    (hst : Step db .existing s t) : NeverRemoved t.accounts t.journal := by
  cases hst with
  | readAccount a | readCode codeHash | readBlockHash n | readStorage a key x hl => exact h
  | load a info hv hk => exact h.insert hv id
  | mutate a x x' hl ho hst hf he =>
    have hp : x'.present = none → x.present = none := by
      clear ho hst hf
      induction he with
      | refl => exact id
      | tail _ hedit ih => exact fun hn => ih (hedit.2 hn)
    refine (h.set hl ho fun hn => h.accounts a x hl (hp hn)).cons fun b flags hb => ?_
    -- the entry brings back an absence only if the account is absent before the change
    simp only [JournalEntry.accountChange.injEq] at hb
    obtain ⟨rfl, hn, -⟩ := hb
    exact ⟨x', (Map.lookup_set _ _ _ _).trans (if_pos rfl), ho.trans (h.accounts _ x hl hn)⟩
  | loadSlot a x key value hl hv hst => exact h.setSlot hl key _
  | warmSlot a x key slot hl hb hc | writeSlot a x key value slot hl hb hw =>
    exact (h.setSlot hl key _).cons (by nofun)
  | tstore a key value hw =>
    unfold State.tstore
    split <;> split_ifs <;> first | exact h | exact h.cons nofun
  | log l hw => exact h

theorem NeverRemoved.run (h : NeverRemoved s.accounts s.journal)
    (hr : Run db .existing s t) : NeverRemoved t.accounts t.journal := by
  induction hr with
  | refl => exact h
  | tail _ hst ih => exact ih.step hst

theorem NeverRemoved.storageSession (h : NeverRemoved s.accounts s.journal) (a : Address)
    (f : StorageOverlay → StorageOverlay) :
    NeverRemoved
      ((storageSession db a fun h => { h with storage := f h.storage }).run s).2.accounts
      ((storageSession db a fun h => { h with storage := f h.storage }).run s).2.journal := by
  obtain ⟨hrun, hload⟩ := accountRawWithSkip_run (P := .existing) db a false s
  unfold State.storageSession storage
  rw [Op.run_mapError]
  rcases hr : (accountRawWithSkip db a false).run s with ⟨e | x, t⟩
  · rw [hr] at hrun
    rw [Op.run_bind_error hr]
    exact h.run hrun
  · rw [hr] at hrun hload
    rw [Op.run_bind_ok hr]
    have ht := h.run hrun
    exact ht.set (hload x rfl) rfl (ht.accounts a x (hload x rfl))

/-- **In the overlay of a transaction, absent accounts have never been there.** -/
theorem Pending.neverRemoved (h : Pending db features s) : NeverRemoved s.accounts s.journal := by
  induction h with
  | start ha hj =>
    rw [ha, hj]
    exact .empty
  | op o _ ih => exact ih.run (o.run_existing features _)
  | rollback cp _ ih => exact @NeverRemoved.popEntries _ _ _ (_, _) ih
  | setAccountWarm a warm _ ih =>
    simp only [State.setAccountWarm]
    exact ih.modify_same _ (by intro; rfl) (by intro; rfl)
  | setStorageWarm a key warm _ ih =>
    simp only [State.setStorageWarm]
    exact ih.modify_same _ (by intro; rfl) (by intro; rfl)
  | wipe a _ ih => exact ih.storageSession a StorageOverlay.wipe
  | other inner transientStorage hj _ ih =>
    show NeverRemoved _ inner.journal
    rw [hj]
    exact ih

/-! ## Finalization of an overlay -/

/-- The states differ in the order of the accounts of the overlay at most. -/
def SameOverlay (s t : State) : Prop :=
  t = { s with accounts := t.accounts } ∧ ∀ a, t.accounts.lookup a = s.accounts.lookup a

/-- **Finalization settles the overlay of a transaction**: it does not fail, finalizing again
changes nothing, and the order of the accounts does not matter. -/
theorem finalizeTransaction_settles (h : Pending db features s) :
    ∃ t, (finalizeTransaction db features).run s = (.ok (), t) ∧
      t = { s with accounts := t.accounts } ∧
      (∃ t', (finalizeTransaction db features).run t = (.ok (), t') ∧ SameOverlay t t') ∧
      (∀ accounts : Map Address Account, accounts.entries.Perm s.accounts.entries →
        ∃ t', (finalizeTransaction db features).run { s with accounts := accounts } = (.ok (), t') ∧
          SameOverlay t t') ∧
      (∀ a, s.accounts.lookup a = none → t.accounts.lookup a = none) ∧
      ∀ a x, s.accounts.lookup a = some x →
        ∃ x', t.accounts.lookup a = some x' ∧ x.Finalized features x' := by
  obtain ⟨accounts, hrun, hlookup⟩ := finalizeTransaction_run db features s
  refine ⟨_, hrun, rfl, ?_, fun m hm => ?_, fun a ha => ?_, fun a x hx => ?_⟩
  · obtain ⟨accounts', hrun', hlookup'⟩ :=
      finalizeTransaction_run db features { s with accounts := accounts }
    refine ⟨_, hrun', rfl, fun a => ?_⟩
    have hidem : finalizeAccount features ∘ finalizeAccount features = finalizeAccount features :=
      funext (finalizeAccount_idem features)
    show accounts'.lookup a = accounts.lookup a
    rw [hlookup', hlookup, Option.map_map, hidem]
  · obtain ⟨accounts', hrun', hlookup'⟩ :=
      finalizeTransaction_run db features { s with accounts := m }
    refine ⟨_, hrun', rfl, fun a => ?_⟩
    show accounts'.lookup a = accounts.lookup a
    rw [hlookup', hlookup, AList.perm_lookup hm]
  · show accounts.lookup a = none
    rw [hlookup, ha]
    rfl
  · refine ⟨finalizeAccount features x, ?_,
      finalized_finalizeAccount features (h.neverRemoved.accounts a x hx)⟩
    show accounts.lookup a = _
    rw [hlookup, hx]
    rfl

end Overlay

def slotOfAbsent [Keccak] : State :=
  StateOp.run Database.empty .empty
    (StateOp.run Database.empty .empty State.new (.slot 1 0 false false [.set 5]))
    (.account 1 false [.touch])

theorem pending_slotOfAbsent [Keccak] : Pending Database.empty .empty slotOfAbsent :=
  .op _ (.op _ (.start rfl rfl))

theorem finalizeTransaction_settles_absent :
    letI := Keccak.const
    ∃ x', (((finalizeTransaction Database.empty .empty).run slotOfAbsent).2.accounts.lookup 1 =
      some x') ∧ x'.present.isSome = true := by
  let _ := Keccak.const
  obtain ⟨t, hrun, -, -, -, -, hx⟩ := finalizeTransaction_settles pending_slotOfAbsent
  obtain ⟨x, hl⟩ : ∃ x, slotOfAbsent.accounts.lookup 1 = some x :=
    Option.isSome_iff_exists.mp (by decide +kernel)
  obtain ⟨x', hx', hfin⟩ := hx 1 x hl
  have hflags : x.flags.touched = true ∧ x.flags.destroyed = false := by
    have hall : (slotOfAbsent.accounts.lookup 1).all
        (fun x => x.flags.touched && !x.flags.destroyed) = true := by decide +kernel
    rw [hl] at hall
    simpa using hall
  refine ⟨x', by rw [hrun]; exact hx', ?_⟩
  rcases hfin.materialized rfl hflags.1 with hp | hd
  · exact hp
  · rw [hflags.2] at hd
    cases hd

/-- Before EIP-161 a touched absent account comes into being with the slots it has. -/
theorem finalizeTransaction_keeps_slot_of_absent :
    letI := Keccak.const
    Pending Database.empty .empty slotOfAbsent ∧
      (slotOfAbsent.accounts.lookup 1).any (selectsTouched .empty) = true ∧
      (((finalizeTransaction Database.empty .empty).run slotOfAbsent).2.accounts.lookup 1).any
        (fun x => x.storage.slots.lookup 0 == some ⟨⟨0, 5⟩, false⟩) = true := by
  let _ := Keccak.const
  exact ⟨pending_slotOfAbsent, by decide +kernel, by decide +kernel⟩

end State

end Evm2
