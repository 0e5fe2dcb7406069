import Evm2.State.View

/-!
# What a rollback leaves behind

A rollback undoes what the journal records. Loads are not recorded, and under EIP-161 the touch of
precompile 3 stays.

* **`State.LoadsMore.exact`**: nothing else differs if precompile 3 is touched in both states or in
  none.
-/

namespace Evm2

theorem FlagsRestored.exact {k : Bool} {a : Address} {f g : AccountFlags}
    (h : FlagsRestored k a f g) (ht : a = State.precompile3 → g.touched = f.touched) :
    FlagsRestored false a f g := by
  rcases h with h | ⟨-, ha, rfl⟩
  · exact .inl h
  · left
    have htouched : true = f.touched := ht ha
    rw [htouched]

def Permit.sparing (b : Address) : Permit where
  edit a x x' := a = b → x'.flags.touched = x.flags.touched
  write := True
  log := True

instance (b : Address) : (Permit.sparing b).Warms := ⟨fun _ _ _ => rfl⟩

theorem AccountHandle.Mutates.sparing {db : Database} {P : Permit} {b : Address}
    {h h' : AccountHandle} (hm : Mutates db P h h') (hne : h.address ≠ b) :
    Mutates db (.sparing b) h h' :=
  { hm with edits := Relation.ReflTransGen.mono (fun _ _ _ ha => (hne ha).elim) _ _ hm.edits }

namespace State

def isTouched (s : State) (a : Address) : Bool :=
  (s.accounts.lookup a).elim false fun x => x.flags.touched

/-- State `t` is `s` with more accounts and slots loaded. With `k`, precompile 3 may be touched. -/
structure LoadsMore (k : Bool) (s t : State) : Prop where
  logs : t.logs = s.logs
  journal : t.journal = s.journal
  prewarmSet : t.prewarmSet = s.prewarmSet
  core : CoreExtends s.prewarmSet k s.core t.core

variable {k : Bool} {s t u : State} {a b : Address} {x y : Account} {features : EvmFeatures}

theorem isTouched_some (h : s.accounts.lookup a = some x) : s.isTouched a = x.flags.touched := by
  simp only [isTouched, h, Option.elim_some]

theorem isTouched_none (h : s.accounts.lookup a = none) : s.isTouched a = false := by
  simp only [isTouched, h, Option.elim_none]

/-- **Rolling back later** to the checkpoint of `s` leads to the same state with more loaded. -/
theorem Journals.loadsMore (h : Journals k s u) (h' : Journals k u t)
    (hk : features.contains .eip161 = true → k = true) :
    LoadsMore k (u.rollback s.checkpoint features) (t.rollback s.checkpoint features) := by
  obtain ⟨hlogs, hjournal, -⟩ := h.rollback hk
  obtain ⟨hlogs', hjournal', -⟩ := (h.trans h').rollback hk
  obtain ⟨es, hes, hback⟩ := h.entries
  obtain ⟨es', hes', hback'⟩ := h'.entries
  have hes'' : t.journal = (es' ++ es) ++ s.journal := by rw [hes', hes, List.append_assoc]
  obtain ⟨-, hcore⟩ := rollback_entries features s.prewarmSet k hes
  obtain ⟨-, hcore'⟩ := rollback_entries features s.prewarmSet k hes''
  have hpw : (u.rollback s.checkpoint features).prewarmSet = s.prewarmSet := h.prewarmSet
  have hpw' : (t.rollback s.checkpoint features).prewarmSet = s.prewarmSet :=
    h'.prewarmSet.trans h.prewarmSet
  refine ⟨hlogs'.trans hlogs.symm, hjournal'.trans hjournal.symm, hpw'.trans hpw.symm, ?_⟩
  -- the newer entries lead back above `u`, where the older ones are undone alike
  have hlate := (hback' _ hk).back
  rw [h.prewarmSet] at hlate
  rw [hpw, hcore, hcore', UndoSystem.undoAll_append]
  exact UndoSystem.undoAll_mono _ (hback _ hk).valid hlate

/-! ## The touch of precompile 3 -/

theorem LoadsMore.exact (h : LoadsMore k s t)
    (ht : t.isTouched precompile3 = s.isTouched precompile3) : LoadsMore false s t := by
  refine ⟨h.logs, h.journal, h.prewarmSet, h.core.transient, fun a x hx => ?_,
    fun a x' hx hx' => ?_⟩
  · obtain ⟨x', hx', hxx⟩ := h.core.kept a x hx
    refine ⟨x', hx', hxx.original, hxx.present, FlagsRestored.exact hxx.flags ?_, hxx.storage⟩
    rintro rfl
    rw [isTouched_some hx, isTouched_some hx'] at ht
    exact ht
  · have hxx := h.core.fresh a x' hx hx'
    refine ⟨hxx.original, hxx.present, FlagsRestored.exact hxx.flags ?_, hxx.storage⟩
    rintro rfl
    rw [isTouched_none hx, isTouched_some hx'] at ht
    exact ht

private def touch (c : Core) (a : Address) : Bool :=
  (c.1.lookup a).elim false fun x => x.flags.touched

private theorem touch_modify {c : Core} (f : Account → Account)
    (hf : ∀ x, (f x).flags.touched = x.flags.touched) (a b : Address) :
    touch (c.1.modify b f, c.2) a = touch c a := by
  simp only [touch, Map.lookup_modify]
  split_ifs with h
  · subst h
    cases c.1.lookup a with
    | none => rfl
    | some x => exact hf x
  · rfl

/-- Undoing an entry under EIP-161 keeps the touch of precompile 3. -/
private theorem touch_undoEntry (e : JournalEntry) (c : Core) :
    touch (undoEntry true e c) precompile3 = touch c precompile3 := by
  cases e with
  | accountChange a previous previousFlags =>
    by_cases ha : a = precompile3
    · subst ha
      exact touch_modify _ (fun x => by simp) _ _
    · simp only [touch, undoEntry, Map.lookup_modify, if_neg (Ne.symm ha)]
  | storageChange a key previous =>
    exact touch_modify (fun x => x.modifySlot key (·.setCurrent previous)) (fun _ => rfl) _ a
  | transientStorageChange a key previous => cases previous <;> rfl
  | storageWarmed a key =>
    exact touch_modify (fun x => x.modifySlot key (·.setWarm false)) (fun _ => rfl) _ a

/-- **EIP-161's rollback keeps the touch of precompile 3.** -/
theorem isTouched_rollback (h161 : features.contains .eip161 = true) (t : State)
    (cp : StateCheckpoint) :
    (t.rollback cp features).isTouched precompile3 = t.isTouched precompile3 := by
  have hpop : ∀ (es : List JournalEntry) (c : Core),
      touch (popEntries true cp.journalLen es c).2 precompile3 = touch c precompile3 := by
    intro es
    induction es with
    | nil => exact fun _ => rfl
    | cons e es ih =>
      intro c
      unfold popEntries
      split_ifs
      · rw [ih, touch_undoEntry]
      · rfl
  have h := hpop t.journal t.core
  rw [← h161] at h
  exact h

/-! ## What touches no account -/

section Sparing

variable [Keccak] {db : Database} {α : Type}

theorem Step.isTouched (h : Step db (.sparing b) s t) : t.isTouched b = s.isTouched b := by
  have hset : ∀ {s : State} {a : Address} {x x' : Account}, s.accounts.lookup a = some x →
      (a = b → x'.flags.touched = x.flags.touched) →
      (s.setAccount a x').isTouched b = s.isTouched b := by
    intro s a x x' hx hf
    simp only [State.isTouched, setAccount, Map.lookup_set]
    split_ifs with hb
    · rw [hb, hx]
      exact hf hb.symm
    · rfl
  cases h with
  | readAccount a => rfl
  | readCode h => rfl
  | readBlockHash n => rfl
  | readStorage a key x hl => rfl
  | load a info hv hk =>
    simp only [State.isTouched, setAccount, Map.lookup_set]
    split_ifs with hb
    · rw [hb, hv]
      rfl
    · rfl
  | mutate a x x' hl ho hst hf he =>
    have hedits : ∀ {x y : Account}, Relation.ReflTransGen ((Permit.sparing b).edit a) x y →
        a = b → y.flags.touched = x.flags.touched := by
      intro x y hxy hab
      induction hxy with
      | refl => rfl
      | tail _ hstep ih => exact (hstep hab).trans ih
    exact hset hl (hedits he)
  | loadSlot a x key value hl hv hst | warmSlot a x key slot hl hb hc => exact hset hl fun _ => rfl
  | writeSlot a x key value slot hl hb hw => exact hset hl fun _ => rfl
  | tstore a key value hw =>
    unfold State.tstore
    split <;> split_ifs <;> rfl
  | log l hw => rfl

theorem Run.isTouched (h : Run db (.sparing b) s t) : t.isTouched b = s.isTouched b := by
  induction h with
  | refl => rfl
  | tail _ hstep ih => exact hstep.isTouched.trans ih

theorem moves_transfer_sparing {src dst : Address} (hsrc : src ≠ b) (hdst : dst ≠ b)
    (value : Word) : Op.Moves (Run db (.sparing b)) (transfer db src dst value) := by
  have hat : ∀ {a : Address} (_ : a ≠ b) {f : AccountHandle → Bool × AccountHandle}
      (_ : ∀ h, AccountHandle.Mutates db .any h (f h).2),
      Op.Moves (Run db (.sparing b)) (account db a f) := fun ha _ hf =>
    moves_account_at db fun h hh => (hf h).sparing (hh.symm ▸ ha)
  have hcredit : ∀ (h : AccountHandle) (v : Word),
      AccountHandle.Mutates db .any h (h.setBalance v).touch := fun h v =>
    (AccountHandle.mutates_setBalance h v).trans (AccountHandle.mutates_touch _)
  refine .ite ?_ (.ite ?_ ?_)
  · refine .bind (moves_account_at db fun h hh => ?_) fun _ => .ret _
    exact (AccountHandle.mutates_touch (P := .any) h).sparing (hh.symm ▸ hdst)
  · refine hat hsrc fun h => ?_
    split_ifs
    · exact .refl h
    · exact AccountHandle.mutates_touch h
  · refine .bind (hat hsrc fun h => ?_) fun covered => .ite (hat hdst fun h => hcredit h _) (.ret _)
    split_ifs
    · exact .refl h
    · exact hcredit h _

end Sparing

end State

end Evm2
