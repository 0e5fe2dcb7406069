import Evm2.State.Steps
import Evm2.State.Undo

/-!
# Rollback is exact

Whatever a step does, it leaves journal entries that undo it (`Step.journals`); a run with nested
rollbacks therefore leaves a journal suffix that leads back to where it started, up to what has
only been loaded (`Runs.journals`).

* **`Journals.rollback`**: rolling back what a journal undoes.
-/

namespace Evm2

open State (precompile3 undoEntry popEntries)

theorem FlagsRestored.le {k : Bool} {a : Address} {f g : AccountFlags}
    (h : FlagsRestored k a f g) : f.Le g := by
  rcases h with rfl | ⟨-, -, rfl⟩
  · exact .refl _
  · exact ⟨id, fun _ => rfl, id, id, id⟩

namespace State

/-- The part of a state that the journal restores. -/
abbrev core (s : State) : Core := (s.accounts, s.transientStorage)

def TransientNonzero (s : State) : Prop := ∀ key, s.transientStorage.lookup key ≠ some 0

theorem popEntries_append (pw : PrewarmSet) (k b : Bool) (es js : List JournalEntry) (c : Core) :
    popEntries b js.length (es ++ js) c = (js, (journalUndo pw k b).undoAll es c) := by
  induction es generalizing c with
  | nil =>
    cases js with
    | nil => rfl
    | cons j js => simp [popEntries]
  | cons e es ih =>
    have hlen : js.length < (e :: (es ++ js)).length := by
      simp only [List.length_cons, List.length_append]
      omega
    rw [List.cons_append, popEntries, if_pos hlen, ih]
    rfl

/-! ## What a step journals -/

/-- State `s'` is reached from `s` by changes that its journal undoes. With `k`, the touch of
precompile 3 may stay behind. -/
structure Journals (k : Bool) (s s' : State) : Prop where
  prewarmSet : s'.prewarmSet = s.prewarmSet
  logs : s.logs <+: s'.logs
  nonzero : s'.TransientNonzero
  entries : ∃ es, s'.journal = es ++ s.journal ∧
    ∀ b, (b = true → k = true) → (journalUndo s.prewarmSet k b).Reverts s.core es s'.core

variable {k : Bool} {s s' s'' : State} {features : EvmFeatures}

theorem Journals.refl (h : s.TransientNonzero) : Journals k s s :=
  ⟨rfl, List.prefix_refl _, h, [], rfl, fun _ _ => .refl _⟩

theorem Journals.trans (h : Journals k s s') (h' : Journals k s' s'') : Journals k s s'' where
  prewarmSet := h'.prewarmSet.trans h.prewarmSet
  logs := h.logs.trans h'.logs
  nonzero := h'.nonzero
  entries := by
    obtain ⟨es, hes, hback⟩ := h.entries
    obtain ⟨es', hes', hback'⟩ := h'.entries
    refine ⟨es' ++ es, by rw [hes', hes, List.append_assoc], fun b hb => ?_⟩
    have hb' := hback' b hb
    rw [h.prewarmSet] at hb'
    exact (hback b hb).trans hb'

theorem Journals.of_extends (hnz : s.TransientNonzero) (hp : s'.prewarmSet = s.prewarmSet)
    (hl : s'.logs = s.logs) (hj : s'.journal = s.journal)
    (h : CoreExtends s.prewarmSet k s.core s'.core) : Journals k s s' where
  prewarmSet := hp
  logs := hl ▸ List.prefix_refl _
  nonzero key := by
    have ht : s'.transientStorage.lookup key = s.transientStorage.lookup key := h.transient key
    rw [ht]
    exact hnz key
  entries := ⟨[], hj, fun _ _ => .of_le h⟩

theorem Journals.of_entry {e : JournalEntry} (hnz : s'.TransientNonzero)
    (hp : s'.prewarmSet = s.prewarmSet) (hl : s'.logs = s.logs) (hj : s'.journal = e :: s.journal)
    (hv : e.Valid s'.core)
    (h : ∀ b, (b = true → k = true) → CoreExtends s.prewarmSet k s.core (undoEntry b e s'.core)) :
    Journals k s s' where
  prewarmSet := hp
  logs := hl ▸ List.prefix_refl _
  nonzero := hnz
  entries := ⟨[e], hj, fun b hb => .single hv (h b hb)⟩

theorem extends_setAccount {a : Address} (info : Option AccountInfo)
    (hv : s.accounts.lookup a = none) :
    CoreExtends s.prewarmSet k s.core
      (s.setAccount a (.loaded info (s.prewarmSet.isWarm a))).core where
  transient _ := rfl
  kept b y hy := by
    have hne : b ≠ a := by
      rintro rfl
      rw [hv] at hy
      cases hy
    refine ⟨y, ?_, .refl y⟩
    simp only [setAccount, Map.lookup_set, if_neg hne]
    exact hy
  fresh b y hb hy := by
    simp only [setAccount, Map.lookup_set] at hy
    split_ifs at hy with hba
    · subst hba
      cases hy
      exact .refl _
    · rw [hb] at hy
      cases hy

theorem extends_set {a : Address} {x y : Account} {accounts : Map Address Account}
    {transient : Map (Address × Word) Word} {pw : PrewarmSet}
    (hx : accounts.lookup a = some x) (h : AccountExtends pw k a x y) :
    CoreExtends pw k (accounts, transient) (accounts.set a y, transient) where
  transient _ := rfl
  kept b z hz := by
    simp only [Map.lookup_set]
    split_ifs with hb
    · subst hb
      rw [hx] at hz
      cases hz
      exact ⟨y, rfl, h⟩
    · exact ⟨z, hz, .refl z⟩
  fresh b z hb hz := by
    simp only [Map.lookup_set] at hz
    split_ifs at hz with hba
    · subst hba
      rw [hx] at hb
      cases hb
    · rw [hb] at hz
      cases hz

theorem journals_mutate {a : Address} {x x' : Account} (hnz : s.TransientNonzero)
    (hl : s.accounts.lookup a = some x) (ho : x'.original = x.original)
    (hs : x'.storage = x.storage) (hf : x.flags.Le x'.flags) :
    Journals k s ((s.setAccount a x').pushJournal (.accountChange a x.present x.flags)) := by
  refine .of_entry hnz rfl rfl rfl ?_ fun b hb => ?_
  · simp [JournalEntry.Valid, pushJournal, setAccount]
  -- what the entry leaves is `x`, but perhaps for the touch of precompile 3
  set y : Account := { x' with
    present := x.present
    flags := { x.flags with
      touched := if b && a == precompile3 then x'.flags.touched else x.flags.touched } } with hy
  have hflags : FlagsRestored k a x.flags y.flags := by
    simp only [hy]
    split_ifs with hkeep
    · rw [Bool.and_eq_true, beq_iff_eq] at hkeep
      cases ht : x'.flags.touched with
      | true => exact .inr ⟨hb hkeep.1, hkeep.2, rfl⟩
      | false =>
        left
        have hx : x.flags.touched = false := by
          by_contra h
          have := hf.touched (by simpa using h)
          rw [ht] at this
          cases this
        rw [← hx]
    · exact .refl _
  have hcore : undoEntry b (.accountChange a x.present x.flags)
      ((s.setAccount a x').pushJournal (.accountChange a x.present x.flags)).core =
      (s.accounts.set a y, s.transientStorage) := by
    simp only [undoEntry, pushJournal, setAccount, Map.modify_set, hy]
  rw [hcore]
  exact extends_set hl ⟨ho, rfl, hflags, hs ▸ .refl _⟩

theorem journals_slot {a : Address} {x : Account} {key : Word} {slot slot' : StorageSlot}
    {e : JournalEntry} {f : StorageSlot → StorageSlot} (hnz : s.TransientNonzero)
    (hl : s.accounts.lookup a = some x) (hb : x.storage.slots.lookup key = some slot)
    (hv : ∀ c : Core, (Core.slot c a key).isSome → e.Valid c)
    (he : ∀ b c, undoEntry b e c = (c.1.modify a fun x => x.modifySlot key f, c.2))
    (hf : f slot' = slot) :
    Journals k s ((s.setAccount a (x.setSlot key slot')).pushJournal e) := by
  refine .of_entry hnz rfl rfl rfl (hv _ ?_) fun b _ => ?_
  · simp [Core.slot, pushJournal, setAccount, Account.setSlot]
  have hback : undoEntry b e ((s.setAccount a (x.setSlot key slot')).pushJournal e).core =
      s.core := by
    rw [he]
    simp only [pushJournal, setAccount, Map.modify_set, Account.setSlot, Account.modifySlot, hf,
      Map.set_eq_self hb, Map.set_eq_self hl]
  rw [hback]
  exact .refl _

theorem journals_warmSlot {a : Address} {x : Account} {key : Word} {slot : StorageSlot}
    (hnz : s.TransientNonzero) (hl : s.accounts.lookup a = some x)
    (hb : x.storage.slots.lookup key = some slot) (hc : slot.isWarm = false) :
    Journals k s ((s.setAccount a (x.setSlot key (slot.setWarm true))).pushJournal
      (.storageWarmed a key)) := by
  refine journals_slot (f := fun slot => slot.setWarm false) hnz hl hb (fun _ h => h)
    (fun _ _ => rfl) ?_
  cases slot
  cases hc
  rfl

theorem journals_writeSlot {a : Address} {x : Account} {key value : Word} {slot : StorageSlot}
    (hnz : s.TransientNonzero) (hl : s.accounts.lookup a = some x)
    (hb : x.storage.slots.lookup key = some slot) :
    Journals k s ((s.setAccount a (x.setSlot key (slot.setCurrent value))).pushJournal
      (.storageChange a key slot.value.current)) :=
  journals_slot (f := fun slot' => slot'.setCurrent slot.value.current) hnz hl hb (fun _ h => h)
    (fun _ _ => rfl) rfl

theorem journals_transient {a : Address} {key : Word} {m : Map (Address × Word) Word}
    (hnz : s.TransientNonzero) (hm : ∀ j, j ≠ (a, key) → m.lookup j = s.transientStorage.lookup j)
    (hk : m.lookup (a, key) ≠ some 0) :
    Journals k s { s with
      inner := s.inner.pushJournal
        (.transientStorageChange a key (s.transientStorage.lookup (a, key)))
      transientStorage := m } := by
  refine .of_entry (fun j => ?_) rfl rfl rfl (hnz (a, key)) fun b _ => ?_
  · by_cases hj : j = (a, key)
    · exact hj ▸ hk
    · exact fun h => hnz j ((hm j hj).symm.trans h)
  have hback : ∀ j, (undoEntry b (.transientStorageChange a key
      (s.transientStorage.lookup (a, key))) (s.accounts, m)).2.lookup j =
      s.transientStorage.lookup j := by
    intro j
    by_cases hj : j = (a, key)
    · subst hj
      cases hp : s.transientStorage.lookup (a, key) with
      | none => simp [undoEntry]
      | some v =>
        have hv : v ≠ 0 := fun h => hnz (a, key) (h ▸ hp)
        simp only [undoEntry, if_neg hv, Map.lookup_set, if_true]
    · rw [← hm j hj]
      cases hp : s.transientStorage.lookup (a, key) with
      | none => simp [undoEntry, hj]
      | some v =>
        have hv : v ≠ 0 := fun h => hnz (a, key) (h ▸ hp)
        simp only [undoEntry, if_neg hv, Map.lookup_set, if_neg hj]
  have hfst : (undoEntry b (.transientStorageChange a key
      (s.transientStorage.lookup (a, key))) (s.accounts, m)).1 = s.accounts := by
    cases s.transientStorage.lookup (a, key) <;> rfl
  refine ⟨hback, fun a x hx => ⟨x, ?_, .refl x⟩, fun a x hx hx' => ?_⟩
  · exact (congrArg (AList.lookup a) hfst).trans hx
  · cases hx.symm.trans ((congrArg (AList.lookup a) hfst).symm.trans hx')

theorem journals_tstore (hnz : s.TransientNonzero) (a : Address) (key value : Word) :
    Journals k s (s.tstore a key value) := by
  unfold tstore
  split
  · rename_i previous hp
    split_ifs with heq hz
    · exact .refl hnz
    · rw [← hp]
      exact journals_transient hnz (fun j hj => by simp [hj]) (by simp)
    · rw [← hp]
      exact journals_transient hnz (fun j hj => by simp [hj]) (by simpa using hz)
  · rename_i hp
    split_ifs with hz
    · exact .refl hnz
    · rw [← hp]
      exact journals_transient hnz (fun j hj => by simp [hj]) (by simpa using hz)

variable (features) in
theorem rollback_entries (pw : PrewarmSet) (k : Bool) {es : List JournalEntry}
    (hes : s'.journal = es ++ s.journal) :
    (s'.rollback s.checkpoint features).journal = s.journal ∧
      (s'.rollback s.checkpoint features).core =
        (journalUndo pw k (features.contains .eip161)).undoAll es s'.core := by
  have hpop : popEntries (features.contains .eip161) s.checkpoint.journalLen s'.journal s'.core =
      (s.journal, (journalUndo pw k (features.contains .eip161)).undoAll es s'.core) := by
    rw [hes]
    exact popEntries_append _ _ _ _ _ _
  exact ⟨congrArg Prod.fst hpop, congrArg Prod.snd hpop⟩

theorem Journals.rollback (h : Journals k s s') (hk : features.contains .eip161 = true → k = true) :
    (s'.rollback s.checkpoint features).logs = s.logs ∧
      (s'.rollback s.checkpoint features).journal = s.journal ∧
      CoreExtends s.prewarmSet k s.core (s'.rollback s.checkpoint features).core := by
  obtain ⟨es, hes, hback⟩ := h.entries
  obtain ⟨hjournal, hcore⟩ := rollback_entries features s.prewarmSet k hes
  refine ⟨(List.prefix_iff_eq_take.mp h.logs).symm, hjournal, ?_⟩
  rw [hcore]
  exact (hback _ hk).back

section Runs

variable [Keccak] {db : Database} {P : Permit}

/-- **Every step is journaled.** -/
theorem Step.journals (hnz : s.TransientNonzero) (h : Step db P s s') : Journals k s s' := by
  cases h with
  | readAccount a | readCode h | readBlockHash n | readStorage a key x hl =>
    exact .of_extends hnz rfl rfl rfl (.refl _)
  | load a info hv hs => exact .of_extends hnz rfl rfl rfl (extends_setAccount info hv)
  | mutate a x x' hl ho hs hf he => exact journals_mutate hnz hl ho hs hf
  | loadSlot a x key value hl hv hs =>
    refine .of_extends hnz rfl rfl rfl (extends_set hl ⟨rfl, rfl, .refl _, rfl, ?_, ?_⟩)
    · intro j slot hj
      have hne : j ≠ key := by
        rintro rfl
        rw [hv] at hj
        cases hj
      simpa [Account.setSlot, hne] using hj
    · intro j slot hj hj'
      by_cases hjk : j = key
      · subst hjk
        simp only [Account.setSlot, Map.lookup_set, if_true, Option.some.injEq] at hj'
        subst hj'
        rfl
      · simp [Account.setSlot, hjk, hj] at hj'
  | warmSlot a x key slot hl hb hc => exact journals_warmSlot hnz hl hb hc
  | writeSlot a x key value slot hl hb hw => exact journals_writeSlot hnz hl hb
  | tstore a key value hw => exact journals_tstore hnz a key value
  | log l hw => exact ⟨rfl, List.prefix_append _ _, hnz, [], rfl, fun _ _ => .refl _⟩

/-! ## Runs with nested rollbacks -/

/-- Steps and nested rollbacks; `k` says whether the rollbacks may be under EIP-161. -/
inductive Runs (db : Database) (P : Permit) (k : Bool) : State → State → Prop
  | refl (s : State) : Runs db P k s s
  | step {s t u : State} : Runs db P k s t → Step db P t u → Runs db P k s u
  | rollback {s t u : State} (features : EvmFeatures)
      (eip161 : features.contains .eip161 = true → k = true) :
      Runs db P k s t → Runs db P k t u → Runs db P k s (u.rollback t.checkpoint features)

theorem Runs.trans {s t u : State} (h : Runs db P k s t) (h' : Runs db P k t u) :
    Runs db P k s u := by
  induction h' with
  | refl => exact h
  | step _ hs ih => exact .step (ih h) hs
  | rollback features hk _ hinner ih _ => exact .rollback features hk (ih h) hinner

theorem Runs.mono {P' : Permit} (hP : P.Le P') {s t : State} (h : Runs db P k s t) :
    Runs db P' k s t := by
  induction h with
  | refl => exact .refl _
  | step _ hs ih => exact ih.step (hs.mono hP)
  | rollback features hk _ _ ih ihin => exact .rollback features hk ih ihin

theorem Runs.of_run {s t : State} (h : Run db P s t) : Runs db P k s t := by
  induction h with
  | refl => exact .refl s
  | tail _ hs ih => exact ih.step hs

/-- **Every run is journaled.** -/
theorem Runs.journals {s t : State} (h : Runs db P k s t) (hnz : s.TransientNonzero) :
    Journals k s t := by
  induction h with
  | refl => exact .refl hnz
  | step _ hs ih => exact (ih hnz).trans (hs.journals (ih hnz).nonzero)
  | @rollback s t u features hk _ _ ih ihin =>
    have hst : Journals k s t := ih hnz
    obtain ⟨hlogs, hjournal, hcore⟩ := (ihin hst.nonzero).rollback hk
    have hp : (u.rollback t.checkpoint features).prewarmSet = t.prewarmSet :=
      (ihin hst.nonzero).prewarmSet
    exact hst.trans (.of_extends hst.nonzero hp hlogs hjournal hcore)

end Runs

end State

end Evm2
