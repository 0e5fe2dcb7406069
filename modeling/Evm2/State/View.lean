import Evm2.State.CacheView
import Evm2.State.Rollback

/-!
# What a state says about accounts and slots

A state resolves a read through its overlay, the cache and the database. `State.info` and
`State.slot` are the values that reads return.
-/

namespace Evm2

open State (undoEntry popEntries)

/-! ## What undoing never changes -/

/-- Account `x'` has the originals of `x`. -/
structure Account.SameOriginals (x x' : Account) : Prop where
  original : x'.original = x.original
  wiped : x'.storage.wiped = x.storage.wiped
  slots : ∀ key, (x'.storage.slots.lookup key).map (fun slot => slot.value.original) =
    (x.storage.slots.lookup key).map fun slot => slot.value.original

theorem Account.SameOriginals.refl (x : Account) : x.SameOriginals x := ⟨rfl, rfl, fun _ => rfl⟩

theorem Account.SameOriginals.trans {x y z : Account} (h : x.SameOriginals y)
    (h' : y.SameOriginals z) : x.SameOriginals z :=
  ⟨h'.original.trans h.original, h'.wiped.trans h.wiped,
    fun key => (h'.slots key).trans (h.slots key)⟩

theorem Account.sameOriginals_modifySlot (x : Account) (key : Word)
    (f : StorageSlot → StorageSlot) (hf : ∀ slot, (f slot).value.original = slot.value.original) :
    x.SameOriginals (x.modifySlot key f) := by
  refine ⟨rfl, rfl, fun j => ?_⟩
  simp only [modifySlot, Map.lookup_modify]
  split_ifs with h
  · subst h
    cases x.storage.slots.lookup j <;> simp [hf]
  · rfl

theorem sameOriginals_modify {m : Map Address Account} {f : Account → Account} (a : Address)
    (hf : ∀ x : Account, x.SameOriginals (f x)) {b : Address} {x' : Account}
    (h : (m.modify a f).lookup b = some x') :
    ∃ x, m.lookup b = some x ∧ x.SameOriginals x' := by
  rw [Map.lookup_modify] at h
  split_ifs at h with hb
  · subst hb
    obtain ⟨x, hx, rfl⟩ := Option.map_eq_some_iff.mp h
    exact ⟨x, hx, hf x⟩
  · exact ⟨x', h, .refl x'⟩

theorem sameOriginals_undoEntry {b : Bool} {e : JournalEntry} {c : Core} {a : Address}
    {x' : Account} (h : (undoEntry b e c).1.lookup a = some x') :
    ∃ x, c.1.lookup a = some x ∧ x.SameOriginals x' := by
  cases e with
  | accountChange a' p f =>
    refine sameOriginals_modify a' (fun x => ?_) h
    exact ⟨rfl, rfl, fun _ => rfl⟩
  | storageChange a' j p | storageWarmed a' j =>
    refine sameOriginals_modify a' (fun x => ?_) h
    exact x.sameOriginals_modifySlot j _ fun _ => rfl
  | transientStorageChange a' j p =>
    cases p <;> exact ⟨x', h, .refl x'⟩

theorem sameOriginals_popEntries {b : Bool} {n : Nat} (es : List JournalEntry) {c : Core}
    {a : Address} {x' : Account} (h : (popEntries b n es c).2.1.lookup a = some x') :
    ∃ x, c.1.lookup a = some x ∧ x.SameOriginals x' := by
  induction es generalizing c with
  | nil => exact ⟨x', h, .refl x'⟩
  | cons e es ih =>
    unfold popEntries at h
    split_ifs at h
    · obtain ⟨y, hy, hyx⟩ := ih h
      obtain ⟨x, hx, hxy⟩ := sameOriginals_undoEntry hy
      exact ⟨x, hx, hxy.trans hyx⟩
    · exact ⟨x', h, .refl x'⟩

namespace State

/-! ## Accounts -/

section Info

variable [Keccak] (db : Database)

def info (s : State) (a : Address) : Except DatabaseError (Option AccountInfo) :=
  match s.accounts.lookup a with
  | some x => .ok x.present
  | none => s.cache.info db a

theorem run_accountInfoUntracked (a : Address) (s : State) :
    ((accountInfoUntracked db a).run s).1 = s.info db a := by
  simp only [accountInfoUntracked, info]
  cases s.accounts.lookup a <;> rfl

/-- The originals of the overlay are what the cache database says, and cached there. -/
def Sound (s : State) : Prop := ∀ a x, s.accounts.lookup a = some x → s.cache.Knows db a x.original

end Info

theorem sameOriginals_rollback {s : State} {cp : StateCheckpoint} {features : EvmFeatures}
    {a : Address} {x' : Account} (h : (s.rollback cp features).accounts.lookup a = some x') :
    ∃ x, s.accounts.lookup a = some x ∧ x.SameOriginals x' :=
  sameOriginals_popEntries s.journal h

section Runs

variable [Keccak] {db : Database} {P : Permit} {k : Bool} {s t : State} {a : Address}

theorem info_some {x : Account} (h : s.accounts.lookup a = some x) : s.info db a = .ok x.present := by
  simp only [info, h]

theorem info_none (h : s.accounts.lookup a = none) : s.info db a = s.cache.info db a := by
  simp only [info, h]

theorem Sound.setAccount (h : s.Sound db) {y : Account} (hy : s.cache.Knows db a y.original) :
    (s.setAccount a y).Sound db := by
  intro b x hx
  simp only [State.setAccount, Map.lookup_set] at hx
  split_ifs at hx with hb
  · subst hb
    cases hx
    exact hy
  · exact h b x hx

theorem Sound.withCache (h : s.Sound db) {c : Cache} (hc : Cache.SameData db s.cache c) :
    (s.withCache c).Sound db :=
  fun b x hx => hc.knows b _ (h b x hx)

theorem Step.sound (hs : s.Sound db) (h : Step db P s t) :
    t.Sound db ∧ Cache.SameData db s.cache t.cache := by
  cases h with
  | readAccount a =>
    have hc : Cache.SameData db s.cache _ := Cache.sameData_getAccount s.cache a
    exact ⟨hs.withCache hc, hc⟩
  | readCode h =>
    have hc : Cache.SameData db s.cache _ := Cache.sameData_getCodeByHash s.cache h
    exact ⟨hs.withCache hc, hc⟩
  | readBlockHash n =>
    have hc : Cache.SameData db s.cache _ := Cache.sameData_getBlockHash s.cache n
    exact ⟨hs.withCache hc, hc⟩
  | readStorage a key x hl =>
    have hc : Cache.SameData db s.cache _ := Cache.sameData_getStorage (hs a x hl) key
    exact ⟨hs.withCache hc, hc⟩
  | load a info hv hk => exact ⟨hs.setAccount hk, .refl _⟩
  | mutate a x x' hl ho hst hf he => exact ⟨hs.setAccount (by rw [ho]; exact hs a x hl), .refl _⟩
  | loadSlot a x key value hl hv hst | warmSlot a x key slot hl hb hc =>
    exact ⟨hs.setAccount (hs a x hl), .refl _⟩
  | writeSlot a x key value slot hl hb hw => exact ⟨hs.setAccount (hs a x hl), .refl _⟩
  | tstore a key value hw =>
    have ht : (s.tstore a key value).accounts = s.accounts ∧
        (s.tstore a key value).cache = s.cache := by
      unfold State.tstore
      split <;> split_ifs <;> exact ⟨rfl, rfl⟩
    exact ⟨fun b x hx => by rw [ht.2]; exact hs b x (by rwa [ht.1] at hx), by
      rw [ht.2]; exact .refl _⟩
  | log l hw => exact ⟨hs, .refl _⟩

theorem Sound.rollback (h : s.Sound db) (cp : StateCheckpoint) (features : EvmFeatures) :
    (s.rollback cp features).Sound db := by
  intro a x' hx'
  obtain ⟨x, hx, hxx⟩ := sameOriginals_rollback hx'
  rw [hxx.original]
  exact h a x hx

/-- **Runs keep states sound** and do not change what the cache database says. -/
theorem Runs.sound (h : Runs db P k s t) (hs : s.Sound db) :
    t.Sound db ∧ Cache.SameData db s.cache t.cache := by
  induction h with
  | refl => exact ⟨hs, .refl _⟩
  | step _ hst ih =>
    obtain ⟨ht, hc⟩ := ih hs
    obtain ⟨hu, hc'⟩ := hst.sound ht
    exact ⟨hu, hc.trans hc'⟩
  | rollback features _ _ _ ih ihin =>
    obtain ⟨ht, hc⟩ := ih hs
    obtain ⟨hu, hc'⟩ := ihin ht
    exact ⟨hu.rollback _ features, hc.trans hc'⟩

theorem Runs.rollback_extends (h : Runs db P k s t) (hnz : s.TransientNonzero)
    {features : EvmFeatures} (hk : features.contains .eip161 = true → k = true) :
    CoreExtends s.prewarmSet k s.core (t.rollback s.checkpoint features).core :=
  ((h.journals hnz).rollback hk).2.2

/-- **A rollback restores what the state says about every account.** -/
theorem Runs.rollback_info (h : Runs db P k s t) (hs : s.Sound db) (hnz : s.TransientNonzero)
    {features : EvmFeatures} (hk : features.contains .eip161 = true → k = true) (a : Address) :
    (t.rollback s.checkpoint features).info db a = s.info db a := by
  have hext := h.rollback_extends hnz hk
  obtain ⟨ht, hc⟩ := h.sound hs
  cases hx : s.accounts.lookup a with
  | some x =>
    obtain ⟨x', hx', hxx⟩ := hext.kept a x hx
    rw [info_some hx, info_some hx', hxx.present]
  | none =>
    rw [info_none hx]
    cases hx' : (t.rollback s.checkpoint features).accounts.lookup a with
    | some x' =>
      -- loaded meanwhile, and as it was loaded
      have hp : x'.present = x'.original := (hext.fresh a x' hx hx').present
      rw [info_some hx', hp, ← hc.info a]
      exact (Cache.Knows.info (ht.rollback s.checkpoint features a x' hx')).symm
    | none =>
      rw [info_none hx']
      exact hc.info a

/-! ## Invariants of the accounts of the overlay -/

def Forall (s : State) (I : Address → Account → Prop) : Prop :=
  ∀ a x, s.accounts.lookup a = some x → I a x

omit [Keccak] in
theorem Forall.setAccount {I : Address → Account → Prop} (h : s.Forall I) {y : Account}
    (hy : I a y) : (s.setAccount a y).Forall I := by
  intro b x hx
  simp only [State.setAccount, Map.lookup_set] at hx
  split_ifs at hx with hb
  · subst hb
    cases hx
    exact hy
  · exact h b x hx

/-- What an invariant of accounts must satisfy to be kept by runs: it holds for loaded accounts,
does not look at storage or at the touch of precompile 3, and the permitted edits keep it. -/
structure Invariant (P : Permit) (I : Address → Account → Prop) : Prop where
  load : ∀ a info isWarm, I a (.loaded info isWarm)
  congr : ∀ a x x', x'.original = x.original → x'.present = x.present →
    FlagsRestored true a x.flags x'.flags → I a x → I a x'
  edit : ∀ a x x', P.edit a x x' → I a x → I a x'

variable {I : Address → Account → Prop}

theorem Invariant.step (hI : Invariant P I) (hs : s.Forall I) (h : Step db P s t) : t.Forall I := by
  cases h with
  | readAccount a | readCode h | readBlockHash n | readStorage a key x hl => exact hs
  | load a info hv hk => exact hs.setAccount (hI.load _ _ _)
  | mutate a x x' hl ho hst hf he =>
    refine hs.setAccount ?_
    clear ho hst hf
    induction he with
    | refl => exact hs a x hl
    | tail _ hstep ih => exact hI.edit a _ _ hstep ih
  | loadSlot a x key value hl hv hst | warmSlot a x key slot hl hb hc =>
    exact hs.setAccount (hI.congr a x _ rfl rfl (.inl rfl) (hs a x hl))
  | writeSlot a x key value slot hl hb hw =>
    exact hs.setAccount (hI.congr a x _ rfl rfl (.inl rfl) (hs a x hl))
  | tstore a key value hw =>
    intro b x hx
    refine hs b x ?_
    rw [← hx]
    unfold State.tstore
    split <;> split_ifs <;> rfl
  | log l hw => exact hs

omit [Keccak] in
/-- Account `x'` is loaded with the original of `x` and has at least its flags. -/
def Keeps (x x' : Account) : Prop := x'.original = x.original ∧ x.flags.Le x'.flags

omit [Keccak] in
theorem keeps_setAccount {b : Address} {x y z : Account} (hx : s.accounts.lookup a = some x)
    (hy : s.accounts.lookup b = some y) (h : Keeps y z) :
    ∃ x', (s.setAccount b z).accounts.lookup a = some x' ∧ Keeps x x' := by
  simp only [State.setAccount, Map.lookup_set]
  split_ifs with hab
  · subst hab
    obtain rfl : y = x := Option.some.inj (hy.symm.trans hx)
    exact ⟨z, rfl, h⟩
  · exact ⟨x, hx, rfl, .refl _⟩

theorem Step.keeps (h : Step db P s t) {x : Account} (hx : s.accounts.lookup a = some x) :
    ∃ x', t.accounts.lookup a = some x' ∧ Keeps x x' := by
  have hsame : ∃ x', s.accounts.lookup a = some x' ∧ Keeps x x' := ⟨x, hx, rfl, .refl _⟩
  cases h with
  | readAccount b | readCode h | readBlockHash n | readStorage b key y hl => exact hsame
  | load b info hv hk =>
    have hab : a ≠ b := by
      rintro rfl
      rw [hv] at hx
      cases hx
    refine ⟨x, ?_, rfl, .refl _⟩
    simpa only [State.setAccount, Map.lookup_set, if_neg hab] using hx
  | mutate b y y' hl ho hst hf he => exact keeps_setAccount hx hl ⟨ho, hf⟩
  | loadSlot b y key value hl hv hst | warmSlot b y key slot hl hb hc =>
    exact keeps_setAccount hx hl ⟨rfl, .refl _⟩
  | writeSlot b y key value slot hl hb hw => exact keeps_setAccount hx hl ⟨rfl, .refl _⟩
  | tstore b key value hw =>
    refine ⟨x, ?_, rfl, .refl _⟩
    rw [← hx]
    unfold State.tstore
    split <;> split_ifs <;> rfl
  | log l hw => exact hsame

/-- **What is loaded stays loaded** with its original, and no flag is lost. -/
theorem Runs.keeps (h : Runs db P k s t) (hnz : s.TransientNonzero) {x : Account}
    (hx : s.accounts.lookup a = some x) : ∃ x', t.accounts.lookup a = some x' ∧ Keeps x x' := by
  induction h with
  | refl => exact ⟨x, hx, rfl, .refl _⟩
  | step _ hst ih =>
    obtain ⟨y, hy, hoy, hfy⟩ := ih hnz hx
    obtain ⟨z, hz, hoz, hfz⟩ := hst.keeps hy
    exact ⟨z, hz, hoz.trans hoy, hfy.trans hfz⟩
  | rollback features hk hout hin ih _ =>
    obtain ⟨y, hy, hoy, hfy⟩ := ih hnz hx
    obtain ⟨z, hz, hyz⟩ :=
      (hin.rollback_extends (hout.journals hnz).nonzero hk).kept a y hy
    exact ⟨z, hz, hyz.original.trans hoy, hfy.trans hyz.flags.le⟩

/-! ## Slots -/

variable (db) in
def slot (s : State) (a : Address) (key : Word) : Except DatabaseError Word :=
  match s.accounts.lookup a with
  | none => s.cache.slot db a key
  | some x =>
    match x.storage.slots.lookup key with
    | some slot => .ok slot.value.current
    | none =>
      if x.storage.wiped || x.flags.discardsStorage then .ok 0 else s.cache.slot db a key

/-! ## Views -/

def isCreated (s : State) (a : Address) : Bool :=
  (s.accounts.lookup a).elim false fun x => x.flags.created

def isDestroyed (s : State) (a : Address) : Bool :=
  (s.accounts.lookup a).elim false fun x => x.flags.destroyed

variable (db) in
/-- The states say the same, but for warmth and touches. -/
structure SameView (s t : State) : Prop where
  info : ∀ a, t.info db a = s.info db a
  slot : ∀ a key, t.slot db a key = s.slot db a key
  transient : ∀ a key, t.tload a key = s.tload a key
  created : ∀ a, t.isCreated a = s.isCreated a
  destroyed : ∀ a, t.isDestroyed a = s.isDestroyed a
  logs : t.logs = s.logs

variable (db) in
def Reached (P : Permit) (s : State) : Prop :=
  ∃ s₀ k, s₀.accounts = ∅ ∧ s₀.transientStorage = ∅ ∧ Runs db P k s₀ s

theorem sound_of_empty (h : s.accounts = ∅) : s.Sound db := by
  intro a x hx
  rw [h] at hx
  cases hx

omit [Keccak] in
theorem nonzero_of_empty (h : s.transientStorage = ∅) : s.TransientNonzero := by
  intro key
  rw [h]
  simp

theorem Reached.sound (h : s.Reached db P) : s.Sound db := by
  obtain ⟨s₀, k, ha, -, hr⟩ := h
  exact (hr.sound (sound_of_empty ha)).1

theorem Reached.nonzero (h : s.Reached db P) : s.TransientNonzero := by
  obtain ⟨s₀, k, -, ht, hr⟩ := h
  exact (hr.journals (nonzero_of_empty ht)).nonzero

end Runs

end State

end Evm2
