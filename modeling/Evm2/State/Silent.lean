import Evm2.State.View

/-!
# Silent runs

A run that only warms and touches accounts, and warms slots, leaves everything that a state says
as it was.

* **`Runs.silent`**, `Silent.sameView`: silent runs keep what the state says.
-/

namespace Evm2

def Permit.silent : Permit where
  edit _ x x' := x' = { x with flags := { x.flags with touched := true } } ∨
    x' = { x with flags := { x.flags with warm := true } }
  write := False
  log := False

instance : Permit.silent.Touches := ⟨fun _ _ => .inl rfl⟩

instance : Permit.silent.Warms := ⟨fun _ _ => .inr rfl⟩

def AccountFlags.SameMarks (f g : AccountFlags) : Prop :=
  g.destroyed = f.destroyed ∧ g.created = f.created ∧ g.discardsStorage = f.discardsStorage

/-- Account `x'` is `x` up to warmth, touches and newly loaded slots. -/
structure Account.Silent (x x' : Account) : Prop where
  original : x'.original = x.original
  present : x'.present = x.present
  flags : x.flags.SameMarks x'.flags
  wiped : x'.storage.wiped = x.storage.wiped
  slots : ∀ key slot, x.storage.slots.lookup key = some slot →
    ∃ slot', x'.storage.slots.lookup key = some slot' ∧ slot'.value = slot.value

theorem Account.Silent.refl (x : Account) : x.Silent x :=
  ⟨rfl, rfl, ⟨rfl, rfl, rfl⟩, rfl, fun _ slot h => ⟨slot, h, rfl⟩⟩

theorem Account.Silent.trans {x y z : Account} (h : x.Silent y) (h' : y.Silent z) : x.Silent z where
  original := h'.original.trans h.original
  present := h'.present.trans h.present
  flags := ⟨h'.flags.1.trans h.flags.1, h'.flags.2.1.trans h.flags.2.1,
    h'.flags.2.2.trans h.flags.2.2⟩
  wiped := h'.wiped.trans h.wiped
  slots key slot hs := by
    obtain ⟨slot₁, h₁, hv₁⟩ := h.slots key slot hs
    obtain ⟨slot₂, h₂, hv₂⟩ := h'.slots key slot₁ h₁
    exact ⟨slot₂, h₂, hv₂.trans hv₁⟩

theorem Account.silent_edits {a : Address} {x x' : Account}
    (h : Relation.ReflTransGen (Permit.silent.edit a) x x') : x.Silent x' := by
  induction h with
  | refl => exact .refl x
  | tail _ hstep ih =>
    refine ih.trans ?_
    rcases hstep with rfl | rfl
    · exact ⟨rfl, rfl, ⟨rfl, rfl, rfl⟩, rfl, fun _ slot h => ⟨slot, h, rfl⟩⟩
    · exact ⟨rfl, rfl, ⟨rfl, rfl, rfl⟩, rfl, fun _ slot h => ⟨slot, h, rfl⟩⟩

namespace State

variable [Keccak] {db : Database} {s t u : State} {a : Address}

variable (db) in
/-- State `t` is `s` up to warmth, touches and what has been loaded meanwhile. -/
structure Silent (s t : State) : Prop where
  kept : ∀ a x, s.accounts.lookup a = some x → ∃ x', t.accounts.lookup a = some x' ∧ x.Silent x'
  fresh : ∀ a x', s.accounts.lookup a = none → t.accounts.lookup a = some x' →
    ∃ info isWarm, (Account.loaded info isWarm).Silent x' ∧ s.cache.info db a = .ok info
  slots : ∀ a x' key slot', t.accounts.lookup a = some x' →
    x'.storage.slots.lookup key = some slot' →
    (∀ x, s.accounts.lookup a = some x → x.storage.slots.lookup key = none) →
    slot'.value.current = slot'.value.original ∧ s.slot db a key = .ok slot'.value.original
  transient : ∀ j, t.transientStorage.lookup j = s.transientStorage.lookup j
  logs : t.logs = s.logs
  cache : Cache.SameData db s.cache t.cache

theorem Silent.sameView (h : Silent db s t) : SameView db s t where
  info a := by
    cases hs : s.accounts.lookup a with
    | some x =>
      obtain ⟨x', hx', hxx⟩ := h.kept a x hs
      rw [info_some hs, info_some hx', hxx.present]
    | none =>
      cases ht : t.accounts.lookup a with
      | some x' =>
        obtain ⟨info, isWarm, hxx, hinfo⟩ := h.fresh a x' hs ht
        rw [info_some ht, info_none hs, hinfo, hxx.present]
        rfl
      | none => rw [info_none hs, info_none ht, h.cache.info]
  slot a key := by
    cases ht : t.accounts.lookup a with
    | none =>
      cases hs : s.accounts.lookup a with
      | none => simp only [State.slot, hs, ht, h.cache.slot]
      | some x =>
        obtain ⟨x', hx', -⟩ := h.kept a x hs
        rw [ht] at hx'
        cases hx'
    | some x' =>
      cases hk : x'.storage.slots.lookup key with
      | some slot' =>
        by_cases hnew : ∀ x, s.accounts.lookup a = some x → x.storage.slots.lookup key = none
        · obtain ⟨hcur, hval⟩ := h.slots a x' key slot' ht hk hnew
          rw [hval, ← hcur]
          simp only [State.slot, ht, hk]
        · push Not at hnew
          obtain ⟨x, hs, hx⟩ := hnew
          obtain ⟨slot, hslot⟩ := Option.ne_none_iff_exists'.mp hx
          obtain ⟨y, hy, hxy⟩ := h.kept a x hs
          obtain rfl : y = x' := Option.some.inj (hy.symm.trans ht)
          obtain ⟨slot₁, h₁, hv⟩ := hxy.slots key slot hslot
          obtain rfl : slot₁ = slot' := Option.some.inj (h₁.symm.trans hk)
          simp only [State.slot, hs, ht, hk, hslot, hv]
      | none =>
        cases hs : s.accounts.lookup a with
        | none =>
          obtain ⟨info, isWarm, hxx, -⟩ := h.fresh a x' hs ht
          have hw : x'.storage.wiped = false := hxx.wiped
          have hd : x'.flags.discardsStorage = false := hxx.flags.2.2
          simp [State.slot, hs, ht, hk, hw, hd, h.cache.slot]
        | some x =>
          obtain ⟨y, hy, hxy⟩ := h.kept a x hs
          obtain rfl : y = x' := Option.some.inj (hy.symm.trans ht)
          have hkx : x.storage.slots.lookup key = none := by
            by_contra hne
            obtain ⟨slot, hslot⟩ := Option.ne_none_iff_exists'.mp hne
            obtain ⟨slot₁, h₁, -⟩ := hxy.slots key slot hslot
            rw [hk] at h₁
            cases h₁
          simp only [State.slot, hs, ht, hk, hkx, hxy.wiped, hxy.flags.2.2, h.cache.slot]
  transient a key := by simp only [tload, h.transient]
  created a := by
    cases hs : s.accounts.lookup a with
    | some x =>
      obtain ⟨x', hx', hxx⟩ := h.kept a x hs
      simp only [isCreated, hs, hx', Option.elim_some, hxx.flags.2.1]
    | none =>
      cases ht : t.accounts.lookup a with
      | none => simp only [isCreated, hs, ht]
      | some x' =>
        obtain ⟨info, isWarm, hxx, -⟩ := h.fresh a x' hs ht
        simp only [isCreated, hs, ht, Option.elim_some, hxx.flags.2.1]
        rfl
  destroyed a := by
    cases hs : s.accounts.lookup a with
    | some x =>
      obtain ⟨x', hx', hxx⟩ := h.kept a x hs
      simp only [isDestroyed, hs, hx', Option.elim_some, hxx.flags.1]
    | none =>
      cases ht : t.accounts.lookup a with
      | none => simp only [isDestroyed, hs, ht]
      | some x' =>
        obtain ⟨info, isWarm, hxx, -⟩ := h.fresh a x' hs ht
        simp only [isDestroyed, hs, ht, Option.elim_some, hxx.flags.1]
        rfl
  logs := h.logs

/-! ## Steps and rollbacks -/

theorem Silent.of_cache (ha : t.accounts = s.accounts)
    (ht : t.transientStorage = s.transientStorage) (hl : t.logs = s.logs)
    (hc : Cache.SameData db s.cache t.cache) : Silent db s t where
  kept a x hx := ⟨x, by rw [ha]; exact hx, .refl x⟩
  fresh a x' hs ht := by
    rw [ha, hs] at ht
    cases ht
  slots a x' key slot' hx' hk hnew := by
    rw [ha] at hx'
    rw [hnew x' hx'] at hk
    cases hk
  transient j := by rw [ht]
  logs := hl
  cache := hc

theorem Silent.refl (s : State) : Silent db s s := .of_cache rfl rfl rfl (.refl _)

theorem Silent.trans (h : Silent db s t) (h' : Silent db t u) : Silent db s u where
  kept a x hx := by
    obtain ⟨y, hy, hxy⟩ := h.kept a x hx
    obtain ⟨z, hz, hyz⟩ := h'.kept a y hy
    exact ⟨z, hz, hxy.trans hyz⟩
  fresh a z hs hz := by
    cases ht : t.accounts.lookup a with
    | some y =>
      obtain ⟨info, isWarm, hy, hinfo⟩ := h.fresh a y hs ht
      obtain ⟨z', hz', hyz⟩ := h'.kept a y ht
      obtain rfl : z' = z := Option.some.inj (hz'.symm.trans hz)
      exact ⟨info, isWarm, hy.trans hyz, hinfo⟩
    | none =>
      obtain ⟨info, isWarm, hy, hinfo⟩ := h'.fresh a z ht hz
      exact ⟨info, isWarm, hy, by rw [← hinfo, h.cache.info]⟩
  slots a z key slot'' hz hk hnew := by
    by_cases hloaded : ∀ y, t.accounts.lookup a = some y → y.storage.slots.lookup key = none
    · obtain ⟨hcur, hval⟩ := h'.slots a z key slot'' hz hk hloaded
      exact ⟨hcur, by rw [← hval, h.sameView.slot]⟩
    · push Not at hloaded
      obtain ⟨y, hy, hne⟩ := hloaded
      obtain ⟨slot', hslot'⟩ := Option.ne_none_iff_exists'.mp hne
      obtain ⟨hcur, hval⟩ := h.slots a y key slot' hy hslot' hnew
      obtain ⟨z', hz', hyz⟩ := h'.kept a y hy
      obtain rfl : z' = z := Option.some.inj (hz'.symm.trans hz)
      obtain ⟨slot₁, h₁, hv⟩ := hyz.slots key slot' hslot'
      obtain rfl : slot₁ = slot'' := Option.some.inj (h₁.symm.trans hk)
      rw [hv]
      exact ⟨hcur, hval⟩
  transient j := (h'.transient j).trans (h.transient j)
  logs := h'.logs.trans h.logs
  cache := h.cache.trans h'.cache

theorem Silent.set {x y : Account} (ha : t.accounts = s.accounts.set a y)
    (hx : s.accounts.lookup a = some x) (hxy : x.Silent y)
    (hnew : ∀ key slot, y.storage.slots.lookup key = some slot →
      x.storage.slots.lookup key = none →
      slot.value.current = slot.value.original ∧ s.slot db a key = .ok slot.value.original)
    (ht : t.transientStorage = s.transientStorage) (hl : t.logs = s.logs)
    (hc : t.cache = s.cache) : Silent db s t where
  kept b z hz := by
    simp only [ha, Map.lookup_set]
    split_ifs with hb
    · subst hb
      obtain rfl : x = z := Option.some.inj (hx.symm.trans hz)
      exact ⟨y, rfl, hxy⟩
    · exact ⟨z, hz, .refl z⟩
  fresh b z hs hz := by
    simp only [ha, Map.lookup_set] at hz
    split_ifs at hz with hb
    · subst hb
      rw [hx] at hs
      cases hs
    · rw [hs] at hz
      cases hz
  slots b z key slot hz hk hold := by
    simp only [ha, Map.lookup_set] at hz
    split_ifs at hz with hb
    · subst hb
      cases hz
      exact hnew key slot hk (hold x hx)
    · rw [hold z hz] at hk
      cases hk
  transient j := by rw [ht]
  logs := hl
  cache := hc ▸ .refl _

theorem Silent.setSlot {x : Account} {key : Word} {slot slot' : StorageSlot}
    (ha : t.accounts = s.accounts.set a (x.setSlot key slot'))
    (hx : s.accounts.lookup a = some x) (hk : x.storage.slots.lookup key = some slot)
    (hv : slot'.value = slot.value)
    (ht : t.transientStorage = s.transientStorage) (hl : t.logs = s.logs)
    (hc : t.cache = s.cache) : Silent db s t := by
  refine Silent.set ha hx ⟨rfl, rfl, ⟨rfl, rfl, rfl⟩, rfl, fun j slot₁ hj => ?_⟩
    (fun j slot₁ hj hnone => ?_) ht hl hc
  · simp only [Account.setSlot, Map.lookup_set]
    split_ifs with hjk
    · subst hjk
      rw [hk] at hj
      cases hj
      exact ⟨slot', rfl, hv⟩
    · exact ⟨slot₁, hj, rfl⟩
  · simp only [Account.setSlot, Map.lookup_set] at hj
    split_ifs at hj with hjk
    · subst hjk
      rw [hk] at hnone
      cases hnone
    · rw [hnone] at hj
      cases hj

theorem Step.silent (hs : s.Sound db) (h : Step db .silent s t) : Silent db s t := by
  have hc := (h.sound hs).2
  cases h with
  | readAccount a | readCode h | readBlockHash n | readStorage a key x hl =>
    exact .of_cache rfl rfl rfl hc
  | load a info hv hk =>
    refine ⟨fun b x hx => ?_, fun b x' hx hx' => ?_, fun b x' key slot hx' hslot hnew => ?_,
      fun _ => rfl, rfl, hc⟩
    · have hb : b ≠ a := by
        rintro rfl
        rw [hv] at hx
        cases hx
      refine ⟨x, ?_, .refl x⟩
      simp only [setAccount, Map.lookup_set, if_neg hb, hx]
    · simp only [setAccount, Map.lookup_set] at hx'
      split_ifs at hx' with hb
      · subst hb
        cases hx'
        exact ⟨info, _, .refl _, Cache.Knows.info hk⟩
      · rw [hx] at hx'
        cases hx'
    · simp only [setAccount, Map.lookup_set] at hx'
      split_ifs at hx' with hb
      · cases hx'
        cases hslot
      · rw [hnew x' hx'] at hslot
        cases hslot
  | mutate a x x' hl ho hst hf he =>
    refine .set rfl hl (Account.silent_edits he) (fun key slot hk hnone => ?_) rfl rfl rfl
    rw [hst, hnone] at hk
    cases hk
  | loadSlot a x key value hl hv hst =>
    refine .set rfl hl ⟨rfl, rfl, ⟨rfl, rfl, rfl⟩, rfl, fun j slot hj => ?_⟩
      (fun j slot hj hnone => ?_) rfl rfl rfl
    · have hjk : j ≠ key := by
        rintro rfl
        rw [hv] at hj
        cases hj
      refine ⟨slot, ?_, rfl⟩
      simp only [Account.setSlot, Map.lookup_set, if_neg hjk, hj]
    · simp only [Account.setSlot, Map.lookup_set] at hj
      split_ifs at hj with hjk
      · subst hjk
        cases hj
        refine ⟨rfl, ?_⟩
        -- the slot was loaded with what the state says
        simp only [State.slot, hl, hnone]
        split_ifs at hst ⊢ with hz
        · rw [hst]
          rfl
        · rw [(hs a x hl).slot, hst]
          rfl
      · rw [hnone] at hj
        cases hj
  | warmSlot a x key slot hl hb hcold => exact .setSlot rfl hl hb rfl rfl rfl rfl
  | writeSlot a x key value slot hl hb hw | tstore a key value hw | log l hw => exact hw.elim

theorem Silent.rollback {k : Bool} {features : EvmFeatures} (h : Silent db s t)
    (hext : CoreExtends s.prewarmSet k s.core (t.rollback s.checkpoint features).core)
    (hlogs : (t.rollback s.checkpoint features).logs = s.logs) :
    Silent db s (t.rollback s.checkpoint features) where
  kept a x hx := by
    obtain ⟨x', hx', hxx⟩ := hext.kept a x hx
    refine ⟨x', hx', hxx.original, hxx.present, ?_, hxx.storage.wiped, fun key slot hk =>
      ⟨slot, hxx.storage.kept key slot hk, rfl⟩⟩
    rcases hxx.flags with hf | ⟨-, -, hf⟩ <;> rw [hf] <;> exact ⟨rfl, rfl, rfl⟩
  fresh a x' hs hx' := by
    have hxx := hext.fresh a x' hs hx'
    obtain ⟨y, hy, hyx⟩ := sameOriginals_rollback hx'
    obtain ⟨info, isWarm, hfresh, hinfo⟩ := h.fresh a y hs hy
    have ho : x'.original = info := hyx.original.trans hfresh.original
    refine ⟨info, s.prewarmSet.isWarm a, ⟨ho, ?_, ?_, ?_, fun _ _ hk => ?_⟩, hinfo⟩
    · exact hxx.present.trans ho
    · rcases hxx.flags with hf | ⟨-, -, hf⟩ <;> rw [hf] <;> exact ⟨rfl, rfl, rfl⟩
    · exact hxx.storage.wiped
    · cases hk
  slots a x' key slot' hx' hk hnew := by
    -- the slot was loaded meanwhile, so it is as it was loaded, and so it was before the rollback
    have hload : slot' = .loaded slot'.value.original (s.prewarmSet.isStorageWarm a key) := by
      cases hs : s.accounts.lookup a with
      | some x =>
        obtain ⟨y, hy, hxy⟩ := hext.kept a x hs
        obtain rfl : y = x' := Option.some.inj (hy.symm.trans hx')
        exact hxy.storage.fresh key slot' (hnew x hs) hk
      | none => exact (hext.fresh a x' hs hx').storage.fresh key slot' rfl hk
    obtain ⟨y, hy, hyx⟩ := sameOriginals_rollback hx'
    have hkey := hyx.slots key
    rw [hk, Option.map_some] at hkey
    obtain ⟨slot, hslot, hval⟩ := Option.map_eq_some_iff.mp hkey.symm
    obtain ⟨-, hview⟩ := h.slots a y key slot hy hslot hnew
    refine ⟨?_, by rw [hview, hval]⟩
    rw [hload]
    rfl
  transient := hext.transient
  logs := hlogs
  cache := h.cache

theorem Runs.silent {k : Bool} (h : Runs db .silent k s t) (hs : s.Sound db)
    (hnz : s.TransientNonzero) : Silent db s t := by
  induction h with
  | refl => exact .refl _
  | step hr hst ih => exact (ih hs hnz).trans (hst.silent (hr.sound hs).1)
  | rollback features hk hout hin ih ihin =>
    have hnz' := (hout.journals hnz).nonzero
    obtain ⟨hlogs, -, hext⟩ := (hin.journals hnz').rollback hk
    exact (ih hs hnz).trans ((ihin (hout.sound hs).1 hnz').rollback hext hlogs)

end State

end Evm2
