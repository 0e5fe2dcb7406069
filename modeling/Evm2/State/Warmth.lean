import Evm2.State.View
import Evm2.State.WarmSets

/-!
# The warm accounts and slots of a state

Warmth is spread over the prewarm set, the flags of loaded accounts and the flags of loaded slots.
As far as accesses can tell, a state has a set of warm addresses and a set of warm slots.
-/

namespace Evm2

def WarmSets.insertAddress (w : WarmSets) (a : Address) : WarmSets :=
  { w with addresses := insert a w.addresses }

def WarmSets.insertSlot (w : WarmSets) (a : Address) (key : Word) : WarmSets :=
  { w with slots := insert (a, key) w.slots }

def Account.isSlotWarm (x : Account) (key : Word) : Bool :=
  (x.storage.slots.lookup key).elim false StorageSlot.isWarm

namespace State

def isWarm (s : State) (a : Address) : Bool :=
  (s.accounts.lookup a).elim false (fun x => x.flags.warm) || s.prewarmSet.isWarm a

def isStorageWarm (s : State) (a : Address) (key : Word) : Bool :=
  (s.accounts.lookup a).elim false (fun x => x.isSlotWarm key) || s.prewarmSet.isStorageWarm a key

def warmSets (s : State) : WarmSets :=
  ⟨{ a | s.isWarm a = true }, { p | s.isStorageWarm p.1 p.2 = true }⟩

/-- Both states have the same warm addresses and slots. -/
structure SameWarmth (s t : State) : Prop where
  isWarm : ∀ a, t.isWarm a = s.isWarm a
  isStorageWarm : ∀ a key, t.isStorageWarm a key = s.isStorageWarm a key

variable {s t u : State} {a b : Address} {x y : Account}

theorem SameWarmth.refl (s : State) : SameWarmth s s := ⟨fun _ => rfl, fun _ _ => rfl⟩

theorem SameWarmth.trans (h : SameWarmth s t) (h' : SameWarmth t u) : SameWarmth s u :=
  ⟨fun a => (h'.isWarm a).trans (h.isWarm a),
    fun a key => (h'.isStorageWarm a key).trans (h.isStorageWarm a key)⟩

instance : Std.Refl SameWarmth := ⟨.refl⟩

instance : IsTrans State SameWarmth := ⟨fun _ _ _ => .trans⟩

theorem SameWarmth.warmSets (h : SameWarmth s t) : t.warmSets = s.warmSets := by
  simp only [State.warmSets, h.isWarm, h.isStorageWarm]

theorem SameWarmth.of_accounts (ha : t.accounts = s.accounts) (hp : t.prewarmSet = s.prewarmSet) :
    SameWarmth s t := by
  refine ⟨fun a => ?_, fun a key => ?_⟩
  · simp only [State.isWarm, ha, hp]
  · simp only [State.isStorageWarm, ha, hp]

theorem isWarm_some (h : s.accounts.lookup a = some x) :
    s.isWarm a = (x.flags.warm || s.prewarmSet.isWarm a) := by
  simp only [isWarm, h, Option.elim_some]

theorem isStorageWarm_some (h : s.accounts.lookup a = some x) (key : Word) :
    s.isStorageWarm a key = (x.isSlotWarm key || s.prewarmSet.isStorageWarm a key) := by
  simp only [isStorageWarm, h, Option.elim_some]

theorem isWarm_none (h : s.accounts.lookup a = none) : s.isWarm a = s.prewarmSet.isWarm a := by
  simp only [isWarm, h, Option.elim_none, Bool.false_or]

theorem isStorageWarm_none (h : s.accounts.lookup a = none) (key : Word) :
    s.isStorageWarm a key = s.prewarmSet.isStorageWarm a key := by
  simp only [isStorageWarm, h, Option.elim_none, Bool.false_or]

theorem isWarm_setAccount (s : State) (a : Address) (y : Account) (b : Address) :
    (s.setAccount a y).isWarm b =
      if b = a then y.flags.warm || s.prewarmSet.isWarm a else s.isWarm b := by
  unfold isWarm setAccount
  simp only [Map.lookup_set]
  split_ifs with hb
  · subst hb
    rfl
  · rfl

theorem isStorageWarm_setAccount (s : State) (a : Address) (y : Account) (b : Address)
    (key : Word) : (s.setAccount a y).isStorageWarm b key =
      if b = a then y.isSlotWarm key || s.prewarmSet.isStorageWarm a key
      else s.isStorageWarm b key := by
  unfold isStorageWarm setAccount
  simp only [Map.lookup_set]
  split_ifs with hb
  · subst hb
    rfl
  · rfl

theorem SameWarmth.setAccount (hx : s.accounts.lookup a = some x)
    (hw : y.flags.warm = x.flags.warm) (hs : ∀ key, y.isSlotWarm key = x.isSlotWarm key) :
    SameWarmth s (s.setAccount a y) := by
  refine ⟨fun b => ?_, fun b key => ?_⟩
  · rw [isWarm_setAccount]
    split_ifs with hb
    · rw [hb, isWarm_some hx, hw]
    · rfl
  · rw [isStorageWarm_setAccount]
    split_ifs with hb
    · rw [hb, isStorageWarm_some hx, hs]
    · rfl

theorem SameWarmth.load (hv : s.accounts.lookup a = none) (info : Option AccountInfo) :
    SameWarmth s (s.setAccount a (.loaded info (s.prewarmSet.isWarm a))) := by
  refine ⟨fun b => ?_, fun b key => ?_⟩
  · rw [isWarm_setAccount]
    split_ifs with hb
    · rw [hb, isWarm_none hv]
      exact Bool.or_self _
    · rfl
  · rw [isStorageWarm_setAccount]
    split_ifs with hb
    · rw [hb, isStorageWarm_none hv]
      exact Bool.false_or _
    · rfl

/-! ## Rollbacks -/

theorem SameWarmth.of_extends {k : Bool} (hp : t.prewarmSet = s.prewarmSet)
    (h : CoreExtends s.prewarmSet k s.core t.core) : SameWarmth s t := by
  have hflags : ∀ {a f f'}, FlagsRestored k a f f' → f'.warm = f.warm := by
    rintro a f f' (rfl | ⟨-, -, rfl⟩) <;> rfl
  have hslots : ∀ {a o o'} (key : Word), SlotsExtend s.prewarmSet a o o' →
      ((o'.slots.lookup key).elim false StorageSlot.isWarm || s.prewarmSet.isStorageWarm a key) =
        ((o.slots.lookup key).elim false StorageSlot.isWarm ||
          s.prewarmSet.isStorageWarm a key) := by
    intro a o o' key ho
    cases hk : o.slots.lookup key with
    | some slot => rw [ho.kept key slot hk]
    | none =>
      cases hk' : o'.slots.lookup key with
      | none => rfl
      | some slot =>
        rw [ho.fresh key slot hk hk']
        simp only [Option.elim_some, StorageSlot.loaded, Bool.or_self, Option.elim_none,
          Bool.false_or]
  refine ⟨fun a => ?_, fun a key => ?_⟩
  · cases hx : s.accounts.lookup a with
    | some x =>
      obtain ⟨x', hx', hxx⟩ := h.kept a x hx
      rw [isWarm_some hx, isWarm_some hx', hp, hflags hxx.flags]
    | none =>
      cases hx' : t.accounts.lookup a with
      | none => rw [isWarm_none hx, isWarm_none hx', hp]
      | some x' =>
        rw [isWarm_some hx', isWarm_none hx, hp, hflags (h.fresh a x' hx hx').flags]
        exact Bool.or_self _
  · cases hx : s.accounts.lookup a with
    | some x =>
      obtain ⟨x', hx', hxx⟩ := h.kept a x hx
      rw [isStorageWarm_some hx, isStorageWarm_some hx', hp]
      exact hslots key hxx.storage
    | none =>
      cases hx' : t.accounts.lookup a with
      | none => rw [isStorageWarm_none hx, isStorageWarm_none hx', hp]
      | some x' =>
        rw [isStorageWarm_some hx', isStorageWarm_none hx, hp]
        exact (hslots key (h.fresh a x' hx hx').storage).trans (Bool.false_or _)

section Runs

variable [Keccak] {db : Database} {P : Permit} {k : Bool}

/-- **A rollback restores the warm addresses and slots of the checkpoint.** -/
theorem Runs.warmSets_rollback (h : Runs db P k s t) (hnz : s.TransientNonzero)
    {features : EvmFeatures} (hk : features.contains .eip161 = true → k = true) :
    (t.rollback s.checkpoint features).warmSets = s.warmSets := by
  have hp : (t.rollback s.checkpoint features).prewarmSet = s.prewarmSet :=
    (h.journals hnz).prewarmSet
  exact (SameWarmth.of_extends hp (h.rollback_extends hnz hk)).warmSets

end Runs

end State

/-! ## Sessions -/

/-- What a session that is no access does to the handle of its account, as far as warmth goes. -/
structure AccountHandle.Cool (h h' : AccountHandle) : Prop where
  address : h'.address = h.address
  prewarmSet : h'.inner.prewarmSet = h.inner.prewarmSet
  storage : h'.tracked.storage = h.tracked.storage
  warm : h'.tracked.flags.warm = h.tracked.flags.warm

/-- What every session keeps of the handle of its account. -/
structure AccountHandle.SameRest (h h' : AccountHandle) : Prop where
  address : h'.address = h.address
  prewarmSet : h'.inner.prewarmSet = h.inner.prewarmSet
  storage : h'.tracked.storage = h.tracked.storage

def Permit.cool : Permit where
  edit _ x x' := x'.flags.warm = x.flags.warm
  write := True
  log := True

namespace Permit

instance : Touches cool := ⟨fun _ _ => rfl⟩
instance : SetsBalance cool := ⟨fun _ _ _ => rfl⟩
instance : BumpsNonce cool := ⟨fun _ _ _ => rfl⟩
instance (features : EvmFeatures) : Destroys cool features := ⟨fun _ _ _ => rfl⟩

end Permit

namespace AccountHandle

variable {db : Database} {h h' h'' : AccountHandle}

theorem Cool.refl (h : AccountHandle) : Cool h h := ⟨rfl, rfl, rfl, rfl⟩

theorem Cool.trans (h₁ : Cool h h') (h₂ : Cool h' h'') : Cool h h'' :=
  ⟨h₂.address.trans h₁.address, h₂.prewarmSet.trans h₁.prewarmSet, h₂.storage.trans h₁.storage,
    h₂.warm.trans h₁.warm⟩

instance : Std.Refl Cool := ⟨.refl⟩

instance : IsTrans AccountHandle Cool := ⟨fun _ _ _ => .trans⟩

theorem Cool.sameRest (h₁ : Cool h h') : SameRest h h' :=
  ⟨h₁.address, h₁.prewarmSet, h₁.storage⟩

instance : Std.Refl SameRest := ⟨fun _ => ⟨rfl, rfl, rfl⟩⟩

instance : IsTrans AccountHandle SameRest where
  trans _ _ _ h₁ h₂ := ⟨h₂.address.trans h₁.address, h₂.prewarmSet.trans h₁.prewarmSet,
    h₂.storage.trans h₁.storage⟩

theorem Mutates.sameRest {P : Permit} (hm : Mutates db P h h') : SameRest h h' := by
  refine ⟨hm.address, ?_, hm.storage⟩
  obtain ⟨c, -, hi⟩ := hm.inner
  rw [hi]

theorem Mutates.cool (hm : Mutates db .cool h h') : Cool h h' := by
  refine ⟨hm.address, hm.sameRest.prewarmSet, hm.storage, ?_⟩
  · have hedits : ∀ {x y : Account}, Relation.ReflTransGen (Permit.cool.edit h.address) x y →
        y.flags.warm = x.flags.warm := by
      intro x y hxy
      induction hxy with
      | refl => rfl
      | tail _ hstep ih => exact hstep.trans ih
    exact hedits hm.edits

theorem cool_presentMut (h : AccountHandle) (f : AccountInfo → AccountInfo) :
    Cool h (h.presentMut f) := ⟨rfl, rfl, rfl, rfl⟩

theorem cool_markCreatedDiscardingStorage (h : AccountHandle) :
    Cool h h.markCreatedDiscardingStorage := ⟨rfl, rfl, rfl, rfl⟩

theorem cool_touch (h : AccountHandle) : Cool h h.touch := by
  unfold touch
  split_ifs <;> exact ⟨rfl, rfl, rfl, rfl⟩

theorem cool_setBalance (h : AccountHandle) (b : Word) : Cool h (h.setBalance b) :=
  (cool_touch h).trans (cool_presentMut _ _)

theorem cool_addBalance (h : AccountHandle) (d : Word) : Cool h (h.addBalance d) := by
  unfold addBalance
  split_ifs
  · exact cool_touch h
  · exact cool_setBalance h _

theorem cool_setCodeSlow [Keccak] (h : AccountHandle) (code : Bytecode) :
    Cool h (h.setCodeSlow code) := by
  unfold setCodeSlow setCode
  exact (cool_touch h).trans (cool_presentMut _ _)

theorem cool_bumpNonce (h : AccountHandle) : Cool h h.bumpNonce.2 := by
  unfold bumpNonce
  dsimp only
  split_ifs
  · exact cool_touch h
  · dsimp only
    exact (cool_touch h).trans (cool_presentMut _ _)

theorem cool_setDelegation [Keccak] (h : AccountHandle) (d : Address) :
    Cool h (h.setDelegation d) :=
  (cool_setCodeSlow h _).trans (cool_bumpNonce _)

theorem Cool.isWarm (hc : Cool h h') : h'.isWarm = h.isWarm := by
  unfold AccountHandle.isWarm
  rw [hc.warm, hc.prewarmSet, hc.address]

theorem sameRest_warm (h : AccountHandle) : SameRest h h.warm.2 := by
  unfold warm
  split_ifs <;> exact ⟨rfl, rfl, rfl⟩

theorem isWarm_warm (h : AccountHandle) : h.warm.2.isWarm = true := by
  unfold warm
  split_ifs with hw
  · exact hw
  · rfl

theorem warm_fst (h : AccountHandle) : h.warm.1 = !h.isWarm := by
  unfold warm
  split_ifs with hw
  · rw [hw]
    rfl
  · rw [Bool.not_eq_true] at hw
    rw [hw]
    rfl

end AccountHandle

def StorageHandle.isSlotWarm (h : StorageHandle) (key : Word) : Bool :=
  (h.storage.slots.lookup key).elim false StorageSlot.isWarm ||
    h.inner.prewarmSet.isStorageWarm h.address key

namespace State

variable [Keccak] {db : Database} {s t u : State} {a b : Address} {x y : Account} {α : Type}
  {skip : Bool}

omit [Keccak] in
theorem prewarmSet_dropHandle (u : State) (h : AccountHandle) :
    (u.dropHandle h).prewarmSet = h.inner.prewarmSet := by
  unfold dropHandle
  cases h.snapshot <;> rfl

omit [Keccak] in
theorem isWarm_dropHandle (u : State) (h : AccountHandle) (b : Address)
    (hp : h.inner.prewarmSet = u.prewarmSet) :
    (u.dropHandle h).isWarm b = if b = h.address then h.isWarm else u.isWarm b := by
  have hp' : (u.dropHandle h).prewarmSet = u.prewarmSet := (prewarmSet_dropHandle u h).trans hp
  unfold isWarm AccountHandle.isWarm
  rw [hp', hp]
  simp only [dropHandle, Map.lookup_set]
  split_ifs with hb
  · rw [hb]
    rfl
  · rfl

omit [Keccak] in
theorem isStorageWarm_dropHandle {h : AccountHandle} (hx : u.accounts.lookup h.address = some x)
    (hs : h.tracked.storage = x.storage) (hp : h.inner.prewarmSet = u.prewarmSet) (b : Address)
    (key : Word) : (u.dropHandle h).isStorageWarm b key = u.isStorageWarm b key := by
  have hp' : (u.dropHandle h).prewarmSet = u.prewarmSet := (prewarmSet_dropHandle u h).trans hp
  unfold isStorageWarm
  rw [hp']
  simp only [dropHandle, Map.lookup_set]
  split_ifs with hb
  · rw [hb, hx]
    simp only [Option.elim_some, Account.isSlotWarm, hs]
  · rfl

omit [Keccak] in
theorem SameWarmth.dropHandle {h : AccountHandle} (hx : u.accounts.lookup a = some x)
    (hc : AccountHandle.Cool ⟨a, x, u.inner, none⟩ h) : SameWarmth u (u.dropHandle h) := by
  have ha : h.address = a := hc.address
  refine ⟨fun b => ?_, fun b key => ?_⟩
  · rw [isWarm_dropHandle u h b hc.prewarmSet]
    split_ifs with hb
    · rw [hc.isWarm, hb, ha, isWarm_some hx]
      rfl
    · rfl
  · exact isStorageWarm_dropHandle (by rw [ha]; exact hx) hc.storage hc.prewarmSet b key

theorem accountRaw_sameWarmth (db : Database) (a : Address) (skip : Bool) (s : State) :
    SameWarmth s ((accountRawWithSkip db a skip).run s).2 ∧
      ∀ x, ((accountRawWithSkip db a skip).run s).1 = .ok x →
        ((accountRawWithSkip db a skip).run s).2.accounts.lookup a = some x := by
  cases hl : s.accounts.lookup a with
  | some y =>
    rw [accountRawWithSkip_some db skip hl]
    split_ifs
    · exact ⟨.refl s, nofun⟩
    · refine ⟨.refl s, ?_⟩
      rintro x ⟨⟩
      exact hl
  | none =>
    rw [accountRawWithSkip_none db skip hl]
    split_ifs
    · exact ⟨.refl s, nofun⟩
    · rcases hr : (Cache.getAccount db a).run s.cache with ⟨e | info, c⟩
      · exact ⟨.of_accounts rfl rfl, nofun⟩
      · have hcache : SameWarmth s (s.withCache c) := .of_accounts rfl rfl
        have hload : SameWarmth (s.withCache c)
            ((s.withCache c).setAccount a (.loaded info (s.prewarmSet.isWarm a))) :=
          SameWarmth.load (s := s.withCache c) hl info
        refine ⟨hcache.trans hload, ?_⟩
        rintro x ⟨⟩
        simp [setAccount]

theorem prewarmSet_accountRaw (db : Database) (a : Address) (skip : Bool) (s : State) :
    ((accountRawWithSkip db a skip).run s).2.prewarmSet = s.prewarmSet := by
  cases hl : s.accounts.lookup a with
  | some y =>
    rw [accountRawWithSkip_some db skip hl]
    split_ifs <;> rfl
  | none =>
    rw [accountRawWithSkip_none db skip hl]
    split_ifs
    · rfl
    · rcases (Cache.getAccount db a).run s.cache with ⟨e | info, c⟩ <;> rfl

theorem moves_sameWarmth_session {f : Op AccountHandle LoadError α}
    (hf : Op.Moves AccountHandle.Cool f) :
    Op.Moves SameWarmth (accountWithSkip db a skip f) := by
  intro s
  obtain ⟨hsame, hload⟩ := accountRaw_sameWarmth db a skip s
  unfold accountWithSkip
  rcases hr : (accountRawWithSkip db a skip).run s with ⟨e | x, u⟩
  · rw [hr] at hsame
    rw [Op.run_bind_error hr]
    exact hsame
  · rw [hr] at hsame hload
    rw [Op.run_bind_ok hr]
    exact hsame.trans (.dropHandle (hload x rfl) (hf _))

theorem moves_sameWarmth_account {f : AccountHandle → α × AccountHandle}
    (hf : ∀ h, AccountHandle.Cool h (f h).2) : Op.Moves SameWarmth (account db a f) :=
  (moves_sameWarmth_session (f := Op.total f) hf).mapError _

theorem accountWithSkip_session {f : Op AccountHandle LoadError α}
    (hf : Op.Moves AccountHandle.SameRest f) {r : α}
    (h : (accountWithSkip db a skip f).run s = (.ok r, t)) :
    t.prewarmSet = s.prewarmSet ∧ ∃ hd h', f.run hd = (.ok r, h') ∧ hd.isWarm = s.isWarm a ∧
      (∀ b, t.isWarm b = if b = a then h'.isWarm else s.isWarm b) ∧
      ∀ b key, t.isStorageWarm b key = s.isStorageWarm b key := by
  obtain ⟨x, u, hraw, h⟩ := Op.run_bind_eq_ok h
  obtain ⟨hsame, hload⟩ := accountRaw_sameWarmth db a skip s
  have hp := prewarmSet_accountRaw db a skip s
  rw [hraw] at hsame hload hp
  have hx : u.accounts.lookup a = some x := hload x rfl
  have hrest := hf ⟨a, x, u.inner, none⟩
  rcases hrun : f.run ⟨a, x, u.inner, none⟩ with ⟨r', h'⟩
  rw [hrun] at hrest
  obtain ⟨rfl, rfl⟩ : r' = .ok r ∧ t = u.dropHandle h' := by
    have hpair := Prod.mk.inj h
    rw [hrun] at hpair
    exact ⟨hpair.1, hpair.2.symm⟩
  have ha : h'.address = a := hrest.address
  refine ⟨?_, _, h', hrun, ?_, fun b => ?_, fun b key => ?_⟩
  · rw [← hp]
    exact (prewarmSet_dropHandle u h').trans hrest.prewarmSet
  · rw [← hsame.isWarm a]
    exact (isWarm_some hx).symm
  · rw [isWarm_dropHandle u h' b hrest.prewarmSet, ha, hsame.isWarm]
  · rw [isStorageWarm_dropHandle (by rw [ha]; exact hx) hrest.storage hrest.prewarmSet,
      hsame.isStorageWarm]

/-- **An access to an account** adds its address; the rest of the session learns whether it was
missing. -/
theorem accountWithSkip_warms {g : Bool → Op AccountHandle LoadError α}
    (hg : ∀ cold, Op.Moves AccountHandle.Cool (g cold)) {r : α}
    (h : (accountWithSkip db a skip (Op.total AccountHandle.warm >>= g)).run s = (.ok r, t)) :
    t.warmSets = s.warmSets.insertAddress a ∧
      ∃ hd, ((g (!s.isWarm a)).run hd).1 = .ok r := by
  have hmoves : Op.Moves AccountHandle.SameRest (Op.total AccountHandle.warm >>= g) :=
    .bind AccountHandle.sameRest_warm fun cold h => (hg cold h).sameRest
  obtain ⟨-, hd, h', hrun, hwarm, haccounts, hslots⟩ := accountWithSkip_session hmoves h
  rw [Op.run_bind_ok (Op.run_total _ _)] at hrun
  have hcool : AccountHandle.Cool hd.warm.2 ((g hd.warm.1).run hd.warm.2).2 := hg _ _
  rw [hrun] at hcool
  refine ⟨?_, hd.warm.2, ?_⟩
  · unfold warmSets WarmSets.insertAddress
    congr 1
    · ext b
      show t.isWarm b = true ↔ b = a ∨ s.isWarm b = true
      rw [haccounts b, hcool.isWarm, AccountHandle.isWarm_warm]
      by_cases hb : b = a
      · simp [hb]
      · simp [hb]
    · ext ⟨b, key⟩
      show t.isStorageWarm b key = true ↔ s.isStorageWarm b key = true
      rw [hslots b key]
  · rw [← hwarm, ← AccountHandle.warm_fst, hrun]

theorem account_warms {cold : Bool} (h : (account db a AccountHandle.warm).run s = (.ok cold, t)) :
    t.warmSets = s.warmSets.insertAddress a := by
  have hrun := Op.run_mapError_eq_ok h
  rw [← Op.bind_ret (Op.total AccountHandle.warm)] at hrun
  exact (accountWithSkip_warms (fun _ => .ret _) hrun).1

theorem accountWithSkip_skipped {f : Op AccountHandle LoadError α}
    (hf : Op.Avoids .coldLoadSkipped f)
    (h : (accountWithSkip db a skip f).run s = (.error .coldLoadSkipped, t)) : SameWarmth s t := by
  obtain ⟨hsame, -⟩ := accountRaw_sameWarmth db a skip s
  unfold accountWithSkip at h
  rcases hr : (accountRawWithSkip db a skip).run s with ⟨e | x, u⟩
  · rw [Op.run_bind_error hr] at h
    rw [hr] at hsame
    cases h
    exact hsame
  · rw [Op.run_bind_ok hr] at h
    exact absurd (Prod.mk.inj h).1 (hf _)

/-! ## Slots -/

omit [Keccak] in
theorem isStorageWarm_setSlot {s t : State} {x : Account} {key : Word} {slot : StorageSlot}
    {slots : Map Word StorageSlot} (hx : s.accounts.lookup a = some x)
    (hslots : ∀ k, k ≠ key → slots.lookup k = x.storage.slots.lookup k)
    (ha : t.accounts = s.accounts.set a
      { x with storage := { x.storage with slots := slots.set key slot } })
    (hp : t.prewarmSet = s.prewarmSet) (b : Address) (k : Word) :
    t.isStorageWarm b k =
      if b = a ∧ k = key then slot.isWarm || s.prewarmSet.isStorageWarm a key
      else s.isStorageWarm b k := by
  unfold isStorageWarm
  rw [ha, hp]
  simp only [Map.lookup_set]
  by_cases hb : b = a
  · subst hb
    rw [hx]
    by_cases hk : k = key
    · subst hk
      simp only [if_true, Option.elim_some, Account.isSlotWarm, Map.lookup_set, and_self]
    · simp only [if_true, Option.elim_some, Account.isSlotWarm, Map.lookup_set, hk,
        and_false, if_false, hslots k hk]
  · simp only [hb, false_and, if_false]

omit [Keccak] in
theorem loadSlot_warms {h h' : StorageHandle} {key : Word} {slot : StorageSlot} {cold : Bool}
    (hrun : (StorageHandle.loadSlot db true key skip).run h = (.ok (slot, cold), h')) :
    h'.inner.prewarmSet = h.inner.prewarmSet ∧
      (∃ slots, h'.storage = { h.storage with slots := slots } ∧
        ∀ k, k ≠ key → slots.lookup k = h.storage.slots.lookup k) ∧
      cold = (!h.isSlotWarm key) ∧
      (slot.isWarm || h.inner.prewarmSet.isStorageWarm h.address key) = h.isSlotWarm key := by
  unfold StorageHandle.loadSlot at hrun
  dsimp only at hrun
  cases hl : h.storage.slots.lookup key with
  | some found =>
    rw [hl] at hrun
    dsimp only at hrun
    split_ifs at hrun
    · cases hrun
    · cases hrun
      refine ⟨rfl, ⟨_, rfl, fun _ _ => rfl⟩, ?_, ?_⟩
      · simp [StorageHandle.isSlotWarm, hl]
      · simp [StorageHandle.isSlotWarm, hl]
  | none =>
    rw [hl] at hrun
    dsimp only at hrun
    split_ifs at hrun
    · cases hrun
    · rcases hr : (StateInner.readUnloadedSlot db h.address key
        (h.storage.wiped || h.discardsStorage)).run h.inner with ⟨e | value, inner⟩
      · rw [hr] at hrun
        cases hrun
      · rw [hr] at hrun
        have hinner : inner.prewarmSet = h.inner.prewarmSet := by
          unfold StateInner.readUnloadedSlot at hr
          split_ifs at hr
          · cases hr
            rfl
          · obtain ⟨-, rfl⟩ := Prod.mk.inj hr
            rfl
        cases hrun
        refine ⟨hinner, ⟨_, rfl, fun k hk => ?_⟩, ?_, ?_⟩
        · simp [Map.lookup_set, hk]
        · simp [StorageHandle.isSlotWarm, hl]
        · simp [StorageHandle.isSlotWarm, hl, StorageSlot.loaded]

omit [Keccak] in
theorem intoSlotInner_warms {f : Bool → StorageSlotHandle → α × StorageSlotHandle}
    (hf : ∀ cold h, (f cold h).2.slot.isWarm = h.slot.isWarm ∧
      (f cold h).2.inner.prewarmSet = h.inner.prewarmSet) {h h' : StorageHandle} {key : Word}
    {r : α}
    (hrun : (StorageHandle.intoSlotInner db true key skip f).run h = (.ok r, h')) :
    h'.inner.prewarmSet = h.inner.prewarmSet ∧
      (∃ slots slot, h'.storage = { h.storage with slots := Map.set slots key slot } ∧
        (∀ k, k ≠ key → slots.lookup k = h.storage.slots.lookup k) ∧
        (slot.isWarm || h.inner.prewarmSet.isStorageWarm h.address key) = true) ∧
      ∃ sh, r = (f (!h.isSlotWarm key) sh).1 := by
  obtain ⟨⟨slot, cold⟩, h₁, hfound, hrest⟩ := Op.run_bind_eq_ok hrun
  obtain ⟨hprewarm, ⟨slots, hstorage, hslots⟩, rfl, hwarm⟩ := loadSlot_warms hfound
  obtain ⟨hr, rfl⟩ := Prod.mk.inj hrest
  set sh : StorageSlotHandle := if true && !h.isSlotWarm key then
      ⟨h₁.address, key, slot.setWarm true, h₁.inner.pushJournal (.storageWarmed h₁.address key)⟩
    else ⟨h₁.address, key, slot, h₁.inner⟩ with hsh
  have hinner : sh.inner.prewarmSet = h.inner.prewarmSet := by
    rw [← hprewarm, hsh]
    split_ifs <;> rfl
  have hslot : (sh.slot.isWarm || h.inner.prewarmSet.isStorageWarm h.address key) = true := by
    rw [hsh]
    cases hw : h.isSlotWarm key with
    | true =>
      rw [hw] at hwarm
      exact hwarm
    | false => simp [StorageSlot.setWarm]
  obtain ⟨hfw, hfp⟩ := hf (!h.isSlotWarm key) sh
  refine ⟨hfp.trans hinner, ⟨slots, (f (!h.isSlotWarm key) sh).2.slot, ?_, hslots, ?_⟩, sh, ?_⟩
  · simp only [hstorage, hsh]
  · rw [hfw]
    exact hslot
  · exact (Except.ok.inj hr).symm

/-- **An access to a slot** adds it and tells the session whether it was missing. -/
theorem storage_warms {f : Bool → StorageSlotHandle → α × StorageSlotHandle}
    (hf : ∀ cold h, (f cold h).2.slot.isWarm = h.slot.isWarm ∧
      (f cold h).2.inner.prewarmSet = h.inner.prewarmSet) {key : Word} {r : α}
    (h : (storage db a (StorageHandle.intoSlotInner db true key skip f)).run s = (.ok r, t)) :
    t.warmSets = s.warmSets.insertSlot a key ∧
      ∃ sh, r = (f (!s.isStorageWarm a key) sh).1 := by
  obtain ⟨x, u, hraw, h⟩ := Op.run_bind_eq_ok h
  obtain ⟨hsame, hload⟩ := accountRaw_sameWarmth db a false s
  rw [hraw] at hsame hload
  have hx : u.accounts.lookup a = some x := hload x rfl
  set h₀ : StorageHandle := ⟨a, x.storage, x.flags.discardsStorage, u.inner⟩ with hh₀
  rcases hslot : (StorageHandle.intoSlotInner db true key skip f).run h₀ with ⟨r', h₁⟩
  obtain ⟨rfl, rfl⟩ : r' = .ok r ∧ t = { u with
      accounts := u.accounts.set a { x with storage := h₁.storage }
      inner := h₁.inner } := by
    have hpair := Prod.mk.inj h
    rw [hslot] at hpair
    exact ⟨hpair.1, hpair.2.symm⟩
  obtain ⟨hprewarm, ⟨slots, slot, hstorage, hslots, hwarm⟩, sh, hr⟩ := intoSlotInner_warms hf hslot
  have hhandle : h₀.isSlotWarm key = s.isStorageWarm a key := by
    rw [← hsame.isStorageWarm a key]
    exact (isStorageWarm_some hx key).symm
  refine ⟨?_, sh, by rw [hr, hhandle]⟩
  set t : State := { u with
    accounts := u.accounts.set a { x with storage := h₁.storage }
    inner := h₁.inner } with ht
  have hp : t.prewarmSet = u.prewarmSet := hprewarm
  have haccount : ∀ b, t.isWarm b = s.isWarm b := by
    intro b
    rw [← hsame.isWarm b]
    unfold isWarm
    rw [hp]
    simp only [ht, Map.lookup_set]
    split_ifs with hb
    · rw [hb, hx]
      rfl
    · rfl
  have hslot : ∀ b k, t.isStorageWarm b k =
      if b = a ∧ k = key then true else s.isStorageWarm b k := by
    intro b k
    rw [← hsame.isStorageWarm b k, isStorageWarm_setSlot hx hslots (by rw [ht, hstorage]) hp b k]
    have hwarm' : (slot.isWarm || u.prewarmSet.isStorageWarm a key) = true := hwarm
    rw [hwarm']
  unfold warmSets WarmSets.insertSlot
  congr 1
  · ext b
    show t.isWarm b = true ↔ s.isWarm b = true
    rw [haccount b]
  · ext ⟨b, k⟩
    show t.isStorageWarm b k = true ↔ (b, k) = (a, key) ∨ s.isStorageWarm b k = true
    rw [hslot b k, Prod.mk.injEq]
    split_ifs with hbk
    · simp [hbk]
    · simp [hbk]

theorem storage_skipped {f : Bool → StorageSlotHandle → α × StorageSlotHandle} {warm : Bool}
    {key : Word} (h : (storage db a (StorageHandle.intoSlotInner db warm key skip f)).run s =
      (.error .coldLoadSkipped, t)) : SameWarmth s t := by
  have hslot : ∀ h₀ h₁, (StorageHandle.intoSlotInner db warm key skip f).run h₀ =
      (.error .coldLoadSkipped, h₁) → h₁ = h₀ := by
    intro h₀ h₁ hrun
    rcases hfound : (StorageHandle.loadSlot db warm key skip).run h₀ with ⟨e | r, h₂⟩
    · have hrun' := Op.run_bind_error hfound ▸ hrun
      cases hrun'
      unfold StorageHandle.loadSlot at hfound
      dsimp only at hfound
      split at hfound
      · split_ifs at hfound
        · cases hfound
          rfl
        · cases hfound
      · split_ifs at hfound
        · cases hfound
          rfl
        · split at hfound <;> cases hfound
    · have hrun' := Op.run_bind_ok hfound ▸ hrun
      cases hrun'
  obtain ⟨hsame, hload⟩ := accountRaw_sameWarmth db a false s
  unfold storage at h
  rcases hr : (accountRawWithSkip db a false).run s with ⟨e | x, u⟩
  · rw [Op.run_bind_error hr] at h
    rw [hr] at hsame
    cases h
    exact hsame
  · rw [Op.run_bind_ok hr] at h
    rw [hr] at hsame hload
    rcases hrun : (StorageHandle.intoSlotInner db warm key skip f).run
      ⟨a, x.storage, x.flags.discardsStorage, u.inner⟩ with ⟨r, h₁⟩
    dsimp only at h
    rw [hrun] at h
    cases h
    rw [hslot _ _ hrun]
    exact hsame.trans (.setAccount (hload x rfl) rfl fun _ => rfl)

/-! ## What is no access -/

theorem moves_sameWarmth_accountInfoUntracked (a : Address) :
    Op.Moves SameWarmth (accountInfoUntracked db a) := by
  intro s
  unfold accountInfoUntracked
  dsimp only
  split
  · exact .refl s
  · exact .of_accounts rfl rfl

omit [Keccak] in
theorem prewarmSet_codeOf (db : Database) (info : Option AccountInfo) :
    Op.Moves (fun i i' : StateInner => i'.prewarmSet = i.prewarmSet)
      (AccountHandle.codeOf db info) := by
  intro i
  unfold AccountHandle.codeOf
  split
  · rfl
  · split_ifs
    · rfl
    · split
      · split_ifs <;> rfl
      · rfl

theorem moves_sameWarmth_codeUntracked (a : Address) :
    Op.Moves SameWarmth (codeUntracked db a) := by
  refine .bind (moves_sameWarmth_accountInfoUntracked a) fun info s => ?_
  exact .of_accounts rfl (prewarmSet_codeOf db info s.inner)

omit [Keccak] in
theorem moves_sameWarmth_storageSlotUntracked (a : Address) (key : Word) :
    Op.Moves SameWarmth (storageSlotUntracked db a key) := by
  intro s
  unfold storageSlotUntracked StateInner.readUnloadedSlot
  dsimp only
  split
  · exact .refl s
  · refine .of_accounts rfl ?_
    split_ifs <;> rfl

omit [Keccak] in
theorem moves_sameWarmth_onCache {ε : Type} (x : Op Cache ε α) :
    Op.Moves SameWarmth (onCache x) := fun _ => .of_accounts rfl rfl

omit [Keccak] in
theorem sameWarmth_log (s : State) (l : Log) : SameWarmth s (s.log l) := .of_accounts rfl rfl

omit [Keccak] in
theorem sameWarmth_tstore (s : State) (a : Address) (key value : Word) :
    SameWarmth s (s.tstore a key value) := by
  unfold tstore
  split <;> split_ifs <;> exact .of_accounts rfl rfl

theorem moves_sameWarmth_transfer (src dst : Address) (value : Word) :
    Op.Moves SameWarmth (transfer db src dst value) := by
  refine .ite ?_ (.ite ?_ ?_)
  · refine .bind (moves_sameWarmth_account fun h => ?_) fun _ => .ret _
    exact AccountHandle.cool_touch h
  · refine moves_sameWarmth_account fun h => ?_
    split_ifs
    · exact .refl h
    · exact AccountHandle.cool_touch h
  · refine .bind (moves_sameWarmth_account fun h => ?_) fun covered =>
      .ite (moves_sameWarmth_account fun h => ?_) (.ret _)
    · split_ifs
      · exact .refl h
      · exact (AccountHandle.cool_setBalance h _).trans (AccountHandle.cool_touch _)
    · exact (AccountHandle.cool_setBalance h _).trans (AccountHandle.cool_touch _)

theorem moves_sameWarmth_createAccount (caller a : Address) (value : Word)
    (features : EvmFeatures) :
    Op.Moves SameWarmth (createAccount db caller a value features) := by
  refine .bind (moves_sameWarmth_account fun h => .refl h) fun collision => .ite (.ret _) ?_
  refine .bind (.ite (.ret _) (moves_sameWarmth_account fun h => ?_)) fun covered =>
    .ite (.ret _) (.bind (moves_sameWarmth_account fun h => ?_) fun _ => .ret _)
  · split_ifs
    · exact .refl h
    · exact AccountHandle.cool_setBalance h _
  · exact ((AccountHandle.cool_presentMut h _).trans
      (AccountHandle.cool_markCreatedDiscardingStorage _)).trans (AccountHandle.cool_touch _)

end State

end Evm2
