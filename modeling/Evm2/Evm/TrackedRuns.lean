import Evm2.Evm.Tracked
import Evm2.Evm.Upholds
import Evm2.Lib.Sim

/-!
# The access sets follow the state

* **`Evm.Tracked.sim_executeMessage`**: the tracked execution of a message is its execution, and the
  sets follow the state.
-/

namespace Evm2

/-! ## What is no access -/

def World.SameWarmth (w w' : World) : Prop := State.SameWarmth w.state w'.state

instance : Std.Refl World.SameWarmth := ⟨fun w => .refl w.state⟩

instance : IsTrans World World.SameWarmth := ⟨fun _ _ _ h h' => State.SameWarmth.trans h h'⟩

namespace World

variable {α : Type}

theorem sameWarmth_onState {x : Op State DatabaseError α} (h : Op.Moves State.SameWarmth x) :
    Op.Moves SameWarmth (onState x) := fun w => h w.state

theorem sameWarmth_noting [Keccak] {db : Database} {x : Op State DatabaseError α} {a : Address}
    {p : α → Nat → Nat → Bool} (h : Op.Moves State.SameWarmth x) :
    Op.Moves SameWarmth (noting db a p x) := fun w => h w.state

theorem onLoad_ok {x : Op State LoadError α} {w w' : World} {r : Except InstrStop α}
    (h : (onLoad x).run w = (.ok r, w')) :
    (∃ b, r = .ok b ∧ x.run w.state = (.ok b, w'.state)) ∨
      (∃ reason, r = .error reason ∧ x.run w.state = (.error .coldLoadSkipped, w'.state)) := by
  unfold onLoad at h
  dsimp only at h
  rcases hx : x.run w.state with ⟨(_ | e) | b, s⟩
  · rw [hx] at h
    cases h
    exact .inr ⟨_, rfl, rfl⟩
  · rw [hx] at h
    cases h
  · rw [hx] at h
    cases h
    exact .inl ⟨b, rfl, rfl⟩

end World

namespace Evm

variable {evm : Evm}

theorem sameWarmth_log (l : Log) (s : State) : State.SameWarmth s (evm.log l s) := by
  unfold log
  split_ifs
  · exact State.sameWarmth_log s l
  · exact .refl s

theorem sameWarmth_logEip7708Transfer (src dst : Address) (value : Word) (s : State) :
    State.SameWarmth s (evm.logEip7708Transfer src dst value s) := by
  unfold logEip7708Transfer
  split_ifs
  · split
    · exact sameWarmth_log _ s
    · exact .refl s
  · exact .refl s

variable [Keccak]

theorem sameWarmth_transfer (src dst : Address) (value : Word) :
    Op.Moves World.SameWarmth (evm.transfer src dst value) :=
  World.sameWarmth_noting (State.moves_sameWarmth_transfer src dst value)

theorem sameWarmth_callTransfer (m : Message) :
    Op.Moves World.SameWarmth (evm.callTransfer m) := by
  refine .ite (.bind (sameWarmth_transfer _ _ _) fun covered =>
    .bind (.ite (.update fun w => ?_) (.ret _)) fun _ => .ret _) (.ret _)
  exact sameWarmth_logEip7708Transfer _ _ _ w.state

theorem sameWarmth_createMessageAccount (m : Message) :
    Op.Moves World.SameWarmth (evm.createMessageAccount m) := by
  refine .bind (World.sameWarmth_noting (State.moves_sameWarmth_createAccount _ _ _ _))
    fun created => ?_
  cases created with
  | error e => exact .ret _
  | ok => exact .bind (.update fun w => sameWarmth_logEip7708Transfer _ _ _ w.state) fun _ => .ret _

theorem sameWarmth_selfdestructBalance (contract target : Address) (balance : Word)
    (shouldDestroy : Bool) : Op.Moves World.SameWarmth
      (evm.selfdestructBalance contract target balance shouldDestroy) := by
  refine .ite ?_ (.ite ?_ (.ret _))
  · refine .bind (sameWarmth_transfer _ _ _) fun transferred => .ite (.update fun w => ?_) (.ret _)
    exact sameWarmth_logEip7708Transfer _ _ _ w.state
  · refine .bind (World.sameWarmth_onState (State.moves_sameWarmth_account fun h => ?_)) fun _ =>
      .update fun w => .refl w.state
    exact AccountHandle.cool_addBalance h _

theorem sameWarmth_selfdestructContract (evm : Evm) (contract target : Address)
    (isCold empty : Bool) :
    Op.Moves World.SameWarmth (evm.selfdestructContract contract target isCold empty) := by
  refine .bind (World.sameWarmth_onState (State.moves_sameWarmth_account fun h => .refl h))
    fun r => .bind (sameWarmth_selfdestructBalance _ _ _ _) fun _ =>
      .bind (.ite (World.sameWarmth_onState (State.moves_sameWarmth_account fun h => ?_)) (.ret _))
        fun _ => .ret _
  have hm : AccountHandle.Mutates evm.db .cool h h.markDestructed :=
    AccountHandle.mutates_markDestructed h rfl
  exact hm.cool

end Evm

/-! ## The sets follow the state -/

namespace AccessRecord

variable {r : AccessRecord} {s : State}

theorem Right.accessAddress (h : r.Right) (hs : r.sets = s.warmSets) (a : Address) :
    (r.accessAddress a (!s.isWarm a)).Right := by
  intro x hx
  rcases List.mem_cons.mp hx with rfl | hx
  · rw [hs]
    show (!s.isWarm a) = true ↔ ¬s.isWarm a = true
    simp
  · exact h x hx

theorem Right.accessSlot (h : r.Right) (hs : r.sets = s.warmSets) (a : Address) (key : Word) :
    (r.accessSlot a key (!s.isStorageWarm a key)).Right := by
  intro x hx
  rcases List.mem_cons.mp hx with rfl | hx
  · rw [hs]
    show (!s.isStorageWarm a key) = true ↔ ¬s.isStorageWarm a key = true
    simp
  · exact h x hx

end AccessRecord

namespace Evm.Tracked

section Follows

variable [Keccak] {σ ε α : Type}

/-- The sets are those of the state, which has been reached from `s₀`; all answers were right. -/
structure Follows (evm : Evm) (state : σ → State) (s₀ : State) (t : σ × AccessRecord) (s : σ) :
    Prop where
  fst : t.1 = s
  runs : State.Runs evm.db .any (evm.feature .eip161) s₀ (state s)
  nonzero : (state s).TransientNonzero
  sets : t.2.sets = (state s).warmSets
  right : t.2.Right

omit [Keccak] in
/-- After an error all answers were right. -/
structure Failed (t : σ × AccessRecord) (s : σ) : Prop where
  fst : t.1 = s
  right : t.2.Right

def Notes (state : σ → State) (f : α → AccessRecord → AccessRecord) (x : Op σ ε α) : Prop :=
  ∀ s a s', x.run s = (.ok a, s') → ∀ r : AccessRecord, r.sets = (state s).warmSets →
    r.Right → (f a r).sets = (state s').warmSets ∧ (f a r).Right

def MovesState (evm : Evm) (state : σ → State) (x : Op σ ε α) : Prop :=
  Op.Moves (fun s s' => (state s).TransientNonzero →
    State.Runs evm.db .any (evm.feature .eip161) (state s) (state s')) x

variable {evm : Evm} {state : σ → State} {s₀ : State} {x : Op σ ε α}
  {f : α → AccessRecord → AccessRecord}

theorem Follows.failed {t : σ × AccessRecord} {s : σ} (h : Follows evm state s₀ t s) :
    Failed t s := ⟨h.fst, h.right⟩

theorem sim_noting (hx : MovesState evm state x)
    (hf : Notes state f x) :
    Op.Sim (Follows evm state s₀) (Op.Same (Follows evm state s₀)) Failed (noting f x) x := by
  rintro ⟨s, r⟩ _ ⟨rfl, hruns, hnz, hsets, hright⟩
  have hmove := hx s hnz
  have hnz' := (hmove.journals hnz).nonzero
  unfold noting
  dsimp only
  rcases hrun : x.run s with ⟨e | a, s'⟩
  · exact .error ⟨rfl, hright⟩
  · rw [hrun] at hmove hnz'
    obtain ⟨hsets', hright'⟩ := hf s a s' hrun r hsets hright
    exact .ok ⟨rfl, rfl, hruns.trans hmove, hnz', hsets', hright'⟩

omit [Keccak] in
theorem notes_keep (hx : Op.Moves (fun s s' => State.SameWarmth (state s) (state s')) x) :
    Notes state (fun _ r => r) x := by
  intro s a s' hrun r hsets hright
  have hsame := hx s
  rw [hrun] at hsame
  exact ⟨hsets.trans (State.SameWarmth.warmSets hsame).symm, hright⟩

theorem sim_keeping (hx : MovesState evm state x)
    (hw : Op.Moves (fun s s' => State.SameWarmth (state s) (state s')) x) :
    Op.Sim (Follows evm state s₀) (Op.Same (Follows evm state s₀)) Failed (keeping x) x :=
  sim_noting hx (notes_keep hw)

omit [Keccak] in
theorem notes_address {a : Address} {x : Op State LoadError α} {cold : α → Bool}
    (hok : ∀ s b t, x.run s = (.ok b, t) →
      t.warmSets = s.warmSets.insertAddress a ∧ cold b = !s.isWarm a)
    (hskip : ∀ s t, x.run s = (.error .coldLoadSkipped, t) → State.SameWarmth s t) :
    Notes World.state (unlessSkipped fun b r => r.accessAddress a (cold b)) (World.onLoad x) := by
  intro w b w' hrun r hsets hright
  rcases World.onLoad_ok hrun with ⟨b, rfl, hb⟩ | ⟨reason, rfl, hb⟩
  · obtain ⟨ht, hcold⟩ := hok _ _ _ hb
    refine ⟨?_, ?_⟩
    · show r.sets.insertAddress a = w'.state.warmSets
      rw [hsets, ht]
    · show (r.accessAddress a (cold b)).Right
      rw [hcold]
      exact hright.accessAddress hsets a
  · exact ⟨hsets.trans (hskip _ _ hb).warmSets.symm, hright⟩

omit [Keccak] in
theorem notes_slot {a : Address} {key : Word} {x : Op State LoadError α} {cold : α → Bool}
    (hok : ∀ s b t, x.run s = (.ok b, t) →
      t.warmSets = s.warmSets.insertSlot a key ∧ cold b = !s.isStorageWarm a key)
    (hskip : ∀ s t, x.run s = (.error .coldLoadSkipped, t) → State.SameWarmth s t) :
    Notes World.state (unlessSkipped fun b r => r.accessSlot a key (cold b)) (World.onLoad x) := by
  intro w b w' hrun r hsets hright
  rcases World.onLoad_ok hrun with ⟨b, rfl, hb⟩ | ⟨reason, rfl, hb⟩
  · obtain ⟨ht, hcold⟩ := hok _ _ _ hb
    refine ⟨?_, ?_⟩
    · show r.sets.insertSlot a key = w'.state.warmSets
      rw [hsets, ht]
    · show (r.accessSlot a key (cold b)).Right
      rw [hcold]
      exact hright.accessSlot hsets a key
  · exact ⟨hsets.trans (hskip _ _ hb).warmSets.symm, hright⟩

omit [Keccak] in
theorem notes_onWorld {f : α → AccessRecord → AccessRecord} {x : Op World ε α}
    (h : Notes World.state f x) : Notes (fun gw => gw.2.state) f (Evm.onWorld x) := by
  intro gw a gw' hrun
  obtain ⟨ha, rfl⟩ := Prod.mk.inj hrun
  exact h gw.2 a _ (Prod.ext ha rfl)

theorem Follows.rollback {w₀ w : World} {t : TrackedWorld}
    (h : Follows evm World.state w₀.state t w) (hnz : w₀.state.TransientNonzero) :
    Follows evm World.state w₀.state (Tracked.rollback evm (w₀.checkpoint, w₀.state.warmSets) t)
      (w.rollback evm w₀.checkpoint) := by
  obtain ⟨rfl, hruns, -, -, hright⟩ := h
  have hback : State.Runs evm.db .any (evm.feature .eip161) w₀.state
      (World.rollback evm w₀.checkpoint t.1).state :=
    .rollback evm.version.features id (.refl _) hruns
  exact ⟨rfl, hback, (hback.journals hnz).nonzero, (hruns.warmSets_rollback hnz id).symm, hright⟩

theorem sim_rebase {x : Op (σ × AccessRecord) ε α} {y : Op σ ε α}
    (h : ∀ s, (state s).TransientNonzero →
      Op.Sim (fun t s' => Follows evm state (state s) t s' ∧ s' = s)
        (Op.Same (Follows evm state (state s))) Failed x y) :
    Op.Sim (Follows evm state s₀) (Op.Same (Follows evm state s₀)) Failed x y := by
  intro t s hf
  have hstart : Follows evm state (state s) t s := ⟨hf.fst, .refl _, hf.nonzero, hf.sets, hf.right⟩
  have hends := h s hf.nonzero t s ⟨hstart, rfl⟩
  generalize x.run t = r at hends ⊢
  generalize y.run s = r' at hends ⊢
  cases hends with
  | ok h' =>
    obtain ⟨rfl, h'⟩ := h'
    exact .ok ⟨rfl, h'.fst, hf.runs.trans h'.runs, h'.nonzero, h'.sets, h'.right⟩
  | error h' => exact .error h'

end Follows

/-! ## Accesses -/

section Accesses

variable [Keccak] {evm : Evm}

omit [Keccak] in
theorem cool_loadCode (db : Database) :
    Op.Moves AccountHandle.Cool ((AccountHandle.loadCode db).mapError LoadError.database) :=
  fun h => ⟨rfl, State.prewarmSet_codeOf db h.tracked.present h.inner, rfl, rfl⟩

theorem notes_loadAccount (a : Address) (loadCode skip : Bool) :
    Notes World.state (unlessSkipped fun (load : AccountLoad) r => r.accessAddress a load.isCold)
      (evm.loadAccount a loadCode skip) := by
  refine notes_address (fun s load t hrun => ?_) fun s t hrun => ?_
  · obtain ⟨ht, hd, hload⟩ := State.accountWithSkip_warms (fun cold => .bind .get fun h =>
      .bind (.ite (cool_loadCode evm.db) (.ret _)) fun _ => .ret _) hrun
    refine ⟨ht, ?_⟩
    obtain ⟨_, _, -, hrest⟩ := Op.run_bind_eq_ok (Prod.ext hload rfl)
    obtain ⟨_, _, -, hrest⟩ := Op.run_bind_eq_ok hrest
    cases hrest
    rfl
  · refine State.accountWithSkip_skipped (.bind (Op.Returns.total _).avoids fun _ =>
      .bind Op.Returns.get.avoids fun _ => .bind (.ite ?_ (Op.Returns.ret _).avoids) fun _ =>
        (Op.Returns.ret _).avoids) hrun
    exact Op.avoids_mapError nofun

theorem notes_sload (h2929 : evm.feature .eip2929 = true) (a : Address) (key : Word)
    (skip : Bool) :
    Notes World.state (unlessSkipped fun (load : SLoad) r => r.accessSlot a key load.isCold)
      (evm.sload a key skip) := by
  unfold sload
  rw [h2929]
  refine notes_slot (fun s load t hrun => ?_) fun s t hrun => State.storage_skipped hrun
  obtain ⟨ht, sh, rfl⟩ := State.storage_warms (fun _ _ => ⟨rfl, rfl⟩) hrun
  exact ⟨ht, Bool.true_and _⟩

theorem notes_sstore (h2929 : evm.feature .eip2929 = true) (a : Address) (key value : Word)
    (skip : Bool) :
    Notes World.state (unlessSkipped fun (store : SStore) r => r.accessSlot a key store.isCold)
      (evm.sstore a key value skip) := by
  unfold sstore
  rw [h2929]
  refine notes_slot (fun s store t hrun => ?_) fun s t hrun => State.storage_skipped hrun
  have hwrite : ∀ h : StorageSlotHandle, (h.write value).2.slot.isWarm = h.slot.isWarm ∧
      (h.write value).2.inner.prewarmSet = h.inner.prewarmSet := by
    intro h
    unfold StorageSlotHandle.write StorageSlotHandle.set
    dsimp only
    split_ifs <;> exact ⟨rfl, rfl⟩
  have hwarms := State.storage_warms ?_ hrun
  · obtain ⟨ht, sh, rfl⟩ := hwarms
    exact ⟨ht, Bool.true_and _⟩
  · exact fun _ h => hwrite h

theorem notes_targetAccess (target : Address) (skip : Bool) :
    Notes World.state
      (unlessSkipped fun (access : Bool × Bool) r => r.accessAddress target access.1)
      (World.onLoad (State.accountWithSkip evm.db target skip (Op.total fun h =>
        ((h.warm.1, h.warm.2.isEmptyForNewAccountGas evm.version.features), h.warm.2)))) := by
  refine notes_address (fun s access t hrun => ?_) fun s t hrun =>
    State.accountWithSkip_skipped (Op.Returns.total _).avoids hrun
  have hsession : (Op.total fun h : AccountHandle =>
      ((h.warm.1, h.warm.2.isEmptyForNewAccountGas evm.version.features), h.warm.2) :
        Op AccountHandle LoadError (Bool × Bool)) =
      Op.total AccountHandle.warm >>= fun cold => Op.total fun h =>
        ((cold, h.isEmptyForNewAccountGas evm.version.features), h) := rfl
  rw [hsession] at hrun
  obtain ⟨ht, hd, haccess⟩ := State.accountWithSkip_warms (fun cold h => .refl h) hrun
  cases haccess
  exact ⟨ht, rfl⟩

theorem notes_selfdestruct (contract target : Address) (skip : Bool) :
    Notes World.state (unlessSkipped fun (result : SelfDestructResult) r =>
      r.accessAddress target result.isCold) (evm.selfdestruct contract target skip) := by
  intro w result w' hrun r hsets hright
  obtain ⟨access, w₁, haccess, hrun⟩ := Op.run_bind_eq_ok hrun
  have hnotes := notes_targetAccess target skip w access w₁ haccess r hsets hright
  cases access with
  | error reason =>
    cases hrun
    exact hnotes
  | ok access =>
    obtain ⟨result, w₂, hrest, hrun⟩ := Op.run_bind_eq_ok hrun
    cases hrun
    have hsame := sameWarmth_selfdestructContract evm contract target access.1 access.2 w₁
    have hcold : result.isCold = access.1 := by
      obtain ⟨_, _, -, hrest⟩ := Op.run_bind_eq_ok hrest
      obtain ⟨_, _, -, hrest⟩ := Op.run_bind_eq_ok hrest
      obtain ⟨_, _, -, hrest⟩ := Op.run_bind_eq_ok hrest
      cases hrest
      rfl
    rw [hrest] at hsame
    refine ⟨hnotes.1.trans (State.SameWarmth.warmSets hsame).symm, ?_⟩
    show (r.accessAddress target result.isCold).Right
    rw [hcold]
    exact hnotes.2

end Accesses

/-! ## Frames -/

section Frames

variable [Keccak] {evm : Evm} {w₀ : World} {ε α : Type}

abbrev Lockstep (evm : Evm) (w₀ : World) (x : Op TrackedWorld ε α) (y : Op World ε α) : Prop :=
  Op.Sim (Follows evm World.state w₀.state) (Op.Same (Follows evm World.state w₀.state)) Failed x y

/-- The same inside a frame. -/
abbrev FrameLockstep (evm : Evm) (w₀ : World) (x : Op ((GasTracker × World) × AccessRecord) ε α)
    (y : Op (GasTracker × World) ε α) : Prop :=
  Op.Sim (Follows evm (fun gw => gw.2.state) w₀.state)
    (Op.Same (Follows evm (fun gw => gw.2.state) w₀.state)) Failed x y

theorem sim_onWorld {x : Op TrackedWorld ε α} {y : Op World ε α} (h : Lockstep evm w₀ x y) :
    FrameLockstep evm w₀ (onWorld x) (Evm.onWorld y) := by
  rintro ⟨⟨gas, w⟩, r⟩ _ ⟨rfl, hruns, hnz, hsets, hright⟩
  have hends := h (w, r) w ⟨rfl, hruns, hnz, hsets, hright⟩
  unfold onWorld Evm.onWorld
  dsimp only
  generalize x.run (w, r) = r₁ at hends ⊢
  generalize y.run w = r₂ at hends ⊢
  cases hends with
  | ok h' =>
    obtain ⟨rfl, rfl, hruns', hnz', hsets', hright'⟩ := h'
    exact .ok ⟨rfl, rfl, hruns', hnz', hsets', hright'⟩
  | error h' =>
    obtain ⟨rfl, hright'⟩ := h'
    exact .error ⟨rfl, hright'⟩

theorem sim_frameRet (a : α) :
    FrameLockstep evm w₀ (pure a : Op ((GasTracker × World) × AccessRecord) ε α) (pure a) :=
  .ret_same a fun _ _ h => h

theorem sim_onGas (f : GasTracker → α × GasTracker) :
    FrameLockstep evm w₀ (keeping (Evm.onGas f : Op (GasTracker × World) ε α)) (Evm.onGas f) :=
  sim_keeping (fun gw _ => .refl gw.2.state) fun gw => .refl gw.2.state

variable {exec : Message → Op TrackedWorld ExecutionError MessageResult}
  {exec' : Message → Op World ExecutionError MessageResult}

theorem sim_handle (h2929 : evm.feature .eip2929 = true)
    (hexec : ∀ m, Lockstep evm w₀ (exec m) (exec' m)) (r : Request) :
    FrameLockstep evm w₀ (handle evm exec r) (evm.handle exec' r) := by
  cases r with
  | query q =>
    cases q with
    | spend cost => exact sim_onGas fun g => g.spend cost
    | remaining => exact sim_onGas fun g => (g.remaining, g)
    | loadAccount a loadCode skip =>
      exact sim_noting (moves_onWorld (moves_loadAccount a loadCode skip))
        (notes_onWorld (notes_loadAccount a loadCode skip))
    | blockHash number =>
      exact sim_keeping (moves_onWorld (moves_blockHash number))
        (moves_onWorld (World.sameWarmth_onState (State.moves_sameWarmth_onCache _)))
    | sload a key skip =>
      exact sim_noting (moves_onWorld (moves_sload a key skip))
        (notes_onWorld (notes_sload h2929 a key skip))
    | tload a key => exact sim_keeping (fun gw _ => .refl gw.2.state) fun gw => .refl gw.2.state
  | sstore a key value skip =>
    exact sim_noting (moves_onWorld (moves_sstore trivial a key value skip))
      (notes_onWorld (notes_sstore h2929 a key value skip))
  | tstore a key value =>
    refine sim_keeping (fun gw => ?_) fun gw => ?_
    · exact World.Runs.of_run (.single (.tstore _ a key value trivial))
    · exact State.sameWarmth_tstore gw.2.state a key value
  | log l =>
    refine sim_keeping (fun gw => ?_) fun gw => ?_
    · exact moves_log trivial l gw.2
    · exact sameWarmth_log l gw.2.state
  | selfdestruct contract target skip =>
    have : Permit.any.Destroys evm.version.features := ⟨fun _ _ _ => trivial⟩
    exact sim_noting (moves_onWorld (moves_selfdestruct trivial contract target skip))
      (notes_onWorld (notes_selfdestruct contract target skip))
  | executeMessage m => exact sim_onWorld (hexec m)
  | reservoir => exact sim_onGas fun g => (g.reservoir, g)
  | spendState cost => exact sim_onGas fun g => g.spendState cost
  | refillReservoir amount => exact sim_onGas fun g => ((), g.refillReservoir amount)
  | recordRefund refund => exact sim_onGas fun g => ((), g.recordRefund refund)
  | mergeChildGas child reason => exact sim_onGas fun g => ((), g.mergeChildGas child reason)
  | outOfFuel => exact sim_keeping (fun gw _ => .refl gw.2.state) fun gw => .refl gw.2.state

theorem sim_runInterpreter (h2929 : evm.feature .eip2929 = true)
    (hexec : ∀ m, Lockstep evm w₀ (exec m) (exec' m)) (fuel : Nat) (m : Message) :
    Lockstep evm w₀ (runInterpreter evm exec fuel m) (evm.runInterpreter exec' fuel m) := by
  rintro ⟨w, r⟩ _ ⟨rfl, hruns, hnz, hsets, hright⟩
  have hends := Prog.sim_run (sim_handle h2929 hexec)
    ((SysInstr.loop (evm.frameEnv m) fuel).run .init)
    ((.newWithExecutionGasAndReservoir m.gasLimit m.reservoir, w), r) (_, w)
    ⟨rfl, hruns, hnz, hsets, hright⟩
  unfold runInterpreter Evm.runInterpreter
  dsimp only
  generalize (((SysInstr.loop (evm.frameEnv m) fuel).run .init).run (handle evm exec)).run
    ((.newWithExecutionGasAndReservoir m.gasLimit m.reservoir, w), r) = r₁ at hends ⊢
  generalize (((SysInstr.loop (evm.frameEnv m) fuel).run .init).run (evm.handle exec')).run
    (.newWithExecutionGasAndReservoir m.gasLimit m.reservoir, w) = r₂ at hends ⊢
  cases hends with
  | error h' =>
    obtain ⟨rfl, hright'⟩ := h'
    exact .error ⟨rfl, hright'⟩
  | @ok stopped _ _ _ h' =>
    obtain ⟨rfl, rfl, hruns', hnz', hsets', hright'⟩ := h'
    obtain ⟨e | reason, f⟩ := stopped
    · dsimp only
      split_ifs
      · exact .error ⟨rfl, hright'⟩
      · exact .ok ⟨rfl, rfl, hruns', hnz', hsets', hright'⟩
    · exact reason.elim

end Frames

/-! ## Messages -/

/-- The precompiles use the operations of the state, and make no accesses. -/
structure PrecompilesKeep [Keccak] (evm : Evm) : Prop where
  runs : ∀ m, Op.Moves (fun gs gs' : GasTracker × State =>
    State.Runs evm.db .any (evm.feature .eip161) gs.2 gs'.2) (evm.precompiles.execute m)
  sameWarmth : ∀ m, Op.Moves (fun gs gs' : GasTracker × State => State.SameWarmth gs.2 gs'.2)
    (evm.precompiles.execute m)

section Messages

variable [Keccak] {evm : Evm} {w₀ : World} {α : Type}

theorem notes_prepareCreateMessage (m : Message) :
    Notes World.state (unlessSkipped fun (_ : Unit) r => r.add m.destination)
      (evm.prepareCreateMessage m) := by
  intro w prepared w' hrun r hsets hright
  obtain ⟨info, w₁, hread, hrun⟩ := Op.run_bind_eq_ok hrun
  have hsame₁ : World.SameWarmth w w₁ := by
    have hmoves : Op.Moves World.SameWarmth
        (if m.depth ≤ evm.version.maxCallDepth ∧
            (0 < m.value ∨ decide (evm.version.initialCallDepth < m.depth) = true) then
          World.onState (State.accountInfoUntracked evm.db m.caller) else pure none) :=
      .ite (World.sameWarmth_onState (State.moves_sameWarmth_accountInfoUntracked _)) (.ret _)
    have h := hmoves w
    rw [hread] at h
    exact h
  split at hrun
  · cases hrun
    exact ⟨hsets.trans (State.SameWarmth.warmSets hsame₁).symm, hright⟩
  · obtain ⟨_, w₂, hwarm, hrun⟩ := Op.run_bind_eq_ok hrun
    have hwarms := State.account_warms (World.onState_ok hwarm).1
    obtain ⟨_, w₃, hbump, hrun⟩ := Op.run_bind_eq_ok hrun
    cases hrun
    have hsame₃ : World.SameWarmth w₂ w' := by
      have hmoves : Op.Moves World.SameWarmth
          (if decide (evm.version.initialCallDepth < m.depth) = true then
            World.onState (State.account evm.db m.caller AccountHandle.bumpNonce)
          else pure true) := by
        refine .ite (World.sameWarmth_onState (State.moves_sameWarmth_account fun h => ?_)) (.ret _)
        exact AccountHandle.cool_bumpNonce h
      have h := hmoves w₂
      rw [hbump] at h
      exact h
    refine ⟨?_, hright⟩
    show r.sets.insertAddress m.destination = w'.state.warmSets
    rw [State.SameWarmth.warmSets hsame₃, hwarms, State.SameWarmth.warmSets hsame₁, hsets]

theorem sim_prepareCreateMessage (hpre : PrecompilesKeep evm) {m : Message}
    (hk : m.kind.isCreate = true) :
    Lockstep evm w₀ (prepareCreateMessage evm m) (evm.prepareCreateMessage m) :=
  sim_noting (moves_prepareCreateMessage (permits_any hpre.runs) trivial hk)
    (notes_prepareCreateMessage m)

theorem sim_checkpoint {f : (StateCheckpoint × Nat) × WarmSets → Op TrackedWorld ExecutionError α}
    {g : StateCheckpoint × Nat → Op World ExecutionError α}
    (h : ∀ w : World, w.state.TransientNonzero →
      Lockstep evm w (f (w.checkpoint, w.state.warmSets)) (g w.checkpoint)) :
    Lockstep evm w₀ (Op.total (fun t => (checkpoint t, t)) >>= f)
      (Op.total (fun w => (w.checkpoint, w)) >>= g) := by
  refine sim_rebase fun w hnz => ?_
  rintro t w' ⟨hf, hw⟩
  subst w'
  rw [Op.run_bind_ok (Op.run_total _ _), Op.run_bind_ok (Op.run_total _ _)]
  have hcp : checkpoint t = (w.checkpoint, w.state.warmSets) := by
    unfold checkpoint
    rw [hf.fst, hf.sets]
  dsimp only
  rw [hcp]
  exact h w hnz t w hf

theorem sim_frameCheckpoint
    {f : (StateCheckpoint × Nat) × WarmSets →
      Op ((GasTracker × World) × AccessRecord) ExecutionError α}
    {g : StateCheckpoint × Nat → Op (GasTracker × World) ExecutionError α}
    (h : ∀ w : World, w.state.TransientNonzero →
      FrameLockstep evm w (f (w.checkpoint, w.state.warmSets)) (g w.checkpoint)) :
    FrameLockstep evm w₀ (onWorld (Op.total fun t => (checkpoint t, t)) >>= f)
      (Evm.onWorld (Op.total fun w => (w.checkpoint, w)) >>= g) := by
  refine sim_rebase fun gw hnz => ?_
  rintro t gw' ⟨hf, hgw⟩
  subst gw'
  have hcp : checkpoint (t.1.2, t.2) = (gw.2.checkpoint, gw.2.state.warmSets) := by
    unfold checkpoint
    rw [hf.fst, hf.sets]
  have hleft : (onWorld (Op.total fun t => (checkpoint t, t)) >>= f).run t =
      (f (gw.2.checkpoint, gw.2.state.warmSets)).run t := by
    rw [← hcp]
    exact Op.run_bind_ok rfl
  have hright : (Evm.onWorld (Op.total fun w => (w.checkpoint, w)) >>= g).run gw =
      (g gw.2.checkpoint).run gw := Op.run_bind_ok rfl
  rw [hleft, hright]
  exact h gw.2 hnz t gw hf

theorem sim_rollback (hnz : w₀.state.TransientNonzero) :
    Lockstep evm w₀ (Op.update (rollback evm (w₀.checkpoint, w₀.state.warmSets)))
      (Op.update (World.rollback evm w₀.checkpoint) : Op World ExecutionError Unit) :=
  .update fun _ _ h => ⟨rfl, h.rollback hnz⟩

theorem sim_onError {x : Op TrackedWorld ExecutionError α} {y : Op World ExecutionError α}
    (h : Lockstep evm w₀ x y) (cp : (StateCheckpoint × Nat) × WarmSets) :
    Lockstep evm w₀ (x.onError (rollback evm cp)) (y.onError (World.rollback evm cp.1)) := by
  refine h.onError ?_
  rintro t _ ⟨rfl, hright⟩
  exact ⟨rfl, hright⟩

theorem sim_ret (a : α) :
    Lockstep evm w₀ (pure a : Op TrackedWorld ExecutionError α) (pure a) :=
  .ret_same a fun _ _ h => h

theorem sim_fail (e : ExecutionError) :
    Lockstep evm w₀ (Op.fail e : Op TrackedWorld ExecutionError α) (Op.fail e) :=
  .fail fun _ _ h => h.failed

theorem sim_rollbackUnless (hnz : w₀.state.TransientNonzero) (success : Bool) :
    Lockstep evm w₀
      (if success then pure () else Op.update (rollback evm (w₀.checkpoint, w₀.state.warmSets)))
      (if success then pure () else
        Op.update (World.rollback evm w₀.checkpoint) : Op World ExecutionError Unit) :=
  .ite (fun _ => sim_ret ()) fun _ => sim_rollback hnz

theorem sim_finishCreateMessageRun (hnz : w₀.state.TransientNonzero) (a : Address)
    (frame : FrameResult) :
    Lockstep evm w₀ (finishCreateMessageRun evm (w₀.checkpoint, w₀.state.warmSets) a frame)
      (evm.finishCreateMessageRun w₀.checkpoint a frame) := by
  unfold finishCreateMessageRun Evm.finishCreateMessageRun
  refine .ite (fun _ => ?_) fun _ => .bind_same (sim_rollback hnz) fun _ => sim_ret _
  rcases evm.validateCreateOutput frame.gas frame.output with ⟨reason | output, gas⟩
  · exact .bind_same (sim_rollback hnz) fun _ => sim_ret _
  · refine .bind_same (sim_onError (sim_keeping ?_ ?_) _) fun _ => sim_ret _
    · exact World.moves_onState (State.moves_account evm.db fun h =>
        AccountHandle.mutates_setCode h _ _ trivial)
    · exact World.sameWarmth_onState (State.moves_sameWarmth_account fun h =>
        AccountHandle.cool_setCodeSlow h _)

variable {run : Message → Op TrackedWorld ExecutionError FrameResult}
  {run' : Message → Op World ExecutionError FrameResult}

theorem sim_executeCreateMessage (hpre : PrecompilesKeep evm)
    (hrun : ∀ w m, Lockstep evm w (run m) (run' m)) {m : Message}
    (hk : m.kind.isCreate = true) :
    Lockstep evm w₀ (executeCreateMessage evm run m) (evm.executeCreateMessage run' m) := by
  refine .bind_same (sim_prepareCreateMessage hpre hk) fun prepared => ?_
  cases prepared with
  | error reason => exact sim_ret _
  | ok =>
    refine sim_checkpoint fun w hnz => ?_
    refine .bind_same (sim_onError (sim_keeping ?_ ?_) _) fun created => ?_
    · exact moves_createMessageAccount (permits_any hpre.runs) trivial hk
    · exact sameWarmth_createMessageAccount m
    cases created with
    | error reason => exact .bind_same (sim_rollback hnz) fun _ => sim_ret _
    | ok =>
      exact .bind_same (.ite (fun _ => sim_ret _) fun _ => hrun w _) fun frame =>
        sim_finishCreateMessageRun hnz m.destination frame

theorem sim_executeCallPrecompile (hpre : PrecompilesKeep evm) (hnz : w₀.state.TransientNonzero)
    (m : Message) :
    Lockstep evm w₀ (executeCallPrecompile evm (w₀.checkpoint, w₀.state.warmSets) m)
      (evm.executeCallPrecompile w₀.checkpoint m) := by
  refine .bind_same (sim_keeping (moves_executePrecompile (permits_any hpre.runs) trivial)
    fun w => hpre.sameWarmth m (_, w.state)) fun r => ?_
  obtain ⟨execution, gas⟩ := r
  dsimp only
  rcases precompileStop m.gasLimit gas.remaining execution with e | ⟨reason, output⟩
  · exact .bind_same (sim_rollback hnz) fun _ => sim_fail e
  · exact .bind_same (sim_rollbackUnless hnz _) fun _ => sim_ret _

theorem sim_executeCallMessage (hpre : PrecompilesKeep evm)
    (hrun : ∀ w m, Lockstep evm w (run m) (run' m)) (m : Message) :
    Lockstep evm w₀ (executeCallMessage evm run m) (evm.executeCallMessage run' m) := by
  refine .ite (fun _ => sim_ret _) fun _ => sim_checkpoint fun w hnz => ?_
  refine .bind_same (sim_keeping (moves_callTransfer (permits_any hpre.runs) trivial)
    (sameWarmth_callTransfer m)) fun covered => ?_
  refine .ite (fun _ => sim_ret _) fun _ => .ite (fun _ => sim_executeCallPrecompile hpre hnz m)
    fun _ => .ite (fun _ => sim_ret _) fun _ => .bind_same (hrun w m) fun frame => ?_
  exact .bind_same (sim_rollbackUnless hnz _) fun _ => sim_ret _

theorem sim_hostExecuteMessage (hpre : PrecompilesKeep evm)
    (hrun : ∀ w m, Lockstep evm w (run m) (run' m)) (m : Message) :
    Lockstep evm w₀ (hostExecuteMessage evm run m) (evm.hostExecuteMessage run' m) := by
  refine sim_checkpoint fun w hnz => sim_onError (.bind_same (.ite (fun hk => ?_) fun _ => ?_)
    fun result => sim_ret _) _
  · exact sim_executeCreateMessage hpre hrun hk
  · exact sim_executeCallMessage hpre hrun m

theorem sim_executeMessage (hpre : PrecompilesKeep evm) (h2929 : evm.feature .eip2929 = true)
    (fuel : Nat) (m : Message) :
    Lockstep evm w₀ (executeMessage evm fuel m) (evm.executeMessage fuel m) := by
  induction fuel generalizing w₀ m with
  | zero => exact sim_fail _
  | succ fuel ih =>
    exact sim_hostExecuteMessage hpre
      (fun w m => sim_runInterpreter h2929 (fun m => ih m) fuel m) m

end Messages

end Evm.Tracked

end Evm2
