import Evm2.Evm.Execute
import Evm2.Interpreter.Requests
import Evm2.State.View

/-!
# Executing a message is a run

Whatever a message does, and however it ends, the state moves along `State.Runs`: by journaled
steps and rollbacks to checkpoints taken on the way. Which changes of accounts occur depends on the
messages: `Evm.Permits P Good` says that the permit `P` allows what the good messages do.
-/

namespace Evm2

/-- Both worlds have the same records. -/
structure World.SameRecords (w w' : World) : Prop where
  burned : w'.burned = w.burned
  exact : w'.exact = w.exact
  systemLog : w'.systemLog = w.systemLog

section World

variable [Keccak] (evm : Evm) (P : Permit)

def World.Runs (w w' : World) : Prop :=
  w.state.TransientNonzero → State.Runs evm.db P (evm.feature .eip161) w.state w'.state

variable {evm P}

instance : Std.Refl (World.Runs evm P) := ⟨fun w _ => .refl w.state⟩

instance : IsTrans World (World.Runs evm P) where
  trans _ _ _ h h' hnz := (h hnz).trans (h' ((h hnz).journals hnz).nonzero)

theorem World.Runs.rollback {w w' : World} (h : World.Runs evm P w w') :
    World.Runs evm P w (w'.rollback evm w.checkpoint) :=
  fun hnz => .rollback evm.version.features id (.refl _) (h hnz)

theorem World.Runs.of_run {w w' : World} (h : State.Run evm.db P w.state w'.state) :
    World.Runs evm P w w' :=
  fun _ => .of_run h

variable {α : Type}

theorem World.moves_onState {x : Op State DatabaseError α}
    (h : Op.Moves (State.Run evm.db P) x) : Op.Moves (World.Runs evm P) (World.onState x) :=
  fun w => .of_run (h w.state)

omit [Keccak] in
theorem World.onState_ok {x : Op State DatabaseError α} {w w' : World} {a : α}
    (h : (World.onState x).run w = (.ok a, w')) :
    x.run w.state = (.ok a, w'.state) ∧ World.SameRecords w w' := by
  rw [World.run_onState] at h
  rcases hx : x.run w.state with ⟨_ | b, s⟩
  · rw [hx] at h
    cases h
  · rw [hx] at h
    cases h
    exact ⟨rfl, rfl, rfl, rfl⟩

omit [Keccak] in
theorem World.sameRecords_onState (x : Op State DatabaseError α) (w : World) :
    World.SameRecords w ((World.onState x).run w).2 := ⟨rfl, rfl, rfl⟩

omit [Keccak] in
theorem World.sameRecords_onLoad (x : Op State LoadError α) (w : World) :
    World.SameRecords w ((World.onLoad x).run w).2 := by
  unfold World.onLoad
  dsimp only
  split <;> exact ⟨rfl, rfl, rfl⟩

theorem World.moves_noting {x : Op State DatabaseError α} {a : Address}
    {p : α → Nat → Nat → Bool} (h : Op.Moves (State.Run evm.db P) x) :
    Op.Moves (World.Runs evm P) (World.noting evm.db a p x) :=
  fun w => .of_run (h w.state)

theorem World.noting_ok {x : Op State DatabaseError α} {a : Address} {p : α → Nat → Nat → Bool}
    {w w' : World} {b : α} (h : (World.noting evm.db a p x).run w = (.ok b, w')) :
    x.run w.state = (.ok b, w'.state) ∧ w'.burned = w.burned ∧ w'.systemLog = w.systemLog ∧
      w'.exact = (w.exact && p b (w.state.balance evm.db a) (w'.state.balance evm.db a)) := by
  unfold World.noting at h
  simp only [World.run_onState] at h
  rcases hx : x.run w.state with ⟨_ | c, s⟩
  · rw [hx] at h
    cases h
  · rw [hx] at h
    cases h
    exact ⟨rfl, rfl, rfl, rfl⟩

theorem World.moves_onLoad {x : Op State LoadError α} (h : Op.Moves (State.Run evm.db P) x) :
    Op.Moves (World.Runs evm P) (World.onLoad x) := by
  intro w
  refine .of_run ?_
  unfold World.onLoad
  dsimp only
  split <;> exact h w.state

end World

/-- The output that `validate_create_output` accepts. -/
structure Evm.ValidOutput (evm : Evm) (output : Bytes) : Prop where
  size : evm.feature .codeSizeCheck = true → output.length ≤ evm.version.maxCodeSize
  first : evm.feature .eip3541 = true → output.head? ≠ some 0xEF#8

def Evm.Deployable (evm : Evm) (code : Bytecode) : Prop :=
  ∃ output, evm.ValidOutput output ∧ code = .newLegacy output

/-- The permit `P` allows what good messages do. -/
structure Evm.Permits [Keccak] (evm : Evm) (P : Permit) (Good : Message → Prop) : Prop where
  touches : P.Touches
  warms : P.Warms
  sends : ∀ m m', Good m → m.Sends m' → Good m'
  input : ∀ m, Good m → Good { m with input := [] }
  transfers : ∀ m, Good m → m.kind = .call ∨ m.kind = .callCode ∨ m.kind = .staticCall →
    m.value ≠ 0 → m.caller ≠ m.destination → P.SetsBalance ∧ P.log
  creates : ∀ m, Good m → m.kind.isCreate = true →
    P.SetsBalance ∧ P.log ∧ P.BumpsNonce ∧ P.Creates ∧ P.Deploys evm.Deployable
  writes : ∀ m, Good m → m.isStatic = false →
    P.SetsBalance ∧ P.write ∧ P.log ∧ P.Destroys evm.version.features
  precompile : ∀ m, Good m → Op.Moves (fun gs gs' : GasTracker × State =>
    State.Runs evm.db P (evm.feature .eip161) gs.2 gs'.2) (evm.precompiles.execute m)

namespace Evm

variable [Keccak] {evm : Evm} {P : Permit} {Good : Message → Prop}

/-! ## Host operations -/

section Host

theorem moves_log (hP : P.log) (l : Log) :
    ∀ w, World.Runs evm P w { w with state := evm.log l w.state } := by
  intro w
  unfold log
  split_ifs
  · exact .of_run (.single (.log _ l hP))
  · exact refl w

theorem moves_logEip7708Transfer (src dst : Address) (value : Word)
    (hP : value ≠ 0 → src ≠ dst → P.log) :
    ∀ w, World.Runs evm P w { w with state := evm.logEip7708Transfer src dst value w.state } := by
  intro w
  unfold logEip7708Transfer eip7708TransferLog
  by_cases h : value = 0 ∨ src = dst
  · simp only [if_pos h, ite_self]
    exact refl w
  · rw [if_neg h]
    rw [not_or] at h
    split_ifs
    · exact moves_log (hP h.1 h.2) _ w
    · exact refl w

omit [Keccak] in
theorem mutates_loadAccountSession [P.Warms] (loadCode : Bool) :
    Op.Moves (AccountHandle.Mutates evm.db P) (evm.loadAccountSession loadCode) := by
  have hwarm : Op.Moves (AccountHandle.Mutates evm.db P)
      (Op.total AccountHandle.warm : Op AccountHandle LoadError Bool) :=
    AccountHandle.mutates_warm
  have hcode : Op.Moves (AccountHandle.Mutates evm.db P)
      ((AccountHandle.loadCode evm.db).mapError LoadError.database) :=
    fun h => AccountHandle.mutates_loadCode h
  exact .bind hwarm fun _ => .bind .get fun _ => .bind (.ite hcode (.ret _)) fun _ => .ret _

theorem moves_loadAccount [P.Warms] (a : Address) (loadCode skip : Bool) :
    Op.Moves (World.Runs evm P) (evm.loadAccount a loadCode skip) :=
  World.moves_onLoad
    (State.moves_accountWithSkip evm.db skip (mutates_loadAccountSession loadCode))

theorem moves_blockHash (number : Word) :
    Op.Moves (World.Runs evm P) (evm.blockHash number) :=
  World.moves_onState fun s => .single (.readBlockHash s number)

theorem moves_sload (a : Address) (key : Word) (skip : Bool) :
    Op.Moves (World.Runs evm P) (evm.sload a key skip) :=
  World.moves_onLoad (State.moves_storage evm.db (fun _ _ => .refl) a _ key skip)

theorem moves_sstore (hP : P.write) (a : Address) (key value : Word) (skip : Bool) :
    Op.Moves (World.Runs evm P) (evm.sstore a key value skip) := by
  refine World.moves_onLoad (State.moves_storage evm.db (fun _ h => ?_) a _ key skip)
  exact StorageSlotHandle.session_write hP h value

theorem moves_transfer [P.Touches] (src dst : Address) (value : Word)
    (hP : value ≠ 0 → src ≠ dst → P.SetsBalance) :
    Op.Moves (World.Runs evm P) (evm.transfer src dst value) :=
  World.moves_noting (State.moves_transfer evm.db src dst value hP)

theorem moves_selfdestructBalance [P.Touches] [P.SetsBalance] (hP : P.log)
    (contract target : Address) (balance : Word) (shouldDestroy : Bool) :
    Op.Moves (World.Runs evm P) (evm.selfdestructBalance contract target balance shouldDestroy) := by
  refine .ite ?_ (.ite ?_ (.ret _))
  · refine .bind (moves_transfer _ _ _ fun _ _ => inferInstance) fun transferred =>
      .ite ?_ (.ret _)
    exact .update (moves_logEip7708Transfer _ _ _ fun _ _ => hP)
  · refine .bind (World.moves_onState (State.moves_account evm.db fun h => ?_)) fun _ =>
      .update fun w => ?_
    · exact AccountHandle.mutates_addBalance h _
    · exact World.Runs.of_run .refl

theorem moves_selfdestructContract [P.Touches] [P.SetsBalance] [P.Destroys evm.version.features]
    (hP : P.log) (contract target : Address) (isCold targetIsEmpty : Bool) :
    Op.Moves (World.Runs evm P)
      (evm.selfdestructContract contract target isCold targetIsEmpty) := by
  intro w hnz
  have hread : Op.Moves (State.Run evm.db P) (State.account evm.db contract fun h =>
      ((h.tracked.flags.destroyed, h.balance,
        !evm.version.features.contains .eip6780 || h.isCreated), h)) :=
    State.moves_account evm.db fun h => .refl h
  let Q (w' : World) : Prop := State.Runs evm.db P (evm.feature .eip161) w.state w'.state
  refine Op.keeps_bind_at (Q := Q) (World.moves_onState hread w hnz) fun r w₁ hr hw₁ => ?_
  obtain ⟨destroyed, balance, shouldDestroy⟩ := r
  obtain ⟨x, hx, hrx⟩ := State.account_read_ok evm.db (World.onState_ok hr).1
  have hnz₁ := (hw₁.journals hnz).nonzero
  have hmove : World.Runs evm P w₁ _ :=
    moves_selfdestructBalance hP contract target balance shouldDestroy w₁
  have hdestroys : P.Destroys evm.version.features := inferInstance
  dsimp only
  refine Op.keeps_bind_at (Q := Q) (hw₁.trans (hmove hnz₁)) fun _ w₂ h₂ hw₂ =>
    Op.keeps_bind_at (Q := Q) ?_ fun _ w₃ _ hw₃ => hw₃
  rw [h₂] at hmove
  obtain ⟨x', hx', -, hf⟩ := (hmove hnz₁).keeps hnz₁ hx
  split_ifs with hd
  · refine hw₂.trans (.of_run (State.run_account_loaded evm.db hx' ?_))
    refine AccountHandle.mutates_markDestructed _ (hdestroys.destroy _ _ fun h6780 => hf.created ?_)
    cases hrx
    simp [h6780, AccountHandle.isCreated] at hd
    exact hd.2
  · exact hw₂

theorem moves_selfdestruct [P.Touches] [P.Warms] [P.SetsBalance]
    [P.Destroys evm.version.features] (hP : P.log) (contract target : Address) (skip : Bool) :
    Op.Moves (World.Runs evm P) (evm.selfdestruct contract target skip) := by
  refine .bind (World.moves_onLoad (State.moves_accountWithSkip evm.db skip fun h => ?_))
    fun access => ?_
  · exact AccountHandle.mutates_warm h
  · cases access with
    | error reason => exact .ret _
    | ok access => exact .bind (moves_selfdestructContract hP _ _ _ _) fun _ => .ret _

end Host

/-! ## Frames -/

section Frames

def OnSnd {α β : Type} (R : β → β → Prop) (x y : α × β) : Prop := R x.2 y.2

instance {α β : Type} {R : β → β → Prop} [Std.Refl R] : Std.Refl (OnSnd (α := α) R) :=
  ⟨fun x => refl x.2⟩

instance {α β : Type} {R : β → β → Prop} [IsTrans β R] : IsTrans (α × β) (OnSnd R) :=
  ⟨fun _ _ _ h h' => IsTrans.trans (r := R) _ _ _ h h'⟩

omit [Keccak] in
theorem moves_onWorld {ε α : Type} {R : World → World → Prop} {x : Op World ε α}
    (h : Op.Moves R x) : Op.Moves (OnSnd R) (onWorld x) :=
  fun gw => h gw.2

omit [Keccak] in
theorem moves_onGas {ε α : Type} {R : World → World → Prop} [Std.Refl R]
    (f : GasTracker → α × GasTracker) : Op.Moves (OnSnd R) (onGas f : Op _ ε α) :=
  fun gw => refl gw.2

theorem moves_handleQuery [P.Warms] (q : Query) :
    Op.Moves (OnSnd (World.Runs evm P)) (evm.handleQuery q) := by
  cases q with
  | spend cost => exact moves_onGas fun g => g.spend cost
  | remaining => exact moves_onGas fun g => (g.remaining, g)
  | loadAccount a loadCode skip => exact moves_onWorld (moves_loadAccount a loadCode skip)
  | blockHash number => exact moves_onWorld (moves_blockHash number)
  | sload a key skip => exact moves_onWorld (moves_sload a key skip)
  | tload a key => exact moves_onWorld fun w => refl w

variable {exec : Message → Op World ExecutionError MessageResult}

theorem moves_handle (h : evm.Permits P Good)
    (hexec : ∀ m, Good m → Op.Moves (World.Runs evm P) (exec m)) {m : Message} (hm : Good m)
    (r : Request) (hr : r.Allowed m) :
    Op.Moves (OnSnd (World.Runs evm P)) (evm.handle exec r) := by
  have := h.touches
  have := h.warms
  cases r with
  | query q => exact moves_handleQuery q
  | sstore a key value skip =>
    obtain ⟨-, hw, -⟩ := h.writes m hm hr.2
    exact moves_onWorld (moves_sstore hw a key value skip)
  | tstore a key value =>
    obtain ⟨-, hw, -⟩ := h.writes m hm hr.2
    exact moves_onWorld (.update fun w => .of_run (.single (.tstore _ a key value hw)))
  | log l =>
    obtain ⟨-, -, hl, -⟩ := h.writes m hm hr.2
    exact moves_onWorld (.update fun w => moves_log hl l w)
  | selfdestruct contract target skip =>
    obtain ⟨_, -, hl, _⟩ := h.writes m hm hr.2
    exact moves_onWorld (moves_selfdestruct hl contract target skip)
  | executeMessage m' => exact moves_onWorld (hexec m' (h.sends m m' hm hr))
  | reservoir => exact moves_onGas fun g => (g.reservoir, g)
  | spendState cost => exact moves_onGas fun g => g.spendState cost
  | refillReservoir amount => exact moves_onGas fun g => ((), g.refillReservoir amount)
  | recordRefund refund => exact moves_onGas fun g => ((), g.recordRefund refund)
  | mergeChildGas child reason => exact moves_onGas fun g => ((), g.mergeChildGas child reason)
  | outOfFuel => exact .fail _

theorem runInterpreter_snd (fuel : Nat) (m : Message) (w : World) :
    ((evm.runInterpreter exec fuel m).run w).2 =
      ((((SysInstr.loop (evm.frameEnv m) fuel).run .init).run (evm.handle exec)).run
        (.newWithExecutionGasAndReservoir m.gasLimit m.reservoir, w)).2.2 := by
  unfold runInterpreter
  dsimp only
  split
  · rename_i h
    rw [h]
  · rename_i e _ _ _
    exact e.elim
  · rename_i h
    rw [h]
    split_ifs <;> rfl

theorem runInterpreter_ok {fuel : Nat} {m : Message} {w w' : World} {result : FrameResult}
    (h : (evm.runInterpreter exec fuel m).run w = (.ok result, w')) :
    ∃ f, (((SysInstr.loop (evm.frameEnv m) fuel).run .init).run (evm.handle exec)).run
        (.newWithExecutionGasAndReservoir m.gasLimit m.reservoir, w) =
          (.ok (.error result.stop, f), (result.gas, w')) ∧ result.stop.isFatal = false := by
  unfold runInterpreter at h
  dsimp only at h
  split at h
  · cases h
  · rename_i e _ _ _
    exact e.elim
  · rename_i reason f gas u hrun
    split_ifs at h with hfatal
    · cases h
    · cases h
      exact ⟨f, hrun, by simpa using hfatal⟩

theorem moves_runInterpreter (h : evm.Permits P Good)
    (hexec : ∀ m, Good m → Op.Moves (World.Runs evm P) (exec m)) {m : Message} (hm : Good m)
    (fuel : Nat) : Op.Moves (World.Runs evm P) (evm.runInterpreter exec fuel m) := by
  intro w
  rw [runInterpreter_snd]
  exact (SysInstr.loop_allowed (evm.frameEnv m) fuel .init).moves (fun _ _ => trivial)
    (moves_handle h hexec hm) (_, w)

end Frames

/-! ## Messages -/

section Messages

variable {run : Message → Op World ExecutionError FrameResult}

variable {m : Message}

theorem moves_callTransfer (h : evm.Permits P Good) (hm : Good m) :
    Op.Moves (World.Runs evm P) (evm.callTransfer m) := by
  have := h.touches
  unfold callTransfer
  by_cases hk : m.kind = .call ∨ m.kind = .callCode ∨ m.kind = .staticCall
  · rw [if_pos hk]
    have hP : m.value ≠ 0 → m.caller ≠ m.destination → P.SetsBalance ∧ P.log :=
      h.transfers m hm hk
    refine .bind (moves_transfer _ _ _ fun hv hsd => (hP hv hsd).1) fun covered =>
      .bind (.ite ?_ (.ret _)) fun _ => .ret _
    exact .update (moves_logEip7708Transfer _ _ _ fun hv hsd => (hP hv hsd).2)
  · rw [if_neg hk]
    exact .ret _

theorem moves_executePrecompile (h : evm.Permits P Good) (hm : Good m) :
    Op.Moves (World.Runs evm P) (evm.executePrecompile m) :=
  fun w _ => h.precompile m hm (_, w.state)

theorem moves_executeCallMessage (h : evm.Permits P Good) (hm : Good m)
    (hrun : Op.Moves (World.Runs evm P) (run m)) :
    Op.Moves (World.Runs evm P) (evm.executeCallMessage run m) := by
  intro w
  unfold executeCallMessage
  by_cases hd : evm.version.maxCallDepth < m.depth
  · rw [if_pos hd]
    exact refl w
  rw [if_neg hd]
  have hback : ∀ u, World.Runs evm P w u → World.Runs evm P w (u.rollback evm w.checkpoint) :=
    fun u hu => hu.rollback
  rw [Op.run_bind_ok (Op.run_total _ _)]
  refine (Op.Keeps.bind ((moves_callTransfer h hm).keeps w) fun covered => ?_) w (refl w)
  refine .ite (fun _ => .ret _) fun _ => .ite (fun _ => ?_) fun _ => .ite (fun _ => .ret _) fun _ =>
    .bind (hrun.keeps w) fun frame => ?_
  · refine .bind ((moves_executePrecompile h hm).keeps w) fun r => ?_
    dsimp only
    cases precompileStop m.gasLimit r.2.remaining r.1 with
    | error e => exact .bind (.update hback) fun _ => .fail e
    | ok r => exact .bind (.ite (fun _ => .ret _) fun _ => .update hback) fun _ => .ret _
  · exact .bind (.ite (fun _ => .ret _) fun _ => .update hback) fun _ => .ret _

theorem moves_prepareCreateMessage (h : evm.Permits P Good) (hm : Good m)
    (hk : m.kind.isCreate = true) :
    Op.Moves (World.Runs evm P) (evm.prepareCreateMessage m) := by
  have := h.touches
  have := h.warms
  obtain ⟨_, -, _, -, -⟩ := h.creates m hm hk
  refine .bind (.ite (World.moves_onState (State.moves_accountInfoUntracked evm.db _)) (.ret _))
    fun info => ?_
  split
  · exact .ret _
  · refine .bind (World.moves_onState (State.moves_account evm.db AccountHandle.mutates_warm))
      fun _ => .bind (.ite (World.moves_onState
        (State.moves_account evm.db AccountHandle.mutates_bumpNonce)) (.ret _)) fun _ => .ret _

theorem moves_createAccount [P.Touches] [P.SetsBalance] [P.Creates] (caller a : Address)
    (value : Word) : Op.Moves (World.Runs evm P) (evm.createAccount caller a value) :=
  World.moves_noting (State.moves_createAccount evm.db caller a value _)

theorem moves_createMessageAccount (h : evm.Permits P Good) (hm : Good m)
    (hk : m.kind.isCreate = true) :
    Op.Moves (World.Runs evm P) (evm.createMessageAccount m) := by
  have := h.touches
  obtain ⟨_, hw, -, _, -⟩ := h.creates m hm hk
  refine .bind (moves_createAccount _ _ _) fun created => ?_
  cases created with
  | error e => exact .ret _
  | ok =>
    exact .bind (.update (moves_logEip7708Transfer _ _ _ fun _ _ => hw)) fun _ => .ret _

def Created (a : Address) (s : State) : Prop :=
  ∃ x, s.accounts.lookup a = some x ∧ x.flags.created = true ∧ x.flags.discardsStorage = true

theorem created_createMessageAccount {w w' : World}
    (h : (evm.createMessageAccount m).run w = (.ok (.ok ()), w')) :
    Created m.destination w'.state := by
  obtain ⟨created, w₁, hc, h⟩ := Op.run_bind_eq_ok h
  cases created with
  | error e => cases h
  | ok =>
    obtain ⟨x, hx, hflags⟩ := State.createAccount_ok evm.db (World.noting_ok hc).1
    cases h
    refine ⟨x, ?_, hflags⟩
    rw [← hx]
    dsimp only
    unfold logEip7708Transfer log
    split_ifs
    · split
      · rfl
      · rfl
    · split <;> rfl
    · rfl

theorem Created.runs {a : Address} {w w' : World} (hc : Created a w.state)
    (hnz : w.state.TransientNonzero) (h : World.Runs evm P w w') : Created a w'.state := by
  obtain ⟨x, hx, hcr, hd⟩ := hc
  obtain ⟨x', hx', -, hf⟩ := (h hnz).keeps hnz hx
  exact ⟨x', hx', hf.created hcr, hf.discardsStorage hd⟩

theorem run_deploy [P.Touches] {C : Bytecode → Prop} [P.Deploys C] {a : Address} {s : State}
    (hc : Created a s) {code : Bytecode} (hC : C code) :
    State.Run evm.db P s ((State.account evm.db a fun h => ((), h.setCodeSlow code)).run s).2 := by
  obtain ⟨x, hx, hcr, hd⟩ := hc
  refine State.run_account_loaded evm.db hx (AccountHandle.mutates_setCode _ _ _ ?_)
  have hf : ∀ h : AccountHandle, h.touch.tracked.flags.created = h.tracked.flags.created ∧
      h.touch.tracked.flags.discardsStorage = h.tracked.flags.discardsStorage := by
    intro h
    unfold AccountHandle.touch
    split_ifs <;> exact ⟨rfl, rfl⟩
  exact Permit.Deploys.deploy a _ code ((hf _).1.trans hcr) ((hf _).2.trans hd) hC

omit [Keccak] in
theorem validateCreateOutput_ok {gas gas' : GasTracker} {output output' : Bytes}
    (h : evm.validateCreateOutput gas output = (.ok output', gas')) : evm.ValidOutput output' := by
  have hempty : evm.ValidOutput [] := ⟨fun _ => Nat.zero_le _, fun _ => by simp⟩
  unfold validateCreateOutput at h
  dsimp only at h
  split at h
  · cases h
  rename_i hs
  split at h
  · cases h
  rename_i hf
  have hvalid : evm.ValidOutput output := by
    refine ⟨fun hc => ?_, fun hc => ?_⟩
    · simpa [hc] using hs
    · simpa [hc] using hf
  -- the remaining branches return the output, or the empty code before EIP-2
  split_ifs at h <;> cases h
  all_goals first | exact hvalid | exact hempty

theorem moves_executeCreateMessage (h : evm.Permits P Good) (hm : Good m)
    (hk : m.kind.isCreate = true)
    (hrun : Op.Moves (World.Runs evm P) (run { m with input := [] })) :
    Op.Moves (World.Runs evm P) (evm.executeCreateMessage run m) := by
  have := h.touches
  obtain ⟨-, -, -, -, _⟩ := h.creates m hm hk
  refine .bind (moves_prepareCreateMessage h hm hk) fun prepared => ?_
  cases prepared with
  | error reason => exact .ret _
  | ok =>
  intro w hnz
  let Q (u : World) : Prop := State.Runs evm.db P (evm.feature .eip161) w.state u.state
  have hback : ∀ u, Q u → Q (u.rollback evm w.checkpoint) := by
    intro u hu
    have hruns : World.Runs evm P w u := fun _ => hu
    exact hruns.rollback hnz
  have hstep : ∀ {α : Type} {x : Op World ExecutionError α}, Op.Moves (World.Runs evm P) x →
      Op.Keeps Q x := fun hx u hu => hu.trans (hx u (hu.journals hnz).nonzero)
  dsimp only
  rw [Op.run_bind_ok (Op.run_total _ _)]
  refine Op.keeps_bind_at (Q := Q)
    (((hstep (moves_createMessageAccount h hm hk)).onError hback) w (.refl _))
    fun created w₁ hc hw₁ => ?_
  cases created with
  | error reason => exact (Op.Keeps.bind (.update hback) fun _ => .ret _) w₁ hw₁
  | ok =>
  -- from here on the destination is marked as created
  have hnz₁ := (hw₁.journals hnz).nonzero
  have hcreated : Created m.destination w₁.state :=
    created_createMessageAccount (Op.run_onError_eq_ok hc)
  have hframe : Op.Moves (World.Runs evm P) (if m.code.isEmpty then
      pure ⟨.stop, .newWithExecutionGasAndReservoir m.gasLimit m.reservoir, []⟩
      else run { m with input := [] }) := .ite (.ret _) hrun
  refine Op.keeps_bind_at (Q := Q) (hstep hframe w₁ hw₁) fun frame w₂ hf hw₂ => ?_
  have h₁₂ := hframe w₁
  rw [hf] at h₁₂
  unfold finishCreateMessageRun
  split_ifs with hs
  · split
    · exact (Op.Keeps.bind (.update hback) fun _ => .ret _) w₂ hw₂
    · rename_i output gas hv
      refine Op.keeps_bind_at (Q := Q) ?_ fun _ w₃ _ hw₃ => hw₃
      have hC : evm.Deployable (.newLegacy output) := ⟨output, validateCreateOutput_ok hv, rfl⟩
      exact Op.keeps_onError_at (Q := Q)
        (hw₂.trans (.of_run (run_deploy (hcreated.runs hnz₁ h₁₂) hC))) hback
  · exact (Op.Keeps.bind (.update hback) fun _ => .ret _) w₂ hw₂

theorem moves_executeMessageImpl (h : evm.Permits P Good) (hm : Good m)
    (hrun : ∀ m, Good m → Op.Moves (World.Runs evm P) (run m)) :
    Op.Moves (World.Runs evm P) (evm.executeMessageImpl run m) := by
  refine .bind ?_ fun _ => .ret _
  split_ifs with hk
  · exact moves_executeCreateMessage h hm hk (hrun _ (h.input m hm))
  · exact moves_executeCallMessage h hm (hrun m hm)

theorem moves_hostExecuteMessage (h : evm.Permits P Good) (hm : Good m)
    (hrun : ∀ m, Good m → Op.Moves (World.Runs evm P) (run m)) :
    Op.Moves (World.Runs evm P) (evm.hostExecuteMessage run m) := by
  intro w
  unfold hostExecuteMessage
  rw [Op.run_bind_ok (Op.run_total _ _)]
  exact (((moves_executeMessageImpl h hm hrun).keeps w).onError fun u hu => hu.rollback) w (refl w)

/-- **Executing a message is a run**, whatever its outcome. -/
theorem executeMessage_moves (h : evm.Permits P Good) (fuel : Nat) (hm : Good m) :
    Op.Moves (World.Runs evm P) (evm.executeMessage fuel m) := by
  induction fuel generalizing m with
  | zero => exact .fail _
  | succ fuel ih =>
    exact moves_hostExecuteMessage h hm fun m' hm' =>
      moves_runInterpreter h (fun m hm => ih hm) hm' fuel

theorem executeMessage_error (h : evm.Permits P Good) {fuel : Nat} (hm : Good m)
    {w w' : World} {e : ExecutionError}
    (hrun : (evm.executeMessage fuel m).run w = (.error e, w')) :
    w' = w ∨ ∃ u, World.Runs evm P w u ∧ w' = u.rollback evm w.checkpoint := by
  cases fuel with
  | zero =>
    cases hrun
    exact .inl rfl
  | succ fuel =>
    have hmoves : Op.Moves (World.Runs evm P)
        (evm.executeMessageImpl (evm.runInterpreter (evm.executeMessage fuel) fuel) m) :=
      moves_executeMessageImpl h hm fun m' hm' =>
        moves_runInterpreter h (fun m hm => executeMessage_moves h fuel hm) hm' fuel
    have hu := hmoves w
    unfold executeMessage hostExecuteMessage at hrun
    rw [Op.run_bind_ok (Op.run_total _ _)] at hrun
    rcases hx : (evm.executeMessageImpl (evm.runInterpreter (evm.executeMessage fuel) fuel) m).run w
      with ⟨e' | r, u⟩
    · rw [Op.run_onError_error _ hx] at hrun
      rw [hx] at hu
      cases hrun
      exact .inr ⟨u, hu, rfl⟩
    · rw [Op.run_onError_ok _ hx] at hrun
      cases hrun

end Messages

end Evm

end Evm2
