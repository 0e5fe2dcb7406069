import Evm2.Evm.Runs
import Evm2.State.Balance

/-!
# What every execution that returns upholds

`Evm.Upholds V R Good` lists what must be shown for the parts of an execution: that they keep the
property `V` and move along `R`. Most parts are calm: they change no balance and log nothing.

* **`Evm.executeMessage_ensures`**: every execution of a good message that returns keeps `V` and
  moves along `R`.
-/

namespace Evm2

/-- The parts of the execution of good messages keep `V` and move along `R`. -/
structure Evm.Upholds [Keccak] (evm : Evm) (V : World → Prop) (R : World → World → Prop)
    (Good : Message → Prop) : Prop where
  sends : ∀ m m', Good m → m.code.isEmpty = false → m.Sends m' → Good m'
  input : ∀ m, Good m → Good { m with input := [] }
  undo : ∀ w u, V w → V u → World.Runs evm .any w u → R w u →
    V (u.rollback evm w.checkpoint) ∧ R w (u.rollback evm w.checkpoint)
  calm : ∀ w w', V w → World.Runs evm .calm w w' → World.SameRecords w w' → V w' ∧ R w w'
  log : ∀ m l, Good m → m.code.isEmpty = false → l.address = m.destination →
    Op.Ensures V R (Op.update fun w => { w with
      state := evm.log l w.state, systemLog := w.systemLog || l.address == SYSTEM_ADDRESS } :
      Op World ExecutionError Unit)
  selfdestruct : ∀ m target skip, Good m → m.code.isEmpty = false →
    Op.Ensures V R (evm.selfdestruct m.destination target skip)
  transfer : ∀ m, Good m → m.kind.isCreate = false → Op.Ensures V R (evm.callTransfer m)
  create : ∀ m, Good m → m.kind.isCreate = true → Op.Ensures V R (evm.createMessageAccount m)
  deploy : ∀ m code, Good m → m.kind.isCreate = true → Op.Ensures V R
    (World.onState (State.account evm.db m.destination fun h => ((), h.setCodeSlow code)))
  precompile : ∀ m, Good m → m.kind.isCreate = false → Op.Ensures V R (evm.executePrecompile m)

namespace Evm

variable [Keccak] {evm : Evm} {V : World → Prop} {R : World → World → Prop}
  {Good : Message → Prop}

theorem permits_any (hpre : ∀ m, Op.Moves (fun gs gs' : GasTracker × State =>
    State.Runs evm.db .any (evm.feature .eip161) gs.2 gs'.2) (evm.precompiles.execute m)) :
    evm.Permits .any fun _ => True where
  touches := inferInstance
  warms := inferInstance
  sends _ _ _ _ := trivial
  input _ _ := trivial
  transfers _ _ _ _ _ := ⟨inferInstance, trivial⟩
  creates _ _ _ := ⟨inferInstance, trivial, inferInstance, inferInstance, ⟨fun _ _ _ _ _ _ => trivial⟩⟩
  writes _ _ _ := ⟨inferInstance, trivial, trivial, ⟨fun _ _ _ => trivial⟩⟩
  precompile m _ := hpre m

def RunsAlong (evm : Evm) (R : World → World → Prop) (w w' : World) : Prop :=
  World.Runs evm .any w w' ∧ R w w'

instance [Std.Refl R] : Std.Refl (evm.RunsAlong R) := ⟨fun w => ⟨refl w, refl w⟩⟩

instance [IsTrans World R] : IsTrans World (evm.RunsAlong R) where
  trans _ _ _ h h' := ⟨IsTrans.trans _ _ _ h.1 h'.1, IsTrans.trans _ _ _ h.2 h'.2⟩

section

variable {α : Type} {x : Op World ExecutionError α}

theorem ensures_runsAlong (hx : Op.Ensures V R x) (hm : Op.Moves (World.Runs evm .any) x) :
    Op.Ensures V (evm.RunsAlong R) x := by
  intro w a w' hw h
  obtain ⟨hw', hR⟩ := hx w a w' hw h
  have hrun := hm w
  rw [h] at hrun
  exact ⟨hw', hrun, hR⟩

theorem Upholds.ensures_calm (hup : evm.Upholds V R Good)
    (hm : Op.Moves (World.Runs evm .calm) x)
    (hghost : ∀ w, World.SameRecords w (x.run w).2) : Op.Ensures V R x := by
  intro w a w' hw h
  have hrun := hm w
  have hsame := hghost w
  rw [h] at hrun hsame
  exact hup.calm w w' hw hrun hsame

end

/-! ## Frames -/

section Frames

omit [Keccak] in
theorem onWorld_ok {ε α : Type} {x : Op World ε α} {gw gw' : GasTracker × World} {a : α}
    (h : (onWorld x).run gw = (.ok a, gw')) : x.run gw.2 = (.ok a, gw'.2) := by
  cases h' : x.run gw.2 with
  | mk r w' =>
    simp only [onWorld, h'] at h
    cases h
    rfl

variable {exec : Message → Op World ExecutionError MessageResult} {m : Message}

omit [Keccak] in
theorem ensures_onWorld {α : Type} {x : Op World ExecutionError α} (hx : Op.Ensures V R x) :
    Op.Ensures (fun gw : GasTracker × World => V gw.2) (OnSnd R) (onWorld x) :=
  fun gw a gw' hgw h => hx gw.2 a gw'.2 hgw (onWorld_ok h)

omit [Keccak] in
theorem ensures_onGas {α : Type} [Std.Refl R] (f : GasTracker → α × GasTracker) :
    Op.Ensures (fun gw : GasTracker × World => V gw.2) (OnSnd R)
      (onGas f : Op _ ExecutionError α) := by
  intro gw a gw' hgw h
  cases h
  exact ⟨hgw, refl gw.2⟩

theorem Upholds.ensures_handleQuery [Std.Refl R] (hup : evm.Upholds V R Good) (q : Query) :
    Op.Ensures (fun gw : GasTracker × World => V gw.2) (OnSnd R) (evm.handleQuery q) := by
  cases q with
  | spend cost => exact ensures_onGas fun g => g.spend cost
  | remaining => exact ensures_onGas fun g => (g.remaining, g)
  | loadAccount a loadCode skip =>
    exact ensures_onWorld (hup.ensures_calm (moves_loadAccount a loadCode skip) (World.sameRecords_onLoad _))
  | blockHash number =>
    exact ensures_onWorld (hup.ensures_calm (moves_blockHash number) (World.sameRecords_onState _))
  | sload a key skip =>
    exact ensures_onWorld (hup.ensures_calm (moves_sload a key skip) (World.sameRecords_onLoad _))
  | tload a key =>
    exact ensures_onWorld (hup.ensures_calm (fun w => refl w) fun _ => ⟨rfl, rfl, rfl⟩)

theorem Upholds.ensures_handle [Std.Refl R] (hup : evm.Upholds V R Good)
    (hexec : ∀ m, Good m → Op.Ensures V R (exec m)) (hm : Good m) (hcode : m.code.isEmpty = false)
    (r : Request) (hr : r.Allowed m) :
    Op.Ensures (fun gw : GasTracker × World => V gw.2) (OnSnd R) (evm.handle exec r) := by
  cases r with
  | query q => exact hup.ensures_handleQuery q
  | sstore a key value skip =>
    exact ensures_onWorld (hup.ensures_calm (moves_sstore trivial a key value skip) (World.sameRecords_onLoad _))
  | tstore a key value =>
    refine ensures_onWorld (hup.ensures_calm (.update fun w => ?_) fun _ => ⟨rfl, rfl, rfl⟩)
    exact .of_run (.single (.tstore _ a key value trivial))
  | log l => exact ensures_onWorld (hup.log m l hm hcode hr.1)
  | selfdestruct contract target skip =>
    obtain ⟨rfl, -⟩ := hr
    exact ensures_onWorld (hup.selfdestruct m target skip hm hcode)
  | executeMessage m' => exact ensures_onWorld (hexec m' (hup.sends m m' hm hcode hr))
  | reservoir => exact ensures_onGas fun g => (g.reservoir, g)
  | spendState cost => exact ensures_onGas fun g => g.spendState cost
  | refillReservoir amount => exact ensures_onGas fun g => ((), g.refillReservoir amount)
  | recordRefund refund => exact ensures_onGas fun g => ((), g.recordRefund refund)
  | mergeChildGas child reason => exact ensures_onGas fun g => ((), g.mergeChildGas child reason)
  | outOfFuel => exact .fail _

theorem Upholds.ensures_runInterpreter [Std.Refl R] [IsTrans World R]
    (hup : evm.Upholds V R Good) (hexec : ∀ m, Good m → Op.Ensures V R (exec m))
    (hm : Good m) (hcode : m.code.isEmpty = false) (fuel : Nat) :
    Op.Ensures V R (evm.runInterpreter exec fuel m) := by
  intro w result w' hw h
  obtain ⟨f, hrun, -⟩ := runInterpreter_ok h
  have hspec := SysInstr.loop_allowed (evm.frameEnv m) fuel .init
  have hstep : ∀ r gw b gw', r.Allowed m → V gw.2 → (evm.handle exec r).run gw = (.ok b, gw') →
      V gw'.2 ∧ OnSnd R gw gw' ∧ r.AnyAnswer b := by
    intro r gw b gw' hr hgw hb
    obtain ⟨hgw', hR⟩ := hup.ensures_handle hexec hm hcode r hr gw b gw' hgw hb
    exact ⟨hgw', hR, trivial⟩
  obtain ⟨hw', hR, -⟩ :=
    hspec.ensures (V := fun gw : GasTracker × World => V gw.2) (R := OnSnd R) hstep hw hrun
  exact ⟨hw', hR⟩

end Frames

/-! ## Messages -/

section Messages

variable [Std.Refl R] [IsTrans World R] {run : Message → Op World ExecutionError FrameResult}
  {m : Message}

omit [Std.Refl R] [IsTrans World R] in
theorem Upholds.rollback (hup : evm.Upholds V R Good) {w : World} (hw : V w) (u : World)
    (hu : V u ∧ evm.RunsAlong R w u) :
    V (u.rollback evm w.checkpoint) ∧ evm.RunsAlong R w (u.rollback evm w.checkpoint) := by
  obtain ⟨hV, hR⟩ := hup.undo w u hw hu.1 hu.2.1 hu.2.2
  exact ⟨hV, hu.2.1.rollback, hR⟩

theorem Upholds.ensures_executeCallMessage (hup : evm.Upholds V R Good)
    (hp : evm.Permits .any fun _ => True) (hm : Good m) (hk : m.kind.isCreate = false)
    (hrun : m.code.isEmpty = false → Op.Ensures V (evm.RunsAlong R) (run m)) :
    Op.Ensures V (evm.RunsAlong R) (evm.executeCallMessage run m) := by
  intro w result w' hw h
  unfold executeCallMessage at h
  by_cases hd : evm.version.maxCallDepth < m.depth
  · rw [if_pos hd] at h
    cases h
    exact ⟨hw, refl w⟩
  rw [if_neg hd, Op.run_bind_ok (Op.run_total _ _)] at h
  have hback := hup.rollback hw
  have htransfer : Op.Ensures V (evm.RunsAlong R) (evm.callTransfer m) :=
    ensures_runsAlong (hup.transfer m hm hk) (moves_callTransfer hp trivial)
  have hpre : Op.Ensures V (evm.RunsAlong R) (evm.executePrecompile m) :=
    ensures_runsAlong (hup.precompile m hm hk) (moves_executePrecompile hp trivial)
  refine (Op.Preserves.bind (htransfer.preserves w) fun covered => ?_) w result w' ⟨hw, refl w⟩ h
  refine .ite (fun _ => .ret _) fun _ => .ite (fun _ => ?_) fun _ => .ite (fun _ => .ret _)
    fun hcode => .bind ((hrun (by simpa using hcode)).preserves w) fun frame => ?_
  · refine .bind (hpre.preserves w) fun r => ?_
    dsimp only
    cases precompileStop m.gasLimit r.2.remaining r.1 with
    | error e => exact .bind (.update hback) fun _ => .fail e
    | ok r => exact .bind (.ite (fun _ => .ret _) fun _ => .update hback) fun _ => .ret _
  · exact .bind (.ite (fun _ => .ret _) fun _ => .update hback) fun _ => .ret _

theorem Upholds.ensures_prepareCreateMessage (hup : evm.Upholds V R Good) :
    Op.Ensures V R (evm.prepareCreateMessage m) := by
  have hinfo : Op.Ensures V R (World.onState (State.accountInfoUntracked evm.db m.caller)) :=
    hup.ensures_calm (World.moves_onState (State.moves_accountInfoUntracked evm.db _))
      (World.sameRecords_onState _)
  have hwarm : Op.Ensures V R
      (World.onState (State.account evm.db m.destination AccountHandle.warm)) :=
    hup.ensures_calm (World.moves_onState (State.moves_account evm.db AccountHandle.mutates_warm))
      (World.sameRecords_onState _)
  have hbump : Op.Ensures V R
      (World.onState (State.account evm.db m.caller AccountHandle.bumpNonce)) :=
    hup.ensures_calm
      (World.moves_onState (State.moves_account evm.db AccountHandle.mutates_bumpNonce))
      (World.sameRecords_onState _)
  refine .bind (.ite (fun _ => hinfo) fun _ => .ret _) fun info => ?_
  split
  · exact .ret _
  · exact .bind hwarm fun _ => .bind (.ite (fun _ => hbump) fun _ => .ret _) fun _ => .ret _

theorem Upholds.ensures_executeCreateMessage (hup : evm.Upholds V R Good)
    (hp : evm.Permits .any fun _ => True) (hm : Good m) (hk : m.kind.isCreate = true)
    (hrun : m.code.isEmpty = false →
      Op.Ensures V (evm.RunsAlong R) (run { m with input := [] })) :
    Op.Ensures V (evm.RunsAlong R) (evm.executeCreateMessage run m) := by
  have hprepare : Op.Ensures V (evm.RunsAlong R) (evm.prepareCreateMessage m) :=
    ensures_runsAlong hup.ensures_prepareCreateMessage (moves_prepareCreateMessage hp trivial hk)
  have hcreate : Op.Ensures V (evm.RunsAlong R) (evm.createMessageAccount m) :=
    ensures_runsAlong (hup.create m hm hk) (moves_createMessageAccount hp trivial hk)
  refine .bind hprepare fun prepared => ?_
  cases prepared with
  | error reason => exact .ret _
  | ok =>
  intro w result w' hw h
  have hback := hup.rollback hw
  dsimp only at h
  rw [Op.run_bind_ok (Op.run_total _ _)] at h
  refine (Op.Preserves.bind ((hcreate.preserves w).onError _) fun created => ?_) w result w'
    ⟨hw, refl w⟩ h
  cases created with
  | error reason => exact .bind (.update hback) fun _ => .ret _
  | ok =>
  refine .bind (.ite (fun _ => .ret _) fun hcode =>
    (hrun (by simpa using hcode)).preserves w) fun frame => ?_
  unfold finishCreateMessageRun
  refine .ite (fun _ => ?_) fun _ => .bind (.update hback) fun _ => .ret _
  split
  · exact .bind (.update hback) fun _ => .ret _
  · refine .bind (Op.Preserves.onError (Op.Ensures.preserves ?_ w) _) fun _ => .ret _
    refine ensures_runsAlong (hup.deploy m _ hm hk) (World.moves_onState ?_)
    exact State.moves_account evm.db fun h => AccountHandle.mutates_setCode h _ _ trivial

theorem Upholds.ensures_hostExecuteMessage (hup : evm.Upholds V R Good)
    (hp : evm.Permits .any fun _ => True) (hm : Good m)
    (hrun : ∀ m, Good m → m.code.isEmpty = false → Op.Ensures V (evm.RunsAlong R) (run m)) :
    Op.Ensures V (evm.RunsAlong R) (evm.hostExecuteMessage run m) := by
  have himpl : Op.Ensures V (evm.RunsAlong R) (evm.executeMessageImpl run m) := by
    refine .bind (.ite (fun hk => ?_) fun hk => ?_) fun _ => .ret _
    · exact hup.ensures_executeCreateMessage hp hm hk (hrun _ (hup.input m hm))
    · exact hup.ensures_executeCallMessage hp hm (by simpa using hk) (hrun m hm)
  intro w result w' hw h
  unfold hostExecuteMessage at h
  rw [Op.run_bind_ok (Op.run_total _ _)] at h
  exact himpl w result w' hw (Op.run_onError_eq_ok h)

theorem executeMessage_ensures (hup : evm.Upholds V R Good)
    (hp : evm.Permits .any fun _ => True) (fuel : Nat) (hm : Good m) :
    Op.Ensures V (evm.RunsAlong R) (evm.executeMessage fuel m) := by
  induction fuel generalizing m with
  | zero => exact .fail _
  | succ fuel ih =>
    refine hup.ensures_hostExecuteMessage hp hm fun m' hm' hcode => ensures_runsAlong ?_ ?_
    · refine hup.ensures_runInterpreter (fun m hm w r w' hw h => ?_) hm' hcode fuel
      obtain ⟨hw', -, hR⟩ := ih hm w r w' hw h
      exact ⟨hw', hR⟩
    · exact moves_runInterpreter hp (fun m hm => executeMessage_moves hp fuel hm) trivial fuel

end Messages

end Evm

end Evm2
