import Evm2.Ethereum.AuthCover
import Evm2.Evm.TrackedRuns

/-!
# Transactions with access sets

The handlers of transactions, with the sets of accessed addresses and slots beside them. The sets
start from what is prewarmed and the sender; checking an authorization, resolving a delegation and
the frames of the transaction access accounts.
-/

namespace Evm2

open Evm.Tracked (keeping noting unlessSkipped)

def State.startSets (s : State) (sender : Address) : WarmSets :=
  ⟨insert sender { a | s.prewarmSet.isWarm a = true },
    { p | s.prewarmSet.isStorageWarm p.1 p.2 = true }⟩

namespace TxHost.Tracked

variable [Keccak] (host : TxHost)

/-! ## The first frame -/

def chargedDelegation (delegated : Address) :
    Op ((GasTracker × World) × AccessRecord) ExecutionError (Option Bytecode) := do
  let coldAdditional := host.evm.version.gasParams.coldAccountAdditionalCost
  if !(← keeping (Evm.onGas (·.spend WARM_STORAGE_READ_COST))) then return none
  else
    let remaining ← keeping (Evm.onGas fun g => (g.remaining, g))
    match ← noting (unlessSkipped fun load r => r.accessAddress delegated load.isCold)
        (Evm.onWorld
          (host.evm.loadAccount delegated true (decide (remaining < coldAdditional)))) with
    | .error _ => return none
    | .ok load =>
      let enough ← (if load.isCold then keeping (Evm.onGas (·.spend coldAdditional))
        else pure true)
      return if enough then some load.code else none

def resolveCode (recipient : Address) (code : Bytecode) :
    Op ((GasTracker × World) × AccessRecord) ExecutionError (Option (Bytecode × Address)) :=
  match if host.evm.feature .eip7702 then code.eip7702Address else none with
  | none => pure (some (code, recipient))
  | some delegated => do
    let code ← (if host.evm.feature .eip2780 then chargedDelegation host delegated
      else do
        return some (← noting (fun _ r => r.add delegated)
          (host.session delegated host.delegateSession)))
    return code.map (·, delegated)

def prepareCallFrame (caller recipient : Address) (input : Bytes) (value : Word) :
    Op ((GasTracker × World) × AccessRecord) ExecutionError (Option InitialFrame) := do
  let (recipientIsEmpty, code) ← keeping (host.session recipient host.recipientSession)
  let newAccountStateGas := host.evm.version.gasParams.newAccountStateGas
  let charges := host.evm.feature .eip2780 && decide (value ≠ 0) && recipientIsEmpty
  let enough ← (if charges then keeping (Evm.onGas (·.spendState newAccountStateGas))
    else pure true)
  if !enough then return none
  else
    match ← resolveCode host recipient code with
    | none => return none
    | some (code, codeAddress) =>
      let gas ← keeping (Evm.onGas fun g => (g, g))
      return some ⟨host.frameMessage .call caller recipient input value code codeAddress gas,
        if charges then newAccountStateGas else 0, false⟩

def prepareInitialFrame (caller : Address) (nonce : U64) (recipient : TxKind) (input : Bytes)
    (value : Word) : Op ((GasTracker × World) × AccessRecord) ExecutionError InitialFrame := do
  let budget ← keeping (Evm.onGas fun g => (g, g))
  let frame ← (match recipient with
    | .call a => prepareCallFrame host caller a input value
    | .create => keeping (host.prepareCreateFrame caller nonce input value))
  return frame.getD (host.haltedInitialFrame caller nonce recipient input value budget)

def executeInitialFrame (fuel : Nat) (frame : InitialFrame) (txGas : GasTracker)
    (executionGasLimit reservoir : Nat) : Op TrackedWorld ExecutionError MessageResult :=
  if frame.runtimeOog then pure (runtimeOogResult executionGasLimit reservoir)
  else do
    let result ← Evm.Tracked.executeMessage host.evm fuel frame.message
    return { result with gas := settleInitialFrameGas txGas result frame.chargedStateGas }

/-! ## Authorizations -/

def applyAuthList {σ : Type} (A : AuthAccounting σ) (chainId : Nat) :
    List Authorization → Op ((State × σ) × AccessRecord) DatabaseError Bool
  | [] => pure false
  | auth :: auths => do
    match ← noting (fun _ r => (auth.names chainId).elim r r.add)
        (besideAccounting (validateOneAuth host.evm.db chainId auth)) with
    | none =>
      keeping (Op.update fun sc => (sc.1, A.rejected sc.2))
      applyAuthList A chainId auths
    | some (authority, applied) =>
      if ← keeping (A.runsOut authority applied) then return true
      else
        keeping (besideAccounting
          (State.account host.evm.db authority fun h => ((), h.setDelegation auth.address)))
        applyAuthList A chainId auths

def authorize (prepared : PreparedTx) (tx : TxEip7702) :
    Op ((GasTracker × World) × AccessRecord) ExecutionError (Bool × Nat × Nat) where
  run t :=
    let version := host.evm.version
    let gas := t.1.1
    let w := t.1.2
    if version.feature .eip2780 then
      let charges := RuntimeAuthCharges.new version gas prepared.caller tx.recipient tx.value
      let r := (applyAuthList host RuntimeAuthCharges.accounting version.chainId
        tx.authorizations).run ((w.state, charges), t.2)
      ((r.1.map fun oog => (oog, 0, 0)).mapError .database,
        ((r.2.1.2.gas, { w with state := r.2.1.1 }), r.2.2))
    else
      let r := (applyAuthList host AuthRefunds.accounting version.chainId tx.authorizations).run
        ((w.state, .new version), t.2)
      match r.1 with
      | .error e => (.error (.database e), ((gas, { w with state := r.2.1.1 }), r.2.2))
      | .ok _ =>
        (.ok (false, r.2.1.2.stateRefund, r.2.1.2.executionRefund),
          (({ gas with reservoir := wrapAdd64 gas.reservoir r.2.1.2.stateRefund },
            { w with state := r.2.1.1 }), r.2.2))

/-- The first frame of a transaction with authorizations. If the gas runs out, the accesses since
the checkpoint are forgotten. -/
def authorizedFrame (prepared : PreparedTx) (tx : TxEip7702) (executionGasLimit reservoir : Nat) :
    Op ((GasTracker × World) × AccessRecord) ExecutionError (InitialFrame × Nat × Nat) := do
  let cp ← Evm.Tracked.onWorld (Op.total fun t => (Evm.Tracked.checkpoint t, t))
  let (authOog, stateRefund, executionRefund) ← authorize host prepared tx
  let frame ← (if authOog then
      pure (host.haltedInitialFrame prepared.caller tx.nonce (.call tx.recipient) tx.input tx.value
        (.newWithExecutionGasAndReservoir executionGasLimit reservoir))
    else prepareInitialFrame host prepared.caller prepared.senderNonce (.call tx.recipient)
      tx.input tx.value)
  (if frame.runtimeOog then Evm.Tracked.onWorld (Op.update (Evm.Tracked.rollback host.evm cp))
    else pure ())
  return (frame, stateRefund, executionRefund)

/-! ## Execution -/

def withGas {α : Type} (gas : GasTracker)
    (x : Op ((GasTracker × World) × AccessRecord) ExecutionError α) :
    Op TrackedWorld ExecutionError (α × GasTracker) where
  run t :=
    let r := x.run ((gas, t.1), t.2)
    (r.1.map (·, r.2.1.1), (r.2.1.2, r.2.2))

def executePrepared (fuel : Nat) (tx : TxTerms) (prepared : PreparedTx) :
    Op TrackedWorld ExecutionError TxResult := do
  let host := host.executing prepared tx.blobs
  let (executionGasLimit, reservoir) := initialGasAndReservoir host.evm.version tx.gasLimit.toNat
    prepared.intrinsic prepared.initialStateGas
  let (frame, txGas) ← withGas (.newWithExecutionGasAndReservoir executionGasLimit reservoir)
    (prepareInitialFrame host prepared.caller prepared.senderNonce tx.recipient tx.input tx.value)
  let result ← executeInitialFrame host fuel frame txGas executionGasLimit reservoir
  keeping (host.defaultSettleGas ⟨prepared.caller, prepared.gasPrice, tx.gasLimit.toNat,
    prepared.floorGas, prepared.initialStateGas, 0, result⟩)

def executePreparedEip7702 (fuel : Nat) (tx : TxEip7702) (prepared : PreparedTx) :
    Op TrackedWorld ExecutionError TxResult := do
  let host := host.executing prepared none
  let (executionGasLimit, reservoir) := initialGasAndReservoir host.evm.version tx.gasLimit.toNat
    prepared.intrinsic prepared.initialStateGas
  let ((frame, stateRefund, executionRefund), txGas) ←
    withGas (.newWithExecutionGasAndReservoir executionGasLimit reservoir)
      (authorizedFrame host prepared tx executionGasLimit reservoir)
  let result ← executeInitialFrame host fuel frame txGas executionGasLimit reservoir
  let refunded := clampI64 (result.gas.refunded + toI64 executionRefund)
  keeping (host.defaultSettleGas ⟨prepared.caller, prepared.gasPrice, tx.gasLimit.toNat,
    prepared.floorGas, prepared.initialStateGas, stateRefund,
    { result with gas := { result.gas with refunded := refunded } }⟩)

def handleTx (fuel : Nat) (caller : Address) (tx : TxEnvelope) :
    Op TrackedWorld HandlerError TxResult := do
  let prepared ← keeping (host.prepare caller tx.terms)
  Op.update fun t => (t.1, .start (t.1.state.startSets caller))
  match tx with
  | .eip7702 tx => handling (executePreparedEip7702 host fuel tx prepared)
  | _ => handling (executePrepared host fuel tx.terms prepared)

/-! ## The sets follow the state -/

open Evm.Tracked

variable {host} {w₀ : World} {α : Type}

theorem sim_session {a : Address} {f : Op AccountHandle LoadError α}
    (hm : Op.Moves (AccountHandle.Mutates host.evm.db .any) f)
    (hc : Op.Moves AccountHandle.Cool f) :
    FrameLockstep host.evm w₀ (keeping (host.session a f)) (host.session a f) := by
  refine sim_keeping (Evm.moves_onWorld (World.moves_onState ?_))
    (Evm.moves_onWorld (World.sameWarmth_onState ?_))
  · exact (State.moves_accountWithSkip host.evm.db false hm).mapError _
  · exact (State.moves_sameWarmth_session hc).mapError _

theorem sim_sessionAccess {a : Address} {g : Bool → Op AccountHandle LoadError α}
    (hm : ∀ cold, Op.Moves (AccountHandle.Mutates host.evm.db .any) (g cold))
    (hc : ∀ cold, Op.Moves AccountHandle.Cool (g cold)) :
    FrameLockstep host.evm w₀
      (noting (fun _ r => r.add a) (host.session a (Op.total AccountHandle.warm >>= g)))
      (host.session a (Op.total AccountHandle.warm >>= g)) := by
  refine sim_noting (Evm.moves_onWorld (World.moves_onState ?_)) (notes_onWorld ?_)
  · have hwarm : Op.Moves (AccountHandle.Mutates host.evm.db .any)
        (Op.total AccountHandle.warm : Op AccountHandle LoadError Bool) :=
      AccountHandle.mutates_warm
    exact (State.moves_accountWithSkip host.evm.db false (Op.Moves.bind hwarm hm)).mapError _
  · intro w b w' hrun r hsets hright
    have hwarms := (State.accountWithSkip_warms hc
      (Op.run_mapError_eq_ok (World.onState_ok hrun).1)).1
    refine ⟨?_, hright⟩
    rw [hwarms, ← hsets]
    rfl

theorem sim_chargedDelegation (delegated : Address) :
    FrameLockstep host.evm w₀ (chargedDelegation host delegated)
      (host.chargedDelegation delegated) := by
  refine .bind_same (sim_onGas _) fun enough => .ite (fun _ => sim_frameRet _) fun _ =>
    .bind_same (sim_onGas _) fun remaining => ?_
  refine .bind_same (sim_noting (Evm.moves_onWorld (Evm.moves_loadAccount _ _ _))
    (notes_onWorld (notes_loadAccount _ _ _))) fun access => ?_
  cases access with
  | error reason => exact sim_frameRet _
  | ok load =>
    exact .bind_same (.ite (fun _ => sim_onGas _) fun _ => sim_frameRet _) fun _ =>
      sim_frameRet _

theorem sim_resolveCode (recipient : Address) (code : Bytecode) :
    FrameLockstep host.evm w₀ (resolveCode host recipient code)
      (host.resolveCode recipient code) := by
  unfold resolveCode TxHost.resolveCode
  cases if host.evm.feature .eip7702 then code.eip7702Address else none with
  | none => exact sim_frameRet _
  | some delegated =>
    refine .bind_same (.ite (fun _ => sim_chargedDelegation _) fun _ => ?_) fun code =>
      sim_frameRet _
    refine .bind_same (sim_sessionAccess (fun _ => ?_) fun _ => ?_) fun _ => sim_frameRet _
    · exact fun h => AccountHandle.mutates_loadCode h
    · exact cool_loadCode host.evm.db

theorem sim_prepareCallFrame (caller recipient : Address) (input : Bytes) (value : Word) :
    FrameLockstep host.evm w₀ (prepareCallFrame host caller recipient input value)
      (host.prepareCallFrame caller recipient input value) := by
  refine .bind_same (sim_session (.bind .get fun _ => .bind ?_ fun _ => .ret _)
    (.bind .get fun _ => .bind (cool_loadCode host.evm.db) fun _ => .ret _)) fun r => ?_
  · exact fun h => AccountHandle.mutates_loadCode h
  refine .bind_same (.ite (fun _ => sim_onGas _) fun _ => sim_frameRet _) fun enough =>
    .ite (fun _ => sim_frameRet _) fun _ => ?_
  refine .bind_same (sim_resolveCode recipient r.2) fun code => ?_
  cases code with
  | none => exact sim_frameRet _
  | some code => exact .bind_same (sim_onGas _) fun _ => sim_frameRet _

theorem sim_prepareCreateFrame (caller : Address) (nonce : U64) (input : Bytes) (value : Word) :
    FrameLockstep host.evm w₀ (keeping (host.prepareCreateFrame caller nonce input value))
      (host.prepareCreateFrame caller nonce input value) := by
  have hmoves : ∀ {R : World → World → Prop} [Std.Refl R] [IsTrans World R],
      (∀ a : Address, Op.Moves R (World.onState (State.account host.evm.db a fun h =>
        (!h.tracked.present.elim false fun info => !info.isEmpty, h)))) →
      Op.Moves (Evm.OnSnd R) (host.prepareCreateFrame caller nonce input value) := by
    intro R _ _ hread
    refine .bind (.ite (Evm.moves_onWorld (hread _)) (.ret _)) fun charges => ?_
    refine .bind (.ite (Evm.moves_onGas _) (.ret _)) fun enough => .ite (.ret _) ?_
    exact .bind (Evm.moves_onGas _) fun _ => .ret _
  refine sim_keeping (hmoves (R := World.Runs host.evm .any) fun a => ?_)
    (hmoves (R := World.SameWarmth) fun a => ?_)
  · exact World.moves_onState (State.moves_account host.evm.db fun h => .refl h)
  · exact World.sameWarmth_onState (State.moves_sameWarmth_account fun h => .refl h)

theorem sim_prepareInitialFrame (caller : Address) (nonce : U64) (recipient : TxKind)
    (input : Bytes) (value : Word) :
    FrameLockstep host.evm w₀ (prepareInitialFrame host caller nonce recipient input value)
      (host.prepareInitialFrame caller nonce recipient input value) := by
  refine .bind_same (sim_onGas _) fun budget => .bind_same ?_ fun frame => sim_frameRet _
  cases recipient with
  | call a => exact sim_prepareCallFrame caller a input value
  | create => exact sim_prepareCreateFrame caller nonce input value

theorem sim_executeInitialFrame (hpre : PrecompilesKeep host.evm)
    (h2929 : host.evm.feature .eip2929 = true) (fuel : Nat) (frame : InitialFrame)
    (txGas : GasTracker) (executionGasLimit reservoir : Nat) :
    Lockstep host.evm w₀ (executeInitialFrame host fuel frame txGas executionGasLimit reservoir)
      (host.executeInitialFrame fuel frame txGas executionGasLimit reservoir) :=
  .ite (fun _ => sim_ret _) fun _ =>
    .bind_same (sim_executeMessage hpre h2929 fuel frame.message) fun _ => sim_ret _

/-! ### Authorizations -/

section Authorizations

variable {σ : Type} {s₀ : State}

theorem moves_besideAccounting {x : Op State DatabaseError α}
    (h : Op.Moves (State.Run host.evm.db .any) x) :
    MovesState host.evm Prod.fst (besideAccounting x : Op (State × σ) DatabaseError α) :=
  fun sc _ => .of_run (h sc.1)

def authorityChecks (db : Database) (auth : Authorization) :
    Op AccountHandle LoadError (Option AppliedAuth) := do
  let h ← Op.get
  let code ← (AccountHandle.loadCode db).mapError .database
  if !code.isEmpty && !code.isEip7702 then return none
  else if auth.nonce ≠ h.nonce then return none
  else
    let originalCode ← (AccountHandle.originalCode db).mapError .database
    return some ⟨h.exists' || h.tracked.flags.touched, originalCode.isEip7702, !code.isEmpty,
      decide (auth.address = 0)⟩

omit [Keccak] in
theorem authoritySession_eq (db : Database) (auth : Authorization) :
    authoritySession db auth = Op.total AccountHandle.warm >>= fun _ => authorityChecks db auth :=
  rfl

omit [Keccak] in
theorem moves_authorityChecks {db : Database} {R : AccountHandle → AccountHandle → Prop}
    [Std.Refl R] [IsTrans AccountHandle R] (auth : Authorization)
    (hcode : Op.Moves R ((AccountHandle.loadCode db).mapError LoadError.database))
    (horiginal : Op.Moves R ((AccountHandle.originalCode db).mapError LoadError.database)) :
    Op.Moves R (authorityChecks db auth) :=
  .bind .get fun _ => .bind hcode fun _ => .ite (.ret _) (.ite (.ret _)
    (.bind horiginal fun _ => .ret _))

theorem moves_validateOneAuth (db : Database) (chainId : Nat) (auth : Authorization) :
    Op.Moves (State.Run db .any) (validateOneAuth db chainId auth) := by
  rw [validateOneAuth_eq]
  cases auth.names chainId with
  | none => exact fun s => .refl
  | some authority =>
    refine .bind ((State.moves_accountWithSkip db false ?_).mapError _) fun _ => .ret _
    have hwarm : Op.Moves (AccountHandle.Mutates db .any)
        (Op.total AccountHandle.warm : Op AccountHandle LoadError Bool) :=
      AccountHandle.mutates_warm
    exact Op.Moves.bind hwarm fun _ => moves_authorityChecks auth
      (fun h => AccountHandle.mutates_loadCode h) fun h => AccountHandle.mutates_originalCode h

theorem validateOneAuth_warms {db : Database} {chainId : Nat} {auth : Authorization}
    {s t : State} {r : Option (Address × AppliedAuth)}
    (h : (validateOneAuth db chainId auth).run s = (.ok r, t)) :
    t.warmSets = (auth.names chainId).elim s.warmSets s.warmSets.insertAddress := by
  rw [validateOneAuth_eq] at h
  cases hn : auth.names chainId with
  | none =>
    rw [hn] at h
    cases h
    rfl
  | some authority =>
    rw [hn] at h
    obtain ⟨applied, u, hrun, h⟩ := Op.run_bind_eq_ok h
    cases h
    have hsession := Op.run_mapError_eq_ok hrun
    rw [authoritySession_eq] at hsession
    refine (State.accountWithSkip_warms (fun _ => moves_authorityChecks auth
      (cool_loadCode db) fun h => ?_) hsession).1
    exact ⟨rfl, State.prewarmSet_codeOf db h.tracked.original h.inner, rfl, rfl⟩

/-- A relation between runs on the state beside an accounting. -/
abbrev AuthLockstep (host : TxHost) (s₀ : State)
    (x : Op ((State × σ) × AccessRecord) DatabaseError α) (y : Op (State × σ) DatabaseError α) :
    Prop :=
  Op.Sim (Follows host.evm Prod.fst s₀) (Op.Same (Follows host.evm Prod.fst s₀)) Failed x y

theorem sim_validateOneAuth (chainId : Nat) (auth : Authorization) :
    AuthLockstep host s₀ (σ := σ)
      (noting (fun _ r => (auth.names chainId).elim r r.add)
        (besideAccounting (validateOneAuth host.evm.db chainId auth)))
      (besideAccounting (validateOneAuth host.evm.db chainId auth)) := by
  refine sim_noting (moves_besideAccounting (moves_validateOneAuth _ _ _)) ?_
  intro sc applied sc' hrun r hsets hright
  obtain ⟨happlied, rfl⟩ := Prod.mk.inj hrun
  have hwarms := validateOneAuth_warms (Prod.ext happlied rfl :
    (validateOneAuth host.evm.db chainId auth).run sc.1 = (.ok applied, _))
  cases hn : auth.names chainId with
  | none =>
    rw [hn] at hwarms
    exact ⟨hsets.trans hwarms.symm, hright⟩
  | some authority =>
    rw [hn] at hwarms
    refine ⟨?_, hright⟩
    show r.sets.insertAddress authority = _
    rw [hsets]
    exact hwarms.symm

theorem sim_applyAuthList (host : TxHost) (s₀ : State) (A : AuthAccounting σ) (chainId : Nat)
    (auths : List Authorization) :
    AuthLockstep host s₀ (applyAuthList host A chainId auths)
      (Evm2.applyAuthList host.evm.db A chainId auths) := by
  induction auths with
  | nil => exact .ret_same _ fun _ _ h => h
  | cons auth auths ih =>
    refine .bind_same (sim_validateOneAuth chainId auth) fun checked => ?_
    cases checked with
    | none =>
      refine .bind_same (sim_keeping (fun sc _ => .refl sc.1) fun sc => .refl sc.1) fun _ => ih
    | some checked =>
      refine .bind_same (sim_keeping (fun sc _ => .refl sc.1) fun sc => .refl sc.1) fun oog =>
        .ite (fun _ => .ret_same _ fun _ _ h => h) fun _ => ?_
      refine .bind_same (sim_keeping ?_ ?_) fun _ => ih
      · exact moves_besideAccounting (State.moves_account host.evm.db fun h =>
          AccountHandle.mutates_setDelegation h _)
      · exact fun sc => State.moves_sameWarmth_account (f := fun h => ((), h.setDelegation _))
          (fun h => AccountHandle.cool_setDelegation h _) sc.1

theorem sim_authorize (prepared : PreparedTx) (tx : TxEip7702) :
    FrameLockstep host.evm w₀ (authorize host prepared tx) (host.authorize prepared tx) := by
  rintro ⟨⟨gas, w⟩, r⟩ _ ⟨rfl, hruns, hnz, hsets, hright⟩
  unfold authorize TxHost.authorize authorizationPhase
  dsimp only
  by_cases h2780 : host.evm.version.feature .eip2780 = true
  · simp only [if_pos h2780]
    have hends := sim_applyAuthList host w₀.state RuntimeAuthCharges.accounting
      host.evm.version.chainId tx.authorizations
      ((w.state, .new host.evm.version gas prepared.caller tx.recipient tx.value), r) (w.state, _)
      ⟨rfl, hruns, hnz, hsets, hright⟩
    generalize (applyAuthList host RuntimeAuthCharges.accounting host.evm.version.chainId
      tx.authorizations).run _ = r₁ at hends ⊢
    generalize (Evm2.applyAuthList host.evm.db RuntimeAuthCharges.accounting
      host.evm.version.chainId tx.authorizations).run _ = r₂ at hends ⊢
    cases hends with
    | ok h' =>
      obtain ⟨rfl, rfl, hruns', hnz', hsets', hright'⟩ := h'
      exact .ok ⟨rfl, rfl, hruns', hnz', hsets', hright'⟩
    | error h' =>
      obtain ⟨rfl, hright'⟩ := h'
      exact .error ⟨rfl, hright'⟩
  · simp only [if_neg h2780]
    have hends := sim_applyAuthList host w₀.state AuthRefunds.accounting
      host.evm.version.chainId tx.authorizations ((w.state, .new host.evm.version), r) (w.state, _)
      ⟨rfl, hruns, hnz, hsets, hright⟩
    generalize (applyAuthList host AuthRefunds.accounting host.evm.version.chainId
      tx.authorizations).run _ = r₁ at hends ⊢
    generalize (Evm2.applyAuthList host.evm.db AuthRefunds.accounting
      host.evm.version.chainId tx.authorizations).run _ = r₂ at hends ⊢
    cases hends with
    | ok h' =>
      obtain ⟨rfl, rfl, hruns', hnz', hsets', hright'⟩ := h'
      exact .ok ⟨rfl, rfl, hruns', hnz', hsets', hright'⟩
    | error h' =>
      obtain ⟨rfl, hright'⟩ := h'
      exact .error ⟨rfl, hright'⟩

end Authorizations

theorem sim_authorizedFrame (prepared : PreparedTx) (tx : TxEip7702)
    (executionGasLimit reservoir : Nat) :
    FrameLockstep host.evm w₀ (authorizedFrame host prepared tx executionGasLimit reservoir)
      (host.authorizedFrame prepared tx executionGasLimit reservoir) := by
  refine sim_frameCheckpoint fun w hnz => ?_
  refine .bind_same (sim_authorize prepared tx) fun r => ?_
  refine .bind_same (.ite (fun _ => sim_frameRet _) fun _ => sim_prepareInitialFrame _ _ _ _ _)
    fun frame => .bind_same (.ite (fun _ => ?_) fun _ => sim_frameRet _) fun _ => sim_frameRet _
  exact sim_onWorld (sim_rollback hnz)

/-! ### Execution -/

theorem sim_withGas {x : Op ((GasTracker × World) × AccessRecord) ExecutionError α}
    {y : Op (GasTracker × World) ExecutionError α} (h : FrameLockstep host.evm w₀ x y)
    (gas : GasTracker) :
    Lockstep host.evm w₀ (withGas gas x) (TxHost.withGas gas y) := by
  rintro ⟨w, r⟩ _ ⟨rfl, hruns, hnz, hsets, hright⟩
  have hends := h ((gas, w), r) (gas, w) ⟨rfl, hruns, hnz, hsets, hright⟩
  unfold withGas TxHost.withGas
  dsimp only
  generalize x.run ((gas, w), r) = r₁ at hends ⊢
  generalize y.run (gas, w) = r₂ at hends ⊢
  cases hends with
  | ok h' =>
    obtain ⟨rfl, rfl, hruns', hnz', hsets', hright'⟩ := h'
    exact .ok ⟨rfl, rfl, hruns', hnz', hsets', hright'⟩
  | error h' =>
    obtain ⟨rfl, hright'⟩ := h'
    exact .error ⟨rfl, hright'⟩

theorem sim_defaultSettleGas (settlement : GasSettlement) :
    Lockstep host.evm w₀ (keeping (host.defaultSettleGas settlement))
      (host.defaultSettleGas settlement) := by
  have hmoves : ∀ {R : World → World → Prop} [Std.Refl R] [IsTrans World R],
      (∀ a amount, Op.Moves R (host.credit a amount)) →
      Op.Moves R (host.defaultSettleGas settlement) := by
    intro R _ _ hcredit
    exact .bind (.ite (.bind (hcredit _ _) fun _ => hcredit _ _) (.ret _)) fun _ => .ret _
  refine sim_keeping (hmoves (R := World.Runs host.evm .any) fun a amount => ?_)
    (hmoves (R := World.SameWarmth) fun a amount => ?_)
  · exact World.moves_noting (State.moves_account host.evm.db fun h =>
      AccountHandle.mutates_addBalance h amount)
  · exact World.sameWarmth_noting (State.moves_sameWarmth_account fun h =>
      AccountHandle.cool_addBalance h amount)

theorem sim_executePrepared {prepared : PreparedTx} {tx : TxTerms}
    (hpre : PrecompilesKeep (host.executing prepared tx.blobs).evm)
    (h2929 : host.evm.feature .eip2929 = true) (fuel : Nat) :
    Lockstep (host.executing prepared tx.blobs).evm w₀ (executePrepared host fuel tx prepared)
      (host.executePrepared fuel tx prepared) := by
  unfold executePrepared TxHost.executePrepared
  dsimp only
  exact .bind_same (sim_withGas (sim_prepareInitialFrame _ _ _ _ _) _) fun r =>
    .bind_same (sim_executeInitialFrame hpre h2929 fuel r.1 r.2 _ _) fun result =>
      sim_defaultSettleGas _

theorem sim_executePreparedEip7702 {prepared : PreparedTx} {tx : TxEip7702}
    (hpre : PrecompilesKeep (host.executing prepared none).evm)
    (h2929 : host.evm.feature .eip2929 = true) (fuel : Nat) :
    Lockstep (host.executing prepared none).evm w₀ (executePreparedEip7702 host fuel tx prepared)
      (host.executePreparedEip7702 fuel tx prepared) := by
  unfold executePreparedEip7702 TxHost.executePreparedEip7702
  dsimp only
  exact .bind_same (sim_withGas (sim_authorizedFrame _ _ _ _) _) fun r =>
    .bind_same (sim_executeInitialFrame hpre h2929 fuel r.1.1 r.2 _ _) fun result =>
      sim_defaultSettleGas _

end TxHost.Tracked

/-! ## The start of a transaction -/

/-- The overlay between transactions: there is nothing to clear. -/
def State.Idle (s : State) : Prop := s.clearTransactionState = s

namespace State

variable {s t : State}

theorem Idle.accounts (h : s.Idle) : s.accounts = ∅ := by
  rw [← h]
  rfl

theorem Idle.nonzero (h : s.Idle) : s.TransientNonzero := by
  rw [← h]
  intro key hk
  cases hk

theorem Idle.prewarmSet (h : s.Idle) : s.prewarmSet = .new := by
  rw [← h]
  rfl

theorem Idle.isWarm (h : s.Idle) (a : Address) : s.isWarm a = false := by
  rw [isWarm_none (by rw [h.accounts]; rfl), h.prewarmSet, PrewarmSet.isWarm_new]

theorem Idle.isStorageWarm (h : s.Idle) (a : Address) (key : Word) :
    s.isStorageWarm a key = false := by
  rw [isStorageWarm_none (by rw [h.accounts]; rfl), h.prewarmSet, PrewarmSet.isStorageWarm_new]

theorem isWarm_prewarmed (hs : s.prewarmSet = .new) (ha : t.accounts = s.accounts) (a : Address) :
    t.isWarm a = (s.isWarm a || t.prewarmSet.isWarm a) := by
  simp only [isWarm, ha, hs, PrewarmSet.isWarm_new, Bool.or_false]

theorem isStorageWarm_prewarmed (hs : s.prewarmSet = .new) (ha : t.accounts = s.accounts)
    (a : Address) (key : Word) :
    t.isStorageWarm a key = (s.isStorageWarm a key || t.prewarmSet.isStorageWarm a key) := by
  simp only [isStorageWarm, ha, hs, PrewarmSet.isStorageWarm_new, Bool.or_false]

end State

namespace TxHost

variable [Keccak] {host : TxHost}

omit [Keccak] in
theorem senderSession_warm {nonce n : U64} {maxUpfront : Word} {h h' : AccountHandle}
    (hrun : (host.senderSession nonce maxUpfront).run h = (.ok (.ok n), h')) :
    h'.isWarm = true := by
  obtain ⟨h₀, _, -, hrun⟩ := Op.run_bind_eq_ok hrun
  obtain ⟨hasCode, h₁, -, hrun⟩ := Op.run_bind_eq_ok hrun
  by_cases hcode : hasCode = true
  · rw [if_pos hcode] at hrun
    cases hrun
  rw [if_neg hcode] at hrun
  by_cases hnonce : host.evm.feature .nonceCheck = true ∧ h₀.nonce ≠ nonce
  · rw [if_pos hnonce] at hrun
    cases hrun
  rw [if_neg hnonce] at hrun
  by_cases hbalance : host.evm.feature .balanceCheck = true ∧ h₀.balance < maxUpfront
  · rw [if_pos hbalance] at hrun
    cases hrun
  rw [if_neg hbalance] at hrun
  obtain ⟨_, h₂, -, hrun⟩ := Op.run_bind_eq_ok hrun
  obtain ⟨_, h₃, hwarm, hrun⟩ := Op.run_bind_eq_ok hrun
  obtain ⟨_, h₄, hbump, hrun⟩ := Op.run_bind_eq_ok hrun
  cases hwarm
  cases hbump
  cases hrun
  rw [(AccountHandle.cool_bumpNonce _).isWarm, AccountHandle.isWarm_warm]

theorem validateSender_warm {caller : Address} {nonce n : U64} {maxUpfront : Word} {w u : World}
    (hidle : w.state.Idle)
    (h : (host.validateSenderAndBumpNonce caller nonce maxUpfront).run w = (.ok n, u)) :
    u.state.prewarmSet = .new ∧ (∀ b, u.state.isWarm b = decide (b = caller)) ∧
      ∀ b key, u.state.isStorageWarm b key = false := by
  obtain ⟨checked, v, hrun, h⟩ := Op.run_bind_eq_ok h
  obtain ⟨rfl, rfl⟩ := Prod.mk.inj h
  have hsession := Op.run_mapError_eq_ok (World.onState_ok (Op.run_mapError_eq_ok hrun)).1
  have hrest : Op.Moves AccountHandle.SameRest (host.senderSession nonce maxUpfront) :=
    fun h => (mutates_senderSession (P := .any) nonce maxUpfront h).sameRest
  obtain ⟨hp, hd, h', hsender, -, haccounts, hslots⟩ :=
    State.accountWithSkip_session hrest hsession
  refine ⟨hp.trans hidle.prewarmSet, fun b => ?_, fun b key => ?_⟩
  · rw [haccounts b, senderSession_warm hsender, hidle.isWarm]
    by_cases hb : b = caller
    · simp [hb]
    · simp [hb]
  · rw [hslots b key, hidle.isStorageWarm]

theorem sameWarmth_chargeUpfront (host : TxHost) (caller : Address) (fee : Word) :
    Op.Moves World.SameWarmth (host.chargeUpfront caller fee) := by
  intro w
  unfold chargeUpfront
  split_ifs
  · exact State.moves_sameWarmth_account (f := fun h => ((), h.setBalance (h.balance.satSub fee)))
      (fun h => AccountHandle.cool_setBalance h _) w.state
  · exact .refl w.state

theorem warmSets_prepare {caller : Address} {tx : TxTerms} {w w' : World} {prepared : PreparedTx}
    (hidle : w.state.Idle) (h : (host.prepare caller tx).run w = (.ok prepared, w')) :
    w'.state.TransientNonzero ∧ w'.state.warmSets = w'.state.startSets caller := by
  obtain ⟨-, u, hsender, hcharge, -⟩ := prepare_ok h
  obtain ⟨hp, haddresses, hslots⟩ := validateSender_warm hidle hsender
  have hwarm := onlyPrewarms_warm host tx.recipient tx.accessList u.state
  generalize warmAccessList tx.accessList (host.warmBaseAccounts tx.recipient u.state) = v
    at hcharge hwarm
  have hrun : State.Run host.evm.db .any w.state u.state := by
    have := moves_validateSender (P := .any) host caller tx.nonce tx.maxUpfront w
    rwa [hsender] at this
  have hcharged : State.Run host.evm.db .any v w'.state := by
    have := moves_chargeUpfront (P := .any) host caller
      (tx.upfrontFee host.evm.block) { u with state := v }
    rwa [hcharge] at this
  have hsame : State.SameWarmth v w'.state := by
    have := sameWarmth_chargeUpfront host caller (tx.upfrontFee host.evm.block)
      { u with state := v }
    rwa [hcharge] at this
  have hnz : v.TransientNonzero := by
    intro key
    rw [hwarm.transientStorage]
    exact ((State.Runs.of_run (k := false) hrun).journals hidle.nonzero).nonzero key
  have hjournals := (State.Runs.of_run (k := false) hcharged).journals hnz
  refine ⟨hjournals.nonzero, ?_⟩
  rw [hsame.warmSets]
  unfold State.warmSets State.startSets
  rw [hjournals.prewarmSet]
  congr 1
  · ext b
    show v.isWarm b = true ↔ b = caller ∨ v.prewarmSet.isWarm b = true
    rw [State.isWarm_prewarmed hp hwarm.accounts, haddresses]
    simp
  · ext ⟨b, key⟩
    show v.isStorageWarm b key = true ↔ v.prewarmSet.isStorageWarm b key = true
    rw [State.isStorageWarm_prewarmed hp hwarm.accounts, hslots, Bool.false_or]

end TxHost

/-! ## The sets follow the state through a transaction -/

section Transactions

open Evm.Tracked

variable [Keccak]

/-- **The sets follow the state through a transaction** from an idle overlay. -/
theorem TxHost.Tracked.sim_handleTx {host : TxHost} (hpre : PrecompilesKeep host.evm)
    (h2929 : host.evm.feature .eip2929 = true) (fuel : Nat) (caller : Address) (tx : TxEnvelope) :
    Op.Sim (fun t w => t.1 = w ∧ w.state.Idle ∧ t.2.Right)
      (Op.Same fun t w => t.1 = w ∧ t.2.sets = w.state.warmSets ∧ t.2.Right) Failed
      (handleTx host fuel caller tx) (host.handleTx fuel caller tx) := by
  rintro ⟨w, r⟩ _ ⟨rfl, hidle, hright⟩
  unfold handleTx TxHost.handleTx
  rcases hprepare : (host.prepare caller tx.terms).run w with ⟨e | prepared, w'⟩
  · have hkeep : (keeping (host.prepare caller tx.terms)).run (w, r) = (.error e, (w', r)) := by
      simp only [keeping, noting, hprepare]
    rw [Op.run_bind_error hkeep, Op.run_bind_error hprepare]
    exact .error ⟨rfl, hright⟩
  · have hkeep : (keeping (host.prepare caller tx.terms)).run (w, r) = (.ok prepared, (w', r)) := by
      simp only [keeping, noting, hprepare]
    rw [Op.run_bind_ok hkeep, Op.run_bind_ok hprepare, Op.run_bind_ok (Op.run_update _ _)]
    obtain ⟨hnz, hsets⟩ := warmSets_prepare hidle hprepare
    have hstart : ∀ evm : Evm, Follows evm World.state w'.state
        (w', .start (w'.state.startSets caller)) w' :=
      fun evm => ⟨rfl, .refl _, hnz, hsets.symm, nofun⟩
    have hends : ∀ {evm : Evm} {x : Op TrackedWorld ExecutionError TxResult}
        {y : Op World ExecutionError TxResult}, Lockstep evm w' x y →
        Op.Ends (Op.Same fun t w => t.1 = w ∧ t.2.sets = w.state.warmSets ∧ t.2.Right) Failed
          ((handling x).run (w', .start (w'.state.startSets caller))) ((handling y).run w') := by
      intro evm x y h
      refine (h.mapError _).mono (fun _ _ h => h) ?_ (fun _ _ h => h) _ _ (hstart evm)
      rintro a b t s ⟨hab, hf⟩
      exact ⟨hab, hf.fst, hf.sets, hf.right⟩
    have hplain : ∀ tx : TxTerms, Lockstep (host.executing prepared tx.blobs).evm w'
        (executePrepared host fuel tx prepared) (host.executePrepared fuel tx prepared) :=
      fun tx => sim_executePrepared ⟨hpre.runs, hpre.sameWarmth⟩ h2929 fuel
    cases tx with
    | legacy tx | eip2930 tx | eip1559 tx | eip4844 tx => exact hends (hplain _)
    | eip7702 tx =>
      have hpre' : PrecompilesKeep (host.executing prepared none).evm :=
        ⟨hpre.runs, hpre.sameWarmth⟩
      exact hends (sim_executePreparedEip7702 hpre' h2929 fuel)

/-- **Access warmth follows the access sets.** Two plain sets kept beside a transaction, which
accesses add to and a frame that fails restores, tell which accesses are reported as cold. -/
theorem access_warmth_follows_sets {host : TxHost} (hpre : PrecompilesKeep host.evm)
    (h2929 : host.evm.feature .eip2929 = true) (fuel : Nat) (caller : Address) (tx : TxEnvelope)
    {w : World} (hidle : w.state.Idle) :
    let tracked := (TxHost.Tracked.handleTx host fuel caller tx).run (w, .start .empty)
    let run := (host.handleTx fuel caller tx).run w
    (tracked.1 = run.1 ∧ tracked.2.1 = run.2 ∧
      (∀ x ∈ tracked.2.2.accesses, x.isCold = true ↔ x.absent) ∧
      ∀ result, run.1 = .ok result → tracked.2.2.sets = run.2.state.warmSets) ∧
    (∀ a, Op.Moves State.SameWarmth (State.accountInfoUntracked host.evm.db a)) ∧
    (∀ a, Op.Moves State.SameWarmth (State.codeUntracked host.evm.db a)) ∧
    (∀ a key, Op.Moves State.SameWarmth (State.storageSlotUntracked host.evm.db a key)) ∧
    (∀ a skip, Op.Moves State.SameWarmth (State.accountRawWithSkip host.evm.db a skip)) ∧
    ∀ src dst value, Op.Moves State.SameWarmth (State.transfer host.evm.db src dst value) := by
  intro tracked run
  refine ⟨?_, State.moves_sameWarmth_accountInfoUntracked, State.moves_sameWarmth_codeUntracked,
    State.moves_sameWarmth_storageSlotUntracked,
    fun a skip s => (State.accountRaw_sameWarmth _ a skip s).1, State.moves_sameWarmth_transfer⟩
  have hends := TxHost.Tracked.sim_handleTx hpre h2929 fuel caller tx (w, .start .empty) w
    ⟨rfl, hidle, nofun⟩
  change Op.Ends _ _ tracked run at hends
  generalize tracked = r₁ at hends ⊢
  generalize run = r₂ at hends ⊢
  cases hends with
  | ok h =>
    obtain ⟨rfl, hw, hsets, hright⟩ := h
    exact ⟨rfl, hw, hright, fun _ _ => hsets⟩
  | error h => exact ⟨rfl, h.fst, h.right, nofun⟩

end Transactions

def berlinHost [Keccak] : TxHost where
  evm := { Evm.bare with version := .base .berlin }
  specId := .berlin
  registry := ethereumTxRegistry .berlin
  warmPrecompiles := id

def balanceReader : TxEnvelope := .legacy
  { chainId := some 1
    nonce := 0
    gasPrice := 0
    gasLimit := 100000
    recipient := .create
    value := 0
    input := [0x60#8, 0x07#8, 0x31#8, 0x60#8, 0x07#8, 0x31#8, 0x00#8] }

/-- The first access is cold and the second one is not. -/
theorem access_warmth_follows_sets_balance :
    letI := Keccak.telling
    let tracked := (TxHost.Tracked.handleTx berlinHost 20 2 balanceReader).run
      (.ofState .new, .start .empty)
    tracked.2.2.accesses.map Access.isCold = [false, true] ∧
      ∀ x ∈ tracked.2.2.accesses, x.isCold = true ↔ x.absent := by
  let _ := Keccak.telling
  have hpre : Evm.Tracked.PrecompilesKeep berlinHost.evm :=
    ⟨fun _ gs => .refl gs.2, fun _ gs => .refl gs.2⟩
  exact ⟨by decide +kernel, (access_warmth_follows_sets hpre (by decide) 20 2 balanceReader
    (w := .ofState .new) rfl).1.2.2.1⟩

end Evm2
