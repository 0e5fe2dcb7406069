import Evm2.Ethereum.Transaction
import Evm2.State.Finalize

/-!
# Transaction handlers

The handlers of the Ethereum transaction types with their default hooks.

Each handler is the common definition applied to the terms of its transactions.
-/

namespace Evm2

/-- What a handler reads of its host. -/
structure TxHost where
  evm : Evm
  specId : SpecId
  /-- The type bytes that have a handler. -/
  registry : Nat → Bool
  /-- `PrecompileProvider::warm_addresses`. -/
  warmPrecompiles : PrewarmSet → PrewarmSet

def ethereumTxRegistry (spec : SpecId) : Nat → Bool
  | 0 => true
  | 1 => spec.enables .berlin
  | 2 => spec.enables .london
  | 3 => spec.enables .cancun
  | 4 => spec.enables .prague
  | _ => false

structure PreparedTx where
  caller : Address
  gasPrice : Word
  intrinsic : Nat
  initialStateGas : Nat
  floorGas : Nat
  senderNonce : U64
  deriving DecidableEq, Repr

structure InitialFrame where
  message : Message
  chargedStateGas : Nat
  runtimeOog : Bool

structure GasSettlement where
  caller : Address
  gasPrice : Word
  gasLimit : Nat
  floorGas : Nat
  initialStateGas : Nat
  stateRefund : Nat
  result : MessageResult

structure TxResult where
  status : Bool
  totalGasSpent : Nat
  stateGasSpent : Nat
  refunded : Nat
  floorGas : Nat
  stop : InstrStop
  output : Bytes
  createdAddress : Option Address
  logs : List Log

namespace TxResult

variable (r : TxResult)

def txGasUsed : Nat := max (r.totalGasSpent - r.refunded) r.floorGas

end TxResult

def handling {σ α : Type} (x : Op σ ExecutionError α) : Op σ HandlerError α :=
  x.mapError .ofExecution

/-! ## Gas -/

def initialGasAndReservoir (version : Version) (txGasLimit intrinsic initialStateGas : Nat) :
    Nat × Nat :=
  if version.feature .eip8037 then
    let executionGas := txGasLimit - intrinsic
    let executionGasLimit := min txGasLimit version.txGasLimitCap - intrinsic
    let reservoir := executionGas - executionGasLimit
    if initialStateGas ≤ reservoir then (executionGasLimit, reservoir - initialStateGas)
    else (executionGasLimit - (initialStateGas - reservoir), 0)
  else (txGasLimit - intrinsic, 0)

def settleInitialFrameGas (txGas : GasTracker) (result : MessageResult) (chargedStateGas : Nat) :
    GasTracker :=
  let gas := txGas.spendAll.mergeChildGas result.gas result.stop
  if chargedStateGas ≠ 0 ∧ !result.isSuccess then
    let gas := gas.refillReservoir chargedStateGas
    if result.stop.isHalt then gas.spendAll else gas
  else gas

def runtimeOogResult (executionGasLimit reservoir : Nat) : MessageResult :=
  ⟨.outOfGas, .newSpentWithReservoir executionGasLimit reservoir, [], none⟩

def gasSpentBreakdown (txGasLimit : Nat) (gas : GasTracker) (initialStateGas : Nat) : Nat × Nat :=
  (txGasLimit - gas.remaining - gas.reservoir,
    (max (clampI64 (gas.stateGasSpent + initialStateGas)) 0).toNat)

def finalizeGas (version : Version) (settlement : GasSettlement) : TxResult :=
  let result := settlement.result
  let (totalGasSpent, stateGasSpent) :=
    gasSpentBreakdown settlement.gasLimit result.gas settlement.initialStateGas
  { status := result.isSuccess
    totalGasSpent
    stateGasSpent := stateGasSpent - settlement.stateRefund
    refunded :=
      result.finalRefund settlement.gasLimit (version.gasParams.get .maxRefundQuotient)
    floorGas := settlement.floorGas
    stop := result.stop
    output := result.output
    createdAddress := result.createdAddress
    logs := [] }

namespace TxHost

variable [Keccak] (host : TxHost)

/-! ## Before the execution -/

def senderSession (nonce : U64) (maxUpfront : Word) :
    Op AccountHandle LoadError (Except HandlerError U64) := do
  let hasBalanceCheck := host.evm.feature .balanceCheck
  let h ← Op.get
  let hasCode ← (if host.evm.feature .eip3607 && !h.isEmptyCodeHash then do
      let code ← (AccountHandle.loadCode host.evm.db).mapError .database
      return !code.isEmpty && !code.isEip7702
    else pure false)
  if hasCode then return .error .rejectCallerWithCode
  else if host.evm.feature .nonceCheck ∧ h.nonce ≠ nonce then
    return .error (.invalidNonce h.nonce nonce)
  else if hasBalanceCheck ∧ h.balance < maxUpfront then
    return .error (.insufficientFunds maxUpfront h.balance)
  else
    (if !hasBalanceCheck ∧ host.evm.feature .balanceTopUp ∧ h.balance < maxUpfront then
        Op.update fun h => h.addBalance (maxUpfront - h.balance)
      else pure ())
    let _ ← Op.total AccountHandle.warm
    let _ ← Op.total AccountHandle.bumpNonce
    return .ok h.nonce

def validateSenderAndBumpNonce (caller : Address) (nonce : U64) (maxUpfront : Word) :
    Op World HandlerError U64 := do
  let checked ← handling (World.onState ((State.accountWithSkip host.evm.db caller false
    (host.senderSession nonce maxUpfront)).mapError State.loadErrorToDatabase))
  Op.ofExcept checked

def warmBaseAccounts (recipient : TxKind) (s : State) : State :=
  let s := if host.evm.feature .eip3651 then s.prewarm host.evm.block.beneficiary else s
  let s := match recipient with
    | .call a => s.prewarm a
    | .create => s
  { s with inner := { s.inner with prewarmSet := host.warmPrecompiles s.prewarmSet } }

def warmAccessList (accessList : AccessList) (s : State) : State :=
  accessList.foldl (fun s item => s.prewarmStorage item.1 item.2) s

def chargeUpfront (caller : Address) (fee : Word) : Op World HandlerError Unit :=
  if host.evm.feature .feeCharge then
    handling (World.noting host.evm.db caller (fun _ before after => after + fee.toNat == before)
      (State.account host.evm.db caller fun h => ((), h.setBalance (Word.satSub h.balance fee))))
  else pure ()

def prepare (caller : Address) (tx : TxTerms) : Op World HandlerError PreparedTx := do
  Op.ofExcept (tx.validate host.evm.version host.evm.block caller)
  let senderNonce ← host.validateSenderAndBumpNonce caller tx.nonce tx.maxUpfront
  Op.update fun w => { w with
    state := warmAccessList tx.accessList (host.warmBaseAccounts tx.recipient w.state) }
  host.chargeUpfront caller (tx.upfrontFee host.evm.block)
  let (intrinsic, floorGas) := tx.intrinsicAndFloor host.evm.version caller
  return ⟨caller, tx.gasPrice host.evm.block, intrinsic, TxTerms.initialStateGas, floorGas,
    senderNonce⟩

def prepareEip7702 (caller : Address) (tx : TxEip7702) : Op World HandlerError PreparedTx :=
  host.prepare caller tx.terms

/-! ## The first frame -/

def haltedInitialFrame (caller : Address) (nonce : U64) (recipient : TxKind) (input : Bytes)
    (value : Word) (budget : GasTracker) : InitialFrame :=
  let (kind, destination) := match recipient with
    | .call a => (MessageKind.call, a)
    | .create => (.create, caller.create nonce)
  { message := { Message.default with
      kind
      depth := host.evm.version.initialCallDepth
      gasLimit := budget.remaining
      reservoir := budget.reservoir
      destination
      callTarget := destination
      caller
      input
      value
      codeAddress := destination }
    chargedStateGas := 0
    runtimeOog := true }

def frameMessage (kind : MessageKind) (caller destination : Address) (input : Bytes) (value : Word)
    (code : Bytecode) (codeAddress : Address) (gas : GasTracker) : Message where
  kind := kind
  depth := host.evm.version.initialCallDepth
  gasLimit := gas.remaining
  reservoir := gas.reservoir
  destination := destination
  callTarget := destination
  caller := caller
  input := input
  value := value
  code := code
  codeAddress := codeAddress
  callerIsStatic := false
  salt := 0

def recipientSession : Op AccountHandle LoadError (Bool × Bytecode) := do
  let h ← Op.get
  let code ← (AccountHandle.loadCode host.evm.db).mapError .database
  return (h.tracked.present.elim true AccountInfo.isEmpty, code)

def delegateSession : Op AccountHandle LoadError Bytecode := do
  let _ ← Op.total AccountHandle.warm
  (AccountHandle.loadCode host.evm.db).mapError .database

def session {α : Type} (a : Address) (f : Op AccountHandle LoadError α) :
    Op (GasTracker × World) ExecutionError α :=
  Evm.onWorld (World.onState
    ((State.accountWithSkip host.evm.db a false f).mapError State.loadErrorToDatabase))

def WARM_STORAGE_READ_COST : Nat := 100

/-- The code of a delegation target whose access is charged for, `none` if the gas runs out: the
warm cost before the load and the cold premium after it. -/
def chargedDelegation (delegated : Address) :
    Op (GasTracker × World) ExecutionError (Option Bytecode) := do
  let coldAdditional := host.evm.version.gasParams.coldAccountAdditionalCost
  if !(← Evm.onGas (·.spend WARM_STORAGE_READ_COST)) then return none
  else
    let remaining ← Evm.onGas fun g => (g.remaining, g)
    match ← Evm.onWorld (host.evm.loadAccount delegated true (decide (remaining < coldAdditional)))
      with
    | .error _ => return none
    | .ok load =>
      let enough ← (if load.isCold then Evm.onGas (·.spend coldAdditional) else pure true)
      return if enough then some load.code else none

def resolveCode (recipient : Address) (code : Bytecode) :
    Op (GasTracker × World) ExecutionError (Option (Bytecode × Address)) :=
  match if host.evm.feature .eip7702 then code.eip7702Address else none with
  | none => pure (some (code, recipient))
  | some delegated => do
    let code ← (if host.evm.feature .eip2780 then host.chargedDelegation delegated
      else do return some (← host.session delegated host.delegateSession))
    return code.map (·, delegated)

def prepareCallFrame (caller recipient : Address) (input : Bytes) (value : Word) :
    Op (GasTracker × World) ExecutionError (Option InitialFrame) := do
  let (recipientIsEmpty, code) ← host.session recipient host.recipientSession
  let newAccountStateGas := host.evm.version.gasParams.newAccountStateGas
  let charges := host.evm.feature .eip2780 && decide (value ≠ 0) && recipientIsEmpty
  let enough ← (if charges then Evm.onGas (·.spendState newAccountStateGas) else pure true)
  if !enough then return none
  else
    match ← host.resolveCode recipient code with
    | none => return none
    | some (code, codeAddress) =>
      let gas ← Evm.onGas fun g => (g, g)
      return some ⟨host.frameMessage .call caller recipient input value code codeAddress gas,
        if charges then newAccountStateGas else 0, false⟩

def prepareCreateFrame (caller : Address) (nonce : U64) (input : Bytes) (value : Word) :
    Op (GasTracker × World) ExecutionError (Option InitialFrame) := do
  let destination := caller.create nonce
  let createStateGas := host.evm.version.gasParams.createStateGas
  let charges ← (if host.evm.feature .eip8037 then
      Evm.onWorld (World.onState (State.account host.evm.db destination fun h =>
        (!h.tracked.present.elim false fun info => !info.isEmpty, h)))
    else pure false)
  let enough ← (if charges then Evm.onGas (·.spendState createStateGas) else pure true)
  if !enough then return none
  else
    let gas ← Evm.onGas fun g => (g, g)
    return some ⟨host.frameMessage .create caller destination input value (.newLegacy input)
      destination gas, if charges then createStateGas else 0, false⟩

def prepareInitialFrame (caller : Address) (nonce : U64) (recipient : TxKind) (input : Bytes)
    (value : Word) : Op (GasTracker × World) ExecutionError InitialFrame := do
  let budget ← Evm.onGas fun g => (g, g)
  let frame ← (match recipient with
    | .call a => host.prepareCallFrame caller a input value
    | .create => host.prepareCreateFrame caller nonce input value)
  return frame.getD (host.haltedInitialFrame caller nonce recipient input value budget)

def executeInitialFrame (fuel : Nat) (frame : InitialFrame) (txGas : GasTracker)
    (executionGasLimit reservoir : Nat) : Op World ExecutionError MessageResult :=
  if frame.runtimeOog then pure (runtimeOogResult executionGasLimit reservoir)
  else do
    let result ← host.evm.executeMessage fuel frame.message
    return { result with gas := settleInitialFrameGas txGas result frame.chargedStateGas }

/-! ## Settlement -/

def credit (a : Address) (amount : Word) : Op World ExecutionError Unit :=
  World.noting host.evm.db a (fun _ before after => after == before + amount.toNat)
    (State.account host.evm.db a fun h => ((), h.addBalance amount))

def beneficiaryGasPrice (gasPrice : Word) : Word :=
  if host.specId.enables .london then gasPrice.satSub host.evm.block.basefee else gasPrice

def defaultSettleGas (settlement : GasSettlement) : Op World ExecutionError TxResult := do
  let result := finalizeGas host.evm.version settlement
  (if host.evm.feature .feeCharge then do
      let gasUsed := result.txGasUsed
      host.credit settlement.caller
        (BitVec.ofNat 256 (settlement.gasLimit - gasUsed) * settlement.gasPrice)
      host.credit host.evm.block.beneficiary
        (BitVec.ofNat 256 gasUsed * host.beneficiaryGasPrice settlement.gasPrice)
    else pure ())
  return result

/-! ## Execution -/

def executing (prepared : PreparedTx) (blobs : Option TxBlobs) : TxHost :=
  { host with evm := { host.evm with tx :=
      { origin := prepared.caller
        gasPrice := prepared.gasPrice
        chainId := BitVec.ofNat 256 host.evm.version.chainId
        blobHashes := blobs.elim [] TxBlobs.versionedHashes } } }

def withGas {α : Type} (gas : GasTracker) (x : Op (GasTracker × World) ExecutionError α) :
    Op World ExecutionError (α × GasTracker) where
  run w :=
    let r := x.run (gas, w)
    (r.1.map (·, r.2.1), r.2.2)

def executePrepared (fuel : Nat) (tx : TxTerms) (prepared : PreparedTx) :
    Op World ExecutionError TxResult := do
  let host := host.executing prepared tx.blobs
  let (executionGasLimit, reservoir) := initialGasAndReservoir host.evm.version tx.gasLimit.toNat
    prepared.intrinsic prepared.initialStateGas
  let (frame, txGas) ← withGas (.newWithExecutionGasAndReservoir executionGasLimit reservoir)
    (host.prepareInitialFrame prepared.caller prepared.senderNonce tx.recipient tx.input tx.value)
  let result ← host.executeInitialFrame fuel frame txGas executionGasLimit reservoir
  host.defaultSettleGas ⟨prepared.caller, prepared.gasPrice, tx.gasLimit.toNat, prepared.floorGas,
    prepared.initialStateGas, 0, result⟩

def authorize (prepared : PreparedTx) (tx : TxEip7702) :
    Op (GasTracker × World) ExecutionError (Bool × Nat × Nat) where
  run gw :=
    let r := (authorizationPhase host.evm.db host.evm.version prepared.caller tx.recipient tx.value
      tx.authorizations).run (gw.1, gw.2.state)
    (r.1.mapError .database, (r.2.1, { gw.2 with state := r.2.2 }))

/-- The first frame of a transaction with authorizations, with the state refund and the execution
refund. If the gas runs out, the delegations are dropped. -/
def authorizedFrame (prepared : PreparedTx) (tx : TxEip7702) (executionGasLimit reservoir : Nat) :
    Op (GasTracker × World) ExecutionError (InitialFrame × Nat × Nat) := do
  let cp ← Evm.onWorld (Op.total fun w => (w.checkpoint, w))
  let (authOog, stateRefund, executionRefund) ← host.authorize prepared tx
  let frame ← (if authOog then
      pure (host.haltedInitialFrame prepared.caller tx.nonce (.call tx.recipient) tx.input tx.value
        (.newWithExecutionGasAndReservoir executionGasLimit reservoir))
    else host.prepareInitialFrame prepared.caller prepared.senderNonce (.call tx.recipient)
      tx.input tx.value)
  (if frame.runtimeOog then Evm.onWorld (Op.update (World.rollback host.evm cp)) else pure ())
  return (frame, stateRefund, executionRefund)

def toI64 (n : Nat) : Int := min n maxI64

def executePreparedEip7702 (fuel : Nat) (tx : TxEip7702) (prepared : PreparedTx) :
    Op World ExecutionError TxResult := do
  let host := host.executing prepared none
  let (executionGasLimit, reservoir) := initialGasAndReservoir host.evm.version tx.gasLimit.toNat
    prepared.intrinsic prepared.initialStateGas
  let ((frame, stateRefund, executionRefund), txGas) ←
    withGas (.newWithExecutionGasAndReservoir executionGasLimit reservoir)
      (host.authorizedFrame prepared tx executionGasLimit reservoir)
  let result ← host.executeInitialFrame fuel frame txGas executionGasLimit reservoir
  let refunded := clampI64 (result.gas.refunded + toI64 executionRefund)
  host.defaultSettleGas ⟨prepared.caller, prepared.gasPrice, tx.gasLimit.toNat, prepared.floorGas,
    prepared.initialStateGas, stateRefund,
    { result with gas := { result.gas with refunded := refunded } }⟩

def handleTx (fuel : Nat) (caller : Address) (tx : TxEnvelope) :
    Op World HandlerError TxResult := do
  let prepared ← host.prepare caller tx.terms
  match tx with
  | .eip7702 tx => handling (host.executePreparedEip7702 fuel tx prepared)
  | _ => handling (host.executePrepared fuel tx.terms prepared)

def executeTx (fuel : Nat) (caller : Address) (tx : TxEnvelope) : Op World HandlerError TxResult :=
  if host.registry tx.ty then
    Op.onError (fun w => { w with state := w.state.clearTransactionState })
      (host.handleTx fuel caller tx)
  else Op.fail (.unsupportedTransactionType tx.ty)

def finishExecutedTx (result : TxResult) : Op World HandlerError TxResult := do
  Op.onError (fun w => { w with state := w.state.clearTransactionState })
    (handling (World.onState (State.finalizeTransaction host.evm.db host.evm.version.features)))
  let w ← Op.get
  Op.update fun w => { w with
    state := { w.state with inner := { w.state.inner with logs := [] } } }
  return { result with logs := w.state.logs }

/-- `Evm::transact`: the state it leaves is still to be committed. -/
def transact (fuel : Nat) (caller : Address) (tx : TxEnvelope) :
    Op World HandlerError TxResult := do
  let result ← host.executeTx fuel caller tx
  host.finishExecutedTx result

end TxHost

end Evm2
