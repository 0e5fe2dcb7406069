import Evm2.Evm.Host

/-!
# Executing messages
-/

namespace Evm2

/-- How a frame ended: its stop reason, its gas and its output. -/
structure FrameResult where
  stop : InstrStop
  gas : GasTracker
  output : Bytes

namespace Evm

variable [Keccak] (evm : Evm)

/-! ## Frames -/

def onWorld {ε α : Type} (x : Op World ε α) : Op (GasTracker × World) ε α where
  run gw := ((x.run gw.2).1, (gw.1, (x.run gw.2).2))

def onGas {ε α : Type} (f : GasTracker → α × GasTracker) : Op (GasTracker × World) ε α where
  run gw := (.ok (f gw.1).1, ((f gw.1).2, gw.2))

def handleQuery : (q : Query) → Op (GasTracker × World) ExecutionError q.Resp
  | .spend cost => onGas fun g => g.spend cost
  | .remaining => onGas fun g => (g.remaining, g)
  | .loadAccount a loadCode skipColdLoad => onWorld (evm.loadAccount a loadCode skipColdLoad)
  | .blockHash number => onWorld (evm.blockHash number)
  | .sload a key skipColdLoad => onWorld (evm.sload a key skipColdLoad)
  | .tload a key => onWorld (Op.total fun w => (w.state.tload a key, w))

def handle (exec : Message → Op World ExecutionError MessageResult) :
    (r : Request) → Op (GasTracker × World) ExecutionError r.Resp
  | .query q => evm.handleQuery q
  | .sstore a key value skipColdLoad => onWorld (evm.sstore a key value skipColdLoad)
  | .tstore a key value =>
    onWorld (Op.update fun w => { w with state := w.state.tstore a key value })
  | .log l => onWorld (Op.update fun w => { w with
      state := evm.log l w.state, systemLog := w.systemLog || l.address == SYSTEM_ADDRESS })
  | .selfdestruct contract target skipColdLoad =>
    onWorld (evm.selfdestruct contract target skipColdLoad)
  | .executeMessage message => onWorld (exec message)
  | .reservoir => onGas fun g => (g.reservoir, g)
  | .spendState cost => onGas fun g => g.spendState cost
  | .refillReservoir amount => onGas fun g => ((), g.refillReservoir amount)
  | .recordRefund refund => onGas fun g => ((), g.recordRefund refund)
  | .mergeChildGas child reason => onGas fun g => ((), g.mergeChildGas child reason)
  | .outOfFuel => Op.fail .outOfFuel

def frameEnv (message : Message) : FrameEnv :=
  ⟨evm.version, evm.opcodes, evm.block, evm.tx, message⟩

/-- `Evm::run_interpreter` and `Interpreter::finish_run`, for at most `fuel` instructions. -/
def runInterpreter (exec : Message → Op World ExecutionError MessageResult) (fuel : Nat)
    (message : Message) : Op World ExecutionError FrameResult where
  run w :=
    let frame := (SysInstr.loop (evm.frameEnv message) fuel).run .init
    let gas := GasTracker.newWithExecutionGasAndReservoir message.gasLimit message.reservoir
    match (frame.run (evm.handle exec)).run (gas, w) with
    | (.error e, (_, w)) => (.error e, w)
    | (.ok (.ok e, _), _) => e.elim
    | (.ok (.error reason, f), (gas, w)) =>
      if reason.isFatal then
        (.error (.fatal "interpreter returned a fatal stop without an error"), w)
      else (.ok ⟨reason, gas, memorySlice f.memory f.output.1 (f.output.2 - f.output.1)⟩, w)

/-! ## Messages -/

def errorMessageResult (reason : InstrStop) (message : Message) : MessageResult :=
  ⟨reason, .newWithExecutionGasAndReservoir message.gasLimit message.reservoir, [], none⟩

def prepareCreateMessage (message : Message) :
    Op World ExecutionError (Except InstrStop Unit) := do
  let nested := decide (evm.version.initialCallDepth < message.depth)
  let info ← (if message.depth ≤ evm.version.maxCallDepth ∧ (0 < message.value ∨ nested) then
      World.onState (State.accountInfoUntracked evm.db message.caller)
    else pure none)
  match createPreaccessFailure (info.elim 0 AccountInfo.balance) (info.elim 0 AccountInfo.nonce)
      message.value message.depth evm.version with
  | some reason => return .error reason
  | none =>
    let _ ← World.onState (State.account evm.db message.destination AccountHandle.warm)
    let _ ← (if nested then
        World.onState (State.account evm.db message.caller AccountHandle.bumpNonce)
      else pure true)
    return .ok ()

def createErrorStop : State.CreateError → InstrStop
  | .createCollision => .createCollision
  | .outOfFunds => .outOfFunds

/-- `State::create_account`: the account should get the endowment. -/
def createAccount (caller a : Address) (value : Word) :
    Op World ExecutionError (Except State.CreateError Unit) :=
  World.noting evm.db a
    (fun created before after => !created.isOk || caller == a || after == before + value.toNat)
    (State.createAccount evm.db caller a value evm.version.features)

def createMessageAccount (message : Message) : Op World ExecutionError (Except InstrStop Unit) := do
  let created ← evm.createAccount message.caller message.destination message.value
  match created with
  | .error e => return .error (createErrorStop e)
  | .ok () =>
    Op.update fun w => { w with
      state := evm.logEip7708Transfer message.caller message.destination message.value w.state }
    return .ok ()

def validateCreateOutput (gas : GasTracker) (output : Bytes) :
    Except InstrStop Bytes × GasTracker :=
  let params := evm.version.gasParams
  if evm.feature .codeSizeCheck && decide (evm.version.maxCodeSize < output.length) then
    (.error .createContractSizeLimit, gas)
  else if evm.feature .eip3541 && output.head? == some 0xEF#8 then
    (.error .createContractStartingWithEF, gas)
  else
    let codeDepositGas := satMul64 output.length (params.get .codeDepositCost)
    if gas.remaining < codeDepositGas then
      -- before EIP-2 the account is created with empty code
      if evm.feature .eip2 then (.error .outOfGas, gas) else (.ok [], gas)
    else
      let gas := (gas.spend codeDepositGas).2
      if evm.feature .eip8037 then
        let (enough, gas) := gas.spend (params.keccak256WordCost output.length)
        if !enough then (.error .outOfGas, gas)
        else if params.codeDepositStateGas output.length = 0 then (.ok output, gas)
        else
          let (enough, gas) := gas.spendState (params.codeDepositStateGas output.length)
          if enough then (.ok output, gas) else (.error .outOfGas, gas)
      else (.ok output, gas)

def finishCreateMessageRun (cp : StateCheckpoint × Nat) (a : Address) (frame : FrameResult) :
    Op World ExecutionError MessageResult := do
  if frame.stop.isSuccess then
    match evm.validateCreateOutput frame.gas frame.output with
    | (.error reason, gas) =>
      Op.update (World.rollback evm cp)
      return ⟨reason, gas, [], none⟩
    | (.ok output, gas) =>
      Op.onError (World.rollback evm cp) (World.onState (State.account evm.db a fun h =>
        ((), h.setCodeSlow (.newLegacy output))))
      return ⟨frame.stop, gas, output, some a⟩
  else
    Op.update (World.rollback evm cp)
    return ⟨frame.stop, frame.gas, frame.output, none⟩

def executeCreateMessage (run : Message → Op World ExecutionError FrameResult)
    (message : Message) : Op World ExecutionError MessageResult := do
  match ← evm.prepareCreateMessage message with
  | .error reason => return errorMessageResult reason message
  | .ok () =>
    let cp ← Op.total fun w => (w.checkpoint, w)
    match ← Op.onError (World.rollback evm cp) (evm.createMessageAccount message) with
    | .error reason =>
      Op.update (World.rollback evm cp)
      return errorMessageResult reason message
    | .ok () =>
      let frame ← (if message.code.isEmpty then
          pure ⟨.stop, .newWithExecutionGasAndReservoir message.gasLimit message.reservoir, []⟩
        else run { message with input := [] })
      evm.finishCreateMessageRun cp message.destination frame

/-- The stop reason and the output of a precompile; `none` if it failed. -/
def precompileStop (gasLimit remaining : Nat) :
    Except PrecompileError Bytes → Except ExecutionError (InstrStop × Bytes)
  | .ok output =>
    .ok (if gasLimit < remaining then (.precompileOOG, []) else (.return, output))
  | .error (.revert output) =>
    .ok (if gasLimit < remaining then (.precompileOOG, []) else (.revert, output))
  | .error (.halt true) => .ok (.precompileOOG, [])
  | .error (.halt false) => .ok (.precompileError, [])
  | .error (.database e) => .error (.database e)
  | .error (.fatal message) => .error (.fatal message)

def executePrecompile (message : Message) :
    Op World ExecutionError (Except PrecompileError Bytes × GasTracker) where
  run w :=
    let gas := GasTracker.newWithExecutionGasAndReservoir message.gasLimit message.reservoir
    let r := (evm.precompiles.execute message).run (gas, w.state)
    (.ok (r.1, r.2.1), { w with state := r.2.2 })

def executeCallPrecompile (cp : StateCheckpoint × Nat) (message : Message) :
    Op World ExecutionError MessageResult := do
  let (execution, gas) ← evm.executePrecompile message
  match precompileStop message.gasLimit gas.remaining execution with
  | .error e =>
    Op.update (World.rollback evm cp)
    Op.fail e
  | .ok (reason, output) =>
    (if reason.isSuccess then pure () else Op.update (World.rollback evm cp))
    return ⟨reason, gas, output, none⟩

def finishCallMessageRun (cp : StateCheckpoint × Nat) (frame : FrameResult) :
    Op World ExecutionError MessageResult := do
  (if frame.stop.isSuccess then pure () else Op.update (World.rollback evm cp))
  return ⟨frame.stop, frame.gas, frame.output, none⟩

def callTransfer (message : Message) : Op World ExecutionError Bool :=
  if message.kind = .call ∨ message.kind = .callCode ∨ message.kind = .staticCall then do
    let covered ← evm.transfer message.caller message.destination message.value
    (if covered then Op.update fun w => { w with
        state := evm.logEip7708Transfer message.caller message.destination message.value w.state }
      else pure ())
    return covered
  else pure true

def executeCallMessage (run : Message → Op World ExecutionError FrameResult)
    (message : Message) : Op World ExecutionError MessageResult := do
  if evm.version.maxCallDepth < message.depth then
    return errorMessageResult .callTooDeep message
  else
    let cp ← Op.total fun w => (w.checkpoint, w)
    if !(← evm.callTransfer message) then return errorMessageResult .outOfFunds message
    else if evm.precompiles.contains message.callTarget then evm.executeCallPrecompile cp message
    else if message.code.isEmpty then return errorMessageResult .stop message
    else evm.finishCallMessageRun cp (← run message)

def executeMessageImpl (run : Message → Op World ExecutionError FrameResult)
    (message : Message) : Op World ExecutionError MessageResult := do
  let result ← (if message.kind.isCreate then evm.executeCreateMessage run message
    else evm.executeCallMessage run message)
  return { result with gas := result.gas.settleGas result.stop }

/-- `Host::execute_message`, without an inspector: an error rolls back. -/
def hostExecuteMessage (run : Message → Op World ExecutionError FrameResult)
    (message : Message) : Op World ExecutionError MessageResult := do
  let cp ← Op.total fun w => (w.checkpoint, w)
  Op.onError (World.rollback evm cp) (evm.executeMessageImpl run message)

/-- `Host::execute_message` on a tree of messages of depth at most `fuel`, with at most `fuel`
instructions in each frame. -/
def executeMessage : Nat → Message → Op World ExecutionError MessageResult
  | 0, _ => Op.fail .outOfFuel
  | fuel + 1, message =>
    evm.hostExecuteMessage (evm.runInterpreter (executeMessage fuel) fuel) message

end Evm

end Evm2
