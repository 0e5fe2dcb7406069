import Evm2.Interpreter.Instructions

/-!
# System instructions

The instructions that write storage or logs, send messages, or destroy the contract. Each checks
for itself that the frame is not static. Inspector hooks are left out.
-/

namespace Evm2

open Instr (checkBounds popUnchecked ofExcept get modify stop when)

/-- An instruction that may make every request. -/
abbrev SysInstr := Instr Request Request.Resp

def SimpleInstr.lift {α : Type} (x : SimpleInstr α) : SysInstr α :=
  ⟨fun f => (x.run f).interp fun q => Prog.call (Request.query q)⟩

namespace SysInstr

open Request (query)

variable (env : FrameEnv)

def request (r : Request) : SysInstr r.Resp := Instr.ask r

def spend (cost : Nat) : SysInstr Unit := SimpleInstr.lift (SimpleInstr.spend cost)

def remaining : SysInstr Nat := request (query .remaining)

def loadAccount (address : Address) (loadCode skipColdLoad : Bool) : SysInstr AccountLoad := do
  let account ← request (query (.loadAccount address loadCode skipColdLoad))
  ofExcept account

def spendState (cost : Nat) : SysInstr Unit := do
  if ← request (.spendState cost) then pure () else stop .outOfGas

def refillReservoir (amount : Nat) : SysInstr Unit := request (.refillReservoir amount)

def recordRefund (refund : Int) : SysInstr Unit := request (.recordRefund refund)

def requireNonStaticcall : SysInstr Unit := do
  if env.isStatic then stop .stateChangeDuringStaticCall else pure ()

/-! ## Storage and logs -/

def sstore : SysInstr Unit := do
  checkBounds 2 0
  let key ← popUnchecked
  let value ← popUnchecked
  requireNonStaticcall env
  let isEip2200 := env.feature .eip2200
  -- EIP-2200: not with the value-transfer stipend alone
  let gas ← remaining
  when (isEip2200 ∧ gas ≤ env.gasParams.get .callStipend) (stop .reentrancySentryOOG)
  spend (env.gasParams.get .sstoreStatic)
  let gas ← remaining
  let skipColdLoad :=
    env.feature .eip2929 && decide (gas < env.gasParams.get .coldStorageAdditionalCost)
  let stateLoad ← request (.sstore env.message.destination key value skipColdLoad)
  let stateLoad ← ofExcept stateLoad
  spend (env.gasParams.sstoreDynamicGas isEip2200 stateLoad)
  when (env.feature .eip8037) do
    spendState (env.gasParams.sstoreStateGas stateLoad)
    refillReservoir (env.gasParams.sstoreStateGasRefill stateLoad)
  recordRefund (env.gasParams.sstoreRefund isEip2200 stateLoad)

def tstore : SysInstr Unit := do
  checkBounds 2 0
  let key ← popUnchecked
  let value ← popUnchecked
  requireNonStaticcall env
  request (.tstore env.message.destination key value)

def log (n : Nat) : SysInstr Unit := do
  requireNonStaticcall env
  let offsetLen ← Instr.popn 2
  let len ← ofExcept (offsetLen.getD 1 0).toUsize
  spend (env.gasParams.logCost n len)
  let offset ← (if len = 0 then pure 0 else do
    let offset ← ofExcept (offsetLen.getD 0 0).toUsize
    SimpleInstr.lift (SimpleInstr.resizeMemory env offset len)
    return offset)
  let topics ← Instr.popn n
  let data := memorySlice (← get).memory offset len
  request (.log ⟨env.message.destination, topics, data⟩)

/-! ## Calls -/

def shouldChargeNewAccountGas (eip161 transfersValue targetIsEmpty : Bool) : Bool :=
  targetIsEmpty && (!eip161 || transfersValue)

def resizeMemoryRange (offset len : Word) : SysInstr (Nat × Nat) := do
  let len ← ofExcept len.toUsize
  if len ≠ 0 then
    let offset ← ofExcept offset.toUsize
    SimpleInstr.lift (SimpleInstr.resizeMemory env offset len)
    return (offset, len)
  else return (maxU64, 0)

/-- What `load_acc_and_calc_gas` returns. -/
structure CallGas where
  gasLimit : Nat
  newAccountStateGas : Nat
  code : Bytecode
  codeAddress : Address

/-- The part of `load_acc_and_calc_gas` that resolves a delegation: the cost so far, the code and
the address it comes from. -/
def resolveDelegation (remainingGas cost : Nat) (code : Bytecode) (target : Address) :
    SysInstr (Nat × Bytecode × Address) := do
  match code.eip7702Address with
  | none => return (cost, code, target)
  | some delegatedAddress =>
    if env.feature .eip7702 then
      let additionalColdCost := env.gasParams.coldAccountAdditionalCost
      let cost := cost + env.gasParams.get .warmStorageReadCost
      if remainingGas < cost then stop .outOfGas
      else
        let skipColdLoad := decide (remainingGas < satAdd64 cost additionalColdCost)
        let delegatedAccount ← loadAccount delegatedAddress true skipColdLoad
        let cost := if delegatedAccount.isCold then cost + additionalColdCost else cost
        return (cost, delegatedAccount.code, delegatedAddress)
    else return (cost, code, target)

def loadAccAndCalcGas (target : Address) (transfersValue createEmptyAccount : Bool)
    (stackGasLimit : Nat) : SysInstr CallGas := do
  when transfersValue (spend (env.gasParams.get .transferValueCost))
  let additionalColdCost := env.gasParams.coldAccountAdditionalCost
  let remainingGas ← remaining
  let account ← loadAccount target true (decide (remainingGas < additionalColdCost))
  let cost := if account.isCold then additionalColdCost else 0
  let resolved ← resolveDelegation env remainingGas cost account.code target
  let createsAccount := createEmptyAccount && shouldChargeNewAccountGas (env.feature .eip161)
    transfersValue account.isEmptyForNewAccountGas
  let cost := if createsAccount then resolved.1 + env.gasParams.get .newAccountCost else resolved.1
  -- EIP-8037: value sent to a new account also pays state gas
  let newAccountStateGas :=
    if createsAccount && env.feature .eip8037 && transfersValue then
      env.gasParams.newAccountStateGas
    else 0
  spend cost
  spendState newAccountStateGas
  let gas ← remaining
  let gasLimit :=
    if env.feature .eip150 then min (env.gasParams.callStipendReduction gas) stackGasLimit
    else stackGasLimit
  spend gasLimit
  let gasLimit :=
    if transfersValue then satAdd64 gasLimit (env.gasParams.get .callStipend) else gasLimit
  return ⟨gasLimit, newAccountStateGas, resolved.2.1, resolved.2.2⟩

def childDepth : Nat := min (env.message.depth + 1) (2 ^ 16 - 1)

def prepareCall (kind : MessageKind) : SysInstr (Message × Nat × (Nat × Nat)) := do
  let args ← Instr.popn 2
  let localGasLimit := args.getD 0 0
  let target := (args.getD 1 0).toAddress
  let value ← (if kind = .call ∨ kind = .callCode then Instr.pop else pure 0)
  let ranges ← Instr.popn 4
  let hasTransfer := decide (value ≠ 0)
  when (env.isStatic ∧ kind = .call ∧ hasTransfer) (stop .callNotAllowedInsideStatic)
  let inputRange ← resizeMemoryRange env (ranges.getD 0 0) (ranges.getD 1 0)
  let returnRange ← resizeMemoryRange env (ranges.getD 2 0) (ranges.getD 3 0)
  let call ← loadAccAndCalcGas env target hasTransfer (kind == .call)
    localGasLimit.toUsizeSaturated
  let input := memorySlice (← get).memory inputRange.1 inputRange.2
  let current := env.message
  let message : Message :=
    { kind := kind
      depth := childDepth env
      gasLimit := call.gasLimit
      reservoir := ← request .reservoir
      destination := if kind = .call ∨ kind = .staticCall then target else current.destination
      callTarget := target
      caller := if kind = .delegateCall then current.caller else current.destination
      input := input
      value := if kind = .delegateCall then current.value else value
      code := call.code
      codeAddress := call.codeAddress
      callerIsStatic := env.isStatic
      salt := 0 }
  return (message, call.newAccountStateGas, returnRange)

def executeChild (message : Message) : SysInstr MessageResult := do
  let result ← request (.executeMessage message)
  if result.stop.isFatal then stop result.stop
  else
    request (.mergeChildGas result.gas result.stop)
    return result

/-- `call_impl`, without hooks: `CALL`, `CALLCODE`, `DELEGATECALL` and `STATICCALL`. -/
def call (kind : MessageKind) : SysInstr Unit := do
  let (message, newAccountStateGas, returnRange) ← prepareCall env kind
  let result ← executeChild message
  -- EIP-8037: the account was not created
  when (newAccountStateGas ≠ 0 ∧ ¬result.isSuccess) (refillReservoir newAccountStateGas)
  let copyLen := min returnRange.2 result.output.length
  modify fun f => { f with
    memory := memorySet f.memory returnRange.1 (result.output.take copyLen)
    returnData := result.output }
  Instr.push (.ofBool result.isSuccess)

/-! ## Creations -/

/-- The EIP-8037 part of `create_with` before the message is sent: whether the state gas of the new
account was charged, or nothing if the creation fails before its destination is accessed. -/
def chargeCreateStateGas (balance : Word) (nonce : U64) (value : Word) (destination : Address) :
    SysInstr (Option Bool) := do
  if env.feature .eip8037 then
    if (createPreaccessFailure balance nonce value (childDepth env) env.version).isSome then
      return none
    else
      let account ← loadAccount destination false false
      if account.isEmptyForNewAccountGas then
        spendState env.gasParams.createStateGas
        return some true
      else return some false
  else return some false

def initcode (isCreate2 : Bool) (offset len : Word) : SysInstr Bytes := do
  let len ← ofExcept len.toUsize
  when (env.feature .eip3860) do
    when (env.version.maxInitcodeSize < len) (stop .createInitCodeSizeLimit)
    spend (env.gasParams.initcodeCost len)
  let codeRange ← resizeMemoryRange env offset (BitVec.ofNat 256 len)
  let input := memorySlice (← get).memory codeRange.1 codeRange.2
  spend (if isCreate2 then env.gasParams.create2Cost len else env.gasParams.get .create)
  return input

def finishCreate (chargedCreateStateGas : Bool) (message : Message) : SysInstr Unit := do
  let result ← executeChild message
  let createFailed := result.createdAddress.isNone || !result.isSuccess
  when (chargedCreateStateGas ∧ createFailed) (refillReservoir env.gasParams.createStateGas)
  -- EIP-211: only a revert leaves return data
  modify fun f => { f with returnData := if result.stop.isRevert then result.output else [] }
  Instr.push result.createdAddressForParent

def create [Keccak] (isCreate2 : Bool) : SysInstr Unit := do
  requireNonStaticcall env
  let args ← Instr.popn 3
  let value := args.getD 0 0
  let salt ← (if isCreate2 then Instr.pop else pure 0)
  let input ← initcode env isCreate2 (args.getD 1 0) (args.getD 2 0)
  let kind := if isCreate2 then MessageKind.create2 else .create
  let caller := env.message.destination
  let (balance, nonce) ← (if isCreate2 && !env.feature .eip8037 then pure ((0 : Word), (0 : U64))
    else do
      let info ← loadAccount caller false false
      return (info.balance, info.nonce))
  let destination := deriveCreateDestination kind caller salt input nonce
  match ← chargeCreateStateGas env balance nonce value destination with
  | none =>
    modify fun f => { f with returnData := [] }
    Instr.push 0
  | some chargedCreateStateGas =>
    let gas ← remaining
    let gasLimit :=
      if env.feature .eip150 then env.gasParams.callStipendReduction gas else gas
    spend gasLimit
    finishCreate env chargedCreateStateGas
      { kind := kind
        depth := childDepth env
        gasLimit := gasLimit
        reservoir := ← request .reservoir
        destination := destination
        callTarget := destination
        caller := caller
        input := input
        value := value
        code := .newLegacy input
        codeAddress := destination
        callerIsStatic := false
        salt := salt }

def selfdestruct : SysInstr Unit := do
  checkBounds 1 0
  let target ← popUnchecked
  requireNonStaticcall env
  let gas ← remaining
  let skipColdLoad := decide (gas < env.gasParams.selfdestructColdCost)
  let res ← request (.selfdestruct env.message.destination target.toAddress skipColdLoad)
  let res ← ofExcept res
  let shouldChargeTopup :=
    shouldChargeNewAccountGas (env.feature .eip161) res.hadValue res.targetIsEmpty
  spend (env.gasParams.selfdestructCost shouldChargeTopup res.isCold)
  when (shouldChargeTopup ∧ env.feature .eip8037) (spendState env.gasParams.newAccountStateGas)
  when (res.previouslyDestroyed = false) (recordRefund (env.gasParams.get .selfdestructRefund))
  stop .selfDestruct

def execute [Keccak] : OpCode → SysInstr Unit
  | .sstore => sstore env
  | .tstore => tstore env
  | .log n => log env n
  | .create => create env false
  | .create2 => create env true
  | .call => call env .call
  | .callcode => call env .callCode
  | .delegatecall => call env .delegateCall
  | .staticcall => call env .staticCall
  | .selfdestruct => selfdestruct env
  | op => SimpleInstr.lift (SimpleInstr.execute env op)

end SysInstr

end Evm2
