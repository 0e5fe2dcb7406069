import Evm2.Interpreter.Run
import Evm2.State.State

/-!
# The host operations of the EVM

The implementation of `Host` for `Evm`, without an inspector.
-/

namespace Evm2

/-- `ExecutionError`. `outOfFuel` is not an error of the code: it marks a run that was given up. -/
inductive ExecutionError
  | database (e : DatabaseError)
  | fatal (message : String)
  | outOfFuel
  deriving DecidableEq, Repr

/-- `PrecompileError`; the reason of a halt is kept only as far as it matters. -/
inductive PrecompileError
  | database (e : DatabaseError)
  | revert (output : Bytes)
  | halt (outOfGas : Bool)
  | fatal (message : String)
  deriving DecidableEq, Repr

structure Precompiles where
  contains : Address → Bool
  execute : Message → Op (GasTracker × State) PrecompileError Bytes

def Precompiles.none : Precompiles := ⟨fun _ => false, fun _ => Op.fail (.halt true)⟩

/-- The parts of `Evm` that the execution of a message reads. -/
structure Evm where
  version : Version
  opcodes : OpcodeConfig
  block : BlockEnv
  tx : TxEnv
  precompiles : Precompiles
  db : Database

/-- An EVM without features, gas costs and precompiles over the empty database, to evaluate the
model on small inputs. -/
def Evm.bare [Keccak] : Evm where
  version :=
    { gasParams := .empty, features := .empty, chainId := 1, txGasLimitCap := maxU64,
      memoryLimit := 2 ^ 32 - 1, maxCodeSize := 0x6000, maxInitcodeSize := 0xC000,
      maxBlobsPerTx := 6, initialCallDepth := 0 }
  opcodes := ⟨fun _ => some 0⟩
  block := .default
  tx := .default
  precompiles := .none
  db := .empty

def Evm.feature (evm : Evm) (f : Feature) : Bool := evm.version.feature f

/-- The state of the EVM. The other fields are no part of it in the code, and nothing reads them:
`burned` sums up what contracts burned by self-destructing to themselves, `exact` tells that no
balance has saturated or wrapped, `systemLog` that a frame of the system address has logged. -/
structure World where
  state : State
  burned : Nat
  exact : Bool
  systemLog : Bool

namespace World

def ofState (s : State) : World := ⟨s, 0, true, false⟩

def onState {α : Type} (x : Op State DatabaseError α) : Op World ExecutionError α where
  run w := ((x.run w.state).1.mapError .database, { w with state := (x.run w.state).2 })

theorem run_onState {α : Type} (x : Op State DatabaseError α) (w : World) :
    (onState x).run w =
      ((x.run w.state).1.mapError .database, { w with state := (x.run w.state).2 }) := rfl

/-- Run an operation on the state and note whether the balances of `a` before and after it are as
`p` says for its result. -/
def noting [Keccak] {α : Type} (db : Database) (a : Address) (p : α → Nat → Nat → Bool)
    (x : Op State DatabaseError α) : Op World ExecutionError α where
  run w :=
    let r := (onState x).run w
    let holds := match r.1 with
      | .ok b => p b (w.state.balance db a) (r.2.state.balance db a)
      | .error _ => true
    (r.1, { r.2 with exact := r.2.exact && holds })

/-- Run a load: a skipped cold load halts the frame out of gas, `HostError::from`. -/
def onLoad {α : Type} (x : Op State LoadError α) : Op World ExecutionError (Except InstrStop α) where
  run w :=
    let w' := { w with state := (x.run w.state).2 }
    match (x.run w.state).1 with
    | .ok a => (.ok (.ok a), w')
    | .error .coldLoadSkipped => (.ok (.error .outOfGas), w')
    | .error (.database e) => (.error (.database e), w')

def checkpoint (w : World) : StateCheckpoint × Nat := (w.state.checkpoint, w.burned)

def rollback (evm : Evm) (cp : StateCheckpoint × Nat) (w : World) : World :=
  { w with state := w.state.rollback cp.1 evm.version.features, burned := cp.2 }

end World

/-! ## Logs -/

def SYSTEM_ADDRESS : Address := 0xfffffffffffffffffffffffffffffffffffffffe#160

def EIP7708_TRANSFER_TOPIC : B256 :=
  0xddf252ad1be2c89b69c2b068fc378daa952ba7f163c4a11628f55a4df523b3ef#256

def eip7708TransferLog (src dst : Address) (value : Word) : Option Log :=
  if value = 0 ∨ src = dst then none
  else some ⟨SYSTEM_ADDRESS, [EIP7708_TRANSFER_TOPIC, src.intoWord, dst.intoWord],
    beBytes 32 value.toNat⟩

namespace Evm

variable (evm : Evm)

def log (l : Log) (s : State) : State := if evm.feature .logCollection then s.log l else s

def logEip7708Transfer (src dst : Address) (value : Word) (s : State) : State :=
  if evm.feature .eip7708 then
    match eip7708TransferLog src dst value with
    | some l => evm.log l s
    | none => s
  else s

/-! ## Host operations -/

section Host

variable [Keccak]

def loadAccountSession (loadCode : Bool) : Op AccountHandle LoadError AccountLoad := do
  let isCold ← Op.total AccountHandle.warm
  let h ← Op.get
  let code ← (if loadCode then (AccountHandle.loadCode evm.db).mapError .database
    else pure Bytecode.new)
  return {
    balance := h.tracked.present.elim 0 AccountInfo.balance
    nonce := h.tracked.present.elim 0 AccountInfo.nonce
    codeHash := h.tracked.present.elim 0 AccountInfo.codeHash
    code := code
    isEmpty := h.tracked.present.elim true AccountInfo.isEmpty
    isEmptyForNewAccountGas := h.isEmptyForNewAccountGas evm.version.features
    isCold := isCold }

def loadAccount (a : Address) (loadCode skipColdLoad : Bool) :
    Op World ExecutionError (Except InstrStop AccountLoad) :=
  World.onLoad (State.accountWithSkip evm.db a skipColdLoad (evm.loadAccountSession loadCode))

def blockHash (number : Word) : Op World ExecutionError B256 :=
  World.onState (State.onCache (Cache.getBlockHash evm.db number))

def sload (a : Address) (key : Word) (skipColdLoad : Bool) :
    Op World ExecutionError (Except InstrStop SLoad) :=
  let eip2929 := evm.feature .eip2929
  World.onLoad (State.storage evm.db a
    (StorageHandle.intoSlotInner evm.db eip2929 key skipColdLoad fun isCold h =>
      (⟨h.slot.value.current, eip2929 && isCold⟩, h)))

def sstore (a : Address) (key value : Word) (skipColdLoad : Bool) :
    Op World ExecutionError (Except InstrStop SStore) :=
  let eip2929 := evm.feature .eip2929
  World.onLoad (State.storage evm.db a
    (StorageHandle.intoSlotInner evm.db eip2929 key skipColdLoad fun isCold h =>
      let r := h.write value
      (⟨r.1.1, r.1.2, value, eip2929 && isCold⟩, r.2)))

def transfer (src dst : Address) (value : Word) : Op World ExecutionError Bool :=
  World.noting evm.db dst
    (fun covered before after => !covered || src == dst || after == before + value.toNat)
    (State.transfer evm.db src dst value)

def selfdestructBalance (contract target : Address) (balance : Word) (shouldDestroy : Bool) :
    Op World ExecutionError Unit :=
  if contract ≠ target then do
    let transferred ← evm.transfer contract target balance
    if transferred then
      Op.update fun w => { w with state := evm.logEip7708Transfer contract target balance w.state }
    else pure ()
  else if shouldDestroy && decide (balance ≠ 0) && !evm.feature .eip8246 then do
    World.onState (State.account evm.db contract fun h => ((), h.addBalance (0 - balance)))
    Op.update fun w => { w with burned := w.burned + balance.toNat }
  else pure ()

def selfdestructContract (contract target : Address) (isCold targetIsEmpty : Bool) :
    Op World ExecutionError SelfDestructResult := do
  let features := evm.version.features
  let (previouslyDestroyed, balance, shouldDestroy) ←
    World.onState (State.account evm.db contract fun h =>
      ((h.tracked.flags.destroyed, h.balance, !features.contains .eip6780 || h.isCreated), h))
  evm.selfdestructBalance contract target balance shouldDestroy
  (if shouldDestroy then
      World.onState (State.account evm.db contract fun h => ((), h.markDestructed))
    else pure ())
  return ⟨decide (balance ≠ 0), balance, targetIsEmpty, isCold, previouslyDestroyed⟩

def selfdestruct (contract target : Address) (skipColdLoad : Bool) :
    Op World ExecutionError (Except InstrStop SelfDestructResult) := do
  let access ← World.onLoad (State.accountWithSkip evm.db target skipColdLoad (Op.total fun h =>
    ((h.warm.1, h.warm.2.isEmptyForNewAccountGas evm.version.features), h.warm.2)))
  match access with
  | .error reason => return .error reason
  | .ok (isCold, targetIsEmpty) =>
    return .ok (← evm.selfdestructContract contract target isCold targetIsEmpty)

end Host

end Evm

end Evm2
