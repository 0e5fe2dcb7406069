import Evm2.Evm.Execute
import Evm2.State.Warmth

/-!
# Executing messages with access sets

The execution of messages once more, with two plain sets beside it: the addresses and the slots that
have been accessed. An access adds to them, a frame that fails restores them, and nothing else
changes them. Every answer about the warmth of an access is recorded, together with what the sets
say just before the access.
-/

namespace Evm2

structure Access where
  isCold : Bool
  absent : Prop

/-- The access sets, and the accesses so far. -/
structure AccessRecord where
  sets : WarmSets
  accesses : List Access

namespace AccessRecord

def start (sets : WarmSets) : AccessRecord := ⟨sets, []⟩

def accessAddress (r : AccessRecord) (a : Address) (cold : Bool) : AccessRecord :=
  ⟨r.sets.insertAddress a, ⟨cold, a ∉ r.sets.addresses⟩ :: r.accesses⟩

def accessSlot (r : AccessRecord) (a : Address) (key : Word) (cold : Bool) : AccessRecord :=
  ⟨r.sets.insertSlot a key, ⟨cold, (a, key) ∉ r.sets.slots⟩ :: r.accesses⟩

def add (r : AccessRecord) (a : Address) : AccessRecord :=
  { r with sets := r.sets.insertAddress a }

def Right (r : AccessRecord) : Prop := ∀ x ∈ r.accesses, x.isCold = true ↔ x.absent

end AccessRecord

/-- A world with its access sets. -/
abbrev TrackedWorld := World × AccessRecord

namespace Evm.Tracked

/-! ## Operations beside the sets -/

section Lift

variable {σ ε α : Type}

def noting (f : α → AccessRecord → AccessRecord) (x : Op σ ε α) : Op (σ × AccessRecord) ε α where
  run t :=
    ((x.run t.1).1, ((x.run t.1).2, match (x.run t.1).1 with
      | .ok a => f a t.2
      | .error _ => t.2))

def keeping (x : Op σ ε α) : Op (σ × AccessRecord) ε α := noting (fun _ r => r) x

def unlessSkipped (f : α → AccessRecord → AccessRecord) :
    Except InstrStop α → AccessRecord → AccessRecord
  | .ok a, r => f a r
  | .error _, r => r

def onWorld (x : Op TrackedWorld ε α) : Op ((GasTracker × World) × AccessRecord) ε α where
  run t :=
    let r := x.run (t.1.2, t.2)
    (r.1, ((t.1.1, r.2.1), r.2.2))

end Lift

def checkpoint (t : TrackedWorld) : (StateCheckpoint × Nat) × WarmSets := (t.1.checkpoint, t.2.sets)

variable (evm : Evm)

def rollback (cp : (StateCheckpoint × Nat) × WarmSets) (t : TrackedWorld) : TrackedWorld :=
  (t.1.rollback evm cp.1, { t.2 with sets := cp.2 })

variable [Keccak]

/-! ## Frames -/

def handle (exec : Message → Op TrackedWorld ExecutionError MessageResult) :
    (r : Request) → Op ((GasTracker × World) × AccessRecord) ExecutionError r.Resp
  | .query (.loadAccount a loadCode skip) =>
    noting (unlessSkipped fun load r => r.accessAddress a load.isCold)
      (Evm.onWorld (evm.loadAccount a loadCode skip))
  | .query (.sload a key skip) =>
    noting (unlessSkipped fun load r => r.accessSlot a key load.isCold)
      (Evm.onWorld (evm.sload a key skip))
  | .sstore a key value skip =>
    noting (unlessSkipped fun store r => r.accessSlot a key store.isCold)
      (Evm.onWorld (evm.sstore a key value skip))
  | .selfdestruct contract target skip =>
    noting (unlessSkipped fun result r => r.accessAddress target result.isCold)
      (Evm.onWorld (evm.selfdestruct contract target skip))
  | .executeMessage message => onWorld (exec message)
  | r => keeping (evm.handle (fun _ => Op.fail .outOfFuel) r)

def runInterpreter (exec : Message → Op TrackedWorld ExecutionError MessageResult) (fuel : Nat)
    (message : Message) : Op TrackedWorld ExecutionError FrameResult where
  run t :=
    let frame := (SysInstr.loop (evm.frameEnv message) fuel).run .init
    let gas := GasTracker.newWithExecutionGasAndReservoir message.gasLimit message.reservoir
    match (frame.run (handle evm exec)).run ((gas, t.1), t.2) with
    | (.error e, ((_, w), r)) => (.error e, (w, r))
    | (.ok (.ok e, _), _) => e.elim
    | (.ok (.error reason, f), ((gas, w), r)) =>
      if reason.isFatal then
        (.error (.fatal "interpreter returned a fatal stop without an error"), (w, r))
      else (.ok ⟨reason, gas, memorySlice f.memory f.output.1 (f.output.2 - f.output.1)⟩, (w, r))

/-! ## Messages -/

def prepareCreateMessage (message : Message) :
    Op TrackedWorld ExecutionError (Except InstrStop Unit) :=
  noting (unlessSkipped fun _ r => r.add message.destination) (evm.prepareCreateMessage message)

def finishCreateMessageRun (cp : (StateCheckpoint × Nat) × WarmSets) (a : Address)
    (frame : FrameResult) : Op TrackedWorld ExecutionError MessageResult := do
  if frame.stop.isSuccess then
    match evm.validateCreateOutput frame.gas frame.output with
    | (.error reason, gas) =>
      Op.update (rollback evm cp)
      return ⟨reason, gas, [], none⟩
    | (.ok output, gas) =>
      Op.onError (rollback evm cp) (keeping (World.onState (State.account evm.db a fun h =>
        ((), h.setCodeSlow (.newLegacy output)))))
      return ⟨frame.stop, gas, output, some a⟩
  else
    Op.update (rollback evm cp)
    return ⟨frame.stop, frame.gas, frame.output, none⟩

def executeCreateMessage (run : Message → Op TrackedWorld ExecutionError FrameResult)
    (message : Message) : Op TrackedWorld ExecutionError MessageResult := do
  match ← prepareCreateMessage evm message with
  | .error reason => return errorMessageResult reason message
  | .ok () =>
    let cp ← Op.total fun t => (checkpoint t, t)
    match ← Op.onError (rollback evm cp) (keeping (evm.createMessageAccount message)) with
    | .error reason =>
      Op.update (rollback evm cp)
      return errorMessageResult reason message
    | .ok () =>
      let frame ← (if message.code.isEmpty then
          pure ⟨.stop, .newWithExecutionGasAndReservoir message.gasLimit message.reservoir, []⟩
        else run { message with input := [] })
      finishCreateMessageRun evm cp message.destination frame

def executeCallPrecompile (cp : (StateCheckpoint × Nat) × WarmSets) (message : Message) :
    Op TrackedWorld ExecutionError MessageResult := do
  let (execution, gas) ← keeping (evm.executePrecompile message)
  match precompileStop message.gasLimit gas.remaining execution with
  | .error e =>
    Op.update (rollback evm cp)
    Op.fail e
  | .ok (reason, output) =>
    (if reason.isSuccess then pure () else Op.update (rollback evm cp))
    return ⟨reason, gas, output, none⟩

def finishCallMessageRun (cp : (StateCheckpoint × Nat) × WarmSets) (frame : FrameResult) :
    Op TrackedWorld ExecutionError MessageResult := do
  (if frame.stop.isSuccess then pure () else Op.update (rollback evm cp))
  return ⟨frame.stop, frame.gas, frame.output, none⟩

def executeCallMessage (run : Message → Op TrackedWorld ExecutionError FrameResult)
    (message : Message) : Op TrackedWorld ExecutionError MessageResult := do
  if evm.version.maxCallDepth < message.depth then
    return errorMessageResult .callTooDeep message
  else
    let cp ← Op.total fun t => (checkpoint t, t)
    if !(← keeping (evm.callTransfer message)) then return errorMessageResult .outOfFunds message
    else if evm.precompiles.contains message.callTarget then executeCallPrecompile evm cp message
    else if message.code.isEmpty then return errorMessageResult .stop message
    else finishCallMessageRun evm cp (← run message)

def executeMessageImpl (run : Message → Op TrackedWorld ExecutionError FrameResult)
    (message : Message) : Op TrackedWorld ExecutionError MessageResult := do
  let result ← (if message.kind.isCreate then executeCreateMessage evm run message
    else executeCallMessage evm run message)
  return { result with gas := result.gas.settleGas result.stop }

def hostExecuteMessage (run : Message → Op TrackedWorld ExecutionError FrameResult)
    (message : Message) : Op TrackedWorld ExecutionError MessageResult := do
  let cp ← Op.total fun t => (checkpoint t, t)
  Op.onError (rollback evm cp) (executeMessageImpl evm run message)

def executeMessage : Nat → Message → Op TrackedWorld ExecutionError MessageResult
  | 0, _ => Op.fail .outOfFuel
  | fuel + 1, message =>
    hostExecuteMessage evm (runInterpreter evm (executeMessage fuel) fuel) message

end Evm.Tracked

end Evm2
