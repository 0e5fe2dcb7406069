import Evm2.Lib.Prog
import Evm2.Interpreter.Arithmetic
import Evm2.Interpreter.Message
import Evm2.Interpreter.Opcode

/-!
# Frames and instructions

An instruction works on its frame (`Interpreter`: stack, memory, counter, return data) and asks its
environment for everything else: gas, account and storage data, and messages to be executed. The
questions are of two kinds. A `Query` spends execution gas, reads, or warms what it reads; a
`Request` is a query or one of the operations that change the state or the state gas. Instructions
that only make queries are written over `Query`, so their types tell what they cannot do.

Stack and memory operations, with their checks in the order of the code.
-/

namespace Evm2

/-! ## Requests -/

/-- What every instruction may ask for. -/
inductive Query
  | spend (cost : Nat)
  | remaining
  | loadAccount (address : Address) (loadCode skipColdLoad : Bool)
  | blockHash (number : Word)
  | sload (address : Address) (key : Word) (skipColdLoad : Bool)
  | tload (address : Address) (key : Word)
  deriving DecidableEq

/-- The answers. A host operation that halts the frame answers with the stop reason; one that fails
ends the run of the frame and has no answer. -/
@[reducible]
def Query.Resp : Query → Type
  | spend _ => Bool
  | remaining => Nat
  | loadAccount _ _ _ => Except InstrStop AccountLoad
  | blockHash _ => B256
  | sload _ _ _ => Except InstrStop SLoad
  | tload _ _ => Word

/-- What the system instructions may ask for. -/
inductive Request
  | query (q : Query)
  | sstore (address : Address) (key value : Word) (skipColdLoad : Bool)
  | tstore (address : Address) (key value : Word)
  | log (l : Log)
  | selfdestruct (contract target : Address) (skipColdLoad : Bool)
  | executeMessage (message : Message)
  | reservoir
  | spendState (cost : Nat)
  | refillReservoir (amount : Nat)
  | recordRefund (refund : Int)
  | mergeChildGas (child : GasTracker) (reason : InstrStop)
  /-- The run of the frame is given up. There is no such request in the code: it is made when the
  bound on the number of instructions is reached, and never answered. -/
  | outOfFuel
  deriving DecidableEq

@[reducible]
def Request.Resp : Request → Type
  | query q => q.Resp
  | sstore _ _ _ _ => Except InstrStop SStore
  | tstore _ _ _ | log _ | refillReservoir _ | recordRefund _ | mergeChildGas _ _ => Unit
  | selfdestruct _ _ _ => Except InstrStop SelfDestructResult
  | executeMessage _ => MessageResult
  | reservoir => Nat
  | spendState _ => Bool
  | outOfFuel => Empty

/-! ## Frames -/

/-- What a frame reads and never changes. -/
structure FrameEnv where
  version : Version
  opcodes : OpcodeConfig
  block : BlockEnv
  tx : TxEnv
  message : Message

namespace FrameEnv

variable (env : FrameEnv)

abbrev gasParams : GasParams := env.version.gasParams

def feature (f : Feature) : Bool := env.version.feature f

def isStatic : Bool := env.message.isStatic

end FrameEnv

/-- The state of a frame. The stack is kept with its top first, and the output as a range of the
memory. -/
structure Interpreter where
  pc : Nat
  stack : List Word
  memory : Bytes
  memoryGas : MemoryGas
  returnData : Bytes
  output : Nat × Nat

def Interpreter.init : Interpreter := ⟨0, [], [], .new, [], (0, 0)⟩

def STACK_LIMIT : Nat := 1024

/-- An instruction over the given requests. -/
structure Instr (Req : Type) (Resp : Req → Type) (α : Type) where
  run : Interpreter → Prog Req Resp (Except InstrStop α × Interpreter)

namespace Instr

variable {Req : Type} {Resp : Req → Type} {α β : Type}

instance : Monad (Instr Req Resp) where
  pure a := ⟨fun f => pure (.ok a, f)⟩
  bind x g := ⟨fun f => do
    let r ← x.run f
    match r.1 with
    | .ok a => (g a).run r.2
    | .error reason => pure (.error reason, r.2)⟩

def stop (reason : InstrStop) : Instr Req Resp α := ⟨fun f => pure (.error reason, f)⟩

def ask (r : Req) : Instr Req Resp (Resp r) := ⟨fun f => do return (.ok (← Prog.call r), f)⟩

def get : Instr Req Resp Interpreter := ⟨fun f => pure (.ok f, f)⟩

def modify (g : Interpreter → Interpreter) : Instr Req Resp Unit := ⟨fun f => pure (.ok (), g f)⟩

def ofExcept (x : Except InstrStop α) : Instr Req Resp α := ⟨fun f => pure (x, f)⟩

def when (c : Prop) [Decidable c] (x : Instr Req Resp Unit) : Instr Req Resp Unit :=
  if c then x else pure ()

/-! ## Stack -/

def checkBounds (input output : Nat) : Instr Req Resp Unit := do
  let len := (← get).stack.length
  if len < input then stop .stackUnderflow
  else if input < output ∧ len - input = STACK_LIMIT then stop .stackOverflow
  else pure ()

def popUnchecked : Instr Req Resp Word := do
  let f ← get
  modify fun f => { f with stack := f.stack.tail }
  return f.stack.headD 0

def write (w : Word) : Instr Req Resp Unit := modify fun f => { f with stack := w :: f.stack }

def popn (n : Nat) : Instr Req Resp (List Word) := do
  let f ← get
  if f.stack.length < n then stop .stackUnderflow
  else
    modify fun f => { f with stack := f.stack.drop n }
    return f.stack.take n

def pop : Instr Req Resp Word := return (← popn 1).headD 0

def push (w : Word) : Instr Req Resp Unit := do
  if (← get).stack.length = STACK_LIMIT then stop .stackOverflow else write w

def dup (n : Nat) : Instr Req Resp Unit := do
  let f ← get
  if f.stack.length = STACK_LIMIT then stop .stackOverflow
  else if f.stack.length < n then stop .stackUnderflow
  else write (f.stack.getD (n - 1) 0)

def exchange (n m : Nat) : Instr Req Resp Unit := do
  let f ← get
  if f.stack.length ≤ n ∨ f.stack.length ≤ m then stop .stackUnderflow
  else modify fun f => { f with
    stack := (f.stack.set n (f.stack.getD m 0)).set m (f.stack.getD n 0) }

def swap (n : Nat) : Instr Req Resp Unit := exchange 0 n

/-! ## Instructions that compute their output from their inputs -/

def nullary (w : Instr Req Resp Word) : Instr Req Resp Unit := do
  checkBounds 0 1
  write (← w)

def unary (g : Word → Instr Req Resp Word) : Instr Req Resp Unit := do
  checkBounds 1 1
  let a ← popUnchecked
  write (← g a)

def binary (g : Word → Word → Instr Req Resp Word) : Instr Req Resp Unit := do
  checkBounds 2 1
  let a ← popUnchecked
  let b ← popUnchecked
  write (← g a b)

def ternary (g : Word → Word → Word → Instr Req Resp Word) : Instr Req Resp Unit := do
  checkBounds 3 1
  let a ← popUnchecked
  let b ← popUnchecked
  let c ← popUnchecked
  write (← g a b c)

end Instr

/-! ## Memory -/

def memorySlice (memory : Bytes) (offset len : Nat) : Bytes := (memory.drop offset).take len

def memorySet (memory : Bytes) (offset : Nat) (value : Bytes) : Bytes :=
  if value.isEmpty then memory
  else memory.take offset ++ value ++ memory.drop (offset + value.length)

def paddedSlice (data : Bytes) (offset len : Nat) : Bytes :=
  let bytes := (data.drop offset).take len
  bytes ++ List.replicate (len - bytes.length) 0

theorem length_paddedSlice (data : Bytes) (offset len : Nat) :
    (paddedSlice data offset len).length = len := by
  simp only [paddedSlice, List.length_append, List.length_take, List.length_drop,
    List.length_replicate]
  omega

def memorySetData (memory : Bytes) (memoryOffset dataOffset len : Nat) (data : Bytes) : Bytes :=
  if len = 0 then memory else memorySet memory memoryOffset (paddedSlice data dataOffset len)

/-- An instruction that only makes queries. -/
abbrev SimpleInstr := Instr Query Query.Resp

namespace SimpleInstr

def spend (cost : Nat) : SimpleInstr Unit := do
  if ← Instr.ask (.spend cost) then pure () else Instr.stop .outOfGas

def resizeMemory (env : FrameEnv) (offset len : Nat) : SimpleInstr Unit := do
  let f ← Instr.get
  let newNumWords := numWords (satAdd64 offset len)
  if newNumWords ≤ f.memoryGas.wordsNum then pure ()
  else if 2 ^ 64 ≤ newNumWords * 32 then Instr.stop .memoryOOG
  else if env.version.memoryLimit < newNumWords * 32 then Instr.stop .memoryLimitOOG
  else
    let cost := env.gasParams.memoryCost newNumWords
    Instr.modify fun f => { f with memoryGas := ⟨newNumWords, cost⟩ }
    if ← Instr.ask (.spend (cost - f.memoryGas.expansionCost)) then
      Instr.modify fun f => { f with
        memory := f.memory ++ List.replicate (newNumWords * 32 - f.memory.length) 0 }
    else Instr.stop .memoryOOG

def loadAccount (env : FrameEnv) (addr : Word) (loadCode : Bool) : SimpleInstr AccountLoad := do
  let coldLoadGas := env.gasParams.coldAccountAdditionalCost
  let skipColdLoad := (← Instr.ask .remaining) < coldLoadGas
  let account ← Instr.ask (.loadAccount addr.toAddress loadCode skipColdLoad)
  let account ← Instr.ofExcept account
  if account.isCold then spend coldLoadGas
  return account

def copyData (env : FrameEnv) (memoryOffset dataOffset : Word) (len : Nat) (data : Bytes) :
    SimpleInstr Unit := do
  if len ≠ 0 then
    let memoryOffset ← Instr.ofExcept memoryOffset.toUsize
    resizeMemory env memoryOffset len
    Instr.modify fun f => { f with
      memory := memorySetData f.memory memoryOffset dataOffset.toUsizeSaturated len data }

end SimpleInstr

end Evm2
