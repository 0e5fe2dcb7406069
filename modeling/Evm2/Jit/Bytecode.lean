import Evm2.Interpreter.Opcode

/-!
# Analysed bytecode

The instructions of a bytecode as the compiler sees them, with the flags that its passes set.
-/

namespace Evm2.Jit

/-- `InstFlags`, as far as the passes that are modelled read them. -/
structure InstFlags where
  staticJump : Bool := false
  invalidJump : Bool := false
  multiJump : Bool := false
  constJumpCondition : Bool := false
  disabled : Bool := false
  unknown : Bool := false
  invalidImmediate : Bool := false
  deadCode : Bool := false
  redirectTarget : Bool := false
  host : Bool := false
  deriving DecidableEq, Repr

/-- `InstData`. An opcode that is not in the opcode table has none here; the fields that are kept
in `data` have their own names. -/
structure InstData where
  opcode : Option OpCode
  flags : InstFlags := {}
  baseGas : ℕ := 0
  stackIo : ℕ × ℕ := (0, 0)
  jumpdestReachable : Bool := false
  deriving DecidableEq, Repr

namespace InstData

variable (data : InstData)

def isJump : Bool := data.opcode == some .jump || data.opcode == some .jumpi

def isStaticJump : Bool := data.isJump && data.flags.staticJump

def hasConstJumpiCondition : Bool :=
  data.opcode == some .jumpi && data.flags.constJumpCondition

def isJumpdest : Bool := data.opcode == some .jumpdest

def isReachableJumpdest (hasDynamicJumps : Bool) : Bool :=
  data.isJumpdest && (hasDynamicJumps || data.jumpdestReachable)

def isDeadCode : Bool := data.flags.deadCode

def isDiverging : Bool :=
  (data.opcode == some .jump && data.flags.invalidJump) || data.flags.disabled ||
    data.flags.unknown || data.flags.invalidImmediate ||
    match data.opcode with
    | some .stop | some .return | some .revert | some .invalid | some .selfdestruct => true
    | _ => false

def isBranching : Bool := data.isJump || data.isDiverging

def canFallThrough : Bool :=
  !data.isDiverging && data.opcode != some .jump && !data.hasConstJumpiCondition

def endsSections : Bool :=
  data.flags.host ||
    match data.opcode with
    | some .create | some .call | some .callcode | some .delegatecall | some .create2
    | some .staticcall => true
    | some .sstore | some .balance | some .extcodesize | some .extcodecopy | some .extcodehash
    | some .sload | some .selfdestruct => true
    | _ => false

end InstData

/-- `Bytecode`: the instructions, whether there are unresolved jumps, and the operands that the
snapshots know to be constant, with the top of the stack at depth 0. -/
structure Bytecode where
  insts : List InstData
  hasDynamicJumps : Bool := false
  constOperand : ℕ → ℕ → Option Word := fun _ _ => none

namespace Bytecode

variable (bc : Bytecode)

def inst (i : ℕ) : InstData := bc.insts.getD i ⟨none, {}, 0, (0, 0), false⟩

def Live (i : ℕ) : Prop := i < bc.insts.length ∧ (bc.inst i).isDeadCode = false

instance (i : ℕ) : Decidable (bc.Live i) := inferInstanceAs (Decidable (_ ∧ _))

def liveInsts : List ℕ := (List.range bc.insts.length).filter fun i => !(bc.inst i).isDeadCode

def isFallThroughOnly (i : ℕ) : Bool :=
  if (bc.inst i).isReachableJumpdest bc.hasDynamicJumps || (bc.inst i).flags.redirectTarget then
    false
  else if i = 0 then true
  else !(bc.inst (i - 1)).isDeadCode && (bc.inst (i - 1)).canFallThrough

theorem mem_liveInsts {i : ℕ} : i ∈ bc.liveInsts ↔ bc.Live i := by
  unfold liveInsts Live
  rw [List.mem_filter, List.mem_range, Bool.not_eq_true']

theorem sorted_liveInsts : bc.liveInsts.Pairwise (· < ·) :=
  List.Pairwise.filter _ List.pairwise_lt_range

end Bytecode

end Evm2.Jit
