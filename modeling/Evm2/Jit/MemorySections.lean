import Evm2.Jit.Cfg
import Evm2.Lib.Fixed
import Evm2.Lib.Worklist

/-!
# Memory sections

What is known of the size of the memory before each access: a lower bound, and the exact size as
long as all accesses on all paths are known. Compiled code leaves out checks that the bound makes
unnecessary, and resizes without a check where the exact size shows that memory grows.
-/

namespace Evm2.Jit

structure MemorySection where
  knownSize : ℕ := 0
  requiredSize : ℕ := 0
  directResizeSize : ℕ := 0
  deriving DecidableEq, Repr

/-! ## Accesses -/

def Bytecode.constU64 (bc : Bytecode) (i depth : ℕ) : Option ℕ :=
  (bc.constOperand i depth).bind fun value =>
    if value.toNat < 2 ^ 64 then some value.toNat else none

def Bytecode.constMemoryAccesses (bc : Bytecode) (i : ℕ) : List (Option ℕ × Option ℕ) :=
  let data := bc.inst i
  if data.flags.disabled || data.flags.unknown || data.flags.host then []
  else
    let operand := bc.constU64 i
    match data.opcode with
    | some .keccak256 | some .return | some .revert | some (.log _) => [(operand 0, operand 1)]
    | some .mload | some .mstore => [(operand 0, some 32)]
    | some .mstore8 => [(operand 0, some 1)]
    | some .calldatacopy | some .codecopy | some .returndatacopy => [(operand 0, operand 2)]
    | some .extcodecopy => [(operand 1, operand 3)]
    | some .mcopy =>
      [((operand 0).bind fun dst => (operand 1).map fun src => max dst src, operand 2)]
    | some .create | some .create2 => [(operand 1, operand 2)]
    | some .call | some .callcode => [(operand 3, operand 4), (operand 5, operand 6)]
    | some .delegatecall | some .staticcall => [(operand 2, operand 3), (operand 4, operand 5)]
    | _ => []

def roundMemorySize (size : ℕ) : ℕ := satAdd64 size 31 / 32 * 32

def exactMemorySizeForAccess (access : Option ℕ × Option ℕ) : Option ℕ :=
  if access.2 = some 0 then some 0
  else
    access.1.bind fun offset => access.2.map fun len => roundMemorySize (satAdd64 offset len)

def minMemorySizeForAccess (access : Option ℕ × Option ℕ) : ℕ :=
  match access with
  | (_, none) => 0
  | (none, some len) => if len = 0 then 0 else roundMemorySize len
  | (some offset, some len) => if len = 0 then 0 else roundMemorySize (satAdd64 offset len)

def maxSize (a b : Option ℕ) : Option ℕ := a.bind fun x => b.map fun y => max x y

/-! ## Blocks -/

structure BlockMemoryState where
  knownSize : Option ℕ := none
  exactKnownSize : Option ℕ := none
  deriving DecidableEq, Repr

def joinState (entry pred : BlockMemoryState) : BlockMemoryState :=
  match pred.knownSize, entry.knownSize with
  | none, _ => entry
  | some _, none => pred
  | some predKnown, some entryKnown =>
    { knownSize := some (min entryKnown predKnown)
      exactKnownSize :=
        if entry.exactKnownSize = pred.exactKnownSize then entry.exactKnownSize else none }

section Analysis

variable (bc : Bytecode) (cfg : Cfg)

def blockAccesses (b : ℕ) : List (Option ℕ × Option ℕ) :=
  (cfg.block b).insts.flatMap bc.constMemoryAccesses

def blockMinRequiredSize (b : ℕ) : ℕ :=
  (blockAccesses bc cfg b).foldl (fun size access => max size (minMemorySizeForAccess access)) 0

def blockExactRequiredSize (b : ℕ) : Option ℕ :=
  (blockAccesses bc cfg b).foldl
    (fun size access => maxSize size (exactMemorySizeForAccess access)) (some 0)

def blockExitState (b : ℕ) (state : BlockMemoryState) : BlockMemoryState :=
  { knownSize := state.knownSize.map fun size => max size (blockMinRequiredSize bc cfg b)
    exactKnownSize := maxSize state.exactKnownSize (blockExactRequiredSize bc cfg b) }

def isDynamicJumpBlock (b : ℕ) : Bool :=
  bc.hasDynamicJumps && decide (b < cfg.blocks.length) &&
    (bc.inst (cfg.block b).terminator).isDynamicJump

def dynamicJumpTargets : List ℕ :=
  if bc.hasDynamicJumps then
    (List.range cfg.blocks.length).filter fun b =>
      (bc.inst (cfg.block b).start).isReachableJumpdest true
  else []

def memoryFlow : DataFlow BlockMemoryState where
  join := joinState
  transfer := blockExitState bc cfg
  live state := state.knownSize.isSome
  succs b := (cfg.block b).succs
  toHub := isDynamicJumpBlock bc cfg
  fromHub := dynamicJumpTargets bc cfg

/-- How often a state can still go down: when its block is reached, then twice for each size. -/
def stateRank (state : BlockMemoryState) : ℕ :=
  match state.knownSize with
  | none => 2 ^ 65
  | some size => 2 * size + if state.exactKnownSize.isSome then 1 else 0

def initialStates : DataFlow.State BlockMemoryState where
  entry := Function.update (fun _ => {}) 0 ⟨some 0, some 0⟩
  hub := {}
  queue := [0]

/-- `compute_block_entry_states`: there is as much fuel as the loop can use. -/
def computeBlockEntryStates : ℕ → BlockMemoryState :=
  ((memoryFlow bc cfg).solve
    (DataFlow.potential stateRank cfg.blocks.length initialStates) initialStates).entry

/-! ## Sections -/

/-- The variables of `save_sections`. -/
structure Saving where
  known : ℕ
  exact : Option ℕ
  sections : ℕ → MemorySection

/-- The section of an instruction after one more access, with the sizes before it. -/
def MemorySection.add (s : MemorySection) (known : ℕ) (exact : Option ℕ)
    (access : Option ℕ × Option ℕ) : MemorySection :=
  let required := exactMemorySizeForAccess access
  if known ≠ 0 ∨ required.any (· ≠ 0) then
    let knownSize := if s.knownSize = 0 ∧ s.requiredSize = 0 then known else s.knownSize
    match required with
    | none => { s with knownSize }
    | some size =>
      { knownSize
        requiredSize := max s.requiredSize size
        directResizeSize :=
          if exact.any (· < size) then max s.directResizeSize size else s.directResizeSize }
  else s

def saveAccess (i : ℕ) (s : Saving) (access : Option ℕ × Option ℕ) : Saving where
  known := max s.known (minMemorySizeForAccess access)
  exact := maxSize s.exact (exactMemorySizeForAccess access)
  sections := Function.update s.sections i ((s.sections i).add s.known s.exact access)

def saveInst (s : Saving) (i : ℕ) : Saving := (bc.constMemoryAccesses i).foldl (saveAccess i) s

def saveBlock (entry : ℕ → BlockMemoryState) (sections : ℕ → MemorySection) (b : ℕ) :
    ℕ → MemorySection :=
  match (entry b).knownSize with
  | none => sections
  | some known =>
    ((cfg.block b).insts.foldl (saveInst bc) ⟨known, (entry b).exactKnownSize, sections⟩).sections

def saveSections (entry : ℕ → BlockMemoryState) : ℕ → MemorySection :=
  (List.range cfg.blocks.length).foldl (saveBlock bc cfg entry) fun _ => {}

def memorySections : ℕ → MemorySection := saveSections bc cfg (computeBlockEntryStates bc cfg)

end Analysis

end Evm2.Jit
