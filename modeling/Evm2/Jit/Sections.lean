import Evm2.Jit.Bytecode

/-!
# Gas and stack sections

The compiler charges static gas and checks the stack once for a section: a sequence of instructions
that is entered at its head only and left at its end only.
-/

namespace Evm2.Jit

/-- `StackSection`: the height that the section requires, and its largest growth. -/
structure StackSection where
  inputs : ℤ
  maxGrowth : ℤ
  deriving DecidableEq, Repr

/-- `StackSectionAnalysis`. -/
structure StackSectionAnalysis where
  inputs : ℤ := 0
  diff : ℤ := 0
  maxGrowth : ℤ := 0
  startInst : ℕ := 0

namespace StackSectionAnalysis

def process (s : StackSectionAnalysis) (io : ℕ × ℕ) : StackSectionAnalysis :=
  let diff := s.diff + (io.2 - io.1)
  { s with inputs := max s.inputs (io.1 - s.diff), diff, maxGrowth := max s.maxGrowth diff }

/-- `StackSectionAnalysis::section`: the fields saturate. -/
def toSection (s : StackSectionAnalysis) : StackSection :=
  ⟨if 0 ≤ s.inputs ∧ s.inputs < 2 ^ 16 then s.inputs else 2 ^ 16 - 1,
    if -2 ^ 15 ≤ s.maxGrowth ∧ s.maxGrowth < 2 ^ 15 then s.maxGrowth else 2 ^ 15 - 1⟩

end StackSectionAnalysis

/-- `GasSectionAnalysis`. -/
structure GasSectionAnalysis where
  gasCost : ℕ := 0
  startInst : ℕ := 0
  /-- The `GAS` instructions of the section, with its gas up to and including each one. -/
  gasInsts : List (ℕ × ℕ) := []

/-- The gas of an instruction that is charged with its section: the one of an `EXP` with a known
exponent is. -/
def Bytecode.staticGas (bc : Bytecode) (expCost : Word → ℕ) (i : ℕ) : ℕ :=
  (bc.inst i).baseGas +
    if (bc.inst i).opcode = some .exp then ((bc.constOperand i 1).map expCost).getD 0 else 0

/-- `GasSectionAnalysis::process`, `process_gas` and `process_extra`, as they are called. -/
def GasSectionAnalysis.process (s : GasSectionAnalysis) (bc : Bytecode) (expCost : Word → ℕ)
    (i : ℕ) : GasSectionAnalysis :=
  { s with
    gasCost := s.gasCost + bc.staticGas expCost i
    gasInsts :=
      if (bc.inst i).opcode = some .gas then s.gasInsts ++ [(i, s.gasCost + (bc.inst i).baseGas)]
      else s.gasInsts }

/-- What the pass writes to the instructions: the heads of stack sections, with whether they
continue the section before, the costs of gas sections, and what the instructions `GAS` are owed. -/
structure Sections where
  stackHead : ℕ → Option (StackSection × Bool) := fun _ => none
  gasCost : ℕ → ℕ := fun _ => 0
  gasOwed : ℕ → ℕ := fun _ => 0

def SATURATED : ℕ := 2 ^ 32 - 1

/-- A cost of 32 bits, which saturates. -/
def saturate32 (gas : ℕ) : ℕ := min gas SATURATED

/-- The first live instruction from a position on. -/
def Bytecode.firstLive (bc : Bytecode) (start : ℕ) : Option ℕ := bc.liveInsts.find? (start ≤ ·)

/-- `StackSectionAnalysis::save_to`. -/
def Sections.saveStack (out : Sections) (bc : Bytecode) (start : ℕ) (sec : StackSection)
    (continues : Bool) : Sections :=
  match bc.firstLive start with
  | some i => { out with stackHead := Function.update out.stackHead i (some (sec, continues)) }
  | none => out

/-- The loop of `GasSectionAnalysis::save_to` over the instructions `GAS`. -/
def Sections.saveOwed (out : Sections) (total : ℕ) (gasInsts : List (ℕ × ℕ)) : Sections :=
  gasInsts.foldl (fun out p =>
    { out with gasOwed := Function.update out.gasOwed p.1 (saturate32 (total - p.2)) }) out

/-- `GasSectionAnalysis::save_to`. -/
def Sections.saveGas (out : Sections) (bc : Bytecode) (gas : GasSectionAnalysis) : Sections :=
  if bc.insts.length ≤ gas.startInst then out
  else
    let charged :=
      match bc.firstLive gas.startInst with
      | some i =>
        if saturate32 gas.gasCost = 0 then out
        else { out with gasCost := Function.update out.gasCost i (saturate32 gas.gasCost) }
      | none => out
    charged.saveOwed gas.gasCost gas.gasInsts

/-- `SectionsAnalysis`, with what has been written so far. -/
structure SectionsAnalysis where
  gas : GasSectionAnalysis := {}
  stack : StackSectionAnalysis := {}
  continues : Bool := false
  chainOffset : ℤ := 0
  checked : ℤ × ℤ := (0, 0)
  out : Sections := {}

/-- `continues_into`. -/
def continuesInto (bc : Bytecode) (i : ℕ) : Bool :=
  (bc.inst i).opcode == some .jumpi && decide (i + 1 < bc.insts.length) &&
    !(bc.inst (i + 1)).isDeadCode && bc.isFallThroughOnly (i + 1)

namespace SectionsAnalysis

variable (bc : Bytecode)

/-- `SectionsAnalysis::save_stack`. -/
def saveStack (s : SectionsAnalysis) : SectionsAnalysis :=
  let sec := s.stack.toSection
  if s.continues then
    let low := s.chainOffset - sec.inputs
    let high := s.chainOffset + sec.maxGrowth
    let kept : StackSection :=
      ⟨if s.checked.1 ≤ low then 0 else sec.inputs,
        if high ≤ s.checked.2 then 0 else sec.maxGrowth⟩
    { s with
      checked := (min s.checked.1 low, max s.checked.2 high)
      out := s.out.saveStack bc s.stack.startInst kept true }
  else
    { s with
      chainOffset := 0
      checked := (-sec.inputs, sec.maxGrowth)
      out := s.out.saveStack bc s.stack.startInst sec false }

/-- `SectionsAnalysis::save_stack_reset`. -/
def saveStackReset (s : SectionsAnalysis) (next : ℕ) (nextContinues : Bool) : SectionsAnalysis :=
  let s := s.saveStack bc
  { s with
    chainOffset := s.chainOffset + s.stack.diff
    continues := nextContinues
    stack := { startInst := next } }

/-- `GasSectionAnalysis::save_to_reset`. -/
def saveGasReset (s : SectionsAnalysis) (next : ℕ) : SectionsAnalysis :=
  { s with out := s.out.saveGas bc s.gas, gas := { startInst := next } }

/-- Both sections end, and new ones start at `next`. -/
def close (s : SectionsAnalysis) (next : ℕ) (nextContinues : Bool) : SectionsAnalysis :=
  (s.saveStackReset bc next nextContinues).saveGasReset bc next

variable (expCost : Word → ℕ)

/-- The part of `SectionsAnalysis::process` that accumulates. -/
def accumulate (s : SectionsAnalysis) (i : ℕ) : SectionsAnalysis :=
  { s with
    stack := s.stack.process (bc.inst i).stackIo
    gas := s.gas.process bc expCost i }

/-- `JUMPDEST` starts both sections. -/
def enter (s : SectionsAnalysis) (i : ℕ) : SectionsAnalysis :=
  if (bc.inst i).isReachableJumpdest bc.hasDynamicJumps then s.close bc i false else s

/-- Branching instructions and host effects end both sections. -/
def leave (s : SectionsAnalysis) (i : ℕ) : SectionsAnalysis :=
  if (bc.inst i).isBranching || (bc.inst i).endsSections then
    s.close bc (i + 1) (continuesInto bc i)
  else s

/-- `SectionsAnalysis::process`. -/
def process (s : SectionsAnalysis) (i : ℕ) : SectionsAnalysis :=
  (((s.enter bc i).accumulate bc expCost i).leave bc i)

/-- `SectionsAnalysis::finish`. -/
def finish (s : SectionsAnalysis) : SectionsAnalysis :=
  { s with out := s.out.saveGas bc s.gas }.saveStack bc

end SectionsAnalysis

/-- `Bytecode::construct_sections`; a bytecode with a saturated gas section is rejected. -/
def Bytecode.constructSections (bc : Bytecode) (expCost : Word → ℕ) : Sections :=
  ((bc.liveInsts.foldl (SectionsAnalysis.process bc expCost) {}).finish bc).out

end Evm2.Jit
