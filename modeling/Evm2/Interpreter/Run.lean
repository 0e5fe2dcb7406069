import Evm2.Interpreter.System

/-!
# The dispatch loop

`SysInstr.step` fetches the opcode, charges its static gas, runs its instruction and moves on;
`SysInstr.loop` repeats it until an instruction stops the frame. The number of turns is bounded by
an argument, and a run that reaches the bound is given up.
-/

namespace Evm2

namespace SysInstr

variable [Keccak] (env : FrameEnv)

/-- One turn of the dispatch loop. An opcode that is not defined runs `invalid`, at no cost. -/
def step : SysInstr Unit := do
  match OpCode.new (env.message.code.byteAt (← Instr.get).pc) with
  | none => Instr.stop .opcodeNotFound
  | some op =>
    match env.opcodes.staticGas op with
    | none => Instr.stop (if op = .invalid then .invalidFEOpcode else .notActivated)
    | some cost =>
      spend cost.toNat
      execute env op
      Instr.modify fun f => { f with pc := f.pc + op.instructionLen }

/-- `dispatch::run`, for at most `fuel` turns. It only ends by a stop. -/
def loop : Nat → SysInstr Empty
  | 0 => request .outOfFuel
  | fuel + 1 => do
    step env
    loop fuel

end SysInstr

end Evm2
