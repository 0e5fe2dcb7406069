import Evm2.Lib.Fixed

/-!
# Stop reasons and gas tracking

The counters of the code are 64-bit; here they are numbers and every operation says how it wraps or
saturates.
-/

namespace Evm2

/-- `InstrStop`. The stop `Reload`, which no frame reports, is left out. -/
inductive InstrStop
  | stop | return | selfDestruct
  | revert | callTooDeep | outOfFunds | nonceOverflow
  | outOfGas | memoryOOG | memoryLimitOOG | precompileOOG | invalidOperandOOG
  | reentrancySentryOOG | callNotAllowedInsideStatic | stateChangeDuringStaticCall
  | opcodeNotFound | invalidFEOpcode | invalidJump | notActivated | stackUnderflow | stackOverflow
  | outOfOffset | createCollision | precompileError | createContractSizeLimit
  | createContractStartingWithEF | createInitCodeSizeLimit | fatalExternalError
  | invalidImmediateEncoding
  deriving DecidableEq, Repr

namespace InstrStop

def isSuccess : InstrStop → Bool
  | stop | «return» | selfDestruct => true
  | _ => false

def isRevert (s : InstrStop) : Bool := s == revert

def isFrameRevert : InstrStop → Bool
  | revert | callTooDeep | outOfFunds | nonceOverflow => true
  | _ => false

def isHalt (s : InstrStop) : Bool := !s.isSuccess && !s.isFrameRevert

def isFatal (s : InstrStop) : Bool := s == fatalExternalError

end InstrStop

structure GasTracker where
  remaining : Nat
  gasLimit : Nat
  reservoir : Nat
  stateGasSpent : Int
  stateGasSpilled : Nat
  refunded : Int
  deriving DecidableEq, Repr

namespace GasTracker

def fromParts (gasLimit remaining reservoir : Nat) : GasTracker :=
  { remaining, gasLimit, reservoir, stateGasSpent := 0, stateGasSpilled := 0, refunded := 0 }

def newWithExecutionGasAndReservoir (limit reservoir : Nat) : GasTracker :=
  fromParts limit limit reservoir

def newSpentWithReservoir (limit reservoir : Nat) : GasTracker := fromParts limit 0 reservoir

variable (g : GasTracker)

def absorbReturnedReservoir (reservoir : Nat) : GasTracker :=
  let toRemaining := min reservoir g.stateGasSpilled
  { g with
    remaining := satAdd64 g.remaining toRemaining
    stateGasSpilled := g.stateGasSpilled - toRemaining
    reservoir := reservoir - toRemaining }

def addStateGasSpent (delta : Int) : GasTracker :=
  { g with stateGasSpent := clampI64 (g.stateGasSpent + delta) }

def addStateGasSpilled (delta : Nat) : GasTracker :=
  { g with stateGasSpilled := satAdd64 g.stateGasSpilled delta }

def remainingExcludingStateSpill : Nat := satAdd64 g.remaining g.stateGasSpilled

/-- `GasTracker::spend`: whether the gas sufficed, and the tracker, which wraps if it did not. -/
def spend (cost : Nat) : Bool × GasTracker :=
  (cost ≤ g.remaining, { g with remaining := wrapSub64 g.remaining cost })

def spendState (cost : Nat) : Bool × GasTracker :=
  if cost ≤ g.reservoir then
    (true, { g.addStateGasSpent (wrapI64 cost) with reservoir := g.reservoir - cost })
  else
    let spill := cost - g.reservoir
    let r := g.spend spill
    if r.1 then
      (true, { (r.2.addStateGasSpent (wrapI64 cost)).addStateGasSpilled spill with reservoir := 0 })
    else (false, r.2)

def rollbackStateGas : GasTracker :=
  { g with
    reservoir := satAddSigned64 g.reservoir g.stateGasSpent - g.stateGasSpilled
    remaining := g.remainingExcludingStateSpill
    stateGasSpent := 0
    stateGasSpilled := 0 }

def refillReservoir (amount : Nat) : GasTracker :=
  let toRemaining := min amount g.stateGasSpilled
  { g with
    remaining := satAdd64 g.remaining toRemaining
    stateGasSpilled := g.stateGasSpilled - toRemaining
    reservoir := satAdd64 g.reservoir (amount - toRemaining)
    stateGasSpent := clampI64 (g.stateGasSpent - wrapI64 amount) }

def recordRefund (refund : Int) : GasTracker := { g with refunded := wrapI64 (g.refunded + refund) }

def eraseCost (returned : Nat) : GasTracker :=
  { g with remaining := wrapAdd64 g.remaining returned }

def settleGas (reason : InstrStop) : GasTracker :=
  let g := if reason.isSuccess then g else { g.rollbackStateGas with refunded := 0 }
  if reason.isHalt then { g with remaining := 0 } else g

def mergeChildGas (child : GasTracker) (reason : InstrStop) : GasTracker :=
  let g := if reason.isSuccess || reason.isFrameRevert then g.eraseCost child.remaining else g
  let g :=
    if reason.isSuccess then
      ((g.addStateGasSpent child.stateGasSpent).addStateGasSpilled child.stateGasSpilled
        ).recordRefund child.refunded
    else g
  g.absorbReturnedReservoir child.reservoir

def spendAll : GasTracker := { g with remaining := 0 }

end GasTracker

structure MemoryGas where
  wordsNum : Nat
  expansionCost : Nat
  deriving DecidableEq, Repr

def MemoryGas.new : MemoryGas := ⟨0, 0⟩

end Evm2
