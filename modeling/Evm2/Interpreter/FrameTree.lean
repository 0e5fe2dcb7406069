import Evm2.Interpreter.GasLaws

/-!
# The gas of a tree of frames

A frame charges execution gas and state gas, refills its reservoir, and calls children. A child gets
a limit out of the remaining gas of its parent and inherits its reservoir; when it returns, its gas
is settled and merged. Here frames do nothing else, and whatever a real frame does to its gas is
one of these operations.
-/

namespace Evm2

/-- What a frame does to its gas. A call runs the operations `ops` of the child, which then stops
for `reason`; the charge `upfront` is refilled if the child fails. -/
inductive GasOp
  | spend (cost : ℕ)
  | spendState (cost : ℕ)
  | refillReservoir (amount : ℕ)
  | call (limit upfront : ℕ) (ops : List GasOp) (reason : InstrStop)

/-- A frame between two operations: `charged` is the execution gas it has charged, and `used` the
execution gas its children have used. -/
structure GasFrame where
  limit : ℕ
  inherited : ℕ
  gas : GasTracker
  charged : ℕ
  used : ℕ
  deriving DecidableEq, Repr

namespace GasFrame

def start (limit inherited : ℕ) : GasFrame :=
  ⟨limit, inherited, .newWithExecutionGasAndReservoir limit inherited, 0, 0⟩

/-- Why a child stops: its first failed charge, or `reason`. -/
def stopReason (child : Bool × GasFrame) (reason : InstrStop) : InstrStop :=
  if child.1 then reason else .outOfGas

def usedUp (child : GasFrame) (reason : InstrStop) : ℕ :=
  if reason.isHalt then child.limit else child.charged + child.used

/-- The return of a child to a frame that has paid for it. -/
def afterCall (f : GasFrame) (child : Bool × GasFrame) (upfront : ℕ) (reason : InstrStop) :
    GasFrame :=
  let reason := stopReason child reason
  let gas := f.gas.mergeChildGas (child.2.gas.settleGas reason) reason
  { f with
    gas := if reason.isSuccess then gas else gas.refillReservoir upfront
    used := f.used + child.2.usedUp reason }

end GasFrame

namespace GasOp

mutual

/-- Run an operation in a frame: whether the frame goes on, and the frame. It stops at the first
charge that fails, and when a child fails fatally. -/
def run : GasOp → GasFrame → Bool × GasFrame
  | spend cost, f =>
    ((f.gas.spend cost).1, { f with gas := (f.gas.spend cost).2, charged := f.charged + cost })
  | spendState cost, f => ((f.gas.spendState cost).1, { f with gas := (f.gas.spendState cost).2 })
  | refillReservoir amount, f => (true, { f with gas := f.gas.refillReservoir amount })
  | call limit upfront ops reason, f =>
    let paid := { f with gas := (f.gas.spend limit).2 }
    if (f.gas.spend limit).1 && !reason.isFatal then
      (true, paid.afterCall (runAll ops (.start limit paid.gas.reservoir)) upfront reason)
    else (false, paid)

def runAll : List GasOp → GasFrame → Bool × GasFrame
  | [], f => (true, f)
  | op :: ops, f => if (op.run f).1 then runAll ops (op.run f).2 else op.run f

end

mutual

/-- The frames inside an operation: those of its child. The flag tells whether the frame goes on. -/
def inside : GasOp → GasFrame → List (Bool × GasFrame)
  | call limit _ ops _, f =>
    if (f.gas.spend limit).1 then trace ops (.start limit (f.gas.spend limit).2.reservoir) else []
  | _, _ => []

/-- All frames of a tree between all their operations, and where they stop. -/
def trace : List GasOp → GasFrame → List (Bool × GasFrame)
  | [], f => [(true, f)]
  | op :: ops, f =>
    (true, f) :: op.inside f ++
      if (op.run f).1 then trace ops (op.run f).2 else [(false, (op.run f).2)]

end

mutual

def refills : GasOp → ℕ
  | refillReservoir amount => amount
  | call _ upfront ops _ => upfront + refillsAll ops
  | _ => 0

def refillsAll : List GasOp → ℕ
  | [] => 0
  | op :: ops => op.refills + refillsAll ops

end

end GasOp

namespace GasFrame

def Conserved (f : GasFrame) : Prop :=
  f.gas.Conserved f.limit f.inherited (f.charged + f.used : ℕ)

/-- No counter of the frame overflows even if `n` is refilled. -/
structure Fits (n : ℕ) (f : GasFrame) : Prop where
  inherited : f.limit + f.inherited + n < 2 ^ 63
  reservoir : f.limit + f.gas.reservoir + n < 2 ^ 63

theorem conserved_start (limit inherited : ℕ) : (start limit inherited).Conserved := by
  simpa [Conserved, start] using GasTracker.conserved_new limit inherited

/-- What running operations that refill `n` does to a frame; `ok` tells whether it goes on. -/
structure Ran (n : ℕ) (f : GasFrame) (ok : Bool) (f' : GasFrame) : Prop where
  limit : f'.limit = f.limit
  inherited : f'.inherited = f.inherited
  state : f'.gas.StateConserved f.inherited
  spilled : f'.gas.stateGasSpilled ≤ f.limit
  reservoir : f'.gas.reservoir ≤ f.gas.reservoir + n
  conserved : ok = true → f'.Conserved

variable {f f' f'' : GasFrame} {n n' : ℕ} {ok : Bool}

theorem Conserved.spilled_le (h : f.Conserved) : f.gas.stateGasSpilled ≤ f.limit := by
  have hexec := h.execution
  omega

theorem Ran.refl (h : f.Conserved) : Ran 0 f true f :=
  ⟨rfl, rfl, h.toStateConserved, h.spilled_le, Nat.le_refl _, fun _ => h⟩

theorem Ran.trans (h : Ran n f true f') (h' : Ran n' f' ok f'') : Ran (n + n') f ok f'' where
  limit := h'.limit.trans h.limit
  inherited := h'.inherited.trans h.inherited
  state := h.inherited ▸ h'.state
  spilled := h.limit ▸ h'.spilled
  reservoir := by
    have h₁ := h.reservoir
    have h₂ := h'.reservoir
    omega
  conserved := h'.conserved

theorem Fits.ran (hfit : f.Fits (n + n')) (h : Ran n f ok f') : f'.Fits n' := by
  have h₁ := hfit.inherited
  have h₂ := hfit.reservoir
  have h₃ := h.reservoir
  refine ⟨?_, ?_⟩
  · rw [h.limit, h.inherited]
    omega
  · rw [h.limit]
    omega

/-- What holds of a frame of a tree; the flag tells whether it goes on. -/
structure Sound (p : Bool × GasFrame) : Prop where
  fits : p.2.limit + p.2.inherited < 2 ^ 63
  state : p.2.gas.StateConserved p.2.inherited
  spilled : p.2.gas.stateGasSpilled ≤ p.2.limit
  conserved : p.1 = true → p.2.Conserved

theorem Conserved.sound (h : f.Conserved) (hfit : f.Fits n) : Sound (true, f) := by
  have hlimit := hfit.inherited
  exact ⟨by dsimp only; omega, h.toStateConserved, h.spilled_le, fun _ => h⟩

theorem ran_spend (h : f.Conserved) (hfit : f.Fits n) (cost : ℕ) :
    Ran 0 f ((GasOp.spend cost).run f).1 ((GasOp.spend cost).run f).2 := by
  obtain ⟨limit, inherited, gas, charged, used⟩ := f
  have hlimit : limit + inherited + n < 2 ^ 63 := hfit.inherited
  have hexec : (gas.remaining : ℤ) + gas.stateGasSpilled + (charged + used : ℕ) = limit :=
    h.execution
  simp only [GasOp.run]
  refine ⟨rfl, rfl, h.toStateConserved.spend cost, ?_, ?_, fun hok => ?_⟩
  · simpa using h.spilled_le
  · simp
  · rw [GasTracker.spend_fst, decide_eq_true_eq] at hok
    have hspend := GasTracker.Conserved.spend h (by dsimp only; omega) hok
    simp only [Conserved]
    have hsum : ((charged + cost + used : ℕ) : ℤ) = (charged + used : ℕ) + cost := by omega
    rw [hsum]
    exact hspend

theorem ran_spendState (h : f.Conserved) (hfit : f.Fits n) (cost : ℕ) :
    Ran 0 f ((GasOp.spendState cost).run f).1 ((GasOp.spendState cost).run f).2 := by
  obtain ⟨limit, inherited, gas, charged, used⟩ := f
  have hlimit : limit + inherited + n < 2 ^ 63 := hfit.inherited
  have hres : limit + gas.reservoir + n < 2 ^ 63 := hfit.reservoir
  have hexec : (gas.remaining : ℤ) + gas.stateGasSpilled + (charged + used : ℕ) = limit :=
    h.execution
  simp only [GasOp.run]
  by_cases hc : cost ≤ gas.reservoir + gas.remaining
  · obtain ⟨hcons, hle⟩ := GasTracker.Conserved.spendState h (by dsimp only; omega)
      (by dsimp only; omega) hc
    have hexec' := hcons.execution
    refine ⟨rfl, rfl, hcons.toStateConserved, ?_, hle, fun _ => hcons⟩
    dsimp only at hexec' ⊢
    omega
  · rw [GasTracker.spendState_failed hc]
    refine ⟨rfl, rfl, h.toStateConserved.spend _, ?_, ?_, fun hok => ?_⟩
    · simpa using h.spilled_le
    · simp
    · rw [GasTracker.spendState_fst, decide_eq_true_eq] at hok
      exact absurd hok hc

theorem ran_refillReservoir (h : f.Conserved) (amount : ℕ) (hfit : f.Fits amount) :
    Ran amount f true ((GasOp.refillReservoir amount).run f).2 := by
  obtain ⟨limit, inherited, gas, charged, used⟩ := f
  have hlimit : limit + inherited + amount < 2 ^ 63 := hfit.inherited
  have hres : limit + gas.reservoir + amount < 2 ^ 63 := hfit.reservoir
  have hexec : (gas.remaining : ℤ) + gas.stateGasSpilled + (charged + used : ℕ) = limit :=
    h.execution
  simp only [GasOp.run]
  have hamount : gas.remaining + gas.stateGasSpilled + gas.reservoir + amount < 2 ^ 63 := by omega
  obtain ⟨hcons, hle⟩ := GasTracker.Conserved.refillReservoir h (by dsimp only; omega) hamount
  have hexec' := hcons.execution
  refine ⟨rfl, rfl, hcons.toStateConserved, ?_, hle, fun _ => hcons⟩
  dsimp only at hexec' ⊢
  omega

theorem conserved_mergeChildGas {gas cgas : GasTracker} {limit inherited used climit : ℕ}
    {cused : ℕ} {reason : InstrStop} (hc : climit ≤ gas.remaining)
    (h : gas.Conserved limit inherited used) (hstate : cgas.StateConserved gas.reservoir)
    (hchild : reason.isHalt = false → cgas.Conserved climit gas.reservoir cused)
    (hspill : cgas.stateGasSpilled ≤ climit) (hlimit : limit + inherited < 2 ^ 63)
    (hfit : limit + gas.reservoir < 2 ^ 63) (hcfit : cgas.reservoir < 2 ^ 63) :
    ((gas.spend climit).2.mergeChildGas (cgas.settleGas reason) reason).Conserved limit inherited
        (used + (if reason.isHalt then climit else cused) : ℕ) ∧
      ((gas.spend climit).2.mergeChildGas (cgas.settleGas reason) reason).reservoir ≤
        max gas.reservoir cgas.reservoir := by
  have hexec := h.execution
  have hpaid := h.spend (by omega) hc
  have hrem := GasTracker.spend_remaining (g := gas) (by omega) hc
  have hres := GasTracker.spend_reservoir gas climit
  rw [← hres] at hstate hchild
  have hmerge := hpaid.mergeChildGas hstate hchild (by omega) hspill
    (by rw [hrem, GasTracker.spend_stateGasSpilled]; omega) (by rw [hres]; omega) hcfit
  rw [hres] at hmerge
  have hused : ((used + (if reason.isHalt then climit else cused) : ℕ) : ℤ) =
      (used : ℤ) + climit - GasTracker.handedBack climit cused reason := by
    unfold GasTracker.handedBack
    split_ifs <;> omega
  rw [hused]
  exact hmerge

theorem ran_afterCall {limit upfront : ℕ} {reason : InstrStop} {child : Bool × GasFrame}
    (hc : limit ≤ f.gas.remaining) (h : f.Conserved) (hfit : f.Fits (upfront + n))
    (hchild : Ran n (start limit f.gas.reservoir) child.1 child.2) :
    Ran (upfront + n) f true
      ({ f with gas := (f.gas.spend limit).2 }.afterCall child upfront reason) := by
  obtain ⟨flimit, inherited, gas, charged, used⟩ := f
  have hlimit : flimit + inherited + (upfront + n) < 2 ^ 63 := hfit.inherited
  have hres : flimit + gas.reservoir + (upfront + n) < 2 ^ 63 := hfit.reservoir
  have hcres : child.2.gas.reservoir ≤ gas.reservoir + n := hchild.reservoir
  have hcons : (stopReason child reason).isHalt = false →
      child.2.gas.Conserved limit gas.reservoir (child.2.charged + child.2.used : ℕ) := by
    intro hhalt
    cases hok : child.1 with
    | false =>
      rw [stopReason, hok] at hhalt
      cases hhalt
    | true =>
      have hcc := hchild.conserved hok
      unfold Conserved at hcc
      rw [hchild.limit, hchild.inherited] at hcc
      exact hcc
  have hgas : gas.Conserved flimit inherited (charged + used : ℕ) := h
  have hpay : limit ≤ gas.remaining := hc
  obtain ⟨hmerged, hle⟩ := conserved_mergeChildGas hpay hgas hchild.state hcons hchild.spilled
    (by omega) (by omega) (by omega)
  have hexec := hmerged.execution
  have hused : charged + (used + usedUp child.2 (stopReason child reason)) = charged + used +
      if (stopReason child reason).isHalt then limit else child.2.charged + child.2.used := by
    have hl : child.2.limit = limit := hchild.limit
    rw [usedUp, hl, Nat.add_assoc]
  simp only [afterCall]
  by_cases hok : (stopReason child reason).isSuccess = true
  · rw [if_pos hok]
    refine ⟨rfl, rfl, hmerged.toStateConserved, ?_, ?_, fun _ => ?_⟩
    · dsimp only at hexec ⊢
      omega
    · dsimp only
      omega
    · simp only [Conserved, hused]
      exact hmerged
  · rw [if_neg hok]
    have hupfront : ∀ g : GasTracker, g.Conserved flimit inherited
        (charged + used + if (stopReason child reason).isHalt then limit
          else child.2.charged + child.2.used : ℕ) →
        g.reservoir ≤ max gas.reservoir child.2.gas.reservoir →
        g.remaining + g.stateGasSpilled + g.reservoir + upfront < 2 ^ 63 := by
      intro g hg hgle
      have hgexec := hg.execution
      omega
    obtain ⟨hrefill, hle'⟩ := hmerged.refillReservoir (by omega) (hupfront _ hmerged hle)
    have hexec' := hrefill.execution
    refine ⟨rfl, rfl, hrefill.toStateConserved, ?_, ?_, fun _ => ?_⟩
    · dsimp only at hexec' ⊢
      omega
    · dsimp only
      omega
    · simp only [Conserved, hused]
      exact hrefill

end GasFrame

namespace GasOp

open GasFrame (Ran)

mutual

/-- **One operation** conserves the gas of its frame. -/
theorem run_ran : (op : GasOp) → (f : GasFrame) → f.Conserved → f.Fits op.refills →
    Ran op.refills f (op.run f).1 (op.run f).2
  | spend cost, f, h, hfit => GasFrame.ran_spend h hfit cost
  | spendState cost, f, h, hfit => GasFrame.ran_spendState h hfit cost
  | refillReservoir amount, f, h, hfit => GasFrame.ran_refillReservoir h amount hfit
  | call limit upfront ops reason, ⟨flimit, inherited, gas, charged, used⟩, h, hfit => by
    have hlimit : flimit + inherited + (upfront + refillsAll ops) < 2 ^ 63 := hfit.inherited
    have hres : flimit + gas.reservoir + (upfront + refillsAll ops) < 2 ^ 63 := hfit.reservoir
    have hexec : (gas.remaining : ℤ) + gas.stateGasSpilled + (charged + used : ℕ) = flimit :=
      h.execution
    simp only [run, refills]
    by_cases hgo : ((gas.spend limit).1 && !reason.isFatal) = true
    · rw [if_pos hgo]
      have hpay : limit ≤ gas.remaining := by
        rw [Bool.and_eq_true, GasTracker.spend_fst, decide_eq_true_eq] at hgo
        exact hgo.1
      rw [GasTracker.spend_reservoir]
      refine GasFrame.ran_afterCall hpay h hfit ?_
      refine runAll_ran ops (.start limit gas.reservoir) (GasFrame.conserved_start _ _) ?_
      refine ⟨?_, ?_⟩
      · simp only [GasFrame.start]
        omega
      · simp only [GasFrame.start, GasTracker.newWithExecutionGasAndReservoir, GasTracker.fromParts]
        omega
    · rw [if_neg hgo]
      refine ⟨rfl, rfl, h.toStateConserved.spend limit, ?_, ?_, nofun⟩
      · simpa using h.spilled_le
      · simp

theorem runAll_ran : (ops : List GasOp) → (f : GasFrame) → f.Conserved → f.Fits (refillsAll ops) →
    Ran (refillsAll ops) f (runAll ops f).1 (runAll ops f).2
  | [], f, h, _ => .refl h
  | op :: ops, f, h, hfit => by
    have hlimit := hfit.inherited
    have hres := hfit.reservoir
    simp only [refillsAll] at hfit hlimit hres ⊢
    have hop := run_ran op f h ⟨by omega, by omega⟩
    rw [runAll]
    by_cases hgo : (op.run f).1 = true
    · rw [if_pos hgo]
      rw [hgo] at hop
      exact hop.trans (runAll_ran ops _ (hop.conserved rfl) (hfit.ran hop))
    · rw [if_neg hgo]
      have hle : (op.run f).2.gas.reservoir ≤ f.gas.reservoir + (op.refills + refillsAll ops) := by
        have hop' := hop.reservoir
        omega
      exact { hop with reservoir := hle }

end

mutual

theorem inside_sound : (op : GasOp) → (f : GasFrame) → f.Conserved → f.Fits op.refills →
    ∀ p ∈ op.inside f, GasFrame.Sound p
  | spend _, _, _, _, p, hp | spendState _, _, _, _, p, hp | refillReservoir _, _, _, _, p, hp => by
    simp [inside] at hp
  | call limit upfront ops reason, f, h, hfit, p, hp => by
    have hlimit := hfit.inherited
    have hres := hfit.reservoir
    have hexec := h.execution
    simp only [refills] at hlimit hres
    simp only [inside] at hp
    split_ifs at hp with hpay
    · rw [GasTracker.spend_fst, decide_eq_true_eq] at hpay
      rw [GasTracker.spend_reservoir] at hp
      refine trace_sound ops (.start limit f.gas.reservoir) (GasFrame.conserved_start _ _) ?_ p hp
      refine ⟨?_, ?_⟩
      · simp only [GasFrame.start]
        omega
      · simp only [GasFrame.start, GasTracker.newWithExecutionGasAndReservoir, GasTracker.fromParts]
        omega
    · simp at hp

theorem trace_sound : (ops : List GasOp) → (f : GasFrame) → f.Conserved → f.Fits (refillsAll ops) →
    ∀ p ∈ trace ops f, GasFrame.Sound p
  | [], f, h, hfit, p, hp => by
    simp only [trace, List.mem_singleton] at hp
    subst hp
    exact h.sound hfit
  | op :: ops, f, h, hfit, p, hp => by
    have hlimit := hfit.inherited
    have hres := hfit.reservoir
    simp only [refillsAll] at hfit hlimit hres
    have hfit' : f.Fits op.refills := ⟨by omega, by omega⟩
    have hop := run_ran op f h hfit'
    simp only [trace, List.cons_append, List.mem_cons, List.mem_append] at hp
    rcases hp with rfl | hp | hp
    · exact h.sound hfit'
    · exact inside_sound op f h hfit' p hp
    · by_cases hgo : (op.run f).1 = true
      · rw [if_pos hgo] at hp
        rw [hgo] at hop
        exact trace_sound ops _ (hop.conserved rfl) (hfit.ran hop) p hp
      · rw [if_neg hgo, List.mem_singleton] at hp
        subst hp
        refine ⟨?_, ?_, ?_, nofun⟩
        · dsimp only
          rw [hop.limit, hop.inherited]
          omega
        · dsimp only
          rw [hop.inherited]
          exact hop.state
        · dsimp only
          rw [hop.limit]
          exact hop.spilled

end

end GasOp

/-- **State gas is conserved over every tree of frames** (EIP-8037): between any two operations the
reservoir and the gas of a frame add up, and a frame that fails hands back the inherited reservoir
with no state gas spent. -/
theorem frame_tree_conserves_gas (limit inherited : ℕ) (ops : List GasOp)
    (hfit : limit + inherited + GasOp.refillsAll ops < 2 ^ 63) (goesOn : Bool) (f : GasFrame)
    (hf : (goesOn, f) ∈ GasOp.trace ops (.start limit inherited)) :
    (goesOn = true →
      (f.gas.reservoir : ℤ) + f.gas.stateGasSpent - f.gas.stateGasSpilled = f.inherited ∧
      (f.gas.reservoir = 0 ∨ f.gas.stateGasSpilled = 0) ∧
      (f.gas.remaining : ℤ) + f.gas.stateGasSpilled = f.limit - f.charged - f.used ∧
      f.gas.remaining + f.gas.stateGasSpilled ≤ f.limit) ∧
    ∀ reason : InstrStop, reason.isSuccess = false →
      (f.gas.settleGas reason).reservoir = f.inherited ∧
      (f.gas.settleGas reason).stateGasSpent = 0 ∧
      (f.gas.settleGas reason).stateGasSpilled = 0 ∧
      (reason.isHalt = true → (f.gas.settleGas reason).remaining = 0) := by
  have hstart : (GasFrame.start limit inherited).Fits (GasOp.refillsAll ops) := ⟨hfit, hfit⟩
  obtain ⟨hlimit, hstate, hspilled, hcons⟩ :=
    GasOp.trace_sound ops _ (GasFrame.conserved_start _ _) hstart _ hf
  dsimp only at hlimit hstate hspilled hcons
  refine ⟨fun hgo => ?_, fun reason hfail => ?_⟩
  · have h := hcons hgo
    have hst := h.state
    have hexec := h.execution
    exact ⟨by omega, h.pool, by omega, by omega⟩
  · rw [GasTracker.settleGas_failed hstate (by omega) hfail]
    exact ⟨rfl, rfl, rfl, fun hhalt => if_pos hhalt⟩

def siblings : List GasOp :=
  [.call 500 0 [.spendState 200] .stop, .spend 10, .call 500 0 [.refillReservoir 200] .stop]

theorem frame_tree_conserves_gas_siblings :
    let f : GasFrame := ⟨1000, 0, ⟨790, 1000, 0, 200, 200, 0⟩, 10, 0⟩
    (true, f) ∈ GasOp.trace siblings (.start 1000 0) ∧
      (f.gas.reservoir : ℤ) + f.gas.stateGasSpent - f.gas.stateGasSpilled = f.inherited ∧
      (f.gas.remaining : ℤ) + f.gas.stateGasSpilled = f.limit - f.charged - f.used := by
  have hmem : (true, (⟨1000, 0, ⟨790, 1000, 0, 200, 200, 0⟩, 10, 0⟩ : GasFrame)) ∈
      GasOp.trace siblings (.start 1000 0) := by decide +kernel
  have h := (frame_tree_conserves_gas 1000 0 siblings (by decide) true _ hmem).1 rfl
  exact ⟨hmem, h.1, h.2.2.1⟩

end Evm2
