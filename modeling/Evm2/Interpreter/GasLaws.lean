import Evm2.Interpreter.Gas

/-!
# Conservation of gas in a frame

A frame starts with a limit of execution gas and inherits a reservoir of state gas. State gas comes
from the reservoir, and from the execution gas when the reservoir is empty; what was taken from
there is the spill.
-/

namespace Evm2

namespace GasTracker

structure StateConserved (inherited : ℕ) (g : GasTracker) : Prop where
  state : (g.reservoir : ℤ) + g.stateGasSpent = inherited + g.stateGasSpilled
  pool : g.reservoir = 0 ∨ g.stateGasSpilled = 0

/-- The gas of a frame with the limit `limit` that inherited the reservoir `inherited` and has used
`used` of its execution gas. -/
structure Conserved (limit inherited : ℕ) (used : ℤ) (g : GasTracker) : Prop
    extends StateConserved inherited g where
  execution : (g.remaining : ℤ) + g.stateGasSpilled + used = limit

variable {g : GasTracker} {limit inherited : ℕ} {used : ℤ} {cost amount : ℕ}

theorem conserved_new (limit inherited : ℕ) :
    (newWithExecutionGasAndReservoir limit inherited).Conserved limit inherited 0 :=
  ⟨⟨by simp [newWithExecutionGasAndReservoir, fromParts], .inr rfl⟩,
    by simp [newWithExecutionGasAndReservoir, fromParts]⟩

@[simp] theorem spend_reservoir (g : GasTracker) (cost : ℕ) :
    (g.spend cost).2.reservoir = g.reservoir := by cases g; rfl

@[simp] theorem spend_stateGasSpent (g : GasTracker) (cost : ℕ) :
    (g.spend cost).2.stateGasSpent = g.stateGasSpent := by cases g; rfl

@[simp] theorem spend_stateGasSpilled (g : GasTracker) (cost : ℕ) :
    (g.spend cost).2.stateGasSpilled = g.stateGasSpilled := by cases g; rfl

theorem spend_fst (g : GasTracker) (cost : ℕ) :
    (g.spend cost).1 = decide (cost ≤ g.remaining) := by cases g; rfl

theorem spend_remaining (hfit : g.remaining < 2 ^ 64) (hc : cost ≤ g.remaining) :
    (g.spend cost).2.remaining = g.remaining - cost := by
  cases g
  exact wrapSub64_eq hc hfit

theorem StateConserved.spend (h : g.StateConserved inherited) (cost : ℕ) :
    (g.spend cost).2.StateConserved inherited := by
  refine ⟨?_, ?_⟩
  · simpa using h.state
  · simpa using h.pool

theorem Conserved.spend (h : g.Conserved limit inherited used) (hfit : g.remaining < 2 ^ 64)
    (hc : cost ≤ g.remaining) : (g.spend cost).2.Conserved limit inherited (used + cost) := by
  have hsub := spend_remaining hfit hc
  have hexec := h.execution
  refine ⟨h.toStateConserved.spend cost, ?_⟩
  rw [hsub, spend_stateGasSpilled]
  omega

theorem spendState_fst (g : GasTracker) (cost : ℕ) :
    (g.spendState cost).1 = decide (cost ≤ g.reservoir + g.remaining) := by
  unfold GasTracker.spendState
  by_cases hres : cost ≤ g.reservoir
  · rw [if_pos hres, decide_eq_true (by omega : cost ≤ g.reservoir + g.remaining)]
  · rw [if_neg hres]
    dsimp only
    rw [spend_fst]
    by_cases hpay : cost - g.reservoir ≤ g.remaining
    · rw [if_pos (decide_eq_true hpay), decide_eq_true (by omega : cost ≤ g.reservoir + g.remaining)]
    · rw [if_neg (by simpa using hpay), decide_eq_false (by omega)]

theorem spendState_failed (hc : ¬cost ≤ g.reservoir + g.remaining) :
    (g.spendState cost).2 = (g.spend (cost - g.reservoir)).2 := by
  unfold GasTracker.spendState
  have hpay : ¬(g.spend (cost - g.reservoir)).1 = true := by
    rw [spend_fst, decide_eq_true_eq]
    omega
  rw [if_neg (by omega : ¬cost ≤ g.reservoir)]
  dsimp only
  rw [if_neg hpay]

theorem spendState_snd (hfit : g.remaining + g.stateGasSpilled + g.reservoir < 2 ^ 63)
    (hlow : minI64 ≤ g.stateGasSpent) (hhigh : g.stateGasSpent + cost ≤ maxI64)
    (hc : cost ≤ g.reservoir + g.remaining) :
    (g.spendState cost).2 =
      { g with
        remaining := g.remaining - (cost - g.reservoir)
        reservoir := g.reservoir - cost
        stateGasSpent := g.stateGasSpent + cost
        stateGasSpilled := g.stateGasSpilled + (cost - g.reservoir) } := by
  obtain ⟨remaining, gasLimit, reservoir, spent, spilled, refunded⟩ := g
  dsimp only at hfit hlow hhigh hc ⊢
  have hcast : clampI64 (spent + wrapI64 cost) = spent + cost := by
    unfold minI64 at hlow
    rw [wrapI64_eq (by unfold minI64; omega) (by unfold maxI64; omega)]
    exact clampI64_eq (by unfold minI64; omega) hhigh
  by_cases hres : cost ≤ reservoir
  · -- the reservoir covers the charge
    simp only [spendState, addStateGasSpent, if_pos hres, hcast, Nat.sub_eq_zero_of_le hres,
      Nat.sub_zero, Nat.add_zero]
  · -- the rest is taken from the execution gas
    have hspill : cost - reservoir ≤ remaining := by omega
    have hzero : reservoir - cost = 0 := by omega
    simp only [spendState, if_neg hres, spend, hspill, decide_true, if_true, addStateGasSpent,
      addStateGasSpilled, hcast, hzero]
    rw [wrapSub64_eq hspill (by omega), satAdd64_eq (by omega)]

theorem Conserved.spendState (h : g.Conserved limit inherited used)
    (hlimit : inherited + g.remaining + g.stateGasSpilled < 2 ^ 63)
    (hfit : g.remaining + g.stateGasSpilled + g.reservoir < 2 ^ 63)
    (hc : cost ≤ g.reservoir + g.remaining) :
    (g.spendState cost).2.Conserved limit inherited used ∧
      (g.spendState cost).2.reservoir ≤ g.reservoir := by
  have hstate := h.state
  have hexec := h.execution
  have hpool := h.pool
  rw [spendState_snd (by omega) (by unfold minI64; omega) (by unfold maxI64; omega) hc]
  refine ⟨⟨⟨?_, ?_⟩, ?_⟩, ?_⟩ <;> dsimp only <;> omega

theorem refillReservoir_eq
    (hfit : g.remaining + g.stateGasSpilled + g.reservoir + amount < 2 ^ 63)
    (hlow : minI64 ≤ g.stateGasSpent - amount) (hhigh : g.stateGasSpent - amount ≤ maxI64) :
    g.refillReservoir amount =
      { g with
        remaining := g.remaining + min amount g.stateGasSpilled
        stateGasSpilled := g.stateGasSpilled - min amount g.stateGasSpilled
        reservoir := g.reservoir + (amount - min amount g.stateGasSpilled)
        stateGasSpent := g.stateGasSpent - amount } := by
  obtain ⟨remaining, gasLimit, reservoir, spent, spilled, refunded⟩ := g
  dsimp only at hfit hlow hhigh ⊢
  have hcast : clampI64 (spent - wrapI64 amount) = spent - amount := by
    rw [wrapI64_eq (by unfold minI64; omega) (by unfold maxI64; omega)]
    exact clampI64_eq hlow hhigh
  simp only [refillReservoir, hcast]
  rw [satAdd64_eq (by omega), satAdd64_eq (by omega)]

theorem Conserved.refillReservoir (h : g.Conserved limit inherited used)
    (hlimit : inherited + g.remaining + g.stateGasSpilled < 2 ^ 63)
    (hfit : g.remaining + g.stateGasSpilled + g.reservoir + amount < 2 ^ 63) :
    (g.refillReservoir amount).Conserved limit inherited used ∧
      (g.refillReservoir amount).reservoir ≤ g.reservoir + amount := by
  have hstate := h.state
  have hexec := h.execution
  have hpool := h.pool
  rw [refillReservoir_eq (by omega) (by unfold minI64; omega) (by unfold maxI64; omega)]
  refine ⟨⟨⟨?_, ?_⟩, ?_⟩, ?_⟩ <;> dsimp only <;> omega

/-! ## Returning -/

/-- **A frame that fails hands back exactly the reservoir it inherited**, and nothing of its state
gas stays spent. A revert hands back the spill with the execution gas, a halt neither. -/
theorem settleGas_failed (h : g.StateConserved inherited)
    (hfit : inherited + g.stateGasSpilled < 2 ^ 63) {reason : InstrStop}
    (hfail : reason.isSuccess = false) :
    g.settleGas reason =
      { g with
        remaining := if reason.isHalt then 0 else satAdd64 g.remaining g.stateGasSpilled
        reservoir := inherited, stateGasSpent := 0, stateGasSpilled := 0, refunded := 0 } := by
  obtain ⟨remaining, gasLimit, reservoir, spent, spilled, refunded⟩ := g
  have hstate : (reservoir : ℤ) + spent = inherited + spilled := h.state
  dsimp only at hfit
  have hres : (satAddSigned64 reservoir spent : ℤ) = reservoir + spent :=
    satAddSigned64_eq (by omega) (by omega)
  have hback : satAddSigned64 reservoir spent - spilled = inherited := by omega
  simp only [settleGas, rollbackStateGas, remainingExcludingStateSpill, hfail, hback,
    Bool.false_eq_true, if_false]
  cases reason.isHalt <;> rfl

theorem settleGas_success {reason : InstrStop} (h : reason.isSuccess = true) (g : GasTracker) :
    g.settleGas reason = g := by
  unfold settleGas
  simp [InstrStop.isHalt, h]

/-- What a child with the limit `limit` that has used `used` hands back to its parent. -/
def handedBack (limit : ℕ) (used : ℤ) (reason : InstrStop) : ℤ :=
  if reason.isHalt then 0 else limit - used

variable {child : GasTracker} {climit : ℕ} {cused : ℤ}

theorem absorbReturnedReservoir_eq {reservoir : ℕ}
    (hfit : g.remaining + g.stateGasSpilled < 2 ^ 64) :
    g.absorbReturnedReservoir reservoir =
      { g with
        remaining := g.remaining + min reservoir g.stateGasSpilled
        stateGasSpilled := g.stateGasSpilled - min reservoir g.stateGasSpilled
        reservoir := reservoir - min reservoir g.stateGasSpilled } := by
  obtain ⟨remaining, gasLimit, reservoir, spent, spilled, refunded⟩ := g
  dsimp only at hfit
  simp only [absorbReturnedReservoir]
  rw [satAdd64_eq (by omega)]

theorem mergeChildGas_success
    (hfit : g.remaining + g.stateGasSpilled + child.remaining + child.stateGasSpilled < 2 ^ 64)
    (hlow : minI64 ≤ g.stateGasSpent + child.stateGasSpent)
    (hhigh : g.stateGasSpent + child.stateGasSpent ≤ maxI64) {reason : InstrStop}
    (hok : reason.isSuccess = true) :
    g.mergeChildGas child reason = absorbReturnedReservoir
      { g with
        remaining := g.remaining + child.remaining
        stateGasSpent := g.stateGasSpent + child.stateGasSpent
        stateGasSpilled := g.stateGasSpilled + child.stateGasSpilled
        refunded := wrapI64 (g.refunded + child.refunded) } child.reservoir := by
  obtain ⟨remaining, gasLimit, reservoir, spent, spilled, refunded⟩ := g
  dsimp only at hfit hlow hhigh ⊢
  simp only [mergeChildGas, hok, Bool.true_or, if_true, eraseCost, addStateGasSpent,
    addStateGasSpilled, recordRefund]
  rw [wrapAdd64_eq (by omega), clampI64_eq hlow hhigh, satAdd64_eq (by omega)]

theorem mergeChildGas_failed (hfit : g.remaining + child.remaining < 2 ^ 64) {reason : InstrStop}
    (hfail : reason.isSuccess = false) (hhalt : reason.isHalt = true → child.remaining = 0) :
    g.mergeChildGas child reason = absorbReturnedReservoir
      { g with remaining := g.remaining + child.remaining } child.reservoir := by
  obtain ⟨remaining, gasLimit, reservoir, spent, spilled, refunded⟩ := g
  dsimp only at hfit ⊢
  simp only [mergeChildGas, hfail, Bool.false_or, Bool.false_eq_true, if_false]
  cases hr : reason.isFrameRevert with
  | true =>
    simp only [if_true, eraseCost]
    rw [wrapAdd64_eq (by omega)]
  | false =>
    have hzero : child.remaining = 0 := hhalt (by simp [InstrStop.isHalt, hfail, hr])
    simp [hzero]

/-- **The return of a child conserves the gas of its parent.** The parent has paid the limit of the
child; it gets back what the child has not used, unless the child halted. -/
theorem Conserved.mergeChildGas (h : g.Conserved limit inherited used) {reason : InstrStop}
    (hstate : child.StateConserved g.reservoir)
    (hchild : reason.isHalt = false → child.Conserved climit g.reservoir cused) (hused : 0 ≤ cused)
    (hspill : child.stateGasSpilled ≤ climit)
    (hlimit : inherited + g.remaining + g.stateGasSpilled + climit < 2 ^ 63)
    (hfit : climit + g.reservoir < 2 ^ 63) (hcfit : child.reservoir < 2 ^ 63) :
    (g.mergeChildGas (child.settleGas reason) reason).Conserved limit inherited
        (used - handedBack climit cused reason) ∧
      (g.mergeChildGas (child.settleGas reason) reason).reservoir ≤
        max g.reservoir child.reservoir := by
  have hst := h.state
  have hexec := h.execution
  have hpool := h.pool
  have hcst := hstate.state
  by_cases hok : reason.isSuccess = true
  · have hhalt : reason.isHalt = false := by simp [InstrStop.isHalt, hok]
    have hcexec := (hchild hhalt).execution
    rw [settleGas_success hok, mergeChildGas_success (by omega) (by unfold minI64; omega)
      (by unfold maxI64; omega) hok, absorbReturnedReservoir_eq (by dsimp only; omega)]
    simp only [handedBack, hhalt, Bool.false_eq_true, if_false]
    refine ⟨⟨⟨?_, ?_⟩, ?_⟩, by omega⟩ <;> dsimp only <;> omega
  · have hfail : reason.isSuccess = false := by simpa using hok
    rw [settleGas_failed hstate (by omega) hfail]
    -- the reservoir comes back as it was handed out, so there is no spill to pay back with it
    by_cases hhalt : reason.isHalt = true
    · rw [mergeChildGas_failed (by simp only [hhalt, if_true]; omega) hfail
        (by simp [hhalt]), absorbReturnedReservoir_eq (by simp only [hhalt, if_true]; omega)]
      simp only [handedBack, hhalt, if_true]
      refine ⟨⟨⟨?_, ?_⟩, ?_⟩, by omega⟩ <;> dsimp only <;> omega
    · have hhalt' : reason.isHalt = false := by simpa using hhalt
      have hcexec := (hchild hhalt').execution
      have hsum : satAdd64 child.remaining child.stateGasSpilled =
          child.remaining + child.stateGasSpilled := satAdd64_eq (by omega)
      simp only [hhalt', hsum, Bool.false_eq_true, if_false]
      rw [mergeChildGas_failed (by dsimp only; omega) hfail
        (by simp [hhalt']), absorbReturnedReservoir_eq (by dsimp only; omega)]
      simp only [handedBack, hhalt', Bool.false_eq_true, if_false]
      refine ⟨⟨⟨?_, ?_⟩, ?_⟩, by omega⟩ <;> dsimp only <;> omega

/-! ## The counters -/

/-- Neither the state gas spent nor the refunds change. -/
structure SameCounters (g g' : GasTracker) : Prop where
  stateGasSpent : g'.stateGasSpent = g.stateGasSpent
  refunded : g'.refunded = g.refunded

theorem SameCounters.trans {g g' g'' : GasTracker} (h : SameCounters g g')
    (h' : SameCounters g' g'') : SameCounters g g'' :=
  ⟨h'.stateGasSpent.trans h.stateGasSpent, h'.refunded.trans h.refunded⟩

theorem sameCounters_spend (g : GasTracker) (cost : ℕ) : SameCounters g (g.spend cost).2 := by
  cases g
  exact ⟨rfl, rfl⟩

theorem spendState_counters {g : GasTracker} {cost : ℕ} (h : (g.spendState cost).1 = true) :
    (g.spendState cost).2.stateGasSpent = clampI64 (g.stateGasSpent + wrapI64 cost) ∧
      (g.spendState cost).2.refunded = g.refunded := by
  obtain ⟨remaining, gasLimit, reservoir, spent, spilled, refunded⟩ := g
  unfold spendState at h ⊢
  dsimp only at h ⊢
  by_cases hres : cost ≤ reservoir
  · rw [if_pos hres]
    exact ⟨rfl, rfl⟩
  · rw [if_neg hres] at h ⊢
    split_ifs at h ⊢ with hpay
    exact ⟨rfl, rfl⟩

theorem refillReservoir_counters (g : GasTracker) (amount : ℕ) :
    (g.refillReservoir amount).stateGasSpent = clampI64 (g.stateGasSpent - wrapI64 amount) ∧
      (g.refillReservoir amount).refunded = g.refunded := by
  cases g
  exact ⟨rfl, rfl⟩

theorem recordRefund_counters (g : GasTracker) (refund : ℤ) :
    (g.recordRefund refund).stateGasSpent = g.stateGasSpent ∧
      (g.recordRefund refund).refunded = wrapI64 (g.refunded + refund) := by
  cases g
  exact ⟨rfl, rfl⟩

theorem mergeChildGas_counters (g child : GasTracker) (reason : InstrStop) :
    (g.mergeChildGas (child.settleGas reason) reason).stateGasSpent =
        (if reason.isSuccess then clampI64 (g.stateGasSpent + child.stateGasSpent)
          else g.stateGasSpent) ∧
      (g.mergeChildGas (child.settleGas reason) reason).refunded =
        (if reason.isSuccess then wrapI64 (g.refunded + child.refunded) else g.refunded) := by
  by_cases hok : reason.isSuccess = true
  · rw [settleGas_success hok, if_pos hok, if_pos hok]
    cases g
    simp only [mergeChildGas, hok, Bool.true_or, if_true]
    exact ⟨rfl, rfl⟩
  · rw [if_neg hok, if_neg hok]
    have hfail : reason.isSuccess = false := by simpa using hok
    obtain ⟨remaining, gasLimit, reservoir, spent, spilled, refunded⟩ := g
    simp only [mergeChildGas, hfail, Bool.false_or, Bool.false_eq_true, if_false]
    cases reason.isFrameRevert <;> exact ⟨rfl, rfl⟩

end GasTracker

end Evm2
