import Evm2.Lib.Count
import Evm2.Interpreter.Store

/-!
# The gas of `SSTORE` over a tree of frames

A frame writes storage with `SSTORE`, does other things to its gas, and calls children. A child that
fails takes its writes back, and its gas is settled and merged. What writes have charged and
refunded over the whole tree can be read off the slots.
-/

namespace Evm2

/-! ## Trees of frames -/

/-- What a frame does. A call sends `message` and runs the operations `ops` of the child, which then
stops for `reason`. -/
inductive StoreOp
  | sstore (key value : Word) (isCold : Bool)
  | spend (cost : ℕ)
  | spendState (cost : ℕ)
  | refillReservoir (amount : ℕ)
  | recordRefund (refund : ℤ)
  | call (message : Message) (ops : List StoreOp) (reason : InstrStop)

namespace StoreFrame

def stopReason (child : Bool × StoreFrame) (reason : InstrStop) : InstrStop :=
  if child.1 then reason else .outOfGas

/-- The return of a child to a frame that has paid for it: if the child failed, the slots keep the
values they had, and nothing it did survives. -/
def afterCall (f : StoreFrame) (child : Bool × StoreFrame) (reason : InstrStop) : StoreFrame :=
  let reason := stopReason child reason
  let gas := f.gas.mergeChildGas (child.2.gas.settleGas reason) reason
  if reason.isSuccess then
    ⟨gas, child.2.current, f.setRestores + child.2.setRestores,
      f.resetRestores + child.2.resetRestores, f.otherState + child.2.otherState,
      f.otherRefund + child.2.otherRefund⟩
  else { f with gas := gas }

end StoreFrame

namespace StoreOp

mutual

/-- Run an operation in the frame of `env`: whether the frame goes on, and the frame. It stops at
the first operation that fails, and when a child fails fatally. -/
def run (original : SlotKey → Word) : StoreOp → FrameEnv → StoreFrame → Bool × StoreFrame
  | sstore key value isCold, env, f => f.sstore original env key value isCold
  | spend cost, _, f => ((f.gas.spend cost).1, { f with gas := (f.gas.spend cost).2 })
  | spendState cost, _, f =>
    ((f.gas.spendState cost).1,
      { f with gas := (f.gas.spendState cost).2, otherState := f.otherState + cost })
  | refillReservoir amount, _, f =>
    (true, { f with
      gas := f.gas.refillReservoir amount, otherState := f.otherState - amount })
  | recordRefund refund, _, f =>
    (true, { f with gas := f.gas.recordRefund refund, otherRefund := f.otherRefund + refund })
  | call message ops reason, env, f =>
    let paid := { f with gas := (f.gas.spend message.gasLimit).2 }
    if (f.gas.spend message.gasLimit).1 && !reason.isFatal then
      let child := runAll original ops { env with message := message }
        (.start message.gasLimit paid.gas.reservoir f.current)
      (true, paid.afterCall child reason)
    else (false, paid)

def runAll (original : SlotKey → Word) :
    List StoreOp → FrameEnv → StoreFrame → Bool × StoreFrame
  | [], _, f => (true, f)
  | op :: ops, env, f =>
    if (op.run original env f).1 then runAll original ops env (op.run original env f).2
    else op.run original env f

end

mutual

/-- All state gas that an operation and the frames inside it may charge or refill. -/
def stateMoved (gp : GasParams) : StoreOp → ℕ
  | sstore _ _ _ => gp.get .sstoreSetState
  | spendState cost => cost
  | refillReservoir amount => amount
  | call _ ops _ => stateMovedAll gp ops
  | _ => 0

def stateMovedAll (gp : GasParams) : List StoreOp → ℕ
  | [] => 0
  | op :: ops => op.stateMoved gp + stateMovedAll gp ops

end

mutual

/-- All refunds that an operation and the frames inside it may record or take back. -/
def refundMoved (gp : GasParams) : StoreOp → ℕ
  | sstore _ _ _ =>
    gp.get .sstoreClearingSlotRefund + gp.get .sstoreSetRefund + gp.get .sstoreResetRefund
  | recordRefund refund => refund.natAbs
  | call _ ops _ => refundMovedAll gp ops
  | _ => 0

def refundMovedAll (gp : GasParams) : List StoreOp → ℕ
  | [] => 0
  | op :: ops => op.refundMoved gp + refundMovedAll gp ops

end

end StoreOp

namespace StoreFrame

variable {original : SlotKey → Word} {env : FrameEnv} {isCold : Bool} {f f' : StoreFrame}

/-! ## Counting slots -/

def IsSet (original : SlotKey → Word) (k : SlotKey) (value : Word) : Prop :=
  original k = 0 ∧ value ≠ 0

def IsCleared (original : SlotKey → Word) (k : SlotKey) (value : Word) : Prop :=
  original k ≠ 0 ∧ value = 0

noncomputable def setSlots (original : SlotKey → Word) (f : StoreFrame) : ℕ :=
  Count.count (IsSet original) f.current

noncomputable def clearedSlots (original : SlotKey → Word) (f : StoreFrame) : ℕ :=
  Count.count (IsCleared original) f.current

def setCost (env : FrameEnv) : ℕ :=
  if env.feature .eip8037 then env.gasParams.get .sstoreSetState else 0

instance (original : SlotKey → Word) (k : SlotKey) (value : Word) :
    Decidable (IsSet original k value) := inferInstanceAs (Decidable (_ ∧ _))

instance (original : SlotKey → Word) (k : SlotKey) (value : Word) :
    Decidable (IsCleared original k value) := inferInstanceAs (Decidable (_ ∧ _))

theorem sstoreStateGas_eq (gp : GasParams) (o p n : Word) :
    ((gp.sstoreStateGas ⟨o, p, n, isCold⟩ : ℕ) : ℤ) - gp.sstoreStateGasRefill ⟨o, p, n, isCold⟩ =
      gp.get .sstoreSetState *
        ((if o = 0 ∧ n ≠ 0 then 1 else 0 : ℕ) - (if o = 0 ∧ p ≠ 0 then 1 else 0 : ℕ)) := by
  unfold GasParams.sstoreStateGas GasParams.sstoreStateGasRefill SStore.isNoop SStore.isClean
    SStore.resetsOriginal SStore.originalIsZero
  dsimp only
  generalize (0 : Word) = z
  by_cases ho : o = z
  · subst ho
    by_cases hn : n = p
    · subst hn
      simp
    · by_cases hp : o = p
      · subst hp
        simp [hn, Ne.symm hn]
      · by_cases hv : o = n
        · subst hv
          simp [hp, Ne.symm hp]
        · simp [hp, hv, Ne.symm hp, Ne.symm hv]
  · simp [ho]

theorem sstoreRefund_eq (gp : GasParams) (o p n : Word) :
    gp.sstoreRefund true ⟨o, p, n, isCold⟩ =
      gp.get .sstoreClearingSlotRefund *
        ((if o ≠ 0 ∧ n = 0 then 1 else 0 : ℕ) - (if o ≠ 0 ∧ p = 0 then 1 else 0 : ℕ)) +
      gp.get .sstoreSetRefund * (!(n == p) && o == n && o == 0).toNat +
      gp.get .sstoreResetRefund * (!(n == p) && o == n && !(o == 0)).toNat := by
  unfold GasParams.sstoreRefund SStore.isNoop SStore.isClean SStore.resetsOriginal
    SStore.originalIsZero SStore.newIsZero SStore.presentIsZero
  simp only [Bool.toNat, Bool.cond_eq_ite]
  generalize (0 : Word) = z
  by_cases hn : n = p
  · subst hn
    simp
  · by_cases ho : o = z
    · subst ho
      by_cases hv : o = n
      · subst hv
        simp [hn]
      · simp [hn, hv, Ne.symm hv]
    · by_cases hv : n = z
      · subst hv
        by_cases hp : o = p
        · simp [hn, hp, Ne.symm hn]
        · simp [hn, ho, hp, Ne.symm hn]
      · by_cases hp : p = z
        · subst hp
          by_cases hr : o = n
          · simp [hn, hr]
          · simp [hn, hr, ho]
        · by_cases hr : o = n
          · simp [hn, hv, hr, hp]
          · simp [hn, hv, hr, ho, hp]

theorem stateGas_eq (original : SlotKey → Word) (isCold : Bool)
    (gp : GasParams) (f : StoreFrame) (k : SlotKey) (value : Word) :
    ((gp.sstoreStateGas (vals original f k value isCold) : ℕ) : ℤ) -
        gp.sstoreStateGasRefill (vals original f k value isCold) =
      gp.get .sstoreSetState *
        (Count.one (IsSet original) k value - Count.one (IsSet original) k (f.current k)) := by
  rw [Count.one_eq, Count.one_eq]
  exact sstoreStateGas_eq gp _ _ _

theorem refund_eq (original : SlotKey → Word) (isCold : Bool)
    (gp : GasParams) (f : StoreFrame) (k : SlotKey) (value : Word) :
    gp.sstoreRefund true (vals original f k value isCold) =
      gp.get .sstoreClearingSlotRefund *
        (Count.one (IsCleared original) k value - Count.one (IsCleared original) k (f.current k)) +
      gp.get .sstoreSetRefund *
        (((f.write original k value isCold).2.setRestores : ℤ) - f.setRestores) +
      gp.get .sstoreResetRefund *
        (((f.write original k value isCold).2.resetRestores : ℤ) - f.resetRestores) := by
  rw [Count.one_eq, Count.one_eq]
  unfold write
  dsimp only
  rw [Nat.cast_add, Nat.cast_add, add_sub_cancel_left, add_sub_cancel_left]
  exact sstoreRefund_eq gp _ _ _

theorem setSlots_write (original : SlotKey → Word) (isCold : Bool)
    (f : StoreFrame) (k : SlotKey) (value : Word) :
    ((f.write original k value isCold).2.setSlots original : ℤ) - f.setSlots original =
      Count.one (IsSet original) k value - Count.one (IsSet original) k (f.current k) := by
  have h := Count.count_update (IsSet original) f.current k value
  simp only [setSlots, write]
  omega

theorem clearedSlots_write (original : SlotKey → Word) (isCold : Bool)
    (f : StoreFrame) (k : SlotKey) (value : Word) :
    ((f.write original k value isCold).2.clearedSlots original : ℤ) - f.clearedSlots original =
      Count.one (IsCleared original) k value -
        Count.one (IsCleared original) k (f.current k) := by
  have h := Count.count_update (IsCleared original) f.current k value
  simp only [clearedSlots, write]
  omega

/-! ## What a run does to the counters -/

/-- What the writes of a frame have refunded, according to its slots and its records. -/
noncomputable def refundsOf (original : SlotKey → Word) (gp : GasParams) (f : StoreFrame) : ℤ :=
  gp.get .sstoreClearingSlotRefund * f.clearedSlots original +
    gp.get .sstoreSetRefund * f.setRestores + gp.get .sstoreResetRefund * f.resetRestores

/-- What a run does to the counters of a frame, if it moves at most the state gas `n` and the
refunds `m`. -/
structure Ran (original : SlotKey → Word) (env : FrameEnv) (n m : ℕ) (f f' : StoreFrame) :
    Prop where
  state : f'.gas.stateGasSpent - f'.otherState - setCost env * f'.setSlots original =
    f.gas.stateGasSpent - f.otherState - setCost env * f.setSlots original
  stateMoved : (f'.gas.stateGasSpent - f.gas.stateGasSpent).natAbs ≤ n
  refund : f'.gas.refunded - f'.otherRefund - f'.refundsOf original env.gasParams =
    f.gas.refunded - f.otherRefund - f.refundsOf original env.gasParams
  refundMoved : (f'.gas.refunded - f.gas.refunded).natAbs ≤ m

/-- No counter overflows if the state gas `n` and the refunds `m` are moved. -/
structure Fits (n m : ℕ) (f : StoreFrame) : Prop where
  state : f.gas.stateGasSpent.natAbs + n < 2 ^ 63
  refund : f.gas.refunded.natAbs + m < 2 ^ 63

variable {n n' m m' : ℕ} {f'' : StoreFrame}

theorem Ran.refl (f : StoreFrame) : Ran original env 0 0 f f :=
  ⟨rfl, by simp, rfl, by simp⟩

theorem Ran.trans (h : Ran original env n m f f') (h' : Ran original env n' m' f' f'') :
    Ran original env (n + n') (m + m') f f'' := by
  have h₁ := h.stateMoved
  have h₂ := h'.stateMoved
  have h₃ := h.refundMoved
  have h₄ := h'.refundMoved
  exact ⟨h'.state.trans h.state, by omega, h'.refund.trans h.refund, by omega⟩

theorem Fits.ran (hfit : f.Fits (n + n') (m + m')) (h : Ran original env n m f f') :
    f'.Fits n' m' := by
  have h₁ := hfit.state
  have h₂ := hfit.refund
  have h₃ := h.stateMoved
  have h₄ := h.refundMoved
  exact ⟨by omega, by omega⟩

theorem Fits.start (h : f.Fits n m) (limit reservoir : ℕ) (current : SlotKey → Word) :
    (StoreFrame.start limit reservoir current).Fits n m := by
  have h₁ := h.state
  have h₂ := h.refund
  refine ⟨?_, ?_⟩ <;>
    simp only [StoreFrame.start, GasTracker.newWithExecutionGasAndReservoir,
      GasTracker.fromParts] <;> omega

theorem Ran.withMessage {message : Message}
    (h : Ran original { env with message := message } n m f f') : Ran original env n m f f' :=
  ⟨h.state, h.stateMoved, h.refund, h.refundMoved⟩

theorem ran_spendState {cost : ℕ} (hfit : f.Fits cost 0) (h : (f.gas.spendState cost).1 = true) :
    Ran original env cost 0 f
      { f with gas := (f.gas.spendState cost).2, otherState := f.otherState + cost } := by
  obtain ⟨hspent, hrefunded⟩ := GasTracker.spendState_counters h
  have hs := hfit.state
  rw [wrapI64_of_natAbs (by omega), clampI64_of_natAbs (by omega)] at hspent
  refine ⟨?_, ?_, ?_, ?_⟩
  · simp only [hspent, setSlots]
    omega
  · simp only [hspent]
    omega
  · simp only [hrefunded]
    rfl
  · simp [hrefunded]

theorem ran_refillReservoir {amount : ℕ} (hfit : f.Fits amount 0) :
    Ran original env amount 0 f
      { f with gas := f.gas.refillReservoir amount, otherState := f.otherState - amount } := by
  obtain ⟨hspent, hrefunded⟩ := GasTracker.refillReservoir_counters f.gas amount
  have hs := hfit.state
  rw [wrapI64_of_natAbs (by omega), clampI64_of_natAbs (by omega)] at hspent
  refine ⟨?_, ?_, ?_, ?_⟩
  · simp only [hspent, setSlots]
    omega
  · simp only [hspent]
    omega
  · simp only [hrefunded]
    rfl
  · simp [hrefunded]

theorem ran_recordRefund {refund : ℤ} (hfit : f.Fits 0 refund.natAbs) :
    Ran original env 0 refund.natAbs f
      { f with gas := f.gas.recordRefund refund, otherRefund := f.otherRefund + refund } := by
  obtain ⟨hspent, hrefunded⟩ := GasTracker.recordRefund_counters f.gas refund
  have hr := hfit.refund
  rw [wrapI64_of_natAbs (by omega)] at hrefunded
  refine ⟨?_, ?_, ?_, ?_⟩
  · simp only [hspent]
    rfl
  · simp [hspent]
  · simp only [hrefunded, refundsOf, clearedSlots]
    omega
  · simp only [hrefunded]
    omega

theorem ran_sameCounters {g : GasTracker} (h : f.gas.SameCounters g) :
    Ran original env 0 0 f { f with gas := g } := by
  refine ⟨?_, ?_, ?_, ?_⟩
  · simp only [h.stateGasSpent]
    rfl
  · simp [h.stateGasSpent]
  · simp only [h.refunded]
    rfl
  · simp [h.refunded]

theorem sstoreStateGas_le (gp : GasParams) (v : SStore) :
    gp.sstoreStateGas v ≤ gp.get .sstoreSetState ∧
      gp.sstoreStateGasRefill v ≤ gp.get .sstoreSetState := by
  unfold GasParams.sstoreStateGas GasParams.sstoreStateGasRefill
  refine ⟨?_, ?_⟩ <;> split_ifs <;> omega

theorem charge_counters (h2200 : env.feature .eip2200 = true) {v : SStore} {g : GasTracker}
    (hok : env.feature .eip8037 = true →
      (g.spendState (env.gasParams.sstoreStateGas v)).1 = true)
    (hstate : g.stateGasSpent.natAbs + env.gasParams.get .sstoreSetState < 2 ^ 63)
    (hrefund : (g.refunded + env.gasParams.sstoreRefund true v).natAbs < 2 ^ 63) :
    (charge env v g).stateGasSpent = g.stateGasSpent +
        (if env.feature .eip8037 then (env.gasParams.sstoreStateGas v : ℤ) -
          env.gasParams.sstoreStateGasRefill v else 0) ∧
      (charge env v g).refunded = g.refunded + env.gasParams.sstoreRefund true v := by
  obtain ⟨hcost, hamount⟩ := sstoreStateGas_le env.gasParams v
  unfold charge chargeState
  rw [h2200]
  by_cases h8037 : env.feature .eip8037 = true
  · obtain ⟨h₁, h₂⟩ := GasTracker.spendState_counters (hok h8037)
    obtain ⟨h₃, h₄⟩ := GasTracker.refillReservoir_counters
      (g.spendState (env.gasParams.sstoreStateGas v)).2 (env.gasParams.sstoreStateGasRefill v)
    rw [if_pos h8037, if_pos h8037]
    rw [wrapI64_of_natAbs (by omega), clampI64_of_natAbs (by omega)] at h₁
    rw [h₁, wrapI64_of_natAbs (by omega), clampI64_of_natAbs (by omega)] at h₃
    refine ⟨?_, ?_⟩
    · rw [(GasTracker.recordRefund_counters _ _).1, h₃]
      omega
    · rw [(GasTracker.recordRefund_counters _ _).2, h₄, h₂, wrapI64_of_natAbs hrefund]
  · rw [if_neg h8037, if_neg h8037, (GasTracker.recordRefund_counters _ _).1,
      (GasTracker.recordRefund_counters _ _).2, wrapI64_of_natAbs hrefund]
    exact ⟨(add_zero _).symm, rfl⟩

theorem sstoreRefund_le (gp : GasParams) (v : SStore) :
    (gp.sstoreRefund true v).natAbs ≤ gp.get .sstoreClearingSlotRefund + gp.get .sstoreSetRefund +
      gp.get .sstoreResetRefund := by
  unfold GasParams.sstoreRefund
  dsimp only
  split_ifs <;> omega

theorem ran_sstore (h2200 : env.feature .eip2200 = true) {key value : Word}
    (hfit : f.Fits (StoreOp.stateMoved env.gasParams (.sstore key value isCold))
      (StoreOp.refundMoved env.gasParams (.sstore key value isCold)))
    (h : f.sstore original env key value isCold = (true, f')) :
    Ran original env (StoreOp.stateMoved env.gasParams (.sstore key value isCold))
      (StoreOp.refundMoved env.gasParams (.sstore key value isCold)) f f' := by
  obtain ⟨g, hg, hok, rfl⟩ := sstore_ok h
  have hs := hfit.state
  have hr := hfit.refund
  simp only [StoreOp.stateMoved, StoreOp.refundMoved] at hs hr ⊢
  have hle := sstoreRefund_le env.gasParams
    (vals original f (env.message.destination, key) value isCold)
  rw [← hg.stateGasSpent] at hs
  rw [← hg.refunded] at hr
  obtain ⟨hspent, hrefunded⟩ := charge_counters h2200 hok hs (by omega)
  have hset := setSlots_write original isCold f
    (env.message.destination, key) value
  have hcleared := clearedSlots_write original isCold f
    (env.message.destination, key) value
  have hgas := stateGas_eq original isCold env.gasParams f
    (env.message.destination, key) value
  have hrefund := refund_eq original isCold env.gasParams f
    (env.message.destination, key) value
  rw [← hset] at hgas
  rw [← hcleared] at hrefund
  refine ⟨?_, ?_, ?_, ?_⟩
  · dsimp only
    rw [hspent, hg.stateGasSpent]
    unfold setCost
    split_ifs
    · rw [hgas]
      simp only [setSlots, write]
      ring
    · simp [write]
  · dsimp only
    rw [hspent, hg.stateGasSpent]
    have hcost := sstoreStateGas_le env.gasParams
      (vals original f (env.message.destination, key) value isCold)
    split_ifs <;> omega
  · dsimp only
    rw [hrefunded, hg.refunded, hrefund]
    simp only [refundsOf, clearedSlots, write]
    ring
  · dsimp only
    rw [hrefunded, hg.refunded]
    omega

theorem ran_afterCall {limit reservoir : ℕ} {child : Bool × StoreFrame} (hfit : f.Fits n m)
    (reason : InstrStop)
    (hchild : child.1 = true → Ran original env n m (start limit reservoir f.current) child.2) :
    Ran original env n m f (f.afterCall child reason) := by
  obtain ⟨hspent, hrefunded⟩ :=
    GasTracker.mergeChildGas_counters f.gas child.2.gas (stopReason child reason)
  unfold afterCall
  dsimp only
  by_cases hok : (stopReason child reason).isSuccess = true
  · have hgo : child.1 = true := by
      by_contra hgo
      rw [stopReason, if_neg hgo] at hok
      cases hok
    obtain ⟨hstate, hstateMoved, hrefund, hrefundMoved⟩ := hchild hgo
    have hs := hfit.state
    have hr := hfit.refund
    simp only [start, GasTracker.newWithExecutionGasAndReservoir, GasTracker.fromParts, refundsOf,
      setSlots, clearedSlots, Nat.cast_zero] at hstate hstateMoved hrefund hrefundMoved
    rw [if_pos hok, clampI64_of_natAbs (by omega)] at hspent
    rw [if_pos hok, wrapI64_of_natAbs (by omega)] at hrefunded
    rw [if_pos hok]
    refine ⟨?_, ?_, ?_, ?_⟩
    · simp only [hspent, setSlots]
      linear_combination hstate
    · simp only [hspent]
      omega
    · simp only [hrefunded, refundsOf, clearedSlots]
      push_cast
      linear_combination hrefund
    · simp only [hrefunded]
      omega
  · rw [if_neg hok] at hspent hrefunded
    rw [if_neg hok]
    have hsame : Ran original env 0 0 f { f with
        gas := f.gas.mergeChildGas (child.2.gas.settleGas (stopReason child reason))
          (stopReason child reason) } :=
      ran_sameCounters ⟨hspent, hrefunded⟩
    exact ⟨hsame.state, hsame.stateMoved.trans (Nat.zero_le n), hsame.refund,
      hsame.refundMoved.trans (Nat.zero_le m)⟩

end StoreFrame

namespace StoreOp

open StoreFrame (Ran Fits)

variable {original : SlotKey → Word}

mutual

/-- **One operation** that succeeds changes the counters as its effect on the slots demands. -/
theorem run_ran : (op : StoreOp) → (env : FrameEnv) → env.feature .eip2200 = true →
    (f f' : StoreFrame) → f.Fits (op.stateMoved env.gasParams) (op.refundMoved env.gasParams) →
    op.run original env f = (true, f') →
    Ran original env (op.stateMoved env.gasParams) (op.refundMoved env.gasParams) f f'
  | sstore key value isCold, env, h2200, f, f', hfit, h => StoreFrame.ran_sstore h2200 hfit h
  | spend cost, env, h2200, f, f', hfit, h => by
    simp only [run, Prod.mk.injEq] at h
    obtain ⟨_, rfl⟩ := h
    exact StoreFrame.ran_sameCounters (GasTracker.sameCounters_spend _ _)
  | spendState cost, env, h2200, f, f', hfit, h => by
    simp only [run, Prod.mk.injEq] at h
    obtain ⟨hok, rfl⟩ := h
    exact StoreFrame.ran_spendState hfit hok
  | refillReservoir amount, env, h2200, f, f', hfit, h => by
    simp only [run, Prod.mk.injEq] at h
    obtain ⟨_, rfl⟩ := h
    exact StoreFrame.ran_refillReservoir hfit
  | recordRefund refund, env, h2200, f, f', hfit, h => by
    simp only [run, Prod.mk.injEq] at h
    obtain ⟨_, rfl⟩ := h
    exact StoreFrame.ran_recordRefund hfit
  | call message ops reason, env, h2200, f, f', hfit, h => by
    simp only [run] at h
    split_ifs at h with hgo
    · simp only [Prod.mk.injEq, true_and] at h
      subst h
      -- paying for the child changes no counter
      have hpaid : Ran original env 0 0 f { f with gas := (f.gas.spend message.gasLimit).2 } :=
        StoreFrame.ran_sameCounters (GasTracker.sameCounters_spend _ _)
      simp only [stateMoved, refundMoved] at hfit ⊢
      have hfit' := Fits.ran (n := 0) (m := 0) (by simpa using hfit) hpaid
      have hcall := StoreFrame.ran_afterCall hfit' reason fun hok => (runAll_ran ops
        { env with message := message } h2200
        (.start message.gasLimit (f.gas.spend message.gasLimit).2.reservoir f.current) _
        (hfit.start _ _ _) (Prod.ext hok rfl)).withMessage
      simpa using hpaid.trans hcall
    · cases h

theorem runAll_ran : (ops : List StoreOp) → (env : FrameEnv) → env.feature .eip2200 = true →
    (f f' : StoreFrame) →
    f.Fits (stateMovedAll env.gasParams ops) (refundMovedAll env.gasParams ops) →
    runAll original ops env f = (true, f') →
    Ran original env (stateMovedAll env.gasParams ops) (refundMovedAll env.gasParams ops) f f'
  | [], env, h2200, f, f', hfit, h => by
    simp only [runAll, Prod.mk.injEq, true_and] at h
    subst h
    exact .refl f
  | op :: ops, env, h2200, f, f', hfit, h => by
    simp only [stateMovedAll, refundMovedAll] at hfit ⊢
    simp only [runAll] at h
    split_ifs at h with hgo
    · have hop := run_ran op env h2200 f _ ⟨by have := hfit.state; omega,
        by have := hfit.refund; omega⟩ (Prod.ext hgo rfl)
      exact hop.trans (runAll_ran ops env h2200 _ f' (hfit.ran hop) h)
    · rw [h] at hgo
      exact absurd rfl hgo

end

end StoreOp

def storing (gp : GasParams) : FrameEnv where
  version :=
    { gasParams := gp, features := .ofList [.eip2200, .eip8037], chainId := 1,
      txGasLimitCap := maxU64, memoryLimit := 2 ^ 32 - 1, maxCodeSize := 0x6000,
      maxInitcodeSize := 0xC000, maxBlobsPerTx := 6, initialCallDepth := 0 }
  opcodes := ⟨fun _ => some 0⟩
  block := .default
  tx := .default
  message := .default

def setting : FrameEnv := storing
  ((GasParams.empty.set .sstoreSetState 10).set .sstoreClearingSlotRefund 5)

def startingSlots : SlotKey → Word := fun k => if k = (0, 2) then 7 else 0

def change : List StoreOp := [.sstore 1 1 false, .sstore 2 0 false]

def takeBack : List StoreOp := [.sstore 1 0 false, .sstore 2 7 false]

theorem takeBack_negative :
    let parent := StoreOp.runAll startingSlots change setting (.start 100 100 startingSlots)
    let child := StoreOp.runAll startingSlots takeBack setting
      (.start 10 parent.2.gas.reservoir parent.2.current)
    parent.1 = true ∧ child.1 = true ∧ child.2.gas.stateGasSpent - child.2.otherState < 0 ∧
      child.2.gas.refunded - child.2.otherRefund < 0 := by
  decide +kernel

/-- **The gas and the refunds of `SSTORE` depend on the state only**, over every tree of frames with
EIP-2200, as long as no total reaches `2 ^ 63`. In the root frame neither is negative; inside a
child both may be. -/
theorem sstore_counters_depend_on_state (env : FrameEnv) (original : SlotKey → Word)
    (limit reservoir : ℕ) (ops : List StoreOp) (f : StoreFrame)
    (h2200 : env.feature .eip2200 = true)
    (hstate : StoreOp.stateMovedAll env.gasParams ops < 2 ^ 63)
    (hrefund : StoreOp.refundMovedAll env.gasParams ops < 2 ^ 63)
    (h : StoreOp.runAll original ops env (.start limit reservoir original) = (true, f)) :
    f.gas.stateGasSpent - f.otherState =
        (if env.feature .eip8037 then env.gasParams.get .sstoreSetState else 0 : ℕ) *
          Set.ncard {k | original k = 0 ∧ f.current k ≠ 0} ∧
      f.gas.refunded - f.otherRefund =
        env.gasParams.get .sstoreClearingSlotRefund *
            Set.ncard {k | original k ≠ 0 ∧ f.current k = 0} +
          env.gasParams.get .sstoreResetRefund * f.resetRestores +
          env.gasParams.get .sstoreSetRefund * f.setRestores ∧
      0 ≤ f.gas.stateGasSpent - f.otherState ∧ 0 ≤ f.gas.refunded - f.otherRefund ∧
      ∃ (env' : FrameEnv) (original' : SlotKey → Word) (ops' childOps : List StoreOp)
        (parent child : StoreFrame), env'.feature .eip2200 = true ∧
        StoreOp.runAll original' ops' env' (.start 100 100 original') = (true, parent) ∧
        StoreOp.runAll original' childOps env'
          (.start 10 parent.gas.reservoir parent.current) = (true, child) ∧
        child.gas.stateGasSpent - child.otherState < 0 ∧
        child.gas.refunded - child.otherRefund < 0 := by
  have hfit : (StoreFrame.start limit reservoir original).Fits
      (StoreOp.stateMovedAll env.gasParams ops) (StoreOp.refundMovedAll env.gasParams ops) := by
    refine ⟨?_, ?_⟩ <;>
      simpa [StoreFrame.start, GasTracker.newWithExecutionGasAndReservoir, GasTracker.fromParts]
  have hran := StoreOp.runAll_ran ops env h2200 _ f hfit h
  -- at the start nothing has been set or cleared
  have hset : (StoreFrame.start limit reservoir original).setSlots original = 0 :=
    Count.count_eq_zero _ fun k hk => hk.2 hk.1
  have hcleared : (StoreFrame.start limit reservoir original).clearedSlots original = 0 :=
    Count.count_eq_zero _ fun k hk => hk.1 hk.2
  have h₁ := hran.state
  have h₂ := hran.refund
  rw [hset] at h₁
  simp only [StoreFrame.refundsOf, hcleared] at h₂
  simp only [StoreFrame.start, GasTracker.newWithExecutionGasAndReservoir, GasTracker.fromParts,
    StoreFrame.setSlots, StoreFrame.clearedSlots, StoreFrame.setCost, Count.count,
    StoreFrame.IsSet, StoreFrame.IsCleared] at h₁ h₂
  have hs : f.gas.stateGasSpent - f.otherState =
      (if env.feature .eip8037 then env.gasParams.get .sstoreSetState else 0 : ℕ) *
        Set.ncard {k | original k = 0 ∧ f.current k ≠ 0} := by
    linear_combination h₁
  have hr : f.gas.refunded - f.otherRefund =
      env.gasParams.get .sstoreClearingSlotRefund *
          Set.ncard {k | original k ≠ 0 ∧ f.current k = 0} +
        env.gasParams.get .sstoreResetRefund * f.resetRestores +
        env.gasParams.get .sstoreSetRefund * f.setRestores := by
    push_cast at h₂
    linear_combination h₂
  refine ⟨hs, hr, ?_, ?_, ?_⟩
  · rw [hs]
    exact_mod_cast Nat.zero_le _
  · rw [hr]
    exact_mod_cast Nat.zero_le _
  · obtain ⟨hparent, hchild, hspent, hrefunded⟩ := takeBack_negative
    exact ⟨setting, startingSlots, change, takeBack, _, _, rfl, Prod.ext hparent rfl,
      Prod.ext hchild rfl, hspent, hrefunded⟩

def takingBack : List StoreOp :=
  change ++ [.call { Message.default with gasLimit := 10 } takeBack .revert,
    .spend 1, .call { Message.default with gasLimit := 10 } takeBack .stop, .sstore 3 1 false]

theorem sstore_counters_depend_on_state_takingBack :
    let r := StoreOp.runAll startingSlots takingBack setting (.start 100 100 startingSlots)
    r.1 = true ∧ r.2.gas.stateGasSpent = 10 ∧
      r.2.gas.stateGasSpent - r.2.otherState =
        10 * Set.ncard {k | startingSlots k = 0 ∧ r.2.current k ≠ 0} := by
  intro r
  have hgo : r.1 = true := by decide +kernel
  have h := sstore_counters_depend_on_state setting startingSlots 100 100 takingBack r.2 rfl
    (by decide +kernel) (by decide +kernel) (Prod.ext hgo rfl)
  exact ⟨hgo, by decide +kernel, h.1⟩

def restoring : FrameEnv := storing (GasParams.empty.set .sstoreResetRefund (2 ^ 32 - 1))

theorem charge_restoring (v : SStore) (r : ℤ) :
    StoreFrame.charge restoring v ⟨1, 1, 0, 0, 0, r⟩ =
      ⟨1, 1, 0, 0, 0, wrapI64 (r + restoring.gasParams.sstoreRefund true v)⟩ := by
  have hcost : restoring.gasParams.sstoreStateGas v = 0 := by
    unfold GasParams.sstoreStateGas
    split_ifs <;> rfl
  have hamount : restoring.gasParams.sstoreStateGasRefill v = 0 := by
    unfold GasParams.sstoreStateGasRefill
    split_ifs <;> rfl
  have hwrap : wrapI64 0 = 0 := by decide +kernel
  have hclamp : clampI64 0 = 0 := by decide +kernel
  have hsat : satAdd64 0 0 = 0 := by decide +kernel
  have hsat' : satAdd64 1 0 = 1 := by decide +kernel
  have h8037 : restoring.feature .eip8037 = true := rfl
  have h2200 : restoring.feature .eip2200 = true := rfl
  simp [StoreFrame.charge, StoreFrame.chargeState, hcost, hamount, h8037, h2200,
    GasTracker.spendState, GasTracker.addStateGasSpent, GasTracker.refillReservoir,
    GasTracker.recordRefund, hwrap, hclamp, hsat, hsat']

theorem sstore_restoring (r : ℤ) (n m : ℕ) (current : SlotKey → Word) (value : Word) :
    let f : StoreFrame := ⟨⟨1, 1, 0, 0, 0, r⟩, current, m, n, 0, 0⟩
    f.sstore (fun _ => 1) restoring 0 value false =
      (true, { (f.write (fun _ => 1) (0, 0) value false).2 with
        gas := ⟨1, 1, 0, 0, 0, wrapI64 (r +
          restoring.gasParams.sstoreRefund true ⟨1, current (0, 0), value, false⟩)⟩ }) := by
  intro f
  have hspend : (⟨1, 1, 0, 0, 0, r⟩ : GasTracker).spend 0 = (true, ⟨1, 1, 0, 0, 0, r⟩) := by
    have hsub : wrapSub64 1 0 = 1 := by decide +kernel
    simp [GasTracker.spend, hsub]
  have hstatic : restoring.gasParams.get .sstoreStatic = 0 := rfl
  have hdynamic : restoring.gasParams.sstoreDynamicGas (restoring.feature .eip2200)
      ⟨1, current (0, 0), value, false⟩ = 0 := by
    unfold GasParams.sstoreDynamicGas
    split_ifs <;> rfl
  have hstate : restoring.gasParams.sstoreStateGas ⟨1, current (0, 0), value, false⟩ = 0 := by
    unfold GasParams.sstoreStateGas
    split_ifs <;> rfl
  have hv : StoreFrame.vals (fun _ => 1) f (restoring.message.destination, 0) value false =
      ⟨1, current (0, 0), value, false⟩ := rfl
  have hgas : restoring.gasParams.get .callStipend < f.gas.remaining := Nat.zero_lt_one
  have haccess : f.gas.spend (restoring.gasParams.get .sstoreStatic) = (true, f.gas) := by
    rw [hstatic, hspend]
  have h := StoreFrame.sstore_returns hv rfl hgas (by rw [haccess])
    (by rw [haccess, hdynamic, hspend]) (by rw [hstate]; rfl)
  rw [charge_restoring] at h
  exact h

def rounds : ℕ → List StoreOp
  | 0 => []
  | n + 1 => .sstore 0 2 false :: .sstore 0 1 false :: rounds n

theorem rounds_run (n k : ℕ) :
    StoreOp.runAll (fun _ => 1) (rounds n) restoring
        ⟨⟨1, 1, 0, 0, 0, wrapI64 (k * (2 ^ 32 - 1))⟩, fun _ => 1, 0, k, 0, 0⟩ =
      (true, ⟨⟨1, 1, 0, 0, 0, wrapI64 ((k + n : ℕ) * (2 ^ 32 - 1))⟩, fun _ => 1, 0, k + n, 0,
        0⟩) := by
  induction n generalizing k with
  | zero => rfl
  | succ n ih =>
    have hchange : restoring.gasParams.sstoreRefund true ⟨1, 1, 2, false⟩ = 0 := by decide +kernel
    have hrestore : restoring.gasParams.sstoreRefund true ⟨1, 2, 1, false⟩ = 2 ^ 32 - 1 := by
      decide +kernel
    have hback : Function.update (Function.update (fun _ : SlotKey => (1 : Word)) (0, 0) 2) (0, 0) 1
        = fun _ => 1 := by
      rw [Function.update_idem]
      exact Function.update_eq_self (0, 0) (fun _ => 1)
    have h₁ : StoreFrame.sstore (fun _ => 1) restoring 0 2 false
        ⟨⟨1, 1, 0, 0, 0, wrapI64 (k * (2 ^ 32 - 1))⟩, fun _ => 1, 0, k, 0, 0⟩ =
          (true, ⟨⟨1, 1, 0, 0, 0, wrapI64 (wrapI64 (k * (2 ^ 32 - 1)) + 0)⟩,
            Function.update (fun _ => 1) (0, 0) 2, 0, k, 0, 0⟩) := by
      have h := sstore_restoring (wrapI64 (k * (2 ^ 32 - 1))) k 0 (fun _ => 1) 2
      dsimp only at h
      rw [hchange] at h
      exact h
    have h₂ : StoreFrame.sstore (fun _ => 1) restoring 0 1 false
        ⟨⟨1, 1, 0, 0, 0, wrapI64 (wrapI64 (k * (2 ^ 32 - 1)) + 0)⟩,
            Function.update (fun _ => 1) (0, 0) 2, 0, k, 0, 0⟩ =
          (true, ⟨⟨1, 1, 0, 0, 0, wrapI64 ((k + 1 : ℕ) * (2 ^ 32 - 1))⟩, fun _ => 1, 0, k + 1, 0,
            0⟩) := by
      have h := sstore_restoring (wrapI64 (wrapI64 (k * (2 ^ 32 - 1)) + 0)) k 0
        (Function.update (fun _ => 1) (0, 0) 2) 1
      have hsum : wrapI64 (wrapI64 (wrapI64 (k * (2 ^ 32 - 1)) + 0) + (2 ^ 32 - 1)) =
          wrapI64 ((k + 1 : ℕ) * (2 ^ 32 - 1)) := by
        have harith : (k : ℤ) * (2 ^ 32 - 1) + (0 + (2 ^ 32 - 1)) =
            (k + 1 : ℕ) * (2 ^ 32 - 1) := by
          push_cast
          ring
        rw [wrapI64_add_left, add_assoc, wrapI64_add_left, harith]
      dsimp only at h
      rw [Function.update_self, hrestore, hsum] at h
      simp only [StoreFrame.write, hback] at h
      exact h
    have hk := ih (k + 1)
    rw [show k + 1 + n = k + (n + 1) by omega] at hk
    rw [← hk]
    simp only [rounds, StoreOp.runAll, StoreOp.run, h₁, h₂, if_true]

/-- Without a bound on the totals the refunds overflow, and get negative in the root frame. -/
theorem sstore_refunds_overflow : ∃ n f,
    StoreOp.runAll (fun _ => 1) (rounds n) restoring (.start 1 0 fun _ => 1) = (true, f) ∧
      f.otherRefund = 0 ∧ f.gas.refunded < 0 := by
  have h := rounds_run (2 ^ 31 + 1) 0
  have hzero : wrapI64 ((0 : ℕ) * (2 ^ 32 - 1)) = 0 := by decide +kernel
  rw [hzero] at h
  exact ⟨2 ^ 31 + 1, _, h, rfl, by decide +kernel⟩

end Evm2
