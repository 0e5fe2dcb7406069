import Evm2.Interpreter.Frame

/-!
# Memory and its meter

`Memory::resize_evm` grows the memory of a frame and charges for it. The charge is the difference of
two total costs, taken without a check.
-/

namespace Evm2

/-! ## The functions -/

structure Memory where
  data : Bytes
  memoryLimit : ℕ
  deriving DecidableEq

/-- `Gas`: the counters of a frame and the meter of its memory. -/
structure Gas where
  tracker : GasTracker
  memory : MemoryGas
  deriving DecidableEq

def MemoryGas.setWordsNum (m : MemoryGas) (wordsNum expansionCost : ℕ) : MemoryGas × Option ℕ :=
  (⟨wordsNum, expansionCost⟩,
    if m.expansionCost ≤ expansionCost then some (expansionCost - m.expansionCost) else none)

namespace Memory

variable (gp : GasParams) (m : Memory) (gas : Gas)

def resizeTo (newSize : ℕ) : Memory :=
  { m with data := m.data.take newSize ++ List.replicate (newSize - m.data.length) 0 }

def limitReached (newWords : ℕ) : Bool := m.memoryLimit < satMul64 newWords 32

/-- `Memory::resize_evm_cold`. There is no result if the cost divides by zero, which panics, or if
the unchecked unwrap is undefined. -/
def resizeEvmCold (newNumWords : ℕ) : Option (Except InstrStop Unit × Memory × Gas) :=
  if 2 ^ 64 ≤ newNumWords * 32 then some (.error .memoryOOG, m, gas)
  else if m.limitReached newNumWords then some (.error .memoryLimitOOG, m, gas)
  else if gp.get .memoryQuadraticReduction = 0 then none
  else
    let cost := gp.memoryCost newNumWords
    let meter := gas.memory.setWordsNum newNumWords cost
    meter.2.map fun cost =>
      let spent := gas.tracker.spend cost
      if spent.1 then (.ok (), m.resizeTo (newNumWords * 32), ⟨spent.2, meter.1⟩)
      else (.error .memoryOOG, m, ⟨spent.2, meter.1⟩)

def resizeEvm (offset len : ℕ) : Option (Except InstrStop Unit × Memory × Gas) :=
  let newNumWords := numWords (satAdd64 offset len)
  if gas.memory.wordsNum < newNumWords then m.resizeEvmCold gp gas newNumWords
  else some (.ok (), m, gas)

def set (offset : ℕ) (value : Bytes) : Memory := { m with data := memorySet m.data offset value }

end Memory

/-! ## The cost -/

theorem satAdd64_mono {a b c d : ℕ} (hac : a ≤ c) (hbd : b ≤ d) : satAdd64 a b ≤ satAdd64 c d := by
  unfold satAdd64
  omega

theorem satMul64_mono {a b c d : ℕ} (hac : a ≤ c) (hbd : b ≤ d) : satMul64 a b ≤ satMul64 c d := by
  have h : a * b ≤ c * d := Nat.mul_le_mul hac hbd
  unfold satMul64
  omega

/-- **More memory does not cost less**, also where the cost saturates. -/
theorem GasParams.memoryCost_mono (gp : GasParams) {n k : ℕ} (h : n ≤ k) :
    gp.memoryCost n ≤ gp.memoryCost k :=
  satAdd64_mono (satMul64_mono le_rfl h) (Nat.div_le_div_right (satMul64_mono h h))

theorem GasParams.memoryCost_zero (gp : GasParams) : gp.memoryCost 0 = 0 := by
  simp [memoryCost, satMul64, satAdd64]

/-! ## Calls -/

/-- A call on the memory of a frame. -/
inductive MemoryCall
  | resize (offset len : ℕ)
  | set (offset : ℕ) (value : Bytes)

def MemoryCall.words : MemoryCall → ℕ
  | resize offset len => numWords (min (offset + len) maxU64)
  | set _ _ => 0

def maxWords (calls : List MemoryCall) : ℕ := (calls.map MemoryCall.words).foldl max 0

theorem maxWords_concat (calls : List MemoryCall) (call : MemoryCall) :
    maxWords (calls ++ [call]) = max (maxWords calls) call.words := by
  simp [maxWords]

/-- Calls that have succeeded, from a fresh memory and meter. Bytes are only set in bounds. -/
inductive MemoryRun (gp : GasParams) (limit : ℕ) (tracker : GasTracker) :
    List MemoryCall → Memory → Gas → Prop
  | start : MemoryRun gp limit tracker [] ⟨[], limit⟩ ⟨tracker, .new⟩
  | resize {calls : List MemoryCall} {m m' : Memory} {gas gas' : Gas} {offset len : ℕ}
      (h : MemoryRun gp limit tracker calls m gas)
      (hr : m.resizeEvm gp gas offset len = some (.ok (), m', gas')) :
      MemoryRun gp limit tracker (calls ++ [.resize offset len]) m' gas'
  | set {calls : List MemoryCall} {m : Memory} {gas : Gas} {offset : ℕ} {value : Bytes}
      (h : MemoryRun gp limit tracker calls m gas)
      (hb : offset + value.length ≤ m.data.length) :
      MemoryRun gp limit tracker (calls ++ [.set offset value]) (m.set offset value) gas

/-- The memory and its meter after calls that needed `words`. -/
structure Metered (gp : GasParams) (limit : ℕ) (tracker : GasTracker) (words : ℕ) (m : Memory)
    (gas : Gas) : Prop where
  memoryLimit : m.memoryLimit = limit
  length : m.data.length = 32 * gas.memory.wordsNum
  wordsNum : gas.memory.wordsNum = words
  cost : gas.memory.expansionCost = gp.memoryCost words
  paid : gp.memoryCost words ≤ tracker.remaining
  spent : gas.tracker = { tracker with remaining := tracker.remaining - gp.memoryCost words }

section Metered

variable {gp : GasParams} {limit : ℕ} {tracker : GasTracker} {words : ℕ} {m : Memory} {gas : Gas}

theorem Metered.start (gp : GasParams) (limit : ℕ) (tracker : GasTracker) :
    Metered gp limit tracker 0 ⟨[], limit⟩ ⟨tracker, .new⟩ where
  memoryLimit := rfl
  length := rfl
  wordsNum := rfl
  cost := gp.memoryCost_zero.symm
  paid := by rw [gp.memoryCost_zero]; omega
  spent := by rw [gp.memoryCost_zero, Nat.sub_zero]

/-- What a call does to a memory that matches its meter. -/
inductive Resized (gp : GasParams) (m : Memory) (gas : Gas) (need : ℕ) :
    Except InstrStop Unit → Memory → Gas → Prop
  /-- The memory is large enough. -/
  | fits (h : need ≤ gas.memory.wordsNum) : Resized gp m gas need (.ok ()) m gas
  /-- The size in bytes does not fit. -/
  | overflows (h : 2 ^ 64 ≤ need * 32) : Resized gp m gas need (.error .memoryOOG) m gas
  | limited (h : m.memoryLimit < need * 32) : Resized gp m gas need (.error .memoryLimitOOG) m gas
  /-- The memory grows by zeros. -/
  | grows (h : gas.memory.wordsNum < need)
      (hpay : gp.memoryCost need - gas.memory.expansionCost ≤ gas.tracker.remaining) :
      Resized gp m gas need (.ok ())
        { m with data := m.data ++ List.replicate (need * 32 - m.data.length) 0 }
        ⟨{ gas.tracker with remaining :=
            gas.tracker.remaining - (gp.memoryCost need - gas.memory.expansionCost) },
          ⟨need, gp.memoryCost need⟩⟩
  /-- The gas does not suffice. -/
  | unpaid {gas' : Gas} (h : need * 32 < 2 ^ 64)
      (hpay : gas.tracker.remaining < gp.memoryCost need - gas.memory.expansionCost) :
      Resized gp m gas need (.error .memoryOOG) m gas'

/-- **A call is defined**: the difference of the costs is never negative. -/
theorem Metered.resizeEvm (h : Metered gp limit tracker words m gas)
    (hq : gp.get .memoryQuadraticReduction ≠ 0) (ht : tracker.remaining < 2 ^ 64) (offset len : ℕ) :
    ∃ r m' gas', m.resizeEvm gp gas offset len = some (r, m', gas') ∧
      Resized gp m gas (numWords (min (offset + len) maxU64)) r m' gas' := by
  have hneed : numWords (satAdd64 offset len) = numWords (min (offset + len) maxU64) := by
    rw [satAdd64]
  unfold Memory.resizeEvm
  simp only [hneed]
  generalize numWords (min (offset + len) maxU64) = need
  by_cases hlt : gas.memory.wordsNum < need
  · rw [if_pos hlt]
    unfold Memory.resizeEvmCold
    by_cases hover : 2 ^ 64 ≤ need * 32
    · rw [if_pos hover]
      exact ⟨_, _, _, rfl, .overflows hover⟩
    rw [if_neg hover]
    have hsat : satMul64 need 32 = need * 32 := by
      unfold satMul64 maxU64
      omega
    by_cases hlim : m.limitReached need = true
    · rw [if_pos hlim]
      refine ⟨_, _, _, rfl, .limited ?_⟩
      unfold Memory.limitReached at hlim
      rw [hsat] at hlim
      simpa using hlim
    rw [if_neg hlim, if_neg hq]
    have hmono : gas.memory.expansionCost ≤ gp.memoryCost need := by
      rw [h.cost]
      exact gp.memoryCost_mono (by rw [← h.wordsNum]; omega)
    simp only [MemoryGas.setWordsNum, if_pos hmono, Option.map_some, GasTracker.spend]
    have hrem : gas.tracker.remaining < 2 ^ 64 := by
      rw [h.spent]
      simp only
      omega
    by_cases hpay : gp.memoryCost need - gas.memory.expansionCost ≤ gas.tracker.remaining
    · rw [decide_eq_true hpay, if_pos rfl, wrapSub64_eq hpay hrem]
      refine ⟨_, _, _, rfl, ?_⟩
      have hdata : m.resizeTo (need * 32) =
          { m with data := m.data ++ List.replicate (need * 32 - m.data.length) 0 } := by
        unfold Memory.resizeTo
        rw [List.take_of_length_le (by rw [h.length]; omega)]
      rw [hdata]
      exact .grows hlt hpay
    · rw [decide_eq_false hpay, if_neg (by decide)]
      exact ⟨_, _, _, rfl, .unpaid (by omega) (by omega)⟩
  · rw [if_neg hlt]
    exact ⟨_, _, _, rfl, .fits (by omega)⟩

theorem Metered.resize (h : Metered gp limit tracker words m gas)
    (hq : gp.get .memoryQuadraticReduction ≠ 0) (ht : tracker.remaining < 2 ^ 64)
    {offset len : ℕ} {m' : Memory} {gas' : Gas}
    (hr : m.resizeEvm gp gas offset len = some (.ok (), m', gas')) :
    Metered gp limit tracker (max words (numWords (min (offset + len) maxU64))) m' gas' := by
  obtain ⟨r, m'', gas'', hr', hres⟩ := h.resizeEvm hq ht offset len
  rw [hr] at hr'
  cases hr'
  generalize numWords (min (offset + len) maxU64) = need at *
  cases hres with
  | fits hfit =>
    rw [max_eq_left (by rw [← h.wordsNum]; exact hfit)]
    exact h
  | grows hlt hpay =>
    have hmax : max words need = need := max_eq_right (by rw [← h.wordsNum]; omega)
    have hmono : gp.memoryCost words ≤ gp.memoryCost need :=
      gp.memoryCost_mono (by rw [← h.wordsNum]; omega)
    have hrem : gas.tracker.remaining = tracker.remaining - gp.memoryCost words := by
      rw [h.spent]
    have hpaid := h.paid
    rw [h.cost, hrem] at hpay
    rw [hmax]
    refine ⟨h.memoryLimit, ?_, rfl, rfl, by omega, ?_⟩
    · have hlen := h.length
      simp only [List.length_append, List.length_replicate]
      omega
    · simp only [h.cost, hrem]
      rw [h.spent]
      simp only [GasTracker.mk.injEq, and_true]
      omega

theorem Metered.set (h : Metered gp limit tracker words m gas) {offset : ℕ} {value : Bytes}
    (hb : offset + value.length ≤ m.data.length) :
    Metered gp limit tracker words (m.set offset value) gas := by
  refine ⟨h.memoryLimit, ?_, h.wordsNum, h.cost, h.paid, h.spent⟩
  rw [← h.length]
  unfold Memory.set memorySet
  simp only
  split_ifs
  · rfl
  · simp only [List.length_append, List.length_take, List.length_drop]
    omega

theorem MemoryRun.metered (hq : gp.get .memoryQuadraticReduction ≠ 0)
    (ht : tracker.remaining < 2 ^ 64)
    {calls : List MemoryCall} (h : MemoryRun gp limit tracker calls m gas) :
    Metered gp limit tracker (maxWords calls) m gas := by
  induction h with
  | start => exact .start gp limit tracker
  | resize _ hr ih =>
    rw [maxWords_concat]
    exact ih.resize hq ht hr
  | set _ hb ih =>
    rw [maxWords_concat, MemoryCall.words, max_eq_left (by omega)]
    exact ih.set hb

end Metered

/-- **The memory matches its meter**: after calls that have succeeded it has the size that the
largest of them needed, and its cost was paid. -/
theorem memory_matches_meter (gp : GasParams) (limit : ℕ) (tracker : GasTracker)
    (hq : gp.get .memoryQuadraticReduction ≠ 0) (ht : tracker.remaining < 2 ^ 64)
    {calls : List MemoryCall} {m : Memory} {gas : Gas}
    (h : MemoryRun gp limit tracker calls m gas) :
    (m.data.length = 32 * gas.memory.wordsNum ∧ gas.memory.wordsNum = maxWords calls ∧
      gas.memory.expansionCost = gp.memoryCost gas.memory.wordsNum ∧
      tracker.remaining - gas.tracker.remaining =
        gp.memoryCost gas.memory.wordsNum - gp.memoryCost 0) ∧
    ∀ offset len, ∃ r m' gas', m.resizeEvm gp gas offset len = some (r, m', gas') ∧
      (r = .ok () → ∃ n, m'.data = m.data ++ List.replicate n 0) ∧
      (r = .error .memoryLimitOOG → m' = m ∧ gas' = gas) ∧
      (r = .error .memoryOOG → 2 ^ 64 ≤ numWords (min (offset + len) maxU64) * 32 →
        m' = m ∧ gas' = gas) := by
  have hm := h.metered hq ht
  refine ⟨⟨hm.length, hm.wordsNum, by rw [hm.wordsNum]; exact hm.cost, ?_⟩, fun offset len => ?_⟩
  · have hpaid := hm.paid
    rw [hm.spent, hm.wordsNum, gp.memoryCost_zero]
    simp only
    omega
  · obtain ⟨r, m', gas', hr, hres⟩ := hm.resizeEvm hq ht offset len
    refine ⟨r, m', gas', hr, ?_⟩
    cases hres with
    | fits hfit => exact ⟨fun _ => ⟨0, by simp⟩, nofun, nofun⟩
    | overflows hover | limited hlim => exact ⟨nofun, fun _ => ⟨rfl, rfl⟩, fun _ _ => ⟨rfl, rfl⟩⟩
    | grows hlt hpay => exact ⟨fun _ => ⟨_, rfl⟩, nofun, nofun⟩
    | unpaid hsize hpay => exact ⟨nofun, nofun, fun _ hover => absurd hover (by omega)⟩

/-- Two words for 33 bytes, where a word costs three. -/
theorem memory_matches_meter_two_words :
    let gp : GasParams := ⟨fun _ => 3⟩
    ∃ m gas, MemoryRun gp 100 (.fromParts 50 50 0) [.resize 0 33] m gas ∧
      m.data.length = 32 * gas.memory.wordsNum := by
  intro gp
  have hrun : MemoryRun gp 100 (.fromParts 50 50 0) [.resize 0 33] ⟨List.replicate 64 0, 100⟩
      ⟨.fromParts 50 43 0, ⟨2, 7⟩⟩ := .resize .start (by decide +kernel)
  exact ⟨_, _, hrun, (memory_matches_meter gp 100 _ (by decide +kernel) (by decide) hrun).1.1⟩

end Evm2
