import Evm2.Jit.GasSchedule

/-!
# The gas counter of compiled code

At an instruction of a section the counter is the gas that an exact account would have, less the
static gas of the rest of the section. It is never further below zero than the gas that the
translation knows to be unchecked.

* **`CounterInv.step`**: a step of compiled code keeps the invariant.
-/

namespace Evm2.Jit

/-! ## Integers of 64 bits -/

theorem wrap64_eq {z : ℤ} (hlow : -2 ^ 63 ≤ z) (hhigh : z < 2 ^ 63) : wrap64 z = z :=
  Int.bmod_eq_of_le (by simpa using hlow) (by simpa using hhigh)

theorem toU64_eq {z : ℤ} (h0 : 0 ≤ z) (hhigh : z < 2 ^ 64) : (toU64 z : ℤ) = z := by
  unfold toU64
  rw [Int.emod_eq_of_lt h0 hhigh, Int.toNat_of_nonneg h0]

/-! ## Instructions in their sections -/

structure At (bc : Bytecode) (k : ℕ) (pre : List ℕ) (i : ℕ) (post : List ℕ) : Prop where
  lt : k < bc.sections.length
  split : bc.sectionAt k = pre ++ i :: post

variable {bc : Bytecode} {tr : Translation} {expCost : Word → ℕ} {k i : ℕ} {pre post : List ℕ}

theorem At.isHead (h : At bc k pre i post) :
    (bc.constructSections expCost).isHead i = pre.isEmpty := by
  unfold Sections.isHead
  cases pre with
  | nil =>
    have hhead := @stackHead_sectionAt bc expCost k h.lt
    rw [h.split] at hhead
    exact congrArg Option.isSome hhead
  | cons a pre =>
    have hnone := @stackHead_of_not_first bc expCost k a i _ h.lt h.split
      (List.mem_append_right pre List.mem_cons_self)
    exact congrArg Option.isSome hnone

theorem At.live (h : At bc k pre i post) : bc.Live i :=
  live_of_mem_sectionAt h.lt (by rw [h.split]; simp)

theorem At.nil_of_endsAfter (h : At bc k pre i post) (hends : bc.endsAfter i = true) :
    post = [] := by
  rcases post with _ | ⟨j, post⟩
  · rfl
  · exact absurd hends ((linked_inside h.lt h.split).1 ▸ Bool.false_ne_true)

theorem endsAfter_of_endsSections (h : (bc.inst i).endsSections = true) :
    bc.endsAfter i = true := by
  unfold Bytecode.endsAfter
  rw [h, Bool.or_true]

def Bytecode.NotSaturated (bc : Bytecode) (expCost : Word → ℕ) : Prop :=
  ∀ i, (bc.constructSections expCost).gasCost i ≠ SATURATED

theorem At.gasCost (h : At bc k [] i post) (hsat : bc.NotSaturated expCost) :
    (bc.constructSections expCost).gasCost i = bc.staticSum expCost (i :: post) ∧
      bc.staticSum expCost (i :: post) < SATURATED := by
  have hcost := @gasCost_sectionAt bc expCost k h.lt
  have hne := hsat i
  rw [h.split] at hcost
  rw [show firstOf ([] ++ i :: post) = i from rfl] at hcost
  rw [hcost] at hne
  have hlt : bc.staticSum expCost (i :: post) < SATURATED := by
    unfold saturate32 at hne
    by_contra hge
    exact hne (Nat.min_eq_right (Nat.not_lt.mp hge))
  exact ⟨hcost.trans (Nat.min_eq_left hlt.le), hlt⟩

theorem At.gasCost_le (h : At bc k pre i post) (hsat : bc.NotSaturated expCost) :
    bc.staticSum expCost (i :: post) < SATURATED := by
  obtain ⟨j, rest, hsec⟩ := List.exists_cons_of_ne_nil (sectionAt_ne_nil h.lt)
  have hhead : At bc k [] j rest := ⟨h.lt, hsec⟩
  have hlt := (hhead.gasCost hsat).2
  rw [← hsec, h.split, staticSum_append] at hlt
  omega

theorem At.gasOwed (h : At bc k pre i post) (hsat : bc.NotSaturated expCost)
    (hgas : (bc.inst i).opcode = some .gas) :
    (bc.constructSections expCost).gasOwed i = bc.staticSum expCost post := by
  have hlt := h.gasCost_le hsat
  rw [gasOwed_sectionAt h.lt h.split hgas]
  refine Nat.min_eq_left (le_trans ?_ hlt.le)
  exact Nat.le_add_left _ (bc.staticGas expCost i)

/-! ## What the translation counts -/

section Unchecked

variable {secs : Sections}

theorem uncheckedAtBody_lt {u : ℕ} (hu : u < GAS_CHECK_THRESHOLD) :
    uncheckedAtBody bc secs u i < GAS_CHECK_THRESHOLD := by
  unfold uncheckedAtBody
  split_ifs with hhead hcheck
  · decide
  · unfold checksAtHead at hcheck
    rw [Bool.or_eq_true, decide_eq_true_eq, not_or] at hcheck
    exact Nat.not_le.mp hcheck.1
  · exact hu

theorem uncheckedAfter_lt {u : ℕ} (hu : u < GAS_CHECK_THRESHOLD) :
    uncheckedAfter bc tr secs u i < GAS_CHECK_THRESHOLD := by
  unfold uncheckedAfter
  split_ifs
  · exact hu
  · split
    all_goals first | exact uncheckedAtBody_lt hu | decide

theorem uncheckedBefore_lt : uncheckedBefore bc tr secs i < GAS_CHECK_THRESHOLD := by
  have hfold (l : List ℕ) (u : ℕ) (hu : u < GAS_CHECK_THRESHOLD) :
      l.foldl (uncheckedAfter bc tr secs) u < GAS_CHECK_THRESHOLD := by
    induction l generalizing u with
    | nil => exact hu
    | cons j l ih => exact ih _ (uncheckedAfter_lt hu)
  exact hfold _ 0 (by decide)

theorem uncheckedBefore_succ (hlive : bc.Live i) :
    uncheckedBefore bc tr secs (i + 1) =
      uncheckedAfter bc tr secs (uncheckedBefore bc tr secs i) i := by
  obtain ⟨a, b, hab⟩ := List.append_of_mem (bc.mem_liveInsts.mpr hlive)
  have hsorted := bc.sorted_liveInsts
  rw [hab] at hsorted
  obtain ⟨-, hb, hcross⟩ := List.pairwise_append.mp hsorted
  have ha (j : ℕ) (hj : j ∈ a) : j < i := hcross j hj i List.mem_cons_self
  have hb (j : ℕ) (hj : j ∈ b) : i < j := (List.pairwise_cons.mp hb).1 j hj
  have hbefore : bc.liveInsts.filter (· < i) = a := by
    rw [hab, List.filter_append, List.filter_cons, if_neg (by simp),
      List.filter_eq_self.mpr (fun j hj => decide_eq_true (ha j hj)),
      List.filter_eq_nil_iff.mpr (fun j hj => by simpa using (hb j hj).le), List.append_nil]
  have hafter : bc.liveInsts.filter (· < i + 1) = a ++ [i] := by
    rw [hab, List.filter_append, List.filter_cons, if_pos (by simp),
      List.filter_eq_self.mpr (fun j hj => decide_eq_true ((ha j hj).trans (Nat.lt_succ_self i))),
      List.filter_eq_nil_iff.mpr (fun j hj => by simpa using Nat.succ_le_of_lt (hb j hj))]
  unfold uncheckedBefore
  rw [hbefore, hafter, List.foldl_append]
  rfl

end Unchecked

/-! ## How instructions use gas -/

section Use

variable {σ : Type} {M : Machine σ} {s₀ s : σ}

theorem gasUse_of_endsSections (hM : M.Analysed bc tr expCost s₀)
    (h : (bc.inst i).endsSections = true) : bc.gasUse tr i = .builtin := by
  have hskip : tr.skipped i = false := by
    by_contra hskip
    have hobs := (hM.skips i (Bool.not_eq_false _ ▸ hskip)).1
    rw [Bytecode.observes, h, Bool.or_true] at hobs
    exact Bool.noConfusion hobs
  unfold Bytecode.gasUse
  rw [hskip, if_neg Bool.false_ne_true]
  by_cases hhost : (bc.inst i).flags.host = true
  · rw [if_pos hhost]
  · rw [if_neg hhost]
    unfold InstData.endsSections at h
    rw [Bool.eq_false_iff.mpr hhost, Bool.false_or] at h
    split at h
    all_goals first | exact absurd h Bool.false_ne_true | simp_all

theorem not_host_of_opcode (hM : M.Analysed bc tr expCost s₀) {op : OpCode}
    (hop : (bc.inst i).opcode = some op) (hnot : op ∉ hostInstructions) :
    (bc.inst i).flags.host = false := by
  by_contra hhost
  obtain ⟨op', hmem, hop'⟩ := hM.hosts i (Bool.not_eq_false _ ▸ hhost)
  obtain rfl := Option.some.inj (hop.symm.trans hop')
  exact hnot hmem

theorem gasUse_of_gas (hM : M.Analysed bc tr expCost s₀) (h : (bc.inst i).opcode = some .gas) :
    bc.gasUse tr i = .gas := by
  have hskip : tr.skipped i = false := by
    by_contra hskip
    have hobs := (hM.skips i (Bool.not_eq_false _ ▸ hskip)).1
    unfold Bytecode.observes at hobs
    rw [h] at hobs
    exact Bool.noConfusion hobs
  unfold Bytecode.gasUse
  rw [hskip, not_host_of_opcode hM h (by decide), h]
  rfl

theorem opcode_of_gasUse_gas (h : bc.gasUse tr i = .gas) : (bc.inst i).opcode = some .gas := by
  unfold Bytecode.gasUse at h
  by_cases hskip : tr.skipped i = true
  · rw [if_pos hskip] at h
    exact GasUse.noConfusion h
  by_cases hhost : (bc.inst i).flags.host = true
  · rw [if_neg hskip, if_pos hhost] at h
    exact GasUse.noConfusion h
  rw [if_neg hskip, if_neg hhost] at h
  split at h
  all_goals first
    | assumption
    | exact GasUse.noConfusion h
    | (split at h <;> first
        | exact GasUse.noConfusion h
        | (split at h <;> exact GasUse.noConfusion h))

theorem staticGas_of_gasUse (hM : M.Analysed bc tr expCost s₀) (h : bc.gasUse tr i ≠ .static) :
    bc.staticGas expCost i = (bc.inst i).baseGas := by
  unfold Bytecode.staticGas
  by_cases hexp : (bc.inst i).opcode = some .exp
  · have hskip : tr.skipped i = false := by
      by_contra hskip
      exact h (if_pos (Bool.not_eq_false _ ▸ hskip))
    have hnone : bc.constOperand i 1 = none := by
      unfold Bytecode.gasUse at h
      rw [hskip, not_host_of_opcode hM hexp (by decide), hexp] at h
      by_contra hsome
      exact h (if_pos (Option.isSome_iff_ne_none.mpr hsome))
    rw [if_pos hexp, hnone]
    rfl
  · rw [if_neg hexp, Nat.add_zero]

theorem gasUse_of_stops (hM : M.Analysed bc tr expCost s₀) {g g' : ℕ} {revert : Bool} {s' : σ}
    (h : M.exec i s g = some (.stop revert s', g')) :
    bc.endsAfter i = true ∧ (bc.gasUse tr i = .stop ∨ bc.gasUse tr i = .builtin) := by
  obtain ⟨op, hmem, hop⟩ := hM.stops i s g revert s' g' h
  have hskip : tr.skipped i = false := by
    by_contra hskip
    exact (hM.skips i (Bool.not_eq_false _ ▸ hskip)).2 op hmem hop
  simp only [List.mem_cons, List.not_mem_nil, or_false] at hmem
  unfold Bytecode.endsAfter InstData.isBranching InstData.isDiverging Bytecode.gasUse
  rw [hskip, if_neg Bool.false_ne_true, hop]
  rcases hmem with rfl | rfl | rfl | rfl
  all_goals
    refine ⟨by simp, ?_⟩
    by_cases hhost : (bc.inst i).flags.host = true
    · exact Or.inr (if_pos hhost)
    · simp [hhost]

end Use

/-! ## The counter -/

def Machine.usesGas {σ : Type} (M : Machine σ) (bc : Bytecode) (tr : Translation) (i : ℕ) (s : σ) :
    Bool :=
  match bc.gasUse tr i with
  | .static => false
  | .resize => M.resizes i s
  | .inline | .builtin | .gas | .stop => true

section Counter

variable {σ : Type} {M : Machine σ} {s₀ s : σ} {γ left : ℤ}

/-- The counter at an instruction of a section is the exact account `γ`, less the static gas of the
rest of the section once its head has been charged. -/
structure CounterInv (M : Machine σ) (bc : Bytecode) (tr : Translation) (expCost : Word → ℕ)
    (s₀ : σ) (c : Conf σ ℤ) (γ : ℤ) (k : ℕ) (pre post : List ℕ) : Prop where
  reach : M.Reach s₀ c.pc c.state
  pos : At bc k pre c.pc post
  gas : c.gas = γ - if pre.isEmpty then 0 else (bc.staticSum expCost (c.pc :: post) : ℤ)
  high : γ < 2 ^ 63
  low : -(GAS_CHECK_THRESHOLD : ℤ) < c.gas
  unchecked : (pre = [] → bc.isFallThroughOnly c.pc = true) →
    -(uncheckedBefore bc tr (bc.constructSections expCost) c.pc : ℤ) ≤ c.gas

theorem charge_spec (hsat : bc.NotSaturated expCost) {c : Conf σ ℤ}
    (h : CounterInv M bc tr expCost s₀ c γ k pre post) :
    match Machine.charge bc tr (bc.constructSections expCost) c.pc c.gas with
    | none => γ < bc.staticSum expCost (c.pc :: post)
    | some left => left = γ - bc.staticSum expCost (c.pc :: post) ∧
        -(uncheckedAtBody bc (bc.constructSections expCost)
          (uncheckedBefore bc tr (bc.constructSections expCost) c.pc) c.pc : ℤ) ≤ left ∧
        (pre = [] → bc.isFallThroughOnly c.pc = false → 0 ≤ left) := by
  have hhead := @At.isHead bc expCost k c.pc pre post h.pos
  have hgas := h.gas
  have hlow := h.low
  have hhigh := h.high
  unfold Machine.charge uncheckedAtBody
  rw [hhead]
  rcases pre with _ | ⟨a, pre⟩
  · obtain ⟨hcost, hlt⟩ := h.pos.gasCost hsat
    have hwrap : wrap64 (c.gas - (bc.constructSections expCost).gasCost c.pc) =
        γ - bc.staticSum expCost (c.pc :: post) := by
      rw [hcost, wrap64_eq]
      · rw [hgas]
        simp
      · unfold GAS_CHECK_THRESHOLD at hlow
        unfold SATURATED at hlt
        push_cast at hlow
        omega
      · simp at hgas
        omega
    simp only [List.isEmpty_nil, if_true]
    rw [hwrap]
    by_cases hcheck : checksAtHead bc (bc.constructSections expCost)
        (uncheckedBefore bc tr (bc.constructSections expCost) c.pc) c.pc = true
    · by_cases hneg : γ - bc.staticSum expCost (c.pc :: post) < 0
      · rw [if_pos ⟨hcheck, hneg⟩]
        exact sub_neg.mp hneg
      · rw [if_neg fun hboth => hneg hboth.2, if_pos hcheck]
        exact ⟨rfl, by simpa using not_lt.mp hneg, fun _ _ => not_lt.mp hneg⟩
    · -- without a check the head is entered from the instruction before it only
      have hfall : bc.isFallThroughOnly c.pc = true := by
        by_contra hfall
        refine hcheck ((Bool.or_eq_true _ _).mpr (Or.inl (decide_eq_true ?_)))
        unfold uncheckedCharged
        rw [if_neg hfall]
        exact Nat.le_add_right _ _
      have hbound := h.unchecked fun _ => hfall
      rw [if_neg fun hboth => hcheck hboth.1, if_neg hcheck]
      refine ⟨rfl, ?_, fun _ hnot => absurd hfall (hnot ▸ Bool.false_ne_true)⟩
      unfold uncheckedCharged
      rw [if_pos hfall, hcost]
      simp only [List.isEmpty_nil, if_true] at hgas
      push_cast
      omega
  · simp only [List.isEmpty_cons, Bool.false_eq_true, if_false] at hgas ⊢
    exact ⟨hgas, h.unchecked nofun, nofun⟩

theorem gasCheck_spec {u : ℕ} (hu : u = uncheckedAtBody bc (bc.constructSections expCost)
      (uncheckedBefore bc tr (bc.constructSections expCost) i) i) (hleft : -(u : ℤ) ≤ left) :
    match Machine.gasCheck bc tr (bc.constructSections expCost) i left with
    | none => left < 0
    | some _ => 0 ≤ left := by
  unfold Machine.gasCheck
  rw [← hu]
  split_ifs with h
  · exact h.2
  · omega

theorem builtinSpend_spec {cost : ℕ} (h0 : 0 ≤ left) (hhigh : left < 2 ^ 63) :
    match Machine.builtinSpend cost left with
    | none => left < cost
    | some (left', g) => left' = left - cost ∧ 0 ≤ left' ∧ (g : ℤ) = left' := by
  have hnat := toU64_eq h0 (by omega)
  unfold Machine.builtinSpend
  split_ifs with h
  · dsimp only
    omega
  · have hwrap : wrap64 ((toU64 left : ℤ) - cost) = left - cost := by
      rw [hnat, wrap64_eq (by omega) (by omega)]
    dsimp only
    rw [hwrap]
    omega

theorem builtin_spec {u cost : ℕ} (hu : u = uncheckedAtBody bc (bc.constructSections expCost)
      (uncheckedBefore bc tr (bc.constructSections expCost) i) i) (hleft : -(u : ℤ) ≤ left)
    (hhigh : left < 2 ^ 63) :
    match (Machine.gasCheck bc tr (bc.constructSections expCost) i left).bind fun _ =>
        Machine.builtinSpend cost left with
    | none => left < cost
    | some (left', g) => left' = left - cost ∧ 0 ≤ left' ∧ (g : ℤ) = left' := by
  have hcheck := gasCheck_spec hu hleft
  rcases hres : Machine.gasCheck bc tr (bc.constructSections expCost) i left with _ | _
  · rw [hres] at hcheck
    exact lt_of_lt_of_le hcheck (Int.natCast_nonneg cost)
  · rw [hres] at hcheck
    exact builtinSpend_spec hcheck hhigh

theorem spend_spec (hM : M.Analysed bc tr expCost s₀) (hsat : bc.NotSaturated expCost)
    (hpos : At bc k pre i post) (hreach : M.Reach s₀ i s) (hfirst : bc.failsFirst i = false)
    (hγ : γ < 2 ^ 63) (hleft : left = γ - bc.staticSum expCost (i :: post))
    (hbody : -(uncheckedAtBody bc (bc.constructSections expCost)
      (uncheckedBefore bc tr (bc.constructSections expCost) i) i : ℤ) ≤ left) :
    match M.spend bc tr (bc.constructSections expCost) i s left with
    | none => γ < (bc.inst i).baseGas + M.dynamicGas i s + bc.staticSum expCost post
    | some (left', g) =>
      left' = γ - (bc.inst i).baseGas - M.dynamicGas i s - bc.staticSum expCost post ∧
        -(uncheckedAfter bc tr (bc.constructSections expCost)
          (uncheckedBefore bc tr (bc.constructSections expCost) i) i : ℤ) ≤ left' ∧
        (M.usesGas bc tr i s = true → 0 ≤ left') ∧ (M.usesGas bc tr i s = false → left' = left) ∧
        (bc.observes i = true → (g : ℤ) = γ - (bc.inst i).baseGas - M.dynamicGas i s) := by
  have hsum : (bc.staticSum expCost (i :: post) : ℤ) =
      bc.staticGas expCost i + bc.staticSum expCost post := Int.natCast_add _ _
  have hbound := @uncheckedAtBody_lt bc i (bc.constructSections expCost) _
    (@uncheckedBefore_lt bc tr i (bc.constructSections expCost))
  have hobserves : bc.observes i = true → bc.gasUse tr i = .gas ∨
      bc.gasUse tr i = .builtin ∧ post = [] := by
    intro hobs
    rcases (Bool.or_eq_true _ _).mp hobs with hgas | hends
    · exact Or.inl (gasUse_of_gas hM (beq_iff_eq.mp hgas))
    · exact Or.inr ⟨gasUse_of_endsSections hM hends,
        hpos.nil_of_endsAfter (endsAfter_of_endsSections hends)⟩
  have hbase : bc.gasUse tr i ≠ .static → bc.staticGas expCost i = (bc.inst i).baseGas :=
    staticGas_of_gasUse hM
  unfold Machine.spend uncheckedAfter Machine.usesGas
  rw [hfirst, if_neg Bool.false_ne_true]
  rw [hsum] at hleft
  rcases huse : bc.gasUse tr i with _ | _ | _ | _ | _ | _
  case static =>
    have hstatic := hM.static i s hreach huse
    refine ⟨by omega, hbody, nofun, fun _ => rfl, fun hobs => ?_⟩
    rcases hobserves hobs with h | ⟨h, -⟩ <;> exact absurd (huse.symm.trans h) nofun
  case inline =>
    have hstatic := hbase (by simp [huse])
    have hdyn := hM.dynamicGas_inline_le i s huse
    unfold GAS_CHECK_THRESHOLD at hdyn hbound
    have hwrap : wrap64 (left - wrap64 (M.dynamicGas i s)) = left - M.dynamicGas i s := by
      have hinner : wrap64 (M.dynamicGas i s) = M.dynamicGas i s :=
        wrap64_eq (by omega) (by omega)
      rw [hinner, wrap64_eq (by omega) (by omega)]
    dsimp only
    rw [hwrap]
    split_ifs with hneg
    · dsimp only
      omega
    · refine ⟨by omega, by omega, fun _ => not_lt.mp hneg, nofun, fun hobs => ?_⟩
      rcases hobserves hobs with h | ⟨h, -⟩ <;> exact absurd (huse.symm.trans h) nofun
  case builtin =>
    have hstatic := hbase (by simp [huse])
    have hspend := @builtin_spec bc tr expCost i left _ (M.dynamicGas i s) rfl hbody (by omega)
    dsimp only
    split at hspend
    case h_1 => omega
    case h_2 left' g _ =>
      refine ⟨by omega, by omega, fun _ => hspend.2.1, nofun, fun hobs => ?_⟩
      rcases hobserves hobs with h | ⟨-, hnil⟩
      · exact absurd (huse.symm.trans h) nofun
      · have hzero : bc.staticSum expCost post = 0 := by rw [hnil]; rfl
        omega
  case resize =>
    have hstatic := hbase (by simp [huse])
    have hspend := @builtin_spec bc tr expCost i left _ (M.dynamicGas i s) rfl hbody (by omega)
    have hblind : bc.observes i = true → False := fun hobs => by
      rcases hobserves hobs with h | ⟨h, -⟩ <;> exact absurd (huse.symm.trans h) nofun
    dsimp only
    by_cases hres : M.resizes i s = true
    · rw [if_pos hres]
      split at hspend
      case h_1 => omega
      case h_2 left' g _ =>
        exact ⟨by omega, by omega, fun _ => hspend.2.1,
          fun h => absurd hres (h ▸ Bool.false_ne_true), fun hobs => absurd (hblind hobs) id⟩
    · have hdyn := hM.silent i s (Or.inr (Or.inr (Or.inr ⟨huse, Bool.eq_false_iff.mpr hres⟩)))
      rw [if_neg hres]
      exact ⟨by omega, hbody, fun h => absurd h hres, fun _ => rfl,
        fun hobs => absurd (hblind hobs) id⟩
  case gas =>
    have hstatic := hbase (by simp [huse])
    have hdyn := hM.silent i s (Or.inl huse)
    have howed := hpos.gasOwed hsat (opcode_of_gasUse_gas huse)
    have hcheck := @gasCheck_spec bc tr expCost i left _ rfl hbody
    dsimp only
    rcases hres : Machine.gasCheck bc tr (bc.constructSections expCost) i left with _ | _
    · rw [hres] at hcheck
      show γ < _
      omega
    · rw [hres] at hcheck
      rw [howed]
      have hgas : (toU64 (wrap64 (left + bc.staticSum expCost post)) : ℤ) =
          left + bc.staticSum expCost post := by
        rw [wrap64_eq (by omega) (by omega), toU64_eq (by omega) (by omega)]
      exact ⟨by omega, by simpa using hcheck, fun _ => hcheck, nofun,
        fun _ => by rw [hgas]; omega⟩
  case stop =>
    have hstatic := hbase (by simp [huse])
    have hdyn := hM.silent i s (Or.inr (Or.inl huse))
    have hcheck := @gasCheck_spec bc tr expCost i left _ rfl hbody
    dsimp only
    rcases hres : Machine.gasCheck bc tr (bc.constructSections expCost) i left with _ | _
    · rw [hres] at hcheck
      show γ < _
      omega
    · rw [hres] at hcheck
      refine ⟨by omega, by simpa using hcheck, fun _ => hcheck, nofun, fun hobs => ?_⟩
      rcases hobserves hobs with h | ⟨h, -⟩ <;> exact absurd (huse.symm.trans h) nofun

theorem staticGas_le (hM : M.Analysed bc tr expCost s₀) (hreach : M.Reach s₀ i s) :
    bc.staticGas expCost i ≤ (bc.inst i).baseGas + M.dynamicGas i s := by
  by_cases huse : bc.gasUse tr i = .static
  · exact (hM.static i s hreach huse).ge
  · exact (staticGas_of_gasUse hM huse).trans_le (Nat.le_add_right _ _)

variable {c : Conf σ ℤ}

theorem CounterInv.account (hM : M.Analysed bc tr expCost s₀) (hsat : bc.NotSaturated expCost)
    (h : CounterInv M bc tr expCost s₀ c γ k pre post) (hfirst : bc.failsFirst c.pc = false) :
    match (Machine.charge bc tr (bc.constructSections expCost) c.pc c.gas).bind
        (M.spend bc tr (bc.constructSections expCost) c.pc c.state) with
    | none => γ < (bc.inst c.pc).baseGas + M.dynamicGas c.pc c.state + bc.staticSum expCost post
    | some (left, g) =>
      left = γ - (bc.inst c.pc).baseGas - M.dynamicGas c.pc c.state -
          bc.staticSum expCost post ∧
        -(uncheckedAfter bc tr (bc.constructSections expCost)
          (uncheckedBefore bc tr (bc.constructSections expCost) c.pc) c.pc : ℤ) ≤ left ∧
        (M.usesGas bc tr c.pc c.state = true ∨
          pre = [] ∧ bc.isFallThroughOnly c.pc = false → 0 ≤ left) ∧
        (bc.observes c.pc = true →
          (g : ℤ) = γ - (bc.inst c.pc).baseGas - M.dynamicGas c.pc c.state) := by
  have hcharge := charge_spec hsat h
  have hle := staticGas_le hM h.reach
  have hsum : bc.staticSum expCost (c.pc :: post) =
      bc.staticGas expCost c.pc + bc.staticSum expCost post := rfl
  rcases hres : Machine.charge bc tr (bc.constructSections expCost) c.pc c.gas with _ | left
  · rw [hres] at hcharge
    show γ < _
    dsimp only at hcharge
    omega
  · rw [hres] at hcharge
    obtain ⟨hleft, hbody, hforced⟩ := hcharge
    have hspend := spend_spec hM hsat h.pos h.reach hfirst h.high hleft hbody
    show match M.spend bc tr (bc.constructSections expCost) c.pc c.state left with
      | none => _
      | some (left, g) => _
    rcases hsp : M.spend bc tr (bc.constructSections expCost) c.pc c.state left with
      _ | ⟨left', g⟩
    · rw [hsp] at hspend
      exact hspend
    · rw [hsp] at hspend
      obtain ⟨hleft', hafter, huses, hsame, hobs⟩ := hspend
      refine ⟨hleft', hafter, ?_, hobs⟩
      by_cases hu : M.usesGas bc tr c.pc c.state = true
      · exact fun _ => huses hu
      · rintro (h' | ⟨hpre, hfall⟩)
        · exact absurd h' hu
        · rw [hsame (Bool.eq_false_iff.mpr hu)]
          exact hforced hpre hfall

theorem SoundFlow.eq_succ {flow : ℕ → ℕ → Prop} (hflow : SoundFlow bc flow) {j : ℕ}
    (hedge : flow i j) (hfall : bc.isFallThroughOnly j = true) : j = i + 1 := by
  unfold Bytecode.isFallThroughOnly at hfall
  rcases hflow i j hedge with h | h | h
  · exact h
  · unfold Bytecode.startsAt at h
    rw [if_pos ((Bool.or_eq_true _ _).mpr (Or.inl h))] at hfall
    exact absurd hfall Bool.false_ne_true
  · rw [if_pos ((Bool.or_eq_true _ _).mpr (Or.inr h))] at hfall
    exact absurd hfall Bool.false_ne_true

def Machine.accountAfter (M : Machine σ) (bc : Bytecode) (i : ℕ) (s : σ) (γ : ℤ) (g' : ℕ) : ℤ :=
  if (bc.inst i).endsSections then g' else γ - (bc.inst i).baseGas - M.dynamicGas i s

/-- **The invariant of the counter** is kept by an instruction that leads to another one. -/
theorem CounterInv.next (hM : M.Analysed bc tr expCost s₀) (hsat : bc.NotSaturated expCost)
    (h : CounterInv M bc tr expCost s₀ c γ k pre post) (hfirst : bc.failsFirst c.pc = false)
    {g g' j : ℕ} {s' : σ}
    (hspent : (Machine.charge bc tr (bc.constructSections expCost) c.pc c.gas).bind
      (M.spend bc tr (bc.constructSections expCost) c.pc c.state) = some (left, g))
    (hexec : M.exec c.pc c.state g = some (.goto j s', g')) (seen : List (ℕ × ℕ)) :
    ∃ k' pre' post', CounterInv M bc tr expCost s₀
      ⟨j, s', if (bc.inst c.pc).endsSections then wrap64 g' else left, seen⟩
      (M.accountAfter bc c.pc c.state γ g') k' pre' post' := by
  have haccount := h.account hM hsat hfirst
  have hhigh := h.high
  rw [hspent] at haccount
  obtain ⟨hleft, hafter, -, hobs⟩ := haccount
  have hlt := @uncheckedAfter_lt bc tr c.pc (bc.constructSections expCost) _
    (@uncheckedBefore_lt bc tr c.pc (bc.constructSections expCost))
  have hreach : M.Reach s₀ j s' := .step h.reach hexec
  have hedge : M.flow s₀ c.pc j := ⟨c.state, g, s', g', h.reach, hexec⟩
  have hsucc : j = c.pc + 1 → -(uncheckedBefore bc tr (bc.constructSections expCost) j : ℤ) ≤
      left := by
    rintro rfl
    rw [uncheckedBefore_succ h.pos.live]
    exact hafter
  unfold Machine.accountAfter
  by_cases hends : (bc.inst c.pc).endsSections = true
  · -- such an instruction is the last one of its section, and leaves a new counter
    have hnil := h.pos.nil_of_endsAfter (endsAfter_of_endsSections hends)
    have hgas := hobs (by unfold Bytecode.observes; rw [hends, Bool.or_true])
    have hg' := hM.bound c.pc c.state g _ g' (by omega) hexec
    have hsplit := h.pos.split
    rw [hnil] at hsplit
    obtain ⟨l, hl, rest, hsec⟩ := hM.cfg.flow_last h.pos.lt hsplit hedge
    rw [if_pos hends, if_pos hends]
    refine ⟨l, [], rest, hreach, ⟨hl, hsec⟩, ?_, by omega, ?_, fun _ => ?_⟩
    · rw [wrap64_eq (by omega) (by omega)]
      simp
    · unfold GAS_CHECK_THRESHOLD
      dsimp only
      rw [wrap64_eq (by omega) (by omega)]
      omega
    · dsimp only
      rw [wrap64_eq (by omega) (by omega)]
      omega
  · rw [if_neg hends, if_neg hends]
    have hlow : -(GAS_CHECK_THRESHOLD : ℤ) < left := by omega
    rcases post with _ | ⟨j', post⟩
    · obtain ⟨l, hl, rest, hsec⟩ := hM.cfg.flow_last h.pos.lt h.pos.split hedge
      refine ⟨l, [], rest, hreach, ⟨hl, hsec⟩, ?_, by omega, hlow, fun hfall => ?_⟩
      · dsimp only
        rw [hleft]
        simp [Bytecode.staticSum]
      · exact hsucc (hM.cfg.enters.eq_succ hedge (hfall rfl))
    · obtain rfl := hM.cfg.flow_inside h.pos.lt h.pos.split hedge
      have hsplit : bc.sectionAt k = (pre ++ [c.pc]) ++ j :: post := by
        rw [h.pos.split, List.append_assoc]
        rfl
      refine ⟨k, pre ++ [c.pc], post, hreach, ⟨h.pos.lt, hsplit⟩, ?_, by omega, hlow, fun _ => ?_⟩
      · dsimp only
        rw [hleft]
        simp
      · exact hsucc (hM.cfg.succ_inside h.pos.lt h.pos.split)

theorem CounterInv.start (hM : M.Analysed bc tr expCost s₀) {gas : ℕ} (hgas : gas < 2 ^ 63) :
    ∃ k pre post, CounterInv M bc tr expCost s₀ ⟨0, s₀, gas, []⟩ gas k pre post := by
  obtain ⟨k, hk, hmem⟩ := mem_liveInsts_iff.mp (bc.mem_liveInsts.mpr hM.entry)
  obtain ⟨pre, post, hsplit⟩ := List.append_of_mem hmem
  have hpre : pre = [] := by
    rcases pre with _ | ⟨a, pre⟩
    · rfl
    · have hsorted := (pairwise_sections bc).1 _ (sectionAt_mem hk)
      rw [hsplit] at hsorted
      have hlt := (List.pairwise_append.mp hsorted).2.2 a List.mem_cons_self 0 List.mem_cons_self
      exact absurd hlt (Nat.not_lt_zero a)
  refine ⟨k, pre, post, .entry, ⟨hk, hsplit⟩, ?_, by exact_mod_cast hgas, ?_, fun _ => ?_⟩
  · rw [hpre]
    simp
  · unfold GAS_CHECK_THRESHOLD
    dsimp only
    omega
  · dsimp only
    omega

end Counter

end Evm2.Jit
