import Evm2.Jit.GasCharge

/-!
# Deferred gas charging agrees with the interpreter

* **`gas_schedules_agree`**: frames end alike, with the same gas.
-/

namespace Evm2.Jit

variable {σ : Type} {M : Machine σ} {bc : Bytecode} {tr : Translation} {expCost : Word → ℕ}
  {s₀ : σ} {k : ℕ} {pre post : List ℕ}

theorem le_observe (i gas : ℕ) (seen : List (ℕ × ℕ)) : seen <+: bc.observe i gas seen := by
  unfold Bytecode.observe
  split_ifs
  · exact List.prefix_append _ _
  · exact List.prefix_rfl

/-! ## The interpreter runs out of gas -/

theorem interp_halts (hM : M.Analysed bc tr expCost s₀) (post : List ℕ) :
    ∀ (pre : List ℕ) (c : Conf σ ℕ), M.Reach s₀ c.pc c.state → At bc k pre c.pc post →
      c.gas < (bc.inst c.pc).baseGas + M.dynamicGas c.pc c.state + bc.staticSum expCost post →
      ∃ seen, Runs.Ends (M.interpStep bc) c (.halted seen) ∧ c.seen <+: seen := by
  induction post with
  | nil =>
    intro pre c _ _ hgas
    have hstep : M.interpStep bc c = .inr (.halted c.seen) := if_pos hgas
    exact ⟨c.seen, .done hstep, List.prefix_rfl⟩
  | cons j post ih =>
    intro pre c hreach hpos hgas
    by_cases hpay : c.gas < (bc.inst c.pc).baseGas + M.dynamicGas c.pc c.state
    · have hstep : M.interpStep bc c = .inr (.halted c.seen) := if_pos hpay
      exact ⟨c.seen, .done hstep, List.prefix_rfl⟩
    have hends := (linked_inside hpos.lt hpos.split).1
    have hstep := show M.interpStep bc c = _ from if_neg hpay
    rcases hexec : M.exec c.pc c.state
      (c.gas - ((bc.inst c.pc).baseGas + M.dynamicGas c.pc c.state)) with
      _ | ⟨⟨j', s'⟩ | ⟨r, s'⟩, g'⟩
    · rw [hexec] at hstep
      exact ⟨_, .done hstep, le_observe _ _ _⟩
    · rw [hexec] at hstep
      have hkeeps := hM.keeps _ _ _ _ _ ((Bool.or_eq_false_iff).mp hends).2 hexec
      obtain rfl := hM.cfg.flow_inside hpos.lt hpos.split ⟨c.state, _, s', g', hreach, hexec⟩
      have hle := staticGas_le hM (.step hreach hexec)
      have hsum : bc.staticSum expCost (j' :: post) =
        bc.staticGas expCost j' + bc.staticSum expCost post := rfl
      have hpos' : At bc k (pre ++ [c.pc]) j' post :=
        ⟨hpos.lt, by rw [hpos.split, List.append_assoc]; rfl⟩
      obtain ⟨seen, hhalt, hprefix⟩ := ih (pre ++ [c.pc]) ⟨j', s', g', _⟩
        (.step hreach hexec) hpos' (by dsimp only; omega)
      exact ⟨seen, .next hstep hhalt, (le_observe _ _ _).trans hprefix⟩
    · have hends' := (gasUse_of_stops hM hexec).1
      exact absurd hends' (hends ▸ Bool.false_ne_true)

/-! ## Compiled code has overdrawn its gas -/

theorem At.nil_of_entered {flow : ℕ → ℕ → Prop} (hcfg : SoundCfg bc flow) {j : ℕ}
    (hpos : At bc k pre j post)
    (h : bc.startsAt j = true ∨ (bc.inst j).flags.redirectTarget = true) : pre = [] := by
  rcases List.eq_nil_or_concat pre with rfl | ⟨init, a, rfl⟩
  · rfl
  have hsplit := hpos.split
  rw [List.concat_eq_append, List.append_assoc] at hsplit
  have hsucc := hcfg.succ_inside hpos.lt hsplit
  obtain ⟨hends, hstarts⟩ := linked_inside hpos.lt hsplit
  have hnot : bc.startsAt j ≠ true := hstarts ▸ Bool.false_ne_true
  rcases h with h | h
  · exact absurd h hnot
  · rcases hcfg.redirect j h with h | h | h
    · exact absurd h hnot
    · omega
    · rw [hsucc, Nat.add_sub_cancel] at h
      exact absurd h (((Bool.or_eq_false_iff).mp hends).1 ▸ Bool.false_ne_true)

theorem not_isFallThroughOnly_of_entered {j : ℕ}
    (h : bc.startsAt j = true ∨ (bc.inst j).flags.redirectTarget = true) :
    bc.isFallThroughOnly j = false :=
  if_pos ((Bool.or_eq_true _ _).mpr h)

section Compiled

variable {c : Conf σ ℤ} {γ left : ℤ} {g : ℕ}

theorem compStep_of_none (hfirst : bc.failsFirst c.pc = false)
    (h : (Machine.charge bc tr (bc.constructSections expCost) c.pc c.gas).bind
      (M.spend bc tr (bc.constructSections expCost) c.pc c.state) = none) :
    M.compStep bc tr (bc.constructSections expCost) c = .inr (.halted c.seen) := by
  unfold Machine.compStep
  rw [hfirst, if_neg Bool.false_ne_true, h]

theorem compStep_of_some (hfirst : bc.failsFirst c.pc = false)
    (h : (Machine.charge bc tr (bc.constructSections expCost) c.pc c.gas).bind
      (M.spend bc tr (bc.constructSections expCost) c.pc c.state) = some (left, g)) :
    M.compStep bc tr (bc.constructSections expCost) c =
      match M.exec c.pc c.state g with
      | none => .inr (.halted (bc.observe c.pc g c.seen))
      | some (.goto pc s, gas) => .inl ⟨pc, s,
          if (bc.inst c.pc).endsSections then wrap64 gas else left, bc.observe c.pc g c.seen⟩
      | some (.stop revert s, gas) => .inr (.stopped revert s
          (if (bc.inst c.pc).endsSections then gas else toU64 left)
          (bc.observe c.pc g c.seen)) := by
  unfold Machine.compStep
  rewrite [hfirst, if_neg Bool.false_ne_true, h]
  rfl

theorem compStep_of_failsFirst (hfirst : bc.failsFirst c.pc = true) :
    M.compStep bc tr (bc.constructSections expCost) c = .inr (.halted c.seen) := if_pos hfirst

theorem usesGas_of_observes (hM : M.Analysed bc tr expCost s₀) {i : ℕ} (s : σ)
    (h : bc.observes i = true) : M.usesGas bc tr i s = true := by
  unfold Machine.usesGas
  rcases (Bool.or_eq_true _ _).mp h with hgas | hends
  · rw [gasUse_of_gas hM (beq_iff_eq.mp hgas)]
  · rw [gasUse_of_endsSections hM hends]

theorem comp_halts_at_head (hM : M.Analysed bc tr expCost s₀) (hsat : bc.NotSaturated expCost)
    (h : CounterInv M bc tr expCost s₀ c γ k [] post) (hγ : γ < 0)
    (hfall : bc.isFallThroughOnly c.pc = false) :
    M.compStep bc tr (bc.constructSections expCost) c = .inr (.halted c.seen) := by
  by_cases hfirst : bc.failsFirst c.pc = true
  · exact compStep_of_failsFirst hfirst
  rw [Bool.not_eq_true] at hfirst
  have haccount := h.account hM hsat hfirst
  rcases hspent : (Machine.charge bc tr (bc.constructSections expCost) c.pc c.gas).bind
      (M.spend bc tr (bc.constructSections expCost) c.pc c.state) with _ | ⟨left, g⟩
  · exact compStep_of_none hfirst hspent
  · rw [hspent] at haccount
    have hnonneg := haccount.2.2.1 (Or.inr ⟨rfl, hfall⟩)
    have hleft := haccount.1
    omega

/-- **Compiled code that cannot pay an instruction halts**, and nothing sees the gas before. The
induction is on the instructions after it: a jump leads to a check. -/
theorem comp_halts (hM : M.Analysed bc tr expCost s₀) (hsat : bc.NotSaturated expCost) (n : ℕ) :
    ∀ (c : Conf σ ℤ) (γ : ℤ) (k : ℕ) (pre post : List ℕ),
      CounterInv M bc tr expCost s₀ c γ k pre post →
      γ < (bc.inst c.pc).baseGas + M.dynamicGas c.pc c.state → bc.insts.length ≤ c.pc + n →
      Runs.Ends (M.compStep bc tr (bc.constructSections expCost)) c (.halted c.seen) := by
  induction n with
  | zero =>
    intro c γ k pre post h _ hn
    exact absurd h.pos.live.1 (Nat.not_lt.mpr hn)
  | succ n ih =>
    intro c γ k pre post h hγ hn
    by_cases hfirst : bc.failsFirst c.pc = true
    · exact .done (compStep_of_failsFirst hfirst)
    rw [Bool.not_eq_true] at hfirst
    have haccount := h.account hM hsat hfirst
    rcases hspent : (Machine.charge bc tr (bc.constructSections expCost) c.pc c.gas).bind
        (M.spend bc tr (bc.constructSections expCost) c.pc c.state) with _ | ⟨left, g⟩
    · exact .done (compStep_of_none hfirst hspent)
    rw [hspent] at haccount
    obtain ⟨hleft, -, hpays, -⟩ := haccount
    have hneg : left < 0 := by omega
    have huses : M.usesGas bc tr c.pc c.state ≠ true := fun hu =>
      absurd (hpays (Or.inl hu)) (not_le.mpr hneg)
    have hblind : bc.observes c.pc ≠ true := fun hobs => huses (usesGas_of_observes hM _ hobs)
    have hseen : bc.observe c.pc g c.seen = c.seen := if_neg hblind
    have hstep := compStep_of_some hfirst hspent
    rw [hseen] at hstep
    rcases hexec : M.exec c.pc c.state g with _ | ⟨⟨j, s'⟩ | ⟨r, s'⟩, g'⟩
    · rw [hexec] at hstep
      exact .done hstep
    · rw [hexec] at hstep
      have hends : ¬ (bc.inst c.pc).endsSections = true := fun hends => hblind (by
        unfold Bytecode.observes
        rw [hends, Bool.or_true])
      obtain ⟨k', pre', post', hnext⟩ := h.next hM hsat hfirst hspent hexec c.seen
      have hγ' : M.accountAfter bc c.pc c.state γ g' < 0 := by
        unfold Machine.accountAfter
        rw [if_neg hends]
        omega
      refine .next hstep ?_
      rcases hM.cfg.enters c.pc j ⟨c.state, g, s', g', h.reach, hexec⟩ with hj | hj
      · exact ih _ _ k' pre' post' hnext (by dsimp only; omega) (by dsimp only; omega)
      · obtain rfl := hnext.pos.nil_of_entered hM.cfg hj
        exact .done (comp_halts_at_head hM hsat hnext hγ' (not_isFallThroughOnly_of_entered hj))
    · rcases (gasUse_of_stops hM hexec).2 with huse | huse
      · exact absurd (by unfold Machine.usesGas; rw [huse]) huses
      · exact absurd (by unfold Machine.usesGas; rw [huse]) huses

end Compiled

/-! ## Both in step -/

/-- How the ends of two frames agree. A frame that halts loses its gas, and compiled code may halt
before the interpreter does, so that less has been seen of the gas. -/
inductive Agree : Outcome σ → Outcome σ → Prop
  | stopped (revert : Bool) (s : σ) (gas : ℕ) (seen : List (ℕ × ℕ)) :
    Agree (.stopped revert s gas seen) (.stopped revert s gas seen)
  | halted {seen seen' : List (ℕ × ℕ)} (h : seen' <+: seen) :
    Agree (.halted seen) (.halted seen')

/-- The interpreter and compiled code are at the same instruction in the same state, and the gas of
the interpreter is the exact account of the counter. -/
structure Synced (M : Machine σ) (bc : Bytecode) (tr : Translation) (expCost : Word → ℕ) (s₀ : σ)
    (ci : Conf σ ℕ) (cc : Conf σ ℤ) : Prop where
  pc : ci.pc = cc.pc
  state : ci.state = cc.state
  seen : ci.seen = cc.seen
  inv : ∃ k pre post, CounterInv M bc tr expCost s₀ cc ci.gas k pre post

section Sync

variable {cc : Conf σ ℤ} {gas : ℕ} {left : ℤ} {g : ℕ}

theorem exec_agree (hM : M.Analysed bc tr expCost s₀) {i : ℕ} (s : σ) {g g' : ℕ}
    (hobs : bc.observes i = true → g = g') :
    (M.exec i s g).map Prod.fst = (M.exec i s g').map Prod.fst ∧
      ∀ seen, bc.observe i g seen = bc.observe i g' seen := by
  by_cases h : bc.observes i = true
  · rw [hobs h]
    exact ⟨rfl, fun _ => rfl⟩
  · refine ⟨hM.blind i s g g' (Bool.eq_false_iff.mpr h), fun seen => ?_⟩
    unfold Bytecode.observe
    rw [if_neg h, if_neg h]

theorem exec_gas (hM : M.Analysed bc tr expCost s₀) {i : ℕ} {s : σ} {g gi g₁ g₁' : ℕ}
    {n n' : Next σ} (hobs : bc.observes i = true → g = gi) (hi : M.exec i s gi = some (n, g₁))
    (hc : M.exec i s g = some (n', g₁')) :
    if (bc.inst i).endsSections then g₁' = g₁ else g₁ = gi := by
  split_ifs with hends
  · rw [hobs (by unfold Bytecode.observes; rw [hends, Bool.or_true]), hi] at hc
    exact (congrArg Prod.snd (Option.some.inj hc)).symm
  · exact hM.keeps i s gi n g₁ (Bool.eq_false_iff.mpr hends) hi

theorem matched_of_paid (hM : M.Analysed bc tr expCost s₀) (hsat : bc.NotSaturated expCost)
    (hinv : CounterInv M bc tr expCost s₀ cc gas k pre post)
    (hfirst : bc.failsFirst cc.pc = false)
    (hspent : (Machine.charge bc tr (bc.constructSections expCost) cc.pc cc.gas).bind
      (M.spend bc tr (bc.constructSections expCost) cc.pc cc.state) = some (left, g))
    (hpay : ¬ gas < (bc.inst cc.pc).baseGas + M.dynamicGas cc.pc cc.state) :
    Runs.Matched (M.interpStep bc) (M.compStep bc tr (bc.constructSections expCost))
      (Synced M bc tr expCost s₀) Agree ⟨cc.pc, cc.state, gas, cc.seen⟩ cc := by
  have haccount := hinv.account hM hsat hfirst
  rw [hspent] at haccount
  obtain ⟨hleft, -, -, hobs⟩ := haccount
  have hcomp := compStep_of_some hfirst hspent
  have hinterp : M.interpStep bc ⟨cc.pc, cc.state, gas, cc.seen⟩ = _ := if_neg hpay
  generalize hgi : gas - ((bc.inst cc.pc).baseGas + M.dynamicGas cc.pc cc.state) = gi at hinterp
  have hobs' : bc.observes cc.pc = true → g = gi := fun h => by
    have hg := hobs h
    omega
  obtain ⟨hsame, hseen⟩ := exec_agree hM cc.state hobs'
  rw [hseen] at hcomp
  rcases hi : M.exec cc.pc cc.state gi with _ | ⟨n, g₁⟩
  · -- it fails in both
    rw [hi, Option.map_none, Option.map_eq_none_iff] at hsame
    rw [hi] at hinterp
    rw [hsame] at hcomp
    exact Or.inr ⟨_, _, .done hinterp, .done hcomp, .halted List.prefix_rfl⟩
  obtain ⟨⟨n', g₁'⟩, hc, rfl⟩ : ∃ r, M.exec cc.pc cc.state g = some r ∧ r.1 = n := by
    rw [hi] at hsame
    exact Option.map_eq_some_iff.mp hsame
  have hgas := exec_gas hM hobs' hi hc
  rw [hi] at hinterp
  rw [hc] at hcomp
  rcases n' with ⟨j, s'⟩ | ⟨revert, s'⟩
  · -- both go on
    obtain ⟨k', pre', post', hnext⟩ := hinv.next hM hsat hfirst hspent hc
      (bc.observe cc.pc gi cc.seen)
    have haccount : M.accountAfter bc cc.pc cc.state gas g₁' = (g₁ : ℤ) := by
      unfold Machine.accountAfter
      by_cases hends : (bc.inst cc.pc).endsSections = true
      · rw [if_pos hends] at hgas ⊢
        rw [hgas]
      · rw [if_neg hends] at hgas ⊢
        omega
    rw [haccount] at hnext
    exact Or.inl ⟨_, _, hinterp, hcomp, rfl, rfl, rfl, k', pre', post', hnext⟩
  · -- both stop, at the end of a section
    have hnil := hinv.pos.nil_of_endsAfter (gasUse_of_stops hM hc).1
    have hfinal : (if (bc.inst cc.pc).endsSections then g₁' else toU64 left) = g₁ := by
      by_cases hends : (bc.inst cc.pc).endsSections = true
      · rw [if_pos hends] at hgas ⊢
        exact hgas
      · rw [if_neg hends] at hgas ⊢
        have hzero : bc.staticSum expCost post = 0 := by rw [hnil]; rfl
        have hhigh := hinv.high
        have hnat := @toU64_eq left (by omega) (by omega)
        omega
    dsimp only at hcomp
    rw [hfinal] at hcomp
    exact Or.inr ⟨_, _, .done hinterp, .done hcomp, .stopped revert s' g₁ _⟩

theorem synced_matched (hM : M.Analysed bc tr expCost s₀) (hsat : bc.NotSaturated expCost)
    (ci : Conf σ ℕ) (cc : Conf σ ℤ) (h : Synced M bc tr expCost s₀ ci cc) :
    Runs.Matched (M.interpStep bc) (M.compStep bc tr (bc.constructSections expCost))
      (Synced M bc tr expCost s₀) Agree ci cc := by
  obtain ⟨pc, s, gas, seen⟩ := ci
  obtain ⟨rfl, rfl, rfl, k, pre, post, hinv⟩ := h
  dsimp only at hinv
  by_cases hfirst : bc.failsFirst cc.pc = true
  · have hcomp := @compStep_of_failsFirst σ M bc tr expCost cc hfirst
    by_cases hpay : gas < (bc.inst cc.pc).baseGas + M.dynamicGas cc.pc cc.state
    · have hstep : M.interpStep bc ⟨cc.pc, cc.state, gas, cc.seen⟩ = .inr (.halted cc.seen) :=
        if_pos hpay
      exact Or.inr ⟨_, _, .done hstep, .done hcomp, .halted List.prefix_rfl⟩
    · have hstep : M.interpStep bc ⟨cc.pc, cc.state, gas, cc.seen⟩ = _ := if_neg hpay
      dsimp only at hstep
      rw [hM.fails _ _ _ hfirst] at hstep
      exact Or.inr ⟨_, _, .done hstep, .done hcomp, .halted (le_observe _ _ _)⟩
  rw [Bool.not_eq_true] at hfirst
  have haccount := hinv.account hM hsat hfirst
  rcases hspent : (Machine.charge bc tr (bc.constructSections expCost) cc.pc cc.gas).bind
      (M.spend bc tr (bc.constructSections expCost) cc.pc cc.state) with _ | ⟨left, g⟩
  · -- compiled code cannot pay, and so neither can the interpreter the rest of the section
    rw [hspent] at haccount
    obtain ⟨seen, hhalt, hprefix⟩ := interp_halts hM post pre ⟨cc.pc, cc.state, gas, cc.seen⟩
      hinv.reach hinv.pos (by dsimp only at haccount ⊢; omega)
    exact Or.inr ⟨_, _, hhalt, .done (compStep_of_none hfirst hspent), .halted hprefix⟩
  by_cases hpay : gas < (bc.inst cc.pc).baseGas + M.dynamicGas cc.pc cc.state
  · -- the interpreter cannot pay, and compiled code comes to a check
    have hstep : M.interpStep bc ⟨cc.pc, cc.state, gas, cc.seen⟩ = .inr (.halted cc.seen) :=
      if_pos hpay
    exact Or.inr ⟨_, _, .done hstep,
      comp_halts hM hsat bc.insts.length cc gas k pre post hinv (by omega) (by omega),
      .halted List.prefix_rfl⟩
  · exact matched_of_paid hM hsat hinv hfirst hspent hpay

end Sync

/-! ## Whole frames -/

def InRange (z : ℤ) : Prop := -2 ^ 63 ≤ z ∧ z < 2 ^ 63

/-- The counter does not wrap at an instruction of compiled code, and it is not negative where a
fallible builtin is called, where the gas is pushed, where the frame returns, and in a section that
can be jumped to. -/
structure CounterOk (M : Machine σ) (bc : Bytecode) (tr : Translation) (secs : Sections)
    (c : Conf σ ℤ) : Prop where
  head : secs.isHead c.pc = true → InRange (c.gas - secs.gasCost c.pc)
  inline : ∀ left, Machine.charge bc tr secs c.pc c.gas = some left →
    bc.gasUse tr c.pc = .inline → InRange (left - M.dynamicGas c.pc c.state)
  owed : ∀ left g, (Machine.charge bc tr secs c.pc c.gas).bind
      (M.spend bc tr secs c.pc c.state) = some (left, g) →
    bc.gasUse tr c.pc = .gas → InRange (left + secs.gasOwed c.pc)
  effects : ∀ left g, (Machine.charge bc tr secs c.pc c.gas).bind
      (M.spend bc tr secs c.pc c.state) = some (left, g) →
    M.usesGas bc tr c.pc c.state = true ∨
      secs.isHead c.pc = true ∧ bc.isFallThroughOnly c.pc = false → 0 ≤ left

theorem CounterInv.counterOk {c : Conf σ ℤ} {γ : ℤ} (hM : M.Analysed bc tr expCost s₀)
    (hsat : bc.NotSaturated expCost) (h : CounterInv M bc tr expCost s₀ c γ k pre post)
    (hfirst : bc.failsFirst c.pc = false) :
    CounterOk M bc tr (bc.constructSections expCost) c := by
  have haccount := h.account hM hsat hfirst
  have hcharge := charge_spec hsat h
  have hhead := @At.isHead bc expCost k c.pc pre post h.pos
  have hlow := h.low
  have hhigh := h.high
  have hbound := @uncheckedAtBody_lt bc c.pc (bc.constructSections expCost) _
    (@uncheckedBefore_lt bc tr c.pc (bc.constructSections expCost))
  unfold GAS_CHECK_THRESHOLD at hlow hbound
  refine ⟨fun hh => ?_, fun left hleft huse => ?_, fun left g hspent huse => ?_,
    fun left g hspent hor => ?_⟩
  · rw [hhead] at hh
    obtain rfl := List.isEmpty_iff.mp hh
    obtain ⟨hcost, hlt⟩ := h.pos.gasCost hsat
    have hgas := h.gas
    simp only [List.isEmpty_nil, if_true] at hgas
    unfold SATURATED at hlt
    unfold InRange
    rw [hcost]
    omega
  · rw [hleft] at hcharge
    have hdyn := hM.dynamicGas_inline_le c.pc c.state huse
    obtain ⟨hval, hlo, -⟩ := hcharge
    unfold GAS_CHECK_THRESHOLD at hdyn
    unfold InRange
    omega
  · rw [hspent] at haccount
    have howed := h.pos.gasOwed hsat (opcode_of_gasUse_gas huse)
    have huses : M.usesGas bc tr c.pc c.state = true := by
      unfold Machine.usesGas
      rw [huse]
    have hnonneg := haccount.2.2.1 (Or.inl huses)
    have hval := haccount.1
    unfold InRange
    rw [howed]
    omega
  · rw [hspent] at haccount
    refine haccount.2.2.1 (hor.imp_right fun hh => ⟨?_, hh.2⟩)
    rw [hhead] at hh
    exact List.isEmpty_iff.mp hh.1

theorem reaches_counterInv (hM : M.Analysed bc tr expCost s₀) (hsat : bc.NotSaturated expCost)
    {gas : ℕ} (hgas : gas < 2 ^ 63) {c : Conf σ ℤ}
    (hc : Runs.Reaches (M.compStep bc tr (bc.constructSections expCost)) ⟨0, s₀, gas, []⟩ c) :
    ∃ γ k pre post, CounterInv M bc tr expCost s₀ c γ k pre post := by
  refine hc.invariant (I := fun c => ∃ γ k pre post, CounterInv M bc tr expCost s₀ c γ k pre post)
    ?_ ⟨gas, CounterInv.start hM hgas⟩
  rintro a b ⟨γ, k, pre, post, hinv⟩ hstep
  by_cases hfirst : bc.failsFirst a.pc = true
  · exact absurd ((compStep_of_failsFirst hfirst).symm.trans hstep) Sum.inr_ne_inl
  rw [Bool.not_eq_true] at hfirst
  rcases hspent : (Machine.charge bc tr (bc.constructSections expCost) a.pc a.gas).bind
      (M.spend bc tr (bc.constructSections expCost) a.pc a.state) with _ | ⟨left, g⟩
  · exact absurd ((compStep_of_none hfirst hspent).symm.trans hstep) Sum.inr_ne_inl
  rw [compStep_of_some hfirst hspent] at hstep
  rcases hexec : M.exec a.pc a.state g with _ | ⟨⟨j, s'⟩ | ⟨r, s'⟩, g'⟩
  · rw [hexec] at hstep
    exact absurd hstep Sum.inr_ne_inl
  · rw [hexec] at hstep
    obtain rfl := Sum.inl.inj hstep
    exact ⟨_, hinv.next hM hsat hfirst hspent hexec _⟩
  · rw [hexec] at hstep
    exact absurd hstep Sum.inr_ne_inl

/-- **Deferred gas charging** agrees with charging each instruction: a frame that is entered with at
most `i64::MAX` gas ends on the interpreter if and only if it ends in compiled code, the ends agree,
and the counter of compiled code does not wrap. -/
theorem gas_schedules_agree (M : Machine σ) (bc : Bytecode) (tr : Translation)
    (expCost : Word → ℕ) (s₀ : σ) (hM : M.Analysed bc tr expCost s₀)
    (hsat : bc.NotSaturated expCost) (gas : ℕ) (hgas : gas < 2 ^ 63) :
    (∀ r, Runs.Ends (M.interpStep bc) ⟨0, s₀, gas, []⟩ r → ∃ r', Runs.Ends
      (M.compStep bc tr (bc.constructSections expCost)) ⟨0, s₀, gas, []⟩ r' ∧ Agree r r') ∧
    (∀ r', Runs.Ends (M.compStep bc tr (bc.constructSections expCost)) ⟨0, s₀, gas, []⟩ r' →
      ∃ r, Runs.Ends (M.interpStep bc) ⟨0, s₀, gas, []⟩ r ∧ Agree r r') ∧
    ∀ c, Runs.Reaches (M.compStep bc tr (bc.constructSections expCost)) ⟨0, s₀, gas, []⟩ c →
      bc.failsFirst c.pc = false → CounterOk M bc tr (bc.constructSections expCost) c := by
  have hstart : Synced M bc tr expCost s₀ ⟨0, s₀, gas, []⟩ ⟨0, s₀, gas, []⟩ :=
    ⟨rfl, rfl, rfl, CounterInv.start hM hgas⟩
  refine ⟨fun r hr => Runs.Matched.ends (synced_matched hM hsat) hstart hr,
    fun r' hr' => Runs.Matched.ends_symm (synced_matched hM hsat) hstart hr',
    fun c hc hfirst => ?_⟩
  obtain ⟨γ, k, pre, post, hinv⟩ := reaches_counterInv hM hsat hgas hc
  exact hinv.counterOk hM hsat hfirst

def loadThenJump : Bytecode :=
  { insts := [⟨some (.push 0), {}, 2, (0, 1), false⟩, ⟨some .tload, {}, 100, (1, 1), false⟩,
      ⟨some (.push 1), {}, 3, (0, 1), false⟩,
      ⟨some .jump, { staticJump := true }, 8, (1, 0), false⟩,
      ⟨some .jumpdest, {}, 1, (0, 0), true⟩, ⟨some .stop, {}, 0, (0, 0), false⟩] }

def straightMachine : Machine Unit where
  dynamicGas _ _ := 0
  resizes _ _ := false
  exec i s g :=
    if i < 5 then some (.goto (i + 1) s, g)
    else if i = 5 then some (.stop false s, g)
    else none

theorem gasCost_loadThenJump : loadThenJump.NotSaturated fun _ => 0 := by
  have hsections : loadThenJump.sections = [[0, 1, 2, 3], [4, 5]] := by decide +kernel
  intro i
  by_cases hi : i = 0 ∨ i = 4
  · rcases hi with rfl | rfl <;> decide +kernel
  · rw [constructSections_eq, hsections, gasCost_saveAll_of_ne]
    · show 0 ≠ SATURATED
      decide
    · intro g hg
      simp only [List.mem_cons, List.not_mem_nil, or_false] at hg
      rcases hg with rfl | rfl
      · exact fun h => hi (Or.inl h.symm)
      · exact fun h => hi (Or.inr h.symm)

theorem straightMachine_exec {i g g' : ℕ} {n : Next Unit}
    (h : straightMachine.exec i () g = some (n, g')) :
    g' = g ∧ (i < 5 ∧ n = .goto (i + 1) () ∨ i = 5 ∧ n = .stop false ()) := by
  unfold straightMachine at h
  dsimp only at h
  split_ifs at h with hlt heq
  · obtain ⟨rfl, rfl⟩ := Prod.mk.inj (Option.some.inj h)
    exact ⟨rfl, Or.inl ⟨hlt, rfl⟩⟩
  · obtain ⟨rfl, rfl⟩ := Prod.mk.inj (Option.some.inj h)
    exact ⟨rfl, Or.inr ⟨heq, rfl⟩⟩

theorem flags_loadThenJump (i : ℕ) : (loadThenJump.inst i).flags.deadCode = false ∧
    (loadThenJump.inst i).flags.redirectTarget = false ∧
    (loadThenJump.inst i).flags.host = false ∧ loadThenJump.failsFirst i = false ∧
    loadThenJump.gasUse {} i ≠ .inline ∧ (loadThenJump.inst i).opcode ≠ some .exp := by
  rcases i with _ | _ | _ | _ | _ | _ | i <;>
    refine ⟨rfl, rfl, rfl, rfl, fun h => ?_, fun h => ?_⟩ <;> cases h

theorem straightMachine_analysed :
    straightMachine.Analysed loadThenJump {} (fun _ => 0) () := by
  have hflow (i j : ℕ) (h : straightMachine.flow () i j) : i < 5 ∧ j = i + 1 := by
    obtain ⟨s, g, s', g', -, hexec⟩ := h
    rcases (straightMachine_exec hexec).2 with ⟨hlt, hn⟩ | ⟨-, hn⟩
    · exact ⟨hlt, (Next.goto.inj hn).1⟩
    · exact absurd hn nofun
  constructor
  case cfg =>
    constructor
    case enters => exact fun i j h => Or.inl (hflow i j h).2
    case live =>
      intro i j h
      obtain ⟨hlt, rfl⟩ := hflow i j h
      exact ⟨Nat.succ_lt_succ hlt, (flags_loadThenJump _).1⟩
    case next => exact fun i j h _ => Or.inl (hflow i j h).2
    case gap =>
      intro i j _ _ hdead _
      exact absurd ((flags_loadThenJump (i + 1)).1.symm.trans hdead) Bool.false_ne_true
    case redirect => exact fun j h => absurd h ((flags_loadThenJump j).2.1 ▸ nofun)
  case entry => decide +kernel
  case keeps => exact fun i s g n g' _ h => (straightMachine_exec h).1
  case bound => exact fun i s g n g' hg h => (straightMachine_exec h).1 ▸ hg
  case blind =>
    intro i s g g' _
    unfold straightMachine
    dsimp only
    split_ifs <;> rfl
  case stops =>
    intro i s g revert s' g' h
    rcases (straightMachine_exec h).2 with ⟨-, hn⟩ | ⟨rfl, -⟩
    · exact absurd hn nofun
    · exact ⟨.stop, List.mem_cons_self, rfl⟩
  case fails => exact fun i s g h => absurd h ((flags_loadThenJump i).2.2.2.1 ▸ nofun)
  case hosts => exact fun i h => absurd h ((flags_loadThenJump i).2.2.1 ▸ nofun)
  case skips => exact fun i h => absurd h nofun
  case static =>
    intro i s _ _
    unfold Bytecode.staticGas
    rw [if_neg (flags_loadThenJump i).2.2.2.2.2]
    rfl
  case silent => exact fun _ _ _ => rfl
  case inline => exact fun i s h => absurd h (flags_loadThenJump i).2.2.2.2.1

theorem gas_schedules_agree_loadThenJump :
    ∃ r', Runs.Ends (straightMachine.compStep loadThenJump {}
      (loadThenJump.constructSections fun _ => 0)) ⟨0, (), 200, []⟩ r' ∧
        Agree (.stopped false () 86 []) r' := by
  have hinterp : Runs.Ends (straightMachine.interpStep loadThenJump) ⟨0, (), 200, []⟩
      (.stopped false () 86 []) :=
    .next (b := ⟨1, (), 198, []⟩) (by decide +kernel) <|
    .next (b := ⟨2, (), 98, []⟩) (by decide +kernel) <|
    .next (b := ⟨3, (), 95, []⟩) (by decide +kernel) <|
    .next (b := ⟨4, (), 87, []⟩) (by decide +kernel) <|
    .next (b := ⟨5, (), 86, []⟩) (by decide +kernel) <|
    .done (by decide +kernel)
  exact (gas_schedules_agree straightMachine loadThenJump {} (fun _ => 0) ()
    straightMachine_analysed gasCost_loadThenJump 200 (by decide)).1 _ hinterp

/-- A transient load is executed although the gas has run out: `TLOAD` calls the host, but its
builtin is not fallible, and the section has no check before the jump. -/
theorem tload_overdrawn :
    ∃ c, Runs.Reaches (straightMachine.compStep loadThenJump {}
        (loadThenJump.constructSections fun _ => 0)) ⟨0, (), 50, []⟩ c ∧
      (loadThenJump.inst c.pc).opcode = some .tload ∧ ∃ left g,
        (Machine.charge loadThenJump {} (loadThenJump.constructSections fun _ => 0) c.pc c.gas).bind
          (straightMachine.spend loadThenJump {} (loadThenJump.constructSections fun _ => 0) c.pc
            c.state) = some (left, g) ∧ left < 0 := by
  have hstep : straightMachine.compStep loadThenJump {}
      (loadThenJump.constructSections fun _ => 0) ⟨0, (), 50, []⟩ =
        .inl ⟨1, (), -63, []⟩ := by decide +kernel
  refine ⟨⟨1, (), -63, []⟩, .single hstep, rfl, -63, 0, ?_, by decide⟩
  decide +kernel

def gasThenLoad : Bytecode :=
  { insts := [⟨some .gas, {}, 2, (0, 1), false⟩, ⟨some .tload, {}, 100, (1, 1), false⟩,
      ⟨some .stop, {}, 0, (0, 0), false⟩] }

/-- Compiled code halts at a `GAS` that the interpreter executes: the load behind it, which is
charged with it, is too expensive. -/
theorem gas_seen_by_interpreter_only :
    Runs.Ends (straightMachine.interpStep gasThenLoad) ⟨0, (), 50, []⟩ (.halted [(0, 48)]) ∧
    Runs.Ends (straightMachine.compStep gasThenLoad {}
      (gasThenLoad.constructSections fun _ => 0)) ⟨0, (), 50, []⟩ (.halted []) := by
  constructor
  · exact .next (b := ⟨1, (), 48, [(0, 48)]⟩) (by decide +kernel) (.done (by decide +kernel))
  · exact .done (by decide +kernel)

end Evm2.Jit
