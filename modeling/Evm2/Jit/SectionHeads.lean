import Evm2.Jit.SectionGroups

/-!
# What stands at the heads of the sections
-/

namespace Evm2.Jit

def Bytecode.sectionAt (bc : Bytecode) (k : ℕ) : List ℕ := bc.sections.getD k []

def Bytecode.chainAt (bc : Bytecode) (k : ℕ) : Chain :=
  (bc.sections.take k).foldl (nextChain bc) {}

variable {bc : Bytecode} {expCost : Word → ℕ}

/-! ## The order of the sections -/

section Order

variable {k l : ℕ}

theorem sectionAt_eq (hk : k < bc.sections.length) : bc.sectionAt k = bc.sections[k] :=
  List.getD_eq_getElem _ _ hk

theorem sectionAt_mem (hk : k < bc.sections.length) : bc.sectionAt k ∈ bc.sections := by
  rw [sectionAt_eq hk]
  exact List.getElem_mem hk

theorem sectionAt_ne_nil (hk : k < bc.sections.length) : bc.sectionAt k ≠ [] := fun h =>
  List.nil_notMem_splitBy bc.linked bc.liveInsts (h ▸ sectionAt_mem hk)

theorem firstOf_mem {g : List ℕ} (h : g ≠ []) : firstOf g ∈ g := by
  rw [firstOf_eq_head h]
  exact List.head_mem h

theorem lastOf_mem_of_ne_nil {g : List ℕ} (h : g ≠ []) : lastOf g ∈ g := by
  rw [lastOf_eq_getLast h]
  exact List.getLast_mem h

theorem pairwise_sections (bc : Bytecode) :
    (∀ g ∈ bc.sections, g.Pairwise (· < ·)) ∧
      bc.sections.Pairwise fun a b => ∀ i ∈ a, ∀ j ∈ b, i < j := by
  have hsorted := bc.sorted_liveInsts
  rw [← List.flatten_splitBy bc.linked bc.liveInsts] at hsorted
  exact List.pairwise_flatten.mp hsorted

theorem sectionAt_lt (hkl : k < l) (hl : l < bc.sections.length) {i j : ℕ}
    (hi : i ∈ bc.sectionAt k) (hj : j ∈ bc.sectionAt l) : i < j := by
  rw [sectionAt_eq (hkl.trans hl)] at hi
  rw [sectionAt_eq hl] at hj
  exact List.pairwise_iff_getElem.mp (pairwise_sections bc).2 k l (hkl.trans hl) hl hkl i hi j hj

theorem sectionAt_unique (hk : k < bc.sections.length) (hl : l < bc.sections.length) {i : ℕ}
    (hi : i ∈ bc.sectionAt k) (hj : i ∈ bc.sectionAt l) : k = l := by
  rcases Nat.lt_trichotomy k l with h | h | h
  · exact absurd (sectionAt_lt h hl hi hj) (lt_irrefl i)
  · exact h
  · exact absurd (sectionAt_lt h hk hj hi) (lt_irrefl i)

end Order

/-! ## Stack sections -/

theorem saveAll_append (c : Chain) (gs gs' : List (List ℕ)) (out : Sections) :
    saveAll bc expCost c (gs ++ gs') out =
      saveAll bc expCost (gs.foldl (nextChain bc) c) gs' (saveAll bc expCost c gs out) := by
  induction gs generalizing c out with
  | nil => rfl
  | cons g gs ih => exact ih _ _

theorem sections_split {k : ℕ} (hk : k < bc.sections.length) :
    bc.sections = bc.sections.take k ++ bc.sectionAt k :: bc.sections.drop (k + 1) := by
  rw [sectionAt_eq hk, ← List.drop_eq_getElem_cons hk, List.take_append_drop]

theorem constructSections_split {k : ℕ} (hk : k < bc.sections.length) :
    bc.constructSections expCost =
      saveAll bc expCost (nextChain bc (bc.chainAt k) (bc.sectionAt k)) (bc.sections.drop (k + 1))
        (saveGroup bc expCost (bc.chainAt k) (bc.sectionAt k)
          (saveAll bc expCost {} (bc.sections.take k) {})) := by
  rw [constructSections_eq]
  nth_rewrite 1 [sections_split hk]
  rw [saveAll_append]
  rfl

theorem mem_take_sections {k : ℕ} {g : List ℕ} (h : g ∈ bc.sections.take k) :
    ∃ l < k, l < bc.sections.length ∧ g = bc.sectionAt l := by
  obtain ⟨l, hl, rfl⟩ := List.getElem_of_mem h
  rw [List.length_take] at hl
  have hlt : l < bc.sections.length := by omega
  refine ⟨l, by omega, hlt, ?_⟩
  rw [List.getElem_take, sectionAt_eq hlt]

theorem mem_drop_sections {k : ℕ} {g : List ℕ} (h : g ∈ bc.sections.drop (k + 1)) :
    ∃ l, k < l ∧ l < bc.sections.length ∧ g = bc.sectionAt l := by
  obtain ⟨l, hl, rfl⟩ := List.getElem_of_mem h
  rw [List.length_drop] at hl
  have hlt : k + 1 + l < bc.sections.length := by omega
  refine ⟨k + 1 + l, by omega, hlt, ?_⟩
  rw [List.getElem_drop, sectionAt_eq hlt]

theorem firstOf_ne_of_mem_take {k : ℕ} (hk : k < bc.sections.length) :
    ∀ g ∈ bc.sections.take k, firstOf g ≠ firstOf (bc.sectionAt k) := by
  intro g hg
  obtain ⟨l, hlk, hl, rfl⟩ := mem_take_sections hg
  exact (sectionAt_lt hlk hk (firstOf_mem (sectionAt_ne_nil hl))
    (firstOf_mem (sectionAt_ne_nil hk))).ne

theorem firstOf_ne_of_mem_drop {k : ℕ} (hk : k < bc.sections.length) :
    ∀ g ∈ bc.sections.drop (k + 1), firstOf g ≠ firstOf (bc.sectionAt k) := by
  intro g hg
  obtain ⟨l, hkl, hl, rfl⟩ := mem_drop_sections hg
  exact (sectionAt_lt hkl hl (firstOf_mem (sectionAt_ne_nil hk))
    (firstOf_mem (sectionAt_ne_nil hl))).ne'

theorem stackHead_saveGroup (c : Chain) (g : List ℕ) (out : Sections) :
    (saveGroup bc expCost c g out).stackHead = Function.update out.stackHead (firstOf g)
      (some (c.kept (stackOf bc g).toSection, c.continues)) := by
  unfold saveGroup
  rw [stackHead_saveOwed]

theorem stackHead_saveAll_of_ne {gs : List (List ℕ)} {i : ℕ} (h : ∀ g ∈ gs, firstOf g ≠ i)
    (c : Chain) (out : Sections) :
    (saveAll bc expCost c gs out).stackHead i = out.stackHead i := by
  induction gs generalizing c out with
  | nil => rfl
  | cons g gs ih =>
    have hne : i ≠ firstOf g := fun hi => h g List.mem_cons_self hi.symm
    unfold saveAll
    rw [ih (fun g hg => h g (List.mem_cons_of_mem _ hg)), stackHead_saveGroup,
      Function.update_of_ne hne]

theorem stackHead_sectionAt {k : ℕ} (hk : k < bc.sections.length) :
    (bc.constructSections expCost).stackHead (firstOf (bc.sectionAt k)) =
      some ((bc.chainAt k).kept (stackOf bc (bc.sectionAt k)).toSection,
        (bc.chainAt k).continues) := by
  rw [constructSections_split hk, stackHead_saveAll_of_ne (firstOf_ne_of_mem_drop hk),
    stackHead_saveGroup, Function.update_self]

theorem stackHead_of_not_first {k i j : ℕ} {rest : List ℕ} (hk : k < bc.sections.length)
    (hsec : bc.sectionAt k = i :: rest) (hj : j ∈ rest) :
    (bc.constructSections expCost).stackHead j = none := by
  have hmem : j ∈ bc.sectionAt k := hsec ▸ List.mem_cons_of_mem i hj
  have hlt : i < j := by
    have hsorted := (pairwise_sections bc).1 _ (sectionAt_mem hk)
    rw [hsec] at hsorted
    exact (List.pairwise_cons.mp hsorted).1 j hj
  rw [constructSections_eq]
  refine stackHead_saveAll_of_ne (fun g hg hfirst => ?_) {} {}
  obtain ⟨l, hl, rfl⟩ := List.getElem_of_mem hg
  rw [← sectionAt_eq hl] at hfirst
  have hjl : j ∈ bc.sectionAt l := hfirst ▸ firstOf_mem (sectionAt_ne_nil hl)
  have hkl := sectionAt_unique hk hl hmem hjl
  subst hkl
  rw [hsec] at hfirst
  exact hlt.ne hfirst

/-! ## Gas sections -/

def Bytecode.staticSum (bc : Bytecode) (expCost : Word → ℕ) (l : List ℕ) : ℕ :=
  (l.map (bc.staticGas expCost)).sum

theorem staticSum_append (l m : List ℕ) :
    bc.staticSum expCost (l ++ m) = bc.staticSum expCost l + bc.staticSum expCost m := by
  unfold Bytecode.staticSum
  rw [List.map_append, List.sum_append]

theorem gasCost_foldl (g : List ℕ) (s : GasSectionAnalysis) :
    (g.foldl (fun s i => s.process bc expCost i) s).gasCost =
      s.gasCost + bc.staticSum expCost g := by
  induction g generalizing s with
  | nil => rfl
  | cons i g ih =>
    refine (ih (s.process bc expCost i)).trans ?_
    show s.gasCost + bc.staticGas expCost i + (g.map _).sum = s.gasCost + ((i :: g).map _).sum
    rw [List.map_cons, List.sum_cons, Nat.add_assoc]

theorem gasCost_gasOf (g : List ℕ) : (gasOf bc expCost g).gasCost = bc.staticSum expCost g :=
  (gasCost_foldl g {}).trans (Nat.zero_add _)

theorem mem_gasInsts_foldl (g : List ℕ) (s : GasSectionAnalysis) (p : ℕ × ℕ) :
    p ∈ (g.foldl (fun s i => s.process bc expCost i) s).gasInsts ↔
      p ∈ s.gasInsts ∨ ∃ pre post, g = pre ++ p.1 :: post ∧ (bc.inst p.1).opcode = some .gas ∧
        p.2 = s.gasCost + bc.staticSum expCost pre + (bc.inst p.1).baseGas := by
  induction g generalizing s with
  | nil => simp
  | cons i g ih =>
    have hsum (pre : List ℕ) : (s.process bc expCost i).gasCost + bc.staticSum expCost pre =
        s.gasCost + bc.staticSum expCost (i :: pre) := Nat.add_assoc _ _ _
    have hhead : p ∈ (s.process bc expCost i).gasInsts ↔ p ∈ s.gasInsts ∨
        p.1 = i ∧ (bc.inst i).opcode = some .gas ∧ p.2 = s.gasCost + (bc.inst i).baseGas := by
      unfold GasSectionAnalysis.process
      dsimp only
      by_cases hgas : (bc.inst i).opcode = some .gas
      · rw [if_pos hgas, List.mem_append, List.mem_singleton, Prod.ext_iff]
        simp [hgas]
      · rw [if_neg hgas]
        simp [hgas]
    refine (ih (s.process bc expCost i)).trans ?_
    rw [hhead, or_assoc]
    refine or_congr_right ⟨?_, ?_⟩
    · rintro (⟨hp, hgas, hcost⟩ | ⟨pre, post, rfl, hgas, hcost⟩)
      · exact ⟨[], g, by rw [hp]; rfl, by rwa [hp], by rw [hp]; exact hcost⟩
      · exact ⟨i :: pre, post, rfl, hgas, by rw [hcost, hsum]⟩
    · rintro ⟨_ | ⟨j, pre⟩, post, hsplit, hgas, hcost⟩
      · obtain ⟨hi, -⟩ := List.cons.inj hsplit
        exact Or.inl ⟨hi.symm, by rwa [hi], by rw [hi]; exact hcost⟩
      · obtain ⟨rfl, hg⟩ := List.cons.inj hsplit
        exact Or.inr ⟨pre, post, hg, hgas, by rw [hcost, hsum]⟩

theorem gasOwed_saveOwed_of_ne (out : Sections) (total : ℕ) {gasInsts : List (ℕ × ℕ)} {i : ℕ}
    (h : ∀ p ∈ gasInsts, p.1 ≠ i) : (out.saveOwed total gasInsts).gasOwed i = out.gasOwed i := by
  unfold Sections.saveOwed
  induction gasInsts generalizing out with
  | nil => rfl
  | cons p ps ih =>
    refine (ih _ fun q hq => h q (List.mem_cons_of_mem p hq)).trans ?_
    exact Function.update_of_ne (h p List.mem_cons_self).symm _ _

theorem gasOwed_saveOwed (out : Sections) (total v : ℕ) {gasInsts : List (ℕ × ℕ)} {i : ℕ}
    (hmem : (i, v) ∈ gasInsts) (huniq : ∀ p ∈ gasInsts, p.1 = i → p.2 = v) :
    (out.saveOwed total gasInsts).gasOwed i = saturate32 (total - v) := by
  induction gasInsts generalizing out with
  | nil => exact absurd hmem List.not_mem_nil
  | cons p ps ih =>
    have hps : ∀ q ∈ ps, q.1 = i → q.2 = v := fun q hq => huniq q (List.mem_cons_of_mem p hq)
    by_cases hlater : (i, v) ∈ ps
    · exact ih _ hlater hps
    · have hp : p = (i, v) := (List.mem_cons.mp hmem).resolve_right hlater |>.symm
      have hne : ∀ q ∈ ps, q.1 ≠ i := by
        rintro ⟨a, b⟩ hq rfl
        obtain rfl := hps (a, b) hq rfl
        exact hlater hq
      refine (gasOwed_saveOwed_of_ne _ total hne).trans ?_
      rw [hp]
      exact Function.update_self _ _ _

theorem gasCost_saveOwed (out : Sections) (total : ℕ) (gasInsts : List (ℕ × ℕ)) :
    (out.saveOwed total gasInsts).gasCost = out.gasCost := by
  unfold Sections.saveOwed
  induction gasInsts generalizing out with
  | nil => rfl
  | cons p ps ih => exact ih _

theorem gasCost_saveGroup (c : Chain) (g : List ℕ) (out : Sections) :
    (saveGroup bc expCost c g out).gasCost =
      if saturate32 (bc.staticSum expCost g) = 0 then out.gasCost
      else Function.update out.gasCost (firstOf g) (saturate32 (bc.staticSum expCost g)) := by
  unfold saveGroup
  rw [gasCost_saveOwed, gasCost_gasOf]

theorem gasCost_saveAll_of_ne {gs : List (List ℕ)} {i : ℕ} (h : ∀ g ∈ gs, firstOf g ≠ i)
    (c : Chain) (out : Sections) :
    (saveAll bc expCost c gs out).gasCost i = out.gasCost i := by
  induction gs generalizing c out with
  | nil => rfl
  | cons g gs ih =>
    have hne : i ≠ firstOf g := fun hi => h g List.mem_cons_self hi.symm
    unfold saveAll
    rw [ih (fun g hg => h g (List.mem_cons_of_mem _ hg)), gasCost_saveGroup]
    split_ifs
    · rfl
    · exact Function.update_of_ne hne _ _

theorem gasCost_sectionAt {k : ℕ} (hk : k < bc.sections.length) :
    (bc.constructSections expCost).gasCost (firstOf (bc.sectionAt k)) =
      saturate32 (bc.staticSum expCost (bc.sectionAt k)) := by
  have hbefore := @gasCost_saveAll_of_ne bc expCost _ _ (firstOf_ne_of_mem_take hk) {} {}
  rw [constructSections_split hk, gasCost_saveAll_of_ne (firstOf_ne_of_mem_drop hk),
    gasCost_saveGroup]
  split_ifs with hzero
  · exact hbefore.trans hzero.symm
  · exact Function.update_self _ _ _

theorem gasOwed_saveGroup_of_notMem (c : Chain) {g : List ℕ} {i : ℕ} (hi : i ∉ g)
    (out : Sections) : (saveGroup bc expCost c g out).gasOwed i = out.gasOwed i := by
  unfold saveGroup
  refine gasOwed_saveOwed_of_ne _ _ fun p hp hpi => hi ?_
  rcases (mem_gasInsts_foldl g {} p).mp hp with hnil | ⟨pre, post, hg, -⟩
  · exact absurd hnil List.not_mem_nil
  · rw [hg, ← hpi]
    exact List.mem_append_right pre List.mem_cons_self

theorem gasOwed_saveGroup (c : Chain) {g pre post : List ℕ} {i : ℕ} (hg : g = pre ++ i :: post)
    (hnodup : g.Nodup) (hgas : (bc.inst i).opcode = some .gas) (out : Sections) :
    (saveGroup bc expCost c g out).gasOwed i = saturate32 (bc.staticSum expCost post) := by
  have hstatic : bc.staticGas expCost i = (bc.inst i).baseGas := by
    unfold Bytecode.staticGas
    rw [hgas]
    rfl
  have htotal : (gasOf bc expCost g).gasCost -
      (0 + bc.staticSum expCost pre + (bc.inst i).baseGas) = bc.staticSum expCost post := by
    rw [gasCost_gasOf, hg, staticSum_append]
    show _ + (bc.staticGas expCost i + bc.staticSum expCost post) - _ = _
    omega
  unfold saveGroup
  refine (gasOwed_saveOwed _ _ (0 + bc.staticSum expCost pre + (bc.inst i).baseGas) ?_ ?_).trans
    (congrArg saturate32 htotal)
  · exact (mem_gasInsts_foldl g {} _).mpr (Or.inr ⟨pre, post, hg, hgas, rfl⟩)
  · rintro ⟨a, v⟩ hp rfl
    rcases (mem_gasInsts_foldl g {} _).mp hp with hnil | ⟨pre', post', hg', -, hv⟩
    · exact absurd hnil List.not_mem_nil
    · rw [hg] at hnodup hg'
      have hnot := (List.nodup_cons.mp (List.nodup_middle.mp hnodup)).1
      have hsame := ((List.append_cons_inj_of_notMem (fun h => hnot (List.mem_append_left _ h))
        fun h => hnot (List.mem_append_right _ h)).mp hg').1
      rw [hv, hsame]

theorem gasOwed_saveAll_of_notMem {gs : List (List ℕ)} {i : ℕ} (h : ∀ g ∈ gs, i ∉ g) (c : Chain)
    (out : Sections) : (saveAll bc expCost c gs out).gasOwed i = out.gasOwed i := by
  induction gs generalizing c out with
  | nil => rfl
  | cons g gs ih =>
    unfold saveAll
    rw [ih (fun g hg => h g (List.mem_cons_of_mem _ hg)),
      gasOwed_saveGroup_of_notMem c (h g List.mem_cons_self)]

theorem gasOwed_sectionAt {k i : ℕ} {pre post : List ℕ} (hk : k < bc.sections.length)
    (hsec : bc.sectionAt k = pre ++ i :: post) (hgas : (bc.inst i).opcode = some .gas) :
    (bc.constructSections expCost).gasOwed i = saturate32 (bc.staticSum expCost post) := by
  have hi : i ∈ bc.sectionAt k := by
    rw [hsec]
    exact List.mem_append_right pre List.mem_cons_self
  have hnodup : (bc.sectionAt k).Nodup :=
    ((pairwise_sections bc).1 _ (sectionAt_mem hk)).imp fun h => Nat.ne_of_lt h
  have hlater : ∀ g ∈ bc.sections.drop (k + 1), i ∉ g := by
    intro g hg hig
    obtain ⟨l, hkl, hl, rfl⟩ := mem_drop_sections hg
    exact absurd (sectionAt_lt hkl hl hi hig) (lt_irrefl i)
  rw [constructSections_split hk, gasOwed_saveAll_of_notMem hlater,
    gasOwed_saveGroup _ hsec hnodup hgas]

/-! ## The control flow -/

/-- The edges of the control flow that the compiler knows: to the next instruction, to a `JUMPDEST`
that is reachable, and to a block that stands for its copies. -/
def SoundFlow (bc : Bytecode) (flow : ℕ → ℕ → Prop) : Prop :=
  ∀ i j, flow i j → j = i + 1 ∨ bc.startsAt j = true ∨ (bc.inst j).flags.redirectTarget = true

theorem chainAt_succ {k : ℕ} (hk : k < bc.sections.length) :
    bc.chainAt (k + 1) = nextChain bc (bc.chainAt k) (bc.sectionAt k) := by
  unfold Bytecode.chainAt
  rw [List.take_succ_eq_append_getElem hk, List.foldl_append, sectionAt_eq hk]
  rfl

theorem continues_nextChain (c : Chain) (g : List ℕ) :
    (nextChain bc c g).continues = continuesInto bc (lastOf g) := by
  unfold nextChain Chain.extend
  split_ifs <;> rfl

theorem not_redirectTarget_of_continuesInto {i : ℕ} (h : continuesInto bc i = true) :
    (bc.inst (i + 1)).flags.redirectTarget = false := by
  unfold continuesInto Bytecode.isFallThroughOnly at h
  by_contra hs
  rw [Bool.not_eq_false] at hs
  rw [hs] at h
  simp at h

theorem firstOf_of_continues {k : ℕ} (hk : k + 1 < bc.sections.length)
    (hc : continuesInto bc (lastOf (bc.sectionAt k)) = true) :
    firstOf (bc.sectionAt (k + 1)) = lastOf (bc.sectionAt k) + 1 := by
  have hk' : k < bc.sections.length := Nat.lt_of_succ_lt hk
  obtain ⟨i, rest, hsec⟩ := List.exists_cons_of_ne_nil (sectionAt_ne_nil hk')
  obtain ⟨j, post, hnext⟩ := List.exists_cons_of_ne_nil (sectionAt_ne_nil hk)
  have hlive : bc.liveInsts = (bc.sections.take k).flatten ++ (i :: rest) ++
      j :: (post ++ (bc.sections.drop (k + 1 + 1)).flatten) := by
    rw [← hsec, ← List.cons_append, ← hnext, sectionAt_eq hk', sectionAt_eq hk,
      List.append_assoc, ← List.flatten_cons, ← List.drop_eq_getElem_cons hk, ← List.flatten_cons,
      ← List.drop_eq_getElem_cons hk', ← List.flatten_append, List.take_append_drop]
    exact (List.flatten_splitBy _ _).symm
  rw [hsec] at hc
  rw [hsec, hnext, succ_lastOf_eq hlive (live_of_continuesInto hc)]
  rfl

theorem flow_continues {flow : ℕ → ℕ → Prop} (hflow : SoundFlow bc flow) {k l : ℕ}
    (hk : k < bc.sections.length) (hl : l < bc.sections.length)
    (hedge : flow (lastOf (bc.sectionAt k)) (firstOf (bc.sectionAt l)))
    (hc : (bc.chainAt l).continues = true) : l = k + 1 := by
  rcases l with _ | m
  · exact absurd hc Bool.false_ne_true
  have hm : m < bc.sections.length := Nat.lt_of_succ_lt hl
  rw [chainAt_succ hm, continues_nextChain] at hc
  have hfirst := firstOf_of_continues hl hc
  have hnext : lastOf (bc.sectionAt m) = lastOf (bc.sectionAt k) := by
    rw [hfirst] at hedge
    rcases hflow _ _ hedge with h | h | h
    · exact Nat.succ.inj h
    · exact absurd (not_startsAt_of_continuesInto hc ▸ h) Bool.false_ne_true
    · exact absurd (not_redirectTarget_of_continuesInto hc ▸ h) Bool.false_ne_true
  have hmem := lastOf_mem_of_ne_nil (sectionAt_ne_nil hm)
  rw [hnext] at hmem
  rw [sectionAt_unique hk hm (lastOf_mem_of_ne_nil (sectionAt_ne_nil hk)) hmem]

/-- What the compiler knows of the control flow. An instruction that does not branch is followed by
the next one, or by the block that stands for a dead copy that starts there. -/
structure SoundCfg (bc : Bytecode) (flow : ℕ → ℕ → Prop) : Prop where
  enters : SoundFlow bc flow
  live : ∀ i j, flow i j → bc.Live j
  next : ∀ i j, flow i j → (bc.inst i).isBranching = false →
    j = i + 1 ∨ (bc.inst (i + 1)).isDeadCode = true
  gap : ∀ i j, bc.Live i → (bc.inst i).isBranching = false →
    (bc.inst (i + 1)).isDeadCode = true → bc.firstLive (i + 1) = some j → bc.startsAt j = true
  redirect : ∀ j, (bc.inst j).flags.redirectTarget = true →
    bc.startsAt j = true ∨ j = 0 ∨ (bc.inst (j - 1)).isBranching = true

section Flow

variable {flow : ℕ → ℕ → Prop} {k i j : ℕ} {pre post : List ℕ}

theorem mem_liveInsts_iff : i ∈ bc.liveInsts ↔ ∃ k < bc.sections.length, i ∈ bc.sectionAt k := by
  rw [← List.flatten_splitBy bc.linked bc.liveInsts, List.mem_flatten]
  constructor
  · rintro ⟨g, hg, hi⟩
    obtain ⟨k, hk, rfl⟩ := List.getElem_of_mem hg
    exact ⟨k, hk, by rwa [sectionAt_eq hk]⟩
  · rintro ⟨k, hk, hi⟩
    exact ⟨_, sectionAt_mem hk, hi⟩

theorem live_of_mem_sectionAt (hk : k < bc.sections.length) (hi : i ∈ bc.sectionAt k) :
    bc.Live i :=
  bc.mem_liveInsts.mp (mem_liveInsts_iff.mpr ⟨k, hk, hi⟩)

theorem firstLive_inside (hk : k < bc.sections.length)
    (hsec : bc.sectionAt k = pre ++ i :: j :: post) : bc.firstLive (i + 1) = some j := by
  have hlive : bc.liveInsts = ((bc.sections.take k).flatten ++ pre ++ [i]) ++
      j :: (post ++ (bc.sections.drop (k + 1)).flatten) := by
    have hflat : bc.liveInsts = bc.sections.flatten := (List.flatten_splitBy _ _).symm
    rw [sections_split hk, List.flatten_append, List.flatten_cons, hsec] at hflat
    rw [hflat]
    simp
  have hsorted := bc.sorted_liveInsts
  rw [hlive] at hsorted
  obtain ⟨hbefore, -, hcross⟩ := List.pairwise_append.mp hsorted
  refine firstLive_eq hlive (fun x hx => ?_)
    (hcross i (List.mem_append_right _ List.mem_cons_self) j List.mem_cons_self)
  rcases List.mem_append.mp hx with hx | hx
  · exact Nat.lt_succ_of_lt ((List.pairwise_append.mp hbefore).2.2 x hx i List.mem_cons_self)
  · exact List.mem_singleton.mp hx ▸ Nat.lt_succ_self i

theorem linked_inside (hk : k < bc.sections.length)
    (hsec : bc.sectionAt k = pre ++ i :: j :: post) :
    bc.endsAfter i = false ∧ bc.startsAt j = false := by
  have hchain : (bc.sectionAt k).IsChain fun a b => bc.linked a b = true :=
    List.isChain_of_mem_splitBy (sectionAt_mem hk)
  rw [hsec] at hchain
  have hlink := (List.isChain_cons_cons.mp hchain.right_of_append).1
  rw [Bytecode.linked, Bool.and_eq_true, Bool.not_eq_true', Bool.not_eq_true'] at hlink
  exact hlink

theorem SoundCfg.succ_inside (hcfg : SoundCfg bc flow) (hk : k < bc.sections.length)
    (hsec : bc.sectionAt k = pre ++ i :: j :: post) : j = i + 1 := by
  have hmem : i ∈ bc.sectionAt k ∧ j ∈ bc.sectionAt k := by rw [hsec]; simp
  have hfirst := firstLive_inside hk hsec
  obtain ⟨hends, hstarts⟩ := linked_inside hk hsec
  have hbranch : (bc.inst i).isBranching = false := ((Bool.or_eq_false_iff).mp hends).1
  by_cases hdead : (bc.inst (i + 1)).isDeadCode = true
  · have hj := hcfg.gap i j (live_of_mem_sectionAt hk hmem.1) hbranch hdead hfirst
    exact absurd hj (hstarts ▸ Bool.false_ne_true)
  · have hlt := lt_length_of_firstLive hfirst
    have hle : i + 1 ≤ j := of_decide_eq_true (@List.find?_some _ (i + 1 ≤ ·) j _ hfirst)
    have hlive : bc.Live (i + 1) := ⟨hlt, Bool.eq_false_iff.mpr hdead⟩
    have hsome : bc.firstLive (i + 1) = some (i + 1) := by
      obtain ⟨a, b, hab⟩ := List.append_of_mem (bc.mem_liveInsts.mpr hlive)
      have hsorted := bc.sorted_liveInsts
      rw [hab] at hsorted
      exact firstLive_eq hab (fun x hx => (List.pairwise_append.mp hsorted).2.2 x hx _
        List.mem_cons_self) le_rfl
    exact Option.some.inj (hfirst.symm.trans hsome)

theorem SoundCfg.flow_inside (hcfg : SoundCfg bc flow) (hk : k < bc.sections.length)
    (hsec : bc.sectionAt k = pre ++ i :: j :: post) {l : ℕ} (hflow : flow i l) : l = j := by
  have hj := hcfg.succ_inside hk hsec
  have hmem : j ∈ bc.sectionAt k := by rw [hsec]; simp
  have hbranch : (bc.inst i).isBranching = false :=
    ((Bool.or_eq_false_iff).mp (linked_inside hk hsec).1).1
  rcases hcfg.next i l hflow hbranch with h | h
  · rw [h, hj]
  · rw [← hj] at h
    exact absurd h ((live_of_mem_sectionAt hk hmem).2 ▸ Bool.false_ne_true)

theorem SoundCfg.flow_last (hcfg : SoundCfg bc flow) (hk : k < bc.sections.length)
    (hsec : bc.sectionAt k = pre ++ [i]) (hflow : flow i j) :
    ∃ l < bc.sections.length, ∃ rest, bc.sectionAt l = j :: rest := by
  obtain ⟨l, hl, hj⟩ := mem_liveInsts_iff.mp (bc.mem_liveInsts.mpr (hcfg.live i j hflow))
  obtain ⟨pre', post', hsplit⟩ := List.append_of_mem hj
  rcases List.eq_nil_or_concat pre' with rfl | ⟨init, a, rfl⟩
  · exact ⟨l, hl, post', hsplit⟩
  -- otherwise the instruction before it in its section is the one that control comes from
  rw [List.concat_eq_append, List.append_assoc] at hsplit
  have hsucc := hcfg.succ_inside hl hsplit
  obtain ⟨hends, hstarts⟩ := linked_inside hl hsplit
  have ha : a ∈ bc.sectionAt l := by rw [hsplit]; simp
  have hbranch : (bc.inst (j - 1)).isBranching = false := by
    rw [hsucc]
    exact ((Bool.or_eq_false_iff).mp hends).1
  rcases hcfg.enters i j hflow with h | h | h
  · -- then the two are the same, and it does not end its section
    have hai : a = i := by omega
    subst hai
    have hi : a ∈ bc.sectionAt k := by rw [hsec]; simp
    have hkl := sectionAt_unique hk hl hi ha
    subst hkl
    have hsorted := (pairwise_sections bc).1 _ (sectionAt_mem hk)
    rw [hsec] at hj hsorted
    rcases List.mem_append.mp hj with hj | hj
    · have hlt := (List.pairwise_append.mp hsorted).2.2 j hj a List.mem_cons_self
      omega
    · have hja := List.mem_singleton.mp hj
      omega
  · exact absurd h (hstarts ▸ Bool.false_ne_true)
  · rcases hcfg.redirect j h with h | h | h
    · exact absurd h (hstarts ▸ Bool.false_ne_true)
    · omega
    · exact absurd h (hbranch ▸ Bool.false_ne_true)

end Flow

end Evm2.Jit
