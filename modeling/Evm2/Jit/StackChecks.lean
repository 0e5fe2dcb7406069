import Evm2.Interpreter.Gas
import Evm2.Jit.SectionHeads

/-!
# Stack checks of sections

The compiler checks the height of the stack at the heads of the sections. A path through sections
passes these checks if and only if none of its instructions underflows or overflows the stack.
-/

namespace Evm2.Jit

def STACK_CAP : ℤ := 1024

/-- `check_stack_bounds`: what the check of a section fails with. -/
def checkStackBounds (sec : StackSection) (height : ℤ) : Option InstrStop :=
  if 0 < sec.inputs ∧ height < sec.inputs then some .stackUnderflow
  else if 0 < sec.maxGrowth ∧
      (STACK_CAP < sec.maxGrowth ∨ STACK_CAP - sec.maxGrowth < height) then some .stackOverflow
  else none

/-- The check that `translate_inst` emits: disabled and unknown instructions fail before it. -/
def headCheck (secs : Sections) (bc : Bytecode) (i : ℕ) (height : ℤ) : Option InstrStop :=
  match secs.stackHead i with
  | none => none
  | some (sec, _) =>
    if (bc.inst i).flags.disabled || (bc.inst i).flags.unknown then none
    else checkStackBounds sec height

section Path

variable (bc : Bytecode)

/-- The height after an instruction. -/
def Bytecode.heightAfter (h : ℤ) (i : ℕ) : ℤ := h - (bc.inst i).stackIo.1 + (bc.inst i).stackIo.2

/-- The instruction underflows the stack, or pushes it above its limit. -/
def Bytecode.Offends (i : ℕ) (h : ℤ) : Prop :=
  h < (bc.inst i).stackIo.1 ∨ STACK_CAP < bc.heightAfter h i

instance (i : ℕ) (h : ℤ) : Decidable (bc.Offends i h) := inferInstanceAs (Decidable (_ ∨ _))

/-- The checks along a list of instructions pass. -/
def Passes (secs : Sections) : List ℕ → ℤ → Prop
  | [], _ => True
  | i :: l, h => headCheck secs bc i h = none ∧ Passes secs l (bc.heightAfter h i)

/-- No instruction of a list offends. -/
def InBounds : List ℕ → ℤ → Prop
  | [], _ => True
  | i :: l, h => ¬ bc.Offends i h ∧ InBounds l (bc.heightAfter h i)

instance decidablePasses (secs : Sections) : ∀ l h, Decidable (Passes bc secs l h)
  | [], _ => isTrue trivial
  | _ :: l, _ => @instDecidableAnd _ _ _ (decidablePasses secs l _)

instance decidableInBounds : ∀ l h, Decidable (InBounds bc l h)
  | [], _ => isTrue trivial
  | _ :: l, _ => @instDecidableAnd _ _ _ (decidableInBounds l _)

/-- Disabled and unknown instructions are decoded without a stack effect. -/
def Bytecode.WellDecoded : Prop :=
  ∀ i, ((bc.inst i).flags.disabled || (bc.inst i).flags.unknown) = true →
    (bc.inst i).stackIo = (0, 0)

/-- The instructions of a list of sections. -/
def Bytecode.pathInsts (ks : List ℕ) : List ℕ := (ks.map bc.sectionAt).flatten

/-- A path through sections. It does not start at a continuation. -/
structure IsPath (secs : Sections) (flow : ℕ → ℕ → Prop) (ks : List ℕ) : Prop where
  inside : ∀ k ∈ ks, k < bc.sections.length
  start : ∀ k ∈ ks.head?, ∀ sec, secs.stackHead (firstOf (bc.sectionAt k)) ≠ some (sec, true)
  edges : ks.IsChain fun k l => flow (lastOf (bc.sectionAt k)) (firstOf (bc.sectionAt l))

end Path

variable {bc : Bytecode} {expCost : Word → ℕ}

/-! ## Inside of a section -/

theorem passes_append (secs : Sections) (l m : List ℕ) (h : ℤ) :
    Passes bc secs (l ++ m) h ↔
      Passes bc secs l h ∧ Passes bc secs m (l.foldl bc.heightAfter h) := by
  induction l generalizing h with
  | nil => exact (true_and _).symm ▸ Iff.rfl
  | cons i l ih =>
    show _ ∧ Passes bc secs (l ++ m) _ ↔ (_ ∧ _) ∧ _
    rw [ih, and_assoc]
    rfl

theorem fits_append (l m : List ℕ) (h : ℤ) :
    InBounds bc (l ++ m) h ↔ InBounds bc l h ∧ InBounds bc m (l.foldl bc.heightAfter h) := by
  induction l generalizing h with
  | nil => exact (true_and _).symm ▸ Iff.rfl
  | cons i l ih =>
    show _ ∧ InBounds bc (l ++ m) _ ↔ (_ ∧ _) ∧ _
    rw [ih, and_assoc]
    rfl

/-- The heights from which the instructions of a section fit. -/
def StackSectionAnalysis.Allows (s : StackSectionAnalysis) (h : ℤ) : Prop :=
  s.inputs ≤ h ∧ h + s.maxGrowth ≤ STACK_CAP

theorem allows_process (s : StackSectionAnalysis) (i : ℕ) (h : ℤ) :
    (s.process (bc.inst i).stackIo).Allows h ↔ s.Allows h ∧ ¬ bc.Offends i (h + s.diff) := by
  unfold StackSectionAnalysis.process StackSectionAnalysis.Allows Bytecode.Offends
    Bytecode.heightAfter
  dsimp only
  omega

theorem diff_process (s : StackSectionAnalysis) (i : ℕ) (h : ℤ) :
    h + (s.process (bc.inst i).stackIo).diff = bc.heightAfter (h + s.diff) i := by
  unfold StackSectionAnalysis.process Bytecode.heightAfter
  dsimp only
  omega

theorem allows_foldl (g : List ℕ) (s : StackSectionAnalysis) (h : ℤ) :
    (g.foldl (fun s i => s.process (bc.inst i).stackIo) s).Allows h ↔
      s.Allows h ∧ InBounds bc g (h + s.diff) := by
  induction g generalizing s with
  | nil => exact (and_true _).symm ▸ Iff.rfl
  | cons i g ih =>
    refine (ih (s.process (bc.inst i).stackIo)).trans ?_
    rw [allows_process, diff_process, and_assoc]
    rfl

theorem diff_foldl (g : List ℕ) (s : StackSectionAnalysis) (h : ℤ) :
    h + (g.foldl (fun s i => s.process (bc.inst i).stackIo) s).diff =
      g.foldl bc.heightAfter (h + s.diff) := by
  induction g generalizing s with
  | nil => rfl
  | cons i g ih =>
    refine (ih (s.process (bc.inst i).stackIo)).trans ?_
    rw [diff_process]
    rfl

theorem nonneg_foldl (g : List ℕ) (s : StackSectionAnalysis) (h : 0 ≤ s.inputs ∧ 0 ≤ s.maxGrowth) :
    0 ≤ (g.foldl (fun s i => s.process (bc.inst i).stackIo) s).inputs ∧
      0 ≤ (g.foldl (fun s i => s.process (bc.inst i).stackIo) s).maxGrowth := by
  induction g generalizing s with
  | nil => exact h
  | cons i g ih =>
    refine ih (s.process (bc.inst i).stackIo) ⟨?_, ?_⟩
    · exact h.1.trans (le_max_left _ _)
    · exact h.2.trans (le_max_left _ _)

theorem toSection_allows (s : StackSectionAnalysis) (hs : 0 ≤ s.inputs ∧ 0 ≤ s.maxGrowth) {h : ℤ}
    (h0 : 0 ≤ h) (hcap : h ≤ STACK_CAP) :
    (s.toSection.inputs ≤ h ∧ h + s.toSection.maxGrowth ≤ STACK_CAP) ↔ s.Allows h := by
  unfold StackSectionAnalysis.toSection StackSectionAnalysis.Allows
  unfold STACK_CAP at *
  dsimp only
  split_ifs <;> omega

theorem toSection_nonneg (s : StackSectionAnalysis) (hs : 0 ≤ s.inputs ∧ 0 ≤ s.maxGrowth) :
    0 ≤ s.toSection.inputs ∧ 0 ≤ s.toSection.maxGrowth := by
  unfold StackSectionAnalysis.toSection
  dsimp only
  split_ifs <;> omega

theorem fits_iff_allows (g : List ℕ) {h : ℤ} (h0 : 0 ≤ h) (hcap : h ≤ STACK_CAP) :
    InBounds bc g h ↔ (stackOf bc g).toSection.inputs ≤ h ∧
      h + (stackOf bc g).toSection.maxGrowth ≤ STACK_CAP := by
  have hallows := @allows_foldl bc g {} h
  have hstart : ({} : StackSectionAnalysis).Allows h := ⟨h0, by simpa using hcap⟩
  rw [iff_true_intro hstart, true_and, show h + ({} : StackSectionAnalysis).diff = h from
    Int.add_zero h] at hallows
  exact hallows.symm.trans
    (toSection_allows (stackOf bc g) (nonneg_foldl g {} ⟨le_rfl, le_rfl⟩) h0 hcap).symm

theorem height_of_fits {g : List ℕ} {h : ℤ} (hfits : InBounds bc g h) (h0 : 0 ≤ h)
    (hcap : h ≤ STACK_CAP) :
    0 ≤ g.foldl bc.heightAfter h ∧ g.foldl bc.heightAfter h ≤ STACK_CAP := by
  induction g generalizing h with
  | nil => exact ⟨h0, hcap⟩
  | cons i g ih =>
    obtain ⟨hi, hfits⟩ := hfits
    unfold Bytecode.Offends at hi
    rw [not_or, not_lt, not_lt] at hi
    refine ih hfits ?_ hi.2
    unfold Bytecode.heightAfter
    omega

theorem exists_offends {g : List ℕ} {h : ℤ} (hnot : ¬ InBounds bc g h) :
    ∃ pre i post, g = pre ++ i :: post ∧ InBounds bc pre h ∧
      bc.Offends i (pre.foldl bc.heightAfter h) := by
  induction g generalizing h with
  | nil => exact absurd trivial hnot
  | cons i g ih =>
    by_cases hi : bc.Offends i h
    · exact ⟨[], i, g, rfl, trivial, hi⟩
    · have hrest : ¬ InBounds bc g (bc.heightAfter h i) := fun hfits => hnot ⟨hi, hfits⟩
      obtain ⟨pre, j, post, rfl, hpre, hj⟩ := ih hrest
      exact ⟨i :: pre, j, post, rfl, ⟨hi, hpre⟩, hj⟩

/-! ## Chains of continuations -/

/-- What a chain of continuations has established when a section is entered. -/
structure HeightInv (c : Chain) (h : ℤ) : Prop where
  nonneg : 0 ≤ h
  cap : h ≤ STACK_CAP
  checked : c.continues = true →
    0 ≤ h - c.offset + c.checked.1 ∧ h - c.offset + c.checked.2 ≤ STACK_CAP

theorem checkStackBounds_eq_none (sec : StackSection) (h : ℤ) :
    checkStackBounds sec h = none ↔
      ¬ (0 < sec.inputs ∧ h < sec.inputs) ∧
        ¬ (0 < sec.maxGrowth ∧ (STACK_CAP < sec.maxGrowth ∨ STACK_CAP - sec.maxGrowth < h)) := by
  unfold checkStackBounds
  split_ifs with hunder hover
  · exact ⟨nofun, fun hnot => absurd hunder hnot.1⟩
  · exact ⟨nofun, fun hnot => absurd hover hnot.2⟩
  · exact ⟨fun _ => ⟨hunder, hover⟩, fun _ => rfl⟩

theorem checkStackBounds_kept {c : Chain} {h : ℤ} (hinv : HeightInv c h) (sec : StackSection)
    (hsec : 0 ≤ sec.inputs ∧ 0 ≤ sec.maxGrowth) :
    checkStackBounds (c.kept sec) h = none ↔
      sec.inputs ≤ h ∧ h + sec.maxGrowth ≤ STACK_CAP := by
  obtain ⟨h0, hcap, hchecked⟩ := hinv
  rw [checkStackBounds_eq_none]
  unfold Chain.kept
  unfold STACK_CAP at *
  by_cases hc : c.continues = true
  · obtain ⟨hlow, hhigh⟩ := hchecked hc
    rw [if_pos hc]
    dsimp only
    split_ifs <;> omega
  · rw [if_neg hc]
    omega

theorem HeightInv.next {c : Chain} {h : ℤ} (hinv : HeightInv c h) {g : List ℕ}
    (hfits : InBounds bc g h) : HeightInv (nextChain bc c g) (g.foldl bc.heightAfter h) := by
  obtain ⟨h0, hcap, hchecked⟩ := hinv
  obtain ⟨hlow, hhigh⟩ := height_of_fits hfits h0 hcap
  have hdiff : h + (stackOf bc g).diff = g.foldl bc.heightAfter h := by
    refine (diff_foldl g {} h).trans ?_
    rw [show h + ({} : StackSectionAnalysis).diff = h from Int.add_zero h]
  have hallows := (fits_iff_allows g h0 hcap).mp hfits
  refine ⟨hlow, hhigh, fun _ => ?_⟩
  rw [← hdiff]
  unfold nextChain Chain.extend
  by_cases hc : c.continues = true
  · have hprev := hchecked hc
    rw [if_pos hc]
    dsimp only
    omega
  · rw [if_neg hc]
    dsimp only
    omega

/-! ## Paths -/

section Exact

variable {flow : ℕ → ℕ → Prop} {k : ℕ} {h : ℤ}

theorem passes_of_no_heads (secs : Sections) {l : List ℕ} (hl : ∀ j ∈ l, secs.stackHead j = none)
    (h : ℤ) : Passes bc secs l h := by
  induction l generalizing h with
  | nil => trivial
  | cons i l ih =>
    refine ⟨?_, ih (fun j hj => hl j (List.mem_cons_of_mem i hj)) _⟩
    unfold headCheck
    rw [hl i List.mem_cons_self]

theorem passes_section (hk : k < bc.sections.length) :
    Passes bc (bc.constructSections expCost) (bc.sectionAt k) h ↔
      headCheck (bc.constructSections expCost) bc (firstOf (bc.sectionAt k)) h = none := by
  obtain ⟨i, rest, hsec⟩ := List.exists_cons_of_ne_nil (sectionAt_ne_nil hk)
  have hrest := @passes_of_no_heads bc (bc.constructSections expCost) rest
    (fun j hj => stackHead_of_not_first hk hsec hj) (bc.heightAfter h i)
  rw [hsec]
  exact ⟨fun hpass => hpass.1, fun hhead => ⟨hhead, hrest⟩⟩

theorem not_endsAfter_of_append {i : ℕ} {pre post : List ℕ} (hk : k < bc.sections.length)
    (hsec : bc.sectionAt k = pre ++ i :: post) : ∀ j ∈ pre, bc.endsAfter j = false := by
  have hchain : (bc.sectionAt k).IsChain fun a b => bc.linked a b = true :=
    List.isChain_of_mem_splitBy (sectionAt_mem hk)
  rw [hsec] at hchain
  clear hsec
  induction pre with
  | nil => exact fun j hj => absurd hj List.not_mem_nil
  | cons a pre ih =>
    have hlinked : ∃ b, bc.linked a b = true := by
      cases pre with
      | nil => exact ⟨i, (List.isChain_cons_cons.mp hchain).1⟩
      | cons b pre => exact ⟨b, (List.isChain_cons_cons.mp hchain).1⟩
    obtain ⟨b, hb⟩ := hlinked
    intro j hj
    rcases List.mem_cons.mp hj with rfl | hj
    · rw [Bytecode.linked, Bool.and_eq_true, Bool.not_eq_true'] at hb
      exact hb.1
    · exact ih hchain.tail j hj

theorem endsAfter_of_disabled {i : ℕ}
    (h : ((bc.inst i).flags.disabled || (bc.inst i).flags.unknown) = true) :
    bc.endsAfter i = true := by
  unfold Bytecode.endsAfter InstData.isBranching InstData.isDiverging
  rcases (Bool.or_eq_true _ _).mp h with h | h <;> simp [h]

/-- **The check of a section** passes if and only if its instructions fit. -/
theorem headCheck_sectionAt (hio : bc.WellDecoded) (hk : k < bc.sections.length)
    (hinv : HeightInv (bc.chainAt k) h) :
    headCheck (bc.constructSections expCost) bc (firstOf (bc.sectionAt k)) h = none ↔
      InBounds bc (bc.sectionAt k) h := by
  unfold headCheck
  rw [stackHead_sectionAt hk]
  dsimp only
  by_cases hdis : ((bc.inst (firstOf (bc.sectionAt k))).flags.disabled ||
      (bc.inst (firstOf (bc.sectionAt k))).flags.unknown) = true
  · -- such an instruction is a section of its own, and does nothing to the stack
    rw [if_pos hdis]
    obtain ⟨i, rest, hsec⟩ := List.exists_cons_of_ne_nil (sectionAt_ne_nil hk)
    have hzero : (bc.inst i).stackIo = (0, 0) := hio i (by rw [hsec] at hdis; exact hdis)
    have hrest : rest = [] := by
      rcases rest with _ | ⟨j, rest⟩
      · rfl
      · have hnot := @not_endsAfter_of_append bc k j [i] rest hk hsec i List.mem_cons_self
        rw [hsec] at hdis
        exact absurd (endsAfter_of_disabled hdis) (hnot ▸ Bool.false_ne_true)
    have hi : ¬ bc.Offends i h := by
      unfold Bytecode.Offends Bytecode.heightAfter
      rw [hzero]
      have h0 := hinv.nonneg
      have hcap := hinv.cap
      push_cast
      omega
    rw [hsec, hrest]
    exact ⟨fun _ => ⟨hi, trivial⟩, fun _ => rfl⟩
  · have hneeds : 0 ≤ (stackOf bc (bc.sectionAt k)).inputs ∧
        0 ≤ (stackOf bc (bc.sectionAt k)).maxGrowth := nonneg_foldl _ {} ⟨le_rfl, le_rfl⟩
    rw [if_neg hdis, checkStackBounds_kept hinv _ (toSection_nonneg _ hneeds),
      fits_iff_allows _ hinv.nonneg hinv.cap]

/-- Where the checks of a path fail: at the head of the section of the first instruction that
offends, and no instruction before it in the section ends sections. -/
structure FailsAt (bc : Bytecode) (secs : Sections) (ks : List ℕ) (h : ℤ)
    (ks₁ : List ℕ) (k : ℕ) (ks₂ pre : List ℕ) (i : ℕ) (post : List ℕ) : Prop where
  path : ks = ks₁ ++ k :: ks₂
  sec : bc.sectionAt k = pre ++ i :: post
  passes : Passes bc secs (bc.pathInsts ks₁) h
  fails : headCheck secs bc (firstOf (bc.sectionAt k))
    ((bc.pathInsts ks₁).foldl bc.heightAfter h) ≠ none
  fits : InBounds bc (bc.pathInsts ks₁ ++ pre) h
  offends : bc.Offends i ((bc.pathInsts ks₁ ++ pre).foldl bc.heightAfter h)
  effects : ∀ j ∈ pre, (bc.inst j).endsSections = false

theorem heightInv_next (hflow : SoundFlow bc flow) {l : ℕ} (hk : k < bc.sections.length)
    (hl : l < bc.sections.length)
    (hedge : flow (lastOf (bc.sectionAt k)) (firstOf (bc.sectionAt l)))
    (hinv : HeightInv (bc.chainAt k) h) (hfits : InBounds bc (bc.sectionAt k) h) :
    HeightInv (bc.chainAt l) ((bc.sectionAt k).foldl bc.heightAfter h) := by
  have hnext := hinv.next hfits
  by_cases hc : (bc.chainAt l).continues = true
  · rw [flow_continues hflow hk hl hedge hc, chainAt_succ hk]
    exact hnext
  · exact ⟨hnext.nonneg, hnext.cap, fun hcont => absurd hcont hc⟩

theorem failsAt_head (hio : bc.WellDecoded) (hk : k < bc.sections.length)
    (hinv : HeightInv (bc.chainAt k) h) (hnot : ¬ InBounds bc (bc.sectionAt k) h) (ks : List ℕ) :
    ∃ pre i post, FailsAt bc (bc.constructSections expCost) (k :: ks) h [] k ks pre i post := by
  obtain ⟨pre, i, post, hsec, hpre, hi⟩ := exists_offends hnot
  refine ⟨pre, i, post, rfl, hsec, trivial, ?_, hpre, hi, fun j hj => ?_⟩
  · exact fun hpass => hnot ((headCheck_sectionAt hio hk hinv).mp hpass)
  · have hends := not_endsAfter_of_append hk hsec j hj
    exact ((Bool.or_eq_false_iff).mp hends).2

theorem FailsAt.cons {secs : Sections} {ks ks₁ ks₂ pre post : List ℕ} {l i : ℕ}
    (hpass : Passes bc secs (bc.sectionAt k) h) (hfits : InBounds bc (bc.sectionAt k) h)
    (hfail : FailsAt bc secs ks ((bc.sectionAt k).foldl bc.heightAfter h) ks₁ l ks₂ pre i post) :
    FailsAt bc secs (k :: ks) h (k :: ks₁) l ks₂ pre i post := by
  have hinsts : bc.pathInsts (k :: ks₁) = bc.sectionAt k ++ bc.pathInsts ks₁ := rfl
  refine ⟨congrArg (k :: ·) hfail.path, hfail.sec, ?_, ?_, ?_, ?_, hfail.effects⟩
  · rw [hinsts, passes_append]
    exact ⟨hpass, hfail.passes⟩
  · rw [hinsts, List.foldl_append]
    exact hfail.fails
  · rw [hinsts, List.append_assoc, fits_append]
    exact ⟨hfits, hfail.fits⟩
  · rw [hinsts, List.append_assoc, List.foldl_append]
    exact hfail.offends

theorem passes_path (hio : bc.WellDecoded) (hflow : SoundFlow bc flow) (ks : List ℕ) (h : ℤ)
    (hinside : ∀ k ∈ ks, k < bc.sections.length)
    (hedges : ks.IsChain fun k l => flow (lastOf (bc.sectionAt k)) (firstOf (bc.sectionAt l)))
    (hinv : ∀ k ∈ ks.head?, HeightInv (bc.chainAt k) h) :
    (Passes bc (bc.constructSections expCost) (bc.pathInsts ks) h ↔
        InBounds bc (bc.pathInsts ks) h) ∧
      (¬ InBounds bc (bc.pathInsts ks) h → ∃ ks₁ k ks₂ pre i post,
        FailsAt bc (bc.constructSections expCost) ks h ks₁ k ks₂ pre i post) := by
  induction ks generalizing h with
  | nil => exact ⟨Iff.rfl, fun hnot => absurd trivial hnot⟩
  | cons k ks ih =>
    have hk := hinside k List.mem_cons_self
    have hhead := hinv k rfl
    have hsec : Passes bc (bc.constructSections expCost) (bc.sectionAt k) h ↔
        InBounds bc (bc.sectionAt k) h :=
      (passes_section hk).trans (headCheck_sectionAt hio hk hhead)
    have hinsts : bc.pathInsts (k :: ks) = bc.sectionAt k ++ bc.pathInsts ks := rfl
    rw [hinsts, passes_append, fits_append]
    by_cases hfits : InBounds bc (bc.sectionAt k) h
    · have hnext : ∀ l ∈ ks.head?,
          HeightInv (bc.chainAt l) ((bc.sectionAt k).foldl bc.heightAfter h) := by
        intro l hl
        obtain ⟨ks', rfl⟩ := List.head?_eq_some_iff.mp hl
        exact heightInv_next hflow hk (hinside l (by simp)) (List.isChain_cons_cons.mp hedges).1
          hhead hfits
      obtain ⟨hiff, hfail⟩ := ih ((bc.sectionAt k).foldl bc.heightAfter h)
        (fun l hl => hinside l (List.mem_cons_of_mem k hl)) hedges.tail hnext
      refine ⟨and_congr hsec hiff, fun hnot => ?_⟩
      obtain ⟨ks₁, l, ks₂, pre, i, post, hat⟩ := hfail fun hrest => hnot ⟨hfits, hrest⟩
      exact ⟨k :: ks₁, l, ks₂, pre, i, post, hat.cons (hsec.mpr hfits) hfits⟩
    · obtain ⟨pre, i, post, hat⟩ := @failsAt_head bc expCost k h hio hk hhead hfits ks
      exact ⟨⟨fun hpass => absurd (hsec.mp hpass.1) hfits, fun hall => absurd hall.1 hfits⟩,
        fun _ => ⟨[], k, ks, pre, i, post, hat⟩⟩

/-- **The checks of the stack are exact.** On a path they all pass if and only if no instruction
underflows or overflows the stack; else the first that fails stands at the head of the section of
the first instruction that offends. -/
theorem stackChecks_exact (bc : Bytecode) (expCost : Word → ℕ) (hio : bc.WellDecoded)
    (flow : ℕ → ℕ → Prop) (hflow : SoundFlow bc flow) (ks : List ℕ)
    (hpath : IsPath bc (bc.constructSections expCost) flow ks) (h : ℕ)
    (hcap : (h : ℤ) ≤ STACK_CAP) :
    (Passes bc (bc.constructSections expCost) (bc.pathInsts ks) h ↔
        InBounds bc (bc.pathInsts ks) h) ∧
      (¬ Passes bc (bc.constructSections expCost) (bc.pathInsts ks) h →
        ∃ ks₁ k ks₂ pre i post,
          FailsAt bc (bc.constructSections expCost) ks h ks₁ k ks₂ pre i post) := by
  have hstart : ∀ k ∈ ks.head?, HeightInv (bc.chainAt k) h := by
    intro k hk
    refine ⟨Int.natCast_nonneg h, hcap, fun hc => ?_⟩
    have hhead := @stackHead_sectionAt bc expCost k (hpath.inside k (List.mem_of_mem_head? hk))
    rw [hc] at hhead
    exact absurd hhead (hpath.start k hk _)
  obtain ⟨hiff, hfail⟩ :=
    @passes_path bc expCost flow hio hflow ks h hpath.inside hpath.edges hstart
  exact ⟨hiff, fun hnot => hfail fun hfits => hnot (hiff.mpr hfits)⟩

end Exact

/-- `PUSH0 CALLDATALOAD PUSH1 6 JUMPI POP JUMPDEST STOP`, whose second section continues the first
one. -/
def jumpiThenPop : Bytecode :=
  { insts := [⟨some (.push 0), {}, 2, (0, 1), false⟩, ⟨some .calldataload, {}, 3, (1, 1), false⟩,
      ⟨some (.push 1), {}, 3, (0, 1), false⟩,
      ⟨some .jumpi, { staticJump := true }, 10, (2, 0), false⟩,
      ⟨some .pop, {}, 2, (1, 0), false⟩, ⟨some .jumpdest, {}, 1, (0, 0), true⟩,
      ⟨some .stop, {}, 0, (0, 0), false⟩] }

theorem stackChecks_exact_jumpiThenPop :
    ¬ Passes jumpiThenPop (jumpiThenPop.constructSections fun _ => 0)
        (jumpiThenPop.pathInsts [0, 1]) 0 ∧
      ∃ ks₁ k ks₂ pre i post, FailsAt jumpiThenPop (jumpiThenPop.constructSections fun _ => 0)
        [0, 1] 0 ks₁ k ks₂ pre i post := by
  have hdecoded : jumpiThenPop.WellDecoded := by
    intro i hi
    rcases i with _ | _ | _ | _ | _ | _ | _ | i <;> exact absurd hi Bool.false_ne_true
  have hhead : (jumpiThenPop.constructSections fun _ => 0).stackHead
      (firstOf (jumpiThenPop.sectionAt 0)) = some (⟨0, 2⟩, false) := by decide +kernel
  have hpath : IsPath jumpiThenPop (jumpiThenPop.constructSections fun _ => 0)
      (fun i j => j = i + 1) [0, 1] := by
    refine ⟨by decide +kernel, ?_, by decide +kernel⟩
    rintro k hk sec hsec
    obtain rfl : 0 = k := Option.some.inj hk
    exact absurd (hhead.symm.trans hsec) (by simp)
  have hexact := stackChecks_exact jumpiThenPop (fun _ => 0) hdecoded (fun i j => j = i + 1)
    (fun _ _ h => Or.inl h) [0, 1] hpath 0 (by decide)
  have hnot : ¬ Passes jumpiThenPop (jumpiThenPop.constructSections fun _ => 0)
      (jumpiThenPop.pathInsts [0, 1]) 0 := by decide +kernel
  exact ⟨hnot, hexact.2 hnot⟩

/-- `LOG0 ADD STOP`. -/
def logThenAdd : Bytecode :=
  { insts := [⟨some (.log 0), {}, 375, (2, 0), false⟩, ⟨some .add, {}, 3, (2, 1), false⟩,
      ⟨some .stop, {}, 0, (0, 0), false⟩] }

/-- A check can fail ahead of a log: with two words on the stack `LOG0` fits and `ADD` after it
underflows, and the check at the head of their section fails before both. -/
theorem headCheck_ahead_of_log :
    logThenAdd.sectionAt 0 = [0, 1, 2] ∧ (logThenAdd.inst 0).opcode = some (.log 0) ∧
      headCheck (logThenAdd.constructSections fun _ => 0) logThenAdd 0 2 =
        some .stackUnderflow ∧
      InBounds logThenAdd [0] 2 ∧ logThenAdd.Offends 1 ([0].foldl logThenAdd.heightAfter 2) := by
  decide +kernel

end Evm2.Jit
