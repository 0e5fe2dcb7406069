import Evm2.Jit.Sections

/-!
# The sections of a bytecode

The pass over the instructions writes to the heads of the sections what follows from the sections
alone.
-/

namespace Evm2.Jit

def Bytecode.endsAfter (bc : Bytecode) (i : ℕ) : Bool :=
  (bc.inst i).isBranching || (bc.inst i).endsSections

def Bytecode.startsAt (bc : Bytecode) (i : ℕ) : Bool :=
  (bc.inst i).isReachableJumpdest bc.hasDynamicJumps

/-- No section ends between two live instructions that follow each other. -/
def Bytecode.linked (bc : Bytecode) (i j : ℕ) : Bool := !bc.endsAfter i && !bc.startsAt j

def Bytecode.sections (bc : Bytecode) : List (List ℕ) := bc.liveInsts.splitBy bc.linked

def firstOf (g : List ℕ) : ℕ := g.headD 0

def lastOf (g : List ℕ) : ℕ := g.getLastD 0

/-- What the chain of continuations before a section has checked; nothing if the section does not
continue the one before. -/
structure Chain where
  continues : Bool := false
  offset : ℤ := 0
  checked : ℤ × ℤ := (0, 0)

def Chain.kept (c : Chain) (sec : StackSection) : StackSection :=
  if c.continues then
    ⟨if c.checked.1 ≤ c.offset - sec.inputs then 0 else sec.inputs,
      if c.offset + sec.maxGrowth ≤ c.checked.2 then 0 else sec.maxGrowth⟩
  else sec

def Chain.extend (c : Chain) (sec : StackSection) (diff : ℤ) (continues : Bool) : Chain :=
  if c.continues then
    ⟨continues, c.offset + diff,
      (min c.checked.1 (c.offset - sec.inputs), max c.checked.2 (c.offset + sec.maxGrowth))⟩
  else ⟨continues, diff, (-sec.inputs, sec.maxGrowth)⟩

section Groups

variable (bc : Bytecode) (expCost : Word → ℕ)

def stackOf (g : List ℕ) : StackSectionAnalysis :=
  g.foldl (fun s i => s.process (bc.inst i).stackIo) {}

def gasOf (g : List ℕ) : GasSectionAnalysis := g.foldl (fun s i => s.process bc expCost i) {}

def saveGroup (c : Chain) (g : List ℕ) (out : Sections) : Sections :=
  let gas := gasOf bc expCost g
  let charged : Sections :=
    { out with
      stackHead := Function.update out.stackHead (firstOf g)
        (some (c.kept (stackOf bc g).toSection, c.continues))
      gasCost :=
        if saturate32 gas.gasCost = 0 then out.gasCost
        else Function.update out.gasCost (firstOf g) (saturate32 gas.gasCost) }
  charged.saveOwed gas.gasCost gas.gasInsts

def nextChain (c : Chain) (g : List ℕ) : Chain :=
  c.extend (stackOf bc g).toSection (stackOf bc g).diff (continuesInto bc (lastOf g))

def saveAll : Chain → List (List ℕ) → Sections → Sections
  | _, [], out => out
  | c, g :: gs, out => saveAll (nextChain bc c g) gs (saveGroup bc expCost c g out)

end Groups

variable {bc : Bytecode} {expCost : Word → ℕ}

/-! ## Where the pass writes -/

theorem endsAfter_of_continuesInto {i : ℕ} (h : continuesInto bc i = true) :
    bc.endsAfter i = true := by
  unfold continuesInto at h
  simp only [Bool.and_eq_true, beq_iff_eq] at h
  simp [Bytecode.endsAfter, InstData.isBranching, InstData.isJump, h.1.1.1]

theorem not_startsAt_of_continuesInto {i : ℕ} (h : continuesInto bc i = true) :
    bc.startsAt (i + 1) = false := by
  unfold continuesInto Bytecode.isFallThroughOnly at h
  unfold Bytecode.startsAt
  by_contra hs
  rw [Bool.not_eq_false] at hs
  rw [hs] at h
  simp at h

theorem live_of_continuesInto {i : ℕ} (h : continuesInto bc i = true) : bc.Live (i + 1) := by
  unfold continuesInto at h
  simp only [Bool.and_eq_true, decide_eq_true_eq, Bool.not_eq_true'] at h
  exact ⟨h.1.1.2, h.1.2⟩

theorem firstLive_eq {pre post : List ℕ} {start i : ℕ} (hlive : bc.liveInsts = pre ++ i :: post)
    (hpre : ∀ j ∈ pre, j < start) (hstart : start ≤ i) : bc.firstLive start = some i := by
  have hnone : pre.find? (start ≤ ·) = none := by
    refine List.find?_eq_none.mpr fun j hj => ?_
    rw [decide_eq_true_eq, not_le]
    exact hpre j hj
  unfold Bytecode.firstLive
  rw [hlive, List.find?_append, hnone, List.find?_cons, decide_eq_true hstart]
  rfl

theorem firstLive_eq_none {start : ℕ} (h : ∀ j ∈ bc.liveInsts, j < start) :
    bc.firstLive start = none := by
  refine List.find?_eq_none.mpr fun j hj => ?_
  rw [decide_eq_true_eq, not_le]
  exact h j hj

theorem lt_length_of_firstLive {start i : ℕ} (h : bc.firstLive start = some i) :
    start < bc.insts.length := by
  have hmem := List.mem_of_find?_eq_some h
  have hle : decide (start ≤ i) = true := @List.find?_some _ (start ≤ ·) i _ h
  exact lt_of_le_of_lt (of_decide_eq_true hle) (bc.mem_liveInsts.mp hmem).1

/-! ## Sections are accumulated -/

theorem foldl_accumulate (g : List ℕ) (s : SectionsAnalysis) :
    g.foldl (SectionsAnalysis.accumulate bc expCost) s =
      { s with
        stack := g.foldl (fun s i => s.process (bc.inst i).stackIo) s.stack
        gas := g.foldl (fun s i => s.process bc expCost i) s.gas } := by
  induction g generalizing s with
  | nil => rfl
  | cons i g ih => exact ih _

theorem foldl_stack_start (g : List ℕ) (s : StackSectionAnalysis) (start : ℕ) :
    g.foldl (fun s i => s.process (bc.inst i).stackIo) { s with startInst := start } =
      { g.foldl (fun s i => s.process (bc.inst i).stackIo) s with startInst := start } := by
  induction g generalizing s with
  | nil => rfl
  | cons i g ih => exact ih (s.process (bc.inst i).stackIo)

theorem foldl_gas_start (g : List ℕ) (s : GasSectionAnalysis) (start : ℕ) :
    g.foldl (fun s i => s.process bc expCost i) { s with startInst := start } =
      { g.foldl (fun s i => s.process bc expCost i) s with startInst := start } := by
  induction g generalizing s with
  | nil => rfl
  | cons i g ih => exact ih (s.process bc expCost i)

theorem foldl_process_group {i : ℕ} {rest : List ℕ} (s : SectionsAnalysis)
    (hchain : (i :: rest).IsChain fun a b => bc.linked a b = true) :
    rest.foldl (SectionsAnalysis.process bc expCost)
        ((s.accumulate bc expCost i).leave bc i) =
      ((i :: rest).foldl (SectionsAnalysis.accumulate bc expCost) s).leave bc
        (lastOf (i :: rest)) := by
  induction rest generalizing i s with
  | nil => rfl
  | cons j rest ih =>
    obtain ⟨hlink, hchain⟩ := List.isChain_cons_cons.mp hchain
    obtain ⟨hends, hstarts⟩ := (Bool.and_eq_true _ _).mp hlink
    rw [Bool.not_eq_true'] at hends hstarts
    have hleave : (s.accumulate bc expCost i).leave bc i = s.accumulate bc expCost i := if_neg (by
      rw [show ((bc.inst i).isBranching || (bc.inst i).endsSections) = false from hends]
      exact Bool.false_ne_true)
    have henter : (s.accumulate bc expCost i).enter bc j = s.accumulate bc expCost i := if_neg (by
      rw [show (bc.inst j).isReachableJumpdest bc.hasDynamicJumps = false from hstarts]
      exact Bool.false_ne_true)
    rw [hleave, List.foldl_cons]
    show rest.foldl _ ((((s.accumulate bc expCost i).enter bc j).accumulate bc expCost j).leave
      bc j) = _
    rw [henter, ih _ hchain]
    rfl

/-! ## Sections are closed -/

/-- The pass is about to accumulate the section with the head `i`, after the chain `c`. -/
structure Ready (bc : Bytecode) (s : SectionsAnalysis) (c : Chain) (start i : ℕ) : Prop where
  stack : s.stack = { startInst := start }
  gas : s.gas = { startInst := start }
  head : bc.firstLive start = some i
  continues : s.continues = c.continues
  chain : c.continues = true → s.chainOffset = c.offset ∧ s.checked = c.checked

theorem saveOwed_stackHead (out : Sections) (total : ℕ) (gasInsts : List (ℕ × ℕ))
    (f : ℕ → Option (StackSection × Bool)) :
    ({ out with stackHead := f }).saveOwed total gasInsts =
      { out.saveOwed total gasInsts with stackHead := f } := by
  unfold Sections.saveOwed
  induction gasInsts generalizing out with
  | nil => rfl
  | cons p ps ih =>
    exact ih { out with gasOwed := Function.update out.gasOwed p.1 (saturate32 (total - p.2)) }

theorem stackHead_saveOwed (out : Sections) (total : ℕ) (gasInsts : List (ℕ × ℕ)) :
    (out.saveOwed total gasInsts).stackHead = out.stackHead := by
  unfold Sections.saveOwed
  induction gasInsts generalizing out with
  | nil => rfl
  | cons p ps ih =>
    exact ih { out with gasOwed := Function.update out.gasOwed p.1 (saturate32 (total - p.2)) }

theorem saveStack_of_head {start i : ℕ} (h : bc.firstLive start = some i) (out : Sections)
    (sec : StackSection) (continues : Bool) :
    out.saveStack bc start sec continues =
      { out with stackHead := Function.update out.stackHead i (some (sec, continues)) } := by
  unfold Sections.saveStack
  rw [h]

theorem saveGas_of_head {gas : GasSectionAnalysis} {i : ℕ} (h : bc.firstLive gas.startInst = some i)
    (out : Sections) :
    out.saveGas bc gas =
      ({ out with
        gasCost :=
          if saturate32 gas.gasCost = 0 then out.gasCost
          else Function.update out.gasCost i (saturate32 gas.gasCost) }).saveOwed
        gas.gasCost gas.gasInsts := by
  unfold Sections.saveGas
  rw [if_neg (Nat.not_le.mpr (lt_length_of_firstLive h)), h]
  dsimp only
  split_ifs <;> rfl

section Close

variable {s : SectionsAnalysis} {c : Chain} {start : ℕ} {g : List ℕ}

def filled (bc : Bytecode) (expCost : Word → ℕ) (s : SectionsAnalysis) (g : List ℕ) :
    SectionsAnalysis :=
  g.foldl (SectionsAnalysis.accumulate bc expCost) s

theorem filled_eq (h : Ready bc s c start (firstOf g)) :
    filled bc expCost s g =
      { s with
        stack := { stackOf bc g with startInst := start }
        gas := { gasOf bc expCost g with startInst := start } } := by
  have hstack := @foldl_stack_start bc g {} start
  have hgas := @foldl_gas_start bc expCost g {} start
  unfold filled
  rw [foldl_accumulate, h.stack, h.gas]
  congr 1

theorem saveStack_filled (h : Ready bc s c start (firstOf g)) :
    (filled bc expCost s g).saveStack bc =
      { filled bc expCost s g with
        chainOffset := (nextChain bc c g).offset - (stackOf bc g).diff
        checked := (nextChain bc c g).checked
        out := { s.out with
          stackHead := Function.update s.out.stackHead (firstOf g)
            (some (c.kept (stackOf bc g).toSection, c.continues)) } } := by
  rw [filled_eq h]
  unfold SectionsAnalysis.saveStack nextChain Chain.extend Chain.kept
  dsimp only
  rw [h.continues, saveStack_of_head h.head, saveStack_of_head h.head]
  by_cases hc : c.continues = true
  · obtain ⟨hoff, hchk⟩ := h.chain hc
    rw [if_pos hc, if_pos hc, if_pos hc, hoff, hchk, hc, Int.add_sub_cancel]
    rfl
  · rw [if_neg hc, if_neg hc, if_neg hc, Bool.eq_false_iff.mpr hc, Int.sub_self]
    rfl

theorem close_filled (h : Ready bc s c start (firstOf g)) (next : ℕ) (continues : Bool) :
    (filled bc expCost s g).close bc next continues =
      { gas := { startInst := next }
        stack := { startInst := next }
        continues := continues
        chainOffset := (nextChain bc c g).offset
        checked := (nextChain bc c g).checked
        out := saveGroup bc expCost c g s.out } := by
  have hgas : (filled bc expCost s g).gas = { gasOf bc expCost g with startInst := start } := by
    rw [filled_eq h]
  have hdiff : (filled bc expCost s g).stack.diff = (stackOf bc g).diff := by rw [filled_eq h]
  unfold SectionsAnalysis.close SectionsAnalysis.saveStackReset SectionsAnalysis.saveGasReset
  rw [saveStack_filled h]
  dsimp only
  rw [hdiff, hgas, Int.sub_add_cancel, saveGas_of_head h.head]
  rfl

theorem finish_filled (h : Ready bc s c start (firstOf g)) :
    ((filled bc expCost s g).finish bc).out = saveGroup bc expCost c g s.out := by
  have hready : Ready bc
      { s with out := s.out.saveGas bc { gasOf bc expCost g with startInst := start } } c start
      (firstOf g) := ⟨h.stack, h.gas, h.head, h.continues, h.chain⟩
  have hfill : ({ filled bc expCost s g with
      out := (filled bc expCost s g).out.saveGas bc (filled bc expCost s g).gas } :
        SectionsAnalysis) =
      filled bc expCost
        { s with out := s.out.saveGas bc { gasOf bc expCost g with startInst := start } } g := by
    rw [filled_eq h, filled_eq hready]
  unfold SectionsAnalysis.finish
  rw [hfill, saveStack_filled hready]
  dsimp only
  rw [saveGas_of_head h.head]
  unfold saveGroup
  dsimp only
  rw [stackHead_saveOwed, ← saveOwed_stackHead]

theorem saveGroup_update (c c' : Chain) (hc : c.continues = false) (hc' : c'.continues = false)
    (out : Sections) (r : Option (StackSection × Bool)) :
    saveGroup bc expCost c' g
        { out with stackHead := Function.update out.stackHead (firstOf g) r } =
      saveGroup bc expCost c g out := by
  unfold saveGroup Chain.kept
  dsimp only
  rw [Function.update_idem, hc, hc']
  rfl

theorem nextChain_of_not_continues (c c' : Chain) (hc : c.continues = false)
    (hc' : c'.continues = false) (g : List ℕ) : nextChain bc c g = nextChain bc c' g := by
  unfold nextChain Chain.extend
  rw [hc, hc']
  rfl

theorem saveAll_update (c c' : Chain) (hc : c.continues = false) (hc' : c'.continues = false)
    (out : Sections) (r : Option (StackSection × Bool)) (gs : List (List ℕ)) :
    saveAll bc expCost c' (g :: gs)
        { out with stackHead := Function.update out.stackHead (firstOf g) r } =
      saveAll bc expCost c (g :: gs) out := by
  unfold saveAll
  rw [saveGroup_update c c' hc hc', nextChain_of_not_continues c c' hc hc']

end Close

/-! ## The whole pass -/

section Pass

variable {s : SectionsAnalysis} {c : Chain} {start : ℕ}

theorem close_empty {i : ℕ} (h : Ready bc s c start i) (hc : c.continues = false) (next : ℕ) :
    s.close bc next false =
      { gas := { startInst := next }
        stack := { startInst := next }
        out := { s.out with
          stackHead := Function.update s.out.stackHead i (some (⟨0, 0⟩, false)) } } := by
  have hstack : s.saveStack bc =
      { s with
        chainOffset := 0
        checked := (0, 0)
        out := { s.out with
          stackHead := Function.update s.out.stackHead i (some (⟨0, 0⟩, false)) } } := by
    unfold SectionsAnalysis.saveStack
    rw [h.continues, hc, if_neg Bool.false_ne_true, h.stack, saveStack_of_head h.head]
    rfl
  unfold SectionsAnalysis.close SectionsAnalysis.saveStackReset SectionsAnalysis.saveGasReset
  rw [hstack]
  dsimp only
  rw [h.stack, h.gas, saveGas_of_head h.head]
  rfl

theorem enter_ready {g : List ℕ} (h : Ready bc s c start (firstOf g)) {pre post : List ℕ}
    (hlive : bc.liveInsts = pre ++ firstOf g :: post) (hpre : ∀ j ∈ pre, j < firstOf g)
    (hstarts : bc.startsAt (firstOf g) = true → c.continues = false) (gs : List (List ℕ)) :
    ∃ c' start', Ready bc (s.enter bc (firstOf g)) c' start' (firstOf g) ∧
      saveAll bc expCost c' (g :: gs) (s.enter bc (firstOf g)).out =
        saveAll bc expCost c (g :: gs) s.out := by
  by_cases hs : bc.startsAt (firstOf g) = true
  · have henter : s.enter bc (firstOf g) = s.close bc (firstOf g) false := if_pos hs
    rw [henter, close_empty h (hstarts hs)]
    exact ⟨{}, firstOf g, ⟨rfl, rfl, firstLive_eq hlive hpre le_rfl, rfl, nofun⟩,
      saveAll_update c {} (hstarts hs) rfl s.out _ gs⟩
  · have henter : s.enter bc (firstOf g) = s := if_neg hs
    rw [henter]
    exact ⟨c, start, h, rfl⟩

theorem finish_fresh {next : ℕ} (hstack : s.stack = { startInst := next })
    (hgas : s.gas = { startInst := next }) (hnone : bc.firstLive next = none) :
    (s.finish bc).out = s.out := by
  have hsaveGas : s.out.saveGas bc s.gas = s.out := by
    unfold Sections.saveGas
    rw [hgas, hnone]
    split_ifs <;> rfl
  have hsaveStack (sec : StackSection) (continues : Bool) :
      s.out.saveStack bc next sec continues = s.out := by
    unfold Sections.saveStack
    rw [hnone]
  unfold SectionsAnalysis.finish SectionsAnalysis.saveStack
  rw [hsaveGas]
  dsimp only
  rw [hstack]
  by_cases hc : s.continues = true
  · rw [if_pos hc]
    exact hsaveStack _ _
  · rw [if_neg hc]
    exact hsaveStack _ _

theorem lastOf_eq_getLast {g : List ℕ} (h : g ≠ []) : lastOf g = g.getLast h := by
  unfold lastOf
  rw [List.getLastD_eq_getLast?, List.getLast?_eq_some_getLast h]
  rfl

theorem firstOf_eq_head {g : List ℕ} (h : g ≠ []) : firstOf g = g.head h := by
  unfold firstOf
  rw [List.headD_eq_head?_getD, List.head?_eq_some_head h]
  rfl

theorem lastOf_mem (i : ℕ) (rest : List ℕ) : lastOf (i :: rest) ∈ i :: rest := by
  rw [lastOf_eq_getLast (List.cons_ne_nil i rest)]
  exact List.getLast_mem _

theorem le_lastOf {i j : ℕ} {rest : List ℕ} (hsorted : (i :: rest).Pairwise (· < ·))
    (hj : j ∈ i :: rest) : j ≤ lastOf (i :: rest) := by
  have hsplit := List.dropLast_concat_getLast (List.cons_ne_nil i rest)
  rw [lastOf_eq_getLast (List.cons_ne_nil i rest)]
  rw [← hsplit] at hj hsorted
  rcases List.mem_append.mp hj with hj | hj
  · exact Nat.le_of_lt ((List.pairwise_append.mp hsorted).2.2 j hj _ (List.mem_singleton_self _))
  · exact Nat.le_of_eq (List.mem_singleton.mp hj)

section Split

variable {i : ℕ} {pre rest post : List ℕ}

theorem le_lastOf_of_live (hlive : bc.liveInsts = pre ++ (i :: rest) ++ post) :
    ∀ j ∈ pre ++ (i :: rest), j ≤ lastOf (i :: rest) := by
  intro j hj
  have hsorted := bc.sorted_liveInsts
  rw [hlive] at hsorted
  have hpre := (List.pairwise_append.mp hsorted).1
  rcases List.mem_append.mp hj with hj | hj
  · exact Nat.le_of_lt ((List.pairwise_append.mp hpre).2.2 j hj _ (lastOf_mem i rest))
  · exact le_lastOf (List.pairwise_append.mp hpre).2.1 hj

theorem lastOf_lt_of_live (hlive : bc.liveInsts = pre ++ (i :: rest) ++ post) :
    ∀ j ∈ post, lastOf (i :: rest) < j := by
  intro j hj
  have hsorted := bc.sorted_liveInsts
  rw [hlive] at hsorted
  exact (List.pairwise_append.mp hsorted).2.2 _
    (List.mem_append_right pre (lastOf_mem i rest)) j hj

theorem succ_lastOf_eq {j : ℕ} (hlive : bc.liveInsts = pre ++ (i :: rest) ++ j :: post)
    (hsucc : bc.Live (lastOf (i :: rest) + 1)) : lastOf (i :: rest) + 1 = j := by
  have hsorted := bc.sorted_liveInsts
  have hmem := bc.mem_liveInsts.mpr hsucc
  have hlt := lastOf_lt_of_live hlive j List.mem_cons_self
  rw [hlive] at hmem hsorted
  rcases List.mem_append.mp hmem with hpre | hpost
  · exact absurd (le_lastOf_of_live hlive _ hpre) (Nat.not_succ_le_self _)
  · rcases List.mem_cons.mp hpost with hj | hpost
    · exact hj
    · have hj := (List.pairwise_cons.mp (List.pairwise_append.mp hsorted).2.1).1 _ hpost
      omega

theorem leave_ready {j : ℕ} (h : Ready bc s c start i)
    (hlive : bc.liveInsts = pre ++ (i :: rest) ++ j :: post)
    (hcut : bc.linked (lastOf (i :: rest)) j = false) (rest' : List ℕ) (gs : List (List ℕ)) :
    let s' := ((filled bc expCost s (i :: rest)).leave bc (lastOf (i :: rest))).enter bc j
    ∃ c' start', Ready bc s' c' start' j ∧
      saveAll bc expCost c' ((j :: rest') :: gs) s'.out =
        saveAll bc expCost c ((i :: rest) :: (j :: rest') :: gs) s.out := by
  have hle := le_lastOf_of_live hlive
  have hlt := lastOf_lt_of_live hlive j List.mem_cons_self
  have hcont : (nextChain bc c (i :: rest)).continues = continuesInto bc (lastOf (i :: rest)) := by
    unfold nextChain Chain.extend
    split_ifs <;> rfl
  intro s'
  by_cases hends : bc.endsAfter (lastOf (i :: rest)) = true
  · -- the instruction ends the section, and the next one starts after it
    have hleave : (filled bc expCost s (i :: rest)).leave bc (lastOf (i :: rest)) =
        (filled bc expCost s (i :: rest)).close bc (lastOf (i :: rest) + 1)
          (continuesInto bc (lastOf (i :: rest))) := if_pos hends
    have hhead : bc.firstLive (lastOf (i :: rest) + 1) = some j :=
      firstLive_eq hlive (fun k hk => Nat.lt_succ_of_le (hle k hk)) hlt
    have hstarts : bc.startsAt j = true → (nextChain bc c (i :: rest)).continues = false := by
      intro hj
      rw [hcont]
      by_contra hinto
      rw [Bool.not_eq_false] at hinto
      have hnot := not_startsAt_of_continuesInto hinto
      rw [succ_lastOf_eq hlive (live_of_continuesInto hinto), hj] at hnot
      exact Bool.noConfusion hnot
    have hnext : Ready bc
        ((filled bc expCost s (i :: rest)).leave bc (lastOf (i :: rest)))
        (nextChain bc c (i :: rest)) (lastOf (i :: rest) + 1) (firstOf (j :: rest')) := by
      rw [hleave, close_filled (g := i :: rest) h]
      exact ⟨rfl, rfl, hhead, hcont.symm, fun _ => ⟨rfl, rfl⟩⟩
    have hout : ((filled bc expCost s (i :: rest)).leave bc (lastOf (i :: rest))).out =
        saveGroup bc expCost c (i :: rest) s.out := by
      rw [hleave, close_filled (g := i :: rest) h]
    have hall := @enter_ready bc expCost _ _ _ _ hnext _ _ hlive
      (fun k hk => lt_of_le_of_lt (hle k hk) hlt) hstarts gs
    rw [hout] at hall
    exact hall
  · have hstarts : bc.startsAt j = true := by
      unfold Bytecode.linked at hcut
      rw [Bool.eq_false_iff.mpr hends] at hcut
      simpa using hcut
    have hinto : continuesInto bc (lastOf (i :: rest)) = false := by
      by_contra hinto
      rw [Bool.not_eq_false] at hinto
      exact hends (endsAfter_of_continuesInto hinto)
    have hleave : (filled bc expCost s (i :: rest)).leave bc (lastOf (i :: rest)) =
        filled bc expCost s (i :: rest) := if_neg hends
    have henter : s' = (filled bc expCost s (i :: rest)).close bc j false := by
      show (SectionsAnalysis.leave bc _ _).enter bc j = _
      rw [hleave]
      exact if_pos hstarts
    rw [henter, close_filled (g := i :: rest) h]
    rw [hinto] at hcont
    exact ⟨nextChain bc c (i :: rest), j, ⟨rfl, rfl,
      firstLive_eq hlive (fun k hk => lt_of_le_of_lt (hle k hk) hlt) le_rfl, hcont.symm,
      fun _ => ⟨rfl, rfl⟩⟩, rfl⟩

end Split

theorem finish_foldl (gs : List (List ℕ)) :
    ∀ (s : SectionsAnalysis) (c : Chain) (start i : ℕ) (rest pre : List ℕ),
      Ready bc s c start i → bc.liveInsts = pre ++ (i :: rest) ++ gs.flatten →
      [] ∉ gs → (∀ g ∈ (i :: rest) :: gs, g.IsChain fun a b => bc.linked a b = true) →
      (((i :: rest) :: gs).IsChain fun a b => bc.linked (lastOf a) (firstOf b) = false) →
      (((rest ++ gs.flatten).foldl (SectionsAnalysis.process bc expCost)
        ((s.accumulate bc expCost i).leave bc i)).finish bc).out =
          saveAll bc expCost c ((i :: rest) :: gs) s.out := by
  induction gs with
  | nil =>
    intro s c start i rest pre h hlive _ hchain _
    have hlast : ∀ j ∈ bc.liveInsts, j < lastOf (i :: rest) + 1 := by
      intro j hj
      have hle := le_lastOf_of_live hlive j
      rw [hlive, List.flatten_nil, List.append_nil] at hj
      exact Nat.lt_succ_of_le (hle hj)
    rw [List.flatten_nil, List.append_nil,
      foldl_process_group s (hchain _ List.mem_cons_self)]
    change (((filled bc expCost s (i :: rest)).leave bc (lastOf (i :: rest))).finish bc).out = _
    unfold SectionsAnalysis.leave
    split_ifs with hends
    · rw [close_filled (g := i :: rest) h]
      exact finish_fresh rfl rfl (firstLive_eq_none hlast)
    · exact finish_filled (g := i :: rest) h
  | cons g gs ih =>
    intro s c start i rest pre h hlive hne hchain hcut
    rcases g with _ | ⟨j, rest'⟩
    · exact absurd List.mem_cons_self hne
    · obtain ⟨hcut, htail⟩ := List.isChain_cons_cons.mp hcut
      obtain ⟨c', start', hready, hall⟩ :=
        @leave_ready bc expCost s c start i pre rest (rest' ++ gs.flatten) j h hlive hcut rest' gs
      rw [List.foldl_append, foldl_process_group s (hchain _ List.mem_cons_self), ← hall]
      refine ih _ c' start' j rest' (pre ++ (i :: rest)) hready ?_ (fun hmem => hne
        (List.mem_cons_of_mem _ hmem)) (fun g hg => hchain g (List.mem_cons_of_mem _ hg)) htail
      rw [hlive, List.flatten_cons, ← List.append_assoc]

theorem Bytecode.isChain_sections (bc : Bytecode) :
    bc.sections.IsChain fun a b => bc.linked (lastOf a) (firstOf b) = false := by
  refine (List.isChain_getLast_head_splitBy bc.linked bc.liveInsts).imp ?_
  rintro a b ⟨ha, hb, hcut⟩
  rw [lastOf_eq_getLast ha, firstOf_eq_head hb]
  exact hcut

/-- **The pass** writes the sections, one after the other. -/
theorem constructSections_eq (bc : Bytecode) (expCost : Word → ℕ) :
    bc.constructSections expCost = saveAll bc expCost {} bc.sections {} := by
  have hflatten : bc.sections.flatten = bc.liveInsts := List.flatten_splitBy _ _
  have hnil : [] ∉ bc.sections := List.nil_notMem_splitBy _ _
  have hchain (g : List ℕ) (hg : g ∈ bc.sections) :
      g.IsChain fun a b => bc.linked a b = true := List.isChain_of_mem_splitBy hg
  have hcuts := bc.isChain_sections
  unfold Bytecode.constructSections
  rw [← hflatten]
  rcases hsec : bc.sections with _ | ⟨_ | ⟨i, rest⟩, gs⟩
  · have hnone : bc.firstLive 0 = none := firstLive_eq_none fun j hj => by
      rw [← hflatten, hsec] at hj
      exact absurd hj List.not_mem_nil
    exact finish_fresh rfl rfl hnone
  · rw [hsec] at hnil
    exact absurd List.mem_cons_self hnil
  · rw [hsec] at hflatten hnil hchain hcuts
    have hlive : bc.liveInsts = [] ++ (i :: rest) ++ gs.flatten := hflatten.symm
    have hpre : ∀ j ∈ ([] : List ℕ), j < i := fun j hj => absurd hj List.not_mem_nil
    have hhead : bc.firstLive 0 = some i :=
      @firstLive_eq bc [] (rest ++ gs.flatten) 0 i hlive nofun (Nat.zero_le _)
    obtain ⟨c', start', hready, hall⟩ :=
      @enter_ready bc expCost {} {} 0 (i :: rest) ⟨rfl, rfl, hhead, rfl, nofun⟩ []
        (rest ++ gs.flatten) hlive hpre (fun _ => rfl) gs
    exact (finish_foldl gs _ c' start' i rest [] hready hlive
      (fun hmem => hnil (List.mem_cons_of_mem _ hmem)) hchain hcuts).trans hall

end Pass

end Evm2.Jit
