import Evm2.Jit.MemorySections
import Evm2.Version.GasParams

/-!
# What the sizes of memory sections stand for
-/

namespace Evm2.Jit

/-! ## States -/

/-- The state allows a size, being a lower bound and, if `exact`, the exact size if it has one. -/
def BlockMemoryState.Admits (exact : Prop) (s : BlockMemoryState) (size : ℕ) : Prop :=
  ∃ known, s.knownSize = some known ∧ known ≤ size ∧
    (exact → ∀ e, s.exactKnownSize = some e → e = size)

def BlockMemoryState.access (s : BlockMemoryState) (a : Option ℕ × Option ℕ) :
    BlockMemoryState where
  knownSize := s.knownSize.map fun size => max size (minMemorySizeForAccess a)
  exactKnownSize := maxSize s.exactKnownSize (exactMemorySizeForAccess a)

theorem maxSize_assoc (a b c : Option ℕ) : maxSize (maxSize a b) c = maxSize a (maxSize b c) := by
  rcases a with _ | a
  · rfl
  rcases b with _ | b
  · rfl
  rcases c with _ | c
  · rfl
  · exact congrArg some (max_assoc a b c)

theorem maxSize_zero (a : Option ℕ) : maxSize a (some 0) = a := by
  rcases a with _ | a
  · rfl
  · exact congrArg some (Nat.max_zero a)

theorem foldl_access (s : BlockMemoryState) (m : ℕ) (e : Option ℕ)
    (l : List (Option ℕ × Option ℕ)) :
    l.foldl BlockMemoryState.access ⟨s.knownSize.map (max · m), maxSize s.exactKnownSize e⟩ =
      ⟨s.knownSize.map (max · (l.foldl (fun n a => max n (minMemorySizeForAccess a)) m)),
        maxSize s.exactKnownSize
          (l.foldl (fun n a => maxSize n (exactMemorySizeForAccess a)) e)⟩ := by
  induction l generalizing m e with
  | nil => rfl
  | cons a l ih =>
    rw [List.foldl_cons, List.foldl_cons, List.foldl_cons, ← ih]
    congr 1
    unfold BlockMemoryState.access
    rw [maxSize_assoc, Option.map_map]
    congr 2
    funext n
    exact max_assoc n m _

section Blocks

variable {bc : Bytecode} {cfg : Cfg}

theorem blockExitState_eq (b : ℕ) (s : BlockMemoryState) :
    blockExitState bc cfg b s = (blockAccesses bc cfg b).foldl .access s := by
  have h := foldl_access s 0 (some 0) (blockAccesses bc cfg b)
  have hs : (⟨s.knownSize.map (max · 0), maxSize s.exactKnownSize (some 0)⟩ : BlockMemoryState) =
      s := by
    rw [maxSize_zero]
    congr 1
    rcases s.knownSize with _ | n
    · rfl
    · exact congrArg some (Nat.max_zero n)
  rw [hs] at h
  exact h.symm

/-! ## The data flow -/

variable {exact : Prop}

theorem admits_join_left {s t : BlockMemoryState} {size : ℕ} (h : s.Admits exact size) :
    (joinState s t).Admits exact size := by
  obtain ⟨known, hs, hle, hexact⟩ := h
  unfold joinState
  rcases ht : t.knownSize with _ | n
  · exact ⟨known, hs, hle, hexact⟩
  · rw [hs]
    refine ⟨_, rfl, (min_le_left known n).trans hle, fun he e h => ?_⟩
    dsimp only at h
    split_ifs at h
    exact hexact he e h

theorem admits_join_right {s t : BlockMemoryState} {size : ℕ} (h : t.Admits exact size) :
    (joinState s t).Admits exact size := by
  obtain ⟨known, ht, hle, hexact⟩ := h
  unfold joinState
  rw [ht]
  rcases hs : s.knownSize with _ | n
  · exact ⟨known, ht, hle, hexact⟩
  · refine ⟨_, rfl, (min_le_right n known).trans hle, fun he e h => ?_⟩
    dsimp only at h
    split_ifs at h with heq
    rw [heq] at h
    exact hexact he e h

theorem over_memoryFlow : (memoryFlow bc cfg).Over (BlockMemoryState.Admits exact) where
  left := admits_join_left
  right := admits_join_right
  live := by
    rintro a x ⟨known, h, -⟩
    show a.knownSize.isSome = true
    rw [h]
    rfl

def BlockMemoryState.Fits (s : BlockMemoryState) : Prop := ∀ n, s.knownSize = some n → n < 2 ^ 64

theorem roundMemorySize_lt (size : ℕ) : roundMemorySize size < 2 ^ 64 := by
  unfold roundMemorySize satAdd64 maxU64
  omega

theorem minMemorySizeForAccess_lt (a : Option ℕ × Option ℕ) :
    minMemorySizeForAccess a < 2 ^ 64 := by
  unfold minMemorySizeForAccess
  split
  · decide
  · split_ifs
    · decide
    · exact roundMemorySize_lt _
  · split_ifs
    · decide
    · exact roundMemorySize_lt _

theorem fits_access {s : BlockMemoryState} (h : s.Fits) (a : Option ℕ × Option ℕ) :
    (s.access a).Fits := by
  intro n hn
  obtain ⟨m, hm, rfl⟩ := Option.map_eq_some_iff.mp hn
  exact max_lt (h m hm) (minMemorySizeForAccess_lt a)

theorem fits_join {s t : BlockMemoryState} (hs : s.Fits) (ht : t.Fits) : (joinState s t).Fits := by
  unfold joinState
  rcases htk : t.knownSize with _ | n
  · exact hs
  rcases hsk : s.knownSize with _ | m
  · exact ht
  · rintro k ⟨⟩
    exact (min_le_left m n).trans_lt (hs m hsk)

theorem stateRank_join {s t : BlockMemoryState} (hs : s.Fits) (ht : t.Fits)
    (h : joinState s t ≠ s) : stateRank (joinState s t) < stateRank s := by
  obtain ⟨sk, se⟩ := s
  obtain ⟨tk, te⟩ := t
  rcases tk with _ | n
  · exact absurd rfl h
  rcases sk with _ | m
  · have hn := ht n rfl
    show 2 * n + _ < 2 ^ 65
    split_ifs <;> omega
  · have hm := hs m rfl
    unfold joinState at h ⊢
    dsimp only at h ⊢
    unfold stateRank
    dsimp only
    by_cases heq : se = te
    · rw [if_pos heq] at h ⊢
      have hne : min m n ≠ m := fun hmin => h (by rw [hmin])
      omega
    · rw [if_neg heq] at h ⊢
      rcases se with _ | e
      · have hne : min m n ≠ m := fun hmin => h (by rw [hmin])
        simp only [Option.isSome_none, Bool.false_eq_true, if_false]
        omega
      · simp only [Option.isSome_none, Option.isSome_some, Bool.false_eq_true, if_false, if_true]
        omega

theorem descends_memoryFlow :
    (memoryFlow bc cfg).Descends BlockMemoryState.Fits stateRank cfg.blocks.length where
  join := fits_join
  transfer := by
    intro b s hs
    show (blockExitState bc cfg b s).Fits
    rw [blockExitState_eq]
    generalize blockAccesses bc cfg b = l
    induction l generalizing s with
    | nil => exact hs
    | cons a l ih => exact ih (fits_access hs a)
  lt := stateRank_join
  succs := fun hm => Cfg.succ_lt hm
  fromHub := by
    intro m hm
    change m ∈ dynamicJumpTargets bc cfg at hm
    unfold dynamicJumpTargets at hm
    split_ifs at hm
    · exact List.mem_range.mp (List.mem_filter.mp hm).1
    · cases hm

def finalStates (bc : Bytecode) (cfg : Cfg) : DataFlow.State BlockMemoryState :=
  (memoryFlow bc cfg).solve
    (DataFlow.potential stateRank cfg.blocks.length initialStates) initialStates

theorem initialStates_entry (b : ℕ) :
    initialStates.entry b = if b = 0 then ⟨some 0, some 0⟩ else {} :=
  Function.update_apply (fun _ => ({} : BlockMemoryState)) 0 ⟨some 0, some 0⟩ b

theorem fits_initialStates : initialStates.Ok BlockMemoryState.Fits := by
  refine ⟨fun b => ?_, nofun⟩
  rw [initialStates_entry]
  split_ifs
  · rintro k ⟨⟩
    decide
  · exact nofun

theorem finalStates_queue : (finalStates bc cfg).queue = [] :=
  DataFlow.solve_finishes descends_memoryFlow fits_initialStates le_rfl

theorem closed_initialStates :
    (memoryFlow bc cfg).Closed (BlockMemoryState.Admits exact) initialStates := by
  -- Only block 0 has been reached, and it is in the queue.
  have hnone : ∀ {n size}, n ∉ initialStates.queue →
      ¬((memoryFlow bc cfg).transfer n (initialStates.entry n)).Admits exact size := by
    rintro n size hn ⟨known, hknown, -⟩
    have hne : n ≠ 0 := fun h => hn (List.mem_singleton.mpr h)
    rw [initialStates_entry, if_neg hne] at hknown
    cases hknown
  refine ⟨fun hn h => absurd h (hnone hn), fun hn h => absurd h (hnone hn), ?_⟩
  rintro size ⟨known, hknown, -⟩
  cases hknown

theorem entryStates_edge {b b' size : ℕ}
    (h : (blockExitState bc cfg b (computeBlockEntryStates bc cfg b)).Admits exact size)
    (hedge : b' ∈ (cfg.block b).succs ∨
      isDynamicJumpBlock bc cfg b = true ∧ b' ∈ dynamicJumpTargets bc cfg) :
    (computeBlockEntryStates bc cfg b').Admits exact size := by
  have hclosed := DataFlow.solve_closed over_memoryFlow
    (DataFlow.potential stateRank cfg.blocks.length initialStates)
    (@closed_initialStates bc cfg exact)
  have hq : b ∉ (finalStates bc cfg).queue := by
    rw [finalStates_queue]
    exact List.not_mem_nil
  rcases hedge with hsucc | ⟨hdyn, htarget⟩
  · exact hclosed.edge hq h b' hsucc
  · exact hclosed.fromHub (hclosed.toHub hq h hdyn) b' htarget

theorem entryStates_zero : (computeBlockEntryStates bc cfg 0).Admits exact 0 := by
  refine DataFlow.solve_entry over_memoryFlow _ ?_
  rw [initialStates_entry, if_pos rfl]
  refine ⟨0, rfl, le_rfl, ?_⟩
  rintro - e ⟨⟩
  rfl

/-! ## Inside a block -/

def stateAt (bc : Bytecode) (cfg : Cfg) (b i : ℕ) : BlockMemoryState :=
  ((List.range' (cfg.block b).start (i - (cfg.block b).start)).flatMap
    bc.constMemoryAccesses).foldl .access (computeBlockEntryStates bc cfg b)

theorem stateAt_start (b : ℕ) :
    stateAt bc cfg b (cfg.block b).start = computeBlockEntryStates bc cfg b := by
  unfold stateAt
  rw [Nat.sub_self]
  rfl

theorem stateAt_succ {b i : ℕ} (h : (cfg.block b).start ≤ i) :
    stateAt bc cfg b (i + 1) = (bc.constMemoryAccesses i).foldl .access (stateAt bc cfg b i) := by
  unfold stateAt
  rw [Nat.succ_sub h, List.range'_1_concat, List.flatMap_append, List.foldl_append,
    List.flatMap_singleton, Nat.add_sub_cancel' h]

theorem stateAt_stop (b : ℕ) :
    stateAt bc cfg b (cfg.block b).stop =
      blockExitState bc cfg b (computeBlockEntryStates bc cfg b) :=
  (blockExitState_eq b _).symm

/-! ## Saving -/

def saved (s : BlockMemoryState) (l : List (Option ℕ × Option ℕ)) :
    MemorySection × BlockMemoryState :=
  l.foldl (fun p a => (p.1.add (p.2.knownSize.getD 0) p.2.exactKnownSize a, p.2.access a)) ({}, s)

/-- The variables of `save_sections` are those of a state. -/
structure Saving.Holds (v : Saving) (s : BlockMemoryState) : Prop where
  known : s.knownSize = some v.known
  exact : s.exactKnownSize = v.exact

theorem Saving.Holds.access {v : Saving} {s : BlockMemoryState} (h : v.Holds s) (i : ℕ)
    (a : Option ℕ × Option ℕ) : (saveAccess i v a).Holds (s.access a) := by
  constructor
  · show s.knownSize.map _ = _
    rw [h.known]
    rfl
  · show maxSize s.exactKnownSize _ = _
    rw [h.exact]
    rfl

theorem saveInst_foldl {v : Saving} {s : BlockMemoryState} (h : v.Holds s) (i : ℕ)
    (l : List (Option ℕ × Option ℕ)) :
    (l.foldl (saveAccess i) v).Holds (l.foldl .access s) ∧
      (∀ j, j ≠ i → (l.foldl (saveAccess i) v).sections j = v.sections j) ∧
      (l.foldl (saveAccess i) v).sections i =
        (l.foldl (fun p a => (p.1.add (p.2.knownSize.getD 0) p.2.exactKnownSize a, p.2.access a))
          (v.sections i, s)).1 := by
  induction l generalizing v s with
  | nil => exact ⟨h, fun _ _ => rfl, rfl⟩
  | cons a l ih =>
    obtain ⟨hholds, hother, hself⟩ := ih (h.access i a)
    refine ⟨hholds, fun j hj => ?_, ?_⟩
    · rw [List.foldl_cons, hother j hj]
      exact Function.update_of_ne hj _ _
    · rw [List.foldl_cons, hself, List.foldl_cons, h.known, h.exact]
      congr 2
      exact congrArg₂ Prod.mk (Function.update_self i _ _) rfl

theorem saveBlock_foldl {b known : ℕ} {sections : ℕ → MemorySection}
    (hknown : (computeBlockEntryStates bc cfg b).knownSize = some known) (n : ℕ)
    (hnew : ∀ i, (cfg.block b).start ≤ i → i < (cfg.block b).start + n → sections i = {}) :
    let v := (List.range' (cfg.block b).start n).foldl (saveInst bc)
      ⟨known, (computeBlockEntryStates bc cfg b).exactKnownSize, sections⟩
    v.Holds (stateAt bc cfg b ((cfg.block b).start + n)) ∧ ∀ i, v.sections i =
      if (cfg.block b).start ≤ i ∧ i < (cfg.block b).start + n then
        (saved (stateAt bc cfg b i) (bc.constMemoryAccesses i)).1
      else sections i := by
  induction n with
  | zero =>
    refine ⟨?_, fun i => ?_⟩
    · rw [Nat.add_zero, stateAt_start]
      exact ⟨hknown, rfl⟩
    · rw [if_neg (by omega)]
      rfl
  | succ n ih =>
    obtain ⟨hholds, hsections⟩ := ih fun i hs hi => hnew i hs (by omega)
    rw [List.range'_1_concat, List.foldl_append]
    generalize (List.range' (cfg.block b).start n).foldl (saveInst bc) _ = v at *
    obtain ⟨hholds', hother, hself⟩ :=
      saveInst_foldl hholds ((cfg.block b).start + n)
        (bc.constMemoryAccesses ((cfg.block b).start + n))
    refine ⟨?_, fun i => ?_⟩
    · rw [← Nat.add_assoc, stateAt_succ (by omega)]
      exact hholds'
    · by_cases hi : i = (cfg.block b).start + n
      · subst hi
        rw [if_pos (by omega)]
        refine hself.trans ?_
        rw [hsections, if_neg (by omega), hnew _ (by omega) (by omega)]
        rfl
      · refine (hother i hi).trans ?_
        rw [hsections]
        by_cases hlt : (cfg.block b).start ≤ i ∧ i < (cfg.block b).start + n
        · rw [if_pos hlt, if_pos (by omega)]
        · rw [if_neg hlt, if_neg (by omega)]

theorem saveBlock_eq {b : ℕ} {sections : ℕ → MemorySection} (hb : b < cfg.blocks.length)
    (hnew : ∀ i, cfg.Inside b i → sections i = {}) (i : ℕ) :
    (¬cfg.Inside b i →
      saveBlock bc cfg (computeBlockEntryStates bc cfg) sections b i = sections i) ∧
    (cfg.Inside b i → (computeBlockEntryStates bc cfg b).knownSize ≠ none →
      saveBlock bc cfg (computeBlockEntryStates bc cfg) sections b i =
        (saved (stateAt bc cfg b i) (bc.constMemoryAccesses i)).1) := by
  have hstop := Cfg.start_lt_stop hb
  have hlen : (cfg.block b).start + ((cfg.block b).stop - (cfg.block b).start) =
      (cfg.block b).stop := by omega
  unfold saveBlock
  rcases hknown : (computeBlockEntryStates bc cfg b).knownSize with _ | known
  · exact ⟨fun _ => rfl, fun _ h => absurd rfl h⟩
  · obtain ⟨-, hsections⟩ := @saveBlock_foldl bc cfg b known sections hknown
      ((cfg.block b).stop - (cfg.block b).start) fun i hs hi => hnew i ⟨hb, hs, by omega⟩
    rw [hlen] at hsections
    dsimp only
    refine ⟨fun hi => (hsections i).trans (if_neg fun h => hi ⟨hb, h⟩), fun hi _ => ?_⟩
    exact (hsections i).trans (if_pos hi.2)

theorem memorySections_eq {b i : ℕ} (hi : cfg.Inside b i)
    (hknown : (stateAt bc cfg b i).knownSize ≠ none) :
    memorySections bc cfg i = (saved (stateAt bc cfg b i) (bc.constMemoryAccesses i)).1 := by
  have hentry : (computeBlockEntryStates bc cfg b).knownSize ≠ none := by
    intro hnone
    refine hknown ?_
    unfold stateAt
    generalize (List.range' _ _).flatMap bc.constMemoryAccesses = l
    revert hnone
    generalize computeBlockEntryStates bc cfg b = s
    induction l generalizing s with
    | nil => exact fun h => h
    | cons a l ih =>
      intro h
      refine ih (s.access a) ?_
      show s.knownSize.map _ = none
      rw [h]
      rfl
  -- After the first `n` blocks, what is inside them has been saved and the rest is empty.
  have hall : ∀ n, n ≤ cfg.blocks.length → ∀ j,
      ((∀ k < n, ¬cfg.Inside k j) → (List.range n).foldl
        (saveBlock bc cfg (computeBlockEntryStates bc cfg)) (fun _ => {}) j = {}) ∧
      (b < n → j = i → (List.range n).foldl
        (saveBlock bc cfg (computeBlockEntryStates bc cfg)) (fun _ => {}) j =
          (saved (stateAt bc cfg b i) (bc.constMemoryAccesses i)).1) := by
    intro n
    induction n with
    | zero => exact fun _ j => ⟨fun _ => rfl, fun h => absurd h (Nat.not_lt_zero b)⟩
    | succ n ih =>
      intro hn j
      have ih := ih (by omega)
      rw [List.range_succ, List.foldl_append, List.foldl_cons, List.foldl_nil]
      obtain ⟨hout, hin⟩ := @saveBlock_eq bc cfg n _ (by omega)
        (fun k hk => (ih k).1 fun m hm hmk => absurd (hmk.unique hk) (by omega)) j
      refine ⟨fun h => ?_, ?_⟩
      · rw [hout (h n (by omega))]
        exact (ih j).1 fun k hk => h k (by omega)
      · rintro hbn rfl
        by_cases hbn' : b = n
        · subst hbn'
          exact hin hi hentry
        · rw [hout fun h => hbn' (hi.unique h)]
          exact (ih j).2 (by omega) rfl
  exact (hall cfg.blocks.length le_rfl i).2 hi.1 rfl

end Blocks

/-! ## What is saved -/

section Saved

variable {s : BlockMemoryState} {a : Option ℕ × Option ℕ}

theorem maxSize_eq_some {x y : Option ℕ} {n : ℕ} (h : maxSize x y = some n) :
    ∃ m, x = some m ∧ m ≤ n := by
  obtain ⟨m, hm, h⟩ := Option.bind_eq_some_iff.mp h
  obtain ⟨k, -, rfl⟩ := Option.map_eq_some_iff.mp h
  exact ⟨m, hm, le_max_left m k⟩

theorem directResizeSize_add {t : MemorySection} {known : ℕ} {exact : Option ℕ}
    (h : (t.add known exact a).directResizeSize ≠ t.directResizeSize) :
    exactMemorySizeForAccess a = some (t.add known exact a).directResizeSize ∧
      ∃ e, exact = some e ∧ e < (t.add known exact a).directResizeSize := by
  unfold MemorySection.add at h ⊢
  dsimp only at h ⊢
  by_cases hc : known ≠ 0 ∨ (exactMemorySizeForAccess a).any (· ≠ 0) = true
  swap
  · rw [if_neg hc] at h
    exact absurd rfl h
  rw [if_pos hc] at h ⊢
  generalize exactMemorySizeForAccess a = required at h ⊢
  rcases required with _ | size
  · exact absurd rfl h
  · dsimp only at h ⊢
    by_cases hexact : exact.any (· < size) = true
    · rw [if_pos hexact] at h ⊢
      obtain ⟨e, he, hlt⟩ := (Option.any_eq_true _ _).mp hexact
      have hlt := of_decide_eq_true hlt
      have hmax : max t.directResizeSize size = size := by omega
      rw [hmax]
      exact ⟨rfl, e, he, hlt⟩
    · rw [if_neg hexact] at h
      exact absurd rfl h

theorem saved_direct {l : List (Option ℕ × Option ℕ)} (h : (saved s l).1.directResizeSize ≠ 0) :
    ∃ a ∈ l, exactMemorySizeForAccess a = some (saved s l).1.directResizeSize ∧
      ∃ e, s.exactKnownSize = some e ∧ e < (saved s l).1.directResizeSize := by
  -- Over the first accesses, with the exact size after them at least the one before.
  have hall : ∀ l' : List (Option ℕ × Option ℕ),
      (∀ n, (saved s l').2.exactKnownSize = some n → ∃ e, s.exactKnownSize = some e ∧ e ≤ n) ∧
      ((saved s l').1.directResizeSize ≠ 0 → ∃ a ∈ l',
        exactMemorySizeForAccess a = some (saved s l').1.directResizeSize ∧
        ∃ e, s.exactKnownSize = some e ∧ e < (saved s l').1.directResizeSize) := by
    intro l'
    induction l' using List.reverseRecOn with
    | nil => exact ⟨fun n hn => ⟨n, hn, le_rfl⟩, fun h => absurd rfl h⟩
    | append_singleton l' a ih =>
      obtain ⟨hexact, hdirect⟩ := ih
      have hstep : saved s (l' ++ [a]) = ((saved s l').1.add ((saved s l').2.knownSize.getD 0)
          (saved s l').2.exactKnownSize a, (saved s l').2.access a) := by
        unfold saved
        rw [List.foldl_append]
        rfl
      rw [hstep]
      refine ⟨fun n hn => ?_, fun h => ?_⟩
      · obtain ⟨m, hm, hle⟩ := maxSize_eq_some hn
        obtain ⟨e, he, hle'⟩ := hexact m hm
        exact ⟨e, he, hle'.trans hle⟩
      · by_cases hsame : ((saved s l').1.add ((saved s l').2.knownSize.getD 0)
            (saved s l').2.exactKnownSize a).directResizeSize = (saved s l').1.directResizeSize
        · dsimp only at h ⊢
          rw [hsame] at h ⊢
          obtain ⟨a', ha', hrest⟩ := hdirect h
          exact ⟨a', List.mem_append_left _ ha', hrest⟩
        · obtain ⟨hsize, n, hn, hlt⟩ := directResizeSize_add hsame
          obtain ⟨e, he, hle⟩ := hexact n hn
          exact ⟨a, List.mem_append_right _ (List.mem_singleton_self a), hsize, e, he,
            hle.trans_lt hlt⟩
  exact (hall l).2 h

end Saved

end Evm2.Jit
