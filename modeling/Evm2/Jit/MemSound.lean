import Evm2.Jit.MemWords
import Evm2.Interpreter.WordNat

/-!
# Tracked memory words are correct

* **`memWords_correct`**: the states describe the memories of all executions.
-/

namespace Evm2.Jit

/-! ## Bytes of a memory -/

def memWord (M : Bytes) (offset : ℕ) : Word :=
  BitVec.ofNat 256 (ofBeBytes (memorySlice M offset 32))

theorem getD_grow (M : Bytes) (W i : ℕ) : (grow M W).getD i 0 = M.getD i 0 := by
  unfold grow
  by_cases hi : i < M.length
  · rw [List.getD_append _ _ _ _ hi]
  · rw [List.getD_append_right _ _ _ _ (by omega), List.getD_eq_default M 0 (by omega)]
    by_cases hr : i - M.length < 32 * W - M.length
    · rw [List.getD_replicate _ hr]
    · exact List.getD_eq_default _ 0 (by rw [List.length_replicate]; omega)

theorem getD_memorySet {M : Bytes} {offset : ℕ} {bytes : Bytes}
    (h : bytes = [] ∨ offset + bytes.length ≤ M.length) (i : ℕ) :
    (memorySet M offset bytes).getD i 0 =
      if offset ≤ i ∧ i < offset + bytes.length then bytes.getD (i - offset) 0
      else M.getD i 0 := by
  unfold memorySet
  by_cases hnil : bytes = []
  · subst hnil
    have hout : ¬ (offset ≤ i ∧ i < offset + ([] : Bytes).length) := by
      rw [List.length_nil]
      omega
    rw [if_neg hout]
    rfl
  · have hle : offset + bytes.length ≤ M.length := h.resolve_left hnil
    have htake : (M.take offset).length = offset := by
      rw [List.length_take]
      omega
    rw [if_neg (by rwa [List.isEmpty_iff]), List.append_assoc]
    rcases Nat.lt_or_ge i offset with hlt | hge
    · rw [if_neg (by omega), List.getD_append _ _ _ _ (by omega)]
      simp only [List.getD_eq_getElem?_getD, List.getElem?_take_of_lt hlt]
    · rw [List.getD_append_right _ _ _ _ (by omega), htake]
      rcases Nat.lt_or_ge i (offset + bytes.length) with hin | hout
      · rw [if_pos ⟨hge, hin⟩, List.getD_append _ _ _ _ (by omega)]
      · rw [if_neg (by omega), List.getD_append_right _ _ _ _ (by omega)]
        simp only [List.getD_eq_getElem?_getD, List.getElem?_drop]
        congr 2
        omega

theorem length_memorySlice {M : Bytes} {offset len : ℕ} (h : offset + len ≤ M.length) :
    (memorySlice M offset len).length = len := by
  unfold memorySlice
  rw [List.length_take, List.length_drop]
  omega

theorem getD_memorySlice {M : Bytes} {offset len i : ℕ} (hi : i < len) :
    (memorySlice M offset len).getD i 0 = M.getD (offset + i) 0 := by
  unfold memorySlice
  simp only [List.getD_eq_getElem?_getD, List.getElem?_take_of_lt hi, List.getElem?_drop]

theorem ext_getD {a b : Bytes} (hlen : a.length = b.length)
    (h : ∀ i < a.length, a.getD i 0 = b.getD i 0) : a = b := by
  refine List.ext_getElem hlen fun i ha hb => ?_
  have := h i ha
  rwa [List.getD_eq_getElem _ _ ha, List.getD_eq_getElem _ _ hb] at this

theorem memorySlice_eq {M bytes : Bytes} {offset : ℕ} (hM : offset + bytes.length ≤ M.length)
    (h : ∀ i < bytes.length, M.getD (offset + i) 0 = bytes.getD i 0) :
    memorySlice M offset bytes.length = bytes := by
  have hlen := length_memorySlice hM
  refine ext_getD hlen fun i hi => ?_
  rw [getD_memorySlice (by omega)]
  exact h i (by omega)

theorem memWord_eq {M bytes : Bytes} {offset : ℕ} (hbytes : bytes.length = 32)
    (hM : offset + 32 ≤ M.length) (h : ∀ i < 32, M.getD (offset + i) 0 = bytes.getD i 0) :
    memWord M offset = BitVec.ofNat 256 (ofBeBytes bytes) := by
  unfold memWord
  rw [← hbytes] at hM h ⊢
  rw [memorySlice_eq hM h]

theorem memWord_congr {M M' : Bytes} {offset : ℕ} (hM : offset + 32 ≤ M.length)
    (hM' : offset + 32 ≤ M'.length) (h : ∀ i < 32, M'.getD (offset + i) 0 = M.getD (offset + i) 0) :
    memWord M' offset = memWord M offset := by
  refine memWord_eq (length_memorySlice hM) hM' fun i hi => ?_
  rw [getD_memorySlice hi]
  exact h i hi

theorem beBytes_memWord {M : Bytes} {offset : ℕ} (hM : offset + 32 ≤ M.length) :
    beBytes 32 (memWord M offset).toNat = memorySlice M offset 32 := by
  have hlen := length_memorySlice hM
  have hlt : ofBeBytes (memorySlice M offset 32) < 2 ^ 256 := by
    rw [← beBytes_ofBeBytes (memorySlice M offset 32), ofBeBytes_beBytes, hlen]
    exact Nat.mod_lt _ (by decide)
  unfold memWord
  rw [BitVec.toNat_ofNat, Nat.mod_eq_of_lt hlt]
  have := beBytes_ofBeBytes (memorySlice M offset 32)
  rwa [hlen] at this

/-- A memory after a write of `len` bytes at most. -/
structure Wrote (M M' : Bytes) (offset len : ℕ) : Prop where
  length : M.length ≤ M'.length
  outside : ∀ i, i < offset ∨ offset + len ≤ i → M'.getD i 0 = M.getD i 0

/-! ## The states of the analysis -/

namespace MemWords

variable {m m' : MemWords} {M M' : Bytes}

/-- The words are sorted and do not overlap, at offsets that are inline immediates; memory that no
instruction has written has none. -/
structure WF (m : MemWords) : Prop where
  sorted : m.words.Pairwise fun p q => p.1 + 32 ≤ q.1
  inline : ∀ p ∈ m.words, p.1 < INLINE_TAG
  fresh : m.pristine = true → m.words = []

/-- What the state says about a memory. -/
structure Describes (m : MemWords) (M : Bytes) : Prop where
  words : ∀ p ∈ m.words, p.1 + 32 ≤ M.length ∧ p.2.Has (memWord M p.1)
  pristine : m.pristine = true →
    ∀ i, (∀ p ∈ m.words, i < p.1 ∨ p.1 + 32 ≤ i) → M.getD i 0 = 0

/-- The states that the analysis of a code builds. -/
inductive Built (code : Bytes) (jumpdests : ℕ → Bool) : MemWords → Prop
  | entry (stackObserved : Bool) : Built code jumpdests (entry stackObserved)
  | host : Built code jumpdests .default
  | transfer {m : MemWords} (op : OpCode) (inputs : List AbsValue) (h : Built code jumpdests m) :
    Built code jumpdests (m.transfer op inputs code).2
  | join {m m' : MemWords} (h : Built code jumpdests m) (h' : Built code jumpdests m') :
    Built code jumpdests (m.join jumpdests m').1

theorem mem_of_find {offset : ℕ} {value : AbsValue} (h : m.find offset = some value) :
    (offset, value) ∈ m.words := by
  obtain ⟨as, bs, heq, -⟩ := List.lookup_eq_some_iff.mp h
  rw [heq]
  exact List.mem_append_right as List.mem_cons_self

theorem mem_insertWord {offset : ℕ} {value : AbsValue} {p : ℕ × AbsValue}
    (ps : List (ℕ × AbsValue)) :
    p ∈ insertWord offset value ps ↔ p = (offset, value) ∨ p ∈ ps := by
  induction ps with
  | nil => rw [insertWord, List.mem_cons]
  | cons q ps ih =>
    unfold insertWord
    by_cases hq : q.1 < offset
    · rw [if_pos hq, List.mem_cons, ih, List.mem_cons]
      tauto
    · rw [if_neg hq, List.mem_cons]

theorem sorted_insertWord {offset : ℕ} {value : AbsValue} (ps : List (ℕ × AbsValue))
    (hs : ps.Pairwise fun p q => p.1 + 32 ≤ q.1)
    (hdisj : ∀ p ∈ ps, p.1 + 32 ≤ offset ∨ offset + 32 ≤ p.1) :
    (insertWord offset value ps).Pairwise fun p q => p.1 + 32 ≤ q.1 := by
  induction ps with
  | nil => exact List.pairwise_singleton _ _
  | cons q ps ih =>
    have hq := hdisj q List.mem_cons_self
    have hs := List.pairwise_cons.mp hs
    unfold insertWord
    by_cases hlt : q.1 < offset
    · rw [if_pos hlt]
      refine List.pairwise_cons.mpr ⟨fun p hp => ?_, ih hs.2 fun p hp =>
        hdisj p (List.mem_cons_of_mem _ hp)⟩
      rcases (mem_insertWord ps).mp hp with rfl | hp
      · show q.1 + 32 ≤ offset
        omega
      · exact hs.1 p hp
    · rw [if_neg hlt]
      refine List.pairwise_cons.mpr ⟨fun p hp => ?_, List.pairwise_cons.mpr hs⟩
      show offset + 32 ≤ p.1
      rcases List.mem_cons.mp hp with rfl | hp
      · omega
      · have := hs.1 p hp
        omega

theorem clobber_sublist (m : MemWords) (offset : Option (ℕ × ℕ)) (len : Option ℕ) :
    (m.clobber offset len).words.Sublist m.words := by
  unfold clobber
  split
  · exact List.Sublist.refl _
  · exact List.filter_sublist
  · exact List.nil_sublist _

theorem clobber_pristine (m : MemWords) (offset : Option (ℕ × ℕ)) (len : Option ℕ) :
    (m.clobber offset len).pristine = false := by
  unfold clobber
  split <;> rfl

theorem WF.clobber (h : m.WF) (offset : Option (ℕ × ℕ)) (len : Option ℕ) :
    (m.clobber offset len).WF where
  sorted := h.sorted.sublist (clobber_sublist m offset len)
  inline p hp := h.inline p ((clobber_sublist m offset len).subset hp)
  fresh hp := by
    rw [clobber_pristine] at hp
    cases hp

theorem WF.set {offset : ℕ} {value : AbsValue} (h : m.WF) (hp : m.pristine = false)
    (hin : offset < INLINE_TAG)
    (hdisj : ∀ p ∈ m.words, p.1 + 32 ≤ offset ∨ offset + 32 ≤ p.1) : (m.set offset value).WF where
  sorted := sorted_insertWord m.words h.sorted hdisj
  inline p hp := by
    rcases (mem_insertWord m.words).mp hp with rfl | hp
    · exact hin
    · exact h.inline p hp
  fresh hp' := by
    rw [show (m.set offset value).pristine = m.pristine from rfl, hp] at hp'
    cases hp'

theorem outside_of_mem_clobber {offset : Option (ℕ × ℕ)} {len : Option ℕ} {o n : ℕ} (h : m.WF)
    (hoff : ∀ lo hi, offset = some (lo, hi) → lo ≤ o ∧ o ≤ hi) (hlen : ∀ l, len = some l → n ≤ l)
    {p : ℕ × AbsValue} (hp : p ∈ (m.clobber offset len).words) (hn : n ≠ 0) :
    p.1 + 32 ≤ o ∨ o + n ≤ p.1 := by
  unfold clobber at hp
  split at hp
  · have := hlen 0 rfl
    omega
  · next start last _ =>
    obtain ⟨hmem, hkeep⟩ := List.mem_filter.mp hp
    have hin := h.inline p hmem
    have := hoff start last rfl
    rcases (Bool.or_eq_true _ _).mp hkeep with hkeep | hkeep
    · have := of_decide_eq_true hkeep
      omega
    · have hend := of_decide_eq_true hkeep
      unfold writeEnd at hend
      unfold INLINE_TAG at hin
      cases hl : len with
      | none =>
        rw [hl] at hend
        change 2 ^ 32 - 1 ≤ p.1 at hend
        omega
      | some l =>
        have := hlen l hl
        rw [hl] at hend
        change last + l ≤ p.1 at hend
        omega
  · cases hp

theorem Describes.clobber {offset : Option (ℕ × ℕ)} {len : Option ℕ} {o n : ℕ} (hwf : m.WF)
    (h : m.Describes M) (hM : Wrote M M' o n)
    (hoff : ∀ lo hi, offset = some (lo, hi) → lo ≤ o ∧ o ≤ hi)
    (hlen : ∀ l, len = some l → n ≤ l) : (m.clobber offset len).Describes M' where
  words p hp := by
    obtain ⟨hle, hhas⟩ := h.words p ((clobber_sublist m offset len).subset hp)
    have hle' : p.1 + 32 ≤ M'.length := le_trans hle hM.length
    refine ⟨hle', ?_⟩
    rw [memWord_congr hle hle' fun i hi => hM.outside _ ?_]
    · exact hhas
    · rcases Nat.eq_zero_or_pos n with hn | hn
      · omega
      · have := outside_of_mem_clobber hwf hoff hlen hp (by omega)
        omega
  pristine hp := by
    rw [clobber_pristine] at hp
    cases hp

theorem Describes.set {offset : ℕ} {value : AbsValue} (h : m.Describes M)
    (hp : m.pristine = false) (hle : offset + 32 ≤ M.length) (hv : value.Has (memWord M offset)) :
    (m.set offset value).Describes M where
  words p hmem := by
    rcases (mem_insertWord m.words).mp hmem with rfl | hmem
    · exact ⟨hle, hv⟩
    · exact h.words p hmem
  pristine hp' := by
    rw [show (m.set offset value).pristine = m.pristine from rfl, hp] at hp'
    cases hp'

theorem Describes.grow (h : m.Describes M) (W : ℕ) : m.Describes (grow M W) where
  words p hp := by
    obtain ⟨hle, hhas⟩ := h.words p hp
    have hle' : p.1 + 32 ≤ (Evm2.grow M W).length := by
      rw [length_grow]
      omega
    refine ⟨hle', ?_⟩
    rw [memWord_congr hle hle' fun i _ => getD_grow M W _]
    exact hhas
  pristine hp i hi := by
    rw [getD_grow]
    exact h.pristine hp i hi

theorem describes_default (M : Bytes) : MemWords.default.Describes M where
  words p hp := by cases hp
  pristine hp := by cases hp

theorem describes_entry (stackObserved : Bool) (h : stackObserved = false → M = []) :
    (entry stackObserved).Describes M where
  words p hp := by cases hp
  pristine hp i _ := by
    rw [h (by simpa [entry] using hp)]
    rfl

/-! ## Joins -/

theorem joinWord_eq_some {jumpdests : ℕ → Bool} {p q : ℕ × AbsValue}
    (h : joinWord jumpdests m' p = some q) :
    q.1 = p.1 ∧ ∃ value, (p.1, value) ∈ m'.words ∧ q.2 = p.2.join jumpdests value := by
  unfold joinWord at h
  obtain ⟨value, hfind, h⟩ := Option.bind_eq_some_iff.mp h
  by_cases htop : p.2.join jumpdests value = .top
  · rw [if_pos htop] at h
    cases h
  · rw [if_neg htop] at h
    cases h
    exact ⟨rfl, value, mem_of_find hfind, rfl⟩

theorem mem_join {jumpdests : ℕ → Bool} {q : ℕ × AbsValue}
    (h : q ∈ (m.join jumpdests m').1.words) :
    ∃ a b, (q.1, a) ∈ m.words ∧ (q.1, b) ∈ m'.words ∧ q.2 = a.join jumpdests b := by
  obtain ⟨p, hp, hq⟩ := List.mem_filterMap.mp h
  obtain ⟨hoff, value, hmem, hval⟩ := joinWord_eq_some hq
  rw [hoff]
  exact ⟨p.2, value, hp, hmem, hval⟩

theorem WF.join (h : m.WF) (jumpdests : ℕ → Bool) (m' : MemWords) :
    (m.join jumpdests m').1.WF where
  sorted := by
    refine h.sorted.filterMap _ fun p p' hlt q hq q' hq' => ?_
    rw [(joinWord_eq_some hq).1, (joinWord_eq_some hq').1]
    exact hlt
  inline q hq := by
    obtain ⟨a, -, ha, -⟩ := mem_join hq
    exact h.inline (q.1, a) ha
  fresh hp := by
    have hpr : m.pristine = true := ((Bool.and_eq_true _ _).mp hp).1
    show m.words.filterMap _ = []
    rw [h.fresh hpr]
    rfl

/-- **A join describes what either of its arguments describes.** -/
theorem describes_join (hm : m.WF) (hm' : m'.WF) (jumpdests : ℕ → Bool)
    (h : m.Describes M ∨ m'.Describes M) : (m.join jumpdests m').1.Describes M where
  words q hq := by
    obtain ⟨a, b, ha, hb, heq⟩ := mem_join hq
    rw [heq]
    rcases h with h | h
    · exact ⟨(h.words _ ha).1, AbsValue.has_join jumpdests (.inl (h.words _ ha).2)⟩
    · exact ⟨(h.words _ hb).1, AbsValue.has_join jumpdests (.inr (h.words _ hb).2)⟩
  pristine hp i _ := by
    obtain ⟨hpr, hpr'⟩ := (Bool.and_eq_true _ _).mp hp
    -- nothing is tracked of a memory that has not been written
    rcases h with h | h
    · refine h.pristine hpr i ?_
      rw [hm.fresh hpr]
      exact fun _ hp => absurd hp List.not_mem_nil
    · refine h.pristine hpr' i ?_
      rw [hm'.fresh hpr']
      exact fun _ hp => absurd hp List.not_mem_nil

end MemWords

/-! ## Operands -/

section Operands

variable {inputs : List AbsValue} {ws : List Word} {i n lo hi : ℕ} {w : Word}

theorem immAt_eq_some (h : immAt inputs i = some n) :
    n < INLINE_TAG ∧ boundsAt inputs i = some (n, n) ∧
      ∃ c : Word, inputAt inputs i = .const c ∧ c.toNat = n := by
  unfold boundsAt
  obtain ⟨c, hc, hn⟩ := Option.bind_eq_some_iff.mp h
  generalize inputAt inputs i = v at hc ⊢
  cases v with
  | const c' =>
    cases hc
    have hb : (AbsValue.const c).bounds = some (n, n) := by
      show (getInline c).map _ = _
      rw [hn]
      rfl
    unfold getInline at hn
    by_cases hlt : c.toNat < INLINE_TAG
    · rw [if_pos hlt] at hn
      cases hn
      exact ⟨hlt, hb, c, rfl, rfl⟩
    · rw [if_neg hlt] at hn
      cases hn
  | constSet _ | range _ | top => cases hc

theorem lenAt_of_immAt (h : immAt inputs i = some n) : lenAt inputs i = some n := by
  unfold lenAt
  rw [(immAt_eq_some h).2.1]
  rfl

variable (hws : List.Forall₂ AbsValue.Has inputs.reverse ws) (hget : ws[i]? = some w)
include hws hget

theorem has_inputAt : (inputAt inputs i).Has w := by
  unfold inputAt
  generalize inputs.reverse = vs at hws
  induction hws generalizing i with
  | nil =>
    rw [List.getElem?_nil] at hget
    cases hget
  | cons hv _ ih =>
    cases i with
    | zero =>
      cases hget
      exact hv
    | succ i => exact ih hget

theorem toNat_of_immAt (h : immAt inputs i = some n) : w.toNat = n := by
  obtain ⟨-, -, c, hc, hn⟩ := immAt_eq_some h
  have hw := has_inputAt hws hget
  rw [hc] at hw
  rw [show w = c from hw, hn]

theorem within_boundsAt (h : boundsAt inputs i = some (lo, hi)) :
    lo ≤ w.toNat ∧ w.toNat ≤ hi := by
  have := (has_inputAt hws hget).within h
  exact ⟨this.1, this.2.1⟩

theorem le_of_lenAt (h : lenAt inputs i = some n) : w.toNat ≤ n := by
  obtain ⟨b, hb, rfl⟩ := Option.map_eq_some_iff.mp h
  exact (within_boundsAt hws hget hb).2

end Operands

/-! ## Instructions -/

theorem cover_touch {offset len : ℕ} (W : ℕ) (hlen : len ≠ 0) :
    offset + len ≤ 32 * touch W (offset, len) := by
  unfold touch
  rw [if_neg hlen]
  have : offset + len ≤ 32 * numWords (offset + len) := by
    unfold numWords
    omega
  have := le_max_right W (numWords (offset + len))
  show offset + len ≤ 32 * max W (numWords (offset + len))
  omega

theorem cover_writeRange (op : OpCode) (ws : List Word) (W : ℕ) :
    (op.writeRange ws).2 = 0 ∨
      (op.writeRange ws).1 + (op.writeRange ws).2 ≤ 32 * op.wordsAfter ws W := by
  refine or_iff_not_imp_left.mpr fun hne => ?_
  unfold OpCode.writeRange at hne ⊢
  split at hne
  case h_7 dst src len =>
    -- `MCOPY` resizes for the larger one of its offsets
    have : max dst.toNat src.toNat + len.toNat ≤
        32 * touch W (max dst.toNat src.toNat, len.toNat) := cover_touch W hne
    have := le_max_left dst.toNat src.toNat
    show dst.toNat + len.toNat ≤ 32 * touch W (max dst.toNat src.toNat, len.toNat)
    omega
  case h_12 => exact absurd rfl hne
  all_goals exact cover_touch _ hne

namespace MemWords

variable {m m' : MemWords} {M M' : Bytes} {op : OpCode} {inputs : List AbsValue} {ws : List Word}
  {code : Bytes}

theorem wrote_memorySet {offset n W : ℕ} {bytes : Bytes} (hlen : bytes.length ≤ n)
    (hcover : bytes = [] ∨ offset + bytes.length ≤ (grow M W).length) :
    Wrote M (memorySet (grow M W) offset bytes) offset n where
  length := by
    rw [length_memorySet hcover, length_grow]
    exact le_max_left _ _
  outside i hi := by
    rw [getD_memorySet hcover, if_neg (by omega), getD_grow]

theorem WF.disjoint (h : m.WF) {p q : ℕ × AbsValue} (hp : p ∈ m.words) (hq : q ∈ m.words)
    (hne : p ≠ q) : p.1 + 32 ≤ q.1 ∨ q.1 + 32 ≤ p.1 := by
  let R (p q : ℕ × AbsValue) : Prop := p.1 + 32 ≤ q.1 ∨ q.1 + 32 ≤ p.1
  have : Std.Symm R := ⟨fun _ _ h => h.symm⟩
  have hs : m.words.Pairwise R := h.sorted.imp fun h => .inl h
  exact hs.forall hp hq hne

theorem getD_of_baseWord {offset i : ℕ} {base : Word} (hwf : m.WF) (h : m.Describes M)
    (hbase : m.baseWord offset = some base) (hi : i < 32) :
    M.getD (offset + i) 0 = (beBytes 32 base.toNat).getD i 0 := by
  unfold baseWord at hbase
  split at hbase
  · next value hfind =>
    obtain ⟨hle, hhas⟩ := h.words _ (mem_of_find hfind)
    rw [← hhas.eq_of_asConst hbase, beBytes_memWord hle, getD_memorySlice hi]
  · by_cases hp : m.pristine
    · rw [if_pos hp] at hbase
      cases hbase
      have hzero : beBytes 32 (0 : Word).toNat = List.replicate 32 0 := by decide
      rw [hzero, List.getD_replicate _ hi]
      refine h.pristine hp _ ?_
      rw [hwf.fresh hp]
      exact fun _ hmem => absurd hmem List.not_mem_nil
    · rw [if_neg hp] at hbase
      cases hbase

theorem codecopyWord_eq_some {dest src len : Option ℕ} {r : ℕ × Word}
    (h : m.codecopyWord dest src len code = some r) :
    ∃ d s l base, dest = some d ∧ src = some s ∧ len = some l ∧ 1 ≤ l ∧ l ≤ 32 ∧
      r.1 + 32 = d + l ∧ m.baseWord r.1 = some base ∧ r.2 = copiedWord base s l code := by
  unfold codecopyWord at h
  obtain ⟨d, hd, h⟩ := Option.bind_eq_some_iff.mp h
  obtain ⟨s, hs, h⟩ := Option.bind_eq_some_iff.mp h
  obtain ⟨l, hl, h⟩ := Option.bind_eq_some_iff.mp h
  obtain ⟨offset, hoff, h⟩ := Option.bind_eq_some_iff.mp h
  obtain ⟨base, hbase, h⟩ := Option.bind_eq_some_iff.mp h
  cases h
  unfold endOffset at hoff
  by_cases hc : d + l < 2 ^ 32 ∧ 32 ≤ d + l ∧ 1 ≤ l ∧ l ≤ 32
  · rw [if_pos hc] at hoff
    cases hoff
    refine ⟨d, s, l, base, hd, hs, hl, hc.2.2.1, hc.2.2.2, ?_, hbase, rfl⟩
    show d + l - 32 + 32 = d + l
    omega
  · rw [if_neg hc] at hoff
    cases hoff

theorem memWord_copied {d s l offset : ℕ} {base : Word} (hl : 1 ≤ l) (hl' : l ≤ 32)
    (hoff : offset + 32 = d + l) (hle : offset + 32 ≤ M.length)
    (hbase : ∀ i < 32, M.getD (offset + i) 0 = (beBytes 32 base.toNat).getD i 0) :
    memWord (memorySet M d (paddedSlice code s l)) offset = copiedWord base s l code := by
  have hlen : (paddedSlice code s l).length = l := length_paddedSlice code s l
  have hcover : d + (paddedSlice code s l).length ≤ M.length := by omega
  have htake : ((beBytes 32 base.toNat).take (32 - l)).length = 32 - l := by
    rw [List.length_take, length_beBytes]
    omega
  refine memWord_eq ?_ ?_ fun i hi => ?_
  · rw [List.length_append, htake, hlen]
    omega
  · rwa [length_memorySet (.inr hcover)]
  · rw [getD_memorySet (.inr hcover), hlen]
    by_cases hin : i < 32 - l
    · rw [if_neg (by omega), List.getD_append _ _ _ _ (by omega), hbase i hi]
      simp only [List.getD_eq_getElem?_getD, List.getElem?_take_of_lt hin]
    · rw [if_pos (by omega), List.getD_append_right _ _ _ _ (by omega), htake]
      congr 1
      omega

theorem WF.transfer (h : m.WF) (op : OpCode) (inputs : List AbsValue) (code : Bytes) :
    (m.transfer op inputs code).2.WF := by
  have hmstore : (m.mstore inputs).WF := by
    unfold mstore
    cases himm : immAt inputs 0 with
    | none => exact h.clobber _ _
    | some offset =>
      obtain ⟨hin, hb, -⟩ := immAt_eq_some himm
      show (if _ then _ else _ : MemWords).WF
      split_ifs
      · refine (h.clobber _ _).set (clobber_pristine _ _ _) hin fun p hp => ?_
        rw [hb] at hp
        refine @outside_of_mem_clobber m _ _ offset 32 h ?_ ?_ p hp (by decide)
        · rintro lo hi ⟨⟩
          exact ⟨le_rfl, le_rfl⟩
        · rintro l ⟨⟩
          exact le_rfl
      · exact h.clobber _ _
  have hcodecopy : (m.codecopy inputs code).WF := by
    unfold codecopy
    split
    · next offset value hword =>
      obtain ⟨d, s, l, base, hd, -, hl, hl1, hl32, hoff, hbase, -⟩ := codecopyWord_eq_some hword
      obtain ⟨hin, hb, -⟩ := immAt_eq_some hd
      rw [hb, lenAt_of_immAt hl]
      change offset + 32 = d + l at hoff
      have hout : ∀ p ∈ (m.clobber (some (d, d)) (some l)).words, p.1 + 32 ≤ d ∨ d + l ≤ p.1 := by
        refine fun p hp => outside_of_mem_clobber h ?_ ?_ hp (by omega)
        · rintro lo hi ⟨⟩
          exact ⟨le_rfl, le_rfl⟩
        · rintro l' ⟨⟩
          exact le_rfl
      refine (h.clobber _ _).set (clobber_pristine _ _ _) (by omega) fun p hp => ?_
      have hmem := (clobber_sublist m (some (d, d)) (some l)).subset hp
      have := hout p hp
      -- the word was tracked before, or none was
      unfold baseWord at hbase
      split at hbase
      · next v hfind =>
        refine h.disjoint hmem (mem_of_find hfind) fun heq => ?_
        rw [heq] at this
        change offset + 32 ≤ d ∨ d + l ≤ offset at this
        omega
      · by_cases hp : m.pristine
        · rw [h.fresh hp] at hmem
          cases hmem
        · rw [if_neg hp] at hbase
          cases hbase
    · exact h.clobber _ _
  cases op with
  | mstore => exact hmstore
  | codecopy => exact hcodecopy
  | mstore8 | calldatacopy | returndatacopy | mcopy | extcodecopy | call | callcode | delegatecall
  | staticcall => exact h.clobber _ _
  | _ => exact h

/-- **The words of all states are sorted and do not overlap.** -/
theorem Built.wf {jumpdests : ℕ → Bool} (h : Built code jumpdests m) : m.WF := by
  induction h with
  | entry b | host => exact ⟨.nil, nofun, fun _ => rfl⟩
  | transfer op inputs _ ih => exact ih.transfer op inputs code
  | join _ _ ih _ => exact ih.join jumpdests _

/-! ## Executions -/

section Executions

variable {W : ℕ} {bytes : Bytes} (hwf : m.WF)
  (hws : List.Forall₂ AbsValue.Has inputs.reverse ws) (h : m.Describes M)
include hwf hws h

theorem describes_clobberAt {i n : ℕ} {offset : Word} {limit : Option ℕ}
    (hi : ws[i]? = some offset) (hlimit : ∀ l, limit = some l → n ≤ l)
    (hM : Wrote M M' offset.toNat n) : (m.clobber (boundsAt inputs i) limit).Describes M' :=
  h.clobber hwf hM (fun _ _ hb => within_boundsAt hws hi hb) hlimit

theorem describes_mstore {offset value : Word} (hget : ws = [offset, value])
    (hcover : offset.toNat + 32 ≤ M.length) :
    (m.mstore inputs).Describes (memorySet M offset.toNat (beBytes 32 value.toNat)) := by
  have hlen : (beBytes 32 value.toNat).length = 32 := length_beBytes 32 _
  have hc : offset.toNat + (beBytes 32 value.toNat).length ≤ M.length := by omega
  have hM : Wrote M (memorySet M offset.toNat (beBytes 32 value.toNat)) offset.toNat 32 := by
    refine ⟨Nat.le_of_eq (length_memorySet (.inr hc)).symm, fun i hi => ?_⟩
    rw [getD_memorySet (.inr hc), if_neg (by omega)]
  have hclobber : (m.clobber (boundsAt inputs 0) (some 32)).Describes _ :=
    describes_clobberAt hwf hws h (by rw [hget]; rfl) (by rintro l ⟨⟩; exact le_rfl) hM
  unfold mstore
  cases himm : immAt inputs 0 with
  | none => exact hclobber
  | some n =>
    have hn : offset.toNat = n := toNat_of_immAt hws (by rw [hget]; rfl) himm
    show (if _ then _ else _ : MemWords).Describes _
    split_ifs
    · rw [hn] at hclobber hcover hc ⊢
      refine hclobber.set (clobber_pristine _ _ _) ?_ ?_
      · rwa [length_memorySet (.inr hc)]
      · -- the word read back is the operand
        have hword : memWord (memorySet M n (beBytes 32 value.toNat)) n = value := by
          rw [memWord_eq hlen (by rwa [length_memorySet (.inr hc)]) fun i hi => ?_]
          · have hlt : value.toNat < 256 ^ 32 := value.isLt
            rw [ofBeBytes_beBytes, Nat.mod_eq_of_lt hlt, BitVec.ofNat_toNat, BitVec.setWidth_eq]
          · rw [getD_memorySet (.inr hc), if_pos (by omega), Nat.add_sub_cancel_left]
        rw [hword]
        exact has_inputAt hws (by rw [hget]; rfl)
    · exact hclobber

theorem describes_codecopy {dest src len : Word} (hget : ws = [dest, src, len])
    (hlen : bytes.length ≤ len.toNat)
    (hbytes : len ≠ 0 → bytes = paddedSlice code src.toUsizeSaturated len.toNat)
    (hcover : bytes = [] ∨ dest.toNat + bytes.length ≤ (Evm2.grow M W).length) :
    (m.codecopy inputs code).Describes (memorySet (Evm2.grow M W) dest.toNat bytes) := by
  have h0 : ws[0]? = some dest := by rw [hget]; rfl
  have h1 : ws[1]? = some src := by rw [hget]; rfl
  have h2 : ws[2]? = some len := by rw [hget]; rfl
  have hM : Wrote M (memorySet (Evm2.grow M W) dest.toNat bytes) dest.toNat len.toNat :=
    wrote_memorySet hlen hcover
  have hclobber : (m.clobber (boundsAt inputs 0) (lenAt inputs 2)).Describes _ :=
    describes_clobberAt hwf hws h h0 (fun l hl => le_of_lenAt hws h2 hl) hM
  unfold codecopy
  split
  · next offset value hword =>
    obtain ⟨d, s, l, base, hd, hs, hl, hl1, hl32, hoff, hbase, hvalue⟩ :=
      codecopyWord_eq_some hword
    change offset + 32 = d + l at hoff
    have hdest : dest.toNat = d := toNat_of_immAt hws h0 hd
    have hsrc : src.toUsizeSaturated = s := by
      have hin := (immAt_eq_some hs).1
      have heq := toNat_of_immAt hws h1 hs
      unfold INLINE_TAG at hin
      rw [Word.toUsizeSaturated_of_lt (by omega), heq]
    have hlen' : len.toNat = l := toNat_of_immAt hws h2 hl
    have hne : len ≠ 0 := by
      rintro rfl
      change 0 = l at hlen'
      omega
    have hb : bytes = paddedSlice code s l := by rw [hbytes hne, hsrc, hlen']
    have hblen : bytes.length = l := by rw [hb, length_paddedSlice]
    have hc : d + l ≤ (Evm2.grow M W).length := by
      rcases hcover with hnil | hc
      · rw [hnil] at hblen
        change 0 = l at hblen
        omega
      · omega
    have hcopied : memWord (memorySet (Evm2.grow M W) d (paddedSlice code s l)) offset = value := by
      rw [show value = copiedWord base s l code from hvalue]
      refine memWord_copied hl1 hl32 hoff (by omega) fun i hi => ?_
      rw [getD_grow]
      exact getD_of_baseWord hwf h hbase hi
    refine hclobber.set (clobber_pristine _ _ _) ?_ ?_
    · rw [length_memorySet hcover]
      omega
    · show memWord _ offset = value
      rw [hdest, hb, hcopied]
  · exact hclobber

/-- **The transferred state describes the memory after the instruction.** -/
theorem describes_transfer (hlen : ws.length = op.stackIo.1) (hbytes : Writes code op ws bytes) :
    (m.transfer op inputs code).2.Describes
      (memorySet (Evm2.grow M (op.wordsAfter ws W)) (op.writeRange ws).1 bytes) := by
  have hb := hbytes.1
  have hcover : bytes = [] ∨
      (op.writeRange ws).1 + bytes.length ≤ (Evm2.grow M (op.wordsAfter ws W)).length := by
    rcases cover_writeRange op ws W with hz | hc
    · exact .inl (List.eq_nil_of_length_eq_zero (by omega))
    · rw [length_grow]
      exact .inr (by omega)
  have hM : Wrote M _ (op.writeRange ws).1 (op.writeRange ws).2 :=
    wrote_memorySet hbytes.1 hcover
  have hsame : (op.writeRange ws).2 = 0 → m.Describes
      (memorySet (Evm2.grow M (op.wordsAfter ws W)) (op.writeRange ws).1 bytes) := by
    intro hz
    rw [List.eq_nil_of_length_eq_zero (show bytes.length = 0 by omega)]
    exact h.grow _
  cases op with
  | mload => exact hsame rfl
  | mstore =>
    match ws, hlen with
    | [offset, value], _ =>
      rw [hbytes.2.1 offset value rfl rfl]
      refine describes_mstore hwf hws (h.grow _) rfl ?_
      rw [length_grow]
      have := @cover_touch offset.toNat 32 W (by decide)
      change _ ≤ max _ (32 * touch W (offset.toNat, 32))
      omega
  | codecopy =>
    match ws, hlen with
    | [dest, src, len], _ =>
      exact describes_codecopy hwf hws h rfl hb (hbytes.2.2 dest src len rfl rfl) hcover
  | mstore8 =>
    match ws, hlen with
    | [offset, value], _ =>
      exact describes_clobberAt hwf hws h rfl (by rintro l ⟨⟩; exact le_rfl) hM
  | calldatacopy | returndatacopy | mcopy =>
    match ws, hlen with
    | [a, b, c], _ =>
      exact describes_clobberAt hwf hws h rfl (fun l hl => le_of_lenAt hws rfl hl) hM
  | extcodecopy =>
    match ws, hlen with
    | [a, b, c, d], _ =>
      exact describes_clobberAt hwf hws h rfl (fun l hl => le_of_lenAt hws rfl hl) hM
  | call | callcode =>
    match ws, hlen with
    | [a, b, c, d, e, f, g], _ =>
      exact describes_clobberAt hwf hws h rfl (fun l hl => le_of_lenAt hws rfl hl) hM
  | delegatecall | staticcall =>
    match ws, hlen with
    | [a, b, c, d, e, f], _ =>
      exact describes_clobberAt hwf hws h rfl (fun l hl => le_of_lenAt hws rfl hl) hM
  | _ => exact hsame rfl

end Executions

end MemWords

open Instr (Triple)

theorem triple_exchange_memory {M : Bytes} (n k : ℕ) :
    Triple (fun f => f.memory = M) (Instr.exchange n k : SimpleInstr Unit) fun _ f =>
      f.memory = M :=
  .read fun _ _ => .ite (fun _ => .stop) fun _ => .modify fun _ h => h

section Correct

variable [Keccak] {env : FrameEnv} {m : MemWords} {inputs : List AbsValue} {ws rest : List Word}
  {M : Bytes} {W : ℕ}

theorem triple_describes {op : OpCode} (hwf : m.WF) (hlen : inputs.length = op.stackIo.1)
    (hws : List.Forall₂ AbsValue.Has inputs.reverse ws) (h : m.Describes M) :
    Triple (Looks (ws ++ rest) M W) (SysInstr.execute env op) fun _ f =>
      (m.transfer op inputs env.message.code.originalBytes).2.Describes f.memory := by
  have hlen' : ws.length = op.stackIo.1 := by rw [← hws.length_eq, List.length_reverse, hlen]
  by_cases hn : op = .swapn
  · subst hn
    refine (SimpleInstr.triple_lift (.bind SimpleInstr.triple_decodeImmediate fun n =>
      triple_exchange_memory 0 n)).conseq (fun f hf => hf.memory) fun _ f hf => ?_
    rw [hf]
    exact h
  · by_cases hx : op = .exchange
    · subst hx
      refine (SimpleInstr.triple_lift (.bind SimpleInstr.triple_decodeImmediate
        fun nm : ℕ × ℕ => triple_exchange_memory nm.1 nm.2)).conseq
        (fun f (hf : Looks (ws ++ rest) M W f) => hf.memory) fun _ f hf => ?_
      rw [hf]
      exact h
    · refine (SysInstr.triple_execute hlen' hn hx).conseq (fun _ hf => hf) fun _ f hf => ?_
      obtain ⟨bytes, hbytes, outs, -, hf⟩ := hf
      rw [hf.memory]
      exact MemWords.describes_transfer hwf hws h hlen' hbytes

theorem triple_answered {v : AbsValue} (hlen : inputs.length = OpCode.mload.stackIo.1)
    (hv : (m.transfer .mload inputs env.message.code.originalBytes).1 = some v)
    (hws : List.Forall₂ AbsValue.Has inputs.reverse ws) (h : m.Describes M) :
    Triple (Looks (ws ++ rest) M W) (SysInstr.execute env .mload) fun _ f =>
      ∃ w, v.Has w ∧ Looks (w :: rest) M W f := by
  have hlen' : ws.length = 1 := by rw [← hws.length_eq, List.length_reverse, hlen]; rfl
  obtain ⟨n, himm, hfind⟩ := Option.bind_eq_some_iff.mp hv
  obtain ⟨hle, hhas⟩ := h.words _ (MemWords.mem_of_find hfind)
  match ws, hlen' with
  | [offset], _ =>
    have hn : offset.toNat = n := toNat_of_immAt hws rfl himm
    intro f hf
    -- the memory covers the word already
    have htouch : touch W (offset.toNat, 32) = W := by
      have hM := hf.length
      change n + 32 ≤ M.length at hle
      have hle : numWords (offset.toNat + 32) ≤ W := by
        unfold numWords
        omega
      exact max_eq_left hle
    have hload : Triple (Looks (offset :: rest) M W) (SysInstr.execute env .mload) _ :=
      SimpleInstr.triple_lift SimpleInstr.triple_mload
    suffices hpost : Triple (Looks (offset :: rest) M W) (SysInstr.execute env .mload)
        fun _ f => ∃ w, v.Has w ∧ Looks (w :: rest) M W f from hpost f hf
    refine hload.conseq (fun _ hf => hf) fun _ f' hf' => ?_
    rw [htouch, grow_self hf.length] at hf'
    refine ⟨_, ?_, hf'⟩
    unfold SimpleInstr.wordAt
    rw [htouch, grow_self hf.length, hn]
    exact hhas

end Correct

/-- **Tracked memory words are correct**: every instruction that does not stop the frame leads from
a memory that a state describes to one that the transferred state describes, a load answered from a
tracked word pushes a word in its value, and a join describes what either state does. -/
theorem memWords_correct [Keccak] {env : FrameEnv} {jumpdests : ℕ → Bool} {m : MemWords}
    (hm : m.Built env.message.code.originalBytes jumpdests) :
    (m.words.Pairwise fun p q => p.1 + 32 ≤ q.1) ∧
    (∀ stackObserved M, (stackObserved = false → M = []) →
      (MemWords.entry stackObserved).Describes M) ∧
    (∀ M, MemWords.default.Describes M) ∧
    (∀ op inputs ws rest M W, inputs.length = op.stackIo.1 →
      List.Forall₂ AbsValue.Has inputs.reverse ws → m.Describes M →
      Triple (Looks (ws ++ rest) M W) (SysInstr.execute env op) fun _ f =>
        (m.transfer op inputs env.message.code.originalBytes).2.Describes f.memory) ∧
    (∀ inputs ws rest M W v, inputs.length = OpCode.mload.stackIo.1 →
      (m.transfer .mload inputs env.message.code.originalBytes).1 = some v →
      List.Forall₂ AbsValue.Has inputs.reverse ws → m.Describes M →
      Triple (Looks (ws ++ rest) M W) (SysInstr.execute env .mload) fun _ f =>
        ∃ w, v.Has w ∧ Looks (w :: rest) M W f) ∧
    ∀ m' M, m'.Built env.message.code.originalBytes jumpdests → m.Describes M ∨ m'.Describes M →
      (m.join jumpdests m').1.Describes M :=
  ⟨hm.wf.sorted, fun b _ hb => MemWords.describes_entry b hb, MemWords.describes_default,
    fun _ _ _ _ _ _ hlen hws h => triple_describes hm.wf hlen hws h,
    fun _ _ _ _ _ _ hlen hv hws h => triple_answered hlen hv hws h,
    fun _ _ hm' h => MemWords.describes_join hm.wf hm'.wf jumpdests h⟩

def storedFive : MemWords := ((MemWords.entry false).transfer .mstore [.const 5, .const 0] []).2

theorem memWords_correct_store :
    storedFive = ⟨[(0, .const 5)], false⟩ ∧
      letI := Keccak.const
      Triple (Looks [0] (beBytes 32 5) 1)
        (SysInstr.execute
          ⟨.base .frontier, ⟨fun _ => none⟩, .default, .default, .default⟩ .mload)
        fun _ f => ∃ w, (AbsValue.const 5).Has w ∧ Looks [w] (beBytes 32 5) 1 f := by
  refine ⟨by decide, ?_⟩
  have h := (@memWords_correct Keccak.const
    ⟨.base .frontier, ⟨fun _ => none⟩, .default, .default, .default⟩ (fun _ => false) storedFive
      (.transfer .mstore _ (.entry false))).2.2.2.2.1
  refine h [.const 0] [0] [] (beBytes 32 5) 1 (.const 5) rfl (by decide) (.cons rfl .nil)
    ⟨?_, nofun⟩
  rintro p ⟨⟩
  · exact ⟨by decide, by decide⟩
  · rename_i hp
    cases hp

end Evm2.Jit
