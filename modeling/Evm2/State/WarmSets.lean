import Evm2.State.PrewarmSet

/-!
# The pre-warmed set as two plain sets

`PrewarmSet` spreads one set of addresses over a bit vector, a short list and a map, and keeps a
shortcut for slots. It behaves as a set of addresses and a set of slots.
-/

namespace Evm2

/-! ## Operations and their meaning -/

/-- An operation on the set. -/
inductive PrewarmOp
  | warm (a : Address)
  | warmStorage (a : Address) (slots : List Word)
  | warmShortAddresses (addresses : BitVec 320)
  | remove (a : Address)
  | clear

/-- Warm addresses, and warm slots. -/
structure WarmSets where
  addresses : Set Address
  slots : Set (Address × Word)

namespace WarmSets

def empty : WarmSets := ⟨∅, ∅⟩

def apply (w : WarmSets) : PrewarmOp → WarmSets
  | .warm a => { w with addresses := insert a w.addresses }
  | .warmStorage a slots =>
    ⟨insert a w.addresses, w.slots ∪ { p | p.1 = a ∧ p.2 ∈ slots }⟩
  | .warmShortAddresses bits =>
    { w with addresses := w.addresses ∪ { a | a.toNat < SHORT_ADDRESS_CAP ∧ bits.getLsbD a.toNat } }
  | .remove a => ⟨w.addresses \ {a}, w.slots \ { p | p.1 = a }⟩
  | .clear => empty

end WarmSets

/-! ## The inline list -/

theorem PrewarmSet.swapRemove_perm (l : List Address) (a : Address) :
    (swapRemove l a).Perm (l.erase a) := by
  unfold swapRemove
  by_cases ha : a ∈ l
  · obtain ⟨p, q, rfl, hp⟩ := List.eq_append_cons_of_mem ha
    have hindex : (p ++ a :: q).idxOf? a = some p.length := by
      rw [List.idxOf?, List.findIdx?_append, List.findIdx?_eq_none_iff.mpr]
      · simp [List.findIdx?_cons]
      · intro x hx
        simpa using fun h : x = a => hp (h ▸ hx)
    rw [hindex, List.erase_append_right _ hp, List.erase_cons_head]
    rcases List.eq_nil_or_concat q with rfl | ⟨q', z, rfl⟩
    · simp
    · have hlist : p ++ a :: q'.concat z = (p ++ a :: q') ++ [z] := by simp
      have hset : (p ++ a :: q'.concat z).set p.length z = (p ++ z :: q') ++ [z] := by simp
      have hlast : (p ++ a :: q'.concat z).getLastD a = z := by
        rw [hlist, List.getLastD_concat]
      simp only [hlast, hset, List.dropLast_concat]
      rw [List.concat_eq_append]
      exact List.Perm.append_left p (List.perm_append_singleton z q').symm
  · rw [List.idxOf?_eq_none_iff.mpr ha, List.erase_of_not_mem ha]

/-! ## One operation -/

namespace PrewarmSet

def slotsOf (w : PrewarmSet) (a : Address) : List Word := (w.accessList.lookup a).getD []

/-- The inline list has no duplicates, and if the shortcut is not set there are no warm slots. -/
structure WellFormed (w : PrewarmSet) : Prop where
  nodup : w.inlined.Nodup
  shortcut : w.hasStorage = false → ∀ a, w.slotsOf a = []

theorem WellFormed.isStorageWarm_iff {w : PrewarmSet} (h : w.WellFormed) (a : Address) (k : Word) :
    w.isStorageWarm a k = true ↔ k ∈ w.slotsOf a := by
  have hslots : ((w.accessList.lookup a).elim false fun slots => slots.contains k) = true ↔
      k ∈ w.slotsOf a := by
    unfold slotsOf
    cases w.accessList.lookup a <;> simp
  unfold isStorageWarm
  rw [Bool.and_eq_true, hslots, and_iff_right_iff_imp]
  intro hk
  by_contra hs
  rw [h.shortcut (by simpa using hs) a] at hk
  cases hk

theorem getLsbD_bit {i j : ℕ} (hi : i < 320) : (1#320 <<< i).getLsbD j = decide (j = i) := by
  have hone : 1#320 <<< i = BitVec.twoPow 320 i := (BitVec.twoPow_eq 320 i).symm
  rw [hone, BitVec.getLsbD_twoPow, decide_eq_true hi, Bool.true_and]
  exact decide_eq_decide.mpr eq_comm

theorem shortAddress_eq_some {a : Address} {i : ℕ} (h : shortAddress a = some i) :
    i = a.toNat ∧ i < 320 := by
  unfold shortAddress SHORT_ADDRESS_CAP at h
  split_ifs at h with hlt
  cases h
  exact ⟨rfl, hlt⟩

def shortWarm (w : PrewarmSet) (a : Address) : Bool :=
  match shortAddress a with
  | some i => w.shortAddresses.getLsbD i
  | none => false

theorem isWarm_eq (w : PrewarmSet) (a : Address) :
    w.isWarm a = (w.shortWarm a || w.inlined.contains a || (w.accessList.lookup a).isSome) := rfl

theorem shortWarm_warmShortAddress (w : PrewarmSet) (a x : Address) :
    (w.warmShortAddress a).2.shortWarm x =
      ((w.warmShortAddress a).1 && decide (x = a) || w.shortWarm x) := by
  unfold warmShortAddress shortWarm
  cases ha : shortAddress a with
  | none => simp
  | some i =>
    obtain ⟨rfl, hi⟩ := shortAddress_eq_some ha
    cases hx : shortAddress x with
    | none =>
      have hne : x ≠ a := fun h => by rw [h, ha] at hx; cases hx
      simp [hne]
    | some j =>
      obtain ⟨rfl, -⟩ := shortAddress_eq_some hx
      have heq : (x.toNat = a.toNat) ↔ x = a := BitVec.toNat_inj
      simp only [BitVec.getLsbD_or, getLsbD_bit hi, Bool.true_and, heq]
      rw [Bool.or_comm]

theorem warmShortAddress_rest (w : PrewarmSet) (a : Address) :
    (w.warmShortAddress a).2.accessList = w.accessList ∧
      (w.warmShortAddress a).2.inlined = w.inlined ∧
      (w.warmShortAddress a).2.hasStorage = w.hasStorage := by
  unfold warmShortAddress
  cases shortAddress a <;> exact ⟨rfl, rfl, rfl⟩

def apply (w : PrewarmSet) : PrewarmOp → PrewarmSet
  | .warm a => w.warm a
  | .warmStorage a slots => w.warmStorage a slots
  | .warmShortAddresses bits => w.warmShortAddresses bits
  | .remove a => w.remove a
  | .clear => w.clear

theorem isWarm_warm (w : PrewarmSet) (a x : Address) :
    (w.warm a).isWarm x = (decide (x = a) || w.isWarm x) := by
  have hshort := shortWarm_warmShortAddress w a x
  obtain ⟨hlist, hinl, -⟩ := warmShortAddress_rest w a
  unfold warm
  generalize w.warmShortAddress a = r at *
  obtain ⟨short, w'⟩ := r
  simp only at hshort hlist hinl
  cases short with
  | true =>
    simp only [isWarm_eq, hshort, hlist, hinl, Bool.true_and, Bool.or_assoc]
  | false =>
    simp only [Bool.false_and, Bool.false_or] at hshort
    simp only
    split_ifs with hmem hlen
    · -- the address is in the inline list already
      simp only [isWarm_eq, hshort, hlist, hinl]
      by_cases hx : x = a
      · subst hx
        rw [hinl] at hmem
        rw [hmem]
        simp
      · simp [hx]
    · have hshort' : ({ w' with inlined := w'.inlined ++ [a] } : PrewarmSet).shortWarm x =
          w.shortWarm x := hshort
      rw [isWarm_eq, isWarm_eq, hshort', hlist, hinl]
      by_cases hx : x = a <;> simp [hx]
    · have hshort' : ({ w' with
          accessList := w'.accessList.adjust a [] id } : PrewarmSet).shortWarm x =
          w.shortWarm x := hshort
      rw [isWarm_eq, isWarm_eq, hshort', hlist, hinl]
      simp only [Map.lookup_adjust]
      by_cases hx : x = a <;> simp [hx]

theorem isWarm_warmStorage (w : PrewarmSet) (a : Address) (slots : List Word) (x : Address) :
    (w.warmStorage a slots).isWarm x = (decide (x = a) || w.isWarm x) := by
  have hshort := shortWarm_warmShortAddress w a x
  obtain ⟨hlist, hinl, -⟩ := warmShortAddress_rest w a
  unfold warmStorage
  generalize w.warmShortAddress a = r at *
  obtain ⟨short, w'⟩ := r
  simp only at hshort hlist hinl
  simp only
  split_ifs with hdone
  · -- a short address without slots needs no entry
    simp only [Bool.and_eq_true] at hdone
    simp only [isWarm_eq, hshort, hlist, hinl, hdone.1, Bool.true_and, Bool.or_assoc]
  · have hshort' : ({ w' with
        accessList := w'.accessList.adjust a [] fun old => slots ++ old
        hasStorage := w'.hasStorage || !slots.isEmpty } : PrewarmSet).shortWarm x =
        (short && decide (x = a) || w.shortWarm x) := hshort
    rw [isWarm_eq, isWarm_eq, hshort', hlist, hinl]
    simp only [Map.lookup_adjust]
    by_cases hx : x = a <;> simp [hx]

theorem isWarm_warmShortAddresses (w : PrewarmSet) (bits : BitVec 320) (x : Address) :
    (w.warmShortAddresses bits).isWarm x =
      (decide (x.toNat < SHORT_ADDRESS_CAP) && bits.getLsbD x.toNat || w.isWarm x) := by
  unfold warmShortAddresses isWarm shortAddress
  by_cases hx : x.toNat < SHORT_ADDRESS_CAP
  · simp only [hx, if_true, decide_true, Bool.true_and, BitVec.getLsbD_or]
    cases bits.getLsbD x.toNat <;> simp
  · simp only [hx, if_false, decide_false, Bool.false_and, Bool.false_or]

theorem isWarm_remove {w : PrewarmSet} (h : w.WellFormed) (a x : Address) :
    (w.remove a).isWarm x = (decide (x ≠ a) && w.isWarm x) := by
  have hinl : (swapRemove w.inlined a).contains x = (decide (x ≠ a) && w.inlined.contains x) := by
    have hmem : x ∈ swapRemove w.inlined a ↔ x ≠ a ∧ x ∈ w.inlined := by
      rw [(swapRemove_perm w.inlined a).mem_iff, h.nodup.mem_erase_iff]
    rw [Bool.eq_iff_iff]
    simpa using hmem
  have hshort : (w.remove a).shortWarm x = (decide (x ≠ a) && w.shortWarm x) := by
    unfold shortWarm remove
    cases ha : shortAddress a with
    | none =>
      cases hx : shortAddress x with
      | none => simp
      | some j =>
        have hne : x ≠ a := fun h => by rw [h, ha] at hx; cases hx
        simp [hne]
    | some i =>
      obtain ⟨rfl, hi⟩ := shortAddress_eq_some ha
      cases hx : shortAddress x with
      | none => simp
      | some j =>
        obtain ⟨rfl, hj⟩ := shortAddress_eq_some hx
        have heq : (x.toNat = a.toNat) ↔ x = a := BitVec.toNat_inj
        simp only [BitVec.getLsbD_and, BitVec.getLsbD_not, getLsbD_bit hi, heq]
        by_cases hxa : x = a
        · simp [hxa]
        · simp [hxa, hj]
  rw [isWarm_eq, isWarm_eq, hshort]
  simp only [remove, hinl, Map.lookup_erase_ite]
  by_cases hx : x = a <;> simp [hx]

theorem slotsOf_apply (w : PrewarmSet) (op : PrewarmOp) (x : Address) :
    (w.apply op).slotsOf x = match op with
      | .warm _ | .warmShortAddresses _ => w.slotsOf x
      | .warmStorage a slots => if x = a then slots ++ w.slotsOf x else w.slotsOf x
      | .remove a => if x = a then [] else w.slotsOf x
      | .clear => [] := by
  cases op with
  | warmShortAddresses bits => rfl
  | clear => rfl
  | remove a =>
    simp only [apply, slotsOf, remove, Map.lookup_erase_ite]
    split_ifs <;> rfl
  | warm a =>
    obtain ⟨hlist, -⟩ := warmShortAddress_rest w a
    simp only [apply, warm]
    generalize w.warmShortAddress a = r at *
    obtain ⟨short, w'⟩ := r
    simp only at hlist
    cases short with
    | true => simp only [slotsOf, hlist]
    | false =>
      simp only
      split_ifs
      · simp only [slotsOf, hlist]
      · simp only [slotsOf, hlist]
      · simp only [slotsOf, hlist, Map.lookup_adjust]
        split_ifs with hx
        · subst hx
          simp
        · rfl
  | warmStorage a slots =>
    obtain ⟨hlist, -⟩ := warmShortAddress_rest w a
    simp only [apply, warmStorage]
    generalize w.warmShortAddress a = r at *
    obtain ⟨short, w'⟩ := r
    simp only at hlist
    split_ifs with hdone hx hx
    · -- nothing is added for an empty list
      rw [Bool.and_eq_true, List.isEmpty_iff] at hdone
      simp only [slotsOf, hlist, hdone.2, List.nil_append]
    · simp only [slotsOf, hlist]
    · subst hx
      simp [slotsOf, hlist]
    · simp [slotsOf, hlist, hx]

theorem WellFormed.apply {w : PrewarmSet} (h : w.WellFormed) (op : PrewarmOp) :
    (w.apply op).WellFormed := by
  refine ⟨?_, fun hs x => ?_⟩
  · cases op with
    | warmShortAddresses bits => exact h.nodup
    | clear => exact List.nodup_nil
    | remove a => exact (swapRemove_perm w.inlined a).nodup_iff.mpr (h.nodup.erase a)
    | warm a =>
      obtain ⟨-, hinl, -⟩ := warmShortAddress_rest w a
      simp only [PrewarmSet.apply, warm]
      generalize w.warmShortAddress a = r at *
      obtain ⟨short, w'⟩ := r
      simp only at hinl
      cases short with
      | true => exact hinl ▸ h.nodup
      | false =>
        simp only
        split_ifs with hmem hlen
        · exact hinl ▸ h.nodup
        · have hnot : a ∉ w'.inlined := by simpa using hmem
          exact List.nodup_append.mpr ⟨hinl ▸ h.nodup, List.nodup_singleton a, by
            intro y hy z hz
            rw [List.mem_singleton.mp hz]
            exact fun he => hnot (he ▸ hy)⟩
        · exact hinl ▸ h.nodup
    | warmStorage a slots =>
      obtain ⟨-, hinl, -⟩ := warmShortAddress_rest w a
      simp only [PrewarmSet.apply, warmStorage]
      generalize w.warmShortAddress a = r at *
      obtain ⟨short, w'⟩ := r
      simp only at hinl
      split_ifs
      · exact hinl ▸ h.nodup
      · exact hinl ▸ h.nodup
  · rw [slotsOf_apply]
    cases op with
    | warmShortAddresses bits => exact h.shortcut hs x
    | clear => rfl
    | remove a =>
      simp only
      rw [h.shortcut hs x, ite_self]
    | warm a =>
      refine h.shortcut ?_ x
      obtain ⟨-, -, hst⟩ := warmShortAddress_rest w a
      simp only [PrewarmSet.apply, warm] at hs
      generalize w.warmShortAddress a = r at *
      obtain ⟨short, w'⟩ := r
      simp only at hst
      cases short with
      | true => exact hst ▸ hs
      | false =>
        simp only at hs
        split_ifs at hs <;> exact hst ▸ hs
    | warmStorage a slots =>
      obtain ⟨-, -, hst⟩ := warmShortAddress_rest w a
      have hboth : w.hasStorage = false ∧ slots = [] := by
        simp only [PrewarmSet.apply, warmStorage] at hs
        generalize w.warmShortAddress a = r at *
        obtain ⟨short, w'⟩ := r
        simp only at hst
        split_ifs at hs with hdone
        · rw [Bool.and_eq_true, List.isEmpty_iff] at hdone
          exact ⟨hst ▸ hs, hdone.2⟩
        · simp only [Bool.or_eq_false_iff, Bool.not_eq_false'] at hs
          exact ⟨hst ▸ hs.1, by simpa using hs.2⟩
      simp only [hboth.2, List.nil_append, h.shortcut hboth.1 x, ite_self]

end PrewarmSet

/-! ## Sequences of operations -/

/-- The set holds exactly what the plain sets hold. -/
structure PrewarmSet.Refines (w : PrewarmSet) (s : WarmSets) : Prop where
  wellFormed : w.WellFormed
  addresses : ∀ a, w.isWarm a = true ↔ a ∈ s.addresses
  slots : ∀ a k, k ∈ w.slotsOf a ↔ (a, k) ∈ s.slots

theorem PrewarmSet.Refines.apply {w : PrewarmSet} {s : WarmSets} (h : w.Refines s)
    (op : PrewarmOp) : (w.apply op).Refines (s.apply op) := by
  refine ⟨h.wellFormed.apply op, fun x => ?_, fun x k => ?_⟩
  · cases op with
    | warm a =>
      show (w.warm a).isWarm x = true ↔ x ∈ insert a s.addresses
      rw [isWarm_warm, Bool.or_eq_true, decide_eq_true_eq, h.addresses]
      rfl
    | warmStorage a slots =>
      show (w.warmStorage a slots).isWarm x = true ↔ x ∈ insert a s.addresses
      rw [isWarm_warmStorage, Bool.or_eq_true, decide_eq_true_eq, h.addresses]
      rfl
    | warmShortAddresses bits =>
      show (w.warmShortAddresses bits).isWarm x = true ↔ _
      rw [isWarm_warmShortAddresses, Bool.or_eq_true, Bool.and_eq_true, decide_eq_true_eq,
        h.addresses]
      exact or_comm
    | remove a =>
      show (w.remove a).isWarm x = true ↔ x ∈ s.addresses \ {a}
      rw [isWarm_remove h.wellFormed, Bool.and_eq_true, decide_eq_true_eq, h.addresses]
      exact and_comm
    | clear =>
      show new.isWarm x = true ↔ x ∈ (∅ : Set Address)
      simp
  · rw [slotsOf_apply]
    cases op with
    | warm a | warmShortAddresses bits => exact h.slots x k
    | clear => exact ⟨nofun, nofun⟩
    | remove a =>
      show k ∈ (if x = a then [] else w.slotsOf x) ↔ (x, k) ∈ s.slots \ { p | p.1 = a }
      split_ifs with hx <;> simp [hx, h.slots]
    | warmStorage a slots =>
      show k ∈ (if x = a then slots ++ w.slotsOf x else w.slotsOf x) ↔
        (x, k) ∈ s.slots ∪ { p | p.1 = a ∧ p.2 ∈ slots }
      split_ifs with hx
      · simp [hx, h.slots, or_comm]
      · simp [hx, h.slots]

/-- **`PrewarmSet` is a pair of plain sets**, after any operations. -/
theorem prewarm_set_refines_warm_sets (ops : List PrewarmOp) :
    let w := ops.foldl PrewarmSet.apply .new
    let s := ops.foldl WarmSets.apply .empty
    (∀ a, w.isWarm a = true ↔ a ∈ s.addresses) ∧
      ∀ a k, w.isStorageWarm a k = true ↔ (a, k) ∈ s.slots := by
  have hrun : ∀ (ops : List PrewarmOp) (w : PrewarmSet) (s : WarmSets), w.Refines s →
      (ops.foldl PrewarmSet.apply w).Refines (ops.foldl WarmSets.apply s) := by
    intro ops
    induction ops with
    | nil => exact fun w s h => h
    | cons op ops ih => exact fun w s h => ih _ _ (h.apply op)
  have hstart : PrewarmSet.new.Refines .empty :=
    ⟨⟨List.nodup_nil, fun _ _ => rfl⟩, fun a => by simp [WarmSets.empty], fun a k => by
      simp [WarmSets.empty, PrewarmSet.slotsOf, PrewarmSet.new]⟩
  have h := hrun ops _ _ hstart
  exact ⟨h.addresses, fun a k => (h.wellFormed.isStorageWarm_iff a k).trans (h.slots a k)⟩

end Evm2
