import Mathlib

/-!
# Binary search

The binary search of the Rust standard library on a sorted list.

* `Search.binarySearchByKey`: the position of a key, or the position where it would be inserted;
* **`Search.position_binarySearchByKey`**: on a strictly increasing list both are the position of
  the first element whose key is not smaller.
-/

namespace Search

variable {α : Type}

/-- The loop of the search: `size` elements from `base` on are left, and `greater i` tells whether
the element at `i` is greater than the one that is searched for. -/
def narrow (greater : ℕ → Bool) (base size : ℕ) : ℕ :=
  if 1 < size then
    narrow greater (if greater (base + size / 2) then base else base + size / 2) (size - size / 2)
  else base
termination_by size

theorem narrow_spec {greater : ℕ → Bool} {base size n : ℕ} (hsize : 0 < size)
    (hmono : ∀ i j, i ≤ j → j < n → greater i → greater j)
    (hright : ∀ j, base + size ≤ j → j < n → greater j) :
    base ≤ narrow greater base size ∧ narrow greater base size < base + size ∧
      (narrow greater base size = base ∨ ¬greater (narrow greater base size)) ∧
      ∀ j, narrow greater base size < j → j < n → greater j := by
  fun_induction narrow greater base size with
  | case2 base size h =>
    have h1 : size = 1 := by omega
    subst h1
    exact ⟨le_rfl, by omega, .inl rfl, fun j hj hn => hright j hj hn⟩
  | case1 base size h ih =>
    split_ifs at ih ⊢ with hmid
    · -- the left half is left
      have hright' : ∀ j, base + (size - size / 2) ≤ j → j < n → greater j := by
        intro j hj hn
        exact hmono (base + size / 2) j (by omega) hn hmid
      obtain ⟨h1, h2, h3, h4⟩ := ih (by omega) hright'
      exact ⟨h1, by omega, h3, h4⟩
    · obtain ⟨h1, h2, h3, h4⟩ := ih (by omega) fun j hj hn => hright j (by omega) hn
      refine ⟨by omega, by omega, .inr ?_, h4⟩
      rcases h3 with h3 | h3
      · rw [h3]
        exact hmid
      · exact h3

def binarySearchByKey (l : List α) (key : ℕ) (f : α → ℕ) : Except ℕ ℕ :=
  let base := narrow (fun i => (l[i]?).any fun x => key < f x) 0 l.length
  match l[base]? with
  | none => .error 0
  | some x =>
    if f x = key then .ok base else if f x < key then .error (base + 1) else .error base

def position : Except ℕ ℕ → ℕ
  | .ok i => i
  | .error i => i

theorem findIdx_eq_of {l : List α} {p : α → Bool} {n : ℕ} (hn : n ≤ l.length)
    (hbelow : ∀ i (h : i < l.length), i < n → p l[i] = false)
    (hat : ∀ h : n < l.length, p l[n] = true) : l.findIdx p = n := by
  rcases hn.eq_or_lt with rfl | hlt
  · refine List.findIdx_eq_length.mpr fun x hx => ?_
    obtain ⟨i, hi, rfl⟩ := List.mem_iff_getElem.mp hx
    exact hbelow i hi hi
  · exact (List.findIdx_eq hlt).mpr ⟨hat hlt, fun i hi => by simp [hbelow i (hi.trans hlt) hi]⟩

/-- **Binary search finds the first element whose key is not smaller.** -/
theorem position_binarySearchByKey {l : List α} {f : α → ℕ}
    (hl : l.Pairwise fun x y => f x < f y) (key : ℕ) :
    position (binarySearchByKey l key f) = l.findIdx fun x => key ≤ f x := by
  have hlt : ∀ i j (hi : i < l.length) (hj : j < l.length), i < j → f l[i] < f l[j] :=
    fun i j hi hj hij => List.pairwise_iff_getElem.mp hl i j hi hj hij
  cases hlen : l with
  | nil => rfl
  | cons x₀ l' =>
    rw [← hlen]
    have hpos : 0 < l.length := by rw [hlen]; exact Nat.succ_pos _
    set greater : ℕ → Bool := fun i => (l[i]?).any fun x => key < f x with hgreater
    have hg : ∀ i (h : i < l.length), greater i = decide (key < f l[i]) := by
      intro i h
      simp [hgreater, List.getElem?_eq_getElem h]
    have hmono : ∀ i j, i ≤ j → j < l.length → greater i → greater j := by
      intro i j hij hj hi
      rcases hij.eq_or_lt with rfl | hij
      · exact hi
      · have := hlt i j (hij.trans hj) hj hij
        rw [hg i (hij.trans hj)] at hi
        rw [hg j hj]
        simp only [decide_eq_true_eq] at hi ⊢
        omega
    obtain ⟨-, hlast, hleft, hright⟩ :=
      @narrow_spec greater 0 l.length l.length hpos hmono fun j hj hn => by omega
    set base := narrow greater 0 l.length with hbase
    have hb : base < l.length := by omega
    have hbelow : ∀ i (h : i < l.length), i < base → f l[i] < f l[base] :=
      fun i h hi => hlt i base h hb hi
    rw [binarySearchByKey, ← hgreater, ← hbase, List.getElem?_eq_getElem hb]
    simp only
    split_ifs with heq hless
    · -- found
      change base = _
      refine (findIdx_eq_of hb.le (fun i h hi => ?_) fun _ => ?_).symm
      · have := hbelow i h hi
        simp only [decide_eq_false_iff_not]
        omega
      · simp only [decide_eq_true_eq]
        omega
    · change base + 1 = _
      refine (findIdx_eq_of hb (fun i h hi => ?_) fun h => ?_).symm
      · rcases (Nat.lt_succ_iff.mp hi).eq_or_lt with rfl | hi
        · simp only [decide_eq_false_iff_not]
          omega
        · have := hbelow i h hi
          simp only [decide_eq_false_iff_not]
          omega
      · have := hright (base + 1) (Nat.lt_succ_self _) h
        rw [hg _ h] at this
        simp only [decide_eq_true_eq] at this ⊢
        omega
    · -- all elements are greater
      change base = _
      rcases hleft with h0 | hle
      · refine (findIdx_eq_of hb.le (fun i h hi => absurd hi (by omega)) fun _ => ?_).symm
        simp only [decide_eq_true_eq]
        omega
      · rw [hg base hb] at hle
        simp only [decide_eq_true_eq] at hle
        omega

end Search
