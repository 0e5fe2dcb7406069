import Evm2.Lib.Fold
import Evm2.Lib.Map

/-!
# Sorting by a key

`List.sortByKey` sorts a list by a key. If the keys are distinct, the result is the only sorted
permutation of the list (`List.eq_of_sortedByKey`).

`Map.sortedEntries` lists the entries of a map by their keys. `Map.lookup` tells which entry of the
list has a key (`Map.find_sortedEntries`), so that a loop over the list can be looked at one key at
a time (`Map.filter_sortedEntries`, `Map.foldl_sortedEntries_proj`).
-/

namespace List

variable {α β K : Type} [LE K]

def SortedByKey (key : α → K) (l : List α) : Prop := l.Pairwise fun x y => key x ≤ key y

def sortByKey [DecidableLE K] (key : α → K) (l : List α) : List α :=
  l.mergeSort fun x y => decide (key x ≤ key y)

theorem perm_sortByKey [DecidableLE K] (key : α → K) (l : List α) : (l.sortByKey key).Perm l :=
  mergeSort_perm _ _

theorem sortByKey_eq_self [DecidableLE K] {key : α → K} {l : List α} (h : l.SortedByKey key) :
    l.sortByKey key = l :=
  mergeSort_of_pairwise (h.imp fun hxy => by simpa using hxy)

theorem SortedByKey.map {key : α → K} {key' : β → K} {l : List α} (h : l.SortedByKey key)
    (f : α → β) (hf : ∀ x ∈ l, key' (f x) = key x) : (l.map f).SortedByKey key' := by
  refine List.pairwise_map.mpr (h.imp_of_mem fun hx hy hxy => ?_)
  rw [hf _ hx, hf _ hy]
  exact hxy

variable [Std.IsLinearOrder K]

theorem sortedByKey_sortByKey [DecidableLE K] (key : α → K) (l : List α) :
    (l.sortByKey key).SortedByKey key := by
  refine (pairwise_mergeSort (fun x y z hxy hyz => ?_) (fun x y => ?_) l).imp fun hxy => ?_
  · simp only [decide_eq_true_eq] at *
    exact Std.le_trans hxy hyz
  · simp only [Bool.or_eq_true, decide_eq_true_eq]
    exact Std.le_total
  · simpa using hxy

theorem eq_of_sortedByKey {key : α → K} {l l' : List α} (hl : l.SortedByKey key)
    (hl' : l'.SortedByKey key) (hkey : (l.map key).Nodup) (hp : l.Perm l') : l = l' := by
  refine hp.eq_of_pairwise (fun x y hx hy hxy hyx => ?_) hl hl'
  exact inj_on_of_nodup_map hkey hx (hp.mem_iff.mpr hy) (Std.le_antisymm hxy hyx)

theorem SortedByKey.strict [LT K] [Std.LawfulOrderLT K] {key : α → K} {l : List α}
    (hl : l.SortedByKey key) (hkey : (l.map key).Nodup) :
    (l.map key).Pairwise (· < ·) := by
  have hne : l.Pairwise fun x y => key x ≠ key y := List.pairwise_map.mp hkey
  refine List.pairwise_map.mpr ((hl.and hne).imp fun ⟨hxy, h⟩ => ?_)
  exact Std.lt_of_le_of_ne hxy h

end List

namespace Map

variable {K V : Type} [LE K] [DecidableLE K]

def sortedEntries (m : Map K V) : List (Σ _ : K, V) :=
  m.entries.mergeSort fun x y => decide (x.1 ≤ y.1)

theorem perm_sortedEntries (m : Map K V) : m.sortedEntries.Perm m.entries :=
  List.mergeSort_perm _ _

theorem nodupKeys_sortedEntries (m : Map K V) : m.sortedEntries.NodupKeys :=
  (List.perm_nodupKeys m.perm_sortedEntries).mpr m.nodupKeys

theorem nodup_keys_sortedEntries (m : Map K V) : (m.sortedEntries.map Sigma.fst).Nodup :=
  m.nodupKeys_sortedEntries

variable [DecidableEq K]

theorem dlookup_sortedEntries (m : Map K V) (k : K) :
    m.sortedEntries.dlookup k = m.lookup k :=
  List.perm_dlookup k m.nodupKeys_sortedEntries m.perm_sortedEntries

omit [LE K] [DecidableLE K] in
theorem find?_eq_dlookup (l : List (Σ _ : K, V)) (k : K) :
    (l.find? fun e => e.1 = k) = (l.dlookup k).map fun v => ⟨k, v⟩ := by
  induction l with
  | nil => rfl
  | cons e l ih =>
    obtain ⟨k', v⟩ := e
    rw [List.find?_cons]
    by_cases h : k' = k
    · subst h
      simp
    · rw [List.dlookup_cons_ne _ _ (Ne.symm h)]
      simpa [h] using ih

theorem find_sortedEntries (m : Map K V) (k : K) :
    (m.sortedEntries.find? fun e => e.1 = k) = (m.lookup k).map fun v => ⟨k, v⟩ := by
  rw [find?_eq_dlookup, dlookup_sortedEntries]

theorem filter_sortedEntries {ε : Type} (mine : K → ε → Bool)
    (events own : (Σ _ : K, V) → List ε)
    (h : ∀ e k, (events e).filter (mine k) = if e.1 = k then own e else []) (m : Map K V) (k : K) :
    (m.sortedEntries.flatMap events).filter (mine k) =
      (m.lookup k).elim [] fun v => own ⟨k, v⟩ := by
  rw [Fold.filter_flatMap_key h m.nodup_keys_sortedEntries, find_sortedEntries]
  cases m.lookup k <;> rfl

theorem foldl_sortedEntries_proj {σ ρ : Type} (π : σ → ρ) (step : σ → K → V → σ)
    (own : ρ → V → ρ) {k : K}
    (h : ∀ s k' v, π (step s k' v) = if k' = k then own (π s) v else π s) (m : Map K V) (s : σ) :
    π (m.sortedEntries.foldl (fun s e => step s e.1 e.2) s) =
      (m.lookup k).elim (π s) (own (π s)) := by
  rw [foldl_dlookup_proj π step own h m.nodupKeys_sortedEntries, dlookup_sortedEntries]

end Map
