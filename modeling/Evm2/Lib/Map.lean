import Mathlib

/-!
# Finite maps

Hash maps are modelled by Mathlib's association lists `AList` with a constant value type. The
order of the entries stands for the iteration order; changing a value keeps it.

Everything is stated through `lookup`, which does not see the order of the entries.
-/

/-- A finite map from `K` to `V`. -/
abbrev Map (K V : Type) : Type := AList (fun _ : K => V)

namespace Map

variable {K V W : Type} [DecidableEq K]

@[simp]
theorem lookup_insert_ite (m : Map K V) (k k' : K) (v : V) :
    (m.insert k v).lookup k' = if k' = k then some v else m.lookup k' := by
  split_ifs with h
  · subst h; exact AList.lookup_insert m
  · exact AList.lookup_insert_ne h

@[simp]
theorem lookup_erase_ite (m : Map K V) (k k' : K) :
    (m.erase k).lookup k' = if k' = k then none else m.lookup k' := by
  split_ifs with h
  · subst h; exact AList.lookup_erase _ m
  · exact AList.lookup_erase_ne h

@[simp]
theorem lookup_singleton (k k' : K) (v : V) :
    (AList.singleton k v : Map K V).lookup k' = if k' = k then some v else none := by
  split_ifs with h
  · subst h
    exact AList.mem_lookup_iff.mpr List.mem_cons_self
  · exact AList.lookup_eq_none.mpr fun hk => h (by simpa [AList.mem_keys] using hk)

theorem lookup_singleton_eq_some {k k' : K} {v v' : V}
    (h : (AList.singleton k v : Map K V).lookup k' = some v') : k' = k ∧ v' = v := by
  rw [lookup_singleton] at h
  split_ifs at h with hk
  exact ⟨hk, (Option.some.inj h).symm⟩

theorem entries_eq_nil {m : Map K V} (h : ∀ k, m.lookup k = none) : m.entries = [] := by
  refine List.eq_nil_iff_forall_not_mem.mpr fun e he => ?_
  have := AList.mem_lookup_iff.mpr he
  rw [h e.1] at this
  cases this

/-! ## Changing values in place -/

omit [DecidableEq K] in
theorem nodupKeys_map (m : Map K V) (f : K → V → W) :
    (m.entries.map fun e => (⟨e.1, f e.1 e.2⟩ : Σ _ : K, W)).NodupKeys := by
  have h : (m.entries.map fun e => (⟨e.1, f e.1 e.2⟩ : Σ _ : K, W)).keys = m.entries.keys := by
    simp [List.keys]
  rw [List.NodupKeys, h]
  exact m.nodupKeys

def mapWithKey (m : Map K V) (f : K → V → W) : Map K W :=
  ⟨m.entries.map fun e => ⟨e.1, f e.1 e.2⟩, nodupKeys_map m f⟩

theorem lookup_mapWithKey (m : Map K V) (f : K → V → W) (k : K) :
    (m.mapWithKey f).lookup k = (m.lookup k).map (f k) := by
  obtain ⟨l, hl⟩ := m
  unfold mapWithKey AList.lookup
  simp only
  clear hl
  induction l with
  | nil => rfl
  | cons e l ih =>
    obtain ⟨k', v⟩ := e
    by_cases h : k = k'
    · subst h; simp
    · rw [List.map_cons, List.dlookup_cons_ne _ _ h, List.dlookup_cons_ne _ _ h, ih]

def mapValues (m : Map K V) (f : V → W) : Map K W := m.mapWithKey fun _ => f

@[simp]
theorem lookup_mapValues (m : Map K V) (f : V → W) (k : K) :
    (m.mapValues f).lookup k = (m.lookup k).map f :=
  lookup_mapWithKey m _ k

def modify (m : Map K V) (k : K) (f : V → V) : Map K V :=
  m.mapWithKey fun k' v => if k' = k then f v else v

theorem entries_modify (m : Map K V) (k : K) (f : V → V) :
    (m.modify k f).entries =
      m.entries.map fun e => (⟨e.1, if e.1 = k then f e.2 else e.2⟩ : Σ _ : K, V) := rfl

@[simp]
theorem lookup_modify (m : Map K V) (k k' : K) (f : V → V) :
    (m.modify k f).lookup k' = if k' = k then (m.lookup k).map f else m.lookup k' := by
  rw [modify, lookup_mapWithKey]
  split_ifs with h
  · subst h; rfl
  · exact Option.map_id'

theorem lookup_modify_isSome (m : Map K V) (i j : K) (f : V → V) :
    ((m.modify i f).lookup j).isSome = (m.lookup j).isSome := by
  rw [lookup_modify]
  split_ifs with h
  · subst h; simp
  · rfl

theorem modify_eq_self {m : Map K V} {k : K} {f : V → V}
    (h : ∀ v, m.lookup k = some v → f v = v) : m.modify k f = m := by
  apply AList.ext
  have hl : ∀ e ∈ m.entries, (⟨e.1, if e.1 = k then f e.2 else e.2⟩ : Σ _ : K, V) = e := by
    intro e he
    split_ifs with hk
    · subst hk
      rw [h e.2 (AList.mem_lookup_iff.mpr he)]
    · rfl
  rw [entries_modify, List.map_congr_left hl, List.map_id']

theorem modify_modify (m : Map K V) (k : K) (f g : V → V) :
    (m.modify k f).modify k g = m.modify k fun v => g (f v) := by
  apply AList.ext
  rw [entries_modify, entries_modify, entries_modify, List.map_map]
  refine List.map_congr_left fun e _ => ?_
  simp only [Function.comp_apply]
  split_ifs with h <;> rfl

/-! ## Binding a key -/

def set (m : Map K V) (k : K) (v : V) : Map K V :=
  if (m.lookup k).isSome then m.modify k fun _ => v else m.insert k v

@[simp]
theorem lookup_set (m : Map K V) (k k' : K) (v : V) :
    (m.set k v).lookup k' = if k' = k then some v else m.lookup k' := by
  unfold set
  split_ifs with h h' h'
  · obtain ⟨w, hw⟩ := Option.isSome_iff_exists.mp h
    rw [lookup_modify, if_pos h', hw]
    rfl
  · rw [lookup_modify, if_neg h']
  · rw [lookup_insert_ite, if_pos h']
  · rw [lookup_insert_ite, if_neg h']

theorem set_eq_self {m : Map K V} {k : K} {v : V} (h : m.lookup k = some v) : m.set k v = m := by
  rw [set, if_pos (by simp [h])]
  exact modify_eq_self fun w hw => by simpa [h] using hw

theorem set_of_some {m : Map K V} {k : K} {v w : V} (h : m.lookup k = some w) :
    m.set k v = m.modify k fun _ => v := by
  rw [set, if_pos (by simp [h])]

theorem set_of_none {m : Map K V} {k : K} {v : V} (h : m.lookup k = none) :
    m.set k v = m.insert k v := by
  rw [set, if_neg (by simp [h])]

theorem modify_set (m : Map K V) (k : K) (v : V) (f : V → V) :
    (m.set k v).modify k f = m.set k (f v) := by
  cases h : m.lookup k with
  | some u => rw [set_of_some h, set_of_some h, modify_modify]
  | none =>
    rw [set_of_none h, set_of_none h]
    apply AList.ext
    have hk : k ∉ m := AList.lookup_eq_none.mp h
    rw [entries_modify, AList.entries_insert_of_notMem hk, AList.entries_insert_of_notMem hk,
      List.map_cons]
    congr 1
    · simp
    · have hl : ∀ e ∈ m.entries, (⟨e.1, if e.1 = k then f e.2 else e.2⟩ : Σ _ : K, V) = e := by
        intro e he
        have hne : e.1 ≠ k := by
          rintro rfl
          exact hk (AList.mem_keys.mpr (List.mem_keys_of_mem he))
        rw [if_neg hne]
      rw [List.map_congr_left hl, List.map_id']

@[simp]
theorem set_set (m : Map K V) (k : K) (v w : V) : (m.set k v).set k w = m.set k w := by
  rw [set_of_some (w := v) (by simp), modify_set]

def adjust (m : Map K V) (k : K) (d : V) (f : V → V) : Map K V :=
  m.set k (f ((m.lookup k).getD d))

@[simp]
theorem lookup_adjust (m : Map K V) (k k' : K) (d : V) (f : V → V) :
    (m.adjust k d f).lookup k' =
      if k' = k then some (f ((m.lookup k).getD d)) else m.lookup k' :=
  lookup_set m k k' _

/-! ## Merging maps -/

def alter (m : Map K V) (k : K) (f : Option V → Option V) : Map K V :=
  match f (m.lookup k) with
  | some v => m.set k v
  | none => m.erase k

@[simp]
theorem lookup_alter (m : Map K V) (k k' : K) (f : Option V → Option V) :
    (m.alter k f).lookup k' = if k' = k then f (m.lookup k) else m.lookup k' := by
  unfold alter
  cases f (m.lookup k) with
  | some v => exact lookup_set m k k' v
  | none => exact lookup_erase_ite m k k'

def mergeWith (m : Map K V) (o : Map K W) (f : Option V → W → Option V) : Map K V :=
  o.entries.foldl (fun m e => m.alter e.1 fun x => f x e.2) m

theorem lookup_mergeWith (m : Map K V) (o : Map K W) (f : Option V → W → Option V) (k : K) :
    (m.mergeWith o f).lookup k = match o.lookup k with
      | some w => f (m.lookup k) w
      | none => m.lookup k := by
  obtain ⟨l, hl⟩ := o
  have hlookup : (⟨l, hl⟩ : Map K W).lookup k = l.dlookup k := rfl
  rw [hlookup]
  unfold mergeWith
  induction l generalizing m with
  | nil => rfl
  | cons e l ih =>
    obtain ⟨k', w⟩ := e
    obtain ⟨hk', hl'⟩ := List.nodupKeys_cons.mp hl
    have hrec := ih (m.alter k' fun x => f x w) hl' rfl
    rw [List.foldl_cons, hrec, lookup_alter]
    by_cases h : k = k'
    · -- the key does not occur again
      subst h
      rw [List.dlookup_eq_none.mpr hk', List.dlookup_cons_eq, if_pos rfl]
    · rw [List.dlookup_cons_ne _ _ h, if_neg h]

def filterMapValues (m : Map K V) (f : V → Option W) : Map K W :=
  (∅ : Map K W).mergeWith m fun _ v => f v

@[simp]
theorem lookup_filterMapValues (m : Map K V) (f : V → Option W) (k : K) :
    (m.filterMapValues f).lookup k = (m.lookup k).bind f := by
  rw [filterMapValues, lookup_mergeWith]
  cases m.lookup k <;> rfl

/-! ## Loops over the entries -/

theorem foldl_dlookup_proj {σ ρ : Type} (π : σ → ρ) (step : σ → K → V → σ) (own : ρ → V → ρ)
    {k : K} (h : ∀ s k' v, π (step s k' v) = if k' = k then own (π s) v else π s)
    {l : List (Σ _ : K, V)} (hl : l.NodupKeys) (s : σ) :
    π (l.foldl (fun s e => step s e.1 e.2) s) = (l.dlookup k).elim (π s) (own (π s)) := by
  induction l generalizing s with
  | nil => rfl
  | cons e l ih =>
    obtain ⟨k', v⟩ := e
    obtain ⟨hk', hl'⟩ := List.nodupKeys_cons.mp hl
    rw [List.foldl_cons, ih hl', h]
    by_cases hk : k' = k
    · subst hk
      rw [List.dlookup_eq_none.mpr hk', List.dlookup_cons_eq, if_pos rfl]
      rfl
    · rw [List.dlookup_cons_ne _ _ (Ne.symm hk), if_neg hk]

theorem foldl_entries_proj {σ ρ : Type} (π : σ → ρ) (step : σ → K → V → σ) (own : ρ → V → ρ)
    {k : K} (h : ∀ s k' v, π (step s k' v) = if k' = k then own (π s) v else π s) (m : Map K V)
    (s : σ) :
    π (m.entries.foldl (fun s e => step s e.1 e.2) s) = (m.lookup k).elim (π s) (own (π s)) :=
  foldl_dlookup_proj π step own h m.nodupKeys s

theorem foldl_filterMap_proj {σ ρ β : Type} (π : σ → ρ) (f : (Σ _ : K, V) → Option β)
    (step : σ → β → σ) (own : ρ → V → ρ) {k : K}
    (h : ∀ s k' v, π ((f ⟨k', v⟩).elim s (step s)) = if k' = k then own (π s) v else π s)
    (m : Map K V) (s : σ) :
    π ((m.entries.filterMap f).foldl step s) = (m.lookup k).elim (π s) (own (π s)) := by
  have hfold : (m.entries.filterMap f).foldl step s =
      m.entries.foldl (fun s e => (f ⟨e.1, e.2⟩).elim s (step s)) s := by
    rw [List.foldl_filterMap]
    congr 1
    funext s e
    cases f e <;> rfl
  rw [hfold]
  exact foldl_entries_proj π (fun s k v => (f ⟨k, v⟩).elim s (step s)) own h m s

def collect (l : List (K × V)) : Map K V := l.foldl (fun m e => m.set e.1 e.2) ∅

theorem lookup_collect {l : List (K × W)} {m : Map K V} {f : V → W}
    (h : l.Perm (m.entries.map fun e => (e.1, f e.2))) (k : K) :
    (collect l).lookup k = (m.lookup k).map f := by
  have hperm : (l.map fun e => (⟨e.1, e.2⟩ : Σ _ : K, W)).Perm
      (m.entries.map fun e => ⟨e.1, f e.2⟩) := by
    have := h.map fun e => (⟨e.1, e.2⟩ : Σ _ : K, W)
    rwa [List.map_map] at this
  have hnodup : (l.map fun e => (⟨e.1, e.2⟩ : Σ _ : K, W)).NodupKeys :=
    (List.perm_nodupKeys hperm).mpr (nodupKeys_map m fun _ => f)
  have hfold : collect l = (l.map fun e => (⟨e.1, e.2⟩ : Σ _ : K, W)).foldl
      (fun m e => m.set e.1 e.2) (∅ : Map K W) := by
    rw [List.foldl_map]
    rfl
  rw [hfold, foldl_dlookup_proj (k := k) (fun m : Map K W => m.lookup k) (fun m k v => m.set k v)
    (fun _ v => some v) (fun m k' v => ?_) hnodup, List.perm_dlookup k hnodup hperm]
  · have hm := lookup_mapValues m f k
    change (m.entries.map fun e => (⟨e.1, f e.2⟩ : Σ _ : K, W)).dlookup k = _ at hm
    rw [hm]
    cases m.lookup k <;> rfl
  · rw [lookup_set]
    by_cases hk : k' = k
    · rw [if_pos hk, if_pos hk.symm]
    · rw [if_neg hk, if_neg (Ne.symm hk)]

theorem foldlM_entries_isSome {σ ρ : Type} (π : σ → K → ρ) {step : σ → K → V → Option σ}
    (own : ρ → V → Option ρ)
    (h : ∀ s k v r, own (π s k) v = some r → ∃ s', step s k v = some s' ∧
      ∀ k', π s' k' = if k' = k then r else π s k')
    (m : Map K V) {s : σ} (hs : ∀ k v, m.lookup k = some v → (own (π s k) v).isSome) :
    ∃ s', m.entries.foldlM (fun s e => step s e.1 e.2) s = some s' ∧
      ∀ k, (m.lookup k).elim (some (π s k)) (own (π s k)) = some (π s' k) := by
  obtain ⟨l, hl⟩ := m
  change ∀ k v, l.dlookup k = some v → _ at hs
  change ∃ s', l.foldlM _ s = some s' ∧ ∀ k, (l.dlookup k).elim _ _ = _
  induction l generalizing s with
  | nil => exact ⟨s, rfl, fun _ => rfl⟩
  | cons e l ih =>
    obtain ⟨k₀, v₀⟩ := e
    obtain ⟨hk₀, hl'⟩ := List.nodupKeys_cons.mp hl
    obtain ⟨r, hr⟩ := Option.isSome_iff_exists.mp (hs k₀ v₀ (List.dlookup_cons_eq l k₀ v₀))
    obtain ⟨s₁, hs₁, hπ⟩ := h s k₀ v₀ r hr
    have hrest : ∀ k v, l.dlookup k = some v → (own (π s₁ k) v).isSome := by
      intro k v hv
      have hk : k ≠ k₀ := by
        rintro rfl
        rw [List.dlookup_eq_none.mpr hk₀] at hv
        cases hv
      rw [hπ, if_neg hk]
      exact hs k v (by rw [List.dlookup_cons_ne _ _ hk, hv])
    obtain ⟨s', hs', hown⟩ := ih hl' hrest
    refine ⟨s', by rw [List.foldlM_cons, hs₁]; exact hs', fun k => ?_⟩
    rw [← hown k, hπ]
    by_cases hk : k = k₀
    · subst hk
      rw [List.dlookup_cons_eq, List.dlookup_eq_none.mpr hk₀, if_pos rfl]
      exact hr
    · rw [List.dlookup_cons_ne _ _ hk, if_neg hk]

theorem foldlM_entries_eq_some {σ ρ : Type} (π : σ → K → ρ) {step : σ → K → V → Option σ}
    (own : ρ → V → Option ρ)
    (h : ∀ s k v s', step s k v = some s' → ∃ r, own (π s k) v = some r ∧
      ∀ k', π s' k' = if k' = k then r else π s k')
    (m : Map K V) {s s' : σ} (hs : m.entries.foldlM (fun s e => step s e.1 e.2) s = some s')
    (k : K) : (m.lookup k).elim (some (π s k)) (own (π s k)) = some (π s' k) := by
  obtain ⟨l, hl⟩ := m
  change l.foldlM _ s = some s' at hs
  change (l.dlookup k).elim _ _ = _
  induction l generalizing s with
  | nil => cases hs; rfl
  | cons e l ih =>
    obtain ⟨k₀, v₀⟩ := e
    obtain ⟨hk₀, hl'⟩ := List.nodupKeys_cons.mp hl
    rw [List.foldlM_cons] at hs
    obtain ⟨s₁, hs₁, hs⟩ := Option.bind_eq_some_iff.mp hs
    obtain ⟨r, hr, hπ⟩ := h s k₀ v₀ s₁ hs₁
    rw [← ih hl' hs, hπ]
    by_cases hk : k = k₀
    · subst hk
      rw [List.dlookup_cons_eq, List.dlookup_eq_none.mpr hk₀, if_pos rfl]
      exact hr
    · rw [List.dlookup_cons_ne _ _ hk, if_neg hk]

theorem lookup_foldl_insert (m o : Map K V) (k : K) :
    (o.entries.foldl (fun m e => m.insert e.1 e.2) m).lookup k = (o.lookup k).or (m.lookup k) := by
  have h : ∀ (m : Map K V) k' v, (m.insert k' v).lookup k =
      if k' = k then some v else m.lookup k := by
    intro m k' v
    rw [lookup_insert_ite]
    simp only [eq_comm]
  rw [foldl_entries_proj (fun m : Map K V => m.lookup k) (fun m k v => m.insert k v)
    (fun _ v => some v) h]
  cases o.lookup k <;> rfl

/-! ## Sums over the values -/

def total (m : Map K V) (f : V → ℕ) : ℕ := (m.entries.map fun e => f e.2).sum

variable (f : V → ℕ)

theorem total_erase (m : Map K V) (k : K) :
    total (m.erase k) f + (m.lookup k).elim 0 f = m.total f := by
  obtain ⟨l, hl⟩ := m
  change ((l.kerase k).map fun e => f e.2).sum + (l.dlookup k).elim 0 f = (l.map fun e => f e.2).sum
  induction l with
  | nil => rfl
  | cons e l ih =>
    obtain ⟨k', v⟩ := e
    obtain ⟨-, hl'⟩ := List.nodupKeys_cons.mp hl
    by_cases h : k = k'
    · subst h
      have he : List.kerase k (⟨k, v⟩ :: l) = l := List.kerase_cons_eq rfl
      rw [he, List.dlookup_cons_eq, List.map_cons, List.sum_cons]
      exact Nat.add_comm _ _
    · have he : List.kerase k (⟨k', v⟩ :: l) = ⟨k', v⟩ :: List.kerase k l := List.kerase_cons_ne h
      rw [he, List.dlookup_cons_ne _ _ h, List.map_cons, List.map_cons,
        List.sum_cons, List.sum_cons, ← ih hl', Nat.add_assoc]

theorem total_modify (m : Map K V) (k : K) (g : V → V) :
    (m.modify k g).total f + (m.lookup k).elim 0 f =
      m.total f + (m.lookup k).elim 0 fun v => f (g v) := by
  obtain ⟨l, hl⟩ := m
  unfold total
  rw [entries_modify, List.map_map]
  change _ + (l.dlookup k).elim 0 f = _ + (l.dlookup k).elim 0 _
  induction l with
  | nil => rfl
  | cons e l ih =>
    obtain ⟨k', v⟩ := e
    obtain ⟨hk', hl'⟩ := List.nodupKeys_cons.mp hl
    have ih := ih hl'
    simp only [List.map_cons, List.sum_cons, Function.comp_apply] at ih ⊢
    by_cases h : k' = k
    · subst h
      rw [List.dlookup_eq_none.mpr hk'] at ih
      rw [List.dlookup_cons_eq, if_pos rfl]
      simp only [Option.elim_none, Option.elim_some] at ih ⊢
      omega
    · rw [List.dlookup_cons_ne _ _ (Ne.symm h), if_neg h]
      omega

theorem total_set (m : Map K V) (k : K) (v : V) :
    (m.set k v).total f + (m.lookup k).elim 0 f = m.total f + f v := by
  cases h : m.lookup k with
  | some w =>
    have hm := total_modify f m k fun _ => v
    rw [set_of_some h]
    rwa [h] at hm
  | none =>
    rw [set_of_none h]
    unfold total
    rw [AList.entries_insert_of_notMem (AList.lookup_eq_none.mp h)]
    simp [Nat.add_comm]

theorem total_alter (m : Map K V) (k : K) (g : Option V → Option V) :
    (m.alter k g).total f + (m.lookup k).elim 0 f =
      m.total f + (g (m.lookup k)).elim 0 f := by
  unfold alter
  cases g (m.lookup k) with
  | some v => exact total_set f m k v
  | none => exact total_erase f m k

theorem le_total (m : Map K V) (k : K) : (m.lookup k).elim 0 f ≤ m.total f := by
  have := total_erase f m k
  omega

end Map
