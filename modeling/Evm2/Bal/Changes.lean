import Evm2.Lib.Search

/-!
# Change lists of a block access list

* **`bal_changes_record_history`**: what a list built by `update` holds and answers.
-/

namespace Evm2

/-- `BalChange`: the value of an item after the transaction with the index. The code's four types of
changes differ in the type of the value. -/
structure BalChange (V : Type) where
  blockAccessIndex : ℕ
  value : V
  deriving DecidableEq, Repr

/-- `BalChanges`. `prior` is the value before the first change. -/
structure BalChanges (V : Type) where
  changes : List (BalChange V)
  prior : Option V
  deriving DecidableEq, Repr

namespace BalChanges

variable {V K : Type}

def default : BalChanges V := ⟨[], none⟩

def valueBefore (c : BalChanges V) (i : ℕ) : Option V :=
  if i = 0 then none else (c.changes[i - 1]?).map BalChange.value

def getLinearSearch (c : BalChanges V) (balIndex : ℕ) : Option V :=
  c.valueBefore (c.changes.findIdx fun change => balIndex ≤ change.blockAccessIndex)

def get (c : BalChanges V) (balIndex : ℕ) : Option V :=
  if c.changes.length < 5 then c.getLinearSearch balIndex
  else c.valueBefore
    (Search.position (Search.binarySearchByKey c.changes balIndex BalChange.blockAccessIndex))

def isEmpty (c : BalChanges V) : Bool := c.changes.isEmpty

def updateWithKey [DecidableEq K] (f : V → K) (c : BalChanges V) (index : ℕ)
    (originalValue value : V) : BalChanges V :=
  if f originalValue = f value then c
  else match c.changes.getLast? with
    | none => ⟨[⟨index, value⟩], some originalValue⟩
    | some last =>
      if last.blockAccessIndex ≠ index then
        if f last.value ≠ f value then { c with changes := c.changes ++ [⟨index, value⟩] } else c
      else
        let previous := match c.changes.dropLast.getLast? with
          | some previous => f previous.value
          | none => f (c.prior.getD originalValue)
        if previous = f value then { c with changes := c.changes.dropLast }
        else { c with changes := c.changes.dropLast ++ [⟨last.blockAccessIndex, value⟩] }

def update [DecidableEq V] (c : BalChanges V) (index : ℕ) (originalValue value : V) :
    BalChanges V :=
  updateWithKey id c index originalValue value

/-! ## The value before an index -/

/-- The value of an item that was `v`, after those changes of the list with a smaller index. -/
def before (i : ℕ) (v : V) (l : List (BalChange V)) : V :=
  l.foldl (fun v x => if x.blockAccessIndex < i then x.value else v) v

@[simp]
theorem before_nil (i : ℕ) (v : V) : before i v [] = v := rfl

@[simp]
theorem before_concat (i : ℕ) (v : V) (l : List (BalChange V)) (x : BalChange V) :
    before i v (l ++ [x]) = if x.blockAccessIndex < i then x.value else before i v l := by
  simp [before, List.foldl_append]

theorem before_cons (i : ℕ) (v : V) (l : List (BalChange V)) (x : BalChange V) :
    before i v (x :: l) = before i (if x.blockAccessIndex < i then x.value else v) l := rfl

variable {l : List (BalChange V)}

theorem before_of_le {i : ℕ} (h : ∀ x ∈ l, i ≤ x.blockAccessIndex)
    (v : V) : before i v l = v := by
  induction l with
  | nil => rfl
  | cons x l ih =>
    have hx := h x List.mem_cons_self
    rw [before_cons, if_neg (by omega)]
    exact ih fun y hy => h y (List.mem_cons_of_mem x hy)

theorem before_of_lt {i j : ℕ} (hi : ∀ x ∈ l, x.blockAccessIndex < i)
    (hj : ∀ x ∈ l, x.blockAccessIndex < j) (v : V) : before i v l = before j v l := by
  induction l generalizing v with
  | nil => rfl
  | cons x l ih =>
    rw [before_cons, before_cons, if_pos (hi x List.mem_cons_self),
      if_pos (hj x List.mem_cons_self)]
    exact ih (fun y hy => hi y (List.mem_cons_of_mem x hy))
      (fun y hy => hj y (List.mem_cons_of_mem x hy)) _

def Sorted (l : List (BalChange V)) : Prop :=
  l.Pairwise fun x y => x.blockAccessIndex < y.blockAccessIndex

theorem getLinearSearch_cons (x : BalChange V) (l : List (BalChange V)) (p p' : Option V) (i : ℕ) :
    getLinearSearch ⟨x :: l, p⟩ i =
      if i ≤ x.blockAccessIndex then none else some ((getLinearSearch ⟨l, p'⟩ i).getD x.value) := by
  unfold getLinearSearch valueBefore
  simp only
  rw [List.findIdx_cons]
  by_cases h : i ≤ x.blockAccessIndex
  · simp [h]
  · simp only [h, decide_false, cond_false, if_false]
    generalize hn : l.findIdx (fun change => decide (i ≤ change.blockAccessIndex)) = n
    have hle : n ≤ l.length := hn ▸ List.findIdx_le_length
    cases n with
    | zero => simp
    | succ n => simp [List.getElem?_eq_getElem (show n < l.length from hle)]

theorem getLinearSearch_eq (hl : Sorted l) (p : Option V) (i : ℕ) (v : V) :
    (getLinearSearch ⟨l, p⟩ i).getD v = before i v l := by
  induction l generalizing v with
  | nil => rfl
  | cons x l ih =>
    obtain ⟨hx, hl⟩ := List.pairwise_cons.mp hl
    rw [getLinearSearch_cons x l p p, before_cons]
    by_cases h : i ≤ x.blockAccessIndex
    · rw [if_pos h, if_neg (by omega), before_of_le fun y hy => h.trans (hx y hy).le]
      rfl
    · rw [if_neg h, if_pos (by omega), Option.getD_some]
      exact ih hl x.value

theorem getLinearSearch_eq_none (hl : Sorted l) (p : Option V) (i : ℕ) :
    getLinearSearch ⟨l, p⟩ i = none ↔ ∀ x ∈ l, i ≤ x.blockAccessIndex := by
  cases l with
  | nil => simp [getLinearSearch, valueBefore]
  | cons x l =>
    obtain ⟨hx, -⟩ := List.pairwise_cons.mp hl
    rw [getLinearSearch_cons x l p p]
    split_ifs with h
    · refine iff_of_true rfl fun y hy => ?_
      rcases List.mem_cons.mp hy with rfl | hy
      · exact h
      · exact h.trans (hx y hy).le
    · exact iff_of_false (by simp) fun hall => h (hall x List.mem_cons_self)

theorem get_eq_getLinearSearch {c : BalChanges V} (hc : Sorted c.changes) (i : ℕ) :
    c.get i = c.getLinearSearch i := by
  unfold get
  split_ifs with h
  · rfl
  · rw [Search.position_binarySearchByKey hc, getLinearSearch]

/-! ## Histories -/

/-- A call of `update`. -/
structure Update (V : Type) where
  index : ℕ
  originalValue : V
  value : V
  deriving DecidableEq, Repr

def Update.change (u : Update V) : BalChange V := ⟨u.index, u.value⟩

@[simp]
theorem Update.blockAccessIndex_change (u : Update V) : u.change.blockAccessIndex = u.index := rfl

@[simp]
theorem Update.value_change (u : Update V) : u.change.value = u.value := rfl

def valueAfter (v : V) (calls : List (Update V)) : V := calls.foldl (fun _ u => u.value) v

/-- Each original value is the one that the previous call left, as far as `f` tells. -/
def Chained (f : V → K) (v : V) : List (Update V) → Prop
  | [] => True
  | u :: calls => f u.originalValue = f v ∧ Chained f u.value calls

/-- The list after calls of `update_with_key`. -/
def record [DecidableEq K] (f : V → K) (c : BalChanges V) (calls : List (Update V)) :
    BalChanges V :=
  calls.foldl (fun c u => updateWithKey f c u.index u.originalValue u.value) c

theorem valueAfter_filter (i : ℕ) (v : V) (calls : List (Update V)) :
    valueAfter v (calls.filter fun u => u.index < i) = before i v (calls.map Update.change) := by
  induction calls generalizing v with
  | nil => rfl
  | cons u calls ih =>
    rw [List.map_cons, before_cons, List.filter_cons]
    by_cases h : u.index < i
    · simp only [h, decide_true, if_true]
      exact (ih u.value).trans (by simp [h])
    · simp only [h, decide_false, Bool.false_eq_true, if_false]
      exact (ih v).trans (by simp [h])

theorem valueAfter_concat (v : V) (calls : List (Update V)) (u : Update V) :
    valueAfter v (calls ++ [u]) = u.value := by
  simp [valueAfter, List.foldl_append]

theorem chained_concat {f : V → K} {v : V} {calls : List (Update V)} {u : Update V}
    (h : Chained f v (calls ++ [u])) :
    Chained f v calls ∧ f u.originalValue = f (valueAfter v calls) := by
  induction calls generalizing v with
  | nil => exact ⟨trivial, h.1⟩
  | cons x calls ih =>
    obtain ⟨hx, hrest⟩ := h
    obtain ⟨hc, hu⟩ := ih hrest
    exact ⟨⟨hx, hc⟩, hu⟩

variable (f : V → K) (v₀ : V)

/-- A list that records the calls `calls` on an item that was `v₀`. -/
structure Records (calls : List (Update V)) (c : BalChanges V) : Prop where
  sorted : Sorted c.changes
  indices : ∀ x ∈ c.changes, ∃ u ∈ calls, u.index = x.blockAccessIndex
  proper : ∀ x ∈ c.changes, f x.value ≠ f (before x.blockAccessIndex v₀ c.changes)
  prior : c.changes ≠ [] → c.prior.map f = some (f v₀)
  visible : ∀ i, f (before i v₀ c.changes) = f (before i v₀ (calls.map Update.change))

variable {f v₀}

theorem records_default : Records f v₀ [] default where
  sorted := List.Pairwise.nil
  indices := by simp [default]
  proper := by simp [default]
  prior h := absurd rfl h
  visible _ := rfl

namespace Records

variable {calls : List (Update V)} {c : BalChanges V} {u : Update V}

theorem le (h : Records f v₀ calls c) (hu : ∀ x ∈ calls, x.index ≤ u.index) :
    ∀ x ∈ c.changes, x.blockAccessIndex ≤ u.index := by
  intro x hx
  obtain ⟨y, hy, he⟩ := h.indices x hx
  exact he ▸ hu y hy

theorem current (h : Records f v₀ calls c) (hu : ∀ x ∈ calls, x.index ≤ u.index) {i : ℕ}
    (hi : u.index < i) : f (before i v₀ c.changes) = f (valueAfter v₀ calls) := by
  have hall : (calls.filter fun x => x.index < i) = calls :=
    List.filter_eq_self.mpr fun x hx => by simpa using lt_of_le_of_lt (hu x hx) hi
  rw [h.visible, ← valueAfter_filter, hall]

variable {l : List (BalChange V)}

theorem visible_concat (h : Records f v₀ calls c)
    (hle : ∀ i, i ≤ u.index → f (before i v₀ l) = f (before i v₀ c.changes))
    (hlt : ∀ i, u.index < i → f (before i v₀ l) = f u.value) (i : ℕ) :
    f (before i v₀ l) = f (before i v₀ ((calls ++ [u]).map Update.change)) := by
  rw [List.map_append, List.map_singleton, before_concat, Update.blockAccessIndex_change,
    Update.value_change]
  split_ifs with hi
  · exact hlt i hi
  · rw [hle i (by omega)]
    exact h.visible i

theorem indices_concat
    (hl : ∀ x ∈ l, (∃ y ∈ calls, y.index = x.blockAccessIndex) ∨ x.blockAccessIndex = u.index) :
    ∀ x ∈ l, ∃ y ∈ calls ++ [u], y.index = x.blockAccessIndex := by
  intro x hx
  rcases hl x hx with ⟨y, hy, he⟩ | he
  · exact ⟨y, List.mem_append_left _ hy, he⟩
  · exact ⟨u, List.mem_append_right _ List.mem_cons_self, he.symm⟩

theorem sorted_concat (hl : Sorted l) {x : BalChange V}
    (hx : ∀ y ∈ l, y.blockAccessIndex < x.blockAccessIndex) : Sorted (l ++ [x]) := by
  refine List.pairwise_append.mpr ⟨hl, List.pairwise_singleton _ _, fun y hy z hz => ?_⟩
  rw [List.mem_singleton.mp hz]
  exact hx y hy

theorem proper_concat {x : BalChange V}
    (hlt : ∀ y ∈ l, y.blockAccessIndex < x.blockAccessIndex)
    (hl : ∀ y ∈ l, f y.value ≠ f (before y.blockAccessIndex v₀ l))
    (hx : f x.value ≠ f (before x.blockAccessIndex v₀ l)) :
    ∀ y ∈ l ++ [x], f y.value ≠ f (before y.blockAccessIndex v₀ (l ++ [x])) := by
  intro y hy
  rw [before_concat]
  rcases List.mem_append.mp hy with hy | hy
  · have := hlt y hy
    rw [if_neg (by omega)]
    exact hl y hy
  · rw [List.mem_singleton.mp hy, if_neg (lt_irrefl _)]
    exact hx

theorem skip (h : Records f v₀ calls c) (hu : ∀ x ∈ calls, x.index ≤ u.index)
    (hsame : f (valueAfter v₀ calls) = f u.value) : Records f v₀ (calls ++ [u]) c where
  sorted := h.sorted
  indices := indices_concat fun x hx => .inl (h.indices x hx)
  proper := h.proper
  prior := h.prior
  visible := h.visible_concat (fun _ _ => rfl) fun _ hi => (h.current hu hi).trans hsame

theorem push (h : Records f v₀ calls c) (hu : ∀ x ∈ c.changes, x.blockAccessIndex < u.index)
    (hvalue : f u.value ≠ f (before u.index v₀ c.changes)) {p : Option V}
    (hp : p.map f = some (f v₀)) :
    Records f v₀ (calls ++ [u]) ⟨c.changes ++ [u.change], p⟩ where
  sorted := sorted_concat h.sorted hu
  indices := indices_concat fun x hx => by
    rcases List.mem_append.mp hx with hx | hx
    · exact .inl (h.indices x hx)
    · exact .inr (by rw [List.mem_singleton.mp hx]; rfl)
  proper := proper_concat hu h.proper hvalue
  prior _ := hp
  visible := h.visible_concat
    (fun _ hi => by rw [before_concat, if_neg (by simpa using hi)])
    (fun _ hi => by rw [before_concat, if_pos (by simpa using hi), Update.value_change])

theorem undo {last : BalChange V} {p : Option V}
    (h : Records f v₀ calls ⟨l ++ [last], p⟩) :
    Sorted l ∧ (∀ x ∈ l, x.blockAccessIndex < last.blockAccessIndex) ∧
      (∀ x ∈ l, f x.value ≠ f (before x.blockAccessIndex v₀ l)) := by
  obtain ⟨hl, -, hlast⟩ := List.pairwise_append.mp h.sorted
  have hlt : ∀ x ∈ l, x.blockAccessIndex < last.blockAccessIndex :=
    fun x hx => hlast x hx last List.mem_cons_self
  refine ⟨hl, hlt, fun x hx => ?_⟩
  have hx' := h.proper x (List.mem_append_left _ hx)
  have := hlt x hx
  rwa [before_concat, if_neg (by omega)] at hx'

theorem pop {last : BalChange V} {p : Option V}
    (h : Records f v₀ calls ⟨l ++ [last], p⟩) (hlast : last.blockAccessIndex = u.index)
    (hvalue : f (before u.index v₀ l) = f u.value) : Records f v₀ (calls ++ [u]) ⟨l, p⟩ := by
  obtain ⟨hl, hlt, hproper⟩ := h.undo
  rw [hlast] at hlt
  refine ⟨hl, indices_concat fun x hx => .inl (h.indices x (List.mem_append_left _ hx)), hproper,
    fun _ => h.prior (by simp), h.visible_concat (fun i hi => ?_) fun i hi => ?_⟩
  · rw [before_concat, if_neg (by omega)]
  · rw [← hvalue, before_of_lt (fun x hx => (hlt x hx).trans hi) hlt]

theorem replace {last : BalChange V} {p : Option V}
    (h : Records f v₀ calls ⟨l ++ [last], p⟩) (hlast : last.blockAccessIndex = u.index)
    (hvalue : f (before u.index v₀ l) ≠ f u.value) :
    Records f v₀ (calls ++ [u]) ⟨l ++ [u.change], p⟩ := by
  obtain ⟨hl, hlt, hproper⟩ := h.undo
  rw [hlast] at hlt
  refine ⟨sorted_concat hl hlt, indices_concat fun x hx => ?_,
    proper_concat hlt hproper hvalue.symm, fun _ => h.prior (by simp),
    h.visible_concat (fun i hi => ?_) fun i hi => ?_⟩
  · rcases List.mem_append.mp hx with hx | hx
    · exact .inl (h.indices x (List.mem_append_left _ hx))
    · exact .inr (by rw [List.mem_singleton.mp hx]; rfl)
  · rw [before_concat, before_concat, if_neg (by simpa using hi), if_neg (by omega)]
  · rw [before_concat, if_pos (by simpa using hi), Update.value_change]

theorem step [DecidableEq K] (h : Records f v₀ calls c) (hu : ∀ x ∈ calls, x.index ≤ u.index)
    (hchain : f u.originalValue = f (valueAfter v₀ calls)) :
    Records f v₀ (calls ++ [u]) (updateWithKey f c u.index u.originalValue u.value) := by
  obtain ⟨l, p⟩ := c
  have hcur : ∀ i, u.index < i → f (before i v₀ l) = f u.originalValue :=
    fun i hi => (h.current hu hi).trans hchain.symm
  unfold updateWithKey
  split_ifs with hsame
  · exact h.skip hu (hchain ▸ hsame)
  · rcases List.eq_nil_or_concat l with rfl | ⟨l, last, rfl⟩
    · -- the first change of the item; its original value is the value before
      have hv : f u.originalValue = f v₀ := (hcur (u.index + 1) (Nat.lt_succ_self _)).symm
      refine h.push (c := ⟨[], p⟩) (by simp) ?_ (by simp [hv])
      rw [before_nil, ← hv]
      exact Ne.symm hsame
    · have hlast := h.le hu last (by simp)
      simp only [List.concat_eq_append, List.getLast?_append, List.getLast?_singleton,
        Option.some_or, List.dropLast_concat] at h hcur ⊢
      have hold : f last.value = f u.originalValue := by
        have := hcur (u.index + 1) (Nat.lt_succ_self _)
        rwa [before_concat, if_pos (by omega)] at this
      obtain ⟨-, hlt, -⟩ := h.undo
      by_cases hidx : last.blockAccessIndex = u.index
      · rw [if_neg (not_not.mpr hidx)]
        -- the value that the code compares with is the one before the index
        have hprev : (match l.getLast? with
            | some previous => f previous.value
            | none => f (p.getD u.originalValue)) = f (before u.index v₀ l) := by
          rcases List.eq_nil_or_concat l with rfl | ⟨l', x, rfl⟩
          · have hp := h.prior (by simp)
            obtain ⟨w, hw, hwv⟩ := Option.map_eq_some_iff.mp hp
            simp only at hw
            simpa [hw] using hwv
          · have hx := hlt x (by simp)
            simp only [List.concat_eq_append, List.getLast?_append, List.getLast?_singleton,
              Option.some_or]
            rw [before_concat, if_pos (by omega)]
        rw [hprev, hidx]
        split_ifs with hback
        · exact h.pop hidx hback
        · exact h.replace hidx hback
      · have hnew : f last.value ≠ f u.value := hold ▸ hsame
        have hlt' : ∀ x ∈ l ++ [last], x.blockAccessIndex < u.index := by
          intro x hx
          rcases List.mem_append.mp hx with hx | hx
          · exact (hlt x hx).trans_le hlast
          · rw [List.mem_singleton.mp hx]
            exact lt_of_le_of_ne hlast hidx
        rw [if_pos hidx, if_pos hnew]
        refine h.push (c := ⟨l ++ [last], p⟩) hlt' ?_ (h.prior (by simp))
        rw [before_concat, if_pos (hlt' last (by simp))]
        exact hnew.symm

end Records

theorem records_record [DecidableEq K] {calls : List (Update V)} (hchain : Chained f v₀ calls)
    (hmono : calls.Pairwise fun x y => x.index ≤ y.index) :
    Records f v₀ calls (record f default calls) := by
  induction calls using List.reverseRecOn with
  | nil => exact records_default
  | append_singleton calls u ih =>
    obtain ⟨hpre, hu⟩ := chained_concat hchain
    obtain ⟨hcalls, -, hlast⟩ := List.pairwise_append.mp hmono
    rw [record, List.foldl_append]
    exact (ih hpre hcalls).step (fun x hx => hlast x hx u List.mem_cons_self) hu

theorem Records.get {calls : List (Update V)} {c : BalChanges V} (h : Records f v₀ calls c)
    (i : ℕ) :
    f ((c.get i).getD v₀) = f (valueAfter v₀ (calls.filter fun u => u.index < i)) ∧
      (c.get i = none ↔ ∀ x ∈ c.changes, i ≤ x.blockAccessIndex) := by
  rw [get_eq_getLinearSearch h.sorted]
  refine ⟨?_, getLinearSearch_eq_none h.sorted c.prior i⟩
  rw [valueAfter_filter, ← h.visible, ← getLinearSearch_eq h.sorted c.prior i v₀]

end BalChanges

section History

variable {V : Type} [DecidableEq V]

open BalChanges

/-- **A change list records exactly the history of its item.** -/
theorem bal_changes_record_history (v₀ : V) (calls : List (Update V))
    (hchain : Chained id v₀ calls) (hmono : calls.Pairwise fun x y => x.index ≤ y.index)
    (c : BalChanges V)
    (hc : c = calls.foldl (fun c u => update c u.index u.originalValue u.value) .default) :
    (c.changes.Pairwise fun x y => x.blockAccessIndex < y.blockAccessIndex) ∧
      (∀ x ∈ c.changes, x.value ≠ (c.get x.blockAccessIndex).getD v₀) ∧
      (∀ i v, c.get i = some v → v = valueAfter v₀ (calls.filter fun u => u.index < i)) ∧
      (∀ i, c.get i = none ↔ valueAfter v₀ (calls.filter fun u => u.index < i) = v₀ ∧
        ∀ x ∈ c.changes, i ≤ x.blockAccessIndex) ∧
      (∀ i, c.get i = c.getLinearSearch i) := by
  have h : Records id v₀ calls c := hc ▸ records_record hchain hmono
  have hget : ∀ i, (c.get i).getD v₀ = valueAfter v₀ (calls.filter fun u => u.index < i) :=
    fun i => (h.get i).1
  refine ⟨h.sorted, fun x hx => ?_, fun i v hv => ?_, fun i => ?_,
    fun i => get_eq_getLinearSearch h.sorted i⟩
  · rw [hget, valueAfter_filter, ← id_eq (a := before _ _ _), ← h.visible]
    exact h.proper x hx
  · rw [← hget i, hv]
    rfl
  · rw [(h.get i).2]
    refine ⟨fun hall => ⟨?_, hall⟩, And.right⟩
    rw [← hget i, (h.get i).2.mpr hall]
    rfl

/-- Two updates cancel each other at index 1, and a third one is recorded at index 2. -/
theorem bal_changes_record_history_cancel :
    let calls : List (Update ℕ) := [⟨1, 7, 8⟩, ⟨1, 8, 7⟩, ⟨2, 7, 9⟩]
    let c : BalChanges ℕ :=
      calls.foldl (fun c u => update c u.index u.originalValue u.value) .default
    c.changes = [⟨2, 9⟩] ∧ (∀ i v, c.get i = some v →
      v = valueAfter 7 (calls.filter fun u => u.index < i)) ∧ c.get 2 = none := by
  refine ⟨by decide, ?_, by decide⟩
  exact (bal_changes_record_history 7 [⟨1, 7, 8⟩, ⟨1, 8, 7⟩, ⟨2, 7, 9⟩] ⟨rfl, rfl, rfl, trivial⟩
    (by decide) _ rfl).2.2.1

end History

end Evm2
