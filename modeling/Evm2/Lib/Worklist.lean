import Mathlib

/-!
# Data flow over a graph

A forward analysis keeps a state for each node and a queue of the nodes to visit. A visit transfers
the state of a node to its exit and joins it into the successors; nodes whose state changes are
visited again. Some nodes also flow into a hub, and the hub into some nodes.

* **`DataFlow.solve_closed`**: with an empty queue, what a state stands for is carried along edges;
* **`DataFlow.solve_finishes`**: if joins go down in a rank, `DataFlow.potential` is enough fuel.
-/

/-- A forward analysis. States that are not `live` are not carried on. -/
structure DataFlow (S : Type) where
  join : S → S → S
  transfer : ℕ → S → S
  live : S → Bool
  succs : ℕ → List ℕ
  toHub : ℕ → Bool
  fromHub : List ℕ

namespace DataFlow

variable {S α : Type}

structure State (S : Type) where
  entry : ℕ → S
  hub : S
  queue : List ℕ

def State.push (st : State S) (n : ℕ) : State S :=
  if n ∈ st.queue then st else { st with queue := st.queue ++ [n] }

section Solver

variable [DecidableEq S] (F : DataFlow S)

def update (incoming : S) (st : State S) (n : ℕ) : State S :=
  if F.join (st.entry n) incoming = st.entry n then st
  else { st with entry := Function.update st.entry n (F.join (st.entry n) incoming) }.push n

def updateHub (incoming : S) (st : State S) : State S :=
  if F.join st.hub incoming = st.hub then st
  else F.fromHub.foldl (F.update (F.join st.hub incoming))
    { st with hub := F.join st.hub incoming }

def visit (st : State S) (n : ℕ) : State S :=
  let exit := F.transfer n (st.entry n)
  if F.live exit then
    let st := (F.succs n).foldl (F.update exit) st
    if F.toHub n then F.updateHub exit st else st
  else st

def solve : ℕ → State S → State S
  | 0, st => st
  | fuel + 1, st =>
    match st.queue with
    | [] => st
    | n :: queue => solve fuel (F.visit { st with queue } n)

end Solver

/-! ## What states stand for -/

/-- Joins only add to what a state stands for, and states that are not live stand for nothing. -/
structure Over (F : DataFlow S) (γ : S → α → Prop) : Prop where
  left : ∀ {a b x}, γ a x → γ (F.join a b) x
  right : ∀ {a b x}, γ b x → γ (F.join a b) x
  live : ∀ {a x}, γ a x → F.live a = true

/-- What the nodes outside the queue stand for has been carried along their edges. -/
structure Closed (F : DataFlow S) (γ : S → α → Prop) (st : State S) : Prop where
  edge : ∀ {n x}, n ∉ st.queue → γ (F.transfer n (st.entry n)) x → ∀ m ∈ F.succs n,
    γ (st.entry m) x
  toHub : ∀ {n x}, n ∉ st.queue → γ (F.transfer n (st.entry n)) x → F.toHub n = true →
    γ st.hub x
  fromHub : ∀ {x}, γ st.hub x → ∀ m ∈ F.fromHub, γ (st.entry m) x

/-- Nodes stand for more, and those that stand for more have been queued. -/
structure Grows (γ : S → α → Prop) (st st' : State S) : Prop where
  entry : ∀ {n x}, γ (st.entry n) x → γ (st'.entry n) x
  kept : ∀ {n}, n ∉ st'.queue → n ∉ st.queue ∧ st'.entry n = st.entry n

section Sound

variable {F : DataFlow S} {γ : S → α → Prop} {st st' : State S}

@[simp] theorem State.push_entry (st : State S) (n : ℕ) : (st.push n).entry = st.entry := by
  unfold State.push
  split_ifs <;> rfl

@[simp] theorem State.push_hub (st : State S) (n : ℕ) : (st.push n).hub = st.hub := by
  unfold State.push
  split_ifs <;> rfl

theorem State.mem_push {n m : ℕ} : m ∈ (st.push n).queue ↔ m ∈ st.queue ∨ m = n := by
  unfold State.push
  split_ifs with h
  · refine ⟨.inl, ?_⟩
    rintro (hm | rfl)
    · exact hm
    · exact h
  · show m ∈ st.queue ++ [n] ↔ _
    rw [List.mem_append, List.mem_singleton]

theorem Grows.refl (st : State S) : Grows γ st st := ⟨fun h => h, fun h => ⟨h, rfl⟩⟩

theorem Grows.trans {st'' : State S} (h : Grows γ st st') (h' : Grows γ st' st'') :
    Grows γ st st'' := by
  refine ⟨fun hx => h'.entry (h.entry hx), fun hn => ?_⟩
  obtain ⟨hn', heq'⟩ := h'.kept hn
  obtain ⟨hn'', heq⟩ := h.kept hn'
  exact ⟨hn'', heq'.trans heq⟩

variable [DecidableEq S] (hover : Over F γ)

@[simp] theorem update_hub (incoming : S) (st : State S) (n : ℕ) :
    (F.update incoming st n).hub = st.hub := by
  unfold update
  split_ifs
  · rfl
  · rw [State.push_hub]

theorem entry_update (incoming : S) (st : State S) (n : ℕ) :
    (F.update incoming st n).entry =
      Function.update st.entry n (F.join (st.entry n) incoming) := by
  unfold update
  split_ifs with h
  · rw [h, Function.update_eq_self]
  · rw [State.push_entry]

theorem mem_queue_update {incoming : S} {n m : ℕ} (h : m ∉ (F.update incoming st n).queue) :
    m ∉ st.queue ∧ (m = n → F.join (st.entry n) incoming = st.entry n) := by
  unfold update at h
  split_ifs at h with heq
  · exact ⟨h, fun _ => heq⟩
  · rw [State.mem_push, not_or] at h
    exact ⟨h.1, fun hm => absurd hm h.2⟩

include hover

theorem grows_update (incoming : S) (st : State S) (n : ℕ) :
    Grows γ st (F.update incoming st n) := by
  constructor
  · intro m x hx
    rw [entry_update]
    by_cases hm : m = n
    · subst hm
      rw [Function.update_self]
      exact hover.left hx
    · rw [Function.update_of_ne hm]
      exact hx
  · intro m hm
    obtain ⟨hq, heq⟩ := mem_queue_update hm
    refine ⟨hq, ?_⟩
    rw [entry_update]
    by_cases hn : m = n
    · subst hn
      rw [Function.update_self, heq rfl]
    · rw [Function.update_of_ne hn]

theorem update_right {incoming : S} {n : ℕ} {x : α} (h : γ incoming x) :
    γ ((F.update incoming st n).entry n) x := by
  rw [entry_update, Function.update_self]
  exact hover.right h

theorem grows_foldl (incoming : S) (l : List ℕ) (st : State S) :
    Grows γ st (l.foldl (F.update incoming) st) := by
  induction l generalizing st with
  | nil => exact .refl st
  | cons n l ih => exact (grows_update hover incoming st n).trans (ih _)

theorem foldl_right {incoming : S} {l : List ℕ} {n : ℕ} (hn : n ∈ l) {x : α} (h : γ incoming x) :
    γ ((l.foldl (F.update incoming) st).entry n) x := by
  induction l generalizing st with
  | nil => cases hn
  | cons m l ih =>
    rcases List.mem_cons.mp hn with rfl | hn
    · exact (grows_foldl hover incoming l _).entry (update_right hover h)
    · exact ih hn

omit hover in
theorem hub_foldl (incoming : S) (l : List ℕ) (st : State S) :
    (l.foldl (F.update incoming) st).hub = st.hub := by
  induction l generalizing st with
  | nil => rfl
  | cons n l ih => exact (ih _).trans (update_hub incoming st n)

theorem updateHub_spec (incoming : S)
    (hst : ∀ {x}, γ st.hub x → ∀ m ∈ F.fromHub, γ (st.entry m) x) :
    Grows γ st (F.updateHub incoming st) ∧
      (∀ {x}, γ st.hub x ∨ γ incoming x → γ (F.updateHub incoming st).hub x) ∧
      ∀ {x}, γ (F.updateHub incoming st).hub x →
        ∀ m ∈ F.fromHub, γ ((F.updateHub incoming st).entry m) x := by
  unfold updateHub
  split_ifs with heq
  · refine ⟨.refl st, ?_, hst⟩
    rintro x (hx | hx)
    · exact hx
    · rw [← heq]
      exact hover.right hx
  · have hgrows : Grows γ st { st with hub := F.join st.hub incoming } :=
      ⟨fun h => h, fun h => ⟨h, rfl⟩⟩
    refine ⟨hgrows.trans (grows_foldl hover _ _ _), ?_, ?_⟩
    · rw [hub_foldl]
      rintro x (hx | hx)
      · exact hover.left hx
      · exact hover.right hx
    · rw [hub_foldl]
      exact fun hx m hm => foldl_right hover hm hx

theorem Closed.visit {n : ℕ} {queue : List ℕ} (h : Closed F γ st) (hq : st.queue = n :: queue) :
    Closed F γ (F.visit { st with queue } n) := by
  -- The nodes that are neither queued nor visited were closed before, and so was the hub.
  have hold : ∀ {m}, m ∉ queue → m ≠ n → m ∉ st.queue := by
    intro m hm hne
    rw [hq, List.mem_cons, not_or]
    exact ⟨hne, hm⟩
  unfold DataFlow.visit
  dsimp only
  generalize hexit : F.transfer n (st.entry n) = exit
  by_cases hlive : F.live exit = true
  swap
  · rw [if_neg hlive]
    have hnone : ∀ {x}, ¬γ (F.transfer n (st.entry n)) x := by
      intro x hx
      rw [hexit] at hx
      exact hlive (hover.live hx)
    refine ⟨?_, ?_, h.fromHub⟩
    · intro m x hm hx
      exact h.edge (hold hm (by rintro rfl; exact hnone hx)) hx
    · intro m x hm hx
      exact h.toHub (hold hm (by rintro rfl; exact hnone hx)) hx
  rw [if_pos hlive]
  -- After the successors, and after the hub.
  have hgrows := grows_foldl hover exit (F.succs n) { st with queue }
  have hsuccs : ∀ {x}, γ exit x → ∀ m ∈ F.succs n,
      γ (((F.succs n).foldl (F.update exit) { st with queue }).entry m) x :=
    fun hx m hm => foldl_right hover hm hx
  have hhub := hub_foldl exit (F.succs n) { st with queue } (F := F)
  generalize (F.succs n).foldl (F.update exit) { st with queue } = st₁ at *
  have hfrom : ∀ {x}, γ st₁.hub x → ∀ m ∈ F.fromHub, γ (st₁.entry m) x := by
    rw [hhub]
    exact fun hx m hm => hgrows.entry (h.fromHub hx m hm)
  have hclosed : ∀ st₂ : State S, Grows γ st₁ st₂ →
      (∀ {x}, γ st₁.hub x ∨ (F.toHub n = true ∧ γ exit x) → γ st₂.hub x) →
      (∀ {x}, γ st₂.hub x → ∀ m ∈ F.fromHub, γ (st₂.entry m) x) → Closed F γ st₂ := by
    intro st₂ hgrows₂ hhub₂ hfrom₂
    have hall := hgrows.trans hgrows₂
    refine ⟨?_, ?_, hfrom₂⟩
    · intro m x hm hx k hk
      obtain ⟨hmq, heq⟩ := hall.kept hm
      rw [heq] at hx
      by_cases hmn : m = n
      · subst hmn
        rw [hexit] at hx
        exact hgrows₂.entry (hsuccs hx k hk)
      · exact hall.entry (h.edge (hold hmq hmn) hx k hk)
    · intro m x hm hx hto
      obtain ⟨hmq, heq⟩ := hall.kept hm
      rw [heq] at hx
      by_cases hmn : m = n
      · subst hmn
        rw [hexit] at hx
        exact hhub₂ (.inr ⟨hto, hx⟩)
      · refine hhub₂ (.inl ?_)
        rw [hhub]
        exact h.toHub (hold hmq hmn) hx hto
  by_cases hto : F.toHub n = true
  · rw [if_pos hto]
    obtain ⟨hgrows₂, hhub₂, hfrom₂⟩ := updateHub_spec hover exit hfrom
    exact hclosed _ hgrows₂ (fun hx => hhub₂ (hx.imp_right And.right)) hfrom₂
  · rw [if_neg hto]
    refine hclosed st₁ (.refl st₁) ?_ hfrom
    rintro x (hx | ⟨ht, -⟩)
    · exact hx
    · exact absurd ht hto

/-- **The loop keeps what has been closed.** -/
theorem solve_closed (fuel : ℕ) (h : Closed F γ st) : Closed F γ (F.solve fuel st) := by
  induction fuel generalizing st with
  | zero => exact h
  | succ fuel ih =>
    unfold solve
    split
    · exact h
    · next n queue hq => exact ih (h.visit hover hq)

theorem solve_entry (fuel : ℕ) {n : ℕ} {x : α} (h : γ (st.entry n) x) :
    γ ((F.solve fuel st).entry n) x := by
  induction fuel generalizing st with
  | zero => exact h
  | succ fuel ih =>
    unfold solve
    split
    · exact h
    · next m queue hq =>
      refine ih ?_
      unfold DataFlow.visit
      dsimp only
      split_ifs
      · unfold updateHub
        split_ifs
        · exact (grows_foldl hover _ _ _).entry h
        · exact (grows_foldl hover _ _ _).entry ((grows_foldl hover _ _ _).entry h)
      · exact (grows_foldl hover _ _ _).entry h
      · exact h

end Sound

/-! ## The end of the loop -/

/-- Joins of states with `ok` go down in a rank, and the nodes are below `size`. -/
structure Descends (F : DataFlow S) (ok : S → Prop) (rank : S → ℕ) (size : ℕ) : Prop where
  join : ∀ {a b}, ok a → ok b → ok (F.join a b)
  transfer : ∀ {n a}, ok a → ok (F.transfer n a)
  lt : ∀ {a b}, ok a → ok b → F.join a b ≠ a → rank (F.join a b) < rank a
  succs : ∀ {n m}, m ∈ F.succs n → m < size
  fromHub : ∀ {m}, m ∈ F.fromHub → m < size

/-- All states are `ok`. -/
structure State.Ok (ok : S → Prop) (st : State S) : Prop where
  entry : ∀ n, ok (st.entry n)
  hub : ok st.hub

/-- The visits that are left: those in the queue, and one for each time that a state goes down. -/
def potential (rank : S → ℕ) (size : ℕ) (st : State S) : ℕ :=
  st.queue.length + ((List.range size).map fun n => rank (st.entry n)).sum

section Ends

variable {F : DataFlow S} {ok : S → Prop} {rank : S → ℕ} {size : ℕ} {st : State S}

theorem length_push (st : State S) (n : ℕ) :
    (st.push n).queue.length ≤ st.queue.length + 1 := by
  unfold State.push
  split_ifs
  · exact Nat.le_succ _
  · rw [List.length_append, List.length_singleton]

theorem sum_update_lt {f : ℕ → S} {n : ℕ} {s : S} (hn : n < size) (h : rank s < rank (f n)) :
    ((List.range size).map fun m => rank (Function.update f n s m)).sum <
      ((List.range size).map fun m => rank (f m)).sum := by
  refine List.sum_lt_sum _ _ ?_ ⟨n, List.mem_range.mpr hn, ?_⟩
  · intro m _
    by_cases hm : m = n
    · subst hm
      rw [Function.update_self]
      exact h.le
    · rw [Function.update_of_ne hm]
  · rw [Function.update_self]
    exact h

variable [DecidableEq S] (desc : Descends F ok rank size)

include desc

theorem ok_update {incoming : S} {n : ℕ} (hst : st.Ok ok) (hin : ok incoming) :
    (F.update incoming st n).Ok ok := by
  constructor
  · intro m
    rw [entry_update]
    by_cases hm : m = n
    · subst hm
      rw [Function.update_self]
      exact desc.join (hst.entry m) hin
    · rw [Function.update_of_ne hm]
      exact hst.entry m
  · rw [update_hub]
    exact hst.hub

theorem potential_update {incoming : S} {n : ℕ} (hst : st.Ok ok) (hin : ok incoming)
    (hn : n < size) :
    potential rank size (F.update incoming st n) ≤ potential rank size st := by
  unfold update
  split_ifs with heq
  · exact le_rfl
  · have hlt := desc.lt (hst.entry n) hin heq
    have hsum := sum_update_lt (f := st.entry) hn hlt
    have hlen := length_push
      { st with entry := Function.update st.entry n (F.join (st.entry n) incoming) } n
    unfold potential
    rw [State.push_entry]
    change _ ≤ st.queue.length + 1 at hlen
    dsimp only
    omega

theorem foldl_spec {incoming : S} {l : List ℕ} (hst : st.Ok ok) (hin : ok incoming)
    (hl : ∀ n ∈ l, n < size) :
    (l.foldl (F.update incoming) st).Ok ok ∧
      potential rank size (l.foldl (F.update incoming) st) ≤ potential rank size st := by
  induction l generalizing st with
  | nil => exact ⟨hst, le_rfl⟩
  | cons n l ih =>
    obtain ⟨hok, hle⟩ := ih (ok_update desc hst hin) fun m hm => hl m (List.mem_cons_of_mem n hm)
    exact ⟨hok, hle.trans (potential_update desc hst hin (hl n List.mem_cons_self))⟩

theorem potential_updateHub {incoming : S} (hst : st.Ok ok) (hin : ok incoming) :
    (F.updateHub incoming st).Ok ok ∧
      potential rank size (F.updateHub incoming st) ≤ potential rank size st := by
  unfold updateHub
  split_ifs
  · exact ⟨hst, le_rfl⟩
  · have hhub := desc.join hst.hub hin
    have hok : State.Ok ok { st with hub := F.join st.hub incoming } := ⟨hst.entry, hhub⟩
    exact foldl_spec desc hok hhub fun m hm => desc.fromHub hm

theorem visit_spec {n : ℕ} (hst : st.Ok ok) :
    (F.visit st n).Ok ok ∧
      potential rank size (F.visit st n) ≤ potential rank size st := by
  have hexit : ok (F.transfer n (st.entry n)) := desc.transfer (hst.entry n)
  obtain ⟨hok, hle⟩ := foldl_spec desc hst hexit fun m hm => desc.succs hm
  unfold DataFlow.visit
  dsimp only
  split_ifs
  · obtain ⟨hok', hle'⟩ := potential_updateHub desc hok hexit
    exact ⟨hok', hle'.trans hle⟩
  · exact ⟨hok, hle⟩
  · exact ⟨hst, le_rfl⟩

/-- **The loop empties the queue.** -/
theorem solve_finishes {fuel : ℕ} (hst : st.Ok ok) (hfuel : potential rank size st ≤ fuel) :
    (F.solve fuel st).queue = [] := by
  induction fuel generalizing st with
  | zero =>
    have hlen : st.queue.length = 0 := by
      unfold potential at hfuel
      omega
    exact List.eq_nil_of_length_eq_zero hlen
  | succ fuel ih =>
    unfold solve
    split
    · assumption
    · next n queue hq =>
      have hpop : State.Ok ok { st with queue } := ⟨hst.entry, hst.hub⟩
      obtain ⟨hok, hle⟩ := visit_spec desc (n := n) hpop
      refine ih hok (hle.trans ?_)
      unfold potential at hfuel ⊢
      rw [hq, List.length_cons] at hfuel
      dsimp only
      omega

end Ends

end DataFlow
