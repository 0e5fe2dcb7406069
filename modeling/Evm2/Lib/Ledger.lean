import Mathlib

/-!
# Ledgers

A ledger assigns a balance to every account. A `Move` takes a value from one account and gives it to
another one, or burns it.

* `Ledger.Run b ms b'`: the moves `ms` lead from `b` to `b'`, and each of them was covered;
* `Ledger.Run.balance`: what the moves do to one account.
-/

namespace Ledger

/-- A value moves from `src` to `dst`, or is burned if there is no `dst`. -/
structure Move (α : Type) where
  src : α
  dst : Option α
  value : ℕ

variable {α : Type} [DecidableEq α]

namespace Move

def apply (m : Move α) (b : α → ℕ) : α → ℕ := fun a =>
  if m.src = a then b a - m.value else if m.dst = some a then b a + m.value else b a

/-- The move has an effect and is covered. -/
structure Valid (m : Move α) (b : α → ℕ) : Prop where
  ne : m.dst ≠ some m.src
  pos : 0 < m.value
  covered : m.value ≤ b m.src

def sent (m : Move α) (a : α) : ℕ := if m.src = a then m.value else 0

def received (m : Move α) (a : α) : ℕ := if m.dst = some a then m.value else 0

def burned (m : Move α) : ℕ := if m.dst.isNone then m.value else 0

theorem Valid.balance {m : Move α} {b : α → ℕ} (h : m.Valid b) (a : α) :
    m.apply b a + m.sent a = b a + m.received a := by
  have hne := h.ne
  have hc := h.covered
  unfold apply sent received
  by_cases hs : m.src = a
  · subst hs
    rw [if_pos rfl, if_pos rfl, if_neg hne]
    omega
  · rw [if_neg hs, if_neg hs]
    split_ifs <;> rfl

theorem sum_sent [Fintype α] (m : Move α) : ∑ a, m.sent a = m.value := by
  simp [sent]

theorem sum_received [Fintype α] (m : Move α) : ∑ a, m.received a + m.burned = m.value := by
  unfold received burned
  cases m.dst with
  | none => simp
  | some d => simp

end Move

/-- The moves lead from one ledger to the other. -/
inductive Run : (α → ℕ) → List (Move α) → (α → ℕ) → Prop
  | nil (b : α → ℕ) : Run b [] b
  | cons {b b' : α → ℕ} {m : Move α} {ms : List (Move α)} (h : m.Valid b)
      (hms : Run (m.apply b) ms b') : Run b (m :: ms) b'

def sent (ms : List (Move α)) (a : α) : ℕ := (ms.map fun m => m.sent a).sum

def received (ms : List (Move α)) (a : α) : ℕ := (ms.map fun m => m.received a).sum

def burned (ms : List (Move α)) : ℕ := (ms.map Move.burned).sum

omit [DecidableEq α] in
theorem burned_append (ms ms' : List (Move α)) : burned (ms ++ ms') = burned ms + burned ms' := by
  simp [burned]

namespace Run

variable {b b' b'' : α → ℕ} {m : Move α} {ms ms' : List (Move α)}

theorem single (h : m.Valid b) : Run b [m] (m.apply b) := .cons h (.nil _)

theorem append (h : Run b ms b') (h' : Run b' ms' b'') : Run b (ms ++ ms') b'' := by
  induction h with
  | nil => exact h'
  | cons hm _ ih => exact .cons hm (ih h')

theorem proper (h : Run b ms b') (hm : m ∈ ms) : m.dst ≠ some m.src ∧ 0 < m.value := by
  induction h with
  | nil => cases hm
  | cons hv _ ih =>
    rcases List.mem_cons.mp hm with rfl | hm
    · exact ⟨hv.ne, hv.pos⟩
    · exact ih hm

/-- **What the moves do to one account.** -/
theorem balance (h : Run b ms b') (a : α) : b' a + sent ms a = b a + received ms a := by
  induction h with
  | nil => rfl
  | @cons b b' m ms hv _ ih =>
    have hm := hv.balance a
    simp only [sent, received, List.map_cons, List.sum_cons] at ih ⊢
    omega

/-- **The sum of all balances changes only by what is burned.** -/
theorem sum [Fintype α] (h : Run b ms b') : ∑ a, b' a + burned ms = ∑ a, b a := by
  induction h with
  | nil => rfl
  | @cons b b' m ms hv _ ih =>
    have hm : ∑ a, (m.apply b a + m.sent a) = ∑ a, (b a + m.received a) :=
      Finset.sum_congr rfl fun a _ => hv.balance a
    rw [Finset.sum_add_distrib, Finset.sum_add_distrib, m.sum_sent] at hm
    have hr := m.sum_received
    simp only [burned, List.map_cons, List.sum_cons] at ih ⊢
    omega

end Run

theorem add_le_sum [Fintype α] (b : α → ℕ) {x y : α} (h : x ≠ y) : b x + b y ≤ ∑ a, b a := by
  rw [← Finset.sum_pair h]
  exact Finset.sum_le_sum_of_subset (Finset.subset_univ _)

end Ledger
