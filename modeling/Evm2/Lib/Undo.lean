import Mathlib

/-!
# Undo journals

A state changes step by step; each step may record entries, and undoing the entries, newest
first, leads back. It need not lead back to the very same state: what a step has only *read* may
stay behind. `UndoSystem` therefore carries a preorder `le` on states (`le s t`: `t` is `s` with
more of what undoing does not remove), and asks that undoing an entry respects it.

* `UndoSystem.Reverts s es t`: undoing `es` in `t` leads to a state above `s`.
-/

/-- Entries `ι` that undo changes of the states `σ`, up to the preorder `le`. -/
structure UndoSystem (σ ι : Type) where
  /-- Undo one entry. -/
  undo : ι → σ → σ
  /-- `t` is `s`, up to what undoing leaves behind. -/
  le : σ → σ → Prop
  /-- What the entry restores is there. -/
  valid : ι → σ → Prop
  le_refl : ∀ s, le s s
  le_trans : ∀ {s t u}, le s t → le t u → le s u
  valid_mono : ∀ {e s t}, le s t → valid e s → valid e t
  valid_undo : ∀ {e e' s}, valid e (undo e' s) ↔ valid e s
  undo_mono : ∀ {e s t}, valid e s → le s t → le (undo e s) (undo e t)

namespace UndoSystem

variable {σ ι : Type} (U : UndoSystem σ ι) {s t u : σ} {es es' : List ι}

def undoAll (es : List ι) (s : σ) : σ := es.foldl (fun s e => U.undo e s) s

@[simp] theorem undoAll_nil (s : σ) : U.undoAll [] s = s := rfl

@[simp] theorem undoAll_cons (e : ι) (es : List ι) (s : σ) :
    U.undoAll (e :: es) s = U.undoAll es (U.undo e s) := rfl

theorem undoAll_append (es es' : List ι) (s : σ) :
    U.undoAll (es ++ es') s = U.undoAll es' (U.undoAll es s) :=
  List.foldl_append

theorem valid_undoAll {e : ι} (es : List ι) (s : σ) : U.valid e (U.undoAll es s) ↔ U.valid e s := by
  induction es generalizing s with
  | nil => rfl
  | cons e' es ih => rw [undoAll_cons, ih, U.valid_undo]

theorem undoAll_mono (h : ∀ e ∈ es, U.valid e s) (hle : U.le s t) :
    U.le (U.undoAll es s) (U.undoAll es t) := by
  induction es generalizing s t with
  | nil => exact hle
  | cons e es ih =>
    refine ih (fun e' he' => ?_) (U.undo_mono (h e List.mem_cons_self) hle)
    exact U.valid_undo.mpr (h e' (List.mem_cons_of_mem _ he'))

/-- Undoing the entries `es` in `t` leads back to `s`. -/
structure Reverts (s : σ) (es : List ι) (t : σ) : Prop where
  valid : ∀ e ∈ es, U.valid e t
  back : U.le s (U.undoAll es t)

variable {U}

theorem Reverts.of_le (h : U.le s t) : U.Reverts s [] t where
  valid := by simp
  back := h

theorem Reverts.refl (s : σ) : U.Reverts s [] s := .of_le (U.le_refl s)

theorem Reverts.single {e : ι} (hv : U.valid e t) (h : U.le s (U.undo e t)) :
    U.Reverts s [e] t where
  valid := by simpa using hv
  back := h

/-- **Runs compose**: the newer entries are undone first. -/
theorem Reverts.trans (h : U.Reverts s es t) (h' : U.Reverts t es' u) :
    U.Reverts s (es' ++ es) u where
  valid e he := by
    rcases List.mem_append.mp he with he | he
    · exact h'.valid e he
    · exact (U.valid_undoAll es' u).mp (U.valid_mono h'.back (h.valid e he))
  back := by
    rw [undoAll_append]
    exact U.le_trans h.back (U.undoAll_mono h.valid h'.back)

end UndoSystem
