import Mathlib

/-!
# Operations on a mutable state that may fail

`Op σ ε α` is a computation on a state of type `σ` that returns a value or an error and, in both
cases, keeps the changes it has made so far. This is how a method on a mutable reference with a
fallible result behaves when an error is propagated to its caller.

* `Op.Moves R x`: every run of `x` moves the state along the relation `R`, whatever it returns;
* `Op.Moves.bind`, `Op.Moves.ite`, …: the rules that push `Moves` through a program when `R` is a
  preorder.
-/

/-- A computation on the state `σ` that fails with `ε` or returns an `α`. -/
structure Op (σ ε α : Type) where
  run : σ → Except ε α × σ

namespace Op

variable {σ ε ε' α β : Type}

/-- Run `x`, then `f` on its value; an error of `x` is returned at once. -/
def andThen (x : Op σ ε α) (f : α → Op σ ε β) : Op σ ε β where
  run s :=
    match x.run s with
    | (.ok a, s') => (f a).run s'
    | (.error e, s') => (.error e, s')

instance : Monad (Op σ ε) where
  pure a := ⟨fun s => (.ok a, s)⟩
  bind := andThen

def fail (e : ε) : Op σ ε α := ⟨fun s => (.error e, s)⟩

def ofExcept (r : Except ε α) : Op σ ε α := ⟨fun s => (r, s)⟩

def get : Op σ ε σ := ⟨fun s => (.ok s, s)⟩

def update (f : σ → σ) : Op σ ε Unit := ⟨fun s => (.ok (), f s)⟩

def total (f : σ → α × σ) : Op σ ε α := ⟨fun s => (.ok (f s).1, (f s).2)⟩

def mapError (g : ε → ε') (x : Op σ ε α) : Op σ ε' α where
  run s := ((x.run s).1.mapError g, (x.run s).2)

def onError (f : σ → σ) (x : Op σ ε α) : Op σ ε α where
  run s :=
    match x.run s with
    | (.ok a, s') => (.ok a, s')
    | (.error e, s') => (.error e, f s')

@[simp] theorem run_pure (a : α) (s : σ) : (pure a : Op σ ε α).run s = (.ok a, s) := rfl
@[simp] theorem run_fail (e : ε) (s : σ) : (fail e : Op σ ε α).run s = (.error e, s) := rfl
@[simp] theorem run_ofExcept (r : Except ε α) (s : σ) :
    (ofExcept r : Op σ ε α).run s = (r, s) := rfl
@[simp] theorem run_get (s : σ) : (get : Op σ ε σ).run s = (.ok s, s) := rfl
@[simp] theorem run_update (f : σ → σ) (s : σ) :
    (update f : Op σ ε Unit).run s = (.ok (), f s) := rfl
@[simp] theorem run_total (f : σ → α × σ) (s : σ) :
    (total f : Op σ ε α).run s = (.ok (f s).1, (f s).2) := rfl
@[simp] theorem run_mapError (g : ε → ε') (x : Op σ ε α) (s : σ) :
    (x.mapError g).run s = ((x.run s).1.mapError g, (x.run s).2) := rfl

theorem run_bind (x : Op σ ε α) (f : α → Op σ ε β) (s : σ) :
    (x >>= f).run s = match x.run s with
      | (.ok a, s') => (f a).run s'
      | (.error e, s') => (.error e, s') := rfl

variable {x : Op σ ε α}

theorem run_bind_ok {f : α → Op σ ε β} {s s' : σ} {a : α}
    (h : x.run s = (.ok a, s')) : (x >>= f).run s = (f a).run s' := by
  rw [run_bind, h]

theorem run_bind_error {f : α → Op σ ε β} {s s' : σ} {e : ε}
    (h : x.run s = (.error e, s')) : (x >>= f).run s = (.error e, s') := by
  rw [run_bind, h]

theorem run_onError_ok {s s' : σ} {a : α} (f : σ → σ)
    (h : x.run s = (.ok a, s')) : (x.onError f).run s = (.ok a, s') := by
  simp only [onError, h]

theorem run_onError_error {s s' : σ} {e : ε} (f : σ → σ)
    (h : x.run s = (.error e, s')) : (x.onError f).run s = (.error e, f s') := by
  simp only [onError, h]

theorem run_onError_eq_ok {s s' : σ} {a : α} {f : σ → σ}
    (h : (x.onError f).run s = (.ok a, s')) : x.run s = (.ok a, s') := by
  rcases hx : x.run s with ⟨_ | _, t⟩
  · rw [run_onError_error f hx] at h
    cases h
  · rw [run_onError_ok f hx] at h
    exact h

@[ext] theorem ext {x y : Op σ ε α} (h : ∀ s, x.run s = y.run s) : x = y := by
  cases x
  cases y
  exact congrArg Op.mk (funext h)

theorem bind_ret (x : Op σ ε α) : (x >>= fun a => pure a) = x := by
  ext1 s
  rcases hx : x.run s with ⟨_ | _, _⟩
  · exact run_bind_error hx
  · exact run_bind_ok hx

theorem bind_bind {γ : Type} (x : Op σ ε α) (f : α → Op σ ε β) (g : β → Op σ ε γ) :
    (x >>= f >>= g) = x >>= fun a => f a >>= g := by
  ext1 s
  rcases hx : x.run s with ⟨_ | _, _⟩
  · rw [run_bind_error hx, run_bind_error (run_bind_error hx)]
  · rw [run_bind_ok hx, run_bind, run_bind_ok hx, run_bind]

theorem run_bind_eq_ok {f : α → Op σ ε β} {s t : σ} {b : β}
    (h : (x >>= f).run s = (.ok b, t)) :
    ∃ a s', x.run s = (.ok a, s') ∧ (f a).run s' = (.ok b, t) := by
  cases hx : x.run s with
  | mk r s' =>
    cases r with
    | ok a => exact ⟨a, s', rfl, by rw [← run_bind_ok hx, h]⟩
    | error e => rw [run_bind_error hx] at h; cases h

theorem run_mapError_eq_ok {g : ε → ε'} {s t : σ} {a : α}
    (h : (x.mapError g).run s = (.ok a, t)) : x.run s = (.ok a, t) := by
  rw [run_mapError] at h
  rcases hx : x.run s with ⟨_ | _, _⟩
  · rw [hx] at h
    cases h
  · rw [hx] at h
    cases h
    rfl

/-! ## Moving along a relation -/

/-- Every run of `x` moves the state along `R`. -/
def Moves (R : σ → σ → Prop) (x : Op σ ε α) : Prop := ∀ s, R s (x.run s).2

variable {R : σ → σ → Prop}

theorem Moves.ret [Std.Refl R] (a : α) : Moves R (pure a : Op σ ε α) := fun s => refl s

theorem Moves.fail [Std.Refl R] (e : ε) : Moves R (Op.fail e : Op σ ε α) := fun s => refl s

theorem Moves.get [Std.Refl R] : Moves R (Op.get : Op σ ε σ) := fun s => refl s

theorem Moves.update {f : σ → σ} (h : ∀ s, R s (f s)) : Moves R (Op.update f : Op σ ε Unit) := h

theorem moves_bind_at [IsTrans σ R] {f : α → Op σ ε β} {s : σ}
    (hx : R s (x.run s).2) (hf : ∀ a t, x.run s = (.ok a, t) → R t ((f a).run t).2) :
    R s ((x >>= f).run s).2 := by
  cases h : x.run s with
  | mk r s' =>
    rw [h] at hx
    cases r with
    | ok a => rw [run_bind_ok h]; exact IsTrans.trans _ _ _ hx (hf a s' h)
    | error e => rw [run_bind_error h]; exact hx

theorem Moves.bind [IsTrans σ R] {f : α → Op σ ε β} (hx : Moves R x)
    (hf : ∀ a, Moves R (f a)) : Moves R (x >>= f) :=
  fun s => moves_bind_at (hx s) fun a t _ => hf a t

theorem Moves.mapError (g : ε → ε') (hx : Moves R x) : Moves R (x.mapError g) := hx

theorem Moves.ite {c : Prop} [Decidable c] {x y : Op σ ε α} (hx : Moves R x) (hy : Moves R y) :
    Moves R (if c then x else y) := by
  by_cases h : c
  · rw [if_pos h]; exact hx
  · rw [if_neg h]; exact hy

/-! ## Keeping a property -/

/-- Every run of `x` keeps the property `Q` of the state. -/
def Keeps (Q : σ → Prop) (x : Op σ ε α) : Prop := ∀ s, Q s → Q (x.run s).2

section Keeps

variable {Q Q' : σ → Prop}

variable {x : Op σ ε α}

theorem Moves.keeps [IsTrans σ R] (h : Moves R x) (s : σ) : Keeps (R s) x :=
  fun t ht => IsTrans.trans _ _ _ ht (h t)

theorem Keeps.ret (a : α) : Keeps Q (pure a : Op σ ε α) := fun _ h => h

theorem Keeps.fail (e : ε) : Keeps Q (Op.fail e : Op σ ε α) := fun _ h => h

theorem Keeps.update {f : σ → σ} (h : ∀ s, Q s → Q (f s)) : Keeps Q (Op.update f : Op σ ε Unit) := h

theorem keeps_bind_at {f : α → Op σ ε β} {s : σ} (hx : Q (x.run s).2)
    (hf : ∀ a t, x.run s = (.ok a, t) → Q t → Q ((f a).run t).2) : Q ((x >>= f).run s).2 := by
  cases h : x.run s with
  | mk r t =>
    rw [h] at hx
    cases r with
    | ok a => rw [run_bind_ok h]; exact hf a t h hx
    | error e => rw [run_bind_error h]; exact hx

theorem Keeps.bind {f : α → Op σ ε β} (hx : Keeps Q x) (hf : ∀ a, Keeps Q (f a)) :
    Keeps Q (x >>= f) :=
  fun s hs => keeps_bind_at (hx s hs) fun a t _ ht => hf a t ht

theorem Keeps.ite {c : Prop} [Decidable c] {x y : Op σ ε α} (hx : c → Keeps Q x)
    (hy : ¬c → Keeps Q y) : Keeps Q (if c then x else y) := by
  by_cases h : c
  · rw [if_pos h]; exact hx h
  · rw [if_neg h]; exact hy h

theorem keeps_onError_at {f : σ → σ} {s : σ} (hx : Q (x.run s).2)
    (hf : ∀ s, Q s → Q (f s)) : Q ((x.onError f).run s).2 := by
  rcases h : x.run s with ⟨_ | _, t⟩
  · rw [h] at hx
    rw [run_onError_error f h]
    exact hf t hx
  · rw [h] at hx
    rw [run_onError_ok f h]
    exact hx

theorem Keeps.onError {f : σ → σ} (hx : Keeps Q x) (hf : ∀ s, Q s → Q (f s)) :
    Keeps Q (x.onError f) :=
  fun s hs => keeps_onError_at (hx s hs) hf

end Keeps

/-! ## Runs that return -/

/-- Every run of `x` that returns keeps the property `Q` of the state. -/
def Preserves (Q : σ → Prop) (x : Op σ ε α) : Prop := ∀ s a t, Q s → x.run s = (.ok a, t) → Q t

section Preserves

variable {Q : σ → Prop}

theorem Preserves.ret (a : α) : Preserves Q (pure a : Op σ ε α) := by
  intro s b t hs h
  cases h
  exact hs

theorem Preserves.fail (e : ε) : Preserves Q (Op.fail e : Op σ ε α) := by
  intro s b t _ h
  cases h

theorem Preserves.update {f : σ → σ} (hf : ∀ s, Q s → Q (f s)) :
    Preserves Q (Op.update f : Op σ ε Unit) := by
  intro s b t hs h
  cases h
  exact hf s hs

theorem Preserves.bind {x : Op σ ε α} {f : α → Op σ ε β} (hx : Preserves Q x)
    (hf : ∀ a, Preserves Q (f a)) : Preserves Q (x >>= f) := by
  intro s b u hs h
  obtain ⟨a, t, hxt, hfu⟩ := run_bind_eq_ok h
  exact hf a t b u (hx s a t hs hxt) hfu

theorem Preserves.ite {c : Prop} [Decidable c] {x y : Op σ ε α} (hx : c → Preserves Q x)
    (hy : ¬c → Preserves Q y) : Preserves Q (if c then x else y) := by
  by_cases h : c
  · rw [if_pos h]; exact hx h
  · rw [if_neg h]; exact hy h

theorem Preserves.onError {x : Op σ ε α} (hx : Preserves Q x) (f : σ → σ) :
    Preserves Q (x.onError f) :=
  fun s a t hs h => hx s a t hs (run_onError_eq_ok h)

end Preserves

/-- Every run of `x` that returns keeps `V` and moves the state along `R`. -/
def Ensures (V : σ → Prop) (R : σ → σ → Prop) (x : Op σ ε α) : Prop :=
  ∀ s a t, V s → x.run s = (.ok a, t) → V t ∧ R s t

section Ensures

variable {V : σ → Prop}

theorem Ensures.ret [Std.Refl R] (a : α) : Ensures V R (pure a : Op σ ε α) := by
  intro s b t hs h
  cases h
  exact ⟨hs, refl s⟩

theorem Ensures.fail (e : ε) : Ensures V R (Op.fail e : Op σ ε α) := by
  intro s b t _ h
  cases h

theorem Ensures.update {f : σ → σ} (hf : ∀ s, V s → V (f s) ∧ R s (f s)) :
    Ensures V R (Op.update f : Op σ ε Unit) := by
  intro s b t hs h
  cases h
  exact hf s hs

theorem Ensures.bind [IsTrans σ R] {x : Op σ ε α} {f : α → Op σ ε β} (hx : Ensures V R x)
    (hf : ∀ a, Ensures V R (f a)) : Ensures V R (x >>= f) := by
  intro s b u hs h
  obtain ⟨a, t, hxt, hfu⟩ := run_bind_eq_ok h
  obtain ⟨ht, hst⟩ := hx s a t hs hxt
  obtain ⟨hu, htu⟩ := hf a t b u ht hfu
  exact ⟨hu, IsTrans.trans _ _ _ hst htu⟩

theorem Ensures.ite {c : Prop} [Decidable c] {x y : Op σ ε α} (hx : c → Ensures V R x)
    (hy : ¬c → Ensures V R y) : Ensures V R (if c then x else y) := by
  by_cases h : c
  · rw [if_pos h]; exact hx h
  · rw [if_neg h]; exact hy h

theorem Ensures.preserves [IsTrans σ R] {x : Op σ ε α} (hx : Ensures V R x) (s : σ) :
    Preserves (fun t => V t ∧ R s t) x := by
  intro t a u ht h
  obtain ⟨hu, htu⟩ := hx t a u ht.1 h
  exact ⟨hu, IsTrans.trans _ _ _ ht.2 htu⟩

end Ensures

def Returns (x : Op σ ε α) : Prop := ∀ s, ∃ a t, x.run s = (.ok a, t)

section Returns

theorem Returns.ret (a : α) : Returns (pure a : Op σ ε α) := fun s => ⟨a, s, rfl⟩

theorem Returns.get : Returns (Op.get : Op σ ε σ) := fun s => ⟨s, s, rfl⟩

theorem Returns.update (f : σ → σ) : Returns (Op.update f : Op σ ε Unit) :=
  fun s => ⟨(), f s, rfl⟩

theorem Returns.total (f : σ → α × σ) : Returns (Op.total f : Op σ ε α) :=
  fun s => ⟨(f s).1, (f s).2, rfl⟩

theorem Returns.bind {x : Op σ ε α} {f : α → Op σ ε β} (hx : Returns x)
    (hf : ∀ a, Returns (f a)) : Returns (x >>= f) := by
  intro s
  obtain ⟨a, t, h⟩ := hx s
  rw [run_bind_ok h]
  exact hf a t

theorem Returns.ite {c : Prop} [Decidable c] {x y : Op σ ε α} (hx : c → Returns x)
    (hy : ¬c → Returns y) : Returns (if c then x else y) := by
  by_cases h : c
  · rw [if_pos h]; exact hx h
  · rw [if_neg h]; exact hy h

theorem Returns.mapError {x : Op σ ε α} (hx : Returns x) (g : ε → ε') :
    Returns (x.mapError g) := by
  intro s
  obtain ⟨a, t, h⟩ := hx s
  exact ⟨a, t, by rw [run_mapError, h]; rfl⟩

end Returns

def Avoids (e : ε) (x : Op σ ε α) : Prop := ∀ s, (x.run s).1 ≠ .error e

section Avoids

variable {e : ε}

theorem Returns.avoids {x : Op σ ε α} (hx : Returns x) : Avoids e x := by
  intro s
  obtain ⟨a, t, h⟩ := hx s
  rw [h]
  nofun

theorem Avoids.bind {x : Op σ ε α} {f : α → Op σ ε β} (hx : Avoids e x)
    (hf : ∀ a, Avoids e (f a)) : Avoids e (x >>= f) := by
  intro s
  have h := hx s
  rcases hr : x.run s with ⟨e' | a, t⟩
  · rw [hr] at h
    rw [run_bind_error hr]
    exact fun he => h (congrArg Except.error (Except.error.inj he))
  · rw [run_bind_ok hr]
    exact hf a t

theorem Avoids.ite {c : Prop} [Decidable c] {x y : Op σ ε α} (hx : Avoids e x)
    (hy : Avoids e y) : Avoids e (if c then x else y) := by
  by_cases h : c
  · rw [if_pos h]; exact hx
  · rw [if_neg h]; exact hy

theorem avoids_mapError {x : Op σ ε' α} {g : ε' → ε} (hg : ∀ e', g e' ≠ e) :
    Avoids e (x.mapError g) := by
  intro s
  rw [run_mapError]
  rcases (x.run s).1 with e' | a
  · exact fun h => hg e' (Except.error.inj h)
  · nofun

end Avoids

end Op
