import Evm2.Lib.Prog

/-!
# Operations in lockstep

Two operations on different states are in lockstep if from related states both return, in states
that are related again, or both fail with the same error.

* `Op.Sim I Q E x y`: from states related by `I`, both return and `Q` relates what they return and
  leave, or both fail and `E` relates what they leave;
* `Op.Sim.bind`, `Op.Sim.ite`, …: the rules for programs;
* **`Prog.sim_run`**: a program runs in lockstep over two handlers if they answer every request in
  lockstep.
-/

namespace Op

variable {σ τ ε ε' α β γ δ : Type}

/-- Both runs returned, or both failed with the same error. -/
inductive Ends (Q : α → β → σ → τ → Prop) (E : σ → τ → Prop) :
    Except ε α × σ → Except ε β × τ → Prop
  | ok {a : α} {b : β} {s : σ} {t : τ} (h : Q a b s t) : Ends Q E (.ok a, s) (.ok b, t)
  | error {e : ε} {s : σ} {t : τ} (h : E s t) : Ends Q E (.error e, s) (.error e, t)

/-- From states related by `I` the runs of `x` and `y` end alike. -/
def Sim (I : σ → τ → Prop) (Q : α → β → σ → τ → Prop) (E : σ → τ → Prop) (x : Op σ ε α)
    (y : Op τ ε β) : Prop :=
  ∀ s t, I s t → Ends Q E (x.run s) (y.run t)

def Same (I : σ → τ → Prop) : α → α → σ → τ → Prop := fun a b s t => a = b ∧ I s t

section Rules

variable {I J : σ → τ → Prop} {Q Q' : α → β → σ → τ → Prop} {R : γ → δ → σ → τ → Prop}
  {E E' : σ → τ → Prop} {x x' : Op σ ε α} {y y' : Op τ ε β}

theorem Sim.ret {a : α} {b : β} (h : ∀ s t, I s t → Q a b s t) :
    Sim I Q E (pure a : Op σ ε α) (pure b : Op τ ε β) :=
  fun s t hI => .ok (h s t hI)

theorem Sim.fail {e : ε} (h : ∀ s t, I s t → E s t) :
    Sim I Q E (Op.fail e : Op σ ε α) (Op.fail e : Op τ ε β) :=
  fun s t hI => .error (h s t hI)

theorem Sim.update {f : σ → σ} {g : τ → τ} {Q : Unit → Unit → σ → τ → Prop}
    (h : ∀ s t, I s t → Q () () (f s) (g t)) :
    Sim I Q E (Op.update f : Op σ ε Unit) (Op.update g : Op τ ε Unit) :=
  fun s t hI => .ok (h s t hI)

theorem Sim.bind {f : α → Op σ ε γ} {g : β → Op τ ε δ} (hx : Sim I Q E x y)
    (hf : ∀ a b, Sim (Q a b) R E (f a) (g b)) : Sim I R E (x >>= f) (y >>= g) := by
  intro s t hI
  have h := hx s t hI
  rw [run_bind, run_bind]
  generalize x.run s = r at h ⊢
  generalize y.run t = r' at h ⊢
  cases h with
  | ok h => exact hf _ _ _ _ h
  | error h => exact .error h

theorem Sim.ite {c : Prop} [Decidable c] (hx : c → Sim I Q E x y) (hx' : ¬c → Sim I Q E x' y') :
    Sim I Q E (if c then x else x') (if c then y else y') := by
  by_cases h : c
  · rw [if_pos h, if_pos h]
    exact hx h
  · rw [if_neg h, if_neg h]
    exact hx' h

theorem Sim.mono (h : Sim I Q E x y) (hI : ∀ s t, J s t → I s t)
    (hQ : ∀ a b s t, Q a b s t → Q' a b s t) (hE : ∀ s t, E s t → E' s t) :
    Sim J Q' E' x y := by
  intro s t hJ
  have h' := h s t (hI s t hJ)
  generalize x.run s = r at h' ⊢
  generalize y.run t = r' at h' ⊢
  cases h' with
  | ok h' => exact .ok (hQ _ _ _ _ h')
  | error h' => exact .error (hE _ _ h')

theorem Sim.mapError (h : Sim I Q E x y) (g : ε → ε') :
    Sim I Q E (x.mapError g) (y.mapError g) := by
  intro s t hI
  have h' := h s t hI
  rw [run_mapError, run_mapError]
  generalize x.run s = r at h' ⊢
  generalize y.run t = r' at h' ⊢
  cases h' with
  | ok h' => exact .ok h'
  | error h' => exact .error h'

theorem Sim.onError {f : σ → σ} {g : τ → τ} (h : Sim I Q E x y)
    (hE : ∀ s t, E s t → E' (f s) (g t)) : Sim I Q E' (x.onError f) (y.onError g) := by
  intro s t hI
  have h' := h s t hI
  unfold Op.onError
  dsimp only
  generalize x.run s = r at h' ⊢
  generalize y.run t = r' at h' ⊢
  cases h' with
  | ok h' => exact .ok h'
  | error h' => exact .error (hE _ _ h')

theorem Sim.bind_same {x : Op σ ε α} {y : Op τ ε α} {f : α → Op σ ε γ} {g : α → Op τ ε δ}
    (hx : Sim I (Same J) E x y) (hf : ∀ a, Sim J R E (f a) (g a)) :
    Sim I R E (x >>= f) (y >>= g) := by
  refine hx.bind fun a b => ?_
  rintro s t ⟨rfl, hJ⟩
  exact hf a s t hJ

theorem Sim.ret_same (a : α) (h : ∀ s t, I s t → J s t) :
    Sim I (Same J) E (pure a : Op σ ε α) (pure a : Op τ ε α) :=
  .ret fun s t hI => ⟨rfl, h s t hI⟩

end Rules

end Op

namespace Prog

variable {Req : Type} {Resp : Req → Type} {σ τ ε α : Type}

/-- **A program runs in lockstep over two handlers** that answer its requests in lockstep. -/
theorem sim_run {handler : (r : Req) → Op σ ε (Resp r)} {handler' : (r : Req) → Op τ ε (Resp r)}
    {I E : σ → τ → Prop} (hh : ∀ r, Op.Sim I (Op.Same I) E (handler r) (handler' r))
    (p : Prog Req Resp α) : Op.Sim I (Op.Same I) E (p.run handler) (p.run handler') := by
  induction p with
  | pure a => exact .ret_same a fun _ _ h => h
  | req r k ih => exact .bind_same (hh r) ih

end Prog
