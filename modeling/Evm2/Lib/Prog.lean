import Evm2.Lib.Op

/-!
# Programs that make requests

A `Prog Req Resp α` computes an `α` and may make requests `r : Req` on the way, each answered by a
`Resp r`. What a request does is said by a handler: `Prog.run` runs a program over the states of
the handler. A program knows its environment only through the answers, so whatever the handler of
every request preserves, every run preserves.

* `Prog.Spec P A Q`: with answers in `A`, every request satisfies `P` and the result satisfies `Q`;
* `Prog.Spec.moves`, `Prog.Spec.ensures`: the rules for runs.
-/

/-- A program with requests `Req`, answered in `Resp`. -/
inductive Prog (Req : Type) (Resp : Req → Type) (α : Type) : Type
  | pure (a : α) : Prog Req Resp α
  | req (r : Req) (k : Resp r → Prog Req Resp α) : Prog Req Resp α

namespace Prog

variable {Req Req' : Type} {Resp : Req → Type} {Resp' : Req' → Type} {σ ε α β : Type}

def bind : Prog Req Resp α → (α → Prog Req Resp β) → Prog Req Resp β
  | pure a, f => f a
  | req r k, f => req r fun b => (k b).bind f

instance : Monad (Prog Req Resp) where
  pure := Prog.pure
  bind := Prog.bind

def call (r : Req) : Prog Req Resp (Resp r) := req r pure

@[simp] theorem pure_bind' (a : α) (f : α → Prog Req Resp β) : (Prog.pure a >>= f) = f a := rfl

@[simp] theorem req_bind (r : Req) (k : Resp r → Prog Req Resp α) (f : α → Prog Req Resp β) :
    (req r k >>= f) = req r fun b => k b >>= f := rfl

@[simp] theorem call_bind (r : Req) (f : Resp r → Prog Req Resp β) :
    ((call r : Prog Req Resp (Resp r)) >>= f) = req r f := rfl

theorem bind_bind {γ : Type} (p : Prog Req Resp α) (f : α → Prog Req Resp β)
    (g : β → Prog Req Resp γ) : (p >>= f) >>= g = p >>= fun a => f a >>= g := by
  induction p with
  | pure a => rfl
  | req r k ih =>
    simp only [req_bind]
    congr 1
    funext b
    exact ih b

/-! ## Running a program -/

/-- Run the program: the handler answers the requests, and may end the run with an error. -/
def run (handler : (r : Req) → Op σ ε (Resp r)) : Prog Req Resp α → Op σ ε α
  | pure a => Pure.pure a
  | req r k => handler r >>= fun b => (k b).run handler

section Run

variable {handler : (r : Req) → Op σ ε (Resp r)}

@[simp] theorem run_pure (a : α) : (pure a : Prog Req Resp α).run handler = Pure.pure a := rfl

@[simp] theorem run_req (r : Req) (k : Resp r → Prog Req Resp α) :
    (req r k).run handler = handler r >>= fun b => (k b).run handler := rfl

theorem run_bind (p : Prog Req Resp α) (f : α → Prog Req Resp β) :
    (p >>= f).run handler = p.run handler >>= fun a => (f a).run handler := by
  induction p with
  | pure a => rfl
  | req r k ih => simp only [req_bind, run_req, ih, Op.bind_bind]

theorem run_call (r : Req) : (call r : Prog Req Resp (Resp r)).run handler = handler r :=
  Op.bind_ret (handler r)

end Run

/-! ## The requests of a program -/

/-- As long as the answers satisfy `A`, every request of the program satisfies `P`; and then what
it returns satisfies `Q`. -/
def Spec (P : Req → Prop) (A : (r : Req) → Resp r → Prop) (Q : α → Prop) : Prog Req Resp α → Prop
  | pure a => Q a
  | req r k => P r ∧ ∀ b, A r b → (k b).Spec P A Q

section Spec

variable {P : Req → Prop} {A : (r : Req) → Resp r → Prop} {Q : α → Prop} {Q' : β → Prop}

theorem Spec.ret {a : α} (h : Q a) : Spec P A Q (Pure.pure a : Prog Req Resp α) := h

theorem Spec.call {r : Req} (h : P r) : Spec P A (A r) (Prog.call r : Prog Req Resp (Resp r)) :=
  ⟨h, fun _ hb => hb⟩

variable {p : Prog Req Resp α}

theorem Spec.bind {f : α → Prog Req Resp β} (hp : Spec P A Q p)
    (hf : ∀ a, Q a → Spec P A Q' (f a)) : Spec P A Q' (p >>= f) := by
  induction p with
  | pure a => exact hf a hp
  | req r k ih => exact ⟨hp.1, fun b hb => ih b (hp.2 b hb)⟩

theorem Spec.mono {R : α → Prop} (hQ : ∀ a, Q a → R a) (hp : Spec P A Q p) :
    Spec P A R p := by
  induction p with
  | pure a => exact hQ a hp
  | req r k ih => exact ⟨hp.1, fun b hb => ih b (hp.2 b hb)⟩

/-- The program makes the request `r` if it is answered suitably. -/
inductive Makes (r : Req) : Prog Req Resp α → Prop
  | here (k : Resp r → Prog Req Resp α) : Makes r (req r k)
  | later {r' : Req} {k : Resp r' → Prog Req Resp α} (b : Resp r') :
      Makes r (k b) → Makes r (req r' k)

theorem Spec.of_makes (hA : ∀ r b, A r b) (hp : Spec P A Q p) {r : Req}
    (h : Makes r p) : P r := by
  induction h with
  | here k => exact hp.1
  | later b _ ih => exact ih (hp.2 b (hA _ b))

/-- The program returns `a` if its requests are answered suitably. -/
inductive MayReturn (a : α) : Prog Req Resp α → Prop
  | here : MayReturn a (pure a)
  | later {r : Req} {k : Resp r → Prog Req Resp α} (b : Resp r) :
      MayReturn a (k b) → MayReturn a (req r k)

theorem mayReturn_bind {f : α → Prog Req Resp β} {b : β}
    (h : MayReturn b (p >>= f)) : ∃ a, MayReturn a p ∧ MayReturn b (f a) := by
  induction p with
  | pure a => exact ⟨a, .here, h⟩
  | req r k ih =>
    cases h with
    | later c hc =>
      obtain ⟨a, ha, hb⟩ := ih c hc
      exact ⟨a, .later c ha, hb⟩

theorem Spec.of_mayReturn (hA : ∀ r b, A r b) (hp : Spec P A Q p) {a : α}
    (h : MayReturn a p) : Q a := by
  induction h with
  | here => exact hp
  | later b _ ih => exact ih (hp.2 b (hA _ b))

/-- The requests of the program when `answer` answers them, up to the first without an answer. -/
def trace (answer : (r : Req) → Option (Resp r)) : Prog Req Resp α → List Req
  | pure _ => []
  | req r k => r :: (answer r).elim [] fun b => (k b).trace answer

end Spec

section Moves

variable {P : Req → Prop} {A : (r : Req) → Resp r → Prop} {Q : α → Prop}

variable {handler : (r : Req) → Op σ ε (Resp r)} {R : σ → σ → Prop} {V : σ → Prop}

/-- **The run of a program moves along `R`** if the handlers of its requests do. -/
theorem Spec.moves [Std.Refl R] [IsTrans σ R] (hA : ∀ r b, A r b) {p : Prog Req Resp α}
    (hp : Spec P A Q p) (hh : ∀ r, P r → Op.Moves R (handler r)) :
    Op.Moves R (p.run handler) := by
  induction p with
  | pure a => exact .ret a
  | req r k ih => exact .bind (hh r hp.1) fun b => ih b (hp.2 b (hA r b))

theorem Spec.ensures [Std.Refl R] [IsTrans σ R] {p : Prog Req Resp α} (hp : Spec P A Q p)
    (hh : ∀ r s b t, P r → V s → (handler r).run s = (.ok b, t) → V t ∧ R s t ∧ A r b)
    {s t : σ} {a : α} (hs : V s) (h : (p.run handler).run s = (.ok a, t)) :
    V t ∧ R s t ∧ Q a := by
  induction p generalizing s with
  | pure b =>
    cases h
    exact ⟨hs, refl _, hp⟩
  | req r k ih =>
    obtain ⟨b, u, hb, h⟩ := Op.run_bind_eq_ok h
    obtain ⟨hu, hsu, hA⟩ := hh r s b u hp.1 hs hb
    obtain ⟨ht, hut, hQ⟩ := ih b (hp.2 b hA) hu h
    exact ⟨ht, IsTrans.trans _ _ _ hsu hut, hQ⟩

end Moves

/-! ## Programs over another interface -/

def interp (g : (r : Req) → Prog Req' Resp' (Resp r)) : Prog Req Resp α → Prog Req' Resp' α
  | pure a => pure a
  | req r k => g r >>= fun b => (k b).interp g

theorem spec_interp {P : Req' → Prop} {A : (r : Req') → Resp' r → Prop}
    {g : (r : Req) → Prog Req' Resp' (Resp r)} (hg : ∀ r, Spec P A (fun _ => True) (g r))
    (p : Prog Req Resp α) : Spec P A (fun _ => True) (p.interp g) := by
  induction p with
  | pure a => trivial
  | req r k ih => exact .bind (hg r) fun b _ => ih b

theorem Spec.interp {Q : α → Prop} {P' : Req' → Prop} {A' : (r : Req') → Resp' r → Prop}
    {g : (r : Req) → Prog Req' Resp' (Resp r)} {p : Prog Req Resp α}
    (hp : p.Spec (fun _ => True) (fun _ _ => True) Q) (hg : ∀ r, Spec P' A' (fun _ => True) (g r)) :
    Spec P' A' Q (p.interp g) := by
  induction p with
  | pure a => exact hp
  | req r k ih => exact .bind (hg r) fun b _ => ih b (hp.2 b trivial)

end Prog
