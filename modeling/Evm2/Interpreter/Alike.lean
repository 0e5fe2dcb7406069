import Evm2.Interpreter.Requests
import Evm2.Interpreter.Store
import Evm2.Lib.Sim

/-!
# Instructions that run alike over two handlers

The same instruction is run over two handlers. The runs may part when one handler refuses what the
other answers; they are alike if both then halt out of gas in the same frame.
-/

namespace Evm2

namespace Instr

variable {Req : Type} {Resp : Req → Type} {σ ε α β γ : Type}

theorem bind_bind (x : Instr Req Resp α) (g : α → Instr Req Resp β) (k : β → Instr Req Resp γ) :
    (x >>= g) >>= k = x >>= fun a => g a >>= k := by
  change Instr.mk _ = Instr.mk _
  congr 1
  funext f
  refine (Prog.bind_bind (x.run f) _ _).trans ?_
  congr 1
  funext r
  cases r.1 <;> rfl

/-! ## Halting out of gas -/

def Halts (handler : (r : Req) → Op σ ε (Resp r)) (x : Instr Req Resp α) (f : Interpreter)
    (s s' : σ) : Prop :=
  ((x.run f).run handler).run s = (.ok (.error .outOfGas, f), s')

section Halts

variable {handler : (r : Req) → Op σ ε (Resp r)} {f : Interpreter} {s s' s'' : σ} {a : α}
  {x : Instr Req Resp α} {g : α → Instr Req Resp β}

theorem run_bind (handler : (r : Req) → Op σ ε (Resp r)) (x : Instr Req Resp α)
    (g : α → Instr Req Resp β) (f : Interpreter) :
    ((x >>= g).run f).run handler = (x.run f).run handler >>= fun r =>
      (match r.1 with
        | .ok a => (g a).run r.2
        | .error reason => pure (.error reason, r.2) : Prog Req Resp _).run handler :=
  Prog.run_bind _ _

theorem Halts.bind (hx : Halts handler x f s s') : Halts handler (x >>= g) f s s' := by
  unfold Halts
  rw [run_bind, Op.run_bind_ok hx]
  rfl

theorem Returns.halts (hx : Returns handler x f s a f s') (hg : Halts handler (g a) f s' s'') :
    Halts handler (x >>= g) f s s'' := by
  unfold Halts
  rw [run_bind, Op.run_bind_ok hx]
  exact hg

end Halts

/-! ## Two runs -/

section Alike

variable (h h' : (r : Req) → Op σ ε (Resp r)) (D : σ → σ → Prop)

/-- The runs have ended alike, or both have halted out of gas, in states related by `D`. -/
def EndAlike (W : α → σ → Prop) (r r' : Except InstrStop α × Interpreter) (s t : σ) : Prop :=
  (r = r' ∧ s = t ∧ ∀ a, r.1 = .ok a → W a s) ∨
    ∃ f, r = (.error .outOfGas, f) ∧ r' = (.error .outOfGas, f) ∧ D s t

/-- From a state with `V` the two runs end alike; in step they lead to a state with `W`. -/
def Alike (V : σ → Prop) (W : α → σ → Prop) (x : Instr Req Resp α) : Prop :=
  ∀ f, Op.Sim (fun s t => s = t ∧ V s) (EndAlike D W) Eq ((x.run f).run h) ((x.run f).run h')

variable {h h' D} {V V' : σ → Prop} {W W' : α → σ → Prop} {U : β → σ → Prop}
  {x y : Instr Req Resp α}

theorem Alike.bind {g : α → Instr Req Resp β} (hx : Alike h h' D V W x)
    (hg : ∀ a, Alike h h' D (W a) U (g a)) : Alike h h' D V U (x >>= g) := by
  intro f
  rw [run_bind, run_bind]
  refine (hx f).bind fun r r' s t hst => ?_
  rcases hst with ⟨rfl, rfl, hW⟩ | ⟨f', rfl, rfl, hD⟩
  · obtain ⟨r, f'⟩ := r
    cases r with
    | ok a => exact hg a f' s s ⟨rfl, hW a rfl⟩
    | error reason => exact .ok (.inl ⟨rfl, rfl, nofun⟩)
  · exact .ok (.inr ⟨f', rfl, rfl, hD⟩)

theorem Alike.mono (hx : Alike h h' D V W x) (hV : ∀ s, V' s → V s)
    (hW : ∀ a s, W a s → W' a s) : Alike h h' D V' W' x := by
  refine fun f => (hx f).mono (fun s t hst => ⟨hst.1, hV s hst.2⟩) (fun r r' s t hst => ?_)
    fun _ _ => id
  rcases hst with ⟨hr, hs, hw⟩ | hst
  · exact .inl ⟨hr, hs, fun a ha => hW a s (hw a ha)⟩
  · exact .inr hst

theorem Alike.stop (reason : InstrStop) :
    Alike h h' D V W (Instr.stop reason : Instr Req Resp α) := by
  rintro f s t ⟨rfl, -⟩
  exact .ok (.inl ⟨rfl, rfl, nofun⟩)

theorem run_eq_of_spec {P : Req → Prop} {A : (r : Req) → Resp r → Prop} {Q : α → Prop}
    (hA : ∀ r b, A r b) {p : Prog Req Resp α} (hp : p.Spec P A Q) (hh : ∀ r, P r → h' r = h r) :
    p.run h' = p.run h := by
  induction p with
  | pure a => rfl
  | req r k ih =>
    rw [Prog.run_req, Prog.run_req, hh r hp.1]
    congr 1
    funext b
    exact ih b (hp.2 b (hA r b))

theorem Alike.of_spec {P : Req → Prop} {A : (r : Req) → Resp r → Prop} {Q : α → Prop}
    (hA : ∀ r b, A r b) (hx : x.Spec P A Q) (hh : ∀ r, P r → h' r = h r)
    (hV : ∀ r, P r → Op.Moves (fun s t => V s → V t) (h r)) :
    Alike h h' D V (fun _ => V) x := by
  rintro f s t ⟨rfl, hs⟩
  rw [run_eq_of_spec hA (hx f) hh]
  have hmoves : ∀ {p : Prog Req Resp (Except InstrStop α × Interpreter)},
      p.Spec P A (fun r => ∀ a, r.1 = .ok a → Q a) → ∀ s, V s → V ((p.run h).run s).2 := by
    intro p hp
    induction p with
    | pure a => exact fun _ hs => hs
    | req r k ih =>
      intro s hs
      have hstep := hV r hp.1 s hs
      rw [Prog.run_req, Op.run_bind]
      generalize (h r).run s = e at hstep ⊢
      rcases e with ⟨e | b, u⟩
      · exact hstep
      · exact ih b (hp.2 b (hA r b)) u hstep
  have hend := hmoves (hx f) s hs
  generalize ((x.run f).run h).run s = e at hend ⊢
  rcases e with ⟨e | r, u⟩
  · exact .error rfl
  · exact .ok (.inl ⟨rfl, rfl, fun _ _ => hend⟩)

/-- **A load.** In a state with `V` either it is answered alike, or the first handler refuses it
and the instruction halts over the second one. -/
theorem Alike.load {r : Req} {e : Resp r → Except InstrStop γ} {k : γ → Instr Req Resp β}
    {W : γ → σ → Prop} {U : β → σ → Prop}
    (hr : ∀ s f, V s →
      ((h r).run s = (h' r).run s ∧ ∀ b v t, (h r).run s = (.ok b, t) → e b = .ok v → W v t) ∨
      ∃ b s₁ b' v s₂ s₃, (h r).run s = (.ok b, s₁) ∧ e b = .error .outOfGas ∧
        (h' r).run s = (.ok b', s₂) ∧ e b' = .ok v ∧ Halts h' (k v) f s₂ s₃ ∧ D s₁ s₃)
    (hk : ∀ v, Alike h h' D (W v) U (k v)) :
    Alike h h' D V U (Instr.ask r >>= fun b => Instr.ofExcept (e b) >>= k) := by
  rintro f s t ⟨rfl, hs⟩
  have hrun : ∀ handler : (r : Req) → Op σ ε (Resp r), ∀ b u, (handler r).run s = (.ok b, u) →
      (((Instr.ask r >>= fun b => Instr.ofExcept (e b) >>= k).run f).run handler).run s =
        (((Instr.ofExcept (e b) >>= k).run f).run handler).run u := by
    intro handler b u hb
    rw [run_bind, Op.run_bind_ok (Returns.of_ask hb)]
  rcases hr s f hs with ⟨heq, hW⟩ | ⟨b, s₁, b', v, s₂, s₃, hb, hrefused, hb', hv, hhalt, hD⟩
  · rcases hres : (h r).run s with ⟨err | b, u⟩
    · have hfail : ∀ handler : (r : Req) → Op σ ε (Resp r), (handler r).run s = (.error err, u) →
          (((Instr.ask r >>= fun b => Instr.ofExcept (e b) >>= k).run f).run handler).run s =
            (.error err, u) := by
        intro handler herr
        rw [run_bind]
        refine Op.run_bind_error ?_
        unfold Instr.ask
        dsimp only
        rw [Prog.run_bind, Prog.run_call, Op.run_bind_error herr]
      rw [hfail h hres, hfail h' (heq ▸ hres)]
      exact .error rfl
    · rw [hrun h b u hres, hrun h' b u (heq ▸ hres)]
      have hcont : Alike h h' D (fun u => ∀ v, e b = .ok v → W v u) U
          (Instr.ofExcept (e b) >>= k) := by
        cases he : e b with
        | error reason =>
          rintro f s t ⟨rfl, -⟩
          exact .ok (.inl ⟨rfl, rfl, nofun⟩)
        | ok v =>
          rintro f s t ⟨rfl, hW⟩
          exact hk v f s s ⟨rfl, hW v rfl⟩
      exact hcont f u u ⟨rfl, fun v hv => hW b v u hres hv⟩
  · rw [hrun h b s₁ hb, hrun h' b' s₂ hb', hrefused, hv]
    have hhalt' : (((Instr.ofExcept (.ok v) >>= k).run f).run h').run s₂ =
        (.ok (.error .outOfGas, f), s₃) := hhalt
    rw [hhalt']
    exact .ok (.inr ⟨f, rfl, rfl, hD⟩)

end Alike

end Instr

/-! ## Instructions that only make queries -/

namespace SimpleInstr

variable {σ ε α : Type} {h h' : (r : Request) → Op σ ε r.Resp} {D : σ → σ → Prop}
  {V : σ → Prop} {W : α → σ → Prop}

theorem run_lift (h : (r : Request) → Op σ ε r.Resp) (x : SimpleInstr α) (f : Interpreter) :
    ((SimpleInstr.lift x).run f).run h = (x.run f).run fun q => h (.query q) := by
  have hinterp : ∀ p : Prog Query Query.Resp (Except InstrStop α × Interpreter),
      (p.interp fun q => Prog.call (Request.query q) : Prog Request Request.Resp _).run h =
        p.run fun q => h (.query q) := by
    intro p
    induction p with
    | pure a => rfl
    | req q k ih =>
      rw [Prog.run_req]
      change (h (.query q) >>= fun b => _) = _
      congr 1
      funext b
      exact ih b
  exact hinterp (x.run f)

theorem alike_lift {x : SimpleInstr α}
    (hx : Instr.Alike (fun q => h (.query q)) (fun q => h' (.query q)) D V W x) :
    Instr.Alike h h' D V W (SimpleInstr.lift x) := by
  intro f
  rw [run_lift, run_lift]
  exact hx f

end SimpleInstr

end Evm2
