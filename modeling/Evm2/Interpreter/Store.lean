import Evm2.Interpreter.GasLaws
import Evm2.Interpreter.System

/-!
# One storage write

The instruction `SSTORE` is run in a frame that knows the current values of all slots.
-/

namespace Evm2

/-! ## Running an instruction -/

namespace Instr

variable {Req : Type} {Resp : Req → Type} {σ ε α β : Type}

def Returns (handler : (r : Req) → Op σ ε (Resp r)) (x : Instr Req Resp α) (f : Interpreter) (s : σ)
    (a : α) (f' : Interpreter) (s' : σ) : Prop :=
  ((x.run f).run handler).run s = (.ok (.ok a, f'), s')

variable {handler : (r : Req) → Op σ ε (Resp r)} {f f' : Interpreter} {s s' : σ} {a : α}

theorem Returns.bind {x : Instr Req Resp α} {g : α → Instr Req Resp β} {b : β}
    (h : Returns handler (x >>= g) f s b f' s') :
    ∃ a f'' s'', Returns handler x f s a f'' s'' ∧ Returns handler (g a) f'' s'' b f' s' := by
  unfold Returns at h
  change ((x.run f >>= _).run handler).run s = _ at h
  rw [Prog.run_bind] at h
  obtain ⟨⟨r, f''⟩, s'', hx, hg⟩ := Op.run_bind_eq_ok h
  cases r with
  | error reason => cases hg
  | ok a => exact ⟨a, f'', s'', hx, hg⟩

theorem Returns.then {x : Instr Req Resp α} {g : α → Instr Req Resp β} {b : β} {f'' : Interpreter}
    {s'' : σ} (hx : Returns handler x f s a f' s') (hg : Returns handler (g a) f' s' b f'' s'') :
    Returns handler (x >>= g) f s b f'' s'' := by
  change ((x.run f >>= _).run handler).run s = _
  rw [Prog.run_bind, Op.run_bind_ok hx]
  exact hg

theorem Returns.of_pure {x : Instr Req Resp α} (h : x.run f = Prog.pure (.ok a, f')) :
    Returns handler x f s a f' s := by
  unfold Returns
  rw [h]
  rfl

theorem Returns.of_ask {r : Req} {b : Resp r} (h : (handler r).run s = (.ok b, s')) :
    Returns handler (Instr.ask r) f s b f s' := by
  unfold Returns Instr.ask
  dsimp only
  rw [Prog.run_bind, Prog.run_call, Op.run_bind_ok h]
  rfl

theorem Returns.ask {r : Req} {b : Resp r} (h : Returns handler (Instr.ask r) f s b f' s') :
    (handler r).run s = (.ok b, s') := by
  obtain ⟨b', s'', hb, hret⟩ := Op.run_bind_eq_ok (show (handler r >>= fun b =>
    (Prog.pure (Except.ok b, f)).run handler).run s = (.ok (.ok b, f'), s') from h)
  cases hret
  exact hb

theorem Returns.ret {b : α} (h : Returns handler (pure b : Instr Req Resp α) f s a f' s') :
    a = b ∧ f' = f ∧ s' = s := by
  cases h
  exact ⟨rfl, rfl, rfl⟩

theorem Returns.ofExcept {x : Except InstrStop α}
    (h : Returns handler (Instr.ofExcept x : Instr Req Resp α) f s a f' s') :
    x = .ok a ∧ f' = f ∧ s' = s := by
  cases h
  exact ⟨rfl, rfl, rfl⟩

theorem Returns.checkBounds {input output : ℕ} {u : Unit}
    (h : Returns handler (Instr.checkBounds input output) f s u f' s') : f' = f ∧ s' = s := by
  unfold Instr.checkBounds at h
  obtain ⟨_, _, _, hget, h⟩ := h.bind
  cases hget
  dsimp only at h
  split_ifs at h
  · cases h
  · cases h
  · exact h.ret.2

theorem Returns.popUnchecked {w : Word} (h : Returns handler Instr.popUnchecked f s w f' s') :
    w = f.stack.headD 0 ∧ f' = { f with stack := f.stack.tail } ∧ s' = s := by
  cases h
  exact ⟨rfl, rfl, rfl⟩

theorem Returns.state {x : Instr Req Resp α} (hx : ∀ f, ∃ r, x.run f = Prog.pure r)
    (h : Returns handler x f s a f' s') : s' = s := by
  obtain ⟨r, hr⟩ := hx f
  unfold Returns at h
  rw [hr] at h
  cases h
  rfl

end Instr

/-! ## Frames that write storage -/

/-- A storage slot of an account. -/
abbrev SlotKey := Address × Word

/-- A frame between two operations. `setRestores` and `resetRestores` count the writes that restored
a zero and a nonzero original and have not been taken back; `otherState` and `otherRefund` are the
state gas and the refund that do not come from writes. -/
structure StoreFrame where
  gas : GasTracker
  current : SlotKey → Word
  setRestores : ℕ
  resetRestores : ℕ
  otherState : ℤ
  otherRefund : ℤ

namespace StoreFrame

def start (limit reservoir : ℕ) (current : SlotKey → Word) : StoreFrame :=
  ⟨.newWithExecutionGasAndReservoir limit reservoir, current, 0, 0, 0, 0⟩

variable (original : SlotKey → Word)

def write (k : SlotKey) (value : Word) (isCold : Bool) (f : StoreFrame) : SStore × StoreFrame :=
  let vals : SStore := ⟨original k, f.current k, value, isCold⟩
  let restores := !vals.isNoop && vals.resetsOriginal
  (vals, { f with
    current := Function.update f.current k value
    setRestores := f.setRestores + (restores && vals.originalIsZero).toNat
    resetRestores := f.resetRestores + (restores && !vals.originalIsZero).toNat })

def onGas {α : Type} (g : GasTracker → α × GasTracker) : Op StoreFrame Unit α :=
  Op.total fun f => ((g f.gas).1, { f with gas := (g f.gas).2 })

def answer (isCold : Bool) : (r : Request) → Op StoreFrame Unit r.Resp
  | .query (.spend cost) => onGas fun g => g.spend cost
  | .query .remaining => onGas fun g => (g.remaining, g)
  | .sstore a key value skipColdLoad =>
    if isCold && skipColdLoad then pure (.error .outOfGas)
    else Op.total fun f =>
      (.ok (f.write original (a, key) value isCold).1, (f.write original (a, key) value isCold).2)
  | .spendState cost => onGas fun g => g.spendState cost
  | .refillReservoir amount => onGas fun g => ((), g.refillReservoir amount)
  | .recordRefund refund => onGas fun g => ((), g.recordRefund refund)
  | _ => Op.fail ()

def sstore (env : FrameEnv) (key value : Word) (isCold : Bool) (f : StoreFrame) :
    Bool × StoreFrame :=
  let r := (((SysInstr.sstore env).run { Interpreter.init with stack := [key, value] }).run
    (answer original isCold)).run f
  (match r.1 with | .ok (.ok _, _) => true | _ => false, r.2)

end StoreFrame

/-! ## Writes that succeed -/

namespace StoreFrame

open Instr (Returns)

variable {original : SlotKey → Word} {env : FrameEnv} {isCold : Bool} {f f' : StoreFrame}
  {i i' : Interpreter} {u : Unit}

theorem onGas_ok {α : Type} {g : GasTracker → α × GasTracker} {b : α}
    (h : (onGas g).run f = (.ok b, f')) : b = (g f.gas).1 ∧ f' = { f with gas := (g f.gas).2 } := by
  cases h
  exact ⟨rfl, rfl⟩

theorem returns_spend {cost : ℕ}
    (h : Returns (answer original isCold) (SysInstr.spend cost) i f u i' f') :
    f' = { f with gas := (f.gas.spend cost).2 } := by
  obtain ⟨b, f'', hb, h⟩ := Op.run_bind_eq_ok h
  obtain ⟨_, rfl⟩ := onGas_ok (g := fun g => g.spend cost) hb
  cases b with
  | true =>
    cases h
    rfl
  | false => cases h

theorem returns_remaining {gas : ℕ}
    (h : Returns (answer original isCold) SysInstr.remaining i f gas i' f') : f' = f :=
  (onGas_ok (g := fun g => (g.remaining, g)) h.ask).2

theorem returns_spendState {cost : ℕ}
    (h : Returns (answer original isCold) (SysInstr.spendState cost) i f u i' f') :
    (f.gas.spendState cost).1 = true ∧ f' = { f with gas := (f.gas.spendState cost).2 } := by
  unfold SysInstr.spendState at h
  obtain ⟨b, i₁, f₁, hb, h⟩ := h.bind
  obtain ⟨hfst, rfl⟩ := onGas_ok (g := fun g => g.spendState cost) hb.ask
  cases b with
  | true =>
    obtain ⟨_, _, rfl⟩ := h.ret
    exact ⟨hfst.symm, rfl⟩
  | false => cases h

theorem returns_stateGas {c : Prop} [Decidable c] {cost amount : ℕ}
    (h : Returns (answer original isCold) (Instr.when c do
      SysInstr.spendState cost
      SysInstr.refillReservoir amount) i f u i' f') :
    (c → (f.gas.spendState cost).1 = true) ∧
      f' = { f with
        gas := if c then (f.gas.spendState cost).2.refillReservoir amount else f.gas } := by
  unfold Instr.when at h
  split_ifs at h ⊢ with hc
  · obtain ⟨_, _, _, hspend, hrefill⟩ := h.bind
    obtain ⟨hok, rfl⟩ := returns_spendState hspend
    obtain ⟨_, rfl⟩ := onGas_ok (g := fun g => ((), g.refillReservoir amount)) hrefill.ask
    exact ⟨fun _ => hok, rfl⟩
  · obtain ⟨_, _, rfl⟩ := h.ret
    exact ⟨fun h => absurd h hc, rfl⟩

def vals (original : SlotKey → Word) (f : StoreFrame) (k : SlotKey) (value : Word) (isCold : Bool) :
    SStore :=
  ⟨original k, f.current k, value, isCold⟩

def chargeState (env : FrameEnv) (v : SStore) (g : GasTracker) : GasTracker :=
  if env.feature .eip8037 then
    (g.spendState (env.gasParams.sstoreStateGas v)).2.refillReservoir
      (env.gasParams.sstoreStateGasRefill v)
  else g

def charge (env : FrameEnv) (v : SStore) (g : GasTracker) : GasTracker :=
  (chargeState env v g).recordRefund (env.gasParams.sstoreRefund (env.feature .eip2200) v)

theorem vals_withGas (f : StoreFrame) (g : GasTracker) (k : SlotKey) (value : Word) :
    vals original { f with gas := g } k value isCold = vals original f k value isCold := rfl

theorem write_withGas (f : StoreFrame) (g : GasTracker) (k : SlotKey) (value : Word) :
    ({ f with gas := g }.write original k value isCold).2 =
      { (f.write original k value isCold).2 with gas := g } := rfl

theorem answer_sstore_ok {a : Address} {key value : Word} {skipColdLoad : Bool} {v : SStore}
    (h : (answer original isCold (.sstore a key value skipColdLoad)).run f = (.ok (.ok v), f')) :
    v = vals original f (a, key) value isCold ∧
      f' = (f.write original (a, key) value isCold).2 := by
  simp only [answer] at h
  split_ifs at h
  · cases h
  · cases h
    exact ⟨rfl, rfl⟩

theorem sstore_ok {key value : Word} (h : f.sstore original env key value isCold = (true, f')) :
    let k : SlotKey := (env.message.destination, key)
    ∃ g, f.gas.SameCounters g ∧
      (env.feature .eip8037 = true →
        (g.spendState (env.gasParams.sstoreStateGas (vals original f k value isCold))).1 = true) ∧
      f' = { (f.write original k value isCold).2 with
        gas := charge env (vals original f k value isCold) g } := by
  unfold sstore at h
  simp only [Prod.mk.injEq] at h
  obtain ⟨hok, hf⟩ := h
  split at hok
  case h_2 => cases hok
  case h_1 r u i hr =>
    have h : Returns (answer original isCold) (SysInstr.sstore env)
        { Interpreter.init with stack := [key, value] } f u i f' := by
      unfold Returns
      rw [← hf, ← hr]
    clear hr hf hok
    unfold SysInstr.sstore at h
    -- the stack is known
    obtain ⟨_, _, _, hbounds, h₁⟩ := h.bind
    obtain ⟨rfl, rfl⟩ := hbounds.checkBounds
    obtain ⟨_, _, _, hkey, h₂⟩ := h₁.bind
    obtain ⟨rfl, rfl, rfl⟩ := hkey.popUnchecked
    obtain ⟨_, _, _, hvalue, h₃⟩ := h₂.bind
    obtain ⟨rfl, rfl, rfl⟩ := hvalue.popUnchecked
    -- the checks, and the charge for the access
    obtain ⟨_, _, _, hstatic, h₄⟩ := h₃.bind
    obtain rfl := hstatic.state fun i => by
      unfold SysInstr.requireNonStaticcall
      split_ifs <;> exact ⟨_, rfl⟩
    obtain ⟨_, _, _, hgas, h₅⟩ := h₄.bind
    obtain rfl := returns_remaining hgas
    obtain ⟨_, _, _, hsentry, h₆⟩ := h₅.bind
    obtain rfl := hsentry.state fun i => by
      unfold Instr.when
      split_ifs <;> exact ⟨_, rfl⟩
    obtain ⟨_, _, _, haccess, h₇⟩ := h₆.bind
    obtain rfl := returns_spend haccess
    obtain ⟨_, _, _, hgas', h₈⟩ := h₇.bind
    obtain rfl := returns_remaining hgas'
    -- the write
    obtain ⟨_, _, _, hwrite, h₉⟩ := h₈.bind
    obtain ⟨v, _, _, hv, h₁₀⟩ := h₉.bind
    obtain ⟨rfl, _, rfl⟩ := hv.ofExcept
    obtain ⟨rfl, rfl⟩ := answer_sstore_ok hwrite.ask
    -- the charges that depend on it
    obtain ⟨_, _, _, hdynamic, h₁₁⟩ := h₁₀.bind
    obtain rfl := returns_spend hdynamic
    obtain ⟨_, _, _, hstate, h₁₂⟩ := h₁₁.bind
    obtain ⟨hok, rfl⟩ := returns_stateGas hstate
    obtain ⟨_, hrefund⟩ := onGas_ok (g := fun g =>
      ((), g.recordRefund (env.gasParams.sstoreRefund (env.feature .eip2200) _))) h₁₂.ask
    rw [write_withGas] at hok hrefund
    rw [vals_withGas] at hok hrefund
    refine ⟨_, (GasTracker.sameCounters_spend _ _).trans (GasTracker.sameCounters_spend _ _), hok,
      ?_⟩
    rw [hrefund]
    simp only [charge, chargeState]

theorem spend_returns {cost : ℕ} (h : (f.gas.spend cost).1 = true) :
    Returns (answer original isCold) (SysInstr.spend cost) i f () i
      { f with gas := (f.gas.spend cost).2 } := by
  have hspend : (answer original isCold (.query (.spend cost))).run f =
      (.ok true, { f with gas := (f.gas.spend cost).2 }) := by
    rw [← h]
    rfl
  exact (Op.run_bind_ok hspend).trans rfl

theorem spendState_returns {cost : ℕ} (h : (f.gas.spendState cost).1 = true) :
    Returns (answer original isCold) (SysInstr.spendState cost) i f () i
      { f with gas := (f.gas.spendState cost).2 } := by
  have hspend : (answer original isCold (.spendState cost)).run f =
      (.ok true, { f with gas := (f.gas.spendState cost).2 }) := by
    rw [← h]
    rfl
  exact Returns.then (.of_ask hspend) (.of_pure rfl)

theorem sstore_returns {key value : Word} {v : SStore} {g : GasTracker}
    (hv : vals original f (env.message.destination, key) value false = v)
    (hstatic : env.isStatic = false) (hgas : env.gasParams.get .callStipend < f.gas.remaining)
    (haccess : (f.gas.spend (env.gasParams.get .sstoreStatic)).1 = true)
    (hdynamic : (f.gas.spend (env.gasParams.get .sstoreStatic)).2.spend
      (env.gasParams.sstoreDynamicGas (env.feature .eip2200) v) = (true, g))
    (hstate : (g.spendState (env.gasParams.sstoreStateGas v)).1 = true) :
    f.sstore original env key value false =
      (true, { (f.write original (env.message.destination, key) value false).2 with
        gas := charge env v g }) := by
  let i₂ : Interpreter := { Interpreter.init with stack := [key, value] }
  let i₁ : Interpreter := { Interpreter.init with stack := [value] }
  let i₀ : Interpreter := { Interpreter.init with stack := [] }
  let f₁ : StoreFrame := { f with gas := (f.gas.spend (env.gasParams.get .sstoreStatic)).2 }
  let f₂ : StoreFrame := (f₁.write original (env.message.destination, key) value false).2
  have hbounds : Returns (answer original false) (Instr.checkBounds 2 0) i₂ f () i₂ f :=
    .of_pure rfl
  have hkey : Returns (answer original false) Instr.popUnchecked i₂ f key i₁ f := .of_pure rfl
  have hvalue : Returns (answer original false) Instr.popUnchecked i₁ f value i₀ f := .of_pure rfl
  have hcheck : Returns (answer original false) (SysInstr.requireNonStaticcall env) i₀ f ()
      i₀ f := by
    unfold SysInstr.requireNonStaticcall
    rw [hstatic]
    exact .of_pure rfl
  have hremaining : ∀ f : StoreFrame, Returns (answer original false) SysInstr.remaining i₀ f
    f.gas.remaining i₀ f := fun f => .of_ask rfl
  have hsentry : Returns (answer original false) (Instr.when (env.feature .eip2200 ∧
      f.gas.remaining ≤ env.gasParams.get .callStipend) (Instr.stop .reentrancySentryOOG))
        i₀ f () i₀ f := by
    unfold Instr.when
    rw [if_neg (by omega)]
    exact .of_pure rfl
  have hwrite : ∀ skipColdLoad, Returns (answer original false)
      (SysInstr.request (.sstore env.message.destination key value skipColdLoad)) i₀ f₁
      (.ok v) i₀ f₂ := by
    rw [← hv]
    exact fun skipColdLoad => .of_ask rfl
  have hspend : Returns (answer original false)
      (SysInstr.spend (env.gasParams.sstoreDynamicGas (env.feature .eip2200) v)) i₀ f₂ () i₀
      { f₂ with gas := g } := by
    have hf₂ : f₂.gas.spend (env.gasParams.sstoreDynamicGas (env.feature .eip2200) v) = (true, g) :=
      hdynamic
    have h : Returns (answer original false) (SysInstr.spend _) i₀ f₂ () i₀ _ :=
      spend_returns (congrArg Prod.fst hf₂)
    rw [hf₂] at h
    exact h
  have hstateGas : Returns (answer original false) (Instr.when (env.feature .eip8037) do
      SysInstr.spendState (env.gasParams.sstoreStateGas v)
      SysInstr.refillReservoir (env.gasParams.sstoreStateGasRefill v)) i₀ { f₂ with gas := g } () i₀
      { f₂ with gas := chargeState env v g } := by
    unfold chargeState
    unfold Instr.when
    split_ifs
    · refine Returns.then (spendState_returns hstate) (.of_ask rfl)
    · exact .of_pure rfl
  have hrefund : ∀ f : StoreFrame, ∀ r, Returns (answer original false) (SysInstr.recordRefund r)
      i₀ f () i₀ { f with gas := f.gas.recordRefund r } := fun f r => .of_ask rfl
  have h : Returns (answer original false) (SysInstr.sstore env) i₂ f () i₀ _ :=
    hbounds.then <| hkey.then <| hvalue.then <| hcheck.then <| (hremaining f).then <|
      hsentry.then <| (spend_returns haccess).then <| (hremaining _).then <|
      (hwrite _).then <| Returns.then (.of_pure rfl) <| hspend.then <| hstateGas.then <| hrefund _ _
  unfold sstore
  unfold Returns at h
  rw [h]
  rfl

end StoreFrame

end Evm2
