import Evm2.Interpreter.Run

/-!
# What a frame may ask for

Each state-changing instruction checks for itself that its frame is not static, and works on the
account of its frame; each message it sends is put together from the message of the frame. Here
this is said once, for all requests of a frame.
-/

namespace Evm2

/-- Message `m'` may be sent by the frame of `m`. -/
structure Message.Sends [Keccak] (m m' : Message) : Prop where
  depth : m'.depth = min (m.depth + 1) (2 ^ 16 - 1)
  isStatic : m.isStatic = true → m'.isStatic = true ∧ m'.kind.isCreate = false
  callerIsStatic : m'.callerIsStatic = true → m.isStatic = true
  call : m'.kind = .call →
    m'.caller = m.destination ∧ m'.destination = m'.callTarget ∧ (m.isStatic = true → m'.value = 0)
  callCode : m'.kind = .callCode → m'.caller = m.destination ∧ m'.destination = m.destination
  delegateCall : m'.kind = .delegateCall →
    m'.caller = m.caller ∧ m'.destination = m.destination ∧ m'.value = m.value
  staticCall : m'.kind = .staticCall →
    m'.caller = m.destination ∧ m'.destination = m'.callTarget ∧ m'.value = 0
  create : m'.kind.isCreate = true →
    m'.caller = m.destination ∧ m'.code = .newLegacy m'.input ∧
      ∃ nonce, m'.destination =
        deriveCreateDestination m'.kind m.destination m'.salt m'.input nonce

def Request.Allowed [Keccak] (m : Message) : Request → Prop
  | sstore a _ _ _ => a = m.destination ∧ m.isStatic = false
  | tstore a _ _ => a = m.destination ∧ m.isStatic = false
  | log l => l.address = m.destination ∧ m.isStatic = false
  | selfdestruct contract _ _ => contract = m.destination ∧ m.isStatic = false
  | executeMessage m' => m.Sends m'
  | _ => True

def Request.AnyAnswer (r : Request) (_ : r.Resp) : Prop := True

/-! ## Specifications of instructions -/

namespace Instr

variable {Req : Type} {Resp : Req → Type} {α β : Type}

/-- With answers in `A`, every request of the instruction satisfies `P`, and what it returns
satisfies `Q`. -/
def Spec (P : Req → Prop) (A : (r : Req) → Resp r → Prop) (Q : α → Prop)
    (x : Instr Req Resp α) : Prop :=
  ∀ f, (x.run f).Spec P A fun r => ∀ a, r.1 = .ok a → Q a

variable {P : Req → Prop} {A : (r : Req) → Resp r → Prop} {Q : α → Prop} {Q' : β → Prop}

theorem Spec.ret {a : α} (h : Q a) : Spec P A Q (pure a : Instr Req Resp α) := by
  intro f b hb
  cases hb
  exact h

theorem Spec.bind {x : Instr Req Resp α} {g : α → Instr Req Resp β} (hx : Spec P A Q x)
    (hg : ∀ a, Q a → Spec P A Q' (g a)) : Spec P A Q' (x >>= g) := by
  intro f
  refine Prog.Spec.bind (hx f) fun r hr => ?_
  match r, hr with
  | (.ok a, f'), hr => exact hg a (hr a rfl) f'
  | (.error reason, f'), _ => exact fun b hb => by cases hb

theorem Spec.seq {x : Instr Req Resp α} {g : α → Instr Req Resp β} (hx : Spec P A (fun _ => True) x)
    (hg : ∀ a, Spec P A Q' (g a)) : Spec P A Q' (x >>= g) :=
  hx.bind fun a _ => hg a

theorem Spec.triv {x : Instr Req Resp α} (h : Spec P A Q x) : Spec P A (fun _ => True) x :=
  fun f => (h f).mono fun _ _ _ _ => trivial

theorem Spec.mono {R : α → Prop} {x : Instr Req Resp α} (hQ : ∀ a, Q a → R a) (h : Spec P A Q x) :
    Spec P A R x :=
  fun f => (h f).mono fun _ hr a ha => hQ a (hr a ha)

theorem Spec.stop (reason : InstrStop) : Spec P A Q (Instr.stop reason : Instr Req Resp α) := by
  intro f b hb
  cases hb

theorem Spec.answer {r : Req} (h : P r) : Spec P A (A r) (Instr.ask r : Instr Req Resp _) := by
  refine fun _ => ⟨h, fun b hb c hc => ?_⟩
  cases hc
  exact hb

theorem Spec.ask {r : Req} (h : P r) : Spec P A (fun _ => True) (Instr.ask r : Instr Req Resp _) :=
  (Spec.answer h).triv

theorem Spec.get : Spec P A (fun _ => True) (Instr.get : Instr Req Resp Interpreter) :=
  fun _ _ _ => trivial

theorem Spec.modify (g : Interpreter → Interpreter) :
    Spec P A (fun _ => True) (Instr.modify g : Instr Req Resp Unit) :=
  fun _ _ _ => trivial

theorem Spec.ofExcept (x : Except InstrStop α) :
    Spec P A (fun _ => True) (Instr.ofExcept x : Instr Req Resp α) :=
  fun _ _ _ => trivial

theorem Spec.ite {c : Prop} [Decidable c] {x y : Instr Req Resp α} (hx : c → Spec P A Q x)
    (hy : ¬c → Spec P A Q y) : Spec P A Q (if c then x else y) := by
  by_cases h : c
  · rw [if_pos h]; exact hx h
  · rw [if_neg h]; exact hy h

theorem Spec.when {c : Prop} [Decidable c] {x : Instr Req Resp Unit}
    (hx : c → Spec P A (fun _ => True) x) : Spec P A (fun _ => True) (Instr.when c x) :=
  .ite hx fun _ => .ret trivial

theorem Spec.guard {c : Prop} [Decidable c] (reason : InstrStop) :
    Spec P A (fun _ => ¬c) (Instr.when c (Instr.stop reason) : Instr Req Resp Unit) :=
  .ite (fun _ => .stop _) fun h => .ret h

theorem spec_checkBounds (input output : Nat) :
    Spec P A (fun _ => True) (checkBounds input output : Instr Req Resp Unit) :=
  .seq .get fun _ => .ite (fun _ => .stop _) fun _ => .ite (fun _ => .stop _) fun _ => .ret trivial

theorem spec_popUnchecked : Spec P A (fun _ => True) (popUnchecked : Instr Req Resp Word) :=
  .seq .get fun _ => .seq (.modify _) fun _ => .ret trivial

theorem spec_popn (n : Nat) : Spec P A (fun _ => True) (popn n : Instr Req Resp (List Word)) :=
  .seq .get fun _ => .ite (fun _ => .stop _) fun _ => .seq (.modify _) fun _ => .ret trivial

theorem spec_pop : Spec P A (fun _ => True) (pop : Instr Req Resp Word) :=
  .seq (spec_popn 1) fun _ => .ret trivial

theorem spec_push (w : Word) : Spec P A (fun _ => True) (push w : Instr Req Resp Unit) :=
  .seq .get fun _ => .ite (fun _ => .stop _) fun _ => .modify _

end Instr

/-! ## System instructions -/

namespace SysInstr

open Instr (Spec)

section

variable [Keccak] {env : FrameEnv} {α : Type}

abbrev Ok (env : FrameEnv) (Q : α → Prop) (x : SysInstr α) : Prop :=
  Spec (Request.Allowed env.message) Request.AnyAnswer Q x

theorem ok_lift (x : SimpleInstr α) : Ok env (fun _ => True) (SimpleInstr.lift x) := by
  intro f
  have hq : ∀ q : Query, Prog.Spec (Request.Allowed env.message) Request.AnyAnswer
      (fun _ => True) (Prog.call (Request.query q) : Prog Request Request.Resp _) :=
    fun q => (Prog.Spec.call trivial).mono fun _ _ => trivial
  exact (Prog.spec_interp hq (x.run f)).mono fun _ _ _ _ => trivial

theorem ok_spend (cost : Nat) : Ok env (fun _ => True) (spend cost) := ok_lift _

theorem ok_remaining : Ok env (fun _ => True) remaining := .ask trivial

theorem ok_loadAccount (a : Address) (loadCode skip : Bool) :
    Ok env (fun _ => True) (loadAccount a loadCode skip) :=
  .seq (.ask trivial) fun _ => .ofExcept _

theorem ok_spendState (cost : Nat) : Ok env (fun _ => True) (spendState cost) :=
  .seq (.ask trivial) fun _ => .ite (fun _ => .ret trivial) fun _ => .stop _

theorem ok_refillReservoir (amount : Nat) : Ok env (fun _ => True) (refillReservoir amount) :=
  .ask trivial

theorem ok_recordRefund (refund : Int) : Ok env (fun _ => True) (recordRefund refund) :=
  .ask trivial

theorem ok_requireNonStaticcall :
    Ok env (fun _ => env.message.isStatic = false) (requireNonStaticcall env) :=
  .ite (fun _ => .stop _) fun h => .ret (by simpa [FrameEnv.isStatic] using h)

theorem ok_sstore : Ok env (fun _ => True) (sstore env) := by
  refine .seq (Instr.spec_checkBounds 2 0) fun _ => .seq Instr.spec_popUnchecked fun key =>
    .seq Instr.spec_popUnchecked fun value => .bind ok_requireNonStaticcall fun _ hs => ?_
  refine .seq ok_remaining fun gas => .seq (.when fun _ => .stop _) fun _ =>
    .seq (ok_spend _) fun _ => .seq ok_remaining fun gas => ?_
  refine .seq (.ask ⟨rfl, hs⟩) fun load => .seq (.ofExcept _) fun load => .seq (ok_spend _) fun _ =>
    .seq (.when fun _ => ?_) fun _ => ok_recordRefund _
  exact .seq (ok_spendState _) fun _ => ok_refillReservoir _

theorem ok_tstore : Ok env (fun _ => True) (tstore env) :=
  .seq (Instr.spec_checkBounds 2 0) fun _ => .seq Instr.spec_popUnchecked fun _ =>
    .seq Instr.spec_popUnchecked fun _ => .bind ok_requireNonStaticcall fun _ hs =>
    .ask ⟨rfl, hs⟩

theorem ok_log (n : Nat) : Ok env (fun _ => True) (log env n) := by
  refine .bind ok_requireNonStaticcall fun _ hs => .seq (Instr.spec_popn 2) fun _ =>
    .seq (.ofExcept _) fun len => .seq (ok_spend _) fun _ => .seq (.ite (fun _ => ?_) fun _ => ?_)
    fun _ => .seq (Instr.spec_popn n) fun _ => .seq .get fun _ => .ask ⟨rfl, hs⟩
  · exact .ret trivial
  · exact .seq (.ofExcept _) fun _ => .seq (ok_lift _) fun _ => .ret trivial

/-! ### Calls -/

theorem ok_resizeMemoryRange (offset len : Word) :
    Ok env (fun _ => True) (resizeMemoryRange env offset len) := by
  refine .seq (.ofExcept _) fun _ => .ite (fun _ => ?_) fun _ => .ret trivial
  exact .seq (.ofExcept _) fun _ => .seq (ok_lift _) fun _ => .ret trivial

theorem ok_resolveDelegation (remainingGas cost : Nat) (code : Bytecode) (target : Address) :
    Ok env (fun _ => True) (resolveDelegation env remainingGas cost code target) := by
  unfold resolveDelegation
  cases code with
  | legacy bytes => exact .ret trivial
  | eip7702 delegated =>
    refine .ite (fun _ => .ite (fun _ => .stop _) fun _ => ?_) fun _ => .ret trivial
    exact .seq (ok_loadAccount _ _ _) fun _ => .ret trivial

theorem ok_loadAccAndCalcGas (target : Address) (transfersValue createEmptyAccount : Bool)
    (stackGasLimit : Nat) : Ok env (fun _ => True)
      (loadAccAndCalcGas env target transfersValue createEmptyAccount stackGasLimit) := by
  refine .seq (.when fun _ => ok_spend _) fun _ => .seq ok_remaining fun _ =>
    .seq (ok_loadAccount _ _ _) fun _ => .seq (ok_resolveDelegation _ _ _ _) fun _ => ?_
  exact .seq (ok_spend _) fun _ => .seq (ok_spendState _) fun _ => .seq ok_remaining fun _ =>
    .seq (ok_spend _) fun _ => .ret trivial

theorem ok_prepareCall (kind : MessageKind) (hk : kind.isCreate = false) :
    Ok env (fun r => env.message.Sends r.1) (prepareCall env kind) := by
  refine .seq (Instr.spec_popn 2) fun args =>
    .bind (Q := fun value => kind = .staticCall → value = 0) (.ite (fun _ => ?_) fun _ => ?_)
    fun value hv => .seq (Instr.spec_popn 4) fun _ => ?_
  · refine Instr.spec_pop.mono fun value _ hs => ?_
    subst hs
    simp at *
  · exact .ret fun _ => rfl
  refine .bind (.guard _) fun _ hst => .seq (ok_resizeMemoryRange _ _) fun _ =>
    .seq (ok_resizeMemoryRange _ _) fun _ => .seq (ok_loadAccAndCalcGas _ _ _ _) fun _ =>
    .seq .get fun _ => .seq (.ask trivial) fun _ => .ret ?_
  have hstatic : env.message.isStatic = true → kind = .call → value = 0 := by
    intro hs hc
    by_contra hv
    exact hst ⟨hs, hc, decide_eq_true hv⟩
  refine ⟨rfl, fun hs => ⟨?_, hk⟩, id, ?_, ?_, ?_, ?_, fun hc => ?_⟩
  · exact (Bool.or_eq_true _ _).mpr (.inl hs)
  · rintro rfl
    exact ⟨rfl, rfl, fun hs => hstatic hs rfl⟩
  · rintro rfl
    exact ⟨rfl, rfl⟩
  · rintro rfl
    exact ⟨rfl, rfl, rfl⟩
  · rintro rfl
    exact ⟨rfl, rfl, hv rfl⟩
  · rw [hk] at hc
    cases hc

theorem ok_executeChild {message : Message} (h : env.message.Sends message) :
    Ok env (fun _ => True) (executeChild message) :=
  .seq (.ask h) fun _ => .ite (fun _ => .stop _) fun _ => .seq (.ask trivial) fun _ => .ret trivial

theorem ok_call (kind : MessageKind) (hk : kind.isCreate = false) :
    Ok env (fun _ => True) (call env kind) := by
  refine .bind (ok_prepareCall kind hk) fun r hr => ?_
  exact .seq (ok_executeChild hr) fun result => .seq (.when fun _ => ok_refillReservoir _) fun _ =>
    .seq (.modify _) fun _ => Instr.spec_push _

/-! ### Creations -/

theorem ok_chargeCreateStateGas (balance : Word) (nonce : U64) (value : Word)
    (destination : Address) :
    Ok env (fun _ => True) (chargeCreateStateGas env balance nonce value destination) := by
  refine .ite (fun _ => .ite (fun _ => .ret trivial) fun _ => ?_) fun _ => .ret trivial
  refine .seq (ok_loadAccount _ _ _) fun _ => .ite (fun _ => ?_) fun _ => .ret trivial
  exact .seq (ok_spendState _) fun _ => .ret trivial

theorem ok_initcode (isCreate2 : Bool) (offset len : Word) :
    Ok env (fun _ => True) (initcode env isCreate2 offset len) := by
  refine .seq (.ofExcept _) fun _ => .seq (.when fun _ => ?_) fun _ =>
    .seq (ok_resizeMemoryRange _ _) fun _ => .seq .get fun _ => .seq (ok_spend _) fun _ =>
    .ret trivial
  exact .seq (.when fun _ => .stop _) fun _ => ok_spend _

theorem ok_finishCreate (charged : Bool) {message : Message} (h : env.message.Sends message) :
    Ok env (fun _ => True) (finishCreate env charged message) :=
  .seq (ok_executeChild h) fun _ => .seq (.when fun _ => ok_refillReservoir _) fun _ =>
    .seq (.modify _) fun _ => Instr.spec_push _

theorem ok_create (isCreate2 : Bool) : Ok env (fun _ => True) (create env isCreate2) := by
  refine .bind ok_requireNonStaticcall fun _ hs => .seq (Instr.spec_popn 3) fun args =>
    .seq (.ite (fun _ => Instr.spec_pop) fun _ => .ret trivial) fun salt =>
    .seq (ok_initcode _ _ _) fun input => .seq (.ite (fun _ => .ret trivial) fun _ => ?_)
    fun account => .seq (ok_chargeCreateStateGas _ _ _ _) fun charged => ?_
  · exact .seq (ok_loadAccount _ _ _) fun _ => .ret trivial
  cases charged with
  | none => exact .seq (.modify _) fun _ => Instr.spec_push _
  | some charged =>
    refine .seq ok_remaining fun _ => .seq (ok_spend _) fun _ => .seq (.ask trivial) fun _ =>
      ok_finishCreate charged ?_
    have hkind : ∀ kind : MessageKind, kind.isCreate = false →
        (if isCreate2 then MessageKind.create2 else .create) ≠ kind := by
      rintro _ h rfl
      cases isCreate2 <;> cases h
    refine ⟨rfl, fun h => ?_, fun h => (by cases h), fun h => absurd h (hkind _ rfl),
      fun h => absurd h (hkind _ rfl), fun h => absurd h (hkind _ rfl),
      fun h => absurd h (hkind _ rfl), fun _ => ⟨rfl, rfl, _, rfl⟩⟩
    rw [hs] at h
    cases h

theorem ok_selfdestruct : Ok env (fun _ => True) (selfdestruct env) :=
  .seq (Instr.spec_checkBounds 1 0) fun _ => .seq Instr.spec_popUnchecked fun _ =>
    .bind ok_requireNonStaticcall fun _ hs => .seq ok_remaining fun _ =>
    .seq (.ask ⟨rfl, hs⟩) fun _ => .seq (.ofExcept _) fun _ => .seq (ok_spend _) fun _ =>
    .seq (.when fun _ => ok_spendState _) fun _ => .seq (.when fun _ => ok_recordRefund _) fun _ =>
    .stop _

/-! ### The dispatch loop -/

theorem ok_execute (op : OpCode) : Ok env (fun _ => True) (execute env op) := by
  cases op with
  | sstore => exact ok_sstore
  | tstore => exact ok_tstore
  | log n => exact ok_log n
  | create => exact ok_create false
  | create2 => exact ok_create true
  | call => exact ok_call .call rfl
  | callcode => exact ok_call .callCode rfl
  | delegatecall => exact ok_call .delegateCall rfl
  | staticcall => exact ok_call .staticCall rfl
  | selfdestruct => exact ok_selfdestruct
  | _ => exact ok_lift _

theorem ok_step : Ok env (fun _ => True) (step env) := by
  refine .seq .get fun f => ?_
  cases OpCode.new (env.message.code.byteAt f.pc) with
  | none => exact .stop _
  | some op =>
    dsimp only
    cases env.opcodes.staticGas op with
    | none => exact .stop _
    | some cost => exact .seq (ok_spend _) fun _ => .seq (ok_execute op) fun _ => .modify _

/-- **A frame only makes allowed requests.** -/
theorem loop_allowed (env : FrameEnv) (fuel : Nat) : Ok env (fun _ => True) (loop env fuel) := by
  induction fuel with
  | zero => exact .ask trivial
  | succ fuel ih => exact .seq ok_step fun _ => ih

end

end SysInstr

end Evm2
