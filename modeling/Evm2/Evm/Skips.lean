import Evm2.Evm.TrackedRuns
import Evm2.Interpreter.Alike
import Evm2.State.Leftovers
import Evm2.State.Skips

/-!
# Skipping unaffordable cold loads

Before an instruction loads an account or a slot, it tells the host to skip the load if it is cold
and the frame could not pay for it. A skipped load halts the frame out of gas; without skipping,
the frame halts out of gas when it is charged for the load.

* **`SysInstr.sim_execute`**: an instruction ends alike with and without skipping.
-/

namespace Evm2

open State (precompile3)

section Skips

variable [Keccak]

def Evm.handleUnskipped (evm : Evm) (exec : Message → Op World ExecutionError MessageResult) :
    (r : Request) → Op (GasTracker × World) ExecutionError r.Resp
  | .query (.loadAccount a loadCode _) => evm.handle exec (.query (.loadAccount a loadCode false))
  | .query (.sload a key _) => evm.handle exec (.query (.sload a key false))
  | .sstore a key value _ => evm.handle exec (.sstore a key value false)
  | .selfdestruct contract target _ => evm.handle exec (.selfdestruct contract target false)
  | r => evm.handle exec r

def Request.skips : Request → Bool
  | .query (.loadAccount _ _ skip) | .query (.sload _ _ skip) | .sstore _ _ _ skip
  | .selfdestruct _ _ skip => skip
  | _ => false

def Request.isGas : Request → Bool
  | .query (.spend _) | .query .remaining | .reservoir | .spendState _ | .refillReservoir _
  | .recordRefund _ | .mergeChildGas _ _ => true
  | _ => false

variable {evm : Evm} {exec : Message → Op World ExecutionError MessageResult}

omit [Keccak] in
theorem Request.skips_of_isGas {r : Request} (h : r.isGas = true) : r.skips = false := by
  cases r with
  | query q => cases q <;> first | rfl | cases h
  | _ => first | rfl | cases h

theorem Evm.handleUnskipped_eq {r : Request} (h : r.skips = false) :
    evm.handleUnskipped exec r = evm.handle exec r := by
  cases r with
  | query q =>
    cases q with
    | loadAccount a loadCode skip | sload a key skip =>
      cases skip with
      | false => rfl
      | true => cases h
    | _ => rfl
  | sstore a key value skip | selfdestruct contract target skip =>
    cases skip with
    | false => rfl
    | true => cases h
  | _ => rfl

theorem Evm.handle_isGas {r : Request} (h : r.isGas = true) (s : GasTracker × World) :
    ((evm.handle exec r).run s).2.2 = s.2 := by
  have hgas : ∀ {α : Type} (f : GasTracker → α × GasTracker),
      ((onGas f : Op _ ExecutionError α).run s).2.2 = s.2 := fun _ => rfl
  cases r with
  | query q =>
    cases q with
    | spend cost => exact hgas fun g => g.spend cost
    | remaining => exact hgas fun g => (g.remaining, g)
    | _ => cases h
  | reservoir => exact hgas fun g => (g.reservoir, g)
  | spendState cost => exact hgas fun g => g.spendState cost
  | refillReservoir amount => exact hgas fun g => ((), g.refillReservoir amount)
  | recordRefund refund => exact hgas fun g => ((), g.recordRefund refund)
  | mergeChildGas child reason => exact hgas fun g => ((), g.mergeChildGas child reason)
  | _ => cases h

/-! ## Runs that touch precompile 3, or do not -/

/-- A run; without `k`, precompile 3 is touched afterwards just if it was before. -/
structure World.RunsTouching (evm : Evm) (k : Bool) (w w' : World) : Prop where
  runs : World.Runs evm .any w w'
  touched : k = false → w'.state.isTouched precompile3 = w.state.isTouched precompile3

namespace World

variable {k : Bool} {w w' : World} {α : Type}

theorem RunsTouching.refl (w : World) : RunsTouching evm k w w :=
  ⟨Std.Refl.refl w, fun _ => rfl⟩

theorem RunsTouching.trans {w'' : World} (h : RunsTouching evm false w w')
    (h' : RunsTouching evm k w' w'') : RunsTouching evm k w w'' :=
  ⟨IsTrans.trans _ _ _ h.runs h'.runs, fun hk => (h'.touched hk).trans (h.touched rfl)⟩

theorem RunsTouching.of_run (h : State.Run evm.db (.sparing precompile3) w.state w'.state) :
    RunsTouching evm k w w' :=
  ⟨.of_run (Relation.ReflTransGen.mono (fun _ _ => State.Step.mono Permit.le_any) _ _ h),
    fun _ => State.Run.isTouched h⟩

theorem runsTouching_onLoad {x : Op State LoadError α}
    (h : Op.Moves (State.Run evm.db (.sparing precompile3)) x) :
    Op.Moves (RunsTouching evm k) (World.onLoad x) := by
  intro w
  refine .of_run ?_
  unfold World.onLoad
  dsimp only
  split <;> exact h w.state

theorem runsTouching_onState {x : Op State DatabaseError α}
    (h : Op.Moves (State.Run evm.db (.sparing precompile3)) x) :
    Op.Moves (RunsTouching evm k) (World.onState x) :=
  fun w => .of_run (h w.state)

instance : Std.Refl (RunsTouching evm k) := ⟨.refl⟩

instance : IsTrans World (RunsTouching evm false) := ⟨fun _ _ _ => .trans⟩

end World

/-! ## Host operations that may skip a load -/

section Loads

variable {α γ : Type} {isCold : γ → Bool} {a : Address} {key : Word} {w w' : World}

open Evm.Tracked (Notes unlessSkipped)

omit [Keccak] in
theorem isCold_of_notes {x : Op World ExecutionError (Except InstrStop γ)}
    (h : Notes World.state (unlessSkipped fun v r => r.accessAddress a (isCold v)) x) {v : γ}
    (hrun : x.run w = (.ok (.ok v), w')) (hcold : w.state.isWarm a = false) : isCold v = true := by
  have hright := (h w (.ok v) w' hrun (.start w.state.warmSets) rfl nofun).2
  refine (hright ⟨isCold v, _⟩ List.mem_cons_self).mpr fun hmem => ?_
  exact Bool.false_ne_true (hcold.symm.trans hmem)

omit [Keccak] in
theorem isCold_of_notes_slot {x : Op World ExecutionError (Except InstrStop γ)}
    (h : Notes World.state (unlessSkipped fun v r => r.accessSlot a key (isCold v)) x) {v : γ}
    (hrun : x.run w = (.ok (.ok v), w')) (hcold : w.state.isStorageWarm a key = false) :
    isCold v = true := by
  have hright := (h w (.ok v) w' hrun (.start w.state.warmSets) rfl nofun).2
  refine (hright ⟨isCold v, _⟩ List.mem_cons_self).mpr fun hmem => ?_
  exact Bool.false_ne_true (hcold.symm.trans hmem)

/-- Operation `x` does what `y` does, or it is refused, and then `y` returns a cold entry. -/
def SkipsCold (isCold : γ → Bool) (x y : Op World ExecutionError (Except InstrStop γ)) : Prop :=
  ∀ w, x.run w = y.run w ∨ ∃ w₁ v w₂, x.run w = (.ok (.error .outOfGas), w₁) ∧
    y.run w = (.ok (.ok v), w₂) ∧ isCold v = true

omit [Keccak] in
theorem SkipsCold.refl (x : Op World ExecutionError (Except InstrStop γ)) : SkipsCold isCold x x :=
  fun _ => .inl rfl

omit [Keccak] in
theorem skipsCold_onLoad {x y : Op State LoadError γ} {isWarm : State → Bool}
    (hxy : ∀ s, Refused (isWarm s) (x.run s) (y.run s)) (hy : Op.Returns y)
    (hcold : ∀ w v w', (World.onLoad y).run w = (.ok (.ok v), w') → isWarm w.state = false →
      isCold v = true) : SkipsCold isCold (World.onLoad x) (World.onLoad y) := by
  intro w
  rcases hxy w.state with hsame | ⟨⟨t, hskip⟩, hwarm⟩
  · left
    simp only [World.onLoad, hsame]
  · right
    obtain ⟨v, u, hv⟩ := hy w.state
    have hrun : (World.onLoad y).run w = (.ok (.ok v), { w with state := u }) := by
      simp only [World.onLoad, hv]
    refine ⟨{ w with state := t }, v, { w with state := u }, ?_, hrun, hcold w v _ hrun hwarm⟩
    simp only [World.onLoad, hskip]

theorem skipsCold_loadAccount (hdb : evm.db.Answers) (a : Address) (loadCode skip : Bool) :
    SkipsCold AccountLoad.isCold (evm.loadAccount a loadCode skip)
      (evm.loadAccount a loadCode false) := by
  cases skip with
  | false => exact .refl _
  | true =>
    refine skipsCold_onLoad (fun s => State.accountWithSkip_skips evm.db s a _) ?_
      fun w v w' => isCold_of_notes (Evm.Tracked.notes_loadAccount a loadCode false)
    refine State.returns_accountWithSkip hdb a (.bind (.total _) fun _ => .bind .get fun _ =>
      .bind (.ite (fun _ => ?_) fun _ => .ret _) fun _ => .ret _)
    exact (AccountHandle.returns_loadCode hdb).mapError _

theorem skipsCold_sload (hdb : evm.db.Answers) (h2929 : evm.feature .eip2929 = true) (a : Address)
    (key : Word) (skip : Bool) :
    SkipsCold SLoad.isCold (evm.sload a key skip) (evm.sload a key false) := by
  cases skip with
  | false => exact .refl _
  | true =>
    have hnotes := Evm.Tracked.notes_sload h2929 a key false
    unfold Evm.sload at hnotes ⊢
    rw [h2929] at hnotes ⊢
    exact skipsCold_onLoad (fun s => State.storage_skips evm.db s a key _)
      (State.returns_storage hdb a (State.returns_intoSlotInner hdb true key _))
      fun w v w' => isCold_of_notes_slot hnotes

theorem skipsCold_sstore (hdb : evm.db.Answers) (h2929 : evm.feature .eip2929 = true) (a : Address)
    (key value : Word) (skip : Bool) :
    SkipsCold SStore.isCold (evm.sstore a key value skip) (evm.sstore a key value false) := by
  cases skip with
  | false => exact .refl _
  | true =>
    have hnotes := Evm.Tracked.notes_sstore h2929 a key value false
    unfold Evm.sstore at hnotes ⊢
    rw [h2929] at hnotes ⊢
    exact skipsCold_onLoad (fun s => State.storage_skips evm.db s a key _)
      (State.returns_storage hdb a (State.returns_intoSlotInner hdb true key _))
      fun w v w' => isCold_of_notes_slot hnotes

/-! ### `SELFDESTRUCT` -/

omit [Keccak] in
theorem returns_onState {x : Op State DatabaseError α} (hx : Op.Returns x) :
    Op.Returns (World.onState x) := by
  intro w
  obtain ⟨b, s, hb⟩ := hx w.state
  exact ⟨b, { w with state := s }, by rw [World.run_onState, hb]; rfl⟩

theorem returns_transfer (hdb : evm.db.Answers) (src dst : Address) (value : Word) :
    Op.Returns (evm.transfer src dst value) := by
  have htransfer : Op.Returns (State.transfer evm.db src dst value) := by
    refine .ite (fun _ => ?_) fun _ => .ite (fun _ => State.returns_account hdb _ _) fun _ => ?_
    · exact .bind (State.returns_account hdb _ _) fun _ => .ret _
    · exact .bind (State.returns_account hdb _ _) fun _ =>
        .ite (fun _ => State.returns_account hdb _ _) fun _ => .ret _
  intro w
  obtain ⟨b, w', hb⟩ := returns_onState htransfer w
  have hfst : ((evm.transfer src dst value).run w).1 = .ok b := congrArg Prod.fst hb
  exact ⟨b, _, Prod.ext hfst rfl⟩

theorem returns_selfdestructContract (hdb : evm.db.Answers) (contract target : Address)
    (isCold targetIsEmpty : Bool) :
    Op.Returns (evm.selfdestructContract contract target isCold targetIsEmpty) := by
  refine .bind (returns_onState (State.returns_account hdb _ _)) fun r =>
    .bind (.ite (fun _ => ?_) fun _ => .ite (fun _ => ?_) fun _ => .ret _) fun _ =>
    .bind (.ite (fun _ => returns_onState (State.returns_account hdb _ _)) fun _ => .ret _)
    fun _ => .ret _
  · exact .bind (returns_transfer hdb _ _ _) fun _ => .ite (fun _ => .update _) fun _ => .ret _
  · exact .bind (returns_onState (State.returns_account hdb _ _)) fun _ => .update _

theorem skipsCold_selfdestruct (hdb : evm.db.Answers) (contract target : Address) (skip : Bool) :
    SkipsCold SelfDestructResult.isCold (evm.selfdestruct contract target skip)
      (evm.selfdestruct contract target false) := by
  cases skip with
  | false => exact .refl _
  | true =>
    let session : Op AccountHandle LoadError (Bool × Bool) := Op.total fun h =>
      ((h.warm.1, h.warm.2.isEmptyForNewAccountGas evm.version.features), h.warm.2)
    have htarget : SkipsCold Prod.fst
        (World.onLoad (State.accountWithSkip evm.db target true session))
        (World.onLoad (State.accountWithSkip evm.db target false session)) :=
      skipsCold_onLoad (fun s => State.accountWithSkip_skips evm.db s target _)
        (State.returns_accountWithSkip hdb target (.total _))
        fun w v w' => isCold_of_notes (Evm.Tracked.notes_targetAccess target false)
    intro w
    unfold Evm.selfdestruct
    rcases htarget w with hsame | ⟨w₁, ⟨isCold, empty⟩, w₂, hskip, haccess, hcold⟩
    · left
      rw [Op.run_bind, Op.run_bind, hsame]
    · right
      obtain ⟨result, w₃, hrest⟩ := returns_selfdestructContract hdb contract target isCold empty w₂
      have hresult : result.isCold = isCold := by
        obtain ⟨_, _, -, hend⟩ := Op.run_bind_eq_ok hrest
        obtain ⟨_, _, -, hend⟩ := Op.run_bind_eq_ok hend
        obtain ⟨_, _, -, hend⟩ := Op.run_bind_eq_ok hend
        cases hend
        rfl
      refine ⟨w₁, result, w₃, ?_, ?_, hresult.trans hcold⟩
      · rw [Op.run_bind_ok hskip]
        rfl
      · rw [Op.run_bind_ok haccess]
        dsimp only
        rw [Op.run_bind_ok hrest]
        rfl

theorem runsTouching_selfdestruct {contract target : Address} (hc : contract ≠ precompile3)
    (ht : target ≠ precompile3) (skip : Bool) :
    Op.Moves (World.RunsTouching evm false) (evm.selfdestruct contract target skip) := by
  have hcontract : ∀ {α : Type} {f : AccountHandle → α × AccountHandle},
      (∀ h, AccountHandle.Mutates evm.db .any h (f h).2) →
      Op.Moves (World.RunsTouching evm false)
        (World.onState (State.account evm.db contract f)) := fun hf =>
    World.runsTouching_onState (State.moves_account_at evm.db fun h hh =>
      (hf h).sparing (hh.symm ▸ hc))
  have htransfer : ∀ value, Op.Moves (World.RunsTouching evm false)
      (evm.transfer contract target value) := fun value w =>
    .of_run (State.moves_transfer_sparing hc ht value w.state)
  have hlog : ∀ value (w : World), World.RunsTouching evm false w
      { w with state := evm.logEip7708Transfer contract target value w.state } := fun value w =>
    ⟨Evm.moves_logEip7708Transfer contract target value (fun _ _ => trivial) w, fun _ => by
      unfold Evm.logEip7708Transfer Evm.log
      split_ifs <;> (try split) <;> rfl⟩
  refine .bind (World.runsTouching_onLoad (State.moves_accountWithSkip evm.db skip fun h =>
    AccountHandle.mutates_warm h)) fun access => ?_
  cases access with
  | error reason => exact .ret _
  | ok access =>
    refine .bind (.bind (hcontract fun h => .refl h) fun r => .bind ?_ fun _ =>
      .bind (.ite (hcontract fun h => ?_) (.ret _)) fun _ => .ret _) fun _ => .ret _
    · refine .ite (.bind (htransfer _) fun _ => .ite (.update (hlog _)) (.ret _))
        (.ite (.bind (hcontract fun h => ?_) fun _ => .update fun w => ?_) (.ret _))
      · exact AccountHandle.mutates_addBalance h _
      · exact .of_run .refl
    · exact AccountHandle.mutates_markDestructed h trivial

end Loads

/-! ## Frames -/

section Frames

open Instr (Alike Halts)

variable {Req : Type} {Resp : Req → Type} {α β γ : Type} {w₀ : World} {k : Bool}
  {h h' : (r : Req) → Op (GasTracker × World) ExecutionError (Resp r)}

def InStep (evm : Evm) (w₀ : World) (s : GasTracker × World) : Prop :=
  World.RunsTouching evm false w₀ s.2

/-- Two frames that halt out of gas are alike: their settled gas is the same. -/
structure HaltAlike (evm : Evm) (w₀ : World) (k : Bool) (s t : GasTracker × World) : Prop where
  gas : t.1.settleGas .outOfGas = s.1.settleGas .outOfGas
  left : World.RunsTouching evm false w₀ s.2
  right : World.RunsTouching evm k w₀ t.2

/-- Request `r` loads something: over both handlers alike, or `h` skips the load and over `h'` it is
cold. -/
structure Loads (evm : Evm) (h h' : (r : Req) → Op (GasTracker × World) ExecutionError (Resp r))
    (r : Req) (e : Resp r → Except InstrStop γ) (isCold : γ → Bool) (skip k : Bool) : Prop where
  refused : ∀ s, (h r).run s = (h' r).run s ∨ skip = true ∧ ∃ b w₁ b' v w₂,
    (h r).run s = (.ok b, (s.1, w₁)) ∧ e b = .error .outOfGas ∧
    (h' r).run s = (.ok b', (s.1, w₂)) ∧ e b' = .ok v ∧ isCold v = true ∧
    World.RunsTouching evm false s.2 w₁ ∧ World.RunsTouching evm k s.2 w₂
  moves : k = false → ∀ s, ((h r).run s).2.1 = s.1 ∧
    World.RunsTouching evm false s.2 ((h r).run s).2.2

def FailsToPay (h' : (r : Req) → Op (GasTracker × World) ExecutionError (Resp r))
    (x : Instr Req Resp α) (n : Nat) : Prop :=
  ∀ f (g : GasTracker) w, g.remaining = n → ∃ g', Halts h' x f (g, w) (g', w) ∧
    g'.settleGas .outOfGas = g.settleGas .outOfGas

theorem alike_load {r : Req} {e : Resp r → Except InstrStop γ} {isCold : γ → Bool} {skip : Bool}
    {n : Nat} {x : γ → Instr Req Resp β} {W : γ → GasTracker × World → Prop}
    {U : β → GasTracker × World → Prop} (hl : Loads evm h h' r e isCold skip k)
    (hW : ∀ v s, (k = false → InStep evm w₀ s ∧ s.1.remaining = n) → W v s)
    (hpay : skip = true → ∀ v, isCold v = true → FailsToPay h' (x v) n)
    (hx : ∀ v, Alike h h' (HaltAlike evm w₀ k) (W v) U (x v)) :
    Alike h h' (HaltAlike evm w₀ k) (fun s => InStep evm w₀ s ∧ s.1.remaining = n) U
      (Instr.ask r >>= fun b => Instr.ofExcept (e b) >>= x) := by
  refine .load (fun s f hs => ?_) hx
  obtain ⟨hstep, hn⟩ := hs
  rcases hl.refused s with hsame | ⟨hskip, b, w₁, b', v, w₂, hb, he, hb', hv, hcold, hw₁, hw₂⟩
  · refine .inl ⟨hsame, fun b v t hb _ => hW v t fun hk => ?_⟩
    have hmoves := hl.moves hk s
    rw [hb] at hmoves
    exact ⟨hstep.trans hmoves.2, (congrArg GasTracker.remaining hmoves.1).trans hn⟩
  · obtain ⟨g', hhalt, hgas⟩ := hpay hskip v hcold f s.1 w₂ hn
    exact .inr ⟨b, (s.1, w₁), b', v, (s.1, w₂), (g', w₂), hb, he, hb', hv, hhalt, hgas,
      hstep.trans hw₁, hstep.trans hw₂⟩

end Frames

/-! ## The host with and without skipping -/

section Hosts

open Instr (Alike Halts)

variable {γ β α : Type} {isCold : γ → Bool} {x y : Op World ExecutionError (Except InstrStop γ)}
  {skip k : Bool} {w₀ : World} {n cost : Nat}

/-- The answers to queries without skipping. -/
abbrev Evm.queryUnskipped (evm : Evm) (exec : Message → Op World ExecutionError MessageResult)
    (q : Query) : Op (GasTracker × World) ExecutionError q.Resp :=
  evm.handleUnskipped exec (.query q)

theorem refused_onWorld (hxy : SkipsCold isCold x y) (hskip : skip = false → x = y)
    (hx : ∀ w w', x.run w = (.ok (.error .outOfGas), w') → World.RunsTouching evm false w w')
    (hy : Op.Moves (World.RunsTouching evm k) y) (s : GasTracker × World) :
    (Evm.onWorld x).run s = (Evm.onWorld y).run s ∨ skip = true ∧ ∃ b w₁ b' v w₂,
      (Evm.onWorld x).run s = (.ok b, (s.1, w₁)) ∧ id b = .error .outOfGas ∧
      (Evm.onWorld y).run s = (.ok b', (s.1, w₂)) ∧ id b' = .ok v ∧ isCold v = true ∧
      World.RunsTouching evm false s.2 w₁ ∧ World.RunsTouching evm k s.2 w₂ := by
  cases skip with
  | false => exact .inl (by rw [hskip rfl])
  | true =>
    rcases hxy s.2 with hsame | ⟨w₁, v, w₂, hrun, hrun', hcold⟩
    · left
      simp only [Evm.onWorld, hsame]
    · have hmoves := hy s.2
      rw [hrun'] at hmoves
      refine .inr ⟨rfl, .error .outOfGas, w₁, .ok v, v, w₂, ?_, rfl, ?_, rfl, hcold,
        hx s.2 w₁ hrun, hmoves⟩
      · simp only [Evm.onWorld, hrun]
      · simp only [Evm.onWorld, hrun']

theorem runsTouching_loadAccount (a : Address) (loadCode skip : Bool) :
    Op.Moves (World.RunsTouching evm k) (evm.loadAccount a loadCode skip) :=
  World.runsTouching_onLoad (State.moves_accountWithSkip evm.db skip fun h =>
    Evm.mutates_loadAccountSession loadCode h)

theorem runsTouching_sload (a : Address) (key : Word) (skip : Bool) :
    Op.Moves (World.RunsTouching evm k) (evm.sload a key skip) :=
  World.runsTouching_onLoad (State.moves_storage evm.db (fun _ _ => .refl) a _ key skip)

theorem runsTouching_sstore (a : Address) (key value : Word) (skip : Bool) :
    Op.Moves (World.RunsTouching evm k) (evm.sstore a key value skip) := by
  refine World.runsTouching_onLoad (State.moves_storage evm.db (fun _ h => ?_) a _ key skip)
  exact StorageSlotHandle.session_write trivial h value

omit [Keccak] in
theorem refused_of_moves {R : World → World → Prop} (h : Op.Moves R x) (w w' : World)
    (hrun : x.run w = (.ok (.error .outOfGas), w')) : R w w' := by
  have hR := h w
  rw [hrun] at hR
  exact hR

theorem loads_queryAccount (hdb : evm.db.Answers) (a : Address) (loadCode skip : Bool) :
    Loads evm (fun q => evm.handle exec (.query q)) (evm.queryUnskipped exec)
      (.loadAccount a loadCode skip) id AccountLoad.isCold skip k where
  refused := refused_onWorld (skipsCold_loadAccount hdb a loadCode skip) (fun h => by rw [h])
    (refused_of_moves (runsTouching_loadAccount a loadCode skip)) (runsTouching_loadAccount _ _ _)
  moves _ s := ⟨rfl, runsTouching_loadAccount a loadCode skip s.2⟩

theorem loads_account (hdb : evm.db.Answers) (a : Address) (loadCode skip : Bool) :
    Loads evm (evm.handle exec) (evm.handleUnskipped exec)
      (.query (.loadAccount a loadCode skip)) id AccountLoad.isCold skip k where
  refused := (loads_queryAccount hdb a loadCode skip).refused
  moves _ s := ⟨rfl, runsTouching_loadAccount a loadCode skip s.2⟩

theorem loads_querySlot (hdb : evm.db.Answers) (h2929 : skip = true → evm.feature .eip2929 = true)
    (a : Address) (key : Word) :
    Loads evm (fun q => evm.handle exec (.query q)) (evm.queryUnskipped exec) (.sload a key skip) id
      SLoad.isCold skip k where
  refused := by
    have hskips : SkipsCold SLoad.isCold (evm.sload a key skip) (evm.sload a key false) := by
      cases skip with
      | false => exact .refl _
      | true => exact skipsCold_sload hdb (h2929 rfl) a key true
    exact refused_onWorld hskips (fun h => by rw [h])
      (refused_of_moves (runsTouching_sload a key skip)) (runsTouching_sload _ _ _)
  moves _ s := ⟨rfl, runsTouching_sload a key skip s.2⟩

theorem loads_sstore (hdb : evm.db.Answers) (h2929 : skip = true → evm.feature .eip2929 = true)
    (a : Address) (key value : Word) :
    Loads evm (evm.handle exec) (evm.handleUnskipped exec) (.sstore a key value skip) id
      SStore.isCold skip k where
  refused := by
    have hskips : SkipsCold SStore.isCold (evm.sstore a key value skip)
        (evm.sstore a key value false) := by
      cases skip with
      | false => exact .refl _
      | true => exact skipsCold_sstore hdb (h2929 rfl) a key value true
    exact refused_onWorld hskips (fun h => by rw [h])
      (refused_of_moves (runsTouching_sstore a key value skip)) (runsTouching_sstore _ _ _ _)
  moves _ s := ⟨rfl, runsTouching_sstore a key value skip s.2⟩

theorem runsTouching_refused_selfdestruct (contract target : Address) (skip : Bool) (w w' : World)
    (hrun : (evm.selfdestruct contract target skip).run w = (.ok (.error .outOfGas), w')) :
    World.RunsTouching evm false w w' := by
  obtain ⟨access, w₁, haccess, hrest⟩ := Op.run_bind_eq_ok hrun
  cases access with
  | ok access =>
    obtain ⟨_, _, -, hend⟩ := Op.run_bind_eq_ok hrest
    cases hend
  | error reason =>
    cases hrest
    have hmoves : Op.Moves (World.RunsTouching evm false)
        (World.onLoad (State.accountWithSkip evm.db target skip (Op.total fun h =>
          ((h.warm.1, h.warm.2.isEmptyForNewAccountGas evm.version.features), h.warm.2)))) :=
      World.runsTouching_onLoad (State.moves_accountWithSkip evm.db skip fun h =>
        AccountHandle.mutates_warm h)
    have hR := hmoves w
    rw [haccess] at hR
    exact hR

theorem loads_selfdestruct (hdb : evm.db.Answers) (contract target : Address) (skip : Bool)
    (hk : k = false → contract ≠ precompile3 ∧ target ≠ precompile3) :
    Loads evm (evm.handle exec) (evm.handleUnskipped exec) (.selfdestruct contract target skip) id
      SelfDestructResult.isCold skip k where
  refused := by
    refine refused_onWorld (skipsCold_selfdestruct hdb contract target skip) (fun h => by rw [h])
      (runsTouching_refused_selfdestruct contract target skip) ?_
    cases k with
    | false => exact runsTouching_selfdestruct (hk rfl).1 (hk rfl).2 false
    | true =>
      have : Permit.any.Destroys evm.version.features := ⟨fun _ _ _ => trivial⟩
      exact fun w => ⟨Evm.moves_selfdestruct trivial contract target false w, nofun⟩
  moves hfalse s := ⟨rfl, runsTouching_selfdestruct (hk hfalse).1 (hk hfalse).2 skip s.2⟩

/-! ### Gas -/

theorem inStep_gas {r : Request} (h : r.isGas = true) :
    Op.Moves (fun s t => InStep evm w₀ s → InStep evm w₀ t) (evm.handle exec r) := by
  intro s hs
  unfold InStep
  rw [Evm.handle_isGas h]
  exact hs

theorem alike_gas {x : SysInstr α}
    (hx : x.Spec (fun r => r.isGas = true) Request.AnyAnswer fun _ => True) :
    Alike (evm.handle exec) (evm.handleUnskipped exec) (HaltAlike evm w₀ k) (InStep evm w₀)
      (fun _ => InStep evm w₀) x :=
  .of_spec (fun _ _ => trivial) hx
    (fun _ hr => Evm.handleUnskipped_eq (Request.skips_of_isGas hr)) fun _ => inStep_gas

theorem alike_queryGas {x : SimpleInstr α}
    (hx : x.Spec (fun q => (Request.query q).isGas = true) (fun _ _ => True) fun _ => True) :
    Alike (fun q => evm.handle exec (.query q)) (evm.queryUnskipped exec) (HaltAlike evm w₀ k)
      (InStep evm w₀) (fun _ => InStep evm w₀) x :=
  .of_spec (fun _ _ => trivial) hx
    (fun _ hr => Evm.handleUnskipped_eq (Request.skips_of_isGas hr)) fun _ => inStep_gas

theorem alike_rest {x : SysInstr α} {V : GasTracker × World → Prop}
    (hx : x.Spec (fun r => r.skips = false) Request.AnyAnswer fun _ => True) :
    Alike (evm.handle exec) (evm.handleUnskipped exec) (HaltAlike evm w₀ k) V
      (fun _ _ => True) x :=
  (Alike.of_spec (fun _ _ => trivial) hx (fun _ hr => Evm.handleUnskipped_eq hr)
    fun _ _ _ h => h).mono (fun _ _ => trivial) fun _ _ h => h

theorem alike_queryRest {x : SimpleInstr α} {V : GasTracker × World → Prop}
    (hx : x.Spec (fun q => (Request.query q).skips = false) (fun _ _ => True) fun _ => True) :
    Alike (fun q => evm.handle exec (.query q)) (evm.queryUnskipped exec) (HaltAlike evm w₀ k) V
      (fun _ _ => True) x :=
  (Alike.of_spec (fun _ _ => trivial) hx (fun _ hr => Evm.handleUnskipped_eq hr)
    fun _ _ _ h => h).mono (fun _ _ => trivial) fun _ _ h => h

theorem alike_queryRemaining :
    Alike (fun q => evm.handle exec (.query q)) (evm.queryUnskipped exec) (HaltAlike evm w₀ k)
      (InStep evm w₀) (fun n s => InStep evm w₀ s ∧ s.1.remaining = n)
      (Instr.ask Query.remaining) := by
  rintro f s t ⟨rfl, hs⟩
  refine .ok (.inl ⟨rfl, rfl, ?_⟩)
  rintro n ⟨⟩
  exact ⟨hs, rfl⟩

theorem alike_remaining :
    Alike (evm.handle exec) (evm.handleUnskipped exec) (HaltAlike evm w₀ k)
      (InStep evm w₀) (fun n s => InStep evm w₀ s ∧ s.1.remaining = n) SysInstr.remaining := by
  rintro f s t ⟨rfl, hs⟩
  refine .ok (.inl ⟨rfl, rfl, ?_⟩)
  rintro n ⟨⟩
  exact ⟨hs, rfl⟩

/-! ### Failing to pay -/

omit [Keccak] in
theorem settleGas_outOfGas (g : GasTracker) (n : Nat) :
    { g with remaining := n }.settleGas .outOfGas = g.settleGas .outOfGas := rfl

theorem failsToPay_querySpend (hn : n < cost) :
    FailsToPay (evm.queryUnskipped exec) (SimpleInstr.spend cost) n := by
  intro f g w hg
  refine ⟨(g.spend cost).2, ?_, settleGas_outOfGas g _⟩
  have hask : Instr.Returns (evm.queryUnskipped exec) (Instr.ask (.spend cost)) f (g, w) false f
      ((g.spend cost).2, w) := by
    refine .of_ask ?_
    have hfst : (g.spend cost).1 = false := decide_eq_false (by omega)
    rw [← hfst]
    rfl
  exact hask.halts rfl

theorem failsToPay_spend (hn : n < cost) :
    FailsToPay (evm.handleUnskipped exec) (SysInstr.spend cost) n := by
  intro f g w hg
  have hquery : FailsToPay (evm.queryUnskipped exec) (SimpleInstr.spend cost) n :=
    failsToPay_querySpend hn
  obtain ⟨g', hhalt, hgas⟩ := hquery f g w hg
  refine ⟨g', ?_, hgas⟩
  unfold Halts SysInstr.spend
  rw [SimpleInstr.run_lift]
  exact hhalt

omit [Keccak] in
theorem FailsToPay.bind {Req : Type} {Resp : Req → Type}
    {h' : (r : Req) → Op (GasTracker × World) ExecutionError (Resp r)} {x : Instr Req Resp α}
    {g : α → Instr Req Resp β} (hx : FailsToPay h' x n) : FailsToPay h' (x >>= g) n := by
  intro f gas w hgas
  obtain ⟨g', hhalt, hsettled⟩ := hx f gas w hgas
  exact ⟨g', hhalt.bind, hsettled⟩

end Hosts

/-! ## Instructions that only make queries -/

section Instructions

open Instr (Alike Spec)

variable {w₀ : World} {k : Bool} {α : Type} {env : FrameEnv}

section Specs

omit [Keccak]

variable {P : Query → Prop} {A : (q : Query) → q.Resp → Prop}

theorem SimpleInstr.spec_spend (hP : ∀ cost, P (.spend cost)) (cost : Nat) :
    Spec P A (fun _ => True) (SimpleInstr.spend cost) :=
  .seq (.ask (hP cost)) fun _ => .ite (fun _ => .ret trivial) fun _ => .stop _

theorem SimpleInstr.spec_resizeMemory (hP : ∀ cost, P (.spend cost)) (offset len : Nat) :
    Spec P A (fun _ => True) (SimpleInstr.resizeMemory env offset len) := by
  refine .seq .get fun _ => .ite (fun _ => .ret trivial) fun _ => .ite (fun _ => .stop _) fun _ =>
    .ite (fun _ => .stop _) fun _ => .seq (.modify _) fun _ => .seq (.ask (hP _)) fun _ => ?_
  exact .ite (fun _ => .modify _) fun _ => .stop _

theorem SimpleInstr.spec_lift {P : Request → Prop} {x : SimpleInstr α}
    (hx : Spec (fun q => P (.query q)) (fun _ _ => True) (fun _ => True) x) :
    Spec P Request.AnyAnswer (fun _ => True) (SimpleInstr.lift x) := by
  have hinterp : ∀ p : Prog Query Query.Resp (Except InstrStop α × Interpreter),
      p.Spec (fun q => P (.query q)) (fun _ _ => True) (fun r => ∀ a, r.1 = .ok a → True) →
      (p.interp fun q => Prog.call (Request.query q) : Prog Request Request.Resp _).Spec P
        Request.AnyAnswer fun r => ∀ a, r.1 = .ok a → True := by
    intro p
    induction p with
    | pure a => exact id
    | req q next ih => exact fun hp => ⟨hp.1, fun b _ => ih b (hp.2 b trivial)⟩
  exact fun f => hinterp _ (hx f)

end Specs

theorem SimpleInstr.alike_loadAccount (hdb : evm.db.Answers) (addr : Word) (loadCode : Bool) :
    Alike (fun q => evm.handle exec (.query q)) (evm.queryUnskipped exec)
      (HaltAlike evm w₀ k) (InStep evm w₀) (fun _ _ => True)
      (SimpleInstr.loadAccount env addr loadCode) := by
  refine alike_queryRemaining.bind fun n => alike_load (loads_queryAccount hdb _ _ _)
    (W := fun _ _ => True) (fun _ _ _ => trivial) (fun hskip load hcold => ?_) fun load => ?_
  · simp only [hcold, if_true]
    exact (failsToPay_querySpend (of_decide_eq_true hskip)).bind
  · exact alike_queryRest (.ite (fun _ => .seq (SimpleInstr.spec_spend (fun _ => rfl) _) fun _ =>
      .ret trivial) fun _ => .ret trivial)

theorem SimpleInstr.alike_unary {g : Word → SimpleInstr Word}
    (hg : ∀ a, Alike (fun q => evm.handle exec (.query q)) (evm.queryUnskipped exec)
      (HaltAlike evm w₀ k) (InStep evm w₀) (fun _ _ => True) (g a)) :
    Alike (fun q => evm.handle exec (.query q)) (evm.queryUnskipped exec) (HaltAlike evm w₀ k)
      (InStep evm w₀) (fun _ _ => True) (Instr.unary g) :=
  (alike_queryGas (Instr.spec_checkBounds 1 1)).bind fun _ =>
    (alike_queryGas Instr.spec_popUnchecked).bind fun a =>
    (hg a).bind fun _ => alike_queryRest (.modify _)

theorem SimpleInstr.alike_extcodecopy (hdb : evm.db.Answers) :
    Alike (fun q => evm.handle exec (.query q)) (evm.queryUnskipped exec) (HaltAlike evm w₀ k)
      (InStep evm w₀) (fun _ _ => True) (SimpleInstr.extcodecopy env) := by
  have hspend : ∀ cost, Spec (fun q => (Request.query q).isGas = true) (fun _ _ => True)
      (fun _ => True) (SimpleInstr.spend cost) := SimpleInstr.spec_spend fun _ => rfl
  refine (alike_queryGas (Instr.spec_checkBounds 4 0)).bind fun _ =>
    (alike_queryGas Instr.spec_popUnchecked).bind fun addr =>
    (alike_queryGas Instr.spec_popUnchecked).bind fun _ =>
    (alike_queryGas Instr.spec_popUnchecked).bind fun _ =>
    (alike_queryGas Instr.spec_popUnchecked).bind fun _ =>
    (alike_queryGas (.ofExcept _)).bind fun _ => (alike_queryGas (hspend _)).bind fun _ =>
    (alike_queryGas (.ite (fun _ => ?_) fun _ => .ret trivial)).bind fun _ =>
    (SimpleInstr.alike_loadAccount hdb addr true).bind fun _ => alike_queryRest (.modify _)
  exact .seq (.ofExcept _) fun _ =>
    .seq (SimpleInstr.spec_resizeMemory (fun _ => rfl) _ _) fun _ => .ret trivial

theorem SimpleInstr.alike_sload (hdb : evm.db.Answers) (henv : env.version = evm.version)
    (key : Word) :
    Alike (fun q => evm.handle exec (.query q)) (evm.queryUnskipped exec) (HaltAlike evm w₀ k)
      (InStep evm w₀) (fun _ _ => True) (SimpleInstr.sload env key) := by
  refine alike_queryRemaining.bind fun n => alike_load (loads_querySlot hdb (fun hskip => ?_) _ _)
    (W := fun _ _ => True) (fun _ _ _ => trivial) (fun hskip load hcold => ?_) fun load => ?_
  · have h2929 := (Bool.and_eq_true_iff.mp hskip).1
    rw [FrameEnv.feature, henv] at h2929
    exact h2929
  · simp only [hcold, if_true]
    exact (failsToPay_querySpend (of_decide_eq_true (Bool.and_eq_true_iff.mp hskip).2)).bind
  · exact alike_queryRest (.ite (fun _ => .seq (SimpleInstr.spec_spend (fun _ => rfl) _) fun _ =>
      .ret trivial) fun _ => .ret trivial)

/-! ## System instructions -/

namespace SysInstr

variable {β : Type} {n cost : Nat}

section Requests

omit [Keccak]

variable {P : Request → Prop}

theorem spec_spend (hP : ∀ cost, P (.query (.spend cost))) (cost : Nat) :
    Spec P Request.AnyAnswer (fun _ => True) (spend cost) :=
  SimpleInstr.spec_lift (SimpleInstr.spec_spend hP cost)

theorem spec_spendState (hP : ∀ cost, P (.spendState cost)) (cost : Nat) :
    Spec P Request.AnyAnswer (fun _ => True) (spendState cost) :=
  .seq (.ask (hP cost)) fun _ => .ite (fun _ => .ret trivial) fun _ => .stop _

theorem spec_resizeMemoryRange (hP : ∀ cost, P (.query (.spend cost)))
    (offset len : Word) :
    Spec P Request.AnyAnswer (fun _ => True) (resizeMemoryRange env offset len) := by
  refine .seq (.ofExcept _) fun _ => .ite (fun _ => ?_) fun _ => .ret trivial
  exact .seq (.ofExcept _) fun _ =>
    .seq (SimpleInstr.spec_lift (SimpleInstr.spec_resizeMemory hP _ _)) fun _ => .ret trivial

theorem spec_requireNonStaticcall :
    Spec P Request.AnyAnswer (fun _ => True) (requireNonStaticcall env) :=
  .ite (fun _ => .stop _) fun _ => .ret trivial

theorem spec_remaining (hP : P (.query .remaining)) :
    Spec P Request.AnyAnswer (fun _ => True) remaining := .ask hP

theorem spec_mergeChildGas
    (hP : ∀ child reason, P (.mergeChildGas child reason)) (child : GasTracker)
    (reason : InstrStop) :
    Spec P Request.AnyAnswer (fun _ => True) (request (.mergeChildGas child reason)) :=
  .ask (hP child reason)

theorem spec_recordRefund (hP : ∀ refund, P (.recordRefund refund))
    (refund : Int) : Spec P Request.AnyAnswer (fun _ => True) (recordRefund refund) :=
  .ask (hP refund)

theorem spec_refillReservoir (hP : ∀ amount, P (.refillReservoir amount))
    (amount : Nat) : Spec P Request.AnyAnswer (fun _ => True) (refillReservoir amount) :=
  .ask (hP amount)

end Requests

theorem alike_sstore (hdb : evm.db.Answers) (henv : env.version = evm.version)
    (h2200 : evm.feature .eip2929 = true → evm.feature .eip2200 = true)
    (hcost : evm.version.gasParams.get .coldStorageAdditionalCost ≤
      evm.version.gasParams.get .coldStorageCost) :
    Alike (evm.handle exec) (evm.handleUnskipped exec) (HaltAlike evm w₀ k) (InStep evm w₀)
      (fun _ _ => True) (sstore env) := by
  refine (alike_gas (Instr.spec_checkBounds 2 0)).bind fun _ =>
    (alike_gas Instr.spec_popUnchecked).bind fun key =>
    (alike_gas Instr.spec_popUnchecked).bind fun value =>
    (alike_gas spec_requireNonStaticcall).bind fun _ =>
    (alike_gas (.ask rfl)).bind fun gas => (alike_gas (.when fun _ => .stop _)).bind fun _ =>
    (alike_gas (spec_spend (fun _ => rfl) _)).bind fun _ => alike_remaining.bind fun n =>
    alike_load (loads_sstore hdb (fun hskip => ?_) _ _ _)
      (W := fun _ _ => True) (fun _ _ _ => trivial) (fun hskip load hcold => ?_) fun load => ?_
  · have h2929 := (Bool.and_eq_true_iff.mp hskip).1
    rw [FrameEnv.feature, henv] at h2929
    exact h2929
  · obtain ⟨h2929, hn⟩ := Bool.and_eq_true_iff.mp hskip
    rw [FrameEnv.feature, henv] at h2929
    refine (failsToPay_spend ((of_decide_eq_true hn).trans_le ?_)).bind
    have heip : env.feature .eip2200 = true := by
      rw [FrameEnv.feature, henv]
      exact h2200 h2929
    rw [FrameEnv.gasParams, henv, heip]
    unfold GasParams.sstoreDynamicGas
    simp only [Bool.not_true, Bool.false_eq_true, if_false, hcold, if_true]
    omega
  · refine alike_rest (.seq (spec_spend (fun _ => rfl) _) fun _ => .seq (.when fun _ => ?_)
      fun _ => spec_recordRefund (fun _ => rfl) _)
    exact .seq (spec_spendState (fun _ => rfl) _) fun _ => spec_refillReservoir (fun _ => rfl) _

theorem sim_pop {g : Word → SysInstr α} {f : Interpreter} {V : GasTracker × World → Prop}
    {W : α → GasTracker × World → Prop}
    (hg : Alike (evm.handle exec) (evm.handleUnskipped exec) (HaltAlike evm w₀ k) V W
      (g (f.stack.headD 0))) :
    Op.Sim (fun s t => s = t ∧ V s) (Instr.EndAlike (HaltAlike evm w₀ k) W) Eq
      (((Instr.checkBounds 1 0 >>= fun _ => Instr.popUnchecked >>= g).run f).run (evm.handle exec))
      (((Instr.checkBounds 1 0 >>= fun _ => Instr.popUnchecked >>= g).run f).run
        (evm.handleUnskipped exec)) := by
  by_cases hlen : f.stack.length < 1
  · have hrun : (Instr.checkBounds 1 0 >>= fun _ => Instr.popUnchecked >>= g).run f =
        Prog.pure (.error .stackUnderflow, f) := by
      change (((if f.stack.length < 1 then Instr.stop .stackUnderflow else _ :
        SysInstr Unit) >>= fun _ => Instr.popUnchecked >>= g).run f) = _
      rw [if_pos hlen]
      rfl
    rw [hrun]
    rintro s t ⟨rfl, -⟩
    exact .ok (.inl ⟨rfl, rfl, nofun⟩)
  · have hrun : (Instr.checkBounds 1 0 >>= fun _ => Instr.popUnchecked >>= g).run f =
        (g (f.stack.headD 0)).run { f with stack := f.stack.tail } := by
      change (((if f.stack.length < 1 then Instr.stop .stackUnderflow
        else if 1 < 0 ∧ f.stack.length - 1 = STACK_LIMIT then Instr.stop .stackOverflow
        else pure () : SysInstr Unit) >>= fun _ => Instr.popUnchecked >>= g).run f) = _
      rw [if_neg hlen, if_neg (by omega)]
      rfl
    rw [hrun]
    exact hg _

theorem sim_selfdestruct (hdb : evm.db.Answers) (f : Interpreter)
    (hk : k = false → env.message.destination ≠ precompile3 ∧
      (f.stack.headD 0).toAddress ≠ precompile3) :
    Op.Sim (fun s t => s = t ∧ InStep evm w₀ s)
      (Instr.EndAlike (HaltAlike evm w₀ k) fun _ _ => True) Eq
      (((selfdestruct env).run f).run (evm.handle exec))
      (((selfdestruct env).run f).run (evm.handleUnskipped exec)) := by
  refine sim_pop ((alike_gas spec_requireNonStaticcall).bind fun _ => alike_remaining.bind fun n =>
    alike_load (loads_selfdestruct hdb _ _ _ hk)
      (W := fun _ _ => True) (fun _ _ _ => trivial) (fun hskip load hcold => ?_) fun load => ?_)
  · refine (failsToPay_spend ((of_decide_eq_true hskip).trans_le ?_)).bind
    unfold GasParams.selfdestructCost
    simp only [hcold, if_true]
    omega
  · exact alike_rest (.seq (spec_spend (fun _ => rfl) _) fun _ =>
      .seq (.when fun _ => spec_spendState (fun _ => rfl) _) fun _ =>
      .seq (.when fun _ => spec_recordRefund (fun _ => rfl) _) fun _ => .stop _)

/-! ### Calls -/

theorem failsToPay_resolveDelegation {code : Bytecode} {target : Address}
    {x : Nat × Bytecode × Address → SysInstr β} (hn : n < cost)
    (hx : ∀ r, n < r.1 → FailsToPay (evm.handleUnskipped exec) (x r) n) :
    FailsToPay (evm.handleUnskipped exec) (resolveDelegation env n cost code target >>= x) n := by
  unfold resolveDelegation
  cases code.eip7702Address with
  | none => exact hx _ hn
  | some delegated =>
    dsimp only
    by_cases h7702 : env.feature .eip7702 = true
    · rw [if_pos h7702, if_pos (by omega)]
      exact fun f g w _ => ⟨g, rfl, rfl⟩
    · rw [if_neg h7702]
      exact hx _ hn

theorem alike_resolveDelegation (hdb : evm.db.Answers) {code : Bytecode} {target : Address}
    {x : Nat × Bytecode × Address → SysInstr β} {U : β → GasTracker × World → Prop}
    (hpay : ∀ r, n < r.1 → FailsToPay (evm.handleUnskipped exec) (x r) n)
    (hx : ∀ r, Alike (evm.handle exec) (evm.handleUnskipped exec) (HaltAlike evm w₀ false)
      (fun _ => True) U (x r)) :
    Alike (evm.handle exec) (evm.handleUnskipped exec) (HaltAlike evm w₀ false)
      (fun s => InStep evm w₀ s ∧ s.1.remaining = n) U
      (resolveDelegation env n cost code target >>= x) := by
  have hrest : ∀ r, Alike (evm.handle exec) (evm.handleUnskipped exec) (HaltAlike evm w₀ false)
      (fun s => InStep evm w₀ s ∧ s.1.remaining = n) U (x r) :=
    fun r => (hx r).mono (fun _ _ => trivial) fun _ _ => id
  unfold resolveDelegation
  cases code.eip7702Address with
  | none => exact hrest _
  | some delegated =>
    dsimp only
    by_cases h7702 : env.feature .eip7702 = true
    · rw [if_pos h7702]
      by_cases hn : n < cost + env.gasParams.get .warmStorageReadCost
      · rw [if_pos hn]
        exact Alike.stop .outOfGas
      · rw [if_neg hn]
        rw [loadAccount, Instr.bind_bind, Instr.bind_bind]
        refine alike_load (loads_account hdb _ _ _) (W := fun _ _ => True)
          (fun _ _ _ => trivial) (fun hskip load hcold => ?_) fun load => hx _
        refine hpay _ ?_
        have hlt := of_decide_eq_true hskip
        simp only [hcold, if_true]
        exact hlt.trans_le (satAdd64_le _ _)
    · rw [if_neg h7702]
      exact hrest _

theorem alike_loadAccAndCalcGas (hdb : evm.db.Answers) (target : Address)
    (transfersValue createEmptyAccount : Bool) (stackGasLimit : Nat) :
    Alike (evm.handle exec) (evm.handleUnskipped exec) (HaltAlike evm w₀ false) (InStep evm w₀)
      (fun _ _ => True)
      (loadAccAndCalcGas env target transfersValue createEmptyAccount stackGasLimit) := by
  refine (alike_gas (.when fun _ => spec_spend (fun _ => rfl) _)).bind fun _ =>
    alike_remaining.bind fun n => ?_
  dsimp only
  rw [loadAccount, Instr.bind_bind]
  have hpay : ∀ {β : Type} (created : Bool) (r : Nat × Bytecode × Address) (x : Unit → SysInstr β),
      n < r.1 → FailsToPay (evm.handleUnskipped exec)
        (spend (if created then r.1 + env.gasParams.get .newAccountCost else r.1) >>= x) n := by
    intro β created r x hn
    refine (failsToPay_spend (hn.trans_le ?_)).bind
    split_ifs <;> omega
  refine alike_load (loads_account hdb _ _ _)
    (W := fun _ s => InStep evm w₀ s ∧ s.1.remaining = n) (fun _ _ hs => hs rfl)
    (fun hskip load hcold => ?_) fun load => ?_
  · refine failsToPay_resolveDelegation ?_ fun r hr => hpay _ r _ hr
    simp only [hcold, if_true]
    exact of_decide_eq_true hskip
  · refine alike_resolveDelegation hdb (fun r hr => hpay _ r _ hr) fun r => alike_rest ?_
    exact .seq (spec_spend (fun _ => rfl) _) fun _ =>
      .seq (spec_spendState (fun _ => rfl) _) fun _ => .seq (spec_remaining rfl) fun _ =>
      .seq (spec_spend (fun _ => rfl) _) fun _ => .ret trivial

theorem alike_prepareCall (hdb : evm.db.Answers) (kind : MessageKind) :
    Alike (evm.handle exec) (evm.handleUnskipped exec) (HaltAlike evm w₀ false) (InStep evm w₀)
      (fun _ _ => True) (prepareCall env kind) := by
  refine (alike_gas (Instr.spec_popn 2)).bind fun args =>
    (alike_gas (.ite (fun _ => Instr.spec_pop) fun _ => .ret trivial)).bind fun value =>
    (alike_gas (Instr.spec_popn 4)).bind fun ranges =>
    (alike_gas (.when fun _ => .stop _)).bind fun _ =>
    (alike_gas (spec_resizeMemoryRange (fun _ => rfl) _ _)).bind fun _ =>
    (alike_gas (spec_resizeMemoryRange (fun _ => rfl) _ _)).bind fun _ =>
    (alike_loadAccAndCalcGas hdb _ _ _ _).bind fun _ => alike_rest ?_
  exact .seq .get fun _ => .seq (.ask rfl) fun _ => .ret trivial

theorem alike_call (hdb : evm.db.Answers) (kind : MessageKind) :
    Alike (evm.handle exec) (evm.handleUnskipped exec) (HaltAlike evm w₀ false) (InStep evm w₀)
      (fun _ _ => True) (call env kind) := by
  refine (alike_prepareCall hdb kind).bind fun r => alike_rest ?_
  refine .seq (.seq (.ask rfl) fun _ => .ite (fun _ => .stop _) fun _ => ?_) fun _ =>
    .seq (.when fun _ => spec_refillReservoir (fun _ => rfl) _) fun _ => .seq (.modify _) fun _ =>
    Instr.spec_push _
  exact .seq (spec_mergeChildGas (fun _ _ => rfl) _ _) fun _ => .ret trivial

def skipping : List OpCode :=
  [.sload, .sstore, .balance, .extcodesize, .extcodecopy, .extcodehash, .call, .callcode,
    .delegatecall, .staticcall, .selfdestruct]

def touchesPrecompile3 (env : FrameEnv) (op : OpCode) (f : Interpreter) : Bool :=
  op == .selfdestruct && (env.message.destination == precompile3 ||
    (f.stack.headD 0).toAddress == precompile3)

theorem sim_execute (hdb : evm.db.Answers) (henv : env.version = evm.version)
    (h2200 : evm.feature .eip2929 = true → evm.feature .eip2200 = true)
    (hcost : evm.version.gasParams.get .coldStorageAdditionalCost ≤
      evm.version.gasParams.get .coldStorageCost) {op : OpCode} (hop : op ∈ skipping)
    (f : Interpreter) :
    Op.Sim (fun s t => s = t ∧ InStep evm w₀ s)
      (Instr.EndAlike (HaltAlike evm w₀ (touchesPrecompile3 env op f)) fun _ _ => True) Eq
      (((execute env op).run f).run (evm.handle exec))
      (((execute env op).run f).run (evm.handleUnskipped exec)) := by
  have hunary : ∀ {k : Bool} {g : AccountLoad → Word} (loadCode : Bool),
      Alike (evm.handle exec) (evm.handleUnskipped exec) (HaltAlike evm w₀ k) (InStep evm w₀)
        (fun _ _ => True) (SimpleInstr.lift (Instr.unary fun addr =>
          return g (← SimpleInstr.loadAccount env addr loadCode))) := fun loadCode =>
    SimpleInstr.alike_lift (SimpleInstr.alike_unary fun addr =>
      (SimpleInstr.alike_loadAccount hdb addr loadCode).bind fun _ =>
        alike_queryRest (.ret trivial))
  simp only [skipping, List.mem_cons, List.not_mem_nil, or_false] at hop
  rcases hop with rfl | rfl | rfl | rfl | rfl | rfl | rfl | rfl | rfl | rfl | rfl
  · exact SimpleInstr.alike_lift (SimpleInstr.alike_unary (SimpleInstr.alike_sload hdb henv)) f
  · exact alike_sstore hdb henv h2200 hcost f
  · exact hunary (g := AccountLoad.balance) false f
  · exact hunary (g := fun account => BitVec.ofNat 256 account.code.len) true f
  · exact SimpleInstr.alike_lift (SimpleInstr.alike_extcodecopy hdb) f
  · exact hunary (g := fun account => if account.isEmpty then 0 else account.codeHash) false f
  · exact alike_call hdb .call f
  · exact alike_call hdb .callCode f
  · exact alike_call hdb .delegateCall f
  · exact alike_call hdb .staticCall f
  · refine sim_selfdestruct hdb f fun hk => ?_
    simpa [touchesPrecompile3] using hk

end SysInstr

end Instructions

/-! ## After the frame -/

theorem World.RunsTouching.loadsMore {k : Bool} {w₀ w u : World}
    (hnz : w₀.state.TransientNonzero) (h₀ : World.Runs evm .any w₀ w)
    (h : World.RunsTouching evm k w u) :
    State.LoadsMore (evm.feature .eip161 && k) (w.rollback evm w₀.checkpoint).state
      (u.rollback evm w₀.checkpoint).state := by
  have hjournals := (h₀ hnz).journals hnz
  have hjournals' := (h.runs hjournals.nonzero).journals hjournals.nonzero
  have hmore : State.LoadsMore (evm.feature .eip161) (w.rollback evm w₀.checkpoint).state
      (u.rollback evm w₀.checkpoint).state := hjournals.loadsMore hjournals' id
  cases k with
  | true =>
    rw [Bool.and_true]
    exact hmore
  | false =>
    rw [Bool.and_false]
    cases h161 : evm.feature .eip161 with
    | false =>
      rw [h161] at hmore
      exact hmore
    | true =>
      refine hmore.exact ?_
      have hkept : ∀ t : World, (t.rollback evm w₀.checkpoint).state.isTouched precompile3 =
          t.state.isTouched precompile3 := fun t => State.isTouched_rollback h161 t.state _
      exact (hkept u).trans ((h.touched rfl).trans (hkept w).symm)

theorem World.Runs.rollback_info {w₀ u : World} (hnz : w₀.state.TransientNonzero)
    (hs : w₀.state.Sound evm.db) (h : World.Runs evm .any w₀ u) (a : Address) :
    (u.rollback evm w₀.checkpoint).state.info evm.db a = w₀.state.info evm.db a :=
  State.Runs.rollback_info (h hnz) hs hnz id a

section Base

omit [Keccak]

theorem base_eip2200 (spec : SpecId) (h : (Version.base spec).feature .eip2929 = true) :
    (Version.base spec).feature .eip2200 = true := by
  cases spec <;> first | rfl | exact absurd h (by decide)

theorem base_coldStorageCost (spec : SpecId) :
    (Version.base spec).gasParams.get .coldStorageAdditionalCost ≤
      (Version.base spec).gasParams.get .coldStorageCost := by
  cases spec <;> decide

end Base

/-- **Skipping unaffordable cold loads is unobservable**, but for the touch of precompile 3: an
instruction runs the same with and without skipping, or the frame halts out of gas both times, with
the same settled gas and, up to what has been loaded, the same state after the rollback. -/
theorem skipped_loads_unobservable {evm : Evm} {spec : SpecId} (hbase : evm.version = .base spec)
    (hdb : evm.db.Answers) (exec : Message → Op World ExecutionError MessageResult) (m : Message)
    {op : OpCode} (hop : op ∈ SysInstr.skipping) {w₀ w : World}
    (hnz : w₀.state.TransientNonzero) (hsound : w₀.state.Sound evm.db)
    (hrun : World.Runs evm .any w₀ w) (f : Interpreter) (gas : GasTracker) :
    let instr := (SysInstr.execute (evm.frameEnv m) op).run f
    let skipping := (instr.run (evm.handle exec)).run (gas, w)
    let unskipped := (instr.run (evm.handleUnskipped exec)).run (gas, w)
    let back := fun u : World => (u.rollback evm w₀.checkpoint).state
    skipping = unskipped ∨
      ∃ f' g u g' u', skipping = (.ok (.error .outOfGas, f'), (g, u)) ∧
        unskipped = (.ok (.error .outOfGas, f'), (g', u')) ∧
        g'.settleGas .outOfGas = g.settleGas .outOfGas ∧
        (∀ a, (back u').info evm.db a = (back u).info evm.db a) ∧
        State.LoadsMore false (back w) (back u) ∧
        State.LoadsMore (evm.feature .eip161 &&
          SysInstr.touchesPrecompile3 (evm.frameEnv m) op f) (back w) (back u') := by
  intro instr skipping unskipped back
  have h2200 : evm.feature .eip2929 = true → evm.feature .eip2200 = true := by
    unfold Evm.feature
    rw [hbase]
    exact base_eip2200 spec
  have hcost : evm.version.gasParams.get .coldStorageAdditionalCost ≤
      evm.version.gasParams.get .coldStorageCost := by
    rw [hbase]
    exact base_coldStorageCost spec
  have hsim : Op.Sim (fun s t => s = t ∧ InStep evm w s)
      (Instr.EndAlike (HaltAlike evm w (SysInstr.touchesPrecompile3 (evm.frameEnv m) op f))
        fun _ _ => True) Eq (instr.run (evm.handle exec)) (instr.run (evm.handleUnskipped exec)) :=
    SysInstr.sim_execute hdb rfl h2200 hcost hop f
  have hends := hsim (gas, w) (gas, w) ⟨rfl, .refl w⟩
  change Op.Ends _ _ skipping unskipped at hends
  generalize skipping = r at hends ⊢
  generalize unskipped = r' at hends ⊢
  cases hends with
  | error h => exact .inl (by rw [h])
  | ok h =>
    rcases h with ⟨rfl, rfl, -⟩ | ⟨f', rfl, rfl, hgas, hleft, hright⟩
    · exact .inl rfl
    · refine .inr ⟨f', _, _, _, _, rfl, rfl, hgas, fun a => ?_, ?_, hright.loadsMore hnz hrun⟩
      · have hu := IsTrans.trans _ _ _ hrun hleft.runs
        have hu' := IsTrans.trans _ _ _ hrun hright.runs
        exact (hu'.rollback_info hnz hsound a).trans (hu.rollback_info hnz hsound a).symm
      · have hmore := hleft.loadsMore hnz hrun
        rw [Bool.and_false] at hmore
        exact hmore

end Skips

def Evm.berlin : Evm := { @Evm.bare Keccak.const with version := .base .berlin }

def coldRuns (op : OpCode) (operand : Word) :
    (Except ExecutionError (Except InstrStop Unit × Interpreter) × (GasTracker × World)) ×
      (Except ExecutionError (Except InstrStop Unit × Interpreter) × (GasTracker × World)) :=
  letI := Keccak.const
  let instr := (SysInstr.execute (Evm.berlin.frameEnv .default) op).run
    { Interpreter.init with stack := [operand] }
  let start := (GasTracker.newWithExecutionGasAndReservoir 100 0, World.ofState .new)
  ((instr.run (Evm.berlin.handle (Evm.berlin.executeMessage 0))).run start,
    (instr.run (Evm.berlin.handleUnskipped (Evm.berlin.executeMessage 0))).run start)

/-- `BALANCE` of a cold account: the load is skipped, and without skipping it is undone. -/
theorem skipped_loads_unobservable_balance :
    let back := fun u : World => (u.rollback Evm.berlin (World.ofState .new).checkpoint).state
    (coldRuns .balance 1000).1.2.2.state.accounts.lookup 1000 = none ∧
      (coldRuns .balance 1000).2.2.2.state.accounts.lookup 1000 ≠ none ∧
      ∃ f' g u g' u', (coldRuns .balance 1000).1 = (.ok (.error .outOfGas, f'), (g, u)) ∧
        (coldRuns .balance 1000).2 = (.ok (.error .outOfGas, f'), (g', u')) ∧
        g'.settleGas .outOfGas = g.settleGas .outOfGas ∧
        State.LoadsMore false (back (World.ofState .new)) (back u) ∧
        State.LoadsMore false (back (World.ofState .new)) (back u') := by
  have hskipped : (coldRuns .balance 1000).1.2.2.state.accounts.lookup 1000 = none := by
    decide +kernel
  have hloaded : (coldRuns .balance 1000).2.2.2.state.accounts.lookup 1000 ≠ none := by
    decide +kernel
  refine ⟨hskipped, hloaded, ?_⟩
  let _ := Keccak.const
  have hends := @skipped_loads_unobservable Keccak.const Evm.berlin .berlin rfl
    Database.answers_empty (Evm.berlin.executeMessage 0) .default .balance (by decide)
    (.ofState .new) (.ofState .new) (State.nonzero_of_empty rfl) (State.sound_of_empty rfl)
    (fun _ => .refl _) { Interpreter.init with stack := [1000] }
    (GasTracker.newWithExecutionGasAndReservoir 100 0)
  rcases hends with hsame | ⟨f', g, u, g', u', hs, hu, hgas, -, hleft, hright⟩
  · exfalso
    have heq : (coldRuns .balance 1000).1 = (coldRuns .balance 1000).2 := by
      unfold coldRuns
      exact hsame
    rw [← heq] at hloaded
    exact hloaded hskipped
  · exact ⟨f', g, u, g', u', hs, hu, hgas, hleft, hright⟩

/-- `SELFDESTRUCT` with precompile 3 as a cold beneficiary halts the frame out of gas with and
without skipping. Without skipping the rollback leaves precompile 3 touched. -/
theorem skipped_selfdestruct_observable :
    let back := fun u : World => (u.rollback Evm.berlin (World.ofState .new).checkpoint).state
    let stops := fun r : Except ExecutionError (Except InstrStop Unit × Interpreter) =>
      match r with
      | .ok (.error reason, _) => some reason
      | _ => none
    stops (coldRuns .selfdestruct 3).1.1 = some .outOfGas ∧
      stops (coldRuns .selfdestruct 3).2.1 = some .outOfGas ∧
      (back (coldRuns .selfdestruct 3).1.2.2).isTouched precompile3 = false ∧
      (back (coldRuns .selfdestruct 3).2.2.2).isTouched precompile3 = true := by
  decide +kernel

end Evm2
