import Evm2.Interpreter.System

/-!
# Instructions and the program counter

Only the jumps set the program counter; every other instruction leaves it to the dispatch loop.

* **`SysInstr.keepsPc_execute`**: every instruction but `JUMP` and `JUMPI` keeps it.
-/

namespace Evm2

namespace Instr

variable {Req : Type} {Resp : Req → Type} {α β : Type} {x y : Instr Req Resp α}

/-- The counter is the same when the instruction ends, also when it stops the frame. -/
def KeepsPc (x : Instr Req Resp α) : Prop :=
  ∀ f, (x.run f).Spec (fun _ => True) (fun _ _ => True) fun r => r.2.pc = f.pc

theorem KeepsPc.ret (a : α) : KeepsPc (pure a : Instr Req Resp α) := fun _ => rfl

theorem KeepsPc.stop (reason : InstrStop) : KeepsPc (Instr.stop reason : Instr Req Resp α) :=
  fun _ => rfl

theorem KeepsPc.get : KeepsPc (Instr.get : Instr Req Resp Interpreter) := fun _ => rfl

theorem KeepsPc.ofExcept (r : Except InstrStop α) :
    KeepsPc (Instr.ofExcept r : Instr Req Resp α) := fun _ => rfl

theorem KeepsPc.ask (r : Req) : KeepsPc (Instr.ask r : Instr Req Resp _) :=
  fun _ => ⟨trivial, fun _ _ => rfl⟩

theorem KeepsPc.modify {g : Interpreter → Interpreter} (h : ∀ f, (g f).pc = f.pc) :
    KeepsPc (Instr.modify g : Instr Req Resp Unit) := h

theorem KeepsPc.bind {g : α → Instr Req Resp β} (hx : KeepsPc x) (hg : ∀ a, KeepsPc (g a)) :
    KeepsPc (x >>= g) := by
  intro f
  refine Prog.Spec.bind (hx f) fun r hr => ?_
  match r, hr with
  | (.ok a, f'), hr => exact (hg a f').mono fun _ h => h.trans hr
  | (.error reason, f'), hr => exact hr

theorem KeepsPc.ite {c : Prop} [Decidable c] (hx : KeepsPc x) (hy : KeepsPc y) :
    KeepsPc (if c then x else y) := by
  by_cases hc : c
  · rw [if_pos hc]
    exact hx
  · rw [if_neg hc]
    exact hy

theorem KeepsPc.when {c : Prop} [Decidable c] {x : Instr Req Resp Unit} (hx : KeepsPc x) :
    KeepsPc (Instr.when c x) := .ite hx (.ret ())

/-! ## The stack -/

theorem keepsPc_checkBounds (input output : ℕ) :
    KeepsPc (checkBounds input output : Instr Req Resp Unit) :=
  .bind .get fun _ => .ite (.stop _) (.ite (.stop _) (.ret ()))

theorem keepsPc_popUnchecked : KeepsPc (popUnchecked : Instr Req Resp Word) :=
  .bind .get fun _ => .bind (.modify fun _ => rfl) fun _ => .ret _

theorem keepsPc_write (w : Word) : KeepsPc (write w : Instr Req Resp Unit) :=
  .modify fun _ => rfl

theorem keepsPc_popn (n : ℕ) : KeepsPc (popn n : Instr Req Resp (List Word)) :=
  .bind .get fun _ => .ite (.stop _) (.bind (.modify fun _ => rfl) fun _ => .ret _)

theorem keepsPc_pop : KeepsPc (pop : Instr Req Resp Word) :=
  .bind (keepsPc_popn 1) fun _ => .ret _

theorem keepsPc_push (w : Word) : KeepsPc (push w : Instr Req Resp Unit) :=
  .bind .get fun _ => .ite (.stop _) (keepsPc_write w)

theorem keepsPc_dup (n : ℕ) : KeepsPc (dup n : Instr Req Resp Unit) :=
  .bind .get fun _ => .ite (.stop _) (.ite (.stop _) (keepsPc_write _))

theorem keepsPc_exchange (n m : ℕ) : KeepsPc (exchange n m : Instr Req Resp Unit) :=
  .bind .get fun _ => .ite (.stop _) (.modify fun _ => rfl)

theorem keepsPc_nullary {w : Instr Req Resp Word} (hw : KeepsPc w) : KeepsPc (nullary w) :=
  .bind (keepsPc_checkBounds 0 1) fun _ => .bind hw fun _ => keepsPc_write _

theorem keepsPc_unary {g : Word → Instr Req Resp Word} (hg : ∀ a, KeepsPc (g a)) :
    KeepsPc (unary g) :=
  .bind (keepsPc_checkBounds 1 1) fun _ => .bind keepsPc_popUnchecked fun a =>
    .bind (hg a) fun _ => keepsPc_write _

theorem keepsPc_binary {g : Word → Word → Instr Req Resp Word} (hg : ∀ a b, KeepsPc (g a b)) :
    KeepsPc (binary g) :=
  .bind (keepsPc_checkBounds 2 1) fun _ => .bind keepsPc_popUnchecked fun a =>
    .bind keepsPc_popUnchecked fun b => .bind (hg a b) fun _ => keepsPc_write _

theorem keepsPc_ternary {g : Word → Word → Word → Instr Req Resp Word}
    (hg : ∀ a b c, KeepsPc (g a b c)) : KeepsPc (ternary g) :=
  .bind (keepsPc_checkBounds 3 1) fun _ => .bind keepsPc_popUnchecked fun a =>
    .bind keepsPc_popUnchecked fun b => .bind keepsPc_popUnchecked fun c =>
    .bind (hg a b c) fun _ => keepsPc_write _

end Instr

open Instr (KeepsPc)

/-! ## Instructions that only make queries -/

namespace SimpleInstr

open Instr

variable {env : FrameEnv}

theorem keepsPc_spend (cost : ℕ) : KeepsPc (spend cost) :=
  .bind (.ask _) fun _ => .ite (.ret ()) (.stop _)

theorem keepsPc_resizeMemory (offset len : ℕ) : KeepsPc (resizeMemory env offset len) :=
  .bind .get fun _ => .ite (.ret ()) (.ite (.stop _) (.ite (.stop _)
    (.bind (.modify fun _ => rfl) fun _ => .bind (.ask _) fun _ =>
      .ite (.modify fun _ => rfl) (.stop _))))

theorem keepsPc_loadAccount (addr : Word) (loadCode : Bool) :
    KeepsPc (loadAccount env addr loadCode) :=
  .bind (.ask _) fun _ => .bind (.ask _) fun _ => .bind (.ofExcept _) fun _ =>
    .ite (.bind (keepsPc_spend _) fun _ => .ret _) (.ret _)

theorem keepsPc_copyData (memoryOffset dataOffset : Word) (len : ℕ) (data : Bytes) :
    KeepsPc (copyData env memoryOffset dataOffset len data) :=
  .ite (.bind (.ofExcept _) fun _ => .bind (keepsPc_resizeMemory _ _) fun _ =>
    .modify fun _ => rfl) (.ret ())

theorem keepsPc_decodeImmediate {α : Type} (decode : ℕ → Option α) :
    KeepsPc (decodeImmediate env decode) := by
  refine .bind .get fun f => ?_
  cases decode ((env.message.code.immediate f.pc 1).headD 0).toNat with
  | none => exact .stop _
  | some a => exact .ret a

theorem keepsPc_blockhash (number : Word) : KeepsPc (blockhash env number) :=
  .ite (.ret _) (KeepsPc.ask (Query.blockHash number))

theorem keepsPc_selfbalance : KeepsPc (selfbalance env) :=
  .bind (.ask _) fun _ => .bind (.ofExcept _) fun _ => .ret _

theorem keepsPc_returnInner (result : InstrStop) : KeepsPc (returnInner env result) :=
  .bind (keepsPc_checkBounds 2 0) fun _ => .bind keepsPc_popUnchecked fun _ =>
    .bind keepsPc_popUnchecked fun _ => .bind (.ofExcept _) fun _ =>
    .ite
      (.bind (.ofExcept _) fun _ => .ite
        (.bind (.stop _) fun _ => .bind (keepsPc_resizeMemory _ _) fun _ =>
          .bind (.modify fun _ => rfl) fun _ => .stop _)
        (.bind (keepsPc_resizeMemory _ _) fun _ => .bind (.modify fun _ => rfl) fun _ => .stop _))
      (.bind (.modify fun _ => rfl) fun _ => .stop _)

theorem keepsPc_keccak256Instr [Keccak] (offset len : Word) :
    KeepsPc (keccak256Instr env offset len) :=
  .bind (.ofExcept _) fun _ => .bind (keepsPc_spend _) fun _ => .ite (.ret _)
    (.bind (.ofExcept _) fun _ => .bind (keepsPc_resizeMemory _ _) fun _ =>
      .bind .get fun _ => .ret _)

theorem keepsPc_copyInstr (data : Bytes) : KeepsPc (copyInstr env data) :=
  .bind (keepsPc_checkBounds 3 0) fun _ => .bind keepsPc_popUnchecked fun _ =>
    .bind keepsPc_popUnchecked fun _ => .bind keepsPc_popUnchecked fun _ =>
    .bind (.ofExcept _) fun _ => .bind (keepsPc_spend _) fun _ => keepsPc_copyData _ _ _ _

theorem keepsPc_extcodecopy : KeepsPc (extcodecopy env) :=
  .bind (keepsPc_checkBounds 4 0) fun _ => .bind keepsPc_popUnchecked fun _ =>
    .bind keepsPc_popUnchecked fun _ => .bind keepsPc_popUnchecked fun _ =>
    .bind keepsPc_popUnchecked fun _ => .bind (.ofExcept _) fun _ =>
    .bind (keepsPc_spend _) fun _ =>
    .bind (.ite (.bind (.ofExcept _) fun _ => .bind (keepsPc_resizeMemory _ _) fun _ => .ret _)
      (.ret _)) fun _ =>
    .bind (keepsPc_loadAccount _ _) fun _ => .modify fun _ => rfl

theorem keepsPc_returndatacopy : KeepsPc (returndatacopy env) :=
  .bind (keepsPc_checkBounds 3 0) fun _ => .bind keepsPc_popUnchecked fun _ =>
    .bind keepsPc_popUnchecked fun _ => .bind keepsPc_popUnchecked fun _ =>
    .bind (.ofExcept _) fun _ => .bind .get fun _ =>
    .ite (.stop _) (.bind (keepsPc_spend _) fun _ => keepsPc_copyData _ _ _ _)

theorem keepsPc_sload (key : Word) : KeepsPc (sload env key) :=
  .bind (.ask _) fun _ => .bind (.ask _) fun _ => .bind (.ofExcept _) fun _ =>
    .ite (.bind (keepsPc_spend _) fun _ => .ret _) (.ret _)

theorem keepsPc_mstoreBytes (offset : Word) (value : Bytes) :
    KeepsPc (mstoreBytes env offset value) :=
  .bind (.ofExcept _) fun _ => .bind (keepsPc_resizeMemory _ _) fun _ => .modify fun _ => rfl

theorem keepsPc_mcopy : KeepsPc (mcopy env) :=
  .bind (keepsPc_checkBounds 3 0) fun _ => .bind keepsPc_popUnchecked fun _ =>
    .bind keepsPc_popUnchecked fun _ => .bind keepsPc_popUnchecked fun _ =>
    .bind (.ofExcept _) fun _ => .bind (keepsPc_spend _) fun _ =>
    .ite (.bind (.ofExcept _) fun _ => .bind (.ofExcept _) fun _ =>
      .bind (keepsPc_resizeMemory _ _) fun _ => .modify fun _ => rfl) (.ret ())

theorem keepsPc_execute [Keccak] (op : OpCode) (h : op ≠ .jump) (h' : op ≠ .jumpi) :
    KeepsPc (execute env op) := by
  cases op with
  | jump => exact absurd rfl h
  | jumpi => exact absurd rfl h'
  | stop | invalid => exact .stop _
  | sstore | tstore | log | create | call | callcode | delegatecall | create2 | staticcall
  | selfdestruct => exact .stop _
  | add | mul | sub | div | sdiv | mod | smod | signextend | lt | gt | slt | sgt | eq | and | or
  | xor | byte | shl | shr | sar => exact keepsPc_binary fun _ _ => .ret _
  | iszero | not | clz | calldataload | blobhash => exact keepsPc_unary fun _ => .ret _
  | addmod | mulmod => exact keepsPc_ternary fun _ _ _ => .ret _
  | address | origin | caller | callvalue | calldatasize | codesize | gasprice | coinbase
  | timestamp | number | difficulty | gaslimit | chainid | basefee | blobbasefee | slotnum =>
    exact keepsPc_nullary (.ret _)
  | exp => exact keepsPc_binary fun _ _ => .bind (keepsPc_spend _) fun _ => .ret _
  | keccak256 => exact keepsPc_binary keepsPc_keccak256Instr
  | balance | extcodesize | extcodehash =>
    exact keepsPc_unary fun _ => .bind (keepsPc_loadAccount _ _) fun _ => .ret _
  | calldatacopy | codecopy => exact keepsPc_copyInstr _
  | extcodecopy => exact keepsPc_extcodecopy
  | returndatasize | pc | msize => exact keepsPc_nullary (.bind .get fun _ => .ret _)
  | gas => exact keepsPc_nullary (.bind (.ask _) fun _ => .ret _)
  | returndatacopy => exact keepsPc_returndatacopy
  | blockhash => exact keepsPc_unary keepsPc_blockhash
  | selfbalance => exact keepsPc_nullary keepsPc_selfbalance
  | pop =>
    exact .bind (keepsPc_checkBounds 1 0) fun _ => .bind keepsPc_popUnchecked fun _ => .ret ()
  | mload =>
    exact keepsPc_unary fun _ => .bind (.ofExcept _) fun _ =>
      .bind (keepsPc_resizeMemory _ _) fun _ => .bind .get fun _ => .ret _
  | mstore | mstore8 =>
    exact .bind (keepsPc_checkBounds 2 0) fun _ => .bind keepsPc_popUnchecked fun _ =>
      .bind keepsPc_popUnchecked fun _ => keepsPc_mstoreBytes _ _
  | sload => exact keepsPc_unary keepsPc_sload
  | jumpdest => exact .ret ()
  | tload => exact keepsPc_unary fun key => KeepsPc.ask (Query.tload env.message.destination key)
  | mcopy => exact keepsPc_mcopy
  | push n => exact .bind .get fun _ => keepsPc_push _
  | dup n => exact keepsPc_dup _
  | swap n => exact keepsPc_exchange _ _
  | dupn => exact .bind (keepsPc_decodeImmediate _) fun _ => keepsPc_dup _
  | swapn | exchange => exact .bind (keepsPc_decodeImmediate _) fun _ => keepsPc_exchange _ _
  | «return» | revert => exact keepsPc_returnInner _

end SimpleInstr

/-! ## System instructions -/

namespace SysInstr

open Instr

variable {env : FrameEnv} {α : Type}

theorem keepsPc_lift {x : SimpleInstr α} (hx : KeepsPc x) : KeepsPc (SimpleInstr.lift x) :=
  fun f => (hx f).interp fun _ => ⟨trivial, fun _ _ => trivial⟩

theorem keepsPc_spend (cost : ℕ) : KeepsPc (spend cost) :=
  keepsPc_lift (SimpleInstr.keepsPc_spend _)

theorem keepsPc_spendState (cost : ℕ) : KeepsPc (spendState cost) :=
  .bind (.ask _) fun _ => .ite (.ret ()) (.stop _)

theorem keepsPc_loadAccount (address : Address) (loadCode skipColdLoad : Bool) :
    KeepsPc (loadAccount address loadCode skipColdLoad) :=
  .bind (.ask _) fun _ => .ofExcept _

theorem keepsPc_requireNonStaticcall : KeepsPc (requireNonStaticcall env) :=
  .ite (.stop _) (.ret ())

theorem keepsPc_resizeMemory (offset len : ℕ) :
    KeepsPc (SimpleInstr.lift (SimpleInstr.resizeMemory env offset len)) :=
  keepsPc_lift (SimpleInstr.keepsPc_resizeMemory _ _)

theorem keepsPc_sstore : KeepsPc (sstore env) :=
  .bind (keepsPc_checkBounds 2 0) fun _ => .bind keepsPc_popUnchecked fun _ =>
    .bind keepsPc_popUnchecked fun _ => .bind keepsPc_requireNonStaticcall fun _ =>
    .bind (.ask _) fun _ => .bind (.when (.stop _)) fun _ => .bind (keepsPc_spend _) fun _ =>
    .bind (.ask _) fun _ => .bind (.ask _) fun _ => .bind (.ofExcept _) fun _ =>
    .bind (keepsPc_spend _) fun _ =>
    .bind (.when (.bind (keepsPc_spendState _) fun _ => .ask _)) fun _ => .ask _

theorem keepsPc_tstore : KeepsPc (tstore env) :=
  .bind (keepsPc_checkBounds 2 0) fun _ => .bind keepsPc_popUnchecked fun _ =>
    .bind keepsPc_popUnchecked fun _ => .bind keepsPc_requireNonStaticcall fun _ => .ask _

theorem keepsPc_log (n : ℕ) : KeepsPc (log env n) :=
  .bind keepsPc_requireNonStaticcall fun _ => .bind (keepsPc_popn 2) fun _ =>
    .bind (.ofExcept _) fun _ => .bind (keepsPc_spend _) fun _ =>
    .bind (.ite (.ret _) (.bind (.ofExcept _) fun _ => .bind (keepsPc_resizeMemory _ _) fun _ =>
      .ret _)) fun _ =>
    .bind (keepsPc_popn n) fun _ => .bind .get fun _ => .ask _

theorem keepsPc_resizeMemoryRange (offset len : Word) :
    KeepsPc (resizeMemoryRange env offset len) :=
  .bind (.ofExcept _) fun _ => .ite (.bind (.ofExcept _) fun _ =>
    .bind (keepsPc_resizeMemory _ _) fun _ => .ret _) (.ret _)

theorem keepsPc_resolveDelegation (remainingGas cost : ℕ) (code : Bytecode) (target : Address) :
    KeepsPc (resolveDelegation env remainingGas cost code target) := by
  unfold resolveDelegation
  cases code.eip7702Address with
  | none => exact .ret _
  | some delegatedAddress =>
    exact .ite (.ite (.stop _) (.bind (keepsPc_loadAccount _ _ _) fun _ => .ret _)) (.ret _)

theorem keepsPc_loadAccAndCalcGas (target : Address) (transfersValue createEmptyAccount : Bool)
    (stackGasLimit : ℕ) :
    KeepsPc (loadAccAndCalcGas env target transfersValue createEmptyAccount stackGasLimit) :=
  .bind (.when (keepsPc_spend _)) fun _ => .bind (.ask _) fun _ =>
    .bind (keepsPc_loadAccount _ _ _) fun _ => .bind (keepsPc_resolveDelegation _ _ _ _) fun _ =>
    .bind (keepsPc_spend _) fun _ => .bind (keepsPc_spendState _) fun _ => .bind (.ask _) fun _ =>
    .bind (keepsPc_spend _) fun _ => .ret _

theorem keepsPc_prepareCall (kind : MessageKind) : KeepsPc (prepareCall env kind) :=
  .bind (keepsPc_popn 2) fun _ => .bind (.ite keepsPc_pop (.ret _)) fun _ =>
    .bind (keepsPc_popn 4) fun _ => .bind (.when (.stop _)) fun _ =>
    .bind (keepsPc_resizeMemoryRange _ _) fun _ => .bind (keepsPc_resizeMemoryRange _ _) fun _ =>
    .bind (keepsPc_loadAccAndCalcGas _ _ _ _) fun _ => .bind .get fun _ => .bind (.ask _) fun _ =>
    .ret _

theorem keepsPc_executeChild (message : Message) : KeepsPc (executeChild message) :=
  .bind (.ask _) fun _ => .ite (.stop _) (.bind (.ask _) fun _ => .ret _)

theorem keepsPc_call (kind : MessageKind) : KeepsPc (call env kind) :=
  .bind (keepsPc_prepareCall kind) fun _ => .bind (keepsPc_executeChild _) fun _ =>
    .bind (.when (.ask _)) fun _ => .bind (.modify fun _ => rfl) fun _ => keepsPc_push _

theorem keepsPc_chargeCreateStateGas (balance : Word) (nonce : U64) (value : Word)
    (destination : Address) :
    KeepsPc (chargeCreateStateGas env balance nonce value destination) :=
  .ite (.ite (.ret _) (.bind (keepsPc_loadAccount _ _ _) fun _ =>
    .ite (.bind (keepsPc_spendState _) fun _ => .ret _) (.ret _))) (.ret _)

theorem keepsPc_initcode (isCreate2 : Bool) (offset len : Word) :
    KeepsPc (initcode env isCreate2 offset len) :=
  .bind (.ofExcept _) fun _ =>
    .bind (.when (.bind (.when (.stop _)) fun _ => keepsPc_spend _)) fun _ =>
    .bind (keepsPc_resizeMemoryRange _ _) fun _ => .bind .get fun _ =>
    .bind (keepsPc_spend _) fun _ => .ret _

theorem keepsPc_finishCreate (charged : Bool) (message : Message) :
    KeepsPc (finishCreate env charged message) :=
  .bind (keepsPc_executeChild _) fun _ => .bind (.when (.ask _)) fun _ =>
    .bind (.modify fun _ => rfl) fun _ => keepsPc_push _

theorem keepsPc_create [Keccak] (isCreate2 : Bool) : KeepsPc (create env isCreate2) := by
  refine .bind keepsPc_requireNonStaticcall fun _ => .bind (keepsPc_popn 3) fun _ =>
    .bind (.ite keepsPc_pop (.ret _)) fun _ => .bind (keepsPc_initcode _ _ _) fun _ =>
    .bind (.ite (.ret _) (.bind (keepsPc_loadAccount _ _ _) fun _ => .ret _)) fun _ =>
    .bind (keepsPc_chargeCreateStateGas _ _ _ _) fun charged => ?_
  cases charged with
  | none => exact .bind (.modify fun _ => rfl) fun _ => keepsPc_push _
  | some charged =>
    exact .bind (.ask _) fun _ => .bind (keepsPc_spend _) fun _ => .bind (.ask _) fun _ =>
      keepsPc_finishCreate _ _

theorem keepsPc_selfdestruct : KeepsPc (selfdestruct env) :=
  .bind (keepsPc_checkBounds 1 0) fun _ => .bind keepsPc_popUnchecked fun _ =>
    .bind keepsPc_requireNonStaticcall fun _ => .bind (.ask _) fun _ => .bind (.ask _) fun _ =>
    .bind (.ofExcept _) fun _ => .bind (keepsPc_spend _) fun _ =>
    .bind (.when (keepsPc_spendState _)) fun _ => .bind (.when (.ask _)) fun _ => .stop _

theorem keepsPc_execute [Keccak] (op : OpCode) (h : op ≠ .jump) (h' : op ≠ .jumpi) :
    KeepsPc (execute env op) := by
  cases op with
  | sstore => exact keepsPc_sstore
  | tstore => exact keepsPc_tstore
  | log n => exact keepsPc_log n
  | create => exact keepsPc_create false
  | create2 => exact keepsPc_create true
  | call => exact keepsPc_call .call
  | callcode => exact keepsPc_call .callCode
  | delegatecall => exact keepsPc_call .delegateCall
  | staticcall => exact keepsPc_call .staticCall
  | selfdestruct => exact keepsPc_selfdestruct
  | _ => exact keepsPc_lift (SimpleInstr.keepsPc_execute _ h h')

end SysInstr

end Evm2
