import Evm2.Interpreter.Triple

/-!
# The effect of instructions on stack and memory

* **`SysInstr.triple_execute`**: every instruction that does not stop replaces its inputs by its
  outputs, grows the memory over the ranges it accesses, and writes at most the range it may.
-/

namespace Evm2

open Instr (Triple)

variable {env : FrameEnv} {op : OpCode} {ws S : List Word} {M : Bytes} {W : ℕ} {f : Interpreter}

/-! ## Frames after an instruction -/

theorem After.of_grown (hm : op ≠ .mstore) (hc : op ≠ .codecopy)
    (h : LooksWith op.stackIo.2 S (grow M (op.wordsAfter ws W)) (op.wordsAfter ws W) f) :
    After env op ws S M W f :=
  ⟨[], ⟨Nat.zero_le _, fun _ _ h => absurd h hm, fun _ _ _ h => absurd h hc⟩, h⟩

theorem After.of_same (hacc : op.memAccesses ws = []) (hm : op ≠ .mstore) (hc : op ≠ .codecopy)
    (h : LooksWith op.stackIo.2 S M W f) : After env op ws S M W f := by
  refine .of_grown hm hc ?_
  have hW : op.wordsAfter ws W = W := by
    unfold OpCode.wordsAfter
    rw [hacc]
    rfl
  obtain ⟨outs, hlen, hf⟩ := h
  rw [hW, grow_self hf.length]
  exact ⟨outs, hlen, hf⟩

theorem After.of_written {bytes : Bytes} (hm : op ≠ .mstore) (hc : op ≠ .codecopy)
    (hlen : bytes.length ≤ (op.writeRange ws).2)
    (h : LooksWith op.stackIo.2 S
      (memorySet (grow M (op.wordsAfter ws W)) (op.writeRange ws).1 bytes) (op.wordsAfter ws W) f) :
    After env op ws S M W f :=
  ⟨bytes, ⟨hlen, fun _ _ h => absurd h hm, fun _ _ _ h => absurd h hc⟩, h⟩

theorem Looks.set {offset : ℕ} {bytes : Bytes} (h : Looks S M W f)
    (hin : bytes = [] ∨ offset + bytes.length ≤ 32 * W) :
    Looks S (memorySet M offset bytes) W { f with memory := memorySet f.memory offset bytes } where
  stack := h.stack
  memory := by rw [h.memory]
  words := h.words
  length := by rw [length_memorySet (by rw [h.length]; exact hin), h.length]
  fits := h.fits

theorem memorySetData_eq (M : Bytes) (offset dataOffset len : ℕ) (data : Bytes) :
    memorySetData M offset dataOffset len data =
      memorySet M offset (if len = 0 then [] else paddedSlice data dataOffset len) := by
  unfold memorySetData
  by_cases h : len = 0
  · rw [if_pos h, if_pos h]
    rfl
  · rw [if_neg h, if_neg h]

theorem length_copied (data : Bytes) (offset len : ℕ) :
    (if len = 0 then [] else paddedSlice data offset len).length ≤ len := by
  by_cases h : len = 0
  · rw [if_pos h]
    exact Nat.zero_le _
  · rw [if_neg h, length_paddedSlice]

/-! ## Instructions that only make queries -/

namespace SimpleInstr

open Looks Instr

def wordAt (M : Bytes) (W offset : ℕ) : Word :=
  BitVec.ofNat 256 (ofBeBytes (memorySlice (grow M (touch W (offset, 32))) offset 32))

theorem triple_mload [Keccak] {offset : Word} :
    Triple (Looks (offset :: S) M W) (execute env .mload) fun _ =>
      Looks (wordAt M W offset.toNat :: S) (grow M (touch W (offset.toNat, 32)))
        (touch W (offset.toNat, 32)) := by
  refine bind_check (bind_pop ?_)
  refine .bind (Q := fun w f => w = wordAt M W offset.toNat ∧ Looks S _ _ f)
    (triple_resizeRange (by decide) fun _ => .read fun f hf => .ret fun f' h => ⟨?_, h⟩)
    fun w => .of_fact fun hw => ?_
  · rw [hf.memory]
    rfl
  · rw [hw]
    exact triple_write _

theorem triple_mstoreBytes {offset : Word} {bytes : Bytes} (hne : bytes.length ≠ 0) :
    Triple (Looks S M W) (mstoreBytes env offset bytes) fun _ =>
      Looks S (memorySet (grow M (touch W (offset.toNat, bytes.length))) offset.toNat bytes)
        (touch W (offset.toNat, bytes.length)) :=
  triple_resizeRange hne fun hin => .modify fun _ h => h.set (.inr hin)

theorem triple_keccak256Instr [Keccak] {offset len : Word} :
    Triple (Looks S M W) (keccak256Instr env offset len) fun _ =>
      Looks S (grow M (touch W (offset.toNat, len.toNat))) (touch W (offset.toNat, len.toNat)) := by
  refine .bind .ofExcept fun n => .of_fact fun hn => .bind (triple_spend _ _) fun _ => ?_
  rw [(Word.toUsize_ok hn).1]
  refine .ite (fun h0 => .ret fun f h => ?_) fun h0 =>
    triple_resizeRange h0 fun _ => .read fun _ _ => .ret fun _ h => h
  rw [h0]
  exact (grow_self h.length).symm ▸ h

theorem triple_copyData {dest src : Word} {len : ℕ} {data : Bytes} :
    Triple (Looks S M W) (copyData env dest src len data) fun _ =>
      Looks S (memorySet (grow M (touch W (dest.toNat, len))) dest.toNat
        (if len = 0 then [] else paddedSlice data src.toUsizeSaturated len))
        (touch W (dest.toNat, len)) := by
  refine .ite (fun h0 => ?_) fun h0 => .ret fun f h => ?_
  · refine triple_resizeRange h0 fun hin => .modify fun f h => ?_
    rw [memorySetData_eq]
    refine h.set (.inr ?_)
    rw [if_neg h0, length_paddedSlice]
    exact hin
  · rw [not_not.mp h0]
    exact (grow_self h.length).symm ▸ h

theorem triple_copyInstr {dest src len : Word} {data : Bytes} :
    Triple (Looks (dest :: src :: len :: S) M W) (copyInstr env data) fun _ =>
      Looks S (memorySet (grow M (touch W (dest.toNat, len.toNat))) dest.toNat
        (if len.toNat = 0 then [] else paddedSlice data src.toUsizeSaturated len.toNat))
        (touch W (dest.toNat, len.toNat)) := by
  refine bind_check (bind_pop (bind_pop (bind_pop ?_)))
  refine .bind .ofExcept fun n => .of_fact fun hn => .bind (triple_spend _ _) fun _ => ?_
  rw [(Word.toUsize_ok hn).1]
  exact triple_copyData

theorem triple_extcodecopy {addr dest src len : Word} :
    Triple (Looks (addr :: dest :: src :: len :: S) M W) (extcodecopy env) fun _ f =>
      ∃ bytes : Bytes, bytes.length ≤ len.toNat ∧
        Looks S (memorySet (grow M (touch W (dest.toNat, len.toNat))) dest.toNat bytes)
          (touch W (dest.toNat, len.toNat)) f := by
  refine bind_check (bind_pop (bind_pop (bind_pop (bind_pop ?_))))
  refine .bind .ofExcept fun n => .of_fact fun hn => .bind (triple_spend _ _) fun _ => ?_
  rw [(Word.toUsize_ok hn).1]
  refine .bind (Q := fun n f => (len.toNat ≠ 0 → n = dest.toNat ∧
    n + len.toNat ≤ 32 * touch W (dest.toNat, len.toNat)) ∧
      Looks S (grow M (touch W (dest.toNat, len.toNat))) (touch W (dest.toNat, len.toNat)) f)
    (.ite (fun h0 => triple_resizeRange h0 fun hin => .ret fun f h => ⟨fun _ => ⟨rfl, hin⟩, h⟩)
      fun h0 => .ret fun f h => ⟨fun h => absurd h h0, ?_⟩)
    fun n => .of_fact fun hdest => .bind (triple_loadAccount _ _ _) fun account =>
      .modify fun f h => ?_
  · rw [not_not.mp h0]
    exact (grow_self h.length).symm ▸ h
  · rw [memorySetData_eq]
    by_cases h0 : len.toNat = 0
    · rw [if_pos h0]
      exact ⟨[], Nat.zero_le _, h⟩
    · obtain ⟨rfl, hin⟩ := hdest h0
      rw [if_neg h0]
      refine ⟨_, Nat.le_of_eq (length_paddedSlice _ _ _), h.set (.inr ?_)⟩
      rw [length_paddedSlice]
      exact hin

theorem triple_returndatacopy {dest src len : Word} :
    Triple (Looks (dest :: src :: len :: S) M W) (returndatacopy env) fun _ f =>
      ∃ bytes : Bytes, bytes.length ≤ len.toNat ∧
        Looks S (memorySet (grow M (touch W (dest.toNat, len.toNat))) dest.toNat bytes)
          (touch W (dest.toNat, len.toNat)) f := by
  refine bind_check (bind_pop (bind_pop (bind_pop ?_)))
  refine .bind .ofExcept fun n => .of_fact fun hn => .read fun f _ => ?_
  rw [(Word.toUsize_ok hn).1]
  refine .ite (fun _ => .stop) fun _ => .bind (triple_spend _ _) fun _ =>
    triple_copyData.conseq (fun _ h => h) fun _ f' h => ⟨_, length_copied _ _ _, h⟩

theorem triple_mcopy {dst src len : Word} :
    Triple (Looks (dst :: src :: len :: S) M W) (mcopy env) fun _ f =>
      ∃ bytes : Bytes, bytes.length ≤ len.toNat ∧
        Looks S (memorySet (grow M (touch W (max dst.toNat src.toNat, len.toNat))) dst.toNat bytes)
          (touch W (max dst.toNat src.toNat, len.toNat)) f := by
  refine bind_check (bind_pop (bind_pop (bind_pop ?_)))
  refine .bind .ofExcept fun n => .of_fact fun hn => .bind (triple_spend _ _) fun _ => ?_
  rw [(Word.toUsize_ok hn).1]
  refine .ite (fun h0 => ?_) fun h0 => .ret fun f h => ⟨[], Nat.zero_le _, ?_⟩
  · refine .bind .ofExcept fun d => .of_fact fun hd => .bind .ofExcept fun s =>
      .of_fact fun hs => ?_
    rw [(Word.toUsize_ok hd).1, (Word.toUsize_ok hs).1]
    refine .bind (triple_resizeMemory h0) fun _ => .of_fact fun hin => .modify fun f h => ?_
    have hlen : (memorySlice f.memory src.toNat len.toNat).length ≤ len.toNat :=
      List.length_take_le _ _
    exact ⟨_, hlen, h.set (.inr (by omega))⟩
  · rw [not_not.mp h0]
    exact (grow_self h.length).symm ▸ h

theorem triple_dup {n : ℕ} (hlen : ws.length = n + 1) :
    Triple (Looks (ws ++ S) M W) (Instr.dup (n + 1) : SimpleInstr Unit) fun _ =>
      LooksWith (n + 2) S M W :=
  .read fun _ _ => .ite (fun _ => .stop) fun _ => .ite (fun _ => .stop) fun _ =>
    (triple_write _).conseq (fun _ h => h) fun _ _ h => ⟨_ :: ws, congrArg (· + 1) hlen, h⟩

theorem triple_swap {n : ℕ} (hlen : ws.length = n + 2) :
    Triple (Looks (ws ++ S) M W) (Instr.swap (n + 1) : SimpleInstr Unit) fun _ =>
      LooksWith (n + 2) S M W := by
  refine .read fun _ _ => .ite (fun _ => .stop) fun _ => .modify fun f h => ?_
  refine ⟨(ws.set 0 (f.stack.getD (n + 1) 0)).set (n + 1) (f.stack.getD 0 0), ?_, ?_, h.memory,
    h.words, h.length, h.fits⟩
  · rw [List.length_set, List.length_set, hlen]
  · change (f.stack.set 0 _).set (n + 1) _ = _
    rw [h.stack, List.set_append_left _ _ (by omega),
      List.set_append_left _ _ (by rw [List.length_set]; omega)]

theorem triple_returnInner {P : Interpreter → Prop} {Q : Unit → Interpreter → Prop}
    {reason : InstrStop} : Triple P (returnInner env reason) Q :=
  .bind .triv fun _ => .bind .triv fun _ => .bind .triv fun _ => .bind .triv fun _ => .ite
    (fun _ => .bind .triv fun _ => .ite
      (fun _ => .bind .triv fun _ => .bind .triv fun _ => .bind .triv fun _ => .stop)
      fun _ => .bind .triv fun _ => .bind .triv fun _ => .stop)
    fun _ => .bind .triv fun _ => .stop

theorem triple_decodeImmediate {α : Type} {decode : ℕ → Option α} {P : Interpreter → Prop} :
    Triple P (decodeImmediate env decode) fun _ => P := by
  refine .read fun f _ => ?_
  cases decode ((env.message.code.immediate f.pc 1).headD 0).toNat with
  | none => exact .stop
  | some a => exact .ret fun _ h => h

variable [Keccak]

theorem triple_execute (hlen : ws.length = op.stackIo.1) (hn : op ≠ .swapn) (hx : op ≠ .exchange) :
    Triple (Looks (ws ++ S) M W) (execute env op) fun _ => After env op ws S M W := by
  have hsame : op.memAccesses ws = [] → op ≠ .mstore → op ≠ .codecopy →
      Triple (Looks (ws ++ S) M W) (execute env op) (fun _ => LooksWith op.stackIo.2 S M W) →
      Triple (Looks (ws ++ S) M W) (execute env op) fun _ => After env op ws S M W :=
    fun hacc hm hc h => h.conseq (fun _ h => h) fun _ _ => .of_same hacc hm hc
  cases op with
  | stop | invalid => exact .stop
  | sstore | tstore | log | create | call | callcode | delegatecall | create2 | staticcall
  | selfdestruct => exact .stop
  | «return» | revert => exact triple_returnInner
  | add | mul | sub | div | sdiv | mod | smod | signextend | lt | gt | slt | sgt | eq | and | or
  | xor | byte | shl | shr | sar =>
    match ws, hlen with
    | [a, b], _ => exact hsame rfl nofun nofun (triple_binary (.ret fun _ h => h))
  | exp =>
    match ws, hlen with
    | [a, b], _ =>
      exact hsame rfl nofun nofun
        (triple_binary (.bind (triple_spend _ _) fun _ => .ret fun _ h => h))
  | addmod | mulmod =>
    match ws, hlen with
    | [a, b, c], _ => exact hsame rfl nofun nofun (triple_ternary (.ret fun _ h => h))
  | iszero | not | clz | calldataload | blobhash =>
    match ws, hlen with
    | [a], _ => exact hsame rfl nofun nofun (triple_unary (.ret fun _ h => h))
  | balance | extcodesize | extcodehash =>
    match ws, hlen with
    | [a], _ =>
      exact hsame rfl nofun nofun
        (triple_unary (.bind (triple_loadAccount _ _ _) fun _ => .ret fun _ h => h))
  | blockhash =>
    match ws, hlen with
    | [a], _ =>
      exact hsame rfl nofun nofun
        (triple_unary (.ite (fun _ => .ret fun _ h => h) fun _ => Triple.ask))
  | sload =>
    match ws, hlen with
    | [a], _ =>
      exact hsame rfl nofun nofun
        (triple_unary (.bind .ask fun _ => .bind .ask fun _ => .bind .ofExcept fun _ =>
          .of_fact fun _ => .ite (fun _ => .bind (triple_spend _ _) fun _ => .ret fun _ h => h)
            fun _ => .ret fun _ h => h))
  | tload =>
    match ws, hlen with
    | [a], _ => exact hsame rfl nofun nofun (triple_unary Triple.ask)
  | address | origin | caller | callvalue | calldatasize | codesize | gasprice | coinbase
  | timestamp | number | difficulty | gaslimit | chainid | basefee | blobbasefee | slotnum =>
    cases List.length_eq_zero_iff.mp hlen
    exact hsame rfl nofun nofun (triple_nullary (.ret fun _ h => h))
  | returndatasize | pc | msize =>
    cases List.length_eq_zero_iff.mp hlen
    exact hsame rfl nofun nofun (triple_nullary (.read fun _ _ => .ret fun _ h => h))
  | gas =>
    cases List.length_eq_zero_iff.mp hlen
    exact hsame rfl nofun nofun (triple_nullary (.bind .ask fun _ => .ret fun _ h => h))
  | selfbalance =>
    cases List.length_eq_zero_iff.mp hlen
    exact hsame rfl nofun nofun (triple_nullary (.bind .ask fun _ => .bind .ofExcept fun _ =>
      .of_fact fun _ => .ret fun _ h => h))
  | jumpdest =>
    cases List.length_eq_zero_iff.mp hlen
    exact hsame rfl nofun nofun (.ret fun _ h => ⟨[], rfl, h⟩)
  | pop =>
    match ws, hlen with
    | [a], _ => exact hsame rfl nofun nofun (bind_check (bind_pop (.ret fun _ h => ⟨[], rfl, h⟩)))
  | jump =>
    match ws, hlen with
    | [a], _ =>
      exact hsame rfl nofun nofun (bind_check (bind_pop (.ite (fun _ => .modify fun _ h =>
        ⟨[], rfl, h.stack, h.memory, h.words, h.length, h.fits⟩) fun _ => .stop)))
  | jumpi =>
    match ws, hlen with
    | [a, b], _ =>
      have hmove : ∀ (g : Interpreter → ℕ), Triple (Looks S M W)
          (Instr.modify fun f => { f with pc := g f } : SimpleInstr Unit)
            fun _ => LooksWith 0 S M W :=
        fun g => .modify fun _ h => ⟨[], rfl, h.stack, h.memory, h.words, h.length, h.fits⟩
      exact hsame rfl nofun nofun (bind_check (bind_pop (bind_pop (.ite
        (fun _ => .ite (fun _ => hmove _) fun _ => .stop) fun _ => hmove _))))
  | push n =>
    cases List.length_eq_zero_iff.mp hlen
    exact hsame rfl nofun nofun (.read fun _ _ =>
      (triple_push _).conseq (fun _ h => h) fun _ _ h => ⟨[_], rfl, h⟩)
  | dup n => exact hsame rfl nofun nofun (triple_dup hlen)
  | swap n => exact hsame rfl nofun nofun (triple_swap hlen)
  | dupn =>
    cases List.length_eq_zero_iff.mp hlen
    exact hsame rfl nofun nofun (.bind triple_decodeImmediate fun n => .read fun _ _ =>
      .ite (fun _ => .stop) fun _ => .ite (fun _ => .stop) fun _ =>
        (triple_write _).conseq (fun _ h => h) fun _ _ h => ⟨[_], rfl, h⟩)
  | swapn => exact absurd rfl hn
  | exchange => exact absurd rfl hx
  | keccak256 =>
    match ws, hlen with
    | [a, b], _ =>
      exact (triple_binary triple_keccak256Instr).conseq (fun _ h => h)
        fun _ _ h => .of_grown nofun nofun h
  | mload =>
    match ws, hlen with
    | [a], _ =>
      exact triple_mload.conseq (fun _ h => h) fun _ _ h => .of_grown nofun nofun ⟨[_], rfl, h⟩
  | mstore =>
    match ws, hlen with
    | [a, b], _ =>
      have hbytes : (beBytes 32 b.toNat).length = 32 := length_beBytes _ _
      refine bind_check (bind_pop (bind_pop ((triple_mstoreBytes (by rw [hbytes]; decide)).conseq
        (fun _ h => h) fun _ f h => ?_)))
      rw [hbytes] at h
      refine ⟨_, ⟨Nat.le_of_eq hbytes, ?_, nofun⟩, [], rfl, h⟩
      rintro _ _ _ ⟨⟩
      rfl
  | mstore8 =>
    match ws, hlen with
    | [a, b], _ =>
      have hbytes : [b.setWidth 8].length = 1 := rfl
      exact bind_check (bind_pop (bind_pop ((triple_mstoreBytes (by rw [hbytes]; decide)).conseq
        (fun _ h => h) fun _ f h => .of_written nofun nofun (Nat.le_of_eq hbytes) ⟨[], rfl, h⟩)))
  | calldatacopy =>
    match ws, hlen with
    | [a, b, c], _ =>
      refine triple_copyInstr.conseq (fun _ h => h) fun _ f h =>
        .of_written nofun nofun ?_ ⟨[], rfl, h⟩
      exact length_copied _ _ _
  | codecopy =>
    match ws, hlen with
    | [a, b, c], _ =>
      refine triple_copyInstr.conseq (fun _ h => h) fun _ f h =>
        ⟨_, ⟨length_copied _ _ _, nofun, ?_⟩, [], rfl, h⟩
      rintro _ _ _ _ ⟨⟩ h0
      exact if_neg fun h => h0 (BitVec.eq_of_toNat_eq h)
  | extcodecopy =>
    match ws, hlen with
    | [a, b, c, d], _ =>
      refine triple_extcodecopy.conseq (fun _ h => h) fun _ f h => ?_
      obtain ⟨bytes, hbytes, h⟩ := h
      exact .of_written nofun nofun hbytes ⟨[], rfl, h⟩
  | returndatacopy =>
    match ws, hlen with
    | [a, b, c], _ =>
      refine triple_returndatacopy.conseq (fun _ h => h) fun _ f h => ?_
      obtain ⟨bytes, hbytes, h⟩ := h
      exact .of_written nofun nofun hbytes ⟨[], rfl, h⟩
  | mcopy =>
    match ws, hlen with
    | [a, b, c], _ =>
      refine triple_mcopy.conseq (fun _ h => h) fun _ f h => ?_
      obtain ⟨bytes, hbytes, h⟩ := h
      exact .of_written nofun nofun hbytes ⟨[], rfl, h⟩

end SimpleInstr

/-! ## System instructions -/

namespace SysInstr

open Looks Instr

theorem triple_spend (cost : ℕ) (P : Interpreter → Prop) : Triple P (spend cost) fun _ => P :=
  SimpleInstr.triple_lift (SimpleInstr.triple_spend cost P)

theorem triple_loadAccount (address : Address) (loadCode skipColdLoad : Bool)
    (P : Interpreter → Prop) : Triple P (loadAccount address loadCode skipColdLoad) fun _ => P :=
  .bind .ask fun _ => .conseq .ofExcept (fun _ h => h) fun _ _ h => h.2

theorem triple_spendState (cost : ℕ) (P : Interpreter → Prop) :
    Triple P (spendState cost) fun _ => P :=
  .bind .ask fun _ => .ite (fun _ => .ret fun _ h => h) fun _ => .stop

theorem triple_requireNonStaticcall (P : Interpreter → Prop) :
    Triple P (requireNonStaticcall env) fun _ => P :=
  .ite (fun _ => .stop) fun _ => .ret fun _ h => h

theorem triple_sstore {key value : Word} :
    Triple (Looks (key :: value :: S) M W) (sstore env) fun _ => Looks S M W :=
  bind_check (bind_pop (bind_pop (.bind (triple_requireNonStaticcall _) fun _ =>
    .bind .ask fun _ => .bind (.when (fun _ => .stop) fun _ _ h => h) fun _ =>
    .bind (triple_spend _ _) fun _ => .bind .ask fun _ => .bind .ask fun _ =>
    .bind .ofExcept fun _ => .of_fact fun _ => .bind (triple_spend _ _) fun _ =>
    .bind (.when (fun _ => .bind (triple_spendState _ _) fun _ => .ask) fun _ _ h => h) fun _ =>
    .ask)))

theorem triple_tstore {key value : Word} :
    Triple (Looks (key :: value :: S) M W) (tstore env) fun _ => Looks S M W :=
  bind_check (bind_pop (bind_pop (.bind (triple_requireNonStaticcall _) fun _ => .ask)))

theorem triple_resizeRange {offset : Word} {len : ℕ} {β : Type} {R : β → Interpreter → Prop}
    {g : ℕ → SysInstr β} (hlen : len ≠ 0)
    (hg : offset.toNat + len ≤ 32 * touch W (offset.toNat, len) →
      Triple (Looks S (grow M (touch W (offset.toNat, len))) (touch W (offset.toNat, len)))
        (g offset.toNat) R) :
    Triple (Looks S M W) (do
      let offset ← ofExcept offset.toUsize
      SimpleInstr.lift (SimpleInstr.resizeMemory env offset len)
      g offset) R := by
  refine .bind .ofExcept fun n => .of_fact fun hn => ?_
  rw [(Word.toUsize_ok hn).1]
  exact .bind (SimpleInstr.triple_lift (SimpleInstr.triple_resizeMemory hlen)) fun _ => .of_fact hg

theorem triple_log {n : ℕ} {offset len : Word} {topics : List Word} (hn : topics.length = n) :
    Triple (Looks (offset :: len :: (topics ++ S)) M W) (log env n) fun _ =>
      Looks S (grow M (touch W (offset.toNat, len.toNat))) (touch W (offset.toNat, len.toNat)) := by
  refine .bind (triple_requireNonStaticcall _) fun _ =>
    .bind (triple_popn (show [offset, len].length = 2 from rfl)) fun _ => .of_fact ?_
  rintro rfl
  refine .bind .ofExcept fun m => .of_fact fun hm => .bind (triple_spend _ _) fun _ => ?_
  rw [(Word.toUsize_ok hm).1]
  refine .bind (Q := fun _ => Looks (topics ++ S) (grow M (touch W (offset.toNat, len.toNat)))
    (touch W (offset.toNat, len.toNat)))
    (.ite (fun h0 => .ret fun f h => ?_) fun h0 => triple_resizeRange h0 fun _ =>
      .ret fun _ h => h) fun _ => .bind (triple_popn hn) fun _ => .of_fact fun _ =>
        .read fun _ _ => .ask
  rw [show ([offset, len].getD 1 0).toNat = len.toNat from rfl] at h0
  rw [h0]
  exact (grow_self h.length).symm ▸ h

theorem triple_resizeMemoryRange {offset len : Word} :
    Triple (Looks S M W) (resizeMemoryRange env offset len) fun r f =>
      (r.2 = len.toNat ∧ (len.toNat ≠ 0 → r.1 = offset.toNat ∧
        r.1 + len.toNat ≤ 32 * touch W (offset.toNat, len.toNat))) ∧
      Looks S (grow M (touch W (offset.toNat, len.toNat))) (touch W (offset.toNat, len.toNat))
        f := by
  refine .bind .ofExcept fun n => .of_fact fun hn => ?_
  rw [(Word.toUsize_ok hn).1]
  refine .ite (fun h0 => triple_resizeRange h0 fun hin => .ret fun f h =>
    ⟨⟨rfl, fun _ => ⟨rfl, hin⟩⟩, h⟩) fun h0 => .ret fun f h => ?_
  rw [not_not.mp h0]
  exact ⟨⟨rfl, fun h => absurd rfl h⟩, (grow_self h.length).symm ▸ h⟩

theorem triple_resolveDelegation (remainingGas cost : ℕ) (code : Bytecode) (target : Address)
    (P : Interpreter → Prop) :
    Triple P (resolveDelegation env remainingGas cost code target) fun _ => P := by
  unfold resolveDelegation
  cases code.eip7702Address with
  | none => exact .ret fun _ h => h
  | some delegatedAddress =>
    exact .ite (fun _ => .ite (fun _ => .stop) fun _ => .bind (triple_loadAccount _ _ _ _) fun _ =>
      .ret fun _ h => h) fun _ => .ret fun _ h => h

theorem triple_loadAccAndCalcGas (target : Address) (transfersValue createEmptyAccount : Bool)
    (stackGasLimit : ℕ) (P : Interpreter → Prop) :
    Triple P (loadAccAndCalcGas env target transfersValue createEmptyAccount stackGasLimit)
      fun _ => P :=
  .bind (.when (fun _ => triple_spend _ _) fun _ _ h => h) fun _ => .bind .ask fun _ =>
    .bind (triple_loadAccount _ _ _ _) fun _ => .bind (triple_resolveDelegation _ _ _ _ _) fun _ =>
    .bind (triple_spend _ _) fun _ => .bind (triple_spendState _ _) fun _ => .bind .ask fun _ =>
    .bind (triple_spend _ _) fun _ => .ret fun _ h => h

def callWords (W : ℕ) (ranges : List Word) : ℕ :=
  touch (touch W ((ranges.getD 0 0).toNat, (ranges.getD 1 0).toNat))
    ((ranges.getD 2 0).toNat, (ranges.getD 3 0).toNat)

theorem triple_prepareCall {kind : MessageKind} {args value ranges : List Word}
    (hargs : args.length = 2)
    (hvalue : value.length = if kind = .call ∨ kind = .callCode then 1 else 0)
    (hranges : ranges.length = 4) :
    Triple (Looks (args ++ value ++ ranges ++ S) M W) (prepareCall env kind) fun r f =>
      (r.2.2.2 = (ranges.getD 3 0).toNat ∧ ((ranges.getD 3 0).toNat ≠ 0 →
        r.2.2.1 = (ranges.getD 2 0).toNat ∧
          r.2.2.1 + (ranges.getD 3 0).toNat ≤ 32 * callWords W ranges)) ∧
      Looks S (grow M (callWords W ranges)) (callWords W ranges) f := by
  rw [List.append_assoc, List.append_assoc]
  refine .bind (triple_popn hargs) fun _ => .of_fact fun _ =>
    .bind (Q := fun _ => Looks (ranges ++ S) M W) (.ite (fun hk => ?_) fun hk => ?_) fun _ =>
    .bind (triple_popn hranges) fun _ => .of_fact ?_
  · rw [if_pos hk] at hvalue
    obtain ⟨v, rfl⟩ := List.length_eq_one_iff.mp hvalue
    exact triple_pop.conseq (fun _ h => h) fun _ _ h => h.2
  · rw [if_neg hk] at hvalue
    rw [List.length_eq_zero_iff.mp hvalue]
    exact .ret fun _ h => h
  · rintro rfl
    refine .bind (.when (fun _ => .stop) fun _ _ h => h) fun _ =>
      .bind triple_resizeMemoryRange fun _ => .of_fact fun _ =>
      .bind triple_resizeMemoryRange fun _ => .of_fact fun hr =>
      .bind (triple_loadAccAndCalcGas _ _ _ _ _) fun _ => .read fun _ _ => .bind .ask fun _ =>
      .ret fun f h => ⟨hr, ?_⟩
    rw [grow_grow _ (le_touch _ _)] at h
    exact h

theorem triple_executeChild (message : Message) (P : Interpreter → Prop) :
    Triple P (executeChild message) fun _ => P :=
  .bind .ask fun _ => .ite (fun _ => .stop) fun _ => .bind .ask fun _ => .ret fun _ h => h

theorem triple_call {kind : MessageKind} {args value ranges : List Word}
    (hargs : args.length = 2)
    (hvalue : value.length = if kind = .call ∨ kind = .callCode then 1 else 0)
    (hranges : ranges.length = 4) :
    Triple (Looks (args ++ value ++ ranges ++ S) M W) (call env kind) fun _ f =>
      ∃ bytes : Bytes, bytes.length ≤ (ranges.getD 3 0).toNat ∧
        LooksWith 1 S (memorySet (grow M (callWords W ranges)) (ranges.getD 2 0).toNat bytes)
          (callWords W ranges) f := by
  refine .bind (triple_prepareCall hargs hvalue hranges) fun r => .of_fact fun hr =>
    .bind (triple_executeChild _ _) fun result =>
    .bind (.when (fun _ => .ask) fun _ _ h => h) fun _ => ?_
  have hlen : (result.output.take (min r.2.2.2 result.output.length)).length ≤
      (ranges.getD 3 0).toNat := by
    rw [List.length_take, hr.1]
    omega
  refine .bind (Q := fun _ f => ∃ bytes : Bytes, bytes.length ≤ (ranges.getD 3 0).toNat ∧
    Looks S (memorySet (grow M (callWords W ranges)) (ranges.getD 2 0).toNat bytes)
      (callWords W ranges) f) (.modify fun f h => ⟨_, hlen, ?_⟩) fun _ =>
    .of_exists fun bytes => .of_fact fun hbytes => (triple_push _).conseq (fun _ h => h)
      fun _ _ h => ⟨bytes, hbytes, [_], rfl, h⟩
  · -- an empty output is written nowhere
    by_cases h0 : (ranges.getD 3 0).toNat = 0
    · have hnil : result.output.take (min r.2.2.2 result.output.length) = [] :=
        List.length_eq_zero_iff.mp (Nat.le_zero.mp (h0 ▸ hlen))
      rw [hnil]
      exact ⟨h.stack, h.memory, h.words, h.length, h.fits⟩
    · obtain ⟨hoff, hin⟩ := hr.2 h0
      rw [← hoff]
      have hset := @Looks.set _ _ _ _ r.2.2.1
        (result.output.take (min r.2.2.2 result.output.length)) h (.inr (by omega))
      exact ⟨hset.stack, hset.memory, hset.words, hset.length, hset.fits⟩

theorem triple_chargeCreateStateGas (balance : Word) (nonce : U64) (value : Word)
    (destination : Address) (P : Interpreter → Prop) :
    Triple P (chargeCreateStateGas env balance nonce value destination) fun _ => P :=
  .ite (fun _ => .ite (fun _ => .ret fun _ h => h) fun _ =>
    .bind (triple_loadAccount _ _ _ _) fun _ =>
      .ite (fun _ => .bind (triple_spendState _ _) fun _ => .ret fun _ h => h)
        fun _ => .ret fun _ h => h) fun _ => .ret fun _ h => h

theorem triple_initcode (isCreate2 : Bool) {offset len : Word} :
    Triple (Looks S M W) (initcode env isCreate2 offset len) fun _ =>
      Looks S (grow M (touch W (offset.toNat, len.toNat))) (touch W (offset.toNat, len.toNat)) := by
  refine .bind .ofExcept fun n => .of_fact fun hn =>
    .bind (.when (fun _ => .bind (.when (fun _ => .stop) fun _ _ h => h) fun _ => triple_spend _ _)
      fun _ _ h => h) fun _ => ?_
  have hlen : BitVec.ofNat 256 n = len := by
    refine BitVec.eq_of_toNat_eq ?_
    rw [(Word.toUsize_ok hn).1, BitVec.toNat_ofNat, Nat.mod_eq_of_lt len.isLt]
  rw [hlen]
  exact .bind triple_resizeMemoryRange fun _ => .of_fact fun _ => .read fun _ _ =>
    .bind (triple_spend _ _) fun _ => .ret fun _ h => h

theorem triple_finishCreate (charged : Bool) (message : Message) :
    Triple (Looks S M W) (finishCreate env charged message) fun _ => LooksWith 1 S M W :=
  .bind (triple_executeChild _ _) fun _ => .bind (.when (fun _ => .ask) fun _ _ h => h) fun _ =>
    .bind (.modify (Q := fun _ => Looks S M W) fun _ h =>
      ⟨h.stack, h.memory, h.words, h.length, h.fits⟩) fun _ =>
    (triple_push _).conseq (fun _ h => h) fun _ _ h => ⟨[_], rfl, h⟩

theorem triple_create [Keccak] {isCreate2 : Bool} {value offset len : Word} {salt : List Word}
    (hsalt : salt.length = if isCreate2 then 1 else 0) :
    Triple (Looks (value :: offset :: len :: (salt ++ S)) M W) (create env isCreate2) fun _ =>
      LooksWith 1 S (grow M (touch W (offset.toNat, len.toNat)))
        (touch W (offset.toNat, len.toNat)) := by
  refine .bind (triple_requireNonStaticcall _) fun _ =>
    .bind (triple_popn (show [value, offset, len].length = 3 from rfl)) fun _ => .of_fact ?_
  rintro rfl
  refine .bind (Q := fun _ => Looks S M W) (.ite (fun hk => ?_) fun hk => ?_) fun _ =>
    .bind (triple_initcode isCreate2) fun _ =>
    .bind (Q := fun _ => Looks S (grow M (touch W (offset.toNat, len.toNat)))
      (touch W (offset.toNat, len.toNat))) (.ite (fun _ => .ret fun _ h => h) fun _ =>
        .bind (triple_loadAccount _ _ _ _) fun _ => .ret fun _ h => h) fun _ =>
    .bind (triple_chargeCreateStateGas _ _ _ _ _) fun charged => ?_
  · rw [if_pos hk] at hsalt
    obtain ⟨v, rfl⟩ := List.length_eq_one_iff.mp hsalt
    exact triple_pop.conseq (fun _ h => h) fun _ _ h => h.2
  · rw [if_neg hk] at hsalt
    rw [List.length_eq_zero_iff.mp hsalt]
    exact .ret fun _ h => h
  · cases charged with
    | none =>
      exact .bind (.modify (Q := fun _ => Looks S _ _) fun _ h =>
        ⟨h.stack, h.memory, h.words, h.length, h.fits⟩) fun _ =>
        (triple_push _).conseq (fun _ h => h) fun _ _ h => ⟨[_], rfl, h⟩
    | some charged =>
      exact .bind .ask fun _ => .bind (triple_spend _ _) fun _ => .bind .ask fun _ =>
        triple_finishCreate _ _

theorem triple_selfdestruct {P : Interpreter → Prop} {Q : Unit → Interpreter → Prop} :
    Triple P (selfdestruct env) Q :=
  .bind .triv fun _ => .bind .triv fun _ => .bind .triv fun _ => .bind .triv fun _ =>
    .bind .triv fun _ => .bind .triv fun _ => .bind .triv fun _ => .bind .triv fun _ =>
    .bind .triv fun _ => .stop

/-- **What every instruction does** that does not stop the frame. -/
theorem triple_execute [Keccak] (hlen : ws.length = op.stackIo.1) (hn : op ≠ .swapn)
    (hx : op ≠ .exchange) :
    Triple (Looks (ws ++ S) M W) (execute env op) fun _ => After env op ws S M W := by
  have hlift : Triple (Looks (ws ++ S) M W) (SimpleInstr.lift (SimpleInstr.execute env op))
      fun _ => After env op ws S M W :=
    SimpleInstr.triple_lift (SimpleInstr.triple_execute hlen hn hx)
  cases op with
  | sstore =>
    match ws, hlen with
    | [a, b], _ =>
      exact triple_sstore.conseq (fun _ h => h) fun _ _ h =>
        .of_same rfl nofun nofun ⟨[], rfl, h⟩
  | tstore =>
    match ws, hlen with
    | [a, b], _ =>
      exact triple_tstore.conseq (fun _ h => h) fun _ _ h =>
        .of_same rfl nofun nofun ⟨[], rfl, h⟩
  | log n =>
    match ws, hlen with
    | a :: b :: topics, hlen =>
      exact (triple_log (Nat.succ.inj (Nat.succ.inj hlen))).conseq (fun _ h => h) fun _ _ h =>
        .of_grown nofun nofun ⟨[], rfl, h⟩
  | create =>
    match ws, hlen with
    | [a, b, c], _ =>
      exact (triple_create (show [].length = _ from rfl)).conseq (fun _ h => h) fun _ _ h =>
        .of_grown nofun nofun h
  | create2 =>
    match ws, hlen with
    | [a, b, c, d], _ =>
      exact (triple_create (show [d].length = _ from rfl)).conseq (fun _ h => h) fun _ _ h =>
        .of_grown nofun nofun h
  | call | callcode =>
    match ws, hlen with
    | [a, b, v, c, d, o, l], _ =>
      refine (triple_call (show [a, b].length = 2 from rfl) (show [v].length = _ from rfl)
        (show [c, d, o, l].length = 4 from rfl)).conseq (fun _ h => h) fun _ _ h => ?_
      obtain ⟨bytes, hbytes, h⟩ := h
      exact .of_written nofun nofun hbytes h
  | delegatecall | staticcall =>
    match ws, hlen with
    | [a, b, c, d, o, l], _ =>
      refine (triple_call (show [a, b].length = 2 from rfl) (show [].length = _ from rfl)
        (show [c, d, o, l].length = 4 from rfl)).conseq (fun _ h => h) fun _ _ h => ?_
      obtain ⟨bytes, hbytes, h⟩ := h
      exact .of_written nofun nofun hbytes h
  | selfdestruct => exact triple_selfdestruct
  | _ => exact hlift

end SysInstr

end Evm2
