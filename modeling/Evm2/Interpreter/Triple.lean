import Evm2.Interpreter.System
import Evm2.Interpreter.StackIo

/-!
# What instructions leave behind

Rules of pre- and postconditions for instructions that do not stop the frame, whatever the answers
to their requests are; and what every instruction does to the stack and to the memory.

* `Instr.Triple P x Q`: if `x` is run on a frame with `P` and does not stop it, then `Q` holds;
* `Looks S M W`: a frame with the stack `S`, and with the memory `M` of `W` words.
-/

namespace Evm2

/-! ## Rules -/

namespace Instr

variable {Req : Type} {Resp : Req → Type} {α β : Type} {φ : Prop}
  {P P' : Interpreter → Prop} {Q Q' : α → Interpreter → Prop} {R : β → Interpreter → Prop}
  {x y : Instr Req Resp α}

/-- From a frame with `P`, the instruction leads to one with `Q`, unless it stops the frame. -/
def Triple (P : Interpreter → Prop) (x : Instr Req Resp α) (Q : α → Interpreter → Prop) : Prop :=
  ∀ f, P f → (x.run f).Spec (fun _ => True) (fun _ _ => True) fun r => ∀ a, r.1 = .ok a → Q a r.2

theorem Triple.ret {a : α} (h : ∀ f, P f → Q a f) : Triple P (pure a : Instr Req Resp α) Q := by
  intro f hf b hb
  cases hb
  exact h f hf

theorem Triple.bind {g : α → Instr Req Resp β} (hx : Triple P x Q)
    (hg : ∀ a, Triple (Q a) (g a) R) : Triple P (x >>= g) R := by
  intro f hf
  refine Prog.Spec.bind (hx f hf) fun r hr => ?_
  obtain ⟨r, f'⟩ := r
  cases r with
  | ok a => exact hg a f' (hr a rfl)
  | error reason => exact nofun

theorem Triple.stop {reason : InstrStop} : Triple P (Instr.stop reason : Instr Req Resp α) Q :=
  fun _ _ => nofun

theorem Triple.read {g : Interpreter → Instr Req Resp β} (hg : ∀ f, P f → Triple P (g f) R) :
    Triple P (Instr.get >>= g) R :=
  fun f hf => hg f hf f hf

theorem Triple.modify {g : Interpreter → Interpreter} {Q : Unit → Interpreter → Prop}
    (h : ∀ f, P f → Q () (g f)) : Triple P (Instr.modify g : Instr Req Resp Unit) Q :=
  fun f hf _ _ => h f hf

theorem Triple.ask {r : Req} : Triple P (Instr.ask r : Instr Req Resp _) fun _ => P := by
  refine fun f hf => ⟨trivial, fun b _ c hc => ?_⟩
  cases hc
  exact hf

theorem Triple.ofExcept {r : Except InstrStop α} :
    Triple P (Instr.ofExcept r : Instr Req Resp α) fun a f => r = .ok a ∧ P f :=
  fun _ hf _ ha => ⟨ha, hf⟩

theorem Triple.triv : Triple P x fun _ _ => True := by
  intro f _
  induction x.run f with
  | pure a => exact fun _ _ => trivial
  | req r k ih => exact ⟨trivial, fun b _ => ih b⟩

theorem Triple.conseq (h : Triple P' x Q') (hP : ∀ f, P f → P' f)
    (hQ : ∀ a f, Q' a f → Q a f) : Triple P x Q :=
  fun f hf => (h f (hP f hf)).mono fun _ hr a ha => hQ a _ (hr a ha)

theorem Triple.of_fact (h : φ → Triple P x Q) : Triple (fun f => φ ∧ P f) x Q :=
  fun f hf => h hf.1 f hf.2

theorem Triple.of_exists {ι : Type} {P : ι → Interpreter → Prop} (h : ∀ i, Triple (P i) x Q) :
    Triple (fun f => ∃ i, P i f) x Q :=
  fun f hf => hf.elim fun i => h i f

theorem Triple.ite {c : Prop} [Decidable c] (hx : c → Triple P x Q) (hy : ¬c → Triple P y Q) :
    Triple P (if c then x else y) Q := by
  by_cases hc : c
  · rw [if_pos hc]
    exact hx hc
  · rw [if_neg hc]
    exact hy hc

theorem Triple.when {c : Prop} [Decidable c] {x : Instr Req Resp Unit}
    {Q : Unit → Interpreter → Prop} (hx : c → Triple P x Q) (hn : ∀ f, ¬c → P f → Q () f) :
    Triple P (Instr.when c x) Q :=
  .ite hx fun hc => .ret fun f => hn f hc

end Instr

open Instr (Triple)

theorem SimpleInstr.triple_lift {α : Type} {P : Interpreter → Prop} {Q : α → Interpreter → Prop}
    {x : SimpleInstr α} (hx : Triple P x Q) : Triple P (SimpleInstr.lift x) Q :=
  fun f hf => (hx f hf).interp fun _ => ⟨trivial, fun _ _ => trivial⟩

/-! ## Frames -/

/-- A frame with this stack, and this memory of `W` words. -/
structure Looks (S : List Word) (M : Bytes) (W : ℕ) (f : Interpreter) : Prop where
  stack : f.stack = S
  memory : f.memory = M
  words : f.memoryGas.wordsNum = W
  length : M.length = 32 * W
  fits : 32 * W < 2 ^ 64

def grow (M : Bytes) (words : ℕ) : Bytes := M ++ List.replicate (32 * words - M.length) 0

def touch (W : ℕ) (access : ℕ × ℕ) : ℕ :=
  if access.2 = 0 then W else max W (numWords (access.1 + access.2))

@[simp] theorem length_grow (M : Bytes) (words : ℕ) :
    (grow M words).length = max M.length (32 * words) := by
  unfold grow
  rw [List.length_append, List.length_replicate]
  omega

theorem grow_self {M : Bytes} {W : ℕ} (h : M.length = 32 * W) : grow M W = M := by
  unfold grow
  rw [h, Nat.sub_self]
  exact List.append_nil M

theorem grow_grow (M : Bytes) {W W' : ℕ} (h : W ≤ W') : grow (grow M W) W' = grow M W' := by
  unfold grow
  rw [List.append_assoc, List.append_cancel_left_eq, List.length_append, List.length_replicate,
    List.replicate_append_replicate]
  congr 1
  omega

theorem le_touch (W : ℕ) (access : ℕ × ℕ) : W ≤ touch W access := by
  unfold touch
  by_cases h : access.2 = 0
  · rw [if_pos h]
  · rw [if_neg h]
    exact le_max_left _ _

theorem length_memorySet {M : Bytes} {offset : ℕ} {value : Bytes}
    (h : value = [] ∨ offset + value.length ≤ M.length) :
    (memorySet M offset value).length = M.length := by
  unfold memorySet
  rcases h with rfl | h
  · rfl
  · by_cases hv : value.isEmpty
    · rw [if_pos hv]
    · rw [if_neg hv]
      simp only [List.length_append, List.length_take, List.length_drop]
      omega

namespace Looks

variable {Req : Type} {Resp : Req → Type} {S : List Word} {M : Bytes} {W : ℕ} {a : Word}

theorem triple_checkBounds {input output : ℕ} :
    Triple (Looks S M W) (Instr.checkBounds input output : Instr Req Resp Unit)
      fun _ => Looks S M W :=
  .read fun _ _ => .ite (fun _ => .stop) fun _ => .ite (fun _ => .stop) fun _ => .ret fun _ h => h

theorem triple_popUnchecked :
    Triple (Looks (a :: S) M W) (Instr.popUnchecked : Instr Req Resp Word)
      fun w f => w = a ∧ Looks S M W f := by
  refine .read fun f hf => .bind (.modify (Q := fun _ => Looks S M W) fun f' h => ?_) fun _ =>
    .ret fun f' h => ⟨?_, h⟩
  · exact ⟨by rw [h.stack]; rfl, h.memory, h.words, h.length, h.fits⟩
  · rw [hf.stack]
    rfl

theorem bind_check {β : Type} {input output : ℕ} {g : Unit → Instr Req Resp β}
    {R : β → Interpreter → Prop} (hg : Triple (Looks S M W) (g ()) R) :
    Triple (Looks S M W) (Instr.checkBounds input output >>= g) R :=
  .bind triple_checkBounds fun _ => hg

theorem bind_pop {β : Type} {g : Word → Instr Req Resp β} {R : β → Interpreter → Prop}
    (hg : Triple (Looks S M W) (g a) R) :
    Triple (Looks (a :: S) M W) (Instr.popUnchecked >>= g) R := by
  refine .bind triple_popUnchecked fun w => .of_fact fun hw => ?_
  rw [hw]
  exact hg

theorem triple_write (w : Word) :
    Triple (Looks S M W) (Instr.write w : Instr Req Resp Unit) fun _ => Looks (w :: S) M W :=
  .modify fun _ h => ⟨by rw [h.stack], h.memory, h.words, h.length, h.fits⟩

theorem triple_popn {ws : List Word} {n : ℕ} (hn : ws.length = n) :
    Triple (Looks (ws ++ S) M W) (Instr.popn n : Instr Req Resp (List Word))
      fun r f => r = ws ∧ Looks S M W f := by
  subst hn
  refine .read fun f hf => .ite (fun _ => .stop) fun _ =>
    .bind (.modify (Q := fun _ => Looks S M W) fun f' h => ?_) fun _ => .ret fun f' h => ⟨?_, h⟩
  · exact ⟨by rw [h.stack, List.drop_left], h.memory, h.words, h.length, h.fits⟩
  · rw [hf.stack, List.take_left]

theorem triple_pop :
    Triple (Looks (a :: S) M W) (Instr.pop : Instr Req Resp Word)
      fun w f => w = a ∧ Looks S M W f :=
  .bind (triple_popn (show [a].length = 1 from rfl)) fun _ => .of_fact fun h =>
    .ret fun _ hf => ⟨by rw [h]; rfl, hf⟩

theorem triple_push (w : Word) :
    Triple (Looks S M W) (Instr.push w : Instr Req Resp Unit) fun _ => Looks (w :: S) M W :=
  .read fun _ _ => .ite (fun _ => .stop) fun _ => triple_write w

end Looks

def LooksWith (n : ℕ) (S : List Word) (M : Bytes) (W : ℕ) (f : Interpreter) : Prop :=
  ∃ outs : List Word, outs.length = n ∧ Looks (outs ++ S) M W f

namespace Looks

variable {Req : Type} {Resp : Req → Type} {S : List Word} {M M' : Bytes} {W W' : ℕ} {a b c : Word}

theorem triple_output {x : Instr Req Resp Word}
    (hx : Triple (Looks S M W) x fun _ => Looks S M' W') :
    Triple (Looks S M W) (x >>= Instr.write) fun _ => LooksWith 1 S M' W' :=
  .bind hx fun w => (triple_write w).conseq (fun _ h => h) fun _ _ h => ⟨[w], rfl, h⟩

theorem triple_nullary {x : Instr Req Resp Word}
    (hx : Triple (Looks S M W) x fun _ => Looks S M' W') :
    Triple (Looks S M W) (Instr.nullary x) fun _ => LooksWith 1 S M' W' :=
  bind_check (triple_output hx)

theorem triple_unary {g : Word → Instr Req Resp Word}
    (hg : Triple (Looks S M W) (g a) fun _ => Looks S M' W') :
    Triple (Looks (a :: S) M W) (Instr.unary g) fun _ => LooksWith 1 S M' W' :=
  bind_check (bind_pop (triple_output hg))

theorem triple_binary {g : Word → Word → Instr Req Resp Word}
    (hg : Triple (Looks S M W) (g a b) fun _ => Looks S M' W') :
    Triple (Looks (a :: b :: S) M W) (Instr.binary g) fun _ => LooksWith 1 S M' W' :=
  bind_check (bind_pop (bind_pop (triple_output hg)))

theorem triple_ternary {g : Word → Word → Word → Instr Req Resp Word}
    (hg : Triple (Looks S M W) (g a b c) fun _ => Looks S M' W') :
    Triple (Looks (a :: b :: c :: S) M W) (Instr.ternary g) fun _ => LooksWith 1 S M' W' :=
  bind_check (bind_pop (bind_pop (bind_pop (triple_output hg))))

end Looks

/-! ## Queries and memory -/

theorem Word.toUsize_ok {w : Word} {n : ℕ} (h : w.toUsize = .ok n) : n = w.toNat ∧ n < 2 ^ 64 := by
  unfold Word.toUsize at h
  by_cases hlt : w.toNat < 2 ^ 64
  · rw [if_pos hlt] at h
    cases h
    exact ⟨rfl, hlt⟩
  · rw [if_neg hlt] at h
    cases h

namespace SimpleInstr

open Looks

variable {env : FrameEnv} {S : List Word} {M : Bytes} {W : ℕ}

theorem triple_spend (cost : ℕ) (P : Interpreter → Prop) : Triple P (spend cost) fun _ => P :=
  .bind .ask fun _ => .ite (fun _ => .ret fun _ h => h) fun _ => .stop

theorem triple_loadAccount (addr : Word) (loadCode : Bool) (P : Interpreter → Prop) :
    Triple P (loadAccount env addr loadCode) fun _ => P :=
  .bind .ask fun _ => .bind .ask fun _ => .bind .ofExcept fun _ => .of_fact fun _ =>
    .ite (fun _ => .bind (triple_spend _ P) fun _ => .ret fun _ h => h) fun _ => .ret fun _ h => h

/-- **A resized memory** covers the range, which does not wrap. -/
theorem triple_resizeMemory {offset len : ℕ} (hlen : len ≠ 0) :
    Triple (Looks S M W) (resizeMemory env offset len) fun _ f =>
      offset + len ≤ 32 * touch W (offset, len) ∧
        Looks S (grow M (touch W (offset, len))) (touch W (offset, len)) f := by
  have htouch : touch W (offset, len) = max W (numWords (offset + len)) := if_neg hlen
  -- a sum that saturates is refused
  have hsat : 32 * numWords (satAdd64 offset len) < 2 ^ 64 →
      satAdd64 offset len = offset + len := by
    unfold numWords satAdd64 maxU64
    omega
  have hcover : offset + len ≤ 32 * numWords (offset + len) := by
    unfold numWords
    omega
  rw [htouch]
  refine .read fun f hf => ?_
  have hW := hf.fits
  dsimp only
  rw [hf.words]
  refine .ite (fun hle => .ret fun f' h => ?_) fun hgt => .ite (fun _ => .stop) fun hbig =>
    .ite (fun _ => .stop) fun _ => ?_
  · rw [hsat (by omega)] at hle
    rw [max_eq_left hle, grow_self h.length]
    exact ⟨by omega, h⟩
  · have heq := hsat (by omega)
    rw [heq] at hgt hbig ⊢
    rw [max_eq_right (by omega)]
    refine .bind (.modify (Q := fun _ f' => f'.stack = S ∧ f'.memory = M ∧
      f'.memoryGas.wordsNum = numWords (offset + len)) fun f' h => ⟨h.stack, h.memory, rfl⟩)
      fun _ => .bind .ask fun _ => .ite (fun _ => .modify fun f' h => ⟨hcover, ?_⟩) fun _ => .stop
    refine ⟨h.1, ?_, h.2.2, ?_, by omega⟩
    · change f'.memory ++ _ = _
      rw [h.2.1, Nat.mul_comm]
      rfl
    · rw [length_grow, hf.length]
      omega

theorem triple_resizeRange {offset : Word} {len : ℕ} {β : Type} {R : β → Interpreter → Prop}
    {g : ℕ → SimpleInstr β} (hlen : len ≠ 0)
    (hg : offset.toNat + len ≤ 32 * touch W (offset.toNat, len) →
      Triple (Looks S (grow M (touch W (offset.toNat, len))) (touch W (offset.toNat, len)))
        (g offset.toNat) R) :
    Triple (Looks S M W) (do
      let offset ← Instr.ofExcept offset.toUsize
      resizeMemory env offset len
      g offset) R := by
  refine .bind .ofExcept fun n => .of_fact fun hn => ?_
  rw [(Word.toUsize_ok hn).1]
  exact .bind (triple_resizeMemory hlen) fun _ => .of_fact hg

end SimpleInstr

/-! ## The memory of an instruction -/

namespace OpCode

/-- The ranges of the memory that an instruction accesses, for the words that it pops. -/
def memAccesses : OpCode → List Word → List (ℕ × ℕ)
  | keccak256, [offset, len] => [(offset.toNat, len.toNat)]
  | log _, offset :: len :: _ => [(offset.toNat, len.toNat)]
  | mload, [offset] => [(offset.toNat, 32)]
  | mstore, [offset, _] => [(offset.toNat, 32)]
  | mstore8, [offset, _] => [(offset.toNat, 1)]
  | calldatacopy, [dest, _, len] => [(dest.toNat, len.toNat)]
  | codecopy, [dest, _, len] => [(dest.toNat, len.toNat)]
  | returndatacopy, [dest, _, len] => [(dest.toNat, len.toNat)]
  | extcodecopy, [_, dest, _, len] => [(dest.toNat, len.toNat)]
  | mcopy, [dst, src, len] => [(max dst.toNat src.toNat, len.toNat)]
  | create, [_, offset, len] => [(offset.toNat, len.toNat)]
  | create2, [_, offset, len, _] => [(offset.toNat, len.toNat)]
  | call, [_, _, _, inOffset, inLen, outOffset, outLen] =>
    [(inOffset.toNat, inLen.toNat), (outOffset.toNat, outLen.toNat)]
  | callcode, [_, _, _, inOffset, inLen, outOffset, outLen] =>
    [(inOffset.toNat, inLen.toNat), (outOffset.toNat, outLen.toNat)]
  | delegatecall, [_, _, inOffset, inLen, outOffset, outLen] =>
    [(inOffset.toNat, inLen.toNat), (outOffset.toNat, outLen.toNat)]
  | staticcall, [_, _, inOffset, inLen, outOffset, outLen] =>
    [(inOffset.toNat, inLen.toNat), (outOffset.toNat, outLen.toNat)]
  | _, _ => []

def writeRange : OpCode → List Word → ℕ × ℕ
  | mstore, [offset, _] => (offset.toNat, 32)
  | mstore8, [offset, _] => (offset.toNat, 1)
  | calldatacopy, [dest, _, len] => (dest.toNat, len.toNat)
  | codecopy, [dest, _, len] => (dest.toNat, len.toNat)
  | returndatacopy, [dest, _, len] => (dest.toNat, len.toNat)
  | extcodecopy, [_, dest, _, len] => (dest.toNat, len.toNat)
  | mcopy, [dst, _, len] => (dst.toNat, len.toNat)
  | call, [_, _, _, _, _, offset, len] => (offset.toNat, len.toNat)
  | callcode, [_, _, _, _, _, offset, len] => (offset.toNat, len.toNat)
  | delegatecall, [_, _, _, _, offset, len] => (offset.toNat, len.toNat)
  | staticcall, [_, _, _, _, offset, len] => (offset.toNat, len.toNat)
  | _, _ => (0, 0)

def wordsAfter (op : OpCode) (ws : List Word) (W : ℕ) : ℕ := (op.memAccesses ws).foldl touch W

end OpCode

/-- What the code says an instruction writes: `MSTORE` its operand, and `CODECOPY` the code. -/
def Writes (code : Bytes) (op : OpCode) (ws : List Word) (bytes : Bytes) : Prop :=
  bytes.length ≤ (op.writeRange ws).2 ∧
    (∀ offset value, op = .mstore → ws = [offset, value] → bytes = beBytes 32 value.toNat) ∧
    ∀ dest src len, op = .codecopy → ws = [dest, src, len] → len ≠ 0 →
      bytes = paddedSlice code src.toUsizeSaturated len.toNat

/-- A frame after an instruction on the words `ws`, with the stack `S` below them and a memory `M`
of `W` words before. -/
def After (env : FrameEnv) (op : OpCode) (ws S : List Word) (M : Bytes) (W : ℕ)
    (f : Interpreter) : Prop :=
  ∃ bytes, Writes env.message.code.originalBytes op ws bytes ∧
    LooksWith op.stackIo.2 S
      (memorySet (grow M (op.wordsAfter ws W)) (op.writeRange ws).1 bytes) (op.wordsAfter ws W) f

end Evm2
