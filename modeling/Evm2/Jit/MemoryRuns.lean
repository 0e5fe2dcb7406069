import Evm2.Interpreter.Effects
import Evm2.Interpreter.Run
import Evm2.Jit.MemorySizes

/-!
# The size of the memory along runs

Runs of analysed bytecode: instructions do what the interpreter does, and instructions of the host
may do what compiled code lets them do.

* `admits_step`, **`SoundRun.admits`**: the size of the memory is one that the analysis allows.
-/

namespace Evm2

/-- The ranges of the memory that an instruction accesses, also if it stops the frame. -/
def OpCode.accessed : OpCode → List Word → List (ℕ × ℕ)
  | .return, [offset, len] => [(offset.toNat, len.toNat)]
  | .revert, [offset, len] => [(offset.toNat, len.toNat)]
  | op, ws => op.memAccesses ws

namespace Jit

open Instr (Triple)

/-! ## Accesses -/

def Known (a : Option ℕ × Option ℕ) (r : ℕ × ℕ) : Prop :=
  (∀ offset, a.1 = some offset → r.1 = offset) ∧ ∀ len, a.2 = some len → r.2 = len

def SnapshotsHold (bc : Bytecode) (i : ℕ) (f : Interpreter) : Prop :=
  ∀ depth value, bc.constOperand i depth = some value → f.stack[depth]? = some value

section Accesses

variable {bc : Bytecode} {i : ℕ} {f : Interpreter} {op : OpCode}

theorem constU64_known {ws S : List Word} (h : SnapshotsHold bc i f) (hs : f.stack = ws ++ S)
    {depth n : ℕ} {w : Word} (hw : ws[depth]? = some w) (hn : bc.constU64 i depth = some n) :
    w.toNat = n := by
  obtain ⟨value, hvalue, hn⟩ := Option.bind_eq_some_iff.mp hn
  have hlt : depth < ws.length := (List.getElem?_eq_some_iff.mp hw).1
  have hstack := h depth value hvalue
  rw [hs, List.getElem?_append_left hlt, hw] at hstack
  cases hstack
  split_ifs at hn
  exact Option.some.inj hn

theorem constMemoryAccesses_known {ws S : List Word} (h : SnapshotsHold bc i f)
    (hs : f.stack = ws ++ S) (hlen : ws.length = op.stackIo.1)
    (hop : (bc.inst i).opcode = some op) (hhost : (bc.inst i).flags.host = false)
    (hok : (bc.inst i).flags.disabled = false ∧ (bc.inst i).flags.unknown = false) :
    List.Forall₂ Known (bc.constMemoryAccesses i) (op.accessed ws) := by
  have hk : ∀ depth w, ws[depth]? = some w → ∀ n, bc.constU64 i depth = some n → w.toNat = n :=
    fun depth w hw n hn => constU64_known h hs hw hn
  unfold Bytecode.constMemoryAccesses
  dsimp only
  rw [hhost, hok.1, hok.2, if_neg (by decide), hop]
  cases op with
  | keccak256 | «return» | revert =>
    match ws, hlen, hk with
    | [a, b], _, hk => exact .cons ⟨hk 0 a rfl, hk 1 b rfl⟩ .nil
  | log n =>
    match ws, hlen, hk with
    | a :: b :: _, _, hk => exact .cons ⟨hk 0 a rfl, hk 1 b rfl⟩ .nil
  | mload =>
    match ws, hlen, hk with
    | [a], _, hk => exact .cons ⟨hk 0 a rfl, fun _ h => Option.some.inj h⟩ .nil
  | mstore | mstore8 =>
    match ws, hlen, hk with
    | [a, b], _, hk => exact .cons ⟨hk 0 a rfl, fun _ h => Option.some.inj h⟩ .nil
  | calldatacopy | codecopy | returndatacopy =>
    match ws, hlen, hk with
    | [a, b, c], _, hk => exact .cons ⟨hk 0 a rfl, hk 2 c rfl⟩ .nil
  | extcodecopy =>
    match ws, hlen, hk with
    | [a, b, c, d], _, hk => exact .cons ⟨hk 1 b rfl, hk 3 d rfl⟩ .nil
  | mcopy =>
    match ws, hlen, hk with
    | [dst, src, len], _, hk =>
      refine .cons ⟨fun offset ho => ?_, hk 2 len rfl⟩ .nil
      obtain ⟨x, hx, ho⟩ := Option.bind_eq_some_iff.mp ho
      obtain ⟨y, hy, rfl⟩ := Option.map_eq_some_iff.mp ho
      show max dst.toNat src.toNat = max x y
      rw [hk 0 dst rfl x hx, hk 1 src rfl y hy]
  | create =>
    match ws, hlen, hk with
    | [a, b, c], _, hk => exact .cons ⟨hk 1 b rfl, hk 2 c rfl⟩ .nil
  | create2 =>
    match ws, hlen, hk with
    | [a, b, c, d], _, hk => exact .cons ⟨hk 1 b rfl, hk 2 c rfl⟩ .nil
  | call | callcode =>
    match ws, hlen, hk with
    | [_, _, _, a, b, c, d], _, hk =>
      exact .cons ⟨hk 3 a rfl, hk 4 b rfl⟩ (.cons ⟨hk 5 c rfl, hk 6 d rfl⟩ .nil)
  | delegatecall | staticcall =>
    match ws, hlen, hk with
    | [_, _, a, b, c, d], _, hk =>
      exact .cons ⟨hk 2 a rfl, hk 3 b rfl⟩ (.cons ⟨hk 4 c rfl, hk 5 d rfl⟩ .nil)
  | _ => exact .nil

end Accesses

/-! ## Sizes -/

section Sizes

variable {exact : Prop} {s : BlockMemoryState} {a : Option ℕ × Option ℕ} {r : ℕ × ℕ} {W : ℕ}

theorem roundMemorySize_satAdd64 (offset len : ℕ) :
    roundMemorySize (satAdd64 offset len) = min (32 * numWords (offset + len)) (2 ^ 64 - 32) := by
  unfold roundMemorySize satAdd64 maxU64 numWords
  omega

theorem exactMemorySizeForAccess_known (hk : Known a r) {n : ℕ}
    (h : exactMemorySizeForAccess a = some n) :
    r.2 = 0 ∧ n = 0 ∨
      r.2 ≠ 0 ∧ n = min (32 * numWords (r.1 + r.2)) (2 ^ 64 - 32) := by
  unfold exactMemorySizeForAccess at h
  by_cases h0 : a.2 = some 0
  · rw [if_pos h0] at h
    exact .inl ⟨hk.2 0 h0, (Option.some.inj h).symm⟩
  · rw [if_neg h0] at h
    obtain ⟨offset, ho, h⟩ := Option.bind_eq_some_iff.mp h
    obtain ⟨len, hl, rfl⟩ := Option.map_eq_some_iff.mp h
    rw [roundMemorySize_satAdd64, hk.1 offset ho, hk.2 len hl]
    refine .inr ⟨?_, rfl⟩
    rintro rfl
    exact h0 hl

theorem minMemorySizeForAccess_known (hk : Known a r) :
    minMemorySizeForAccess a ≤ 32 * touch W r := by
  obtain ⟨o, l⟩ := a
  have hround : ∀ offset len, len ≠ 0 → offset + len ≤ r.1 + r.2 → r.2 = len →
      min (32 * numWords (offset + len)) (2 ^ 64 - 32) ≤ 32 * touch W r := by
    intro offset len hlen hle hr
    have htouch : touch W r = max W (numWords (r.1 + r.2)) := if_neg (by omega)
    have hmono : numWords (offset + len) ≤ numWords (r.1 + r.2) := by
      unfold numWords
      omega
    omega
  rcases l with _ | len
  · exact Nat.zero_le _
  have hlen := hk.2 len rfl
  rcases o with _ | offset
  · show (if len = 0 then 0 else roundMemorySize len) ≤ _
    split_ifs with h0
    · exact Nat.zero_le _
    · have heq : roundMemorySize len ≤ min (32 * numWords (0 + len)) (2 ^ 64 - 32) := by
        unfold roundMemorySize satAdd64 maxU64 numWords
        omega
      exact heq.trans (hround 0 len h0 (by omega) hlen)
  · show (if len = 0 then 0 else roundMemorySize (satAdd64 offset len)) ≤ _
    have hoffset := hk.1 offset rfl
    split_ifs with h0
    · exact Nat.zero_le _
    · rw [roundMemorySize_satAdd64]
      exact hround offset len h0 (by omega) hlen

theorem admits_touch (h : s.Admits exact (32 * W)) (hk : Known a r)
    (hfits : 32 * touch W r < 2 ^ 64) : (s.access a).Admits exact (32 * touch W r) := by
  obtain ⟨known, hknown, hle, hexact⟩ := h
  have hW := le_touch W r
  refine ⟨max known (minMemorySizeForAccess a), ?_, ?_, ?_⟩
  · show s.knownSize.map _ = _
    rw [hknown]
    rfl
  · exact max_le (by omega) (minMemorySizeForAccess_known hk)
  · intro he n hn
    obtain ⟨m, hm, hn⟩ := Option.bind_eq_some_iff.mp hn
    obtain ⟨k, hk', rfl⟩ := Option.map_eq_some_iff.mp hn
    have hm := hexact he m hm
    rcases exactMemorySizeForAccess_known hk hk' with ⟨h0, rfl⟩ | ⟨h0, rfl⟩
    · have htouch : touch W r = W := if_pos h0
      omega
    · have htouch : touch W r = max W (numWords (r.1 + r.2)) := if_neg h0
      omega

theorem le_foldl_touch (W : ℕ) (rs : List (ℕ × ℕ)) : W ≤ rs.foldl touch W := by
  induction rs generalizing W with
  | nil => exact le_rfl
  | cons r rs ih => exact (le_touch W r).trans (ih _)

theorem admits_foldl {as : List (Option ℕ × Option ℕ)} {rs : List (ℕ × ℕ)}
    (h : s.Admits exact (32 * W)) (hk : List.Forall₂ Known as rs)
    (hfits : 32 * rs.foldl touch W < 2 ^ 64) :
    (as.foldl .access s).Admits exact (32 * rs.foldl touch W) := by
  induction hk generalizing s W with
  | nil => exact h
  | @cons _ r _ rs ha _ ih =>
    rw [List.foldl_cons] at hfits ⊢
    have hle := le_foldl_touch (touch W r) rs
    exact ih (admits_touch h ha (lt_of_le_of_lt (Nat.mul_le_mul_left 32 hle) hfits)) hfits

theorem exists_known {as : List (Option ℕ × Option ℕ)} {rs : List (ℕ × ℕ)}
    (h : List.Forall₂ Known as rs) {a : Option ℕ × Option ℕ} (ha : a ∈ as) :
    ∃ r ∈ rs, Known a r := by
  induction h with
  | nil => cases ha
  | @cons a' r' _ _ hk _ ih =>
    rcases List.mem_cons.mp ha with rfl | ha
    · exact ⟨r', List.mem_cons_self, hk⟩
    · obtain ⟨r, hr, hk⟩ := ih ha
      exact ⟨r, List.mem_cons_of_mem _ hr, hk⟩

theorem numWords_le_foldl_touch {rs : List (ℕ × ℕ)} {r : ℕ × ℕ} (hr : r ∈ rs) (h0 : r.2 ≠ 0)
    (W : ℕ) : numWords (r.1 + r.2) ≤ rs.foldl touch W := by
  induction rs generalizing W with
  | nil => cases hr
  | cons r' rs ih =>
    rcases List.mem_cons.mp hr with rfl | hr
    · have htouch : touch W r = max W (numWords (r.1 + r.2)) := if_neg h0
      have hle := le_foldl_touch (touch W r) rs
      rw [List.foldl_cons]
      omega
    · exact ih hr _

end Sizes

/-! ## Steps -/

def Measured (f : Interpreter) : Prop := Looks f.stack f.memory f.memoryGas.wordsNum f

/-- What an instruction may do to a frame. An instruction that compiled code translates does what
the interpreter does; an instruction of the host may do anything but shrink the memory, which it
expands as the interpreter does. -/
inductive Executes [Keccak] (bc : Bytecode) (env : FrameEnv) (i : ℕ) (f f' : Interpreter) : Prop
  | inst {op : OpCode} (hhost : (bc.inst i).flags.host = false)
    (hok : (bc.inst i).flags.disabled = false ∧ (bc.inst i).flags.unknown = false)
    (hop : (bc.inst i).opcode = some op)
    (hcode : OpCode.new (env.message.code.byteAt f.pc) = some op)
    (hstack : op.stackIo.1 ≤ f.stack.length)
    (hret : ((SysInstr.step env).run f).MayReturn (.ok (), f'))
  | host (hhost : (bc.inst i).flags.host = true) (hmeasured : Measured f')
    (hle : f.memory.length ≤ f'.memory.length)

section Steps

variable {env : FrameEnv} {op : OpCode} {ws S : List Word} {M : Bytes} {W : ℕ}

theorem triple_exchange_measured (n k : ℕ) :
    Triple (fun f => Measured f ∧ f.memoryGas.wordsNum = W)
      (Instr.exchange n k : SimpleInstr Unit) fun _ f =>
        Measured f ∧ f.memoryGas.wordsNum = W :=
  .read fun _ _ => .ite (fun _ => .stop) fun _ => .modify fun _ h =>
    ⟨⟨rfl, rfl, rfl, h.1.length, h.1.fits⟩, h.2⟩

theorem measured_of_looks {f : Interpreter} (h : Looks S M W f) :
    Measured f ∧ f.memoryGas.wordsNum = W := by
  refine ⟨⟨rfl, rfl, rfl, ?_, ?_⟩, h.words⟩
  · rw [h.memory, h.words]
    exact h.length
  · rw [h.words]
    exact h.fits

variable [Keccak]

theorem triple_execute_words (hlen : ws.length = op.stackIo.1) :
    Triple (Looks (ws ++ S) M W) (SysInstr.execute env op) fun _ f =>
      Measured f ∧ f.memoryGas.wordsNum = (op.accessed ws).foldl touch W := by
  have hother : op ≠ .swapn → op ≠ .exchange → op.accessed ws = op.memAccesses ws →
      Triple (Looks (ws ++ S) M W) (SysInstr.execute env op) fun _ f =>
        Measured f ∧ f.memoryGas.wordsNum = (op.accessed ws).foldl touch W := by
    intro hn hx hacc
    refine (SysInstr.triple_execute hlen hn hx).conseq (fun _ h => h) fun _ f hf => ?_
    obtain ⟨bytes, -, outs, -, hf⟩ := hf
    rw [hacc]
    exact measured_of_looks hf
  cases op with
  | swapn =>
    exact (SimpleInstr.triple_lift (.bind SimpleInstr.triple_decodeImmediate fun n =>
      triple_exchange_measured 0 n)).conseq (fun f hf => measured_of_looks hf) fun _ _ h => h
  | exchange =>
    exact (SimpleInstr.triple_lift (.bind SimpleInstr.triple_decodeImmediate
      fun nm : ℕ × ℕ => triple_exchange_measured nm.1 nm.2)).conseq
        (fun f hf => measured_of_looks hf) fun _ _ h => h
  | «return» | revert => exact SimpleInstr.triple_lift SimpleInstr.triple_returnInner
  | _ => exact hother nofun nofun rfl

/-- **The size of the memory after a turn of the interpreter.** -/
theorem triple_step (hlen : ws.length = op.stackIo.1) :
    Triple (fun f => OpCode.new (env.message.code.byteAt f.pc) = some op ∧ Looks (ws ++ S) M W f)
      (SysInstr.step env) fun _ f =>
        Measured f ∧ f.memoryGas.wordsNum = (op.accessed ws).foldl touch W := by
  refine .read fun f hf => ?_
  rw [hf.1]
  dsimp only
  rcases env.opcodes.staticGas op with _ | cost
  · exact .stop
  · refine .bind (SysInstr.triple_spend _ _) fun _ => .bind ((triple_execute_words hlen).conseq
      (fun _ h => h.2) fun _ _ h => h) fun _ => .modify fun f h => ?_
    exact ⟨⟨rfl, rfl, rfl, h.1.length, h.1.fits⟩, h.2⟩

variable {bc : Bytecode} {i : ℕ} {f f' : Interpreter}

theorem Executes.words (h : Executes bc env i f f') (hf : Measured f)
    (hhost : (bc.inst i).flags.host = false) :
    ∃ op ws S, (bc.inst i).opcode = some op ∧ f.stack = ws ++ S ∧ ws.length = op.stackIo.1 ∧
      ((bc.inst i).flags.disabled = false ∧ (bc.inst i).flags.unknown = false) ∧
      Measured f' ∧ f'.memoryGas.wordsNum = (op.accessed ws).foldl touch f.memoryGas.wordsNum := by
  cases h with
  | host h => exact absurd (h.symm.trans hhost) (by decide)
  | @inst op _ hok hop hcode hstack hret =>
    have hsplit := List.take_append_drop op.stackIo.1 f.stack
    have hlen : (f.stack.take op.stackIo.1).length = op.stackIo.1 := List.length_take_of_le hstack
    have hlooks : Looks (f.stack.take op.stackIo.1 ++ f.stack.drop op.stackIo.1) f.memory
        f.memoryGas.wordsNum f := by
      rw [hsplit]
      exact hf
    have hpost := (triple_step hlen f ⟨hcode, hlooks⟩).of_mayReturn (fun _ _ => trivial) hret
    exact ⟨op, _, _, hop, hsplit.symm, hlen, hok, hpost () rfl⟩

theorem admits_step {exact : Prop} {s : BlockMemoryState} (h : Executes bc env i f f')
    (hf : Measured f) (hsnap : SnapshotsHold bc i f) (hs : s.Admits exact f.memory.length)
    (hhost : exact → (bc.inst i).flags.host = true → f'.memory.length = f.memory.length) :
    Measured f' ∧
      ((bc.constMemoryAccesses i).foldl .access s).Admits exact f'.memory.length := by
  rcases hflag : (bc.inst i).flags.host with _ | _
  · obtain ⟨op, ws, S, hop, hstack, hlen, hok, hf', hwords⟩ := h.words hf hflag
    have hknown := constMemoryAccesses_known hsnap hstack hlen hop hflag hok
    refine ⟨hf', ?_⟩
    have hfits := hf'.fits
    rw [hwords] at hfits
    rw [hf'.length, hwords]
    rw [hf.length] at hs
    exact admits_foldl hs hknown hfits
  · have hnone : bc.constMemoryAccesses i = [] := by
      unfold Bytecode.constMemoryAccesses
      dsimp only
      rw [hflag, Bool.or_true, if_pos rfl]
    rw [hnone]
    cases h with
    | inst hno => exact absurd (hflag.symm.trans hno) (by decide)
    | host _ hf' hle =>
      obtain ⟨known, hknown, hsize, hexact⟩ := hs
      refine ⟨hf', known, hknown, hsize.trans hle, fun he e h => ?_⟩
      rw [hhost he hflag]
      exact hexact he e h

end Steps

/-! ## Runs -/

/-- A run from `c₀` on which the analysis is sound: it starts with no memory at the first block,
its steps execute instructions, control follows the edges of the blocks, and the snapshots know the
operands. -/
structure SoundRun [Keccak] (bc : Bytecode) (cfg : Cfg) (env : FrameEnv)
    (step : ℕ × Interpreter → ℕ × Interpreter → Prop) (c₀ : ℕ × Interpreter) : Prop where
  blocks : 0 < cfg.blocks.length
  start : c₀.1 = (cfg.block 0).start
  memory : c₀.2.memory = [] ∧ c₀.2.memoryGas.wordsNum = 0
  executes : ∀ {c c'}, Relation.ReflTransGen step c₀ c → step c c' → Executes bc env c.1 c.2 c'.2
  edge : ∀ {c c'}, Relation.ReflTransGen step c₀ c → step c c' → cfg.Edge bc c.1 c'.1
  snapshots : ∀ {c}, Relation.ReflTransGen step c₀ c → SnapshotsHold bc c.1 c.2

section Runs

variable {bc : Bytecode} {cfg : Cfg} {env : FrameEnv}
  {step : ℕ × Interpreter → ℕ × Interpreter → Prop} {c₀ : ℕ × Interpreter} {exact : Prop}

theorem entryStates_of_edge {b i j size : ℕ} (hi : cfg.Inside b i) (hedge : cfg.Edge bc i j)
    (h : (stateAt bc cfg b (i + 1)).Admits exact size) :
    ∃ b', cfg.Inside b' j ∧ (stateAt bc cfg b' j).Admits exact size := by
  obtain ⟨b₁, hi₁, hedge⟩ := hedge
  obtain rfl := hi.unique hi₁
  rcases hedge with ⟨hj, rfl⟩ | ⟨hstop, b', hb', rfl, hnext⟩
  · exact ⟨b, hj, h⟩
  · refine ⟨b', Cfg.inside_start hb', ?_⟩
    rw [hstop, stateAt_stop] at h
    rw [stateAt_start]
    refine entryStates_edge h (hnext.imp_right ?_)
    rintro ⟨hdyn, hjump, hdest⟩
    have hterm : (cfg.block b).terminator = i := by
      unfold BlockData.terminator
      omega
    constructor
    · unfold isDynamicJumpBlock
      rw [hdyn, hterm, hjump, decide_eq_true hi.1]
      rfl
    · unfold dynamicJumpTargets
      rw [if_pos hdyn]
      refine List.mem_filter.mpr ⟨List.mem_range.mpr hb', ?_⟩
      unfold InstData.isReachableJumpdest
      rw [hdest]
      rfl

variable [Keccak]

/-- **Along a run, memory has a size that the analysis allows.** -/
theorem SoundRun.admits (h : SoundRun bc cfg env step c₀)
    (hhost : exact → ∀ {c c'}, Relation.ReflTransGen step c₀ c → step c c' →
      (bc.inst c.1).flags.host = true → c'.2.memory.length = c.2.memory.length)
    {c : ℕ × Interpreter} (hc : Relation.ReflTransGen step c₀ c) :
    Measured c.2 ∧ ∃ b, cfg.Inside b c.1 ∧
      (stateAt bc cfg b c.1).Admits exact c.2.memory.length := by
  induction hc with
  | refl =>
    refine ⟨⟨rfl, rfl, rfl, ?_, ?_⟩, 0, ?_, ?_⟩
    · rw [h.memory.1, h.memory.2]
      rfl
    · rw [h.memory.2]
      decide
    · rw [h.start]
      exact Cfg.inside_start h.blocks
    · rw [h.start, stateAt_start, h.memory.1]
      exact entryStates_zero
  | @tail c c' hc hstep ih =>
    obtain ⟨hf, b, hi, hadmits⟩ := ih
    obtain ⟨hf', hadmits'⟩ := admits_step (h.executes hc hstep) hf (h.snapshots hc) hadmits
      fun he => hhost he hc hstep
    rw [← stateAt_succ hi.2.1] at hadmits'
    exact ⟨hf', entryStates_of_edge hi (h.edge hc hstep) hadmits'⟩

/-- **Direct resizes expand the memory**, in every run in which no instruction of the host changes
the size of the memory: an instruction with such a size finds the memory smaller and leaves it of
that size or, if there are other accesses, at least of that size. -/
theorem directResize_expands (h : SoundRun bc cfg env step c₀)
    (hhost : ∀ {c c'}, Relation.ReflTransGen step c₀ c → step c c' →
      (bc.inst c.1).flags.host = true → c'.2.memory.length = c.2.memory.length)
    {i : ℕ} {f : Interpreter} (hc : Relation.ReflTransGen step c₀ (i, f)) {op : OpCode}
    (hop : (bc.inst i).opcode = some op) (hstack : op.stackIo.1 ≤ f.stack.length)
    (hd : (memorySections bc cfg i).directResizeSize ≠ 0) :
    f.memory.length < (memorySections bc cfg i).directResizeSize ∧
      ∃ a ∈ op.accessed (f.stack.take op.stackIo.1),
        min (32 * numWords (a.1 + a.2)) (2 ^ 64 - 32) =
          (memorySections bc cfg i).directResizeSize ∧
        ∀ f', Executes bc env i f f' →
          32 * numWords (a.1 + a.2) = (memorySections bc cfg i).directResizeSize ∧
          (memorySections bc cfg i).directResizeSize ≤ f'.memory.length ∧
          (op.accessed (f.stack.take op.stackIo.1) = [a] →
            f'.memory.length = (memorySections bc cfg i).directResizeSize) := by
  obtain ⟨hf, b, hi, known, hknown, -, hexact⟩ :
      Measured f ∧ ∃ b, cfg.Inside b i ∧ (stateAt bc cfg b i).Admits True f.memory.length :=
    h.admits (fun _ => hhost) hc
  have hsome : (stateAt bc cfg b i).knownSize ≠ none := by
    rw [hknown]
    exact nofun
  rw [memorySections_eq hi hsome] at hd ⊢
  obtain ⟨a, ha, hsize, e, he, hlt⟩ := saved_direct hd
  have he := hexact trivial e he
  generalize (saved (stateAt bc cfg b i) (bc.constMemoryAccesses i)).1.directResizeSize = d at *
  -- An instruction with an access is neither disabled nor unknown nor one of the host.
  have hflags : ((bc.inst i).flags.disabled || (bc.inst i).flags.unknown ||
      (bc.inst i).flags.host) = false := by
    by_contra hne
    unfold Bytecode.constMemoryAccesses at ha
    dsimp only at ha
    rw [if_pos (Bool.not_eq_false _ ▸ hne)] at ha
    cases ha
  simp only [Bool.or_eq_false_iff] at hflags
  have hsplit := (List.take_append_drop op.stackIo.1 f.stack).symm
  have hlen : (f.stack.take op.stackIo.1).length = op.stackIo.1 := List.length_take_of_le hstack
  obtain ⟨r, hr, hk⟩ := exists_known
    (constMemoryAccesses_known (h.snapshots hc) hsplit hlen hop hflags.2 hflags.1) ha
  obtain ⟨h0, hmin⟩ : r.2 ≠ 0 ∧ d = min (32 * numWords (r.1 + r.2)) (2 ^ 64 - 32) :=
    (exactMemorySizeForAccess_known hk hsize).resolve_left fun h => hd h.2
  refine ⟨by omega, r, hr, hmin.symm, fun f' hexec => ?_⟩
  obtain ⟨op', ws, S, hop', hstack', hlen', -, hf', hwords⟩ := hexec.words hf hflags.2
  obtain rfl : op = op' := Option.some.inj (hop.symm.trans hop')
  obtain rfl : ws = f.stack.take op.stackIo.1 := by
    rw [hstack', ← hlen', List.take_left']
    rfl
  have hle := numWords_le_foldl_touch hr h0 f.memoryGas.wordsNum
  have hfits := hf'.fits
  have hlength := hf'.length
  have hlength₀ := hf.length
  refine ⟨by omega, by omega, fun hone => ?_⟩
  have htouch : touch f.memoryGas.wordsNum r =
      max f.memoryGas.wordsNum (numWords (r.1 + r.2)) := if_neg h0
  rw [hone] at hwords
  change f'.memoryGas.wordsNum = touch f.memoryGas.wordsNum r at hwords
  omega

end Runs

/-! ## Runs with a load -/

def zeroFrame (pc : ℕ) (stack : List Word) (words : ℕ) : Interpreter :=
  { Interpreter.init with pc, stack, memory := .replicate (32 * words) 0, memoryGas := ⟨words, 0⟩ }

def codeEnv (code : Bytes) : FrameEnv :=
  ⟨.base .osaka, ⟨fun _ => some 3⟩, .default, .default,
    { Message.default with code := .newLegacy code }⟩

def oneBlock (n : ℕ) (hn : 0 < n) : Cfg where
  blocks := [⟨0, n, []⟩]
  nonempty := by
    intro b hb
    rw [List.mem_singleton.mp hb]
    exact hn
  sorted := List.pairwise_singleton _ _
  succs_lt := by
    intro b hb s hs
    rw [List.mem_singleton.mp hb] at hs
    cases hs

def loadZero : Bytecode where
  insts := [{ opcode := some (.push 0) }, { opcode := some .mload }]
  constOperand
    | 1, 0 => some 0
    | _, _ => none

def loadZeroStep (c c' : ℕ × Interpreter) : Prop :=
  c = (0, zeroFrame 0 [] 0) ∧ c' = (1, zeroFrame 1 [0] 0)

theorem soundRun_loadZero :
    @SoundRun Keccak.const loadZero (oneBlock 2 (by decide)) (codeEnv [0x5f, 0x51]) loadZeroStep
      (0, zeroFrame 0 [] 0) := by
  let _ : Keccak := Keccak.const
  refine ⟨by decide, rfl, ⟨rfl, rfl⟩, ?_, ?_, ?_⟩
  · rintro c c' - ⟨rfl, rfl⟩
    exact .inst rfl ⟨rfl, rfl⟩ rfl rfl (by decide) (.later true .here)
  · rintro c c' - ⟨rfl, rfl⟩
    refine ⟨0, ?_, .inl ?_⟩ <;> unfold Cfg.Inside <;> decide
  · intro c hc depth value hvalue
    rcases hc.cases_tail with rfl | ⟨c', -, -, rfl⟩
    · cases hvalue
    · match depth, hvalue with
      | 0, hvalue => exact hvalue

theorem directResize_expands_loadZero :
    (memorySections loadZero (oneBlock 2 (by decide)) 1).directResizeSize = 32 ∧
      (zeroFrame 1 [0] 0).memory.length < 32 := by
  have hd : (memorySections loadZero (oneBlock 2 (by decide)) 1).directResizeSize = 32 := by
    decide +kernel
  have h := @directResize_expands loadZero (oneBlock 2 (by decide)) (codeEnv [0x5f, 0x51])
    loadZeroStep (0, zeroFrame 0 [] 0) Keccak.const soundRun_loadZero
    (by rintro c c' - ⟨rfl, rfl⟩ hhost; cases hhost) 1 (zeroFrame 1 [0] 0) (.single ⟨rfl, rfl⟩)
    .mload rfl (by decide) (by rw [hd]; decide)
  rw [hd] at h
  exact ⟨hd, h.1⟩

def logThenLoad : Bytecode where
  insts := [{ opcode := some (.push 1) }, { opcode := some (.push 0) },
    { opcode := some (.log 0), flags := { host := true } }, { opcode := some (.push 0) },
    { opcode := some .mload }]
  constOperand
    | 2, 0 => some 0
    | 2, 1 => some 64
    | 4, 0 => some 0
    | _, _ => none

def logThenLoadStep (c c' : ℕ × Interpreter) : Prop :=
  (c, c') ∈ [((0, zeroFrame 0 [] 0), (1, zeroFrame 2 [64] 0)),
    ((1, zeroFrame 2 [64] 0), (2, zeroFrame 3 [0, 64] 0)),
    ((2, zeroFrame 3 [0, 64] 0), (3, zeroFrame 4 [] 2)),
    ((3, zeroFrame 4 [] 2), (4, zeroFrame 5 [0] 2))]

def logThenLoadEnv : FrameEnv := codeEnv [0x60, 0x40, 0x5f, 0xa0, 0x5f, 0x51]

theorem soundRun_logThenLoad :
    @SoundRun Keccak.const logThenLoad (oneBlock 5 (by decide)) logThenLoadEnv logThenLoadStep
      (0, zeroFrame 0 [] 0) := by
  let _ : Keccak := Keccak.const
  refine ⟨by decide, rfl, ⟨rfl, rfl⟩, ?_, ?_, ?_⟩
  · intro c c' _ hstep
    simp only [logThenLoadStep, List.mem_cons, Prod.mk.injEq, List.not_mem_nil, or_false] at hstep
    rcases hstep with ⟨rfl, rfl⟩ | ⟨rfl, rfl⟩ | ⟨rfl, rfl⟩ | ⟨rfl, rfl⟩
    · exact .inst rfl ⟨rfl, rfl⟩ rfl rfl (by decide) (.later true .here)
    · exact .inst rfl ⟨rfl, rfl⟩ rfl rfl (by decide) (.later true .here)
    · exact .host rfl ⟨rfl, rfl, rfl, rfl, by decide⟩ (by decide)
    · exact .inst rfl ⟨rfl, rfl⟩ rfl rfl (by decide) (.later true .here)
  · intro c c' _ hstep
    simp only [logThenLoadStep, List.mem_cons, Prod.mk.injEq, List.not_mem_nil, or_false] at hstep
    refine ⟨0, ?_, .inl ?_⟩ <;>
      rcases hstep with ⟨rfl, rfl⟩ | ⟨rfl, rfl⟩ | ⟨rfl, rfl⟩ | ⟨rfl, rfl⟩ <;>
      unfold Cfg.Inside <;> decide
  · intro c hc depth value hvalue
    rcases hc.cases_tail with rfl | ⟨c', -, hstep⟩
    · cases hvalue
    · simp only [logThenLoadStep, List.mem_cons, Prod.mk.injEq, List.not_mem_nil, or_false] at hstep
      rcases hstep with ⟨-, rfl⟩ | ⟨-, rfl⟩ | ⟨-, rfl⟩ | ⟨-, rfl⟩
      · cases hvalue
      · rcases depth with _ | _ | depth
        · exact hvalue
        · exact hvalue
        · cases hvalue
      · cases hvalue
      · rcases depth with _ | depth
        · exact hvalue
        · cases hvalue

/-- After `LOG0` of the host has expanded the memory to 64 bytes, `MLOAD` resizes it to 32 bytes. -/
theorem directResize_below_memory :
    @SoundRun Keccak.const logThenLoad (oneBlock 5 (by decide)) logThenLoadEnv logThenLoadStep
      (0, zeroFrame 0 [] 0) ∧
    Relation.ReflTransGen logThenLoadStep (0, zeroFrame 0 [] 0) (4, zeroFrame 5 [0] 2) ∧
    (memorySections logThenLoad (oneBlock 5 (by decide)) 4).directResizeSize = 32 ∧
    (zeroFrame 5 [0] 2).memory.length = 64 := by
  refine ⟨soundRun_logThenLoad, ?_, by decide +kernel, by decide⟩
  refine .head (b := (1, zeroFrame 2 [64] 0)) (by simp [logThenLoadStep]) ?_
  refine .head (b := (2, zeroFrame 3 [0, 64] 0)) (by simp [logThenLoadStep]) ?_
  refine .head (b := (3, zeroFrame 4 [] 2)) (by simp [logThenLoadStep]) ?_
  exact .single (by simp [logThenLoadStep])

end Jit

end Evm2
