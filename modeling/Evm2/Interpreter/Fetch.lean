import Evm2.Interpreter.Counter
import Evm2.Interpreter.Run

/-!
# Fetching from padded code

The interpreter reads opcodes and immediates through an unchecked pointer into the code, which is
padded with zeros. Here a read outside the padded code has no result.
-/

namespace Evm2

/-! ## Padding -/

def PADDING : ℕ := 33

def padLegacy (bytecode : Bytes) : Bytes :=
  if bytecode.isEmpty then [0x00#8]
  else if List.replicate PADDING 0x00#8 <:+ bytecode then bytecode
  else bytecode ++ List.replicate PADDING 0x00#8

def fetch (buffer : Bytes) (pc : ℕ) : Option Byte := buffer[pc]?

def readBytesOffset (buffer : Bytes) (pc offset n : ℕ) : Option Bytes :=
  if pc + offset + n ≤ buffer.length then some ((buffer.drop (pc + offset)).take n) else none

/-! ## Pushing bytes -/

def Word.fromLimbs (limbs : List ℕ) : Word := BitVec.ofNat 256 (Nat.ofDigits (2 ^ 64) limbs)

def asChunks (n : ℕ) (slice : Bytes) : List Bytes × Bytes :=
  ((List.range (slice.length / n)).map fun i => (slice.drop (i * n)).take n,
    slice.drop (slice.length / n * n))

def asRchunks (n : ℕ) (slice : Bytes) : Bytes × List Bytes :=
  (slice.take (slice.length % n), (asChunks n (slice.drop (slice.length % n))).1)

def limbOfBytes (bytes : Bytes) : ℕ := ofBeBytes (List.replicate (8 - bytes.length) 0 ++ bytes)

def partialWord (bytes : Bytes) : Word :=
  let (partialLimb, fullLimbs) := asRchunks 8 bytes
  let limbs := fullLimbs.reverse.map ofBeBytes
  .fromLimbs (if partialLimb.isEmpty then limbs else limbs ++ [limbOfBytes partialLimb])

def sliceWords (slice : Bytes) : List Word :=
  let (words, partialLastWord) := asChunks 32 slice
  (words.map fun w => BitVec.ofNat 256 (ofBeBytes w)) ++
    if partialLastWord.isEmpty then [] else [partialWord partialLastWord]

namespace Instr

variable {Req : Type} {Resp : Req → Type} {α β : Type}

def pushSlice (slice : Bytes) : Instr Req Resp Unit :=
  if slice.isEmpty then pure ()
  else if slice.length ≤ 8 then push (BitVec.ofNat 256 (limbOfBytes slice))
  else do
    let nWords := (slice.length + 31) / 32
    if STACK_LIMIT < (← get).stack.length + nWords then stop .stackOverflow
    else modify fun f => { f with stack := (sliceWords slice).reverse ++ f.stack }

end Instr

theorem limbOfBytes_eq (bytes : Bytes) : limbOfBytes bytes = ofBeBytes bytes := by
  rw [limbOfBytes, ofBeBytes_append, ofBeBytes_zeros, Nat.zero_mul, Nat.zero_add]

theorem flatten_chunks (n : ℕ) (slice : Bytes) (k : ℕ) :
    ((List.range k).map fun i => (slice.drop (i * n)).take n).flatten = slice.take (k * n) := by
  induction k with
  | zero => simp
  | succ k ih =>
    rw [List.range_succ, List.map_append, List.flatten_append, ih, Nat.succ_mul, List.take_add]
    simp

theorem ofDigits_limbs {limbs : List Bytes} (h : ∀ l ∈ limbs, l.length = 8) :
    Nat.ofDigits (2 ^ 64) (limbs.reverse.map ofBeBytes) = ofBeBytes limbs.flatten := by
  induction limbs using List.reverseRecOn with
  | nil => rfl
  | append_singleton limbs l ih =>
    have hl : l.length = 8 := h l (by simp)
    have hlimbs : ∀ l ∈ limbs, l.length = 8 := fun l hl => h l (by simp [hl])
    rw [List.reverse_append, List.flatten_append, ofBeBytes_append]
    simp only [List.reverse_singleton, List.singleton_append, List.map_cons, Nat.ofDigits_cons,
      ih hlimbs, List.flatten_singleton, hl]
    push_cast
    ring

theorem length_asChunks (n : ℕ) (slice : Bytes) : ∀ c ∈ (asChunks n slice).1, c.length = n := by
  intro c hc
  obtain ⟨i, hi, rfl⟩ := List.mem_map.mp hc
  have hi' : (i + 1) * n ≤ slice.length :=
    (Nat.mul_le_mul_right n (List.mem_range.mp hi)).trans (Nat.div_mul_le_self _ _)
  rw [List.length_take, List.length_drop]
  rw [Nat.succ_mul] at hi'
  omega

theorem partialWord_eq (bytes : Bytes) :
    partialWord bytes = BitVec.ofNat 256 (ofBeBytes bytes) := by
  set r := bytes.length % 8 with hr
  have hflat : (asChunks 8 (bytes.drop r)).1.flatten = bytes.drop r := by
    have hdiv : (bytes.drop r).length / 8 * 8 = (bytes.drop r).length := by
      rw [List.length_drop]
      omega
    unfold asChunks
    rw [flatten_chunks, hdiv, List.take_length]
  have hlimbs := ofDigits_limbs (length_asChunks 8 (bytes.drop r))
  rw [hflat] at hlimbs
  unfold partialWord asRchunks Word.fromLimbs
  dsimp only
  rw [← hr]
  congr 1
  split_ifs with hempty
  · rw [hlimbs]
    have h0 : bytes.take r = [] := List.isEmpty_iff.mp hempty
    conv_rhs => rw [← List.take_append_drop r bytes, h0]
    rfl
  · rw [Nat.ofDigits_append, hlimbs, limbOfBytes_eq, Nat.ofDigits_singleton]
    conv_rhs => rw [← List.take_append_drop r bytes, ofBeBytes_append]
    have hcount : (asChunks 8 (bytes.drop r)).1.length = (bytes.drop r).length / 8 := by
      simp [asChunks]
    have hpow : 256 ^ (bytes.drop r).length = (2 ^ 64) ^ ((bytes.drop r).length / 8) := by
      have hlen : (bytes.drop r).length = 8 * ((bytes.drop r).length / 8) := by
        rw [List.length_drop]
        omega
      conv_lhs => rw [hlen, pow_mul]
      norm_num
    rw [List.length_map, List.length_reverse, hcount, hpow]
    ring

namespace Instr

variable {Req : Type} {Resp : Req → Type} {f : Interpreter}

theorem sliceWords_eq {slice : Bytes} (h0 : slice.isEmpty = false) (h32 : slice.length ≤ 32) :
    sliceWords slice = [BitVec.ofNat 256 (ofBeBytes slice)] := by
  by_cases hfull : slice.length = 32
  · simp [sliceWords, asChunks, hfull, List.take_of_length_le]
  · have hdiv : slice.length / 32 = 0 := by omega
    simp [sliceWords, asChunks, hdiv, h0, partialWord_eq]

theorem run_push (w : Word) :
    (push w : Instr Req Resp Unit).run f = pure (.error .stackOverflow, f) ∨
      (push w : Instr Req Resp Unit).run f =
        pure (.ok (), { f with stack := w :: f.stack }) := by
  by_cases hfull : f.stack.length = STACK_LIMIT
  · exact .inl (congrArg (fun x : Instr Req Resp Unit => x.run f) (if_pos hfull))
  · exact .inr (congrArg (fun x : Instr Req Resp Unit => x.run f) (if_neg hfull))

theorem run_pushSlice {slice : Bytes} (h0 : slice.isEmpty = false) (h32 : slice.length ≤ 32) :
    (pushSlice slice : Instr Req Resp Unit).run f = pure (.error .stackOverflow, f) ∨
      (pushSlice slice : Instr Req Resp Unit).run f =
        pure (.ok (), { f with stack := BitVec.ofNat 256 (ofBeBytes slice) :: f.stack }) := by
  unfold pushSlice
  rw [h0, if_neg Bool.false_ne_true]
  by_cases h8 : slice.length ≤ 8
  · rw [if_pos h8, limbOfBytes_eq]
    exact run_push _
  · rw [if_neg h8, sliceWords_eq h0 h32]
    by_cases hfull : STACK_LIMIT < f.stack.length + (slice.length + 31) / 32
    · exact .inl (congrArg (fun x : Instr Req Resp Unit => x.run f) (if_pos hfull))
    · exact .inr (congrArg (fun x : Instr Req Resp Unit => x.run f) (if_neg hfull))

end Instr

/-! ## The dispatch loop over the padded code -/

namespace SysInstr

variable [Keccak] (env : FrameEnv) (buffer : Bytes)

def decodeByte {α : Type} (decode : ℕ → Option α) (b : Byte) : SysInstr α :=
  match decode b.toNat with
  | some a => pure a
  | none => Instr.stop .invalidImmediateEncoding

def executeUnchecked (pc : ℕ) : OpCode → Option (SysInstr Unit)
  | .push n =>
    if n = 0 then some (Instr.push 0) else (readBytesOffset buffer pc 1 n).map Instr.pushSlice
  | .dupn => (readBytesOffset buffer pc 1 1).map fun imm => do
    Instr.dup (← decodeByte decodeSingle (imm.headD 0))
  | .swapn => (readBytesOffset buffer pc 1 1).map fun imm => do
    Instr.swap (← decodeByte decodeSingle (imm.headD 0))
  | .exchange => (readBytesOffset buffer pc 1 1).map fun imm => do
    let nm ← decodeByte decodePair (imm.headD 0)
    Instr.exchange nm.1 nm.2
  | op => some (execute env op)

/-- One turn of the dispatch loop. It has no result if it can read outside the buffer. -/
def stepUnchecked (f : Interpreter) : Option (SysInstr Unit) := do
  match OpCode.new (← fetch buffer f.pc) with
  | none => return Instr.stop .opcodeNotFound
  | some op =>
    match env.opcodes.staticGas op with
    | none => return Instr.stop (if op = .invalid then .invalidFEOpcode else .notActivated)
    | some cost =>
      let instr ← executeUnchecked env buffer f.pc op
      return do
        spend cost.toNat
        instr
        Instr.modify fun f => { f with pc := f.pc + op.instructionLen }

/-- A turn from `f` that does not stop leads to `f'`, for some answers to its requests. -/
def Turn (f f' : Interpreter) : Prop :=
  ∃ x, stepUnchecked env buffer f = some x ∧ (x.run f).MayReturn (.ok (), f')

end SysInstr

/-! ## The padded code -/

variable {code : Bytes}

theorem padLegacy_eq (code : Bytes) : ∃ k, padLegacy code = code ++ List.replicate k 0 := by
  unfold padLegacy
  by_cases h0 : code.isEmpty
  · rw [if_pos h0, List.isEmpty_iff.mp h0]
    exact ⟨1, rfl⟩
  · rw [if_neg h0]
    by_cases hz : List.replicate PADDING 0x00#8 <:+ code
    · rw [if_pos hz]
      exact ⟨0, (List.append_nil code).symm⟩
    · rw [if_neg hz]
      exact ⟨PADDING, rfl⟩

theorem length_le_padLegacy (code : Bytes) : code.length ≤ (padLegacy code).length := by
  obtain ⟨k, hk⟩ := padLegacy_eq code
  rw [hk, List.length_append]
  exact Nat.le_add_right _ _

theorem padLegacy_last (code : Bytes) : 0 < (padLegacy code).length ∧
    ∀ pc b, fetch (padLegacy code) pc = some b → (padLegacy code).length ≤ pc + PADDING →
      b = 0 := by
  have hzeros : ∀ bytes pc b, List.replicate PADDING 0x00#8 <:+ bytes →
      fetch bytes pc = some b → bytes.length ≤ pc + PADDING → b = 0 := by
    rintro _ pc b ⟨front, rfl⟩ hb hpc
    rw [List.length_append, List.length_replicate] at hpc
    unfold fetch at hb
    rw [List.getElem?_append_right (by omega)] at hb
    exact List.eq_of_mem_replicate (List.mem_of_getElem? hb)
  unfold padLegacy
  by_cases h0 : code.isEmpty
  · rw [if_pos h0]
    refine ⟨Nat.one_pos, fun pc b hb _ => ?_⟩
    exact List.mem_singleton.mp (List.mem_of_getElem? hb)
  · rw [if_neg h0]
    have hpos : 0 < code.length := List.length_pos_iff.mpr fun h => h0 (List.isEmpty_iff.mpr h)
    by_cases hz : List.replicate PADDING 0x00#8 <:+ code
    · rw [if_pos hz]
      exact ⟨hpos, fun pc b => hzeros code pc b hz⟩
    · rw [if_neg hz]
      refine ⟨?_, fun pc b => hzeros _ pc b (List.suffix_append _ _)⟩
      rw [List.length_append]
      exact Nat.add_pos_left hpos _

theorem readBytesOffset_padLegacy (code : Bytes) {pc n : ℕ}
    (h : pc + 1 + n ≤ (padLegacy code).length) :
    readBytesOffset (padLegacy code) pc 1 n = some (paddedSlice code (pc + 1) n) := by
  obtain ⟨k, hk⟩ := padLegacy_eq code
  unfold readBytesOffset
  rw [if_pos h]
  rw [hk, List.length_append, List.length_replicate] at h
  simp only [hk, paddedSlice, List.drop_append, List.take_append, List.drop_replicate,
    List.take_replicate, List.length_take, List.length_drop]
  congr 3
  omega

theorem fetch_padLegacy {pc : ℕ} (hpc : pc < (padLegacy code).length) :
    fetch (padLegacy code) pc = some (code.getD pc 0) := by
  obtain ⟨k, hk⟩ := padLegacy_eq code
  rw [hk, List.length_append, List.length_replicate] at hpc
  unfold fetch
  rw [hk]
  by_cases h : pc < code.length
  · rw [List.getElem?_append_left h, List.getD_eq_getElem?_getD, List.getElem?_eq_getElem h]
    rfl
  · rw [List.getElem?_append_right (by omega), List.getElem?_replicate, if_pos (by omega),
      List.getD_eq_getElem?_getD, List.getElem?_eq_none (by omega)]
    rfl

theorem scanJumpdest_lt {skip target : ℕ} (h : scanJumpdest code skip target = true) :
    target < code.length := by
  induction code generalizing skip target with
  | nil => cases h
  | cons b bs ih =>
    cases target with
    | zero => exact Nat.succ_pos _
    | succ target => exact Nat.succ_lt_succ (ih h)

/-! ## Turns -/

theorem Instr.mayReturn_bind {Req : Type} {Resp : Req → Type} {α β : Type} {x : Instr Req Resp α}
    {g : α → Instr Req Resp β} {f f' : Interpreter} {b : β}
    (h : ((x >>= g).run f).MayReturn (.ok b, f')) :
    ∃ a f₁, (x.run f).MayReturn (.ok a, f₁) ∧ ((g a).run f₁).MayReturn (.ok b, f') := by
  obtain ⟨⟨r, f₁⟩, hx, hg⟩ := Prog.mayReturn_bind h
  cases r with
  | ok a => exact ⟨a, f₁, hx, hg⟩
  | error reason => nomatch hg

theorem SimpleInstr.jumpInner_lands {env : FrameEnv} (hcode : env.message.code = .newLegacy code)
    (target : Word) (f : Interpreter) :
    ((SimpleInstr.jumpInner env target).run f).Spec (fun _ => True) (fun _ _ => True)
      fun r => r.1 = .ok () → scanJumpdest code 0 r.2.pc = true := by
  unfold SimpleInstr.jumpInner
  by_cases hv : env.message.code.isValidJumpdest target.toUsizeSaturated
  · rw [if_pos hv]
    rw [hcode] at hv
    exact fun _ => hv
  · rw [if_neg hv]
    exact nofun

namespace SysInstr

theorem keepsPc_decodeByte {α : Type} (decode : ℕ → Option α) (b : Byte) :
    Instr.KeepsPc (decodeByte decode b) := by
  unfold decodeByte
  cases decode b.toNat with
  | none => exact .stop _
  | some a => exact .ret a

theorem keepsPc_pushSlice {Req : Type} {Resp : Req → Type} (slice : Bytes) :
    Instr.KeepsPc (Instr.pushSlice slice : Instr Req Resp Unit) :=
  .ite (.ret ()) (.ite (Instr.keepsPc_push _) (.bind .get fun _ => .ite (.stop _)
    (.modify fun _ => rfl)))

theorem spend_frame (cost : ℕ) (f : Interpreter) :
    ((spend cost).run f).Spec (fun _ => True) (fun _ _ => True) fun r => r.2 = f := by
  refine ⟨trivial, fun b _ => ?_⟩
  cases b <;> rfl

theorem lt_of_not_stop {b : Byte} {op : OpCode} {pc : ℕ} (hb : fetch (padLegacy code) pc = some b)
    (hop : OpCode.new b = some op) (hstop : op ≠ .stop) :
    pc + PADDING < (padLegacy code).length := by
  by_contra hlt
  have hb0 : b = 0 := (padLegacy_last code).2 pc b hb (Nat.le_of_not_lt hlt)
  rw [hb0] at hop
  exact hstop (Option.some.inj hop).symm

theorem instructionLen_le (op : OpCode) : op.instructionLen ≤ PADDING := by
  cases op with
  | push n => exact n.isLt
  | _ => exact Nat.le_of_ble_eq_true rfl

variable [Keccak] {env : FrameEnv} {buffer : Bytes} {f f' : Interpreter}

theorem executeUnchecked_push {pc : ℕ} {n : Fin 33} (hn : n ≠ 0) :
    executeUnchecked env buffer pc (.push n) =
      (readBytesOffset buffer pc 1 n).map Instr.pushSlice := if_neg hn

theorem keepsPc_executeUnchecked {pc : ℕ} {op : OpCode} (hj : op ≠ .jump) (hji : op ≠ .jumpi)
    {x : SysInstr Unit} (hx : executeUnchecked env buffer pc op = some x) : Instr.KeepsPc x := by
  unfold executeUnchecked at hx
  split at hx
  · rename_i n
    by_cases hn : n = 0
    · rw [if_pos hn] at hx
      cases hx
      exact Instr.keepsPc_push 0
    · rw [if_neg hn] at hx
      obtain ⟨imm, -, rfl⟩ := Option.map_eq_some_iff.mp hx
      exact keepsPc_pushSlice imm
  · obtain ⟨imm, -, rfl⟩ := Option.map_eq_some_iff.mp hx
    exact .bind (keepsPc_decodeByte _ _) fun _ => Instr.keepsPc_dup _
  · obtain ⟨imm, -, rfl⟩ := Option.map_eq_some_iff.mp hx
    exact .bind (keepsPc_decodeByte _ _) fun _ => Instr.keepsPc_exchange _ _
  · obtain ⟨imm, -, rfl⟩ := Option.map_eq_some_iff.mp hx
    exact .bind (keepsPc_decodeByte _ _) fun _ => Instr.keepsPc_exchange _ _
  · cases hx
    exact keepsPc_execute op hj hji

theorem jump_lands {code : Bytes} (hcode : env.message.code = .newLegacy code)
    (f : Interpreter) : ((execute env .jump).run f).Spec (fun _ => True) (fun _ _ => True)
      fun r => r.1 = .ok () → scanJumpdest code 0 r.2.pc = true := by
  refine Prog.Spec.interp (p := (SimpleInstr.execute env .jump).run f) ?_
    fun _ => ⟨trivial, fun _ _ => trivial⟩
  obtain ⟨pc, stack, memory, memoryGas, returnData, output⟩ := f
  cases stack with
  | nil => exact nofun
  | cons target stack => exact SimpleInstr.jumpInner_lands hcode target _

theorem jumpi_lands {code : Bytes} (hcode : env.message.code = .newLegacy code)
    (f : Interpreter) : ((execute env .jumpi).run f).Spec (fun _ => True) (fun _ _ => True)
      fun r => r.1 = .ok () → scanJumpdest code 0 r.2.pc = true ∨ r.2.pc = f.pc + 1 := by
  refine Prog.Spec.interp (p := (SimpleInstr.execute env .jumpi).run f) ?_
    fun _ => ⟨trivial, fun _ _ => trivial⟩
  obtain ⟨pc, stack, memory, memoryGas, returnData, output⟩ := f
  cases stack with
  | nil => exact nofun
  | cons target stack =>
    cases stack with
    | nil => exact nofun
    | cons cond stack =>
      change ((if cond ≠ 0 then SimpleInstr.jumpInner env target
        else Instr.modify fun f => { f with pc := f.pc + 1 }).run
          ⟨pc, stack, memory, memoryGas, returnData, output⟩).Spec _ _ _
      by_cases hc : cond ≠ 0
      · rw [if_pos hc]
        exact (SimpleInstr.jumpInner_lands hcode target _).mono fun r hr hok => .inl (hr hok)
      · rw [if_neg hc]
        exact fun _ => .inr rfl

theorem Turn.inv (h : Turn env buffer f f') : ∃ b op x f₁, fetch buffer f.pc = some b ∧
    OpCode.new b = some op ∧ (env.opcodes.staticGas op).isSome ∧
      executeUnchecked env buffer f.pc op = some x ∧ (x.run f).MayReturn (.ok (), f₁) ∧
      f' = { f₁ with pc := f₁.pc + op.instructionLen } := by
  obtain ⟨x, hx, hret⟩ := h
  unfold stepUnchecked at hx
  obtain ⟨b, hb, hx⟩ := Option.bind_eq_some_iff.mp hx
  cases hop : OpCode.new b with
  | none =>
    rw [hop] at hx
    cases hx
    nomatch hret
  | some op =>
    rw [hop] at hx
    dsimp only at hx
    cases hcost : env.opcodes.staticGas op with
    | none =>
      rw [hcost] at hx
      cases hx
      nomatch hret
    | some cost =>
      rw [hcost] at hx
      obtain ⟨instr, hinstr, hx⟩ := Option.bind_eq_some_iff.mp hx
      cases hx
      obtain ⟨_, f₀, hspend, hret⟩ := Instr.mayReturn_bind hret
      obtain ⟨_, f₁, hrun, hmove⟩ := Instr.mayReturn_bind hret
      have hf : f₀ = f := (spend_frame cost.toNat f).of_mayReturn (fun _ _ => trivial) hspend
      rw [hf] at hrun
      cases hmove
      have hdef := Option.isSome_iff_exists.mpr ⟨cost, hcost⟩
      exact ⟨b, op, instr, f₁, hb, hop, hdef, hinstr, hrun, rfl⟩

/-! ## Runs -/

section Code

variable {code : Bytes} (hcode : env.message.code = .newLegacy code)

include hcode in
/-- **A turn keeps the counter inside the padded code.** -/
theorem Turn.pc_lt (h : Turn env (padLegacy code) f f') : f'.pc < (padLegacy code).length := by
  obtain ⟨b, op, x, f₁, hb, hop, -, hx, hrun, rfl⟩ := h.inv
  have hstop : op ≠ .stop := by
    rintro rfl
    cases hx
    nomatch hrun
  have hlt := lt_of_not_stop hb hop hstop
  by_cases hj : op = .jump
  · subst hj
    cases hx
    have hv := (jump_lands hcode f).of_mayReturn (fun _ _ => trivial) hrun rfl
    exact (scanJumpdest_lt hv).trans_le (length_le_padLegacy code)
  · by_cases hji : op = .jumpi
    · subst hji
      cases hx
      rcases (jumpi_lands hcode f).of_mayReturn (fun _ _ => trivial) hrun rfl with h | h
      · exact (scanJumpdest_lt h).trans_le (length_le_padLegacy code)
      · change f₁.pc < _
        rw [h]
        unfold PADDING at hlt
        omega
    · have hpc : f₁.pc = f.pc := (keepsPc_executeUnchecked hj hji hx f).of_mayReturn
        (fun _ _ => trivial) hrun
      have hlen := instructionLen_le op
      change f₁.pc + op.instructionLen < _
      omega

theorem isSome_stepUnchecked (hpc : f.pc < (padLegacy code).length) :
    (stepUnchecked env (padLegacy code) f).isSome := by
  have hb := fetch_padLegacy hpc
  unfold stepUnchecked
  rw [hb]
  change (match OpCode.new (code.getD f.pc 0) with
    | none => _
    | some op => _ : Option (SysInstr Unit)).isSome
  cases hop : OpCode.new (code.getD f.pc 0) with
  | none => rfl
  | some op =>
    dsimp only
    cases env.opcodes.staticGas op with
    | none => rfl
    | some cost =>
      have hread : ∀ n ≤ 32, op ≠ .stop → readBytesOffset (padLegacy code) f.pc 1 n =
          some (paddedSlice code (f.pc + 1) n) := by
        intro n hn hstop
        have hlt := lt_of_not_stop hb hop hstop
        unfold PADDING at hlt
        exact readBytesOffset_padLegacy code (by omega)
      have hinstr : (executeUnchecked env (padLegacy code) f.pc op).isSome := by
        unfold executeUnchecked
        split
        · rename_i n
          by_cases hn : n = 0
          · rw [if_pos hn]
            rfl
          · rw [if_neg hn, hread n (Nat.le_of_lt_succ n.isLt) nofun]
            rfl
        all_goals first
          | rfl
          | rw [hread 1 (by decide) nofun]
            rfl
      obtain ⟨x, hx⟩ := Option.isSome_iff_exists.mp hinstr
      rw [hx]
      rfl

theorem Turn.push {b : Byte} {n : Fin 33} (hb : fetch (padLegacy code) f.pc = some b)
    (hop : OpCode.new b = some (.push n)) (h : Turn env (padLegacy code) f f') :
    f' = { f with
      pc := f.pc + (n + 1)
      stack := BitVec.ofNat 256 (ofBeBytes (paddedSlice code (f.pc + 1) n)) :: f.stack } := by
  obtain ⟨b', op, x, f₁, hb', hop', -, hx, hrun, rfl⟩ := h.inv
  cases hb.symm.trans hb'
  cases hop.symm.trans hop'
  have hlt := lt_of_not_stop hb hop nofun
  unfold PADDING at hlt
  by_cases hn : n = 0
  · subst hn
    cases hx
    have hpush : (Instr.push 0 : SysInstr Unit).run f = _ ∨ _ := Instr.run_push 0
    rcases hpush with hpush | hpush
    · rw [hpush] at hrun
      nomatch hrun
    · rw [hpush] at hrun
      cases hrun
      rfl
  · rw [executeUnchecked_push hn, readBytesOffset_padLegacy code (by omega)] at hx
    cases hx
    have hlen := length_paddedSlice code (f.pc + 1) n
    have hne : (paddedSlice code (f.pc + 1) n).isEmpty = false := by
      rw [List.isEmpty_eq_false_iff, ← List.length_pos_iff, hlen]
      exact Nat.pos_of_ne_zero fun h => hn (Fin.ext h)
    rcases Instr.run_pushSlice (f := f) hne (by omega) with hpush | hpush
    · rw [hpush] at hrun
      nomatch hrun
    · rw [hpush] at hrun
      cases hrun
      rfl

end Code

end SysInstr

open SysInstr in
/-- **Unchecked reads from padded code are safe**: no turn of the dispatch loop reads outside the
padded code, and a turn at or behind the end of the code is a `STOP`. -/
theorem padded_fetch_safe [Keccak] {env : FrameEnv} {code : Bytes} {f₀ f : Interpreter}
    (hcode : env.message.code = .newLegacy code) (h0 : f₀.pc = 0)
    (hrun : Relation.ReflTransGen (Turn env (padLegacy code)) f₀ f) :
    (stepUnchecked env (padLegacy code) f).isSome ∧
      (code.length ≤ f.pc → (fetch (padLegacy code) f.pc).bind OpCode.new = some .stop) ∧
      ∀ n f', (fetch (padLegacy code) f.pc).bind OpCode.new = some (.push n) →
        Turn env (padLegacy code) f f' →
        f' = { f with
          pc := f.pc + (n + 1)
          stack := BitVec.ofNat 256 (ofBeBytes (paddedSlice code (f.pc + 1) n)) :: f.stack } := by
  have hpc : f.pc < (padLegacy code).length := by
    induction hrun with
    | refl =>
      rw [h0]
      exact (padLegacy_last code).1
    | tail _ hturn _ => exact hturn.pc_lt hcode
  refine ⟨isSome_stepUnchecked hpc, fun hle => ?_, fun n f' hop hturn => ?_⟩
  · rw [fetch_padLegacy hpc, List.getD_eq_getElem?_getD, List.getElem?_eq_none hle]
    rfl
  · obtain ⟨b, hb, hop⟩ := Option.bind_eq_some_iff.mp hop
    exact hturn.push hb hop

def pushing : FrameEnv where
  version := .base .frontier
  opcodes := ⟨fun _ => some 3⟩
  block := .default
  tx := .default
  message := { Message.default with code := .newLegacy [0x61, 0x01] }

theorem padded_fetch_safe_push :
    letI := Keccak.const
    ∃ f', SysInstr.Turn pushing (padLegacy [0x61, 0x01]) .init f' ∧ f'.stack = [0x0100] := by
  let _ := Keccak.const
  have hturn : SysInstr.Turn pushing (padLegacy [0x61, 0x01]) .init
      { Interpreter.init with pc := 3, stack := [0x0100] } :=
    ⟨_, rfl, .later true .here⟩
  refine ⟨_, hturn, ?_⟩
  rw [(@padded_fetch_safe _ pushing _ _ _ rfl rfl .refl).2.2 2 _ rfl hturn]
  decide

end Evm2
