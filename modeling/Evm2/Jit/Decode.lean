import Evm2.Interpreter.StackIo
import Evm2.Jit.Bytecode

/-!
# Decoding bytecode

`Bytecode::new` decodes the code from its start. An immediate is skipped, unless a jump destination
of the legacy analysis is inside of it: then decoding goes on there.

* **`pairwise_decodePcs`, `mem_decodePcs_of_valid`**: the counters of the instructions
  increase, and no valid jump destination is missed.
-/

namespace Evm2.Jit

structure OpcodeInfo where
  isUnknown : Bool := false
  isDisabled : Bool := false
  isHost : Bool := false
  isUnsupportedHost : Bool := false
  baseGas : ℕ := 0

def OpcodeInfo.isUndefined (info : OpcodeInfo) : Bool :=
  info.isUnknown || info.isDisabled || info.isUnsupportedHost

def opInfoMap (spec : SpecId) (b : Byte) : OpcodeInfo :=
  match OpCode.new b with
  | none => { isUnknown := true }
  | some op =>
    match (OpcodeConfig.base spec).staticGas op with
    | some gas => { baseGas := gas.toNat }
    | none => if op = .invalid then {} else { isDisabled := true }

def minImmLen (b : Byte) : ℕ :=
  match OpCode.new b with
  | some (.push n) => n
  | some .dupn | some .swapn | some .exchange => 1
  | _ => 0

def computeStackIo (op : OpCode) (imm : ℕ) : Option (ℕ × ℕ) :=
  match op with
  | .dupn => (decodeSingle imm).map fun n => (n, n + 1)
  | .swapn => (decodeSingle imm).map fun n => (n + 1, n + 1)
  | .exchange => (decodePair imm).map fun nm => (nm.2 + 1, nm.2 + 1)
  | op => some op.stackIo

/-- An instruction with its counter and, for the opcodes that have one, its immediate. -/
structure DecodedInst where
  pc : ℕ
  data : InstData
  imm : Word := 0

section Decode

variable (infos : Byte → OpcodeInfo) (code : Bytes) (pc : ℕ)

def immEnd : ℕ :=
  let b := code.getD pc 0
  min (pc + 1 + if (infos b).isUndefined then 0 else minImmLen b) code.length

/-- Where decoding goes on: `rewind` goes back to the first jump destination in an immediate. -/
def nextPc : ℕ :=
  ((List.range' (pc + 1) (immEnd infos code pc - (pc + 1))).find? (scanJumpdest code 0)).getD
    (immEnd infos code pc)

def immValue : Word :=
  let immLen := minImmLen (code.getD pc 0)
  let avail := (code.drop (pc + 1)).take immLen
  if avail.length = immLen then BitVec.ofNat 256 (ofBeBytes avail)
  else if avail ≠ [] then
    BitVec.ofNat 256 (ofBeBytes (avail ++ List.replicate (immLen - avail.length) 0))
  else 0

def decodeAt : DecodedInst :=
  let b := code.getD pc 0
  let info := infos b
  let stackIo := if info.isUndefined then some (0, 0)
    else (OpCode.new b).elim (some (0, 0)) (computeStackIo · (code.getD (pc + 1) 0).toNat)
  { pc
    data :=
      { opcode := OpCode.new b
        flags :=
          { unknown := info.isUnknown || info.isUnsupportedHost
            disabled := info.isDisabled
            host := info.isHost
            invalidImmediate := stackIo.isNone }
        baseGas := if info.isUndefined then 0 else info.baseGas
        stackIo := stackIo.getD (0, 0) }
    imm := immValue code pc }

variable {code pc}

theorem immEnd_bounds (h : pc < code.length) :
    pc < immEnd infos code pc ∧ immEnd infos code pc ≤ code.length := by
  simp only [immEnd]
  omega

theorem nextPc_spec (h : pc < code.length) :
    pc < nextPc infos code pc ∧ nextPc infos code pc ≤ immEnd infos code pc ∧
      (∀ t, pc < t → scanJumpdest code 0 t = true → nextPc infos code pc ≤ t ∨
        immEnd infos code pc ≤ t) ∧
      (nextPc infos code pc < immEnd infos code pc →
        scanJumpdest code 0 (nextPc infos code pc) = true) := by
  obtain ⟨hlt, -⟩ := immEnd_bounds infos h
  unfold nextPc
  cases hfind : (List.range' (pc + 1) (immEnd infos code pc - (pc + 1))).find?
      (scanJumpdest code 0) with
  | none =>
    rw [List.find?_range'_eq_none] at hfind
    refine ⟨hlt, le_rfl, fun t ht hv => .inr ?_, fun h => absurd h (lt_irrefl _)⟩
    by_contra hle
    have := hfind t (by omega) (by omega)
    simp [hv] at this
  | some t =>
    rw [List.find?_range'_eq_some] at hfind
    obtain ⟨hv, hmem, hfirst⟩ := hfind
    rw [List.mem_range'_1] at hmem
    simp only [Option.getD_some]
    refine ⟨by omega, by omega, fun s hs hvs => .inl ?_, fun _ => hv⟩
    by_contra hle
    have := hfirst s (by omega) (by omega)
    simp [hvs] at this

theorem lt_nextPc (h : pc < code.length) : pc < nextPc infos code pc := (nextPc_spec infos h).1

variable (code)

def decodePcs (pc : ℕ) : List ℕ :=
  if _h : pc < code.length then pc :: decodePcs (nextPc infos code pc) else []
termination_by code.length - pc
decreasing_by
  have := lt_nextPc infos _h
  omega

/-- The decoded code. Code whose last instruction can fall through is padded with a `STOP`. -/
def decode : List DecodedInst :=
  let insts := (decodePcs infos code 0).map (decodeAt infos code)
  if insts.getLast?.all (·.data.canFallThrough) then
    insts ++ [{ pc := code.length, data := { opcode := some .stop } }]
  else insts

end Decode

/-! ## The counters -/

variable {infos : Byte → OpcodeInfo} {code : Bytes}

theorem decodePcs_of_lt {pc : ℕ} (h : pc < code.length) :
    decodePcs infos code pc = pc :: decodePcs infos code (nextPc infos code pc) := by
  rw [decodePcs, dif_pos h]

theorem decodePcs_of_le {pc : ℕ} (h : code.length ≤ pc) : decodePcs infos code pc = [] := by
  rw [decodePcs, dif_neg (Nat.not_lt.mpr h)]

theorem decodePcs_induction (infos : Byte → OpcodeInfo) (code : Bytes) {motive : ℕ → Prop}
    (stop : ∀ pc, code.length ≤ pc → motive pc)
    (step : ∀ pc, pc < code.length → motive (nextPc infos code pc) → motive pc) (pc : ℕ) :
    motive pc := by
  by_cases h : pc < code.length
  · exact step pc h (decodePcs_induction infos code stop step _)
  · exact stop pc (Nat.le_of_not_lt h)
termination_by code.length - pc
decreasing_by
  have := lt_nextPc infos h
  omega

theorem mem_decodePcs_bounds {pc i : ℕ} (h : i ∈ decodePcs infos code pc) :
    pc ≤ i ∧ i < code.length := by
  induction pc using decodePcs_induction infos code with
  | stop pc hle =>
    rw [decodePcs_of_le hle] at h
    cases h
  | step pc hlt ih =>
    rw [decodePcs_of_lt hlt, List.mem_cons] at h
    rcases h with rfl | h
    · exact ⟨le_rfl, hlt⟩
    · have := lt_nextPc infos hlt
      have := ih h
      omega

theorem pairwise_decodePcs (pc : ℕ) : (decodePcs infos code pc).Pairwise (· < ·) := by
  induction pc using decodePcs_induction infos code with
  | stop pc hle =>
    rw [decodePcs_of_le hle]
    exact .nil
  | step pc hlt ih =>
    rw [decodePcs_of_lt hlt]
    refine .cons (fun i hi => ?_) ih
    exact lt_of_lt_of_le (lt_nextPc infos hlt) (mem_decodePcs_bounds hi).1

theorem mem_decodePcs_of_valid {pc t : ℕ} (hle : pc ≤ t) (hlt : t < code.length)
    (hv : scanJumpdest code 0 t = true) : t ∈ decodePcs infos code pc := by
  induction pc using decodePcs_induction infos code with
  | stop pc h => omega
  | step pc h ih =>
    rw [decodePcs_of_lt h, List.mem_cons]
    obtain rfl | hne := eq_or_ne t pc
    · exact .inl rfl
    · obtain ⟨-, hend, hskip, -⟩ := nextPc_spec infos h
      have := hskip t (by omega) hv
      exact .inr (ih (by omega))

theorem decodePcs_split {pc i : ℕ} (h : i ∈ decodePcs infos code pc) :
    ∃ pre, decodePcs infos code pc = pre ++ decodePcs infos code i := by
  induction pc using decodePcs_induction infos code with
  | stop pc hle =>
    rw [decodePcs_of_le hle] at h
    cases h
  | step pc hlt ih =>
    rw [decodePcs_of_lt hlt, List.mem_cons] at h
    rcases h with rfl | h
    · exact ⟨[], rfl⟩
    · obtain ⟨pre, hpre⟩ := ih h
      exact ⟨pc :: pre, by rw [decodePcs_of_lt hlt, hpre, List.cons_append]⟩

end Evm2.Jit
