import Evm2.Interpreter.Effects
import Evm2.Interpreter.Fetch
import Evm2.Jit.Decode

/-!
# Decoded and executed instructions

The decoder skips the immediates of `DUPN`, `SWAPN` and `EXCHANGE`, the legacy analysis does not.
They only disagree behind an immediate that does not decode, where the interpreter stops.
-/

namespace Evm2.Jit

/-! ## The legacy analysis -/

def nextSkip (skip : ℕ) (b : Byte) : ℕ :=
  if skip ≠ 0 then skip - 1
  else if 0x60 ≤ b.toNat ∧ b.toNat ≤ 0x7F then b.toNat - 0x5F else 0

def skipAt (code : Bytes) (skip : ℕ) : ℕ → ℕ
  | 0 => skip
  | pc + 1 => nextSkip (skipAt code skip pc) (code.getD pc 0)

theorem skipAt_cons (b : Byte) (bs : Bytes) (skip pc : ℕ) :
    skipAt (b :: bs) skip (pc + 1) = skipAt bs (nextSkip skip b) pc := by
  induction pc with
  | zero => rfl
  | succ pc ih => rw [skipAt, ih, skipAt, List.getD_cons_succ]

theorem scanJumpdest_iff {code : Bytes} {skip t : ℕ} : scanJumpdest code skip t = true ↔
    t < code.length ∧ skipAt code skip t = 0 ∧ code.getD t 0 = 0x5B#8 := by
  induction code generalizing skip t with
  | nil => simp [scanJumpdest]
  | cons b bs ih =>
    cases t with
    | zero => simp [scanJumpdest, skipAt]
    | succ t =>
      rw [skipAt_cons, List.length_cons, Nat.add_lt_add_iff_right, List.getD_cons_succ]
      exact ih

def Aligned (code : Bytes) (pc : ℕ) : Prop := skipAt code 0 pc = 0

theorem toNat_of_push {b : Byte} {n : Fin 33} (h : OpCode.new b = some (.push n)) :
    b.toNat = 0x5F + n := by
  have htable : ∀ e ∈ OpCode.table, e.2 ≠ .push n := by
    have hall : OpCode.table.all (fun e => e.2 matches .push _ |> not) = true := rfl
    intro e he hpush
    have := List.all_eq_true.mp hall e he
    rw [hpush] at this
    cases this
  unfold OpCode.new at h
  dsimp only at h
  split_ifs at h with hp
  · obtain ⟨rfl⟩ := h
    simp only
    omega
  · cases h
  · cases h
  · cases h
  · obtain ⟨l, l', hl, -⟩ := List.lookup_eq_some_iff.mp h
    exact absurd rfl (htable _ (hl ▸ List.mem_append_right _ List.mem_cons_self))

theorem nextSkip_of_not_push {b : Byte} (h : ∀ n, OpCode.new b ≠ some (.push n)) :
    nextSkip 0 b = 0 := by
  unfold nextSkip
  rw [if_neg (not_not.mpr rfl), if_neg]
  intro hp
  refine h _ (dif_pos ?_)
  omega

section Aligned

variable {code : Bytes} {pc : ℕ}

theorem skipAt_push (h : Aligned code pc) {n : Fin 33}
    (hop : OpCode.new (code.getD pc 0) = some (.push n)) {j : ℕ} (hj : j ≤ n) :
    skipAt code 0 (pc + 1 + j) = n - j := by
  induction j with
  | zero =>
    have hb := toNat_of_push hop
    rw [Nat.add_zero, skipAt, h, nextSkip, if_neg (not_not.mpr rfl)]
    split_ifs <;> omega
  | succ j ih =>
    rw [← Nat.add_assoc, skipAt, ih (by omega), nextSkip, if_pos (by omega)]
    omega

/-- **Where the analysis and the decoder stay together**: behind an instruction whose immediate
decodes. -/
theorem Aligned.next (h : Aligned code pc) {op : OpCode}
    (hop : OpCode.new (code.getD pc 0) = some op)
    (himm : (computeStackIo op (code.getD (pc + 1) 0).toNat).isSome) :
    Aligned code (pc + 1 + minImmLen (code.getD pc 0)) ∧
      ∀ t, pc < t → t < pc + 1 + minImmLen (code.getD pc 0) → scanJumpdest code 0 t = false := by
  have hnp : (∀ n, op ≠ .push n) → Aligned code (pc + 1) := by
    intro hne
    unfold Aligned
    rw [skipAt, h]
    refine nextSkip_of_not_push fun n hn => hne n ?_
    exact Option.some.inj (hop.symm.trans hn)
  have himm1 : ∀ x : Byte, (∀ n, op ≠ .push n) → code.getD (pc + 1) 0 = x →
      (x.toNat < 0x5B ∨ 0x80 ≤ x.toNat) → Aligned code (pc + 1 + 1) ∧
        ∀ t, pc < t → t < pc + 1 + 1 → scanJumpdest code 0 t = false := by
    rintro x hne rfl hx
    constructor
    · unfold Aligned
      rw [skipAt, hnp hne, nextSkip, if_neg (not_not.mpr rfl), if_neg (by omega)]
    · intro t ht ht'
      obtain rfl : t = pc + 1 := by omega
      rw [Bool.eq_false_iff, ne_eq, scanJumpdest_iff]
      rintro ⟨-, -, hb⟩
      rw [hb] at hx
      exact absurd hx (by decide)
  unfold minImmLen
  rw [hop]
  cases op with
  | push n =>
    refine ⟨?_, fun t ht ht' => ?_⟩
    · rw [Aligned, skipAt_push h hop le_rfl, Nat.sub_self]
    · rw [Bool.eq_false_iff, ne_eq, scanJumpdest_iff]
      rintro ⟨-, hs, -⟩
      obtain ⟨j, rfl⟩ := Nat.exists_eq_add_of_le (show pc + 1 ≤ t from ht)
      simp only at ht'
      rw [skipAt_push h hop (by omega)] at hs
      omega
  | dupn | swapn =>
    refine himm1 _ nofun rfl ?_
    by_contra hx
    simp only [computeStackIo, decodeSingle] at himm
    rw [if_neg (by omega)] at himm
    cases himm
  | exchange =>
    refine himm1 _ nofun rfl ?_
    by_contra hx
    simp only [computeStackIo, decodePair] at himm
    rw [if_pos (by omega)] at himm
    cases himm
  | _ => exact ⟨hnp nofun, fun t ht ht' => absurd ht' (by simp only; omega)⟩

end Aligned

/-! ## The interpreter -/

theorem instructionLen_eq {b : Byte} {op : OpCode} (hop : OpCode.new b = some op)
    (hj : op ≠ .jump) (hji : op ≠ .jumpi) : op.instructionLen = 1 + minImmLen b := by
  unfold minImmLen
  rw [hop]
  cases op with
  | jump => exact absurd rfl hj
  | jumpi => exact absurd rfl hji
  | push n => exact Nat.add_comm _ _
  | _ => rfl

theorem paddedSlice_one (code : Bytes) (pc : ℕ) : paddedSlice code pc 1 = [code.getD pc 0] := by
  rw [List.getD_eq_getElem?_getD, ← List.head?_drop]
  unfold paddedSlice
  cases code.drop pc <;> simp

section Turn

open SysInstr

variable [Keccak] {env : FrameEnv} {code : Bytes} {f f' : Interpreter}

omit [Keccak] in
theorem decodeByte_ok {α : Type} {decode : ℕ → Option α} {b : Byte} {a : α}
    (h : ((decodeByte decode b).run f).MayReturn (.ok a, f')) : (decode b.toNat).isSome := by
  unfold decodeByte at h
  cases hd : decode b.toNat with
  | none =>
    rw [hd] at h
    nomatch h
  | some a => rfl

theorem computeStackIo_of_returns {pc : ℕ} {op : OpCode} {x : SysInstr Unit}
    (hpc : pc + PADDING < (padLegacy code).length)
    (hx : executeUnchecked env (padLegacy code) pc op = some x)
    (hrun : (x.run f).MayReturn (.ok (), f')) :
    (computeStackIo op (code.getD (pc + 1) 0).toNat).isSome := by
  have hread : readBytesOffset (padLegacy code) pc 1 1 = some [code.getD (pc + 1) 0] := by
    rw [readBytesOffset_padLegacy code (by unfold PADDING at hpc; omega), paddedSlice_one]
  cases op with
  | dupn | swapn | exchange =>
    rw [executeUnchecked, hread] at hx
    cases hx
    obtain ⟨a, f₁, hd, -⟩ := Instr.mayReturn_bind hrun
    rw [computeStackIo, Option.isSome_map]
    exact decodeByte_ok hd
  | _ => rfl

theorem not_isDiverging_of_returns {pc : ℕ} {op : OpCode} {buffer : Bytes} {x : SysInstr Unit}
    (hx : executeUnchecked env buffer pc op = some x) (hrun : (x.run f).MayReturn (.ok (), f')) :
    ({ opcode := some op } : InstData).isDiverging = false := by
  have hstop : ∀ y : SysInstr Unit, some y = some x →
      Instr.Triple (fun _ => True) y (fun _ _ => False) → False := by
    rintro y ⟨⟩ hy
    exact (hy f trivial).of_mayReturn (fun _ _ => trivial) hrun () rfl
  cases op with
  | stop | invalid => exact (hstop _ hx (SimpleInstr.triple_lift .stop)).elim
  | «return» | revert =>
    exact (hstop _ hx (SimpleInstr.triple_lift SimpleInstr.triple_returnInner)).elim
  | selfdestruct => exact (hstop _ hx triple_selfdestruct).elim
  | _ => rfl

/-- **How a turn moves the counter**: to a valid jump destination, or behind the instruction. -/
theorem Turn.falls (hcode : env.message.code = .newLegacy code)
    (h : Turn env (padLegacy code) f f') : ∃ op, OpCode.new (code.getD f.pc 0) = some op ∧
      (env.opcodes.staticGas op).isSome ∧ f.pc < code.length ∧
      ((op = .jump ∨ op = .jumpi) ∧ scanJumpdest code 0 f'.pc = true ∨
        op ≠ .jump ∧ ({ opcode := some op } : InstData).isDiverging = false ∧
          (computeStackIo op (code.getD (f.pc + 1) 0).toNat).isSome ∧
          f'.pc = f.pc + 1 + minImmLen (code.getD f.pc 0)) := by
  obtain ⟨b, op, x, f₁, hb, hop, hdef, hx, hrun, rfl⟩ := h.inv
  have hdiv := not_isDiverging_of_returns hx hrun
  have hlt := lt_of_not_stop hb hop (by rintro rfl; cases hdiv)
  obtain rfl : code.getD f.pc 0 = b :=
    Option.some.inj ((fetch_padLegacy (by omega)).symm.trans hb)
  have himm := computeStackIo_of_returns hlt hx hrun
  have hin : f.pc < code.length := by
    by_contra hle
    rw [List.getD_eq_getElem?_getD, List.getElem?_eq_none (Nat.le_of_not_lt hle)] at hop
    cases hop
    cases hdiv
  refine ⟨op, hop, hdef, hin, ?_⟩
  by_cases hj : op = .jump
  · subst hj
    cases hx
    exact .inl ⟨.inl rfl, (jump_lands hcode f).of_mayReturn (fun _ _ => trivial) hrun rfl⟩
  · by_cases hji : op = .jumpi
    · subst hji
      cases hx
      rcases (jumpi_lands hcode f).of_mayReturn (fun _ _ => trivial) hrun rfl with hv | hv
      · exact .inl ⟨.inr rfl, hv⟩
      · refine .inr ⟨hj, hdiv, himm, ?_⟩
        simp only [minImmLen, hop]
        exact hv
    · have hpc : f₁.pc = f.pc := (keepsPc_executeUnchecked hj hji hx f).of_mayReturn
        (fun _ _ => trivial) hrun
      refine .inr ⟨hj, hdiv, himm, ?_⟩
      simp only [hpc, instructionLen_eq hop hj hji, Nat.add_assoc]

/-- A counter that the interpreter can execute: the start of the code, where a turn leads from
such a counter, and every valid jump destination. -/
inductive Executable (env : FrameEnv) (code : Bytes) : ℕ → Prop
  | entry : Executable env code 0
  | turn {f f' : Interpreter} : Executable env code f.pc → Turn env (padLegacy code) f f' →
      Executable env code f'.pc
  | dest {t : ℕ} : env.message.code.isValidJumpdest t = true → Executable env code t

end Turn

/-! ## Decoded instructions -/

section Decoded

variable {infos : Byte → OpcodeInfo} {code : Bytes} {pc : ℕ}

def Padded (infos : Byte → OpcodeInfo) (code : Bytes) : Prop :=
  ((decodePcs infos code 0).map (decodeAt infos code)).getLast?.all (·.data.canFallThrough) = true

theorem decode_of_padded (h : Padded infos code) :
    decode infos code = (decodePcs infos code 0).map (decodeAt infos code) ++
      [{ pc := code.length, data := { opcode := some .stop } }] := if_pos h

theorem decode_of_not_padded (h : ¬ Padded infos code) :
    decode infos code = (decodePcs infos code 0).map (decodeAt infos code) := if_neg h

theorem decode_subset : (decodePcs infos code 0).map (decodeAt infos code) ⊆ decode infos code := by
  by_cases h : Padded infos code
  · rw [decode_of_padded h]
    exact List.subset_append_left _ _
  · rw [decode_of_not_padded h]
    exact List.Subset.refl _

theorem pairwise_decode : ((decode infos code).map DecodedInst.pc).Pairwise (· < ·) := by
  have hmap : ((decodePcs infos code 0).map (decodeAt infos code)).map DecodedInst.pc =
      decodePcs infos code 0 := by
    rw [List.map_map]
    exact List.map_id _
  by_cases h : Padded infos code
  · rw [decode_of_padded h, List.map_append, hmap, List.pairwise_append]
    refine ⟨pairwise_decodePcs 0, List.pairwise_singleton _ _, fun i hi j hj => ?_⟩
    rw [List.map_singleton, List.mem_singleton] at hj
    exact hj ▸ (mem_decodePcs_bounds hi).2
  · rw [decode_of_not_padded h, hmap]
    exact pairwise_decodePcs 0

theorem eq_of_pc_eq {d e : DecodedInst} (hd : d ∈ decode infos code) (he : e ∈ decode infos code)
    (h : d.pc = e.pc) : d = e := by
  have hnodup := (@pairwise_decode infos code).imp Nat.ne_of_lt
  exact List.inj_on_of_nodup_map hnodup hd he h

theorem immValue_eq (code : Bytes) (pc : ℕ) : immValue code pc =
    BitVec.ofNat 256 (ofBeBytes (paddedSlice code (pc + 1) (minImmLen (code.getD pc 0)))) := by
  simp only [immValue, paddedSlice]
  split_ifs with hfull hne
  · rw [hfull, Nat.sub_self, List.replicate_zero, List.append_nil]
  · rfl
  · rw [not_not.mp hne, List.nil_append, ofBeBytes_zeros]
    rfl

/-- What the decoder made of a counter, which stands for itself or for the padding. -/
structure Reaches (infos : Byte → OpcodeInfo) (code : Bytes) (pc : ℕ) : Prop where
  aligned : Aligned code pc
  decoded : pc < code.length → pc ∈ decodePcs infos code 0
  padded : code.length ≤ pc → Padded infos code

theorem Reaches.of_valid (h : scanJumpdest code 0 pc = true) : Reaches infos code pc where
  aligned := (scanJumpdest_iff.mp h).2.1
  decoded hlt := mem_decodePcs_of_valid (Nat.zero_le _) hlt h
  padded hle := absurd (scanJumpdest_lt h) (Nat.not_lt.mpr hle)

theorem canFallThrough_decodeAt {op : OpCode} (hop : OpCode.new (code.getD pc 0) = some op)
    (hinfo : (infos (code.getD pc 0)).isUndefined = false) (hj : op ≠ .jump)
    (hdiv : ({ opcode := some op } : InstData).isDiverging = false)
    (himm : (computeStackIo op (code.getD (pc + 1) 0).toNat).isSome) :
    (decodeAt infos code pc).data.canFallThrough = true := by
  unfold decodeAt
  generalize code.getD pc 0 = b at hop hinfo
  generalize (code.getD (pc + 1) 0).toNat = imm at himm
  simp only [OpcodeInfo.isUndefined, Bool.or_eq_false_iff] at hinfo
  simp only [InstData.isDiverging, Bool.or_eq_false_iff] at hdiv
  simp [InstData.canFallThrough, InstData.isDiverging, InstData.hasConstJumpiCondition,
    OpcodeInfo.isUndefined, hinfo, hop, hj, himm, hdiv.2]

theorem Reaches.falls (h : Reaches infos code pc) (hlt : pc < code.length) {op : OpCode}
    (hop : OpCode.new (code.getD pc 0) = some op)
    (hinfo : (infos (code.getD pc 0)).isUndefined = false) (hj : op ≠ .jump)
    (hdiv : ({ opcode := some op } : InstData).isDiverging = false)
    (himm : (computeStackIo op (code.getD (pc + 1) 0).toNat).isSome) :
    Reaches infos code (pc + 1 + minImmLen (code.getD pc 0)) ∧
      ∃ pre d post, decode infos code = pre ++ decodeAt infos code pc :: d :: post ∧
        d.pc = min (pc + 1 + minImmLen (code.getD pc 0)) code.length := by
  set next := pc + 1 + minImmLen (code.getD pc 0) with hnext
  obtain ⟨haligned, hnone⟩ := h.aligned.next hop himm
  have hend : immEnd infos code pc = min next code.length := by
    simp only [immEnd, hinfo, Bool.false_eq_true, if_false, hnext]
  have hpc : nextPc infos code pc = min next code.length := by
    obtain ⟨hgt, hle, -, hvalid⟩ := nextPc_spec infos hlt
    rw [← hend]
    refine le_antisymm hle (Nat.le_of_not_lt fun hlt' => ?_)
    have := hnone _ hgt (by omega)
    rw [hvalid hlt'] at this
    cases this
  obtain ⟨pre, hpre⟩ := decodePcs_split (h.decoded hlt)
  rw [decodePcs_of_lt hlt, hpc] at hpre
  rcases Nat.lt_or_ge next code.length with hin | hout
  · rw [min_eq_left hin.le, decodePcs_of_lt hin] at hpre
    refine ⟨⟨haligned, fun _ => ?_, fun hle => absurd hin (Nat.not_lt.mpr hle)⟩, ?_⟩
    · simp [hpre]
    · by_cases hp : Padded infos code
      · rw [decode_of_padded hp, hpre, List.map_append, List.append_assoc]
        exact ⟨_, _, _, rfl, (min_eq_left hin.le).symm⟩
      · rw [decode_of_not_padded hp, hpre, List.map_append]
        exact ⟨_, _, _, rfl, (min_eq_left hin.le).symm⟩
  · rw [min_eq_right hout, decodePcs_of_le le_rfl] at hpre
    have hp : Padded infos code := by
      unfold Padded
      rw [hpre, List.map_append, List.map_singleton, List.getLast?_concat, Option.all_some]
      exact canFallThrough_decodeAt hop hinfo hj hdiv himm
    refine ⟨⟨haligned, fun hin => absurd hin (Nat.not_lt.mpr hout), fun _ => hp⟩, ?_⟩
    rw [decode_of_padded hp, hpre, List.map_append, List.map_singleton, List.append_assoc]
    exact ⟨_, _, [], rfl, (min_eq_right hout).symm⟩

end Decoded

theorem opInfoMap_isUndefined {spec : SpecId} {b : Byte} {op : OpCode}
    (hop : OpCode.new b = some op) (hdef : ((OpcodeConfig.base spec).staticGas op).isSome) :
    (opInfoMap spec b).isUndefined = false := by
  obtain ⟨gas, hgas⟩ := Option.isSome_iff_exists.mp hdef
  simp [opInfoMap, hop, hgas, OpcodeInfo.isUndefined]

section Agrees

open SysInstr (Turn)

variable [Keccak] {env : FrameEnv} {code : Bytes} {spec : SpecId} {f f' : Interpreter}
  (hcode : env.message.code = .newLegacy code) (hops : env.opcodes = .base spec)

include hcode hops

theorem Reaches.turn (h : Reaches (opInfoMap spec) code f.pc)
    (hturn : Turn env (padLegacy code) f f') :
    Reaches (opInfoMap spec) code f'.pc ∧
      (OpCode.new (env.message.code.byteAt f.pc) ∈ [some .jump, some .jumpi] ∧
          env.message.code.isValidJumpdest f'.pc = true ∨
        ∃ pre d d' post, decode (opInfoMap spec) code = pre ++ d :: d' :: post ∧ d.pc = f.pc ∧
          d'.pc = min f'.pc code.length) := by
  obtain ⟨op, hop, hdef, hlt, ⟨hjump, hv⟩ | ⟨hj, hdiv, himm, hpc⟩⟩ := Turn.falls hcode hturn
  · refine ⟨.of_valid hv, .inl ⟨?_, by rw [hcode]; exact hv⟩⟩
    rw [hcode]
    change OpCode.new (code.getD f.pc 0) ∈ _
    rw [hop]
    rcases hjump with rfl | rfl <;> simp
  · rw [hops] at hdef
    obtain ⟨hnext, pre, d, post, hd, hdpc⟩ :=
      h.falls hlt hop (opInfoMap_isUndefined hop hdef) hj hdiv himm
    rw [hpc]
    exact ⟨hnext, .inr ⟨pre, _, d, post, hd, rfl, hdpc⟩⟩

/-- **Everything that the interpreter executes is decoded.** -/
theorem Executable.reaches {pc : ℕ} (h : Executable env code pc) :
    Reaches (opInfoMap spec) code pc := by
  induction h with
  | entry =>
    refine ⟨rfl, fun hlt => ?_, fun hle => ?_⟩
    · rw [decodePcs_of_lt hlt]
      exact List.mem_cons_self
    · unfold Padded
      rw [decodePcs_of_le hle]
      rfl
  | turn _ hturn ih => exact (ih.turn hcode hops hturn).1
  | dest hv =>
    rw [hcode] at hv
    exact .of_valid hv

/-- **The decoder agrees with the interpreter**: each counter that the interpreter can execute has
exactly one instruction, with its opcode and immediate, where all counters behind the code stand for
its end. -/
theorem decoder_agrees :
    ((decode (opInfoMap spec) code).map DecodedInst.pc).Pairwise (· < ·) ∧
      (∀ pc, Executable env code pc → ∃ d ∈ decode (opInfoMap spec) code,
        d.pc = min pc code.length ∧ (∀ e ∈ decode (opInfoMap spec) code, e.pc = d.pc → e = d) ∧
        d.data.opcode = OpCode.new (env.message.code.byteAt pc) ∧
        d.imm = BitVec.ofNat 256 (ofBeBytes (env.message.code.immediate pc
          (minImmLen (env.message.code.byteAt pc))))) ∧
      ∀ f f', Executable env code f.pc → Turn env (padLegacy code) f f' →
        OpCode.new (env.message.code.byteAt f.pc) ∈ [some .jump, some .jumpi] ∧
            env.message.code.isValidJumpdest f'.pc = true ∨
          ∃ pre d d' post, decode (opInfoMap spec) code = pre ++ d :: d' :: post ∧ d.pc = f.pc ∧
            d'.pc = min f'.pc code.length := by
  refine ⟨pairwise_decode, fun pc hpc => ?_,
    fun f f' hf hturn => ((hf.reaches hcode hops).turn hcode hops hturn).2⟩
  have hbyte : env.message.code.byteAt pc = code.getD pc 0 := by
    rw [hcode]
    rfl
  have himm : ∀ n, env.message.code.immediate pc n = paddedSlice code (pc + 1) n := by
    intro n
    rw [hcode]
    rfl
  have hreach := hpc.reaches hcode hops
  rw [hbyte, himm]
  rcases Nat.lt_or_ge pc code.length with hlt | hle
  · have hmem := decode_subset (List.mem_map_of_mem (hreach.decoded hlt))
    exact ⟨_, hmem, (min_eq_left hlt.le).symm, fun e he => eq_of_pc_eq he hmem, rfl,
      immValue_eq code pc⟩
  · have hmem : { pc := code.length, data := { opcode := some .stop } } ∈
        decode (opInfoMap spec) code := by
      rw [decode_of_padded (hreach.padded hle)]
      exact List.mem_append_right _ (List.mem_singleton_self _)
    refine ⟨_, hmem, (min_eq_right hle).symm, fun e he => eq_of_pc_eq he hmem, ?_, ?_⟩
    · rw [List.getD_eq_getElem?_getD, List.getElem?_eq_none hle]
      rfl
    · rw [List.getD_eq_getElem?_getD, List.getElem?_eq_none hle]
      rfl

end Agrees

/-- `DUPN` with an invalid immediate, which is a valid jump destination. -/
def rewound : FrameEnv where
  version := .base .amsterdam
  opcodes := .base .amsterdam
  block := .default
  tx := .default
  message := { Message.default with code := .newLegacy [0xE6, 0x5B] }

theorem decoder_agrees_rewound :
    letI := Keccak.const
    let insts := decode (opInfoMap .amsterdam) [0xE6, 0x5B]
    ∃ d ∈ insts, ∃ d' ∈ insts,
      d.pc = 0 ∧ d.data.opcode = some .dupn ∧ d'.pc = 1 ∧ d'.data.opcode = some .jumpdest := by
  let _ := Keccak.const
  have hagrees := (@decoder_agrees _ rewound _ .amsterdam rfl rfl).2.1
  obtain ⟨d, hd, hpc, -, hop, -⟩ := hagrees 0 .entry
  obtain ⟨d', hd', hpc', -, hop', -⟩ := hagrees 1 (.dest rfl)
  exact ⟨d, hd, d', hd', hpc, hop, hpc', hop'⟩

/-- The code ends in the middle of an immediate. -/
def cutOff : FrameEnv where
  version := .base .frontier
  opcodes := .base .frontier
  block := .default
  tx := .default
  message := { Message.default with code := .newLegacy [0x60] }

theorem decode_cutOff : decode (opInfoMap .frontier) [0x60] =
    [decodeAt (opInfoMap .frontier) [0x60] 0, { pc := 1, data := { opcode := some .stop } }] := by
  have hpcs : decodePcs (opInfoMap .frontier) [0x60] 0 = [0] := by
    rw [decodePcs_of_lt (by decide), decodePcs_of_le (by decide)]
  unfold decode
  rw [hpcs]
  rfl

/-- Behind the `PUSH1` the interpreter is at counter 2, but the `STOP` is decoded at counter 1. -/
theorem decoder_shifts_end : letI := Keccak.const
    Executable cutOff [0x60] 2 ∧ ∀ d ∈ decode (opInfoMap .frontier) [0x60], d.pc ≠ 2 := by
  let _ := Keccak.const
  have hturn : SysInstr.Turn cutOff (padLegacy [0x60]) .init
      { Interpreter.init with pc := 2, stack := [0] } := ⟨_, rfl, .later true .here⟩
  refine ⟨.turn .entry hturn, ?_⟩
  rw [decode_cutOff]
  intro d hd
  rcases List.mem_pair.mp hd with rfl | rfl <;> exact nofun

end Evm2.Jit
