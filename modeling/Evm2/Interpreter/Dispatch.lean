import Evm2.Interpreter.Opcode
import Evm2.Lib.Fold

/-!
# Dispatch tables

An opcode config lists static gas and an instruction for each opcode, with a counter of its
changes, the *revision*. A dispatch table is built from the table of another config: an entry is
replaced if the revision differs and the opcode is defined, and reused otherwise.

* `Dispatch.OpcodeConfig`, `setStaticGas`, `setInstruction`: configs and their overrides;
* `makeTable`, `makeSelectorTables`, `ExecutionConfig.forConfig`: the tables.
-/

namespace Evm2

namespace OpCode

def toByte : OpCode → Byte
  | push n => BitVec.ofNat 8 (0x5F + n)
  | dup n => BitVec.ofNat 8 (0x80 + n)
  | swap n => BitVec.ofNat 8 (0x90 + n)
  | log n => BitVec.ofNat 8 (0xA0 + n)
  | stop => 0x00 | add => 0x01 | mul => 0x02 | sub => 0x03 | div => 0x04 | sdiv => 0x05
  | mod => 0x06 | smod => 0x07 | addmod => 0x08 | mulmod => 0x09 | exp => 0x0A
  | signextend => 0x0B | lt => 0x10 | gt => 0x11 | slt => 0x12 | sgt => 0x13 | eq => 0x14
  | iszero => 0x15 | and => 0x16 | or => 0x17 | xor => 0x18 | not => 0x19 | byte => 0x1A
  | shl => 0x1B | shr => 0x1C | sar => 0x1D | clz => 0x1E | keccak256 => 0x20 | address => 0x30
  | balance => 0x31 | origin => 0x32 | caller => 0x33 | callvalue => 0x34 | calldataload => 0x35
  | calldatasize => 0x36 | calldatacopy => 0x37 | codesize => 0x38 | codecopy => 0x39
  | gasprice => 0x3A | extcodesize => 0x3B | extcodecopy => 0x3C | returndatasize => 0x3D
  | returndatacopy => 0x3E | extcodehash => 0x3F | blockhash => 0x40 | coinbase => 0x41
  | timestamp => 0x42 | number => 0x43 | difficulty => 0x44 | gaslimit => 0x45 | chainid => 0x46
  | selfbalance => 0x47 | basefee => 0x48 | blobhash => 0x49 | blobbasefee => 0x4A
  | slotnum => 0x4B | pop => 0x50 | mload => 0x51 | mstore => 0x52 | mstore8 => 0x53
  | sload => 0x54 | sstore => 0x55 | jump => 0x56 | jumpi => 0x57 | pc => 0x58 | msize => 0x59
  | gas => 0x5A | jumpdest => 0x5B | tload => 0x5C | tstore => 0x5D | mcopy => 0x5E
  | dupn => 0xE6 | swapn => 0xE7 | exchange => 0xE8 | create => 0xF0 | call => 0xF1
  | callcode => 0xF2 | «return» => 0xF3 | delegatecall => 0xF4 | create2 => 0xF5
  | staticcall => 0xFA | revert => 0xFD | invalid => 0xFE | selfdestruct => 0xFF

end OpCode

namespace Dispatch

/-! ## Opcode configs -/

structure InstructionFlags where
  dynamicGas : Bool
  hooked : Bool
  deriving DecidableEq, Repr

/-- `InstructionInfo`; `ι` are the implementations. -/
structure InstructionInfo (ι : Type) where
  instr : ι
  flags : InstructionFlags
  deriving DecidableEq, Repr

/-- The instructions of a host: `op_instr!` and `instr::invalid`. -/
class Instructions (ι : Type) where
  opInstr : OpCode → InstructionInfo ι
  invalid : ι

def INVALID : Byte := 0xFE

structure OpcodeConfig (ι : Type) where
  staticGasTable : Byte → BitVec 16
  instructionImpls : Byte → Option (InstructionInfo ι)
  revisions : Byte → BitVec 8
  instructionSets : Byte → BitVec 8
  origin : SpecId

namespace OpcodeConfig

variable {ι : Type}

def empty (origin : SpecId) : OpcodeConfig ι :=
  ⟨fun _ => 0, fun _ => none, fun _ => 0, fun _ => 0, origin⟩

def staticGas (c : OpcodeConfig ι) (op : Byte) : BitVec 16 := c.staticGasTable op

def instruction [Instructions ι] (c : OpcodeConfig ι) (op : Byte) : InstructionInfo ι :=
  (c.instructionImpls op).getD ⟨Instructions.invalid, ⟨false, false⟩⟩

def isUnknownOpcode (c : OpcodeConfig ι) (op : Byte) : Bool := (c.instructionImpls op).isNone

def revision (c : OpcodeConfig ι) (op : Byte) : BitVec 8 := c.revisions op

/-- `OpcodeConfig::bump_revision`. The counters wrap around where overflow is not checked. -/
def bumpRevision (c : OpcodeConfig ι) (op : Byte) : OpcodeConfig ι :=
  { c with revisions := Function.update c.revisions op (c.revisions op + 1) }

/-- `OpcodeConfig::set_static_gas`, for an opcode other than `INVALID`, on which it panics. -/
def setStaticGas (c : OpcodeConfig ι) (op : Byte) (cost : BitVec 16) : OpcodeConfig ι :=
  if c.staticGasTable op ≠ cost then
    { c with staticGasTable := Function.update c.staticGasTable op cost }.bumpRevision op
  else c

/-- `OpcodeConfig::set_instruction`, for an opcode other than `INVALID`, on which it panics. -/
def setInstruction (c : OpcodeConfig ι) (op : Byte) (gas : BitVec 16) (instr : InstructionInfo ι) :
    OpcodeConfig ι :=
  let c := c.setStaticGas op gas
  let c := { c with
    instructionSets := Function.update c.instructionSets op (c.instructionSets op + 1)
    instructionImpls := Function.update c.instructionImpls op (some instr) }
  c.bumpRevision op

end OpcodeConfig

/-- A call that overrides an opcode. -/
inductive Override (ι : Type)
  | setStaticGas (op : Byte) (cost : BitVec 16)
  | setInstruction (op : Byte) (gas : BitVec 16) (instr : InstructionInfo ι)

namespace Override

variable {ι : Type}

def op : Override ι → Byte
  | setStaticGas op _ => op
  | setInstruction op _ _ => op

def apply (c : OpcodeConfig ι) : Override ι → OpcodeConfig ι
  | setStaticGas op cost => c.setStaticGas op cost
  | setInstruction op gas instr => c.setInstruction op gas instr

def applyAll (c : OpcodeConfig ι) (calls : List (Override ι)) : OpcodeConfig ι :=
  calls.foldl apply c

end Override

/-- The number of opcodes that `OpcodeConfig.staticGasOf` lists as new in a specification; the
others only change static gas. -/
def addedOps : SpecId → Nat
  | .frontier => 129
  | .homestead => 1
  | .byzantium => 4
  | .petersburg => 5
  | .istanbul => 2
  | .london => 1
  | .shanghai => 1
  | .cancun => 5
  | .osaka => 1
  | .amsterdam => 4
  | .tangerine | .spuriousDragon | .berlin | .merge | .prague => 0

section Base

variable {ι : Type} [Instructions ι]

def specCalls (spec : SpecId) : List (Override ι) :=
  ((Evm2.OpcodeConfig.staticGasOf spec).take (addedOps spec)).map (fun e =>
    .setInstruction e.1.toByte (BitVec.ofNat 16 e.2) (Instructions.opInstr e.1)) ++
  ((Evm2.OpcodeConfig.staticGasOf spec).drop (addedOps spec)).map fun e =>
    .setStaticGas e.1.toByte (BitVec.ofNat 16 e.2)

def OpcodeConfig.base (spec : SpecId) : OpcodeConfig ι :=
  Override.applyAll (.empty spec) ((SpecId.all.filter spec.enables).flatMap specCalls)

end Base

/-! ## Tables -/

/-- `InspectMode`: `NoInspector` and `DynInspector`. -/
inductive InspectMode
  | noInspector | dynInspector
  deriving DecidableEq, Repr

/-- A handler `dispatch::<T, C, M, OP>`, which is determined by its parameters. -/
structure Handler (ι : Type) where
  config : OpcodeConfig ι
  mode : InspectMode
  op : Byte

namespace Handler

variable {ι : Type}

def staticGas (h : Handler ι) : BitVec 16 := h.config.staticGas h.op

def instruction [Instructions ι] (h : Handler ι) : InstructionInfo ι := h.config.instruction h.op

end Handler

abbrev InstrTable (ι : Type) := Byte → Handler ι

section Tables

variable {ι : Type}

def instructionChanged (config : OpcodeConfig ι) (previous : Option (OpcodeConfig ι)) (op : Byte) :
    Bool :=
  match previous with
  | none => true
  | some previous => config.revision op != previous.revision op

def opcodeValues : List Byte := (List.finRange 256).map BitVec.ofFin

def makeTable (vt : OpcodeConfig ι) (mode : InspectMode) (previous : Option (InstrTable ι))
    (previousOpcodeConfig : Option (OpcodeConfig ι)) : InstrTable ι :=
  opcodeValues.foldl (fun table op =>
    if instructionChanged vt previousOpcodeConfig op && !vt.isUnknownOpcode op then
      Function.update table op ⟨vt, mode, op⟩
    else table) (previous.getD fun _ => ⟨vt, mode, INVALID⟩)

end Tables

end Dispatch

def SpecId.prev (spec : SpecId) : Option SpecId :=
  match SpecId.all.idxOf spec with
  | 0 => none
  | i + 1 => SpecId.all[i]?

theorem SpecId.mem_all (spec : SpecId) : spec ∈ SpecId.all := by
  cases spec <;> decide

theorem SpecId.enables_trans {s t u : SpecId} (h : s.enables t = true) (h' : t.enables u = true) :
    s.enables u = true := by
  simp only [SpecId.enables, decide_eq_true_eq] at h h' ⊢
  omega

namespace Dispatch

section Tables

variable {ι : Type}

def makeSelectorTables (config : SpecId → OpcodeConfig ι) (mode : InspectMode) :
    Option (InstrTable ι) → List SpecId → List (InstrTable ι)
  | _, [] => []
  | previous, spec :: rest =>
    let table := makeTable (config spec) mode previous (spec.prev.map config)
    table :: makeSelectorTables config mode (some table) rest

def baseTables [Instructions ι] (mode : InspectMode) : List (InstrTable ι) :=
  makeSelectorTables .base mode none SpecId.all

structure EvmConfig (ι : Type) where
  baseSpecId : SpecId
  opcodeConfig : OpcodeConfig ι

def configInstrTable [Instructions ι] (config : EvmConfig ι) (mode : InspectMode) : InstrTable ι :=
  makeTable config.opcodeConfig mode (baseTables mode)[SpecId.all.idxOf config.baseSpecId]?
    (some (.base config.baseSpecId))

structure ExecutionConfig (ι : Type) where
  baseSpecId : SpecId
  version : Version
  opcodeConfig : OpcodeConfig ι
  instructions : InstrTable ι
  inspectInstructions : InstrTable ι

def ExecutionConfig.forConfig [Instructions ι] (config : EvmConfig ι) : ExecutionConfig ι where
  baseSpecId := config.baseSpecId
  version := .base config.baseSpecId
  opcodeConfig := config.opcodeConfig
  instructions := configInstrTable config .noInspector
  inspectInstructions := configInstrTable config .dynInspector

end Tables

/-! ## Histories of overrides -/

section Histories

variable {ι : Type} {c c' : OpcodeConfig ι} {op : Byte}

/-- The configs agree on an opcode. -/
structure OpcodeConfig.Agree (c c' : OpcodeConfig ι) (op : Byte) : Prop where
  staticGas : c'.staticGas op = c.staticGas op
  instructionImpls : c'.instructionImpls op = c.instructionImpls op

theorem OpcodeConfig.Agree.refl (c : OpcodeConfig ι) (op : Byte) : c.Agree c op := ⟨rfl, rfl⟩

theorem OpcodeConfig.Agree.trans {c'' : OpcodeConfig ι} (h : c.Agree c' op) (h' : c'.Agree c'' op) :
    c.Agree c'' op :=
  ⟨h'.staticGas.trans h.staticGas, h'.instructionImpls.trans h.instructionImpls⟩

/-- From `c` to `c'` the revision of `op` has been counted up `n` times; if it has not been, the
configs agree on `op`. -/
structure OpcodeConfig.Counted (c c' : OpcodeConfig ι) (op : Byte) (n : Nat) : Prop where
  revision : c'.revision op = c.revision op + BitVec.ofNat 8 n
  agree : n = 0 → c.Agree c' op

namespace OpcodeConfig

theorem Counted.refl (c : OpcodeConfig ι) (op : Byte) : c.Counted c op 0 :=
  ⟨by simp, fun _ => .refl c op⟩

theorem Counted.trans {c'' : OpcodeConfig ι} {m n : Nat} (h : c.Counted c' op m)
    (h' : c'.Counted c'' op n) : c.Counted c'' op (m + n) where
  revision := by rw [h'.revision, h.revision, BitVec.ofNat_add, BitVec.add_assoc]
  agree hmn := by
    obtain ⟨hm, hn⟩ := Nat.add_eq_zero_iff.mp hmn
    exact (h.agree hm).trans (h'.agree hn)

/-- **Equal revisions mean no change**, while the counter does not wrap around. -/
theorem Counted.agree_of_revision {n : Nat} (h : c.Counted c' op n) (hn : n < 256)
    (hr : c'.revision op = c.revision op) : c.Agree c' op := by
  refine h.agree ?_
  have hzero : BitVec.ofNat 8 n = 0 := by
    have hrev := h.revision
    rw [hr] at hrev
    simpa using hrev
  have htoNat : n % 256 = 0 := congrArg BitVec.toNat hzero
  omega

theorem counted_setStaticGas (c : OpcodeConfig ι) (op : Byte) (cost : BitVec 16) :
    ∃ n ≤ 1, c.Counted (c.setStaticGas op cost) op n := by
  unfold setStaticGas
  split_ifs
  · exact ⟨1, le_rfl, by simp [bumpRevision, revision], nofun⟩
  · exact ⟨0, Nat.zero_le _, .refl c op⟩

theorem setStaticGas_of_ne (c : OpcodeConfig ι) {op op' : Byte} (cost : BitVec 16)
    (h : op' ≠ op) : c.Counted (c.setStaticGas op cost) op' 0 := by
  unfold setStaticGas
  split_ifs
  · exact ⟨by simp [bumpRevision, revision, h], fun _ =>
      ⟨by simp [bumpRevision, staticGas, h], by simp [bumpRevision]⟩⟩
  · exact .refl c op'

theorem instructionImpls_setStaticGas (c : OpcodeConfig ι) (op : Byte) (cost : BitVec 16) :
    (c.setStaticGas op cost).instructionImpls = c.instructionImpls := by
  unfold setStaticGas
  split_ifs <;> rfl

end OpcodeConfig

namespace Override

open Evm2.Dispatch.OpcodeConfig

theorem counted_apply (c : OpcodeConfig ι) (call : Override ι) :
    ∃ n ≤ 2, c.Counted (call.apply c) call.op n := by
  cases call with
  | setStaticGas op cost =>
    obtain ⟨n, hn, h⟩ := counted_setStaticGas c op cost
    exact ⟨n, by omega, h⟩
  | setInstruction op gas instr =>
    obtain ⟨n, hn, h⟩ := counted_setStaticGas c op gas
    refine ⟨n + 1, by omega, ?_, nofun⟩
    have hrev : (c.setStaticGas op gas).revisions op = c.revisions op + BitVec.ofNat 8 n :=
      h.revision
    simp [apply, Override.op, OpcodeConfig.setInstruction, bumpRevision, revision, hrev,
      BitVec.ofNat_add, BitVec.add_assoc]

theorem apply_of_ne (c : OpcodeConfig ι) {call : Override ι} {op : Byte} (h : op ≠ call.op) :
    c.Counted (call.apply c) op 0 := by
  cases call with
  | setStaticGas op' cost => exact setStaticGas_of_ne c cost h
  | setInstruction op' gas instr =>
    have hne : op ≠ op' := h
    have hgas := setStaticGas_of_ne c gas hne
    refine ⟨?_, fun _ => ⟨?_, ?_⟩⟩
    · have hrev := hgas.revision
      simp only [revision] at hrev
      simpa [apply, OpcodeConfig.setInstruction, bumpRevision, revision, hne] using hrev
    · have hg := (hgas.agree rfl).staticGas
      simp only [staticGas] at hg
      simpa [apply, OpcodeConfig.setInstruction, bumpRevision, staticGas] using hg
    · simp [apply, OpcodeConfig.setInstruction, bumpRevision, hne, instructionImpls_setStaticGas]

theorem isUnknownOpcode_apply (c : OpcodeConfig ι) (call : Override ι) {op : Byte}
    (h : (call.apply c).isUnknownOpcode op = true) : c.isUnknownOpcode op = true := by
  by_cases hop : op = call.op
  · cases call with
    | setStaticGas op' cost =>
      simpa only [apply, isUnknownOpcode, instructionImpls_setStaticGas] using h
    | setInstruction op' gas instr =>
      obtain rfl : op = op' := hop
      simp [apply, OpcodeConfig.setInstruction, bumpRevision, isUnknownOpcode] at h
  · have hagree := ((apply_of_ne c hop).agree rfl).instructionImpls
    rwa [isUnknownOpcode, hagree] at h

/-- **What a history of calls counts up.** -/
theorem counted_applyAll (calls : List (Override ι)) (c : OpcodeConfig ι) (op : Byte) :
    ∃ n ≤ 2 * (calls.filter fun call => call.op = op).length,
      c.Counted (applyAll c calls) op n := by
  induction calls generalizing c with
  | nil => exact ⟨0, Nat.zero_le _, .refl c op⟩
  | cons call calls ih =>
    obtain ⟨n, hn, h⟩ := ih (call.apply c)
    by_cases hop : call.op = op
    · obtain ⟨m, hm, hcall⟩ := counted_apply c call
      rw [hop] at hcall
      refine ⟨m + n, ?_, hcall.trans h⟩
      simp only [List.filter_cons, hop, decide_true, if_true, List.length_cons]
      omega
    · refine ⟨0 + n, ?_, (apply_of_ne c (Ne.symm hop)).trans h⟩
      simpa [List.filter_cons, hop] using hn

theorem isUnknownOpcode_applyAll (calls : List (Override ι)) (c : OpcodeConfig ι) {op : Byte}
    (h : (applyAll c calls).isUnknownOpcode op = true) : c.isUnknownOpcode op = true := by
  induction calls generalizing c with
  | nil => exact h
  | cons call calls ih => exact isUnknownOpcode_apply c call (ih _ h)

theorem agree_applyAll {calls : List (Override ι)} (c : OpcodeConfig ι) {op : Byte}
    (h : ∀ call ∈ calls, call.op ≠ op) : c.Agree (applyAll c calls) op := by
  obtain ⟨n, hn, hcount⟩ := counted_applyAll calls c op
  have hnil : (calls.filter fun call => call.op = op) = [] :=
    List.filter_eq_nil_iff.mpr fun call hcall => by simpa using h call hcall
  rw [hnil] at hn
  exact hcount.agree (Nat.le_zero.mp hn)

theorem isUnknownOpcode_of_mem {calls : List (Override ι)} (c : OpcodeConfig ι) {op : Byte}
    {gas : BitVec 16} {instr : InstructionInfo ι} (h : .setInstruction op gas instr ∈ calls) :
    (applyAll c calls).isUnknownOpcode op = false := by
  induction calls generalizing c with
  | nil => cases h
  | cons call calls ih =>
    rcases List.mem_cons.mp h with rfl | hmem
    · rw [← Bool.not_eq_true]
      intro hunknown
      have hdef := isUnknownOpcode_applyAll calls _ hunknown
      simp [apply, OpcodeConfig.setInstruction, bumpRevision, isUnknownOpcode] at hdef
    · exact ih _ hmem

end Override

end Histories

/-! ## One opcode -/

/-- What a config says about an opcode. -/
structure Entry (ι : Type) where
  staticGas : BitVec 16
  instr : Option (InstructionInfo ι)
  revision : BitVec 8
  deriving DecidableEq

section Entries

variable {ι : Type}

def OpcodeConfig.entry (c : OpcodeConfig ι) (op : Byte) : Entry ι :=
  ⟨c.staticGas op, c.instructionImpls op, c.revision op⟩

theorem OpcodeConfig.entry_eq {c : OpcodeConfig ι} {op : Byte} {e : Entry ι}
    (h : c.entry op = e) :
    c.staticGas op = e.staticGas ∧ c.instructionImpls op = e.instr ∧
      c.revision op = e.revision := by
  subst h
  exact ⟨rfl, rfl, rfl⟩

def Entry.setStaticGas (e : Entry ι) (cost : BitVec 16) : Entry ι :=
  if e.staticGas ≠ cost then { e with staticGas := cost, revision := e.revision + 1 } else e

def Entry.apply (e : Entry ι) : Override ι → Entry ι
  | .setStaticGas _ cost => e.setStaticGas cost
  | .setInstruction _ gas instr =>
    { e.setStaticGas gas with
      instr := some instr
      revision := (e.setStaticGas gas).revision + 1 }

theorem entry_setStaticGas (c : OpcodeConfig ι) (op : Byte) (cost : BitVec 16) :
    (c.setStaticGas op cost).entry op = (c.entry op).setStaticGas cost := by
  unfold OpcodeConfig.setStaticGas Entry.setStaticGas
  by_cases h : c.staticGasTable op = cost
  · simp [OpcodeConfig.entry, OpcodeConfig.staticGas, h]
  · simp [OpcodeConfig.entry, OpcodeConfig.staticGas, OpcodeConfig.revision,
      OpcodeConfig.bumpRevision, h]

theorem entry_apply (c : OpcodeConfig ι) (call : Override ι) (op : Byte) :
    (call.apply c).entry op =
      if decide (call.op = op) then (c.entry op).apply call else c.entry op := by
  by_cases hop : call.op = op
  · subst hop
    simp only [decide_true, if_true]
    cases call with
    | setStaticGas op cost => exact entry_setStaticGas c op cost
    | setInstruction op gas instr =>
      simp only [Entry.apply, Override.op, ← entry_setStaticGas]
      simp [Override.apply, OpcodeConfig.setInstruction, OpcodeConfig.bumpRevision,
        OpcodeConfig.entry, OpcodeConfig.staticGas, OpcodeConfig.revision]
  · have h := Override.apply_of_ne c (Ne.symm hop)
    have hagree := h.agree rfl
    simp [OpcodeConfig.entry, hop, hagree.staticGas, hagree.instructionImpls, h.revision]

theorem entry_applyAll (c : OpcodeConfig ι) (calls : List (Override ι)) (op : Byte) :
    (Override.applyAll c calls).entry op =
      (calls.filter fun call => call.op = op).foldl Entry.apply (c.entry op) :=
  Fold.foldl_proj (fun c : OpcodeConfig ι => c.entry op) Entry.apply
    (fun c call => entry_apply c call op) calls c

end Entries

/-! ## What tables implement -/

section Implements

variable {ι : Type}

theorem mem_opcodeValues (op : Byte) : op ∈ opcodeValues :=
  List.mem_map.mpr ⟨op.toFin, List.mem_finRange _, rfl⟩

theorem foldl_update (p : Byte → Bool) (h : InstrTable ι) (ops : List Byte) (table : InstrTable ι)
    (op : Byte) :
    ops.foldl (fun table op => if p op then Function.update table op (h op) else table) table op =
      if op ∈ ops ∧ p op = true then h op else table op := by
  induction ops generalizing table with
  | nil => simp
  | cons o ops ih =>
    rw [List.foldl_cons, ih]
    by_cases hp : p o = true
    · by_cases ho : op = o
      · subst ho
        simp [hp]
      · simp [hp, ho]
    · by_cases ho : op = o
      · subst ho
        simp [hp]
      · simp [hp, ho]

theorem makeTable_apply (vt : OpcodeConfig ι) (mode : InspectMode)
    (previous : Option (InstrTable ι)) (previousConfig : Option (OpcodeConfig ι)) (op : Byte) :
    makeTable vt mode previous previousConfig op =
      if instructionChanged vt previousConfig op && !vt.isUnknownOpcode op then ⟨vt, mode, op⟩
      else (previous.getD fun _ => ⟨vt, mode, INVALID⟩) op := by
  rw [makeTable, foldl_update _ fun op => ⟨vt, mode, op⟩]
  simp only [mem_opcodeValues, true_and]

variable [Instructions ι]

def OpcodeConfig.Same (c c' : OpcodeConfig ι) (op : Byte) : Prop :=
  c'.staticGas op = c.staticGas op ∧ c'.instruction op = c.instruction op

theorem OpcodeConfig.Agree.same {c c' : OpcodeConfig ι} {op : Byte} (h : c.Agree c' op) :
    c.Same c' op :=
  ⟨h.staticGas, by rw [OpcodeConfig.instruction, h.instructionImpls]; rfl⟩

/-- Every entry charges the static gas of its opcode and runs the instruction listed for it, which
is the invalid instruction if none is. -/
def InstrTable.Implements (table : InstrTable ι) (c : OpcodeConfig ι) : Prop :=
  ∀ op, (table op).staticGas = c.staticGas op ∧ (table op).instruction = c.instruction op

/-- An entry for `op` in a table of `p` will do for `c`, or is replaced. -/
def OpcodeConfig.Rebuilds (p c : OpcodeConfig ι) (op : Byte) : Prop :=
  c.isUnknownOpcode op = false ∧ c.revision op ≠ p.revision op ∨ p.Same c op

/-- **When a table that is built from the table of another config implements its own.** -/
theorem makeTable_implements_iff {table : InstrTable ι} {p c : OpcodeConfig ι} (mode : InspectMode)
    (h : table.Implements p) :
    InstrTable.Implements (makeTable c mode (some table) (some p)) c ↔ ∀ op, p.Rebuilds c op := by
  refine forall_congr' fun op => ?_
  rw [makeTable_apply]
  obtain ⟨hgas, hinstr⟩ := h op
  by_cases hb : (instructionChanged c (some p) op && !c.isUnknownOpcode op) = true
  · rw [if_pos hb]
    simp only [instructionChanged, Bool.and_eq_true, bne_iff_ne, Bool.not_eq_true'] at hb
    exact iff_of_true ⟨rfl, rfl⟩ (.inl ⟨hb.2, hb.1⟩)
  · -- the entry is reused: it does what `p` says
    rw [if_neg hb]
    simp only [instructionChanged, Bool.and_eq_true, bne_iff_ne, Bool.not_eq_true'] at hb
    have hno : ¬(c.isUnknownOpcode op = false ∧ c.revision op ≠ p.revision op) :=
      fun hc => hb ⟨hc.2, hc.1⟩
    rw [OpcodeConfig.Rebuilds, or_iff_right hno, OpcodeConfig.Same]
    show (table op).staticGas = _ ∧ (table op).instruction = _ ↔ _
    rw [hgas, hinstr, eq_comm, @eq_comm _ (p.instruction op)]

theorem makeTable_none_implements {c : OpcodeConfig ι} (mode : InspectMode)
    (h : ∀ op, c.isUnknownOpcode op = true →
      c.staticGas INVALID = c.staticGas op ∧ c.instruction INVALID = c.instruction op) :
    InstrTable.Implements (makeTable c mode none none) c := by
  intro op
  rw [makeTable_apply]
  cases hu : c.isUnknownOpcode op with
  | false => exact ⟨rfl, rfl⟩
  | true => exact h op hu

theorem makeSelectorTables_implements {config : SpecId → OpcodeConfig ι} (mode : InspectMode)
    (hstep : ∀ p spec, SpecId.prev spec = some p → ∀ op, (config p).Rebuilds (config spec) op)
    (specs : List SpecId) (hchain : specs.IsChain fun p spec => spec.prev = some p)
    (previous : Option (InstrTable ι))
    (hhead : ∀ spec ∈ specs.head?,
      InstrTable.Implements (makeTable (config spec) mode previous (spec.prev.map config))
        (config spec))
    (i : Nat) (spec : SpecId) (hi : specs[i]? = some spec) :
    ∃ table, (makeSelectorTables config mode previous specs)[i]? = some table ∧
      table.Implements (config spec) := by
  induction specs generalizing previous i with
  | nil => cases hi
  | cons s specs ih =>
    have hs := hhead s rfl
    cases i with
    | zero =>
      cases hi
      exact ⟨_, rfl, hs⟩
    | succ i =>
      refine ih hchain.tail _ (fun s' hs' => ?_) i hi
      have hprev : s'.prev = some s := by
        cases specs with
        | nil => cases hs'
        | cons s'' specs =>
          cases hs'
          exact (List.isChain_cons_cons.mp hchain).1
      rw [hprev]
      exact (makeTable_implements_iff mode hs).mpr (hstep s s' hprev)

end Implements

/-! ## The base configs -/

section Base

variable {ι : Type} [Instructions ι]

theorem static_gas_added : ∀ s ∈ SpecId.all,
    ∀ e ∈ (Evm2.OpcodeConfig.staticGasOf s).drop (addedOps s),
      ∃ s' ∈ SpecId.all, s.enables s' = true ∧
        ∃ e' ∈ (Evm2.OpcodeConfig.staticGasOf s').take (addedOps s'), e'.1 = e.1 := by
  decide +kernel

theorem toByte_ne_invalid : ∀ s ∈ SpecId.all, ∀ e ∈ Evm2.OpcodeConfig.staticGasOf s,
    e.1.toByte ≠ INVALID := by
  decide +kernel

def baseCalls (spec : SpecId) : List (Override ι) :=
  (SpecId.all.filter spec.enables).flatMap specCalls

theorem mem_baseCalls {spec : SpecId} {call : Override ι} :
    call ∈ baseCalls spec ↔ ∃ s, spec.enables s = true ∧ call ∈ specCalls s := by
  simp only [baseCalls, List.mem_flatMap, List.mem_filter]
  exact ⟨fun ⟨s, hs, hc⟩ => ⟨s, hs.2, hc⟩, fun ⟨s, hs, hc⟩ => ⟨s, ⟨SpecId.mem_all s, hs⟩, hc⟩⟩

theorem base_unknown {spec : SpecId} {op : Byte}
    (h : (OpcodeConfig.base spec : OpcodeConfig ι).isUnknownOpcode op = true) :
    (OpcodeConfig.empty spec : OpcodeConfig ι).Agree (.base spec) op := by
  refine Override.agree_applyAll _ fun call hcall hop => ?_
  -- some call sets the instruction of the opcode
  have hdef : ∃ gas instr, Override.setInstruction op gas instr ∈ baseCalls (ι := ι) spec := by
    obtain ⟨s, hs, hc⟩ := mem_baseCalls.mp hcall
    rcases List.mem_append.mp hc with hc | hc
    · obtain ⟨e, -, rfl⟩ := List.mem_map.mp hc
      obtain rfl : e.1.toByte = op := hop
      exact ⟨_, _, hcall⟩
    · obtain ⟨e, he, rfl⟩ := List.mem_map.mp hc
      obtain rfl : e.1.toByte = op := hop
      obtain ⟨s', -, hss, e', he', heq⟩ := static_gas_added s (SpecId.mem_all s) e he
      refine ⟨BitVec.ofNat 16 e'.2, Instructions.opInstr e'.1, mem_baseCalls.mpr
        ⟨s', SpecId.enables_trans hs hss, List.mem_append_left _ (List.mem_map.mpr ⟨e', he', ?_⟩)⟩⟩
      rw [heq]
  obtain ⟨gas, instr, hmem⟩ := hdef
  have hknown := Override.isUnknownOpcode_of_mem (.empty spec) hmem
  exact absurd (hknown.symm.trans h) Bool.false_ne_true

theorem base_invalid (spec : SpecId) :
    (OpcodeConfig.empty spec : OpcodeConfig ι).Agree (.base spec) INVALID := by
  refine Override.agree_applyAll _ fun call hcall => ?_
  obtain ⟨s, -, hc⟩ := mem_baseCalls.mp hcall
  rcases List.mem_append.mp hc with hc | hc
  · obtain ⟨e, he, rfl⟩ := List.mem_map.mp hc
    exact toByte_ne_invalid s (SpecId.mem_all s) e (List.mem_of_mem_take he)
  · obtain ⟨e, he, rfl⟩ := List.mem_map.mp hc
    exact toByte_ne_invalid s (SpecId.mem_all s) e (List.mem_of_mem_drop he)

theorem baseCalls_prev {p spec : SpecId} (h : spec.prev = some p) :
    (baseCalls spec : List (Override ι)) = baseCalls p ++ specCalls spec := by
  have hfilter : ∀ p spec : SpecId, spec.prev = some p →
      SpecId.all.filter spec.enables = SpecId.all.filter p.enables ++ [spec] := by
    intro p spec
    cases spec <;> cases p <;> decide
  rw [baseCalls, hfilter p spec h, List.flatMap_append, List.flatMap_singleton, baseCalls]

omit [Instructions ι] in
theorem applyAll_origin (calls : List (Override ι)) (c : OpcodeConfig ι) (origin : SpecId) :
    Override.applyAll { c with origin := origin } calls =
      { Override.applyAll c calls with origin := origin } := by
  induction calls generalizing c with
  | nil => rfl
  | cons call calls ih =>
    have hcall : call.apply { c with origin := origin } =
        { call.apply c with origin := origin } := by
      cases call with
      | setStaticGas op cost =>
        simp only [Override.apply, OpcodeConfig.setStaticGas]
        split_ifs <;> rfl
      | setInstruction op gas instr =>
        simp only [Override.apply, OpcodeConfig.setInstruction, OpcodeConfig.setStaticGas]
        split_ifs <;> rfl
    show Override.applyAll (call.apply _) calls = _
    rw [hcall, ih]
    rfl

theorem base_prev {p spec : SpecId} (h : spec.prev = some p) :
    (OpcodeConfig.base spec : OpcodeConfig ι) =
      { Override.applyAll (.base p) (specCalls spec) with origin := spec } := by
  have hbase : (OpcodeConfig.base spec : OpcodeConfig ι) =
      Override.applyAll { OpcodeConfig.base p with origin := spec } (specCalls spec) := by
    rw [OpcodeConfig.base, ← baseCalls, baseCalls_prev h, Override.applyAll, List.foldl_append]
    exact congrArg (Override.applyAll · (specCalls spec))
      (applyAll_origin (baseCalls p) (.empty p) spec)
  rw [hbase, applyAll_origin]

theorem specCalls_length {p spec : SpecId} (h : spec.prev = some p) :
    (specCalls spec : List (Override ι)).length ≤ 127 := by
  have hlen : (specCalls spec : List (Override ι)).length =
      (Evm2.OpcodeConfig.staticGasOf spec).length := by
    simp only [specCalls, List.length_append, List.length_map, List.length_take, List.length_drop]
    omega
  rw [hlen]
  revert h
  cases spec <;> cases p <;> decide +kernel

/-- **A base config can reuse the table of the one before.** -/
theorem base_rebuilds {p spec : SpecId} (h : spec.prev = some p) (op : Byte) :
    (OpcodeConfig.base p : OpcodeConfig ι).Rebuilds (.base spec) op := by
  obtain ⟨n, hn, hcount⟩ :=
    Override.counted_applyAll (specCalls spec) (OpcodeConfig.base p : OpcodeConfig ι) op
  have hle := List.length_filter_le (fun call : Override ι => call.op = op) (specCalls spec)
  have hlt := specCalls_length (ι := ι) h
  cases hu : (OpcodeConfig.base spec : OpcodeConfig ι).isUnknownOpcode op with
  | false =>
    by_cases hr : (OpcodeConfig.base spec : OpcodeConfig ι).revision op =
        (OpcodeConfig.base p : OpcodeConfig ι).revision op
    · right
      rw [base_prev h] at hr ⊢
      exact (hcount.agree_of_revision (by omega) hr).same
    · exact .inl ⟨hu, hr⟩
  | true =>
    -- neither config has a call about the opcode
    have hu' : (OpcodeConfig.base p : OpcodeConfig ι).isUnknownOpcode op = true := by
      rw [base_prev h] at hu
      exact Override.isUnknownOpcode_applyAll (specCalls spec) _ hu
    have hs := (base_unknown hu).same
    have hp := (base_unknown hu').same
    exact .inr ⟨hs.1.trans hp.1.symm, hs.2.trans hp.2.symm⟩

/-- **The tables of the base selector implement the base configs.** -/
theorem baseTable_implements (mode : InspectMode) (spec : SpecId) :
    ∃ table, (baseTables mode : List (InstrTable ι))[SpecId.all.idxOf spec]? = some table ∧
      table.Implements (.base spec) := by
  refine makeSelectorTables_implements mode (fun p spec h => base_rebuilds h) SpecId.all
    (by decide) none (fun s hs => ?_) _ spec ?_
  · cases hs
    refine makeTable_none_implements mode fun op hu => ?_
    have hop := (base_unknown hu).same
    have hinvalid := (base_invalid (ι := ι) .frontier).same
    exact ⟨hinvalid.1.trans hop.1.symm, hinvalid.2.trans hop.2.symm⟩
  · cases spec <;> rfl

/-! ## The tables of a config -/

/-- Overrides of the base config of the specification itself are no trouble, as long as no counter
wraps around and static gas is set only for opcodes that have an instruction. -/
theorem rebuilds_of_overrides {spec : SpecId} {c : OpcodeConfig ι} {calls : List (Override ι)}
    (hc : c = Override.applyAll (.base spec) calls)
    (hcount : ∀ op, (calls.filter fun call => call.op = op).length ≤ 127)
    (hdefined : ∀ call ∈ calls, c.isUnknownOpcode call.op = false) (op : Byte) :
    (OpcodeConfig.base spec).Rebuilds c op := by
  subst hc
  obtain ⟨n, hn, h⟩ := Override.counted_applyAll calls (OpcodeConfig.base spec) op
  have hle := hcount op
  cases hu : (Override.applyAll (.base spec) calls).isUnknownOpcode op with
  | false =>
    by_cases hr : (Override.applyAll (.base spec) calls).revision op =
        (OpcodeConfig.base spec : OpcodeConfig ι).revision op
    · exact .inr (h.agree_of_revision (by omega) hr).same
    · exact .inl ⟨hu, hr⟩
  | true =>
    refine .inr (Override.agree_applyAll _ fun call hcall hop => ?_).same
    have hknown := hdefined call hcall
    rw [hop, hu] at hknown
    cases hknown

theorem configInstrTable_implements_iff (config : EvmConfig ι) (mode : InspectMode) :
    (configInstrTable config mode).Implements config.opcodeConfig ↔
      ∀ op, (OpcodeConfig.base config.baseSpecId).Rebuilds config.opcodeConfig op := by
  obtain ⟨table, htable, himpl⟩ := baseTable_implements (ι := ι) mode config.baseSpecId
  rw [configInstrTable, htable]
  exact makeTable_implements_iff mode himpl

theorem forConfig_instructions (config : EvmConfig ι) :
    (ExecutionConfig.forConfig config).instructions = configInstrTable config .noInspector := by
  simp only [ExecutionConfig.forConfig]

theorem forConfig_inspectInstructions (config : EvmConfig ι) :
    (ExecutionConfig.forConfig config).inspectInstructions =
      configInstrTable config .dynInspector := by
  simp only [ExecutionConfig.forConfig]

/-- **When the tables of a config implement it**: if every opcode that has the revision of the base
config of `BASE_SPEC_ID`, or has no instruction, is as in that config. -/
theorem forConfig_implements_iff (config : EvmConfig ι) :
    ((ExecutionConfig.forConfig config).instructions.Implements config.opcodeConfig ∧
        (ExecutionConfig.forConfig config).inspectInstructions.Implements config.opcodeConfig ↔
      ∀ op, (OpcodeConfig.base config.baseSpecId).Rebuilds config.opcodeConfig op) ∧
    (∀ calls, config.opcodeConfig = Override.applyAll (.base config.baseSpecId) calls →
      (∀ op, (calls.filter fun call => call.op = op).length ≤ 127) →
      (∀ call ∈ calls, config.opcodeConfig.isUnknownOpcode call.op = false) →
      (ExecutionConfig.forConfig config).instructions.Implements config.opcodeConfig ∧
        (ExecutionConfig.forConfig config).inspectInstructions.Implements config.opcodeConfig) ∧
    ∀ mode spec, ∃ table,
      (baseTables mode : List (InstrTable ι))[SpecId.all.idxOf spec]? = some table ∧
        table.Implements (.base spec) := by
  have hiff := configInstrTable_implements_iff config
  rw [forConfig_instructions, forConfig_inspectInstructions]
  refine ⟨⟨fun h => (hiff .noInspector).mp h.1, fun h => ?_⟩, fun calls hc hcount hdefined => ?_,
    baseTable_implements⟩
  · exact ⟨(hiff .noInspector).mpr h, (hiff .dynInspector).mpr h⟩
  · have hall := rebuilds_of_overrides hc hcount hdefined
    exact ⟨(hiff .noInspector).mpr hall, (hiff .dynInspector).mpr hall⟩

end Base

@[reducible] def Instructions.byOpCode : Instructions (Option OpCode) where
  opInstr op := ⟨some op, ⟨false, false⟩⟩
  invalid := none

def cheapAdd : EvmConfig (Option OpCode) :=
  letI := Instructions.byOpCode
  ⟨.osaka, Override.applyAll (.base .osaka) [.setStaticGas 0x01 1]⟩

def londonOnShanghai : EvmConfig (Option OpCode) :=
  letI := Instructions.byOpCode
  ⟨.shanghai, .base .london⟩

/-- The base config of Frontier with another price of `SLOAD`, on top of Tangerine. -/
def frontierOnTangerine : EvmConfig (Option OpCode) :=
  letI := Instructions.byOpCode
  ⟨.tangerine, Override.applyAll (.base .frontier) [.setStaticGas 0x54 5]⟩

theorem entry_cheapAdd :
    cheapAdd.opcodeConfig.entry 0x01 = ⟨1, some ⟨some .add, ⟨false, false⟩⟩, 3⟩ := by
  simp only [cheapAdd, OpcodeConfig.base, entry_applyAll]
  decide +kernel

theorem entry_londonOnShanghai : londonOnShanghai.opcodeConfig.entry 0x5F = ⟨0, none, 0⟩ := by
  simp only [londonOnShanghai, OpcodeConfig.base, entry_applyAll]
  decide +kernel

theorem entry_frontierOnTangerine :
    frontierOnTangerine.opcodeConfig.entry 0x54 = ⟨5, some ⟨some .sload, ⟨false, false⟩⟩, 3⟩ := by
  simp only [frontierOnTangerine, OpcodeConfig.base, entry_applyAll]
  decide +kernel

theorem entry_shanghai :
    letI := Instructions.byOpCode
    (OpcodeConfig.base londonOnShanghai.baseSpecId : OpcodeConfig (Option OpCode)).entry 0x5F =
      ⟨2, some ⟨some (.push 0), ⟨false, false⟩⟩, 2⟩ := by
  simp only [OpcodeConfig.base, entry_applyAll]
  decide +kernel

theorem entry_tangerine :
    letI := Instructions.byOpCode
    (OpcodeConfig.base frontierOnTangerine.baseSpecId : OpcodeConfig (Option OpCode)).entry 0x54 =
      ⟨200, some ⟨some .sload, ⟨false, false⟩⟩, 3⟩ := by
  simp only [OpcodeConfig.base, entry_applyAll]
  decide +kernel

theorem forConfig_implements_cheapAdd :
    letI := Instructions.byOpCode
    (ExecutionConfig.forConfig cheapAdd).instructions.Implements cheapAdd.opcodeConfig ∧
      cheapAdd.opcodeConfig.staticGas 0x01 = 1 := by
  let _ := Instructions.byOpCode
  obtain ⟨hgas, hinstr, -⟩ := OpcodeConfig.entry_eq entry_cheapAdd
  have hspec : cheapAdd.baseSpecId = .osaka := rfl
  have hcalls := (forConfig_implements_iff cheapAdd).2.1 [.setStaticGas 0x01 1]
    (by rw [hspec]; unfold cheapAdd; dsimp only)
    (fun op => (List.length_filter_le _ _).trans (by decide))
    (fun call hcall => by
      rw [List.mem_singleton] at hcall
      subst hcall
      simp only [OpcodeConfig.isUnknownOpcode, Override.op, hinstr, Option.isNone_some])
  exact ⟨hcalls.1, hgas⟩

theorem configInstrTable_reused {ι : Type} [Instructions ι] {config : EvmConfig ι} {op : Byte}
    (mode : InspectMode)
    (h : config.opcodeConfig.revision op =
        (OpcodeConfig.base config.baseSpecId : OpcodeConfig ι).revision op ∨
      config.opcodeConfig.isUnknownOpcode op = true) :
    (configInstrTable config mode op).staticGas =
        (OpcodeConfig.base config.baseSpecId : OpcodeConfig ι).staticGas op ∧
      (configInstrTable config mode op).instruction =
        (OpcodeConfig.base config.baseSpecId : OpcodeConfig ι).instruction op := by
  obtain ⟨table, htable, himpl⟩ := baseTable_implements (ι := ι) mode config.baseSpecId
  have hkeep : (instructionChanged config.opcodeConfig (some (.base config.baseSpecId)) op &&
      !config.opcodeConfig.isUnknownOpcode op) = false := by
    rcases h with h | h
    · simp [instructionChanged, h]
    · simp [h]
  rw [configInstrTable, htable, makeTable_apply, hkeep]
  exact himpl op

/-- London has no `PUSH0`, but the table runs it; and the price of `SLOAD`, which was changed once,
passes for the price of Tangerine. -/
theorem forConfig_reuses_entries_of_other_spec :
    letI := Instructions.byOpCode
    (londonOnShanghai.opcodeConfig.isUnknownOpcode 0x5F = true ∧
      ((ExecutionConfig.forConfig londonOnShanghai).instructions 0x5F).instruction.instr =
        some (.push 0)) ∧
    frontierOnTangerine.opcodeConfig.staticGas 0x54 = 5 ∧
      ((ExecutionConfig.forConfig frontierOnTangerine).instructions 0x54).staticGas = 200 := by
  let _ := Instructions.byOpCode
  obtain ⟨-, hlondon, -⟩ := OpcodeConfig.entry_eq entry_londonOnShanghai
  obtain ⟨-, hshanghai, -⟩ := OpcodeConfig.entry_eq entry_shanghai
  obtain ⟨hfrontier, -, hrev⟩ := OpcodeConfig.entry_eq entry_frontierOnTangerine
  obtain ⟨htangerine, -, hrev'⟩ := OpcodeConfig.entry_eq entry_tangerine
  have hunknown : londonOnShanghai.opcodeConfig.isUnknownOpcode 0x5F = true := by
    simp only [OpcodeConfig.isUnknownOpcode, hlondon, Option.isNone_none]
  refine ⟨⟨hunknown, ?_⟩, hfrontier, ?_⟩
  · have h := (configInstrTable_reused .noInspector (.inr hunknown)).2
    rw [forConfig_instructions, h]
    simp only [OpcodeConfig.instruction, hshanghai, Option.getD_some]
  · have h := (configInstrTable_reused .noInspector (.inl (hrev.trans hrev'.symm))).1
    rw [forConfig_instructions, h]
    exact htangerine

end Dispatch

end Evm2
