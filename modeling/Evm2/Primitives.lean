import Mathlib

/-!
# Words, addresses, bytes and bytecode

* `Word` (`U256`), `Address`, `B256`, `Bytes`; big-endian conversions `beBytes` and `ofBeBytes`.
-/

namespace Evm2

/-- A 256-bit EVM word. -/
abbrev Word := BitVec 256

/-- An account address. -/
abbrev Address := BitVec 160

/-- A 256-bit hash. -/
abbrev B256 := BitVec 256

abbrev Byte := BitVec 8

abbrev Bytes := List Byte

/-- A 64-bit machine integer. -/
abbrev U64 := BitVec 64

def Address.withLastByte (b : Byte) : Address := b.setWidth 160

def beBytes (n x : Nat) : Bytes :=
  (List.range n).map fun i => BitVec.ofNat 8 (x >>> (8 * (n - 1 - i)))

def ofBeBytes (bs : Bytes) : Nat := bs.foldl (fun acc b => acc * 256 + b.toNat) 0

@[simp] theorem length_beBytes (n x : Nat) : (beBytes n x).length = n := by simp [beBytes]

theorem beBytes_succ (n x : Nat) :
    beBytes (n + 1) x = beBytes n (x >>> 8) ++ [BitVec.ofNat 8 x] := by
  simp only [beBytes, List.range_succ, List.map_append, List.map_cons, List.map_nil]
  congr 1
  · refine List.map_congr_left fun i hi => ?_
    rw [List.mem_range] at hi
    rw [← Nat.shiftRight_add]
    congr 2
    omega
  · simp

theorem ofBeBytes_concat (bs : Bytes) (b : Byte) :
    ofBeBytes (bs ++ [b]) = ofBeBytes bs * 256 + b.toNat := by
  simp [ofBeBytes]

theorem ofBeBytes_beBytes (n x : Nat) : ofBeBytes (beBytes n x) = x % 256 ^ n := by
  induction n generalizing x with
  | zero => simp [beBytes, ofBeBytes, Nat.mod_one]
  | succ n ih =>
    have hpow : 256 ^ (n + 1) = 256 * 256 ^ n := Nat.pow_succ'
    have h8 : (2 : Nat) ^ 8 = 256 := rfl
    rw [beBytes_succ, ofBeBytes_concat, ih, Nat.shiftRight_eq_div_pow, BitVec.toNat_ofNat, h8, hpow,
      Nat.mod_mul]
    omega

theorem ofBeBytes_append (a b : Bytes) :
    ofBeBytes (a ++ b) = ofBeBytes a * 256 ^ b.length + ofBeBytes b := by
  induction b using List.reverseRecOn with
  | nil => simp [ofBeBytes]
  | append_singleton b x ih =>
    rw [← List.append_assoc, ofBeBytes_concat, ih, ofBeBytes_concat, List.length_append,
      List.length_singleton, Nat.pow_succ, Nat.add_mul, Nat.mul_assoc, Nat.add_assoc]

theorem ofBeBytes_zeros (n : Nat) : ofBeBytes (List.replicate n 0) = 0 := by
  induction n with
  | zero => rfl
  | succ n ih =>
    rw [List.replicate_succ', ofBeBytes_concat, ih]
    rfl

theorem beBytes_ofBeBytes (bs : Bytes) : beBytes bs.length (ofBeBytes bs) = bs := by
  induction bs using List.reverseRecOn with
  | nil => rfl
  | append_singleton bs b ih =>
    have hb : b.toNat < 256 := b.isLt
    have hshift : (ofBeBytes bs * 256 + b.toNat) >>> 8 = ofBeBytes bs := by
      rw [Nat.shiftRight_eq_div_pow]
      omega
    rw [List.length_append, List.length_singleton, beBytes_succ, ofBeBytes_concat, hshift, ih]
    congr 2
    refine BitVec.eq_of_toNat_eq ?_
    rw [BitVec.toNat_ofNat]
    omega

def Address.intoWord (a : Address) : Word := a.setWidth 256

def Word.toAddress (w : Word) : Address := w.setWidth 160

theorem Address.toAddress_intoWord (a : Address) : Word.toAddress a.intoWord = a := by
  simp [Word.toAddress, Address.intoWord]

/-! ## Hashing -/

def KECCAK256_EMPTY : B256 :=
  0xc5d2460186f7233c927e7db2dcc703c0e500b653ca82273b7bfad8045d85a470#256

/-- The hash function `keccak256`. It is a library function: nothing is assumed about it but its
value on the empty string, which the code writes down as a constant. -/
class Keccak where
  keccak256 : Bytes → B256
  keccak256_nil : keccak256 [] = KECCAK256_EMPTY

export Keccak (keccak256)

/-- A stand-in for the hash function, to evaluate the model on inputs where it does not matter. -/
@[reducible]
def Keccak.const : Keccak := ⟨fun _ => KECCAK256_EMPTY, rfl⟩

/-! ## Bytecode -/

inductive BytecodeKind
  | legacy
  | eip7702
  deriving DecidableEq, Repr

def eip7702Marker : Bytes := [0xEF#8, 0x01#8, 0x00#8]

/-- Bytecode. A delegation designator is always well formed, so it is its target. -/
inductive Bytecode
  | legacy (original : Bytes)
  | eip7702 (delegated : Address)
  deriving DecidableEq, Repr

namespace Bytecode

def new : Bytecode := .legacy []

instance : Inhabited Bytecode := ⟨new⟩

def newLegacy (raw : Bytes) : Bytecode := .legacy raw

def newEip7702 (address : Address) : Bytecode := .eip7702 address

def kind : Bytecode → BytecodeKind
  | .legacy _ => .legacy
  | .eip7702 _ => .eip7702

def isEip7702 (c : Bytecode) : Bool := c.kind == .eip7702

def eip7702Address : Bytecode → Option Address
  | .legacy _ => none
  | .eip7702 a => some a

def originalBytes : Bytecode → Bytes
  | .legacy bs => bs
  | .eip7702 a => eip7702Marker ++ beBytes 20 a.toNat

def len (c : Bytecode) : Nat := c.originalBytes.length

def isEmpty (c : Bytecode) : Bool := c.len == 0

def hashSlow [Keccak] (c : Bytecode) : B256 := keccak256 c.originalBytes

@[simp] theorem isEmpty_new : new.isEmpty = true := rfl

@[simp] theorem isEmpty_legacy (bs : Bytes) : (legacy bs).isEmpty = bs.isEmpty := by
  cases bs <;> rfl

@[simp] theorem isEmpty_eip7702 (a : Address) : (eip7702 a).isEmpty = false := by
  simp [isEmpty, len, originalBytes, eip7702Marker]

@[simp] theorem hashSlow_new [Keccak] : new.hashSlow = KECCAK256_EMPTY := Keccak.keccak256_nil

end Bytecode

inductive Eip7702DecodeError
  | invalidLength
  | invalidMagic
  | unsupportedVersion
  deriving DecidableEq, Repr

inductive BytecodeDecodeError
  | eip7702 (e : Eip7702DecodeError)
  deriving DecidableEq, Repr

namespace Bytecode

def checkEip7702 (bs : Bytes) : Except Eip7702DecodeError Unit :=
  if bs.length ≠ 23 then .error .invalidLength
  else if bs.take 2 ≠ eip7702Marker.take 2 then .error .invalidMagic
  else if bs[2]? ≠ some 0 then .error .unsupportedVersion
  else .ok ()

def newEip7702Raw (bs : Bytes) : Except Eip7702DecodeError Bytecode :=
  (checkEip7702 bs).map fun _ => .eip7702 (BitVec.ofNat 160 (ofBeBytes (bs.drop 3)))

def newRawChecked (bs : Bytes) : Except BytecodeDecodeError Bytecode :=
  if bs.take 2 = eip7702Marker.take 2 then (newEip7702Raw bs).mapError .eip7702
  else .ok (newLegacy bs)

theorem originalBytes_of_newRawChecked {bs : Bytes} {code : Bytecode}
    (h : newRawChecked bs = .ok code) : code.originalBytes = bs := by
  unfold newRawChecked at h
  split_ifs at h with hmagic
  · unfold newEip7702Raw checkEip7702 at h
    split_ifs at h with hlen hm hv
    · cases h
    · cases h
    · cases h
    · simp only [not_not] at hlen hv
      cases h
      -- the marker and the address make up the bytes
      have hdrop : (bs.drop 3).length = 20 := by rw [List.length_drop, hlen]
      have hmark : bs.take 3 = eip7702Marker := by
        rw [List.take_add_one, hmagic, hv]
        rfl
      have hlt : ofBeBytes (bs.drop 3) < 2 ^ 160 := by
        have := ofBeBytes_beBytes 20 (ofBeBytes (bs.drop 3))
        rw [← hdrop, beBytes_ofBeBytes, hdrop] at this
        rw [this]
        exact Nat.mod_lt _ (Nat.pow_pos (by decide))
      change eip7702Marker ++ beBytes 20 (BitVec.ofNat 160 _).toNat = bs
      rw [ BitVec.toNat_ofNat, Nat.mod_eq_of_lt hlt, ← hmark]
      conv_rhs => rw [← List.take_append_drop 3 bs]
      rw [← hdrop, beBytes_ofBeBytes]
  · cases h
    rfl

end Bytecode

/-- A log record. -/
structure Log where
  address : Address
  topics : List B256
  data : Bytes
  deriving DecidableEq, Repr

/-! ## Errors -/

/-- `DatabaseError`: an erased error and its classification. -/
structure DatabaseError where
  message : String
  fatal : Bool
  deriving DecidableEq, Repr

inductive LoadError
  | coldLoadSkipped
  | database (e : DatabaseError)
  deriving DecidableEq, Repr

end Evm2
