import Evm2.Version.Version

/-!
# Opcodes and their configuration

Instructions replaced by other implementations are left out.
-/

namespace Evm2

/-- `OpCode`. `PUSH`, `DUP`, `SWAP` and `LOG` carry their number, `DUP1` and `SWAP1` being `0`. -/
inductive OpCode
  | stop | add | mul | sub | div | sdiv | mod | smod | addmod | mulmod | exp | signextend
  | lt | gt | slt | sgt | eq | iszero | and | or | xor | not | byte | shl | shr | sar | clz
  | keccak256
  | address | balance | origin | caller | callvalue | calldataload | calldatasize | calldatacopy
  | codesize | codecopy | gasprice | extcodesize | extcodecopy | returndatasize | returndatacopy
  | extcodehash
  | blockhash | coinbase | timestamp | number | difficulty | gaslimit | chainid | selfbalance
  | basefee | blobhash | blobbasefee | slotnum
  | pop | mload | mstore | mstore8 | sload | sstore | jump | jumpi | pc | msize | gas | jumpdest
  | tload | tstore | mcopy
  | push (n : Fin 33) | dup (n : Fin 16) | swap (n : Fin 16) | log (n : Fin 5)
  | dupn | swapn | exchange
  | create | call | callcode | «return» | delegatecall | create2 | staticcall | revert | invalid
  | selfdestruct
  deriving DecidableEq, Repr

/-- There are literals for the numbers of `PUSH`. -/
instance neZeroPush : NeZero 33 := ⟨by decide⟩

/-- There are literals for the numbers of `LOG`. -/
instance neZeroLog : NeZero 5 := ⟨by decide⟩

namespace OpCode

/-- The opcodes from `0x00` on that have no number of their own, with their bytes. -/
def table : List (Nat × OpCode) :=
  [(0x00, stop), (0x01, add), (0x02, mul), (0x03, sub), (0x04, div), (0x05, sdiv), (0x06, mod),
    (0x07, smod), (0x08, addmod), (0x09, mulmod), (0x0A, exp), (0x0B, signextend), (0x10, lt),
    (0x11, gt), (0x12, slt), (0x13, sgt), (0x14, eq), (0x15, iszero), (0x16, and), (0x17, or),
    (0x18, xor), (0x19, not), (0x1A, byte), (0x1B, shl), (0x1C, shr), (0x1D, sar), (0x1E, clz),
    (0x20, keccak256), (0x30, address), (0x31, balance), (0x32, origin), (0x33, caller),
    (0x34, callvalue), (0x35, calldataload), (0x36, calldatasize), (0x37, calldatacopy),
    (0x38, codesize), (0x39, codecopy), (0x3A, gasprice), (0x3B, extcodesize), (0x3C, extcodecopy),
    (0x3D, returndatasize), (0x3E, returndatacopy), (0x3F, extcodehash), (0x40, blockhash),
    (0x41, coinbase), (0x42, timestamp), (0x43, number), (0x44, difficulty), (0x45, gaslimit),
    (0x46, chainid), (0x47, selfbalance), (0x48, basefee), (0x49, blobhash), (0x4A, blobbasefee),
    (0x4B, slotnum), (0x50, pop), (0x51, mload), (0x52, mstore), (0x53, mstore8), (0x54, sload),
    (0x55, sstore), (0x56, jump), (0x57, jumpi), (0x58, pc), (0x59, msize), (0x5A, gas),
    (0x5B, jumpdest), (0x5C, tload), (0x5D, tstore), (0x5E, mcopy), (0xE6, dupn), (0xE7, swapn),
    (0xE8, exchange), (0xF0, create), (0xF1, call), (0xF2, callcode), (0xF3, «return»),
    (0xF4, delegatecall), (0xF5, create2), (0xFA, staticcall), (0xFD, revert), (0xFE, invalid),
    (0xFF, selfdestruct)]

def new (b : Byte) : Option OpCode :=
  let n := b.toNat
  if h : 0x5F ≤ n ∧ n ≤ 0x7F then some (push ⟨n - 0x5F, by omega⟩)
  else if h : 0x80 ≤ n ∧ n ≤ 0x8F then some (dup ⟨n - 0x80, by omega⟩)
  else if h : 0x90 ≤ n ∧ n ≤ 0x9F then some (swap ⟨n - 0x90, by omega⟩)
  else if h : 0xA0 ≤ n ∧ n ≤ 0xA4 then some (log ⟨n - 0xA0, by omega⟩)
  else table.lookup n

def instructionLen : OpCode → Nat
  | jump | jumpi => 0
  | push n => n + 1
  | dupn | swapn | exchange => 2
  | _ => 1

end OpCode

structure OpcodeConfig where
  staticGas : OpCode → Option (BitVec 16)

namespace OpcodeConfig

def family {n : Nat} (op : Fin n → OpCode) (cost : Nat) : List (OpCode × Nat) :=
  (List.finRange n).map fun i => (op i, cost)

/-- The opcodes that a specification adds, or whose static gas it changes. `INVALID` is never
defined. -/
def staticGasOf : SpecId → List (OpCode × Nat)
  | .frontier =>
    [(.stop, 0), (.add, 3), (.mul, 5), (.sub, 3), (.div, 5), (.sdiv, 5), (.mod, 5), (.smod, 5),
      (.addmod, 8), (.mulmod, 8), (.exp, 10), (.signextend, 5), (.lt, 3), (.gt, 3), (.slt, 3),
      (.sgt, 3), (.eq, 3), (.iszero, 3), (.and, 3), (.or, 3), (.xor, 3), (.not, 3), (.byte, 3),
      (.keccak256, 30), (.address, 2), (.balance, 20), (.origin, 2), (.caller, 2), (.callvalue, 2),
      (.calldataload, 3), (.calldatasize, 2), (.calldatacopy, 3), (.codesize, 2), (.codecopy, 3),
      (.gasprice, 2), (.extcodesize, 20), (.extcodecopy, 20), (.blockhash, 20), (.coinbase, 2),
      (.timestamp, 2), (.number, 2), (.difficulty, 2), (.gaslimit, 2), (.pop, 2), (.mload, 3),
      (.mstore, 3), (.mstore8, 3), (.sload, 50), (.sstore, 0), (.jump, 8), (.jumpi, 10), (.pc, 2),
      (.msize, 2), (.gas, 2), (.jumpdest, 1), (.create, 0), (.call, 40), (.callcode, 40),
      (.return, 0), (.selfdestruct, 0)] ++
    family (fun n : Fin 32 => .push n.succ) 3 ++ family .dup 3 ++ family .swap 3 ++ family .log 375
  | .homestead => [(.delegatecall, 40)]
  | .tangerine => [(.sload, 200), (.balance, 400), (.extcodesize, 700), (.extcodecopy, 700),
      (.create, 0), (.call, 700), (.callcode, 700), (.delegatecall, 700), (.selfdestruct, 5000)]
  | .spuriousDragon => [(.exp, 10)]
  | .byzantium => [(.returndatasize, 2), (.returndatacopy, 3), (.staticcall, 700), (.revert, 0)]
  | .petersburg => [(.shl, 3), (.shr, 3), (.sar, 3), (.extcodehash, 400), (.create2, 0)]
  | .istanbul => [(.chainid, 2), (.selfbalance, 5), (.sload, 800), (.balance, 700),
      (.extcodehash, 700), (.sstore, 0)]
  | .berlin => [(.sload, 100), (.balance, 100), (.extcodesize, 100), (.extcodehash, 100),
      (.extcodecopy, 100), (.sstore, 0), (.call, 100), (.callcode, 100), (.delegatecall, 100),
      (.staticcall, 100), (.selfdestruct, 5000)]
  | .london => [(.basefee, 2), (.sstore, 0), (.selfdestruct, 5000)]
  | .shanghai => [(.push 0, 2), (.create, 0), (.create2, 0)]
  | .cancun => [(.blobhash, 3), (.blobbasefee, 2), (.tload, 100), (.tstore, 100), (.mcopy, 3)]
  | .osaka => [(.clz, 5)]
  | .amsterdam => [(.dupn, 3), (.swapn, 3), (.exchange, 3), (.slotnum, 2), (.create, 0),
      (.create2, 0), (.sstore, 0), (.call, 100), (.callcode, 100), (.delegatecall, 100),
      (.staticcall, 100), (.extcodesize, 200), (.extcodecopy, 200), (.selfdestruct, 5000)]
  | .merge | .prague => []

def base (spec : SpecId) : OpcodeConfig where
  staticGas op :=
    (((SpecId.all.filter spec.enables).flatMap staticGasOf).reverse.lookup op).map (BitVec.ofNat 16)

end OpcodeConfig

end Evm2
