import Evm2.Interpreter.Instructions

/-!
# Stack inputs and outputs

How many words an instruction takes from the stack, and how many it leaves in their place.
-/

namespace Evm2.OpCode

/-- `OpInfo::inputs` and `OpInfo::outputs`. Those of `DUPN`, `SWAPN` and `EXCHANGE` depend on the
immediate. -/
def stackIo : OpCode → ℕ × ℕ
  | stop | jumpdest | invalid => (0, 0)
  | add | mul | sub | div | sdiv | mod | smod | exp | signextend | lt | gt | slt | sgt | eq | and
  | or | xor | byte | shl | shr | sar | keccak256 => (2, 1)
  | addmod | mulmod => (3, 1)
  | iszero | not | clz | balance | calldataload | extcodesize | extcodehash | blockhash | blobhash
  | mload | sload | tload => (1, 1)
  | address | origin | caller | callvalue | calldatasize | codesize | gasprice | returndatasize
  | coinbase | timestamp | number | difficulty | gaslimit | chainid | selfbalance | basefee
  | blobbasefee | slotnum | pc | msize | gas => (0, 1)
  | calldatacopy | codecopy | returndatacopy | mcopy => (3, 0)
  | extcodecopy => (4, 0)
  | pop | jump | selfdestruct => (1, 0)
  | mstore | mstore8 | sstore | tstore | jumpi | «return» | revert => (2, 0)
  | push _ => (0, 1)
  | dup n => (n + 1, n + 2)
  | swap n => (n + 2, n + 2)
  | log n => (n + 2, 0)
  | dupn => (0, 1)
  | swapn | exchange => (0, 0)
  | create => (3, 1)
  | create2 => (4, 1)
  | call | callcode => (7, 1)
  | delegatecall | staticcall => (6, 1)

end Evm2.OpCode
