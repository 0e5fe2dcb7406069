import Evm2.Interpreter.Frame

/-!
# Instructions that only make queries

Arithmetic, environment, memory, stack and control instructions, and the reads of accounts and
storage. `SimpleInstr.execute` dispatches on the opcode; the system instructions, which it does not
know, are in another module.
-/

namespace Evm2

open Instr (checkBounds popUnchecked write nullary unary binary ternary ofExcept ask get modify
  stop)

/-! ## Code -/

/-- Scan legacy code for the jump destination `target`; `skip` bytes are push data. -/
def scanJumpdest : Bytes → Nat → Nat → Bool
  | [], _, _ => false
  | b :: _, skip, 0 => skip == 0 && b == 0x5B#8
  | b :: bs, skip, target + 1 =>
    let skip' :=
      if skip ≠ 0 then skip - 1
      else if 0x60 ≤ b.toNat ∧ b.toNat ≤ 0x7F then b.toNat - 0x5F else 0
    scanJumpdest bs skip' target

/-- `BytecodeRef::is_valid_jumpdest`; a delegation designator has no jump destinations. -/
def Bytecode.isValidJumpdest : Bytecode → Nat → Bool
  | .legacy code, target => scanJumpdest code 0 target
  | .eip7702 _, _ => false

/-- The byte at `pc`. Code is padded with zero bytes, and zero is `STOP`. -/
def Bytecode.byteAt (c : Bytecode) (pc : Nat) : Byte := c.originalBytes.getD pc 0

def Bytecode.immediate (c : Bytecode) (pc n : Nat) : Bytes := paddedSlice c.originalBytes (pc + 1) n

def decodeSingle (x : Nat) : Option Nat :=
  if x ≤ 90 ∨ 128 ≤ x then some ((x + 145) % 256) else none

def decodePair (x : Nat) : Option (Nat × Nat) :=
  if 81 < x ∧ x < 128 then none
  else
    let k := x ^^^ 143
    let q := k / 16
    let r := k % 16
    if q < r then some (q + 1, r + 1) else some (r + 1, 29 - q)

namespace SimpleInstr

variable (env : FrameEnv)

def decodeImmediate {α : Type} (decode : Nat → Option α) : SimpleInstr α := do
  let f ← get
  match decode ((env.message.code.immediate f.pc 1).headD 0).toNat with
  | some a => return a
  | none => stop .invalidImmediateEncoding

def BLOCK_HASH_HISTORY : Nat := 256

def blockhash (number : Word) : SimpleInstr Word := do
  if env.block.number.toNat ≤ number.toNat ∨
      number.toNat + BLOCK_HASH_HISTORY < env.block.number.toNat then return 0
  else ask (Query.blockHash number)

def selfbalance : SimpleInstr Word := do
  let account ← ask (.loadAccount env.message.destination false false)
  return (← ofExcept account).balance

def jumpInner (target : Word) : SimpleInstr Unit := do
  if env.message.code.isValidJumpdest target.toUsizeSaturated then
    modify fun f => { f with pc := target.toUsizeSaturated }
  else stop .invalidJump

def returnInner (result : InstrStop) : SimpleInstr Unit := do
  checkBounds 2 0
  let offset ← popUnchecked
  let len ← popUnchecked
  let len ← ofExcept len.toUsize
  if len ≠ 0 then
    let offset ← ofExcept offset.toUsize
    if 2 ^ 64 ≤ offset + len then stop .memoryOOG
    resizeMemory env offset len
    modify fun f => { f with output := (offset % 2 ^ 32, (offset + len) % 2 ^ 32) }
  else modify fun f => { f with output := (0, 0) }
  stop result

def keccak256Instr [Keccak] (offset len : Word) : SimpleInstr Word := do
  let len ← ofExcept len.toUsize
  spend (env.gasParams.keccak256WordCost len)
  if len = 0 then return KECCAK256_EMPTY
  else
    let offset ← ofExcept offset.toUsize
    resizeMemory env offset len
    return keccak256 (memorySlice (← get).memory offset len)

def copyInstr (data : Bytes) : SimpleInstr Unit := do
  checkBounds 3 0
  let memoryOffset ← popUnchecked
  let dataOffset ← popUnchecked
  let len ← popUnchecked
  let len ← ofExcept len.toUsize
  spend (env.gasParams.copyCost len)
  copyData env memoryOffset dataOffset len data

def extcodecopy : SimpleInstr Unit := do
  checkBounds 4 0
  let addr ← popUnchecked
  let memoryOffset ← popUnchecked
  let codeOffset ← popUnchecked
  let len ← popUnchecked
  let len ← ofExcept len.toUsize
  spend (env.gasParams.extcodecopyCost len)
  let memoryOffset ← (if len ≠ 0 then do
      let memoryOffset ← ofExcept memoryOffset.toUsize
      resizeMemory env memoryOffset len
      return memoryOffset
    else pure 0)
  let code := (← loadAccount env addr true).code
  modify fun f => { f with
    memory := memorySetData f.memory memoryOffset codeOffset.toUsizeSaturated len
      code.originalBytes }

def returndatacopy : SimpleInstr Unit := do
  checkBounds 3 0
  let memoryOffset ← popUnchecked
  let dataOffset ← popUnchecked
  let len ← popUnchecked
  let len ← ofExcept len.toUsize
  let data := (← get).returnData
  if data.length < satAdd64 dataOffset.toUsizeSaturated len then stop .outOfOffset
  else
    spend (env.gasParams.copyCost len)
    copyData env memoryOffset (BitVec.ofNat 256 dataOffset.toUsizeSaturated) len data

def sload (key : Word) : SimpleInstr Word := do
  let additionalColdCost := env.gasParams.get .coldStorageAdditionalCost
  let remaining ← ask .remaining
  let skipColdLoad := env.feature .eip2929 && decide (remaining < additionalColdCost)
  let load ← ask (.sload env.message.destination key skipColdLoad)
  let load ← ofExcept load
  if load.isCold then spend additionalColdCost
  return load.value

def mstoreBytes (offset : Word) (value : Bytes) : SimpleInstr Unit := do
  let offset ← ofExcept offset.toUsize
  resizeMemory env offset value.length
  modify fun f => { f with memory := memorySet f.memory offset value }

def mcopy : SimpleInstr Unit := do
  checkBounds 3 0
  let dst ← popUnchecked
  let src ← popUnchecked
  let len ← popUnchecked
  let len ← ofExcept len.toUsize
  spend (env.gasParams.mcopyCost len)
  if len ≠ 0 then
    let dst ← ofExcept dst.toUsize
    let src ← ofExcept src.toUsize
    resizeMemory env (max dst src) len
    modify fun f => { f with memory := memorySet f.memory dst (memorySlice f.memory src len) }

/-- The instructions that only make queries, by opcode. The system instructions are not among
them, and an opcode the code does not know stops with `OpcodeNotFound`. -/
def execute [Keccak] : OpCode → SimpleInstr Unit
  | .stop => stop .stop
  | .add => binary fun a b => pure (a + b)
  | .mul => binary fun a b => pure (a * b)
  | .sub => binary fun a b => pure (a - b)
  | .div => binary fun a b => pure (a.div b)
  | .sdiv => binary fun a b => pure (a.i256Div b)
  | .mod => binary fun a b => pure (a.rem b)
  | .smod => binary fun a b => pure (a.i256Mod b)
  | .addmod => ternary fun a b n => pure (a.addMod b n)
  | .mulmod => ternary fun a b n => pure (a.mulMod b n)
  | .exp => binary fun a b => do
    spend (env.gasParams.expCost b)
    return a.wrappingPow b
  | .signextend => binary fun ext value => pure (ext.signextend value)
  | .lt => binary fun a b => pure (.ofBool (a < b))
  | .gt => binary fun a b => pure (.ofBool (b < a))
  | .slt => binary fun a b => pure (.ofBool (a.i256Lt b))
  | .sgt => binary fun a b => pure (.ofBool (b.i256Lt a))
  | .eq => binary fun a b => pure (.ofBool (a == b))
  | .iszero => unary fun a => pure (.ofBool (a == 0))
  | .and => binary fun a b => pure (a &&& b)
  | .or => binary fun a b => pure (a ||| b)
  | .xor => binary fun a b => pure (a ^^^ b)
  | .not => unary fun a => pure (~~~a)
  | .byte => binary fun index value => pure (index.byte value)
  | .shl => binary fun shift value => pure (shift.shl value)
  | .shr => binary fun shift value => pure (shift.shr value)
  | .sar => binary fun shift value => pure (shift.sar value)
  | .clz => unary fun a => pure a.leadingZeros
  | .keccak256 => binary (keccak256Instr env)
  | .address => nullary (pure env.message.destination.intoWord)
  | .balance => unary fun addr => return (← loadAccount env addr false).balance
  | .origin => nullary (pure env.tx.origin.intoWord)
  | .caller => nullary (pure env.message.caller.intoWord)
  | .callvalue => nullary (pure env.message.value)
  | .calldataload => unary fun offset =>
    pure (BitVec.ofNat 256 (ofBeBytes (paddedSlice env.message.input offset.toUsizeSaturated 32)))
  | .calldatasize => nullary (pure (BitVec.ofNat 256 env.message.input.length))
  | .calldatacopy => copyInstr env env.message.input
  | .codesize => nullary (pure (BitVec.ofNat 256 env.message.code.len))
  | .codecopy => copyInstr env env.message.code.originalBytes
  | .gasprice => nullary (pure env.tx.gasPrice)
  | .extcodesize => unary fun addr =>
    return BitVec.ofNat 256 (← loadAccount env addr true).code.len
  | .extcodecopy => extcodecopy env
  | .returndatasize => nullary do return BitVec.ofNat 256 (← get).returnData.length
  | .returndatacopy => returndatacopy env
  | .extcodehash => unary fun addr => do
    let account ← loadAccount env addr false
    return if account.isEmpty then 0 else account.codeHash
  | .blockhash => unary (blockhash env)
  | .coinbase => nullary (pure env.block.beneficiary.intoWord)
  | .timestamp => nullary (pure env.block.timestamp)
  | .number => nullary (pure env.block.number)
  | .difficulty => nullary
    (pure (if env.feature .eip4399 then env.block.prevrandao else env.block.difficulty))
  | .gaslimit => nullary (pure env.block.gasLimit)
  | .chainid => nullary (pure env.tx.chainId)
  | .selfbalance => nullary (selfbalance env)
  | .basefee => nullary (pure env.block.basefee)
  | .blobhash => unary fun index => pure (env.tx.blobHashes.getD index.toUsizeSaturated 0)
  | .blobbasefee => nullary (pure env.block.blobBasefee)
  | .slotnum => nullary (pure env.block.slotNum)
  | .pop => do
    checkBounds 1 0
    let _ ← popUnchecked
  | .mload => unary fun offset => do
    let offset ← ofExcept offset.toUsize
    resizeMemory env offset 32
    return BitVec.ofNat 256 (ofBeBytes (memorySlice (← get).memory offset 32))
  | .mstore => do
    checkBounds 2 0
    let offset ← popUnchecked
    let value ← popUnchecked
    mstoreBytes env offset (beBytes 32 value.toNat)
  | .mstore8 => do
    checkBounds 2 0
    let offset ← popUnchecked
    let value ← popUnchecked
    mstoreBytes env offset [value.setWidth 8]
  | .sload => unary (sload env)
  | .jump => do
    checkBounds 1 0
    jumpInner env (← popUnchecked)
  | .jumpi => do
    checkBounds 2 0
    let target ← popUnchecked
    let cond ← popUnchecked
    if cond ≠ 0 then jumpInner env target else modify fun f => { f with pc := f.pc + 1 }
  | .pc => nullary do return BitVec.ofNat 256 (← get).pc
  | .msize => nullary do return BitVec.ofNat 256 (← get).memory.length
  | .gas => nullary do return BitVec.ofNat 256 (← ask .remaining)
  | .jumpdest => pure ()
  | .tload => unary fun key => ask (Query.tload env.message.destination key)
  | .mcopy => mcopy env
  | .push n => do
    let f ← get
    Instr.push (BitVec.ofNat 256 (ofBeBytes (env.message.code.immediate f.pc n)))
  | .dup n => Instr.dup (n + 1)
  | .swap n => Instr.swap (n + 1)
  | .dupn => do Instr.dup (← decodeImmediate env decodeSingle)
  | .swapn => do Instr.swap (← decodeImmediate env decodeSingle)
  | .exchange => do
    let nm ← decodeImmediate env decodePair
    Instr.exchange nm.1 nm.2
  | .return => returnInner env .return
  | .revert => returnInner env .revert
  | .invalid => stop .invalidFEOpcode
  | .sstore | .tstore | .log _ | .create | .call | .callcode | .delegatecall | .create2
  | .staticcall | .selfdestruct => stop .opcodeNotFound

end SimpleInstr

end Evm2
