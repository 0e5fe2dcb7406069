import Evm2.Interpreter.Gas
import Evm2.Version.Version

/-!
# Messages and environments

A call or a creation is a `Message`; executing it gives a `MessageResult`. The environments of the
block and of the transaction, which instructions read, are here too. Extension data is left out.
-/

namespace Evm2

/-! ## Environments -/

structure TxEnv where
  origin : Address
  gasPrice : Word
  chainId : Word
  blobHashes : List Word

def TxEnv.default : TxEnv := ⟨0, 0, 1, []⟩

structure BlockEnv where
  number : Word
  beneficiary : Address
  timestamp : Word
  gasLimit : Word
  basefee : Word
  difficulty : Word
  prevrandao : Word
  blobBasefee : Word
  slotNum : Word

def BlockEnv.default : BlockEnv where
  number := 0
  beneficiary := 0
  timestamp := 1
  gasLimit := BitVec.ofNat 256 maxU64
  basefee := 0
  difficulty := 0
  prevrandao := 0
  blobBasefee := 1
  slotNum := 0

/-! ## Messages -/

inductive MessageKind
  | call | delegateCall | callCode | create | create2 | staticCall
  deriving DecidableEq, Repr

def MessageKind.isCreate : MessageKind → Bool
  | create | create2 => true
  | _ => false

structure Message where
  kind : MessageKind
  depth : Nat
  gasLimit : Nat
  reservoir : Nat
  destination : Address
  callTarget : Address
  caller : Address
  input : Bytes
  value : Word
  code : Bytecode
  codeAddress : Address
  callerIsStatic : Bool
  salt : B256
  deriving DecidableEq, Repr

def Message.default : Message where
  kind := .call
  depth := 0
  gasLimit := 0
  reservoir := 0
  destination := 0
  callTarget := 0
  caller := 0
  input := []
  value := 0
  code := Bytecode.new
  codeAddress := 0
  callerIsStatic := false
  salt := 0

def Message.isStatic (m : Message) : Bool := m.callerIsStatic || m.kind == .staticCall

def trimmedBytes (n : Nat) : Bytes := beBytes ((Nat.log2 n + 8) / 8) n

def encodeNonce (nonce : U64) : Bytes :=
  if nonce = 0 then [0x80#8]
  else if nonce.toNat < 0x80 then [BitVec.ofNat 8 nonce.toNat]
  else
    let bytes := trimmedBytes nonce.toNat
    BitVec.ofNat 8 (0x80 + bytes.length) :: bytes

section Addresses

variable [Keccak]

def Address.create (a : Address) (nonce : U64) : Address :=
  let payload := 0x94#8 :: beBytes 20 a.toNat ++ encodeNonce nonce
  Word.toAddress (keccak256 (BitVec.ofNat 8 (0xC0 + payload.length) :: payload))

def Address.create2 (a : Address) (salt initCodeHash : B256) : Address :=
  Word.toAddress (keccak256
    (0xFF#8 :: beBytes 20 a.toNat ++ beBytes 32 salt.toNat ++ beBytes 32 initCodeHash.toNat))

def deriveCreateDestination (kind : MessageKind) (caller : Address) (salt : B256)
    (initCode : Bytes) (nonce : U64) : Address :=
  if kind = .create2 then caller.create2 salt (keccak256 initCode) else caller.create nonce

end Addresses

def createPreaccessFailure (balance : Word) (nonce : U64) (value : Word) (depth : Nat)
    (version : Version) : Option InstrStop :=
  if version.maxCallDepth < depth then some .callTooDeep
  else if balance < value then some .outOfFunds
  else if version.initialCallDepth < depth ∧ nonce = BitVec.allOnes 64 then some .nonceOverflow
  else none

/-! ## Results -/

structure MessageResult where
  stop : InstrStop
  gas : GasTracker
  output : Bytes
  createdAddress : Option Address
  deriving DecidableEq, Repr

namespace MessageResult

variable (r : MessageResult)

def isSuccess : Bool := r.stop.isSuccess

def createdAddressForParent : Word :=
  match r.createdAddress with
  | some a => if r.stop.isSuccess then a.intoWord else 0
  | none => 0

def finalRefund (gasLimit maxRefundQuotient : Nat) : Nat :=
  if r.gas.refunded ≤ 0 then 0
  else min r.gas.refunded.toNat
    ((gasLimit - r.gas.remaining - r.gas.reservoir) / maxRefundQuotient)

end MessageResult

/-- `AccountLoad`: loaded account information. -/
structure AccountLoad where
  balance : Word
  nonce : U64
  codeHash : B256
  code : Bytecode
  isEmpty : Bool
  isEmptyForNewAccountGas : Bool
  isCold : Bool

/-- The result of an `SLOAD` host operation. -/
structure SLoad where
  value : Word
  isCold : Bool

/-- The result of a `SELFDESTRUCT` host operation. -/
structure SelfDestructResult where
  hadValue : Bool
  value : Word
  targetIsEmpty : Bool
  isCold : Bool
  previouslyDestroyed : Bool

end Evm2
