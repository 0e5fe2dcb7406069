import Evm2.Ethereum.Authorizations
import Evm2.Evm.Execute

/-!
# Transactions and their validation

A transaction comes with its recovered sender. Prices are 128-bit numbers.
-/

namespace Evm2

/-- `HandlerError`, without the errors of custom handlers. `outOfFuel` is not an error of the code:
it marks a run that was given up. -/
inductive HandlerError
  | database (e : DatabaseError)
  | fatal (message : String)
  | outOfFuel
  | unsupportedTransactionType (ty : Nat)
  | invalidNonce (expected got : U64)
  | invalidChainId (expected got : Nat)
  | missingChainId
  | intrinsicGasTooLow (required got : Nat)
  | gasLimitBelowFloor (required got : Nat)
  | insufficientFunds (fee balance : Word)
  | rejectCallerWithCode
  | nonceOverflow
  | gasLimitMoreThanBlock (gasLimit : Nat) (blockGasLimit : Word)
  | txGasLimitGreaterThanCap (gasLimit cap : Nat)
  | intrinsicGasGreaterThanCap (required cap : Nat)
  | createInitCodeSizeLimit (limit got : Nat)
  | feeCapLessThanBaseFee (maxFeePerGas baseFee : Word)
  | emptyAuthorizationList
  | blobFeeCapLessThanBlobBaseFee (maxFeePerBlobGas blobBaseFee : Word)
  | emptyBlobs
  | tooManyBlobs (got max : Nat)
  | blobVersionNotSupported
  | priorityFeeGreaterThanMaxFee
  deriving DecidableEq, Repr

def HandlerError.ofExecution : ExecutionError → HandlerError
  | .database e => .database e
  | .fatal message => .fatal message
  | .outOfFuel => .outOfFuel

/-! ## Transactions -/

inductive TxKind
  | create
  | call (recipient : Address)
  deriving DecidableEq, Repr

def TxKind.isCreate : TxKind → Bool
  | create => true
  | call _ => false

/-- `AccessList`: the addresses with their storage keys. -/
abbrev AccessList := List (Address × List Word)

structure TxLegacy where
  chainId : Option Nat
  nonce : U64
  gasPrice : BitVec 128
  gasLimit : U64
  recipient : TxKind
  value : Word
  input : Bytes

structure TxEip2930 where
  chainId : Nat
  nonce : U64
  gasPrice : BitVec 128
  gasLimit : U64
  recipient : TxKind
  value : Word
  accessList : AccessList
  input : Bytes

structure TxEip1559 where
  chainId : Nat
  nonce : U64
  gasLimit : U64
  maxFeePerGas : BitVec 128
  maxPriorityFeePerGas : BitVec 128
  recipient : TxKind
  value : Word
  accessList : AccessList
  input : Bytes

structure TxEip4844 where
  chainId : Nat
  nonce : U64
  gasLimit : U64
  maxFeePerGas : BitVec 128
  maxPriorityFeePerGas : BitVec 128
  recipient : Address
  value : Word
  accessList : AccessList
  blobVersionedHashes : List B256
  maxFeePerBlobGas : BitVec 128
  input : Bytes

structure TxEip7702 where
  chainId : Nat
  nonce : U64
  gasLimit : U64
  maxFeePerGas : BitVec 128
  maxPriorityFeePerGas : BitVec 128
  recipient : Address
  value : Word
  accessList : AccessList
  authorizations : List Authorization
  input : Bytes

inductive TxEnvelope
  | legacy (tx : TxLegacy)
  | eip2930 (tx : TxEip2930)
  | eip1559 (tx : TxEip1559)
  | eip4844 (tx : TxEip4844)
  | eip7702 (tx : TxEip7702)

def TxEnvelope.ty : TxEnvelope → Nat
  | legacy _ => 0
  | eip2930 _ => 1
  | eip1559 _ => 2
  | eip4844 _ => 3
  | eip7702 _ => 4

/-- The blobs of a transaction. -/
structure TxBlobs where
  versionedHashes : List B256
  maxFeePerBlobGas : Word

/-- What the handlers read of their transactions. -/
structure TxTerms where
  chainId : Option Nat
  allowMissingChainId : Bool
  nonce : U64
  gasLimit : U64
  /-- The gas price, for types without a maximum fee. -/
  maxFeePerGas : Word
  maxPriorityFeePerGas : Option Word
  recipient : TxKind
  value : Word
  accessList : AccessList
  blobs : Option TxBlobs
  authorizations : Option (List Authorization)
  input : Bytes

def TxLegacy.terms (tx : TxLegacy) : TxTerms where
  chainId := tx.chainId
  allowMissingChainId := true
  nonce := tx.nonce
  gasLimit := tx.gasLimit
  maxFeePerGas := tx.gasPrice.setWidth 256
  maxPriorityFeePerGas := none
  recipient := tx.recipient
  value := tx.value
  accessList := []
  blobs := none
  authorizations := none
  input := tx.input

def TxEip2930.terms (tx : TxEip2930) : TxTerms where
  chainId := some tx.chainId
  allowMissingChainId := false
  nonce := tx.nonce
  gasLimit := tx.gasLimit
  maxFeePerGas := tx.gasPrice.setWidth 256
  maxPriorityFeePerGas := none
  recipient := tx.recipient
  value := tx.value
  accessList := tx.accessList
  blobs := none
  authorizations := none
  input := tx.input

def TxEip1559.terms (tx : TxEip1559) : TxTerms where
  chainId := some tx.chainId
  allowMissingChainId := false
  nonce := tx.nonce
  gasLimit := tx.gasLimit
  maxFeePerGas := tx.maxFeePerGas.setWidth 256
  maxPriorityFeePerGas := some (tx.maxPriorityFeePerGas.setWidth 256)
  recipient := tx.recipient
  value := tx.value
  accessList := tx.accessList
  blobs := none
  authorizations := none
  input := tx.input

def TxEip4844.terms (tx : TxEip4844) : TxTerms where
  chainId := some tx.chainId
  allowMissingChainId := false
  nonce := tx.nonce
  gasLimit := tx.gasLimit
  maxFeePerGas := tx.maxFeePerGas.setWidth 256
  maxPriorityFeePerGas := some (tx.maxPriorityFeePerGas.setWidth 256)
  recipient := .call tx.recipient
  value := tx.value
  accessList := tx.accessList
  blobs := some ⟨tx.blobVersionedHashes, tx.maxFeePerBlobGas.setWidth 256⟩
  authorizations := none
  input := tx.input

def TxEip7702.terms (tx : TxEip7702) : TxTerms where
  chainId := some tx.chainId
  allowMissingChainId := false
  nonce := tx.nonce
  gasLimit := tx.gasLimit
  maxFeePerGas := tx.maxFeePerGas.setWidth 256
  maxPriorityFeePerGas := some (tx.maxPriorityFeePerGas.setWidth 256)
  recipient := .call tx.recipient
  value := tx.value
  accessList := tx.accessList
  blobs := none
  authorizations := some tx.authorizations
  input := tx.input

def TxEnvelope.terms : TxEnvelope → TxTerms
  | legacy tx => tx.terms
  | eip2930 tx => tx.terms
  | eip1559 tx => tx.terms
  | eip4844 tx => tx.terms
  | eip7702 tx => tx.terms

/-! ## Checks -/

def failIf (c : Bool) (e : HandlerError) : Except HandlerError Unit :=
  if c then .error e else .ok ()

section Checks

variable (version : Version)

def validateGasPrice (gasPrice basefee : Word) : Except HandlerError Unit :=
  failIf (version.feature .baseFeeCheck && decide (gasPrice < basefee))
    (.feeCapLessThanBaseFee gasPrice basefee)

def validatePriorityFee (maxFeePerGas maxPriorityFeePerGas : Word) : Except HandlerError Unit :=
  failIf (version.feature .priorityFeeCheck && decide (maxFeePerGas < maxPriorityFeePerGas))
    .priorityFeeGreaterThanMaxFee

def Word.satAdd (a b : Word) : Word :=
  if a.toNat + b.toNat < 2 ^ 256 then a + b else BitVec.allOnes 256

def Word.satSub (a b : Word) : Word := if b ≤ a then a - b else 0

def effectiveGasPrice (maxFeePerGas maxPriorityFeePerGas basefee : Word) : Word :=
  let price := basefee.satAdd maxPriorityFeePerGas
  if price < maxFeePerGas then price else maxFeePerGas

def validateBlockGasLimit (txGasLimit : U64) (blockGasLimit : Word) : Except HandlerError Unit :=
  failIf (version.feature .blockGasLimitCheck && decide (blockGasLimit.toNat < txGasLimit.toNat))
    (.gasLimitMoreThanBlock txGasLimit.toNat blockGasLimit)

def validateTxGasLimitCap (txGasLimit : U64) : Except HandlerError Unit :=
  failIf (decide (version.txGasCaps.1 < txGasLimit.toNat))
    (.txGasLimitGreaterThanCap txGasLimit.toNat version.txGasCaps.1)

def validateExecutionGasLimitCap (txGasLimit : U64) (intrinsic floorGas : Nat) :
    Except HandlerError Unit :=
  let cap := version.txGasCaps.2
  failIf (decide (cap < txGasLimit.toNat) && decide (cap < max intrinsic floorGas))
    (.intrinsicGasGreaterThanCap (max intrinsic floorGas) cap)

def validateChainId (chainId : Option Nat) (allowMissing : Bool) : Except HandlerError Unit :=
  if version.feature .txChainIdCheck then
    match chainId with
    | none => failIf (!allowMissing) .missingChainId
    | some id => failIf (id != version.chainId) (.invalidChainId version.chainId id)
  else .ok ()

def validateCreateInitcode (recipient : TxKind) (input : Bytes) : Except HandlerError Unit :=
  failIf (version.feature .eip3860 && recipient.isCreate &&
      decide (version.maxInitcodeSize < input.length))
    (.createInitCodeSizeLimit version.maxInitcodeSize input.length)

def validateNonceNotOverflow (nonce : U64) : Except HandlerError Unit :=
  failIf (nonce == BitVec.allOnes 64) .nonceOverflow

def validateIntrinsicGas (gasLimit : U64) (intrinsic initialStateGas : Nat) :
    Except HandlerError Unit :=
  failIf (decide (gasLimit.toNat < satAdd64 intrinsic initialStateGas))
    (.intrinsicGasTooLow (satAdd64 intrinsic initialStateGas) gasLimit.toNat)

def validateFloorGas (gasLimit : U64) (floorGas : Nat) : Except HandlerError Unit :=
  failIf (decide (gasLimit.toNat < floorGas)) (.gasLimitBelowFloor floorGas gasLimit.toNat)

def VERSIONED_HASH_VERSION_KZG : BitVec 8 := 1

def validateBlobFee (maxFeePerBlobGas blobBasefee : Word) : Except HandlerError Unit :=
  failIf (decide (maxFeePerBlobGas < blobBasefee))
    (.blobFeeCapLessThanBlobBaseFee maxFeePerBlobGas blobBasefee)

def validateBlobs (blobs : List B256) (maxBlobs : Nat) : Except HandlerError Unit := do
  failIf blobs.isEmpty .emptyBlobs
  failIf (decide (maxBlobs < blobs.length)) (.tooManyBlobs blobs.length maxBlobs)
  failIf (blobs.any fun blob => blob.extractLsb' 248 8 != VERSIONED_HASH_VERSION_KZG)
    .blobVersionNotSupported

end Checks

/-! ## Intrinsic gas -/

section Intrinsic

variable (version : Version)

def accessListCounts (accessList : AccessList) : Nat × Nat :=
  (accessList.length, (accessList.map fun item => item.2.length).sum)

def eip2780BaseToValueGas (isCreate isSelfTransfer : Bool) (value : Word) : Nat :=
  let params := version.gasParams
  params.get .txBaseStipend +
    if isCreate then params.get .txCreateAccessCost
    else if isSelfTransfer then 0
    else params.get .warmStorageReadCost + params.coldAccountAdditionalCost +
      if value = 0 then 0 else params.get .txValueCost

/-- `intrinsic_and_floor_gas`. The sums and products of the code wrap. -/
def intrinsicAndFloorGas (caller : Address) (recipient : TxKind) (input : Bytes)
    (accessListAccounts accessListStorageKeys : Nat) (value : Word) : Nat × Nat :=
  let params := version.gasParams
  let (tokens, floorTokens) := params.txCalldataTokens input
  let isCreate := recipient.isCreate
  let eip2780Base :=
    eip2780BaseToValueGas version isCreate (decide (recipient = .call caller)) value
  let base :=
    if version.feature .eip2780 then eip2780Base
    else params.get .txBaseStipend +
      if isCreate && version.feature .eip2 then params.get .txCreateCost else 0
  let gas := tokens * params.get .txTokenCost +
    accessListAccounts * params.get .txAccessListAddressCost +
    accessListStorageKeys * params.get .txAccessListStorageKeyCost + base +
    if isCreate && version.feature .eip3860 then
      params.get .txInitcodeCost * numWords input.length else 0
  let floorBase :=
    if version.feature .eip2780 then eip2780Base else params.get .txFloorCostBase
  let floor :=
    if !version.feature .eip7623 || params.get .txFloorCostPerToken == 0 then 0
    else params.txFloorCostWithBase floorBase (floorTokens % 2 ^ 64) accessListAccounts
      accessListStorageKeys
  (gas % 2 ^ 64, floor)

def eip7702AuthorizationGas (authorizations : Nat) : Nat :=
  satMul64 authorizations (version.gasParams.get .txEip7702PerEmptyAccountCost)

end Intrinsic

namespace TxTerms

variable (version : Version) (block : BlockEnv) (caller : Address) (tx : TxTerms)

def gasPrice : Word :=
  match tx.maxPriorityFeePerGas with
  | none => tx.maxFeePerGas
  | some maxPriorityFeePerGas =>
    effectiveGasPrice tx.maxFeePerGas maxPriorityFeePerGas block.basefee

def intrinsicAndFloor : Nat × Nat :=
  let (accessListAccounts, accessListStorageKeys) := accessListCounts tx.accessList
  let (intrinsic, floorGas) := intrinsicAndFloorGas version caller tx.recipient tx.input
    accessListAccounts accessListStorageKeys tx.value
  match tx.authorizations with
  | none => (intrinsic, floorGas)
  | some auths => (wrapAdd64 intrinsic (eip7702AuthorizationGas version auths.length), floorGas)

/-- The state gas that a handler charges with the intrinsic gas. All of them charge none, and the
default hook `adjust_intrinsic_gas` leaves it alone. -/
def initialStateGas : Nat := 0

/-- The checks of the handlers that do not read the state, up to the limits of the gas. -/
def validateTerms : Except HandlerError Unit := do
  match tx.authorizations with
  | none => pure ()
  | some auths => failIf auths.isEmpty .emptyAuthorizationList
  match tx.maxPriorityFeePerGas with
  | none => pure ()
  | some maxPriorityFeePerGas => validatePriorityFee version tx.maxFeePerGas maxPriorityFeePerGas
  validateGasPrice version (tx.gasPrice block) block.basefee
  validateChainId version tx.chainId tx.allowMissingChainId
  match tx.blobs with
  | none => pure ()
  | some blobs =>
    if version.feature .blobBaseFeeCheck then
      validateBlobFee blobs.maxFeePerBlobGas block.blobBasefee
    validateBlobs blobs.versionedHashes version.maxBlobsPerTx
  validateTxGasLimitCap version tx.gasLimit
  validateBlockGasLimit version tx.gasLimit block.gasLimit
  validateCreateInitcode version tx.recipient tx.input
  validateNonceNotOverflow tx.nonce

def validateGas : Except HandlerError Unit := do
  let (intrinsic, floorGas) := tx.intrinsicAndFloor version caller
  validateIntrinsicGas tx.gasLimit intrinsic initialStateGas
  validateFloorGas tx.gasLimit floorGas
  validateExecutionGasLimitCap version tx.gasLimit intrinsic floorGas

def validate : Except HandlerError Unit := do
  tx.validateTerms version block
  tx.validateGas version caller

def DATA_GAS_PER_BLOB : Word := 131072

def blobGas : Word :=
  match tx.blobs with
  | none => 0
  | some blobs => DATA_GAS_PER_BLOB * BitVec.ofNat 256 blobs.versionedHashes.length

/-- The most that the sender may have to pay: `max_gas_cost`, the maximal cost of the blobs and the
value. -/
def maxUpfront : Word :=
  let maxGasCost : Word := tx.gasLimit.setWidth 256 * tx.maxFeePerGas
  match tx.blobs with
  | none => maxGasCost.satAdd tx.value
  | some blobs => (maxGasCost.satAdd (tx.blobGas * blobs.maxFeePerBlobGas)).satAdd tx.value

def upfrontFee : Word :=
  tx.gasLimit.setWidth 256 * tx.gasPrice block + tx.blobGas * block.blobBasefee

end TxTerms

end Evm2
