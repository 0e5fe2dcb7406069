import Evm2.Lib.Fixed
import Evm2.Primitives

/-!
# Gas parameters

`GasParams` is the table of dynamic gas costs of a version, with the formulas that read it. The
custom slots, which no formula reads, are left out.
-/

namespace Evm2

inductive GasId
  | expByte | extcodecopyPerWord | copyPerWord | logdata | logtopic | mcopyPerWord
  | keccak256PerWord | memoryLinearCost | memoryQuadraticReduction | initcodePerWord | create
  | callStipendReduction | transferValueCost | coldAccountAdditionalCost | newAccountCost
  | warmStorageReadCost | sstoreStatic | sstoreSetWithoutLoadCost | sstoreResetWithoutColdLoadCost
  | sstoreClearingSlotRefund | selfdestructRefund | callStipend | maxRefundQuotient
  | coldStorageAdditionalCost | coldStorageCost | newAccountCostForSelfdestruct | codeDepositCost
  | txEip7702PerEmptyAccountCost | txTokenNonZeroByteMultiplier | txTokenCost
  | txFloorCostPerToken | txFloorCostBase | txFloorZeroByteMultiplier | txAccessListAddressCost
  | txAccessListStorageKeyCost | txAccessListFloorByteMultiplier | txBaseStipend | txCreateCost
  | txInitcodeCost | sstoreSetRefund | sstoreResetRefund | txEip7702AuthRefund | sstoreSetState
  | newAccountState | codeDepositState | createState | txEip7702PerAuthState | txValueCost
  | txCreateAccessCost
  deriving DecidableEq, Repr

/-- `GasParams`: a table of 32-bit costs. -/
structure GasParams where
  table : GasId → BitVec 32

/-- The result of an `SSTORE` host operation. -/
structure SStore where
  originalValue : Word
  presentValue : Word
  newValue : Word
  isCold : Bool
  deriving DecidableEq, Repr

namespace SStore

variable (vals : SStore)

def isNoop : Bool := vals.newValue == vals.presentValue

def isClean : Bool := vals.originalValue == vals.presentValue

def resetsOriginal : Bool := vals.originalValue == vals.newValue

def originalIsZero : Bool := vals.originalValue == 0

def presentIsZero : Bool := vals.presentValue == 0

def newIsZero : Bool := vals.newValue == 0

end SStore

def numWords (len : Nat) : Nat := (len + 31) / 32

namespace GasParams

def empty : GasParams := ⟨fun _ => 0⟩

def set (gp : GasParams) (id : GasId) (cost : Nat) : GasParams :=
  ⟨fun j => if j = id then BitVec.ofNat 32 cost else gp.table j⟩

variable (gp : GasParams)

def get (id : GasId) : Nat := (gp.table id).toNat

def memoryCost (len : Nat) : Nat :=
  satAdd64 (satMul64 (gp.get .memoryLinearCost) len)
    (satMul64 len len / gp.get .memoryQuadraticReduction)

def bitLen (power : Word) : Nat := if power = 0 then 0 else Nat.log2 power.toNat + 1

def expCost (power : Word) : Nat :=
  if power = 0 then 0 else satMul64 (gp.get .expByte) ((bitLen power + 7) / 8)

/-- A price of 32 bits for each of the at most 32 bytes of an exponent. -/
theorem expCost_lt (power : Word) : gp.expCost power < 2 ^ 37 := by
  unfold expCost satMul64
  split_ifs with hpower
  · decide
  have hne : power.toNat ≠ 0 := fun h => hpower (BitVec.eq_of_toNat_eq h)
  have hlog : Nat.log2 power.toNat < 256 := (Nat.log2_lt hne).2 power.isLt
  have hbytes : (bitLen power + 7) / 8 ≤ 32 := by
    rw [bitLen, if_neg hpower]
    omega
  calc min (gp.get .expByte * ((bitLen power + 7) / 8)) maxU64
      ≤ gp.get .expByte * ((bitLen power + 7) / 8) := Nat.min_le_left _ _
    _ ≤ gp.get .expByte * 32 := Nat.mul_le_mul_left _ hbytes
    _ < 2 ^ 32 * 32 := Nat.mul_lt_mul_of_pos_right (gp.table .expByte).isLt (by decide)

def perWordCost (id : GasId) (len : Nat) : Nat := satMul64 (gp.get id) (numWords len)

def copyCost (len : Nat) : Nat := gp.perWordCost .copyPerWord len

def extcodecopyCost (len : Nat) : Nat := gp.perWordCost .extcodecopyPerWord len

def mcopyCost (len : Nat) : Nat := gp.perWordCost .mcopyPerWord len

def keccak256WordCost (len : Nat) : Nat := gp.perWordCost .keccak256PerWord len

def logCost (n len : Nat) : Nat :=
  satAdd64 (satMul64 (gp.get .logdata) len) (satMul64 (gp.get .logtopic) n)

def initcodeCost (len : Nat) : Nat := gp.perWordCost .initcodePerWord len

def create2Cost (len : Nat) : Nat := satAdd64 (gp.get .create) (gp.keccak256WordCost len)

def callStipendReduction (gasLimit : Nat) : Nat :=
  gasLimit - gasLimit / gp.get .callStipendReduction

def sstoreDynamicGas (isEip2200 : Bool) (vals : SStore) : Nat :=
  if !isEip2200 then
    if vals.presentIsZero && !vals.newIsZero then gp.get .sstoreSetWithoutLoadCost
    else gp.get .sstoreResetWithoutColdLoadCost
  else
    (if vals.isCold then gp.get .coldStorageCost else 0) +
      (if !vals.isNoop && vals.isClean then
        if vals.originalIsZero then gp.get .sstoreSetWithoutLoadCost
        else gp.get .sstoreResetWithoutColdLoadCost
      else 0)

def sstoreRefund (isEip2200 : Bool) (vals : SStore) : Int :=
  let clearingSlotRefund : Int := gp.get .sstoreClearingSlotRefund
  if !isEip2200 then
    if !vals.presentIsZero && vals.newIsZero then clearingSlotRefund else 0
  else if vals.isNoop then 0
  else if vals.isClean && vals.newIsZero then clearingSlotRefund
  else
    (if !vals.originalIsZero then
      if vals.presentIsZero then -clearingSlotRefund
      else if vals.newIsZero then clearingSlotRefund else 0
    else 0) +
      (if vals.resetsOriginal then
        if vals.originalIsZero then (gp.get .sstoreSetRefund : Int)
        else (gp.get .sstoreResetRefund : Int)
      else 0)

def sstoreStateGas (vals : SStore) : Nat :=
  if !vals.isNoop && vals.isClean && vals.originalIsZero then gp.get .sstoreSetState else 0

def sstoreStateGasRefill (vals : SStore) : Nat :=
  if !vals.isNoop && vals.resetsOriginal && vals.originalIsZero then gp.get .sstoreSetState else 0

def createStateGas : Nat := gp.get .createState

def newAccountStateGas : Nat := gp.get .newAccountState

def codeDepositStateGas (len : Nat) : Nat := satMul64 (gp.get .codeDepositState) len

def coldAccountAdditionalCost : Nat := gp.get .coldAccountAdditionalCost

def selfdestructColdCost : Nat :=
  satAdd64 gp.coldAccountAdditionalCost (gp.get .warmStorageReadCost)

def selfdestructCost (shouldChargeTopup isCold : Bool) : Nat :=
  (if shouldChargeTopup then gp.get .newAccountCostForSelfdestruct else 0) +
    (if isCold then gp.selfdestructColdCost else 0)

def txCalldataTokens (input : Bytes) : Nat × Nat :=
  let zeroBytes := input.countP (· == 0)
  let nonZeroTokens := (input.length - zeroBytes) * gp.get .txTokenNonZeroByteMultiplier
  (zeroBytes + nonZeroTokens, zeroBytes * gp.get .txFloorZeroByteMultiplier + nonZeroTokens)

def txFloorCostWithBase (base floorTokens accessListAccounts accessListStorageKeys : Nat) : Nat :=
  let accessListBytes :=
    satAdd64 (satMul64 accessListAccounts 20) (satMul64 accessListStorageKeys 32)
  let tokens :=
    satAdd64 floorTokens (satMul64 accessListBytes (gp.get .txAccessListFloorByteMultiplier))
  satAdd64 base (satMul64 tokens (gp.get .txFloorCostPerToken))

end GasParams

end Evm2
