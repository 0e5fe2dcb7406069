import Evm2.Features
import Evm2.Version.GasParams

/-!
# Versions

A `Version` is the runtime configuration of an EVM: features, gas parameters and limits. The base
versions of the specifications are tables that each specification extends.
-/

namespace Evm2

inductive SpecId
  | frontier | homestead | tangerine | spuriousDragon | byzantium | petersburg | istanbul | berlin
  | london | merge | shanghai | cancun | prague | osaka | amsterdam
  deriving DecidableEq, Repr

namespace SpecId

def all : List SpecId :=
  [frontier, homestead, tangerine, spuriousDragon, byzantium, petersburg, istanbul, berlin, london,
    merge, shanghai, cancun, prague, osaka, amsterdam]

def enables (spec other : SpecId) : Bool := all.idxOf other ≤ all.idxOf spec

end SpecId

def CALL_DEPTH_LIMIT : Nat := 1024

def MAX_TX_TOTAL_GAS_LIMIT_AMSTERDAM : Nat := 2 ^ 32 - 1

structure Version where
  gasParams : GasParams
  features : EvmFeatures
  chainId : Nat
  txGasLimitCap : Nat
  memoryLimit : Nat
  maxCodeSize : Nat
  maxInitcodeSize : Nat
  maxBlobsPerTx : Nat
  initialCallDepth : Nat

namespace Version

variable (v : Version)

def feature (f : Feature) : Bool := v.features.contains f

def txGasCaps : Nat × Nat :=
  if v.feature .eip8037 then (MAX_TX_TOTAL_GAS_LIMIT_AMSTERDAM, v.txGasLimitCap)
  else (v.txGasLimitCap, maxU64)

def maxCallDepth : Nat := v.initialCallDepth + CALL_DEPTH_LIMIT

end Version

/-! ## Base versions -/

def SpecId.addedFeatures : SpecId → List Feature
  | frontier => [.txChainIdCheck, .nonceCheck, .balanceCheck, .balanceTopUp, .blockGasLimitCheck,
      .eip3607, .baseFeeCheck, .blobBaseFeeCheck, .priorityFeeCheck, .feeCharge, .logCollection]
  | homestead => [.eip2]
  | tangerine => [.eip150]
  | spuriousDragon => [.eip161, .codeSizeCheck]
  | istanbul => [.eip2028, .eip2200]
  | berlin => [.eip2929]
  | london => [.eip3529, .eip3541]
  | merge => [.eip4399]
  | shanghai => [.eip3651, .eip3860]
  | cancun => [.eip6780]
  | prague => [.eip7623, .eip7702]
  | amsterdam => [.eip8037, .eip7708, .eip8246, .eip2780]
  | byzantium | petersburg | osaka => []

def AMSTERDAM_CPSB : Nat := 1530

def SpecId.dynamicGas : SpecId → List (GasId × Nat)
  | frontier => [(.expByte, 10), (.logdata, 8), (.logtopic, 375), (.copyPerWord, 3),
      (.extcodecopyPerWord, 3), (.mcopyPerWord, 3), (.keccak256PerWord, 6), (.memoryLinearCost, 3),
      (.memoryQuadraticReduction, 512), (.initcodePerWord, 2), (.create, 32000),
      (.callStipendReduction, 64), (.transferValueCost, 9000), (.newAccountCost, 25000),
      (.sstoreStatic, 5000), (.sstoreSetWithoutLoadCost, 20000 - 5000),
      (.sstoreSetRefund, 20000 - 5000), (.sstoreClearingSlotRefund, 15000),
      (.selfdestructRefund, 24000), (.callStipend, 2300), (.maxRefundQuotient, 2),
      (.codeDepositCost, 200), (.txTokenNonZeroByteMultiplier, 17), (.txTokenCost, 4),
      (.txBaseStipend, 21000)]
  | homestead => [(.txCreateCost, 32000)]
  | tangerine => [(.newAccountCostForSelfdestruct, 25000)]
  | spuriousDragon => [(.expByte, 50)]
  | istanbul => [(.sstoreStatic, 800), (.sstoreSetWithoutLoadCost, 20000 - 800),
      (.sstoreResetWithoutColdLoadCost, 5000 - 800), (.sstoreSetRefund, 20000 - 800),
      (.sstoreResetRefund, 5000 - 800), (.txTokenNonZeroByteMultiplier, 4)]
  | berlin => [(.sstoreStatic, 100), (.coldAccountAdditionalCost, 2600 - 100),
      (.coldStorageAdditionalCost, 2100 - 100), (.coldStorageCost, 2100),
      (.warmStorageReadCost, 100), (.sstoreResetWithoutColdLoadCost, 5000 - 2100 - 100),
      (.sstoreSetWithoutLoadCost, 20000 - 100), (.sstoreSetRefund, 20000 - 100),
      (.sstoreResetRefund, 5000 - 2100 - 100), (.txAccessListAddressCost, 2400),
      (.txAccessListStorageKeyCost, 1900)]
  | london => [(.sstoreClearingSlotRefund, 5000 - 2100 + 1900), (.selfdestructRefund, 0),
      (.maxRefundQuotient, 5)]
  | shanghai => [(.txInitcodeCost, 2)]
  | prague => [(.txEip7702PerEmptyAccountCost, 25000), (.txEip7702AuthRefund, 25000 - 12500),
      (.txFloorCostPerToken, 10), (.txFloorCostBase, 21000), (.txFloorZeroByteMultiplier, 1)]
  | amsterdam => [(.codeDepositCost, 0), (.sstoreSetState, 64 * AMSTERDAM_CPSB),
      (.newAccountState, 120 * AMSTERDAM_CPSB), (.codeDepositState, AMSTERDAM_CPSB),
      (.createState, 120 * AMSTERDAM_CPSB), (.txFloorCostPerToken, 16), (.txFloorCostBase, 12000),
      (.txFloorZeroByteMultiplier, 4), (.txAccessListFloorByteMultiplier, 4),
      (.txEip7702AuthRefund, 0), (.txEip7702PerAuthState, 23 * AMSTERDAM_CPSB),
      (.coldAccountAdditionalCost, 3000 - 100), (.coldStorageAdditionalCost, 2100 - 100),
      (.coldStorageCost, 2100 - 100), (.transferValueCost, 9000 + 2300), (.newAccountCost, 0),
      (.newAccountCostForSelfdestruct, 9000), (.sstoreSetWithoutLoadCost, 10000),
      (.sstoreResetWithoutColdLoadCost, 10000), (.sstoreSetRefund, 10000),
      (.sstoreResetRefund, 10000), (.sstoreClearingSlotRefund, (10000 + 2100) * 4800 / 5000),
      (.create, 9000 + 3000), (.txCreateCost, 9000 + 3000),
      (.txAccessListAddressCost, 3000 - 100 + 20 * 64),
      (.txAccessListStorageKeyCost, 2100 - 100 + 32 * 64),
      (.txEip7702PerEmptyAccountCost, 101 * 16 + 3000 + 3000 + 2 * 100), (.txBaseStipend, 12000),
      (.txValueCost, 6000), (.txCreateAccessCost, 9000 + 3000)]
  | byzantium | petersburg | merge | cancun | osaka => []

def baseFeatures (spec : SpecId) : EvmFeatures :=
  .ofList ((SpecId.all.filter spec.enables).flatMap SpecId.addedFeatures)

def baseGasParams (spec : SpecId) : GasParams :=
  ((SpecId.all.filter spec.enables).flatMap SpecId.dynamicGas).foldl
    (fun gp e => gp.set e.1 e.2) .empty

def Version.base (spec : SpecId) : Version where
  gasParams := baseGasParams spec
  features := baseFeatures spec
  chainId := 1
  txGasLimitCap := if spec.enables .osaka then 2 ^ 24 else maxU64
  memoryLimit := 2 ^ 32 - 1
  maxCodeSize := if spec.enables .amsterdam then 0x10000 else 0x6000
  maxInitcodeSize := if spec.enables .amsterdam then 2 * 0x10000 else 2 * 0x6000
  maxBlobsPerTx := if spec.enables .prague && !spec.enables .osaka then 9 else 6
  initialCallDepth := 0

end Evm2
