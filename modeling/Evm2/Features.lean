import Mathlib

/-!
# Feature flags

`EvmFeatures` is a set of `Feature`s; the code keeps it as a 64-bit map.
-/

namespace Evm2

/-- The features of `EvmFeatures`, in the order of their bits. -/
inductive Feature
  | txChainIdCheck | nonceCheck | balanceCheck | blockGasLimitCheck | eip3607 | priorityFeeCheck
  | codeSizeCheck | baseFeeCheck | blobBaseFeeCheck | balanceTopUp | feeCharge | logCollection
  | eip2 | eip150 | eip161 | eip2028 | eip2200 | eip2929 | eip3529 | eip3541 | eip4399 | eip3651
  | eip3860 | eip6780 | eip7623 | eip7702 | eip8037 | eip7708 | eip8246 | eip2780
  deriving DecidableEq, Repr

/-- A set of features. -/
structure EvmFeatures where
  contains : Feature → Bool

namespace EvmFeatures

def empty : EvmFeatures := ⟨fun _ => false⟩

def ofList (fs : List Feature) : EvmFeatures := ⟨fun f => fs.contains f⟩

def insert (s : EvmFeatures) (f : Feature) : EvmFeatures := ⟨fun g => g == f || s.contains g⟩

def remove (s : EvmFeatures) (f : Feature) : EvmFeatures := ⟨fun g => g != f && s.contains g⟩

end EvmFeatures

end Evm2
