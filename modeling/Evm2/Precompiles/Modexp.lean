import Evm2.Interpreter.Gas
import Evm2.Interpreter.Frame

/-!
# The MODEXP precompile

The precompile of EIP-198, with the prices of EIP-2565 and EIP-7883 and the limits of EIP-7823. The
exponentiation itself is done by a library, a parameter here; six moduli have a shortcut.
-/

namespace Evm2.Modexp

/-! ## Padding -/

def readWordPadded (data : Bytes) (offset : ℕ) : Bytes := paddedSlice data offset 32

def leftPad (len : ℕ) (data : Bytes) : Bytes :=
  if len ≤ data.length then data.take len else List.replicate (len - data.length) 0 ++ data

def rightPadVec (data : Bytes) (len : ℕ) : Bytes :=
  if len ≤ data.length then data.take len else data ++ List.replicate (len - data.length) 0

def leftPadVecBe (data : Bytes) (len : ℕ) : Bytes :=
  if data.length < len then List.replicate (len - data.length) 0 ++ data
  else data.drop (data.length - len)

/-! ## Exponentiation -/

def PRIMES : List ℕ := [
  -- BN254 scalar field
  0x30644e72e131a029b85045b68181585d2833e84879b9709143e1f593f0000001,
  -- BN254 base field
  0x30644e72e131a029b85045b68181585d97816a916871ca8d3c208c16d87cfd47,
  -- secp256k1 base field and group order
  0xfffffffffffffffffffffffffffffffffffffffffffffffffffffffefffffc2f,
  0xfffffffffffffffffffffffffffffffebaaedce6af48a03bbfd25e8cd0364141,
  -- secp256r1 base field and group order
  0xffffffff00000001000000000000000000000000ffffffffffffffffffffffff,
  0xffffffff00000000ffffffffffffffffbce6faada7179e84f3b9cac2fc632551]

def invMod (a p : ℕ) : Option ℕ :=
  if Nat.gcd a p = 1 then some (Nat.gcdA a p % p).toNat else none

def fermatInverse (base exponent modulus : Bytes) : Option Bytes :=
  if 32 < base.length ∨ 32 < exponent.length ∨ modulus.length ≠ 32 then none
  else if ofBeBytes modulus ∉ PRIMES ∨ ofBeBytes exponent ≠ ofBeBytes modulus - 2 then none
  else some (beBytes 32 ((invMod (ofBeBytes base) (ofBeBytes modulus)).getD 0))

def modexp (modexpBig : Bytes → Bytes → Bytes → Bytes) (base exponent modulus : Bytes) : Bytes :=
  (fermatInverse base exponent modulus).getD (modexpBig base exponent modulus)

/-! ## The price -/

structure GasCalcParams where
  minPrice : ℕ
  multiplier : ℕ
  divisor : ℕ

def BYZANTIUM_PARAMS : GasCalcParams := ⟨0, 8, 20⟩

def BERLIN_PARAMS : GasCalcParams := ⟨200, 8, 3⟩

def OSAKA_PARAMS : GasCalcParams := ⟨500, 16, 1⟩

def calculateIterationCount (expLength expHighp multiplier : ℕ) : ℕ :=
  let count :=
    if expLength ≤ 32 ∧ expHighp = 0 then 0
    else if expLength ≤ 32 then expHighp.size - 1
    else satAdd64 (satMul64 multiplier (expLength - 32)) (max 1 expHighp.size - 1)
  max count 1

def byzantiumMultiplicationComplexity (maxLen : ℕ) : ℕ :=
  if maxLen ≤ 64 then maxLen * maxLen
  else if maxLen ≤ 1024 then maxLen * maxLen / 4 + 96 * maxLen - 3072
  else maxLen * maxLen / 16 + 480 * maxLen - 199680

def berlinMultiplicationComplexity (maxLen : ℕ) : ℕ :=
  let words := (maxLen + 7) / 8
  words * words

def osakaMultiplicationComplexity (maxLen : ℕ) : ℕ :=
  if maxLen ≤ 32 then 16 else berlinMultiplicationComplexity maxLen * 2

def gasCalc (params : GasCalcParams) (complexity : ℕ → ℕ) (baseLen expLen modLen expHighp : ℕ) :
    ℕ :=
  let count := calculateIterationCount expLen expHighp params.multiplier
  let gas := complexity (max baseLen modLen) * count % 2 ^ 256 / params.divisor
  max params.minPrice (min gas maxU64)

def byzantiumGasCalc : ℕ → ℕ → ℕ → ℕ → ℕ :=
  gasCalc BYZANTIUM_PARAMS byzantiumMultiplicationComplexity

def berlinGasCalc : ℕ → ℕ → ℕ → ℕ → ℕ := gasCalc BERLIN_PARAMS berlinMultiplicationComplexity

def osakaGasCalc : ℕ → ℕ → ℕ → ℕ → ℕ := gasCalc OSAKA_PARAMS osakaMultiplicationComplexity

/-! ## The precompile -/

/-- The halts of this precompile, of `PrecompileHalt`. -/
inductive PrecompileHalt
  | outOfGas
  | modexpEip7823LimitSize
  deriving DecidableEq, Repr

def INPUT_SIZE_LIMIT : ℕ := 1024

def lengthAt (input : Bytes) (offset : ℕ) : ℕ :=
  min (ofBeBytes (readWordPadded input offset)) maxU64

def expHighp (body : Bytes) (baseLen expLen : ℕ) : ℕ :=
  ofBeBytes (leftPad 32 ((readWordPadded body baseLen).take (min expLen 32)))

def output (modexpBig : Bytes → Bytes → Bytes → Bytes) (body : Bytes) (osaka : Bool)
    (baseLen expLen modLen : ℕ) : Except PrecompileHalt Bytes :=
  if osaka ∧ [baseLen, expLen, modLen].any (INPUT_SIZE_LIMIT < ·) then
    .error .modexpEip7823LimitSize
  else if baseLen = 0 ∧ modLen = 0 then .ok []
  else
    let input := rightPadVec body (satAdd64 (satAdd64 baseLen expLen) modLen)
    let base := input.take baseLen
    let exponent := (input.drop baseLen).take expLen
    let modulus := (input.drop baseLen).drop expLen
    .ok (leftPadVecBe (modexp modexpBig base exponent modulus) modLen)

def runInner (modexpBig : Bytes → Bytes → Bytes → Bytes) (params : GasCalcParams) (osaka : Bool)
    (calcGas : ℕ → ℕ → ℕ → ℕ → ℕ) (input : Bytes) (gas : GasTracker) :
    Except PrecompileHalt Bytes × GasTracker :=
  let (enough, gas) := gas.spend params.minPrice
  if !enough then (.error .outOfGas, gas)
  else
    let baseLen := lengthAt input 0
    let expLen := lengthAt input 32
    let modLen := lengthAt input 64
    let body := input.drop 96
    let gasCost := calcGas baseLen expLen modLen (expHighp body baseLen expLen)
    let (enough, gas) := gas.spend (gasCost - params.minPrice)
    if !enough then (.error .outOfGas, gas)
    else (output modexpBig body osaka baseLen expLen modLen, gas)

section Run

variable (modexpBig : Bytes → Bytes → Bytes → Bytes)

def runByzantium : Bytes → GasTracker → Except PrecompileHalt Bytes × GasTracker :=
  runInner modexpBig BYZANTIUM_PARAMS false byzantiumGasCalc

def runBerlin : Bytes → GasTracker → Except PrecompileHalt Bytes × GasTracker :=
  runInner modexpBig BERLIN_PARAMS false berlinGasCalc

def runOsaka : Bytes → GasTracker → Except PrecompileHalt Bytes × GasTracker :=
  runInner modexpBig OSAKA_PARAMS true osakaGasCalc

end Run

end Evm2.Modexp
