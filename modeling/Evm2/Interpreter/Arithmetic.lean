import Evm2.Primitives
import Evm2.Interpreter.Gas

/-!
# Word arithmetic of the instructions

The functions on words that the arithmetic and bitwise instructions compute.
-/

namespace Evm2

namespace Word

def ofBool (b : Bool) : Word := if b then 1 else 0

def toUsize (w : Word) : Except InstrStop Nat :=
  if w.toNat < 2 ^ 64 then .ok w.toNat else .error .invalidOperandOOG

def toUsizeSaturated (w : Word) : Nat := min w.toNat maxU64

def flipSign (w : Word) : Word := w ^^^ (1#256 <<< 255)

def i256Lt (a b : Word) : Bool := flipSign a < flipSign b

def negateIf (w : Word) (negative : Bool) : Word := if negative then -w else w

def i256Div (a b : Word) : Word :=
  if b = 0 then 0 else negateIf (negateIf a a.msb / negateIf b b.msb) (a.msb ^^ b.msb)

def i256Mod (a b : Word) : Word :=
  if b = 0 then 0 else negateIf (negateIf a a.msb % negateIf b b.msb) a.msb

def div (a b : Word) : Word := if b = 0 then 0 else a / b

def rem (a b : Word) : Word := if b = 0 then 0 else a % b

def addMod (a b n : Word) : Word :=
  if n = 0 then 0 else BitVec.ofNat 256 ((a.toNat + b.toNat) % n.toNat)

def mulMod (a b n : Word) : Word :=
  if n = 0 then 0 else BitVec.ofNat 256 ((a.toNat * b.toNat) % n.toNat)

def wrappingPow (a b : Word) : Word :=
  (List.range 256).foldl (fun acc i => acc * acc * if b.getMsbD i then a else 1) 1

def signextend (ext value : Word) : Word :=
  if ext < 31 then
    let bitIndex := 8 * ext.toNat + 7
    let mask := (1#256 <<< bitIndex) - 1
    if value.getLsbD bitIndex then value ||| ~~~mask else value &&& mask
  else value

def byte (index value : Word) : Word :=
  if index.toUsizeSaturated < 32 then (value >>> (8 * (31 - index.toUsizeSaturated))) &&& 0xFF
  else 0

def shl (shift value : Word) : Word :=
  if shift.toUsizeSaturated < 256 then value <<< shift.toUsizeSaturated else 0

def shr (shift value : Word) : Word :=
  if shift.toUsizeSaturated < 256 then value >>> shift.toUsizeSaturated else 0

def sar (shift value : Word) : Word :=
  if shift.toUsizeSaturated < 256 then value.sshiftRight shift.toUsizeSaturated
  else if value.msb then BitVec.allOnes 256 else 0

def leadingZeros (value : Word) : Word :=
  if value = 0 then 256 else BitVec.ofNat 256 (255 - Nat.log2 value.toNat)

end Word

end Evm2
