import Evm2.Jit.AbsValue
import Evm2.Interpreter.Instructions

/-!
# Constant and range folding

The analysis evaluates an instruction on abstract operands: exactly on constants, and otherwise
on the bounds of its operands. Bounds are below 2^31, so that none of the sums, products and shifts
of the code wraps; they are computed on natural numbers here.
-/

namespace Evm2.Jit

/-! ## Constants -/

def i256Cmp (a b : Word) : Ordering :=
  compare (Word.flipSign a).toNat (Word.flipSign b).toNat

def constFold1 (a : Word) : OpCode → Option Word
  | .iszero => some (.ofBool (a == 0))
  | .not => some (~~~a)
  | .clz => some a.leadingZeros
  | _ => none

def constFold2 (a b : Word) : OpCode → Option Word
  | .add => some (a + b)
  | .mul => some (a * b)
  | .sub => some (a - b)
  | .div => some (if b ≠ 0 then a / b else 0)
  | .sdiv => some (a.i256Div b)
  | .mod => some (if b ≠ 0 then a % b else 0)
  | .smod => some (a.i256Mod b)
  | .exp => some (a.wrappingPow b)
  | .signextend => some (a.signextend b)
  | .lt => some (.ofBool (a < b))
  | .gt => some (.ofBool (b < a))
  | .slt => some (.ofBool (i256Cmp a b == .lt))
  | .sgt => some (.ofBool (i256Cmp a b == .gt))
  | .eq => some (.ofBool (a == b))
  | .and => some (a &&& b)
  | .or => some (a ||| b)
  | .xor => some (a ^^^ b)
  | .byte => some (a.byte b)
  | .shl => some (a.shl b)
  | .shr => some (a.shr b)
  | .sar => some (a.sar b)
  | _ => none

def constFold3 (a b n : Word) : OpCode → Option Word
  | .addmod => some (a.addMod b n)
  | .mulmod => some (a.mulMod b n)
  | _ => none

/-! ## Ranges -/

section Bounds

def shr64 (v s : ℕ) : ℕ := if s < 64 then v >>> s else 0

def leadingZeros64 (v : ℕ) : ℕ := 64 - v.size

def mask64 (v : ℕ) : ℕ := if leadingZeros64 v < 64 then (2 ^ 64 - 1) >>> leadingZeros64 v else 0

def checkedPow (a b : ℕ) : Option ℕ := if a ^ b < 2 ^ 64 then some (a ^ b) else none

/-- The bounds of a comparison that holds for every input if `lt` and fails for every one if
`ge`. -/
def cmpBounds (lt ge : Bool) : ℕ × ℕ := if lt then (1, 1) else if ge then (0, 0) else (0, 1)

def minHi : Option ℕ → Option ℕ → Option ℕ
  | some a, some b => some (min a b)
  | some a, none => some a
  | none, b => b

-- the bounds of the inputs from the top of the stack, and the second input if it is a constant
variable (a b n : Option (ℕ × ℕ)) (kb : Option Word)

def addBounds : Option (ℕ × ℕ) := do
  let (aLo, aHi) ← a
  let (bLo, bHi) ← b
  return (aLo + bLo, aHi + bHi)

def mulBounds : Option (ℕ × ℕ) := do
  let (aLo, aHi) ← a
  let (bLo, bHi) ← b
  return (aLo * bLo, aHi * bHi)

def subBounds : Option (ℕ × ℕ) := do
  let (aLo, aHi) ← a
  let (bLo, bHi) ← b
  if bHi ≤ aLo then return (aLo - bHi, aHi - bLo) else none

def divBounds (signed : Bool) : Option (ℕ × ℕ) :=
  match a, b with
  | some (aLo, aHi), some (bLo, bHi) =>
    if 0 < bLo then some (aLo / bHi, aHi / bLo) else some (0, aHi)
  | some (_, aHi), none => if signed then none else some (0, aHi)
  | none, _ =>
    if signed then none
    else do
      let c ← kb
      if c = 0 then return (0, 0)
      else
        let q := (2 ^ 256 - 1) / c.toNat
        if q < 2 ^ 64 then return (0, q) else none

def remBounds : Option (ℕ × ℕ) :=
  (minHi (a.map Prod.snd) (b.map fun b => b.2 - 1)).map fun hi => (0, hi)

def modBounds (signed : Bool) : Option (ℕ × ℕ) :=
  if signed ∧ a.isNone then none
  else
    match a, b, kb with
    | some a, some b, _ => if a.2 < b.1 then some a else remBounds (some a) (some b)
    | some a, none, some _ => if signed then remBounds (some a) none else some a
    | a, b, _ => remBounds a b

def modnBounds (ab n : Option (ℕ × ℕ)) : Option (ℕ × ℕ) :=
  match ab, n with
  | some ab, some n => if ab.2 < n.1 then some ab else remBounds (some ab) (some n)
  | ab, n => remBounds ab n

/-- A bound of `a ^ b` from one bound of `a` and two of `b`: `0 ^ 0` is 1 and `0 ^ b` is 0. -/
def powBound (a b b' : ℕ) : Option ℕ :=
  if 0 < a then checkedPow a b else some (if b' = 0 then 1 else 0)

def expBounds : Option (ℕ × ℕ) := do
  let (aLo, aHi) ← a
  let (bLo, bHi) ← b
  let lo ← powBound aLo bLo bHi
  let hi ← powBound aHi bHi bLo
  return (lo, hi)

/-- A value whose sign bit is clear is unchanged, as is every value for `a ≥ 31`. -/
def signextendBounds : Option (ℕ × ℕ) := do
  let b ← b
  let aLo := (a.map Prod.fst).getD 0
  if aLo < 31 ∧ b.2 >>> (8 * min aLo 7 + 7) ≠ 0 then none else return b

def ltBounds : ℕ × ℕ :=
  match a, b with
  | some (aLo, aHi), some (bLo, bHi) => cmpBounds (aHi < bLo) (bHi ≤ aLo)
  | _, _ => (0, 1)

def gtBounds : ℕ × ℕ :=
  match a, b with
  | some (aLo, aHi), some (bLo, bHi) => cmpBounds (bHi < aLo) (aHi ≤ bLo)
  | _, _ => (0, 1)

def eqBounds : ℕ × ℕ :=
  match a, b with
  | some (aLo, aHi), some (bLo, bHi) => cmpBounds false (aHi < bLo ∨ bHi < aLo)
  | _, _ => (0, 1)

def iszeroBounds : ℕ × ℕ :=
  match a with
  | some (aLo, aHi) => cmpBounds (aHi = 0) (0 < aLo)
  | none => (0, 1)

def andBounds : Option (ℕ × ℕ) :=
  (minHi (a.map Prod.snd) (b.map Prod.snd)).map fun hi => (0, hi)

def orBounds : Option (ℕ × ℕ) := do
  let (aLo, aHi) ← a
  let (bLo, bHi) ← b
  return (max aLo bLo, mask64 (aHi ||| bHi))

def xorBounds : Option (ℕ × ℕ) := do
  let (_, aHi) ← a
  let (_, bHi) ← b
  return (0, mask64 (aHi ||| bHi))

def bytesAt (w : Word) (lo hi : ℕ) : List ℕ :=
  (List.range' lo (hi + 1 - lo)).map fun i => ((beBytes 32 w.toNat).getD i 0).toNat

def indexBounds : ℕ × ℕ :=
  match a with
  | some (lo, hi) => (min lo 32, min hi 32)
  | none => (0, 32)

def byteBounds : ℕ × ℕ :=
  let (iLo, iHi) := indexBounds a
  match kb with
  | some w => ((bytesAt w iLo iHi).min?.getD 0, (bytesAt w iLo iHi).max?.getD 0)
  | none => (0, (b.map fun b => min b.2 255).getD 255)

def shlBounds : Option (ℕ × ℕ) := do
  let (sLo, sHi) ← a
  if 256 ≤ sLo then return (0, 0)
  else
    let (bLo, bHi) ← b
    if sHi < 32 then return (bLo <<< sLo, bHi <<< sHi) else none

def shiftConst (c : Word) (s : ℕ) : ℕ := if s < 256 then c.toNat >>> s else 0

def shrBounds (signed : Bool) : Option (ℕ × ℕ) :=
  let (sLo, sHi) := a.getD (0, 256)
  match b, kb with
  | some (bLo, bHi), _ => some (shr64 bLo sHi, shr64 bHi sLo)
  | none, some c =>
    if signed ∧ c.msb then none
    else if shiftConst c sHi < 2 ^ 64 ∧ shiftConst c sLo < 2 ^ 64 then
      some (shiftConst c sHi, shiftConst c sLo)
    else none
  | none, none =>
    -- a large shift bounds any value
    if ¬signed ∧ 225 ≤ sLo then
      some (0, if sLo < 256 then (2 ^ 64 - 1) >>> (sLo - 192) else 0)
    else none

def clzBounds : ℕ × ℕ :=
  match a with
  | some (aLo, aHi) => (192 + leadingZeros64 aHi, 192 + leadingZeros64 aLo)
  | none => (0, 256)

end Bounds

/-- The bounds `try_range_fold` computes from what the instruction pops, the top of the stack
first. -/
def foldBounds (op : OpCode) (inputs : List AbsValue) : Option (ℕ × ℕ) :=
  match inputs with
  | [a] =>
    let a := a.bounds
    match op with
    | .iszero => some (iszeroBounds a)
    | .clz => some (clzBounds a)
    | _ => none
  | [a, b] =>
    let a := a.bounds
    let kb := b.asConst
    let b := b.bounds
    match op with
    | .add => addBounds a b
    | .mul => mulBounds a b
    | .sub => subBounds a b
    | .div => divBounds a b kb false
    | .sdiv => divBounds a b kb true
    | .mod => modBounds a b kb false
    | .smod => modBounds a b kb true
    | .exp => expBounds a b
    | .signextend => signextendBounds a b
    | .lt | .slt => some (ltBounds a b)
    | .gt | .sgt => some (gtBounds a b)
    | .eq => some (eqBounds a b)
    | .and => andBounds a b
    | .or => orBounds a b
    | .xor => xorBounds a b
    | .byte => some (byteBounds a b kb)
    | .shl => shlBounds a b
    | .shr => shrBounds a b kb false
    | .sar => shrBounds a b kb true
    | _ => none
  | [a, b, n] =>
    match op with
    | .addmod => modnBounds (addBounds a.bounds b.bounds) n.bounds
    | .mulmod => modnBounds (mulBounds a.bounds b.bounds) n.bounds
    | _ => none
  | _ => none

def tryRangeFold (op : OpCode) (inputs : List AbsValue) : Option AbsValue := do
  let (lo, hi) ← foldBounds op inputs.reverse
  AbsValue.ofRange lo hi

def foldUnary (op : OpCode) (inputs : List AbsValue) : Option AbsValue :=
  match inputs with
  | [.const a] => (constFold1 a op).map .const
  | _ => tryRangeFold op inputs

def foldBinary (op : OpCode) (inputs : List AbsValue) : Option AbsValue :=
  match inputs with
  | [.const b, .const a] => (constFold2 a b op).map .const
  | _ => tryRangeFold op inputs

def foldTernary (op : OpCode) (inputs : List AbsValue) : Option AbsValue :=
  match inputs with
  | [.const n, .const b, .const a] => (constFold3 a b n op).map .const
  | _ => tryRangeFold op inputs

def tryConstFold (op : OpCode) (pc : ℕ) (inputs : List AbsValue) (codeLen : ℕ) :
    Option AbsValue :=
  match op with
  | .codesize => some (.const (BitVec.ofNat 256 codeLen))
  | .pc => some (.const (BitVec.ofNat 256 pc))
  | .iszero | .not | .clz => foldUnary op inputs
  | .add | .mul | .sub | .div | .sdiv | .mod | .smod | .exp | .signextend | .lt | .gt | .slt
  | .sgt | .eq | .and | .or | .xor | .byte | .shl | .shr | .sar => foldBinary op inputs
  | .addmod | .mulmod => foldTernary op inputs
  | _ => none

end Evm2.Jit
