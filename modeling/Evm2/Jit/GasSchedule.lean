import Evm2.Jit.SectionHeads
import Evm2.Lib.Runs

/-!
# When gas is charged

The interpreter charges each instruction before it runs. Compiled code subtracts the static gas of a
section at its head from a signed counter, and checks the sign of the counter only where it must.

Stack checks are left out here.
-/

namespace Evm2.Jit

/-! ## The translation -/

/-- How the translation of an instruction treats the gas counter: `gas_cost`,
`call_fallible_builtin` (always, or only if memory grows), a push of the counter, or a check before
a return. -/
inductive GasUse
  | static | inline | builtin | resize | gas | stop
  deriving DecidableEq, Repr

/-- What `build_ensure_memory` does for an access: nothing, a resize, or a check and a resize. -/
inductive MemoryUse
  | covered | direct | checked
  deriving DecidableEq, Repr

/-- What the translation has decided about instructions: which ones it skips, being no-ops or having
a constant output, how it ensures memory, and which `EXP` it expands for a constant base. -/
structure Translation where
  skipped : ℕ → Bool := fun _ => false
  memory : ℕ → MemoryUse := fun _ => .checked
  inlineExp : ℕ → Bool := fun _ => false

/-- The part of `translate_inst` after the head of a section has been charged, as far as gas is
concerned. -/
def Bytecode.gasUse (bc : Bytecode) (tr : Translation) (i : ℕ) : GasUse :=
  if tr.skipped i then .static
  else if (bc.inst i).flags.host then .builtin
  else
    match (bc.inst i).opcode with
    | some .gas => .gas
    | some .stop => .stop
    | some .exp =>
      if (bc.constOperand i 1).isSome then .static
      else if tr.inlineExp i then .inline
      else .builtin
    | some .mload | some .mstore | some .mstore8 =>
      match tr.memory i with
      | .covered => .static
      | .direct => .builtin
      | .checked => .resize
    | some .keccak256 | some .balance | some .calldatacopy | some .codecopy | some .extcodesize
    | some .extcodecopy | some .returndatacopy | some .extcodehash | some .blockhash
    | some .selfbalance | some .sload | some .sstore | some .tstore | some .mcopy | some (.log _)
    | some .create | some .call | some .callcode | some .return | some .delegatecall
    | some .create2 | some .staticcall | some .revert | some .selfdestruct => .builtin
    | _ => .static

def hostInstructions : List OpCode :=
  [.balance, .extcodesize, .extcodecopy, .extcodehash, .blockhash, .selfbalance, .sload, .sstore,
    .tload, .tstore, .log 0, .log 1, .log 2, .log 3, .log 4]

def GAS_CHECK_THRESHOLD : ℕ := 1000

section Unchecked

variable (bc : Bytecode) (tr : Translation) (secs : Sections)

def Bytecode.failsFirst (i : ℕ) : Bool :=
  (bc.inst i).flags.disabled || (bc.inst i).flags.unknown

def Sections.isHead (i : ℕ) : Bool := (secs.stackHead i).isSome

def sectionNeedsGasCheck (head : ℕ) : Bool :=
  ((bc.liveInsts.filter (head ≤ ·)).takeWhile fun i => i == head || !secs.isHead i).any fun i =>
    (bc.inst i).isDiverging || (bc.inst i).endsSections ||
      match (bc.inst i).opcode with
      | some .gas | some .exp | some .keccak256 | some .calldatacopy | some .codecopy
      | some .returndatacopy | some .mcopy | some (.log _) => true
      | _ => false

def uncheckedCharged (u head : ℕ) : ℕ :=
  (if bc.isFallThroughOnly head then u else GAS_CHECK_THRESHOLD) + secs.gasCost head

def checksAtHead (u head : ℕ) : Bool :=
  decide (GAS_CHECK_THRESHOLD ≤ uncheckedCharged bc secs u head) ||
    (uncheckedCharged bc secs u head != 0 && sectionNeedsGasCheck bc secs head)

def uncheckedAtBody (u i : ℕ) : ℕ :=
  if secs.isHead i then
    if checksAtHead bc secs u i then 0 else uncheckedCharged bc secs u i
  else u

def uncheckedAfter (u i : ℕ) : ℕ :=
  if bc.failsFirst i then u
  else
    match bc.gasUse tr i with
    | .builtin | .gas | .stop => 0
    | .static | .inline | .resize => uncheckedAtBody bc secs u i

def uncheckedBefore (i : ℕ) : ℕ :=
  (bc.liveInsts.filter (· < i)).foldl (uncheckedAfter bc tr secs) 0

end Unchecked

/-! ## Machines -/

/-- Where an instruction leads: to another one, or to the end of the frame. -/
inductive Next (σ : Type)
  | goto (pc : ℕ) (s : σ)
  | stop (revert : Bool) (s : σ)

/-- What the instructions of a bytecode do. The state is all but the remaining gas. -/
structure Machine (σ : Type) where
  /-- The gas beyond its base gas that an instruction charges before it has an effect. -/
  dynamicGas : ℕ → σ → ℕ
  /-- Whether an access grows memory. -/
  resizes : ℕ → σ → Bool
  /-- The effect of an instruction that sees the given gas: where it leads to with how much gas,
  or an exceptional halt. -/
  exec : ℕ → σ → ℕ → Option (Next σ × ℕ)

/-- A frame, with its gas as a natural number or as a signed counter, and what instructions have
seen of it so far. -/
structure Conf (σ γ : Type) where
  pc : ℕ
  state : σ
  gas : γ
  seen : List (ℕ × ℕ) := []
  deriving DecidableEq

/-- How a frame ends: normally or with a revert, or with an exceptional halt. -/
inductive Outcome (σ : Type)
  | stopped (revert : Bool) (s : σ) (gas : ℕ) (seen : List (ℕ × ℕ))
  | halted (seen : List (ℕ × ℕ))
  deriving DecidableEq

def Bytecode.observes (bc : Bytecode) (i : ℕ) : Bool :=
  (bc.inst i).opcode == some .gas || (bc.inst i).endsSections

def Bytecode.observe (bc : Bytecode) (i gas : ℕ) (seen : List (ℕ × ℕ)) : List (ℕ × ℕ) :=
  if bc.observes i then seen ++ [(i, gas)] else seen

def wrap64 (z : ℤ) : ℤ := Int.bmod z (2 ^ 64)

def toU64 (z : ℤ) : ℕ := (z % 2 ^ 64).toNat

namespace Machine

variable {σ : Type} (M : Machine σ) (bc : Bytecode)

def interpStep (c : Conf σ ℕ) : Conf σ ℕ ⊕ Outcome σ :=
  let cost := (bc.inst c.pc).baseGas + M.dynamicGas c.pc c.state
  if c.gas < cost then .inr (.halted c.seen)
  else
    let seen := bc.observe c.pc (c.gas - cost) c.seen
    match M.exec c.pc c.state (c.gas - cost) with
    | none => .inr (.halted seen)
    | some (.goto pc s, gas) => .inl ⟨pc, s, gas, seen⟩
    | some (.stop revert s, gas) => .inr (.stopped revert s gas seen)

variable (tr : Translation) (secs : Sections)

def charge (i : ℕ) (counter : ℤ) : Option ℤ :=
  if secs.isHead i then
    let left := wrap64 (counter - secs.gasCost i)
    if checksAtHead bc secs (uncheckedBefore bc tr secs i) i ∧ left < 0 then none else some left
  else some counter

def gasCheck (i : ℕ) (counter : ℤ) : Option Unit :=
  if uncheckedAtBody bc secs (uncheckedBefore bc tr secs i) i ≠ 0 ∧ counter < 0 then none
  else some ()

def builtinSpend (cost : ℕ) (counter : ℤ) : Option (ℤ × ℕ) :=
  if toU64 counter < cost then none
  else some (wrap64 (toU64 counter - cost), toU64 counter - cost)

/-- The gas that an instruction uses itself: the counter after it, and the gas that it sees. -/
def spend (i : ℕ) (s : σ) (counter : ℤ) : Option (ℤ × ℕ) :=
  match bc.gasUse tr i with
  | .static => some (counter, 0)
  | .inline =>
    let left := wrap64 (counter - wrap64 (M.dynamicGas i s))
    if left < 0 then none else some (left, 0)
  | .builtin =>
    (gasCheck bc tr secs i counter).bind fun _ => builtinSpend (M.dynamicGas i s) counter
  | .resize =>
    if M.resizes i s then
      (gasCheck bc tr secs i counter).bind fun _ => builtinSpend (M.dynamicGas i s) counter
    else some (counter, 0)
  | .gas =>
    (gasCheck bc tr secs i counter).map fun _ =>
      (counter, toU64 (wrap64 (counter + secs.gasOwed i)))
  | .stop => (gasCheck bc tr secs i counter).map fun _ => (counter, 0)

/-- A step of compiled code. The instructions that end sections leave a new gas counter. -/
def compStep (c : Conf σ ℤ) : Conf σ ℤ ⊕ Outcome σ :=
  if bc.failsFirst c.pc then .inr (.halted c.seen)
  else
    match (charge bc tr secs c.pc c.gas).bind (M.spend bc tr secs c.pc c.state) with
    | none => .inr (.halted c.seen)
    | some (counter, seenGas) =>
      let seen := bc.observe c.pc seenGas c.seen
      match M.exec c.pc c.state seenGas with
      | none => .inr (.halted seen)
      | some (.goto pc s, gas) =>
        .inl ⟨pc, s, if (bc.inst c.pc).endsSections then wrap64 gas else counter, seen⟩
      | some (.stop revert s, gas) =>
        .inr (.stopped revert s (if (bc.inst c.pc).endsSections then gas else toU64 counter) seen)

/-! ## Bytecode that has been analysed -/

inductive Reach (s₀ : σ) : ℕ → σ → Prop
  | entry : Reach s₀ 0 s₀
  | step {i j : ℕ} {s s' : σ} {g g' : ℕ} (h : Reach s₀ i s)
    (hexec : M.exec i s g = some (.goto j s', g')) : Reach s₀ j s'

def flow (s₀ : σ) (i j : ℕ) : Prop :=
  ∃ s g s' g', M.Reach s₀ i s ∧ M.exec i s g = some (.goto j s', g')

/-- The analysis is right about what the machine does from an entry state, and the machine about
which instructions use gas. -/
structure Analysed (expCost : Word → ℕ) (s₀ : σ) : Prop where
  /-- The control flow is sound, and starts at the first instruction. -/
  cfg : SoundCfg bc (M.flow s₀)
  entry : bc.Live 0
  /-- Only the instructions that end sections change the gas, and never beyond 63 bits. -/
  keeps : ∀ i s g n g', (bc.inst i).endsSections = false → M.exec i s g = some (n, g') → g' = g
  bound : ∀ i s g n g', g < 2 ^ 63 → M.exec i s g = some (n, g') → g' < 2 ^ 63
  /-- The instructions that do not see the gas do not depend on it. -/
  blind : ∀ i s g g', bc.observes i = false →
    (M.exec i s g).map Prod.fst = (M.exec i s g').map Prod.fst
  /-- The frame ends at `STOP`, `RETURN`, `REVERT` and `SELFDESTRUCT` only. -/
  stops : ∀ i s g revert s' g', M.exec i s g = some (.stop revert s', g') →
    ∃ op ∈ [OpCode.stop, .return, .revert, .selfdestruct], (bc.inst i).opcode = some op
  fails : ∀ i s g, bc.failsFirst i = true → M.exec i s g = none
  /-- Hosts override some opcodes only. -/
  hosts : ∀ i, (bc.inst i).flags.host = true → ∃ op ∈ hostInstructions, (bc.inst i).opcode = some op
  /-- Instructions that end the frame or see the gas are not skipped. -/
  skips : ∀ i, tr.skipped i = true → bc.observes i = false ∧
    ∀ op ∈ [OpCode.stop, .return, .revert, .selfdestruct], (bc.inst i).opcode ≠ some op
  /-- Dynamic gas that the translation leaves out is in the static gas: the exponents that are known
  are right, and other instructions have none. -/
  static : ∀ i s, M.Reach s₀ i s → bc.gasUse tr i = .static →
    (bc.inst i).baseGas + M.dynamicGas i s = bc.staticGas expCost i
  silent : ∀ i s, bc.gasUse tr i = .gas ∨ bc.gasUse tr i = .stop ∨
    (bc.inst i).endsSections = true ∨ bc.gasUse tr i = .resize ∧ M.resizes i s = false →
      M.dynamicGas i s = 0
  /-- The dynamic gas of an `EXP` that is expanded is the price of some exponent. -/
  inline : ∀ i s, bc.gasUse tr i = .inline → ∃ (gp : GasParams) (e : Word),
    M.dynamicGas i s = gp.expCost e

/-- Prices are 32 bits wide, so `pay_exp_dynamic_gas` does not leave 63 bits. -/
theorem Analysed.dynamicGas_inline_le {M : Machine σ} {bc : Bytecode} {tr : Translation}
    {expCost : Word → ℕ} {s₀ : σ} (hM : M.Analysed bc tr expCost s₀) (i : ℕ) (s : σ)
    (huse : bc.gasUse tr i = .inline) : M.dynamicGas i s + GAS_CHECK_THRESHOLD ≤ 2 ^ 63 := by
  obtain ⟨gp, e, hgas⟩ := hM.inline i s huse
  have hcost := gp.expCost_lt e
  unfold GAS_CHECK_THRESHOLD
  omega

end Machine

end Evm2.Jit
