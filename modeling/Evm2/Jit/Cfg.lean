import Evm2.Jit.Bytecode

/-!
# Blocks

The control flow graph of a bytecode.
-/

namespace Evm2.Jit

structure BlockData where
  start : ℕ
  stop : ℕ
  succs : List ℕ := []
  deriving DecidableEq, Repr

namespace BlockData

def terminator (b : BlockData) : ℕ := b.stop - 1

def insts (b : BlockData) : List ℕ := List.range' b.start (b.stop - b.start)

end BlockData

/-- `Cfg`: blocks are not empty, stand in the order of their instructions and do not overlap. -/
structure Cfg where
  blocks : List BlockData
  nonempty : ∀ b ∈ blocks, b.start < b.stop
  sorted : blocks.Pairwise fun b b' => b.stop ≤ b'.start
  succs_lt : ∀ b ∈ blocks, ∀ s ∈ b.succs, s < blocks.length

namespace Cfg

variable (cfg : Cfg)

def block (b : ℕ) : BlockData := cfg.blocks.getD b ⟨0, 0, []⟩

def Inside (b i : ℕ) : Prop :=
  b < cfg.blocks.length ∧ (cfg.block b).start ≤ i ∧ i < (cfg.block b).stop

variable {cfg} {b b' i : ℕ}

theorem block_eq (hb : b < cfg.blocks.length) : cfg.block b = cfg.blocks[b] := by
  unfold block
  rw [List.getD_eq_getElem?_getD, List.getElem?_eq_getElem hb, Option.getD_some]

theorem block_mem (hb : b < cfg.blocks.length) : cfg.block b ∈ cfg.blocks := by
  rw [block_eq hb]
  exact List.getElem_mem hb

theorem block_of_le (hb : cfg.blocks.length ≤ b) : cfg.block b = ⟨0, 0, []⟩ := by
  unfold block
  rw [List.getD_eq_getElem?_getD, List.getElem?_eq_none hb, Option.getD_none]

theorem start_lt_stop (hb : b < cfg.blocks.length) : (cfg.block b).start < (cfg.block b).stop :=
  cfg.nonempty _ (block_mem hb)

theorem succ_lt {s : ℕ} (hs : s ∈ (cfg.block b).succs) : s < cfg.blocks.length := by
  by_cases hb : b < cfg.blocks.length
  · exact cfg.succs_lt _ (block_mem hb) s hs
  · rw [block_of_le (by omega)] at hs
    cases hs

theorem stop_le_start (hlt : b < b') (hb' : b' < cfg.blocks.length) :
    (cfg.block b).stop ≤ (cfg.block b').start := by
  rw [block_eq (by omega), block_eq hb']
  exact List.pairwise_iff_getElem.mp cfg.sorted b b' _ hb' hlt

theorem Inside.unique (h : cfg.Inside b i) (h' : cfg.Inside b' i) : b = b' := by
  obtain ⟨hb, hs, he⟩ := h
  obtain ⟨hb', hs', he'⟩ := h'
  rcases Nat.lt_trichotomy b b' with hlt | heq | hlt
  · have := stop_le_start hlt hb'
    omega
  · exact heq
  · have := stop_le_start hlt hb
    omega

theorem inside_start (hb : b < cfg.blocks.length) : cfg.Inside b (cfg.block b).start :=
  ⟨hb, le_rfl, start_lt_stop hb⟩

end Cfg

def InstData.isDynamicJump (data : InstData) : Bool :=
  data.isJump && !data.isStaticJump && !data.flags.invalidJump

/-- Where control may go after an instruction: to the next one in its block, from the end of a block
to a successor, or from an unresolved jump to a block that begins with a `JUMPDEST`. -/
def Cfg.Edge (cfg : Cfg) (bc : Bytecode) (i j : ℕ) : Prop :=
  ∃ b, cfg.Inside b i ∧
    (cfg.Inside b j ∧ j = i + 1 ∨
      i + 1 = (cfg.block b).stop ∧ ∃ b' < cfg.blocks.length, j = (cfg.block b').start ∧
        (b' ∈ (cfg.block b).succs ∨
          bc.hasDynamicJumps = true ∧ (bc.inst i).isDynamicJump = true ∧
            (bc.inst j).isJumpdest = true))

end Evm2.Jit
