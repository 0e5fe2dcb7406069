import Evm2.Interpreter.Signed

/-!
# Word arithmetic on natural numbers

What the arithmetic instructions compute, for words read as natural numbers.
-/

namespace Evm2.Word

variable (a b n : Word)

theorem toNat_div : (div a b).toNat = a.toNat / b.toNat := by
  unfold div
  by_cases hb : b = 0
  · rw [if_pos hb, hb]
    exact (Nat.div_zero _).symm
  · rw [if_neg hb, BitVec.toNat_udiv]

theorem toNat_rem (hb : b ≠ 0) : (rem a b).toNat = a.toNat % b.toNat := by
  unfold rem
  rw [if_neg hb, BitVec.toNat_umod]

theorem toNat_pos {b : Word} (hb : b ≠ 0) : 0 < b.toNat :=
  Nat.pos_of_ne_zero fun h => hb (BitVec.eq_of_toNat_eq h)

theorem toNat_addMod (hn : n ≠ 0) : (addMod a b n).toNat = (a.toNat + b.toNat) % n.toNat := by
  unfold addMod
  rw [if_neg hn, BitVec.toNat_ofNat]
  exact Nat.mod_eq_of_lt ((Nat.mod_lt _ (toNat_pos hn)).trans n.isLt)

theorem toNat_mulMod (hn : n ≠ 0) : (mulMod a b n).toNat = a.toNat * b.toNat % n.toNat := by
  unfold mulMod
  rw [if_neg hn, BitVec.toNat_ofNat]
  exact Nat.mod_eq_of_lt ((Nat.mod_lt _ (toNat_pos hn)).trans n.isLt)

/-! ## Signed arithmetic on non-negative words -/

section Nonneg

variable {a b}

theorem msb_of_lt (ha : a.toNat < 2 ^ 255) : a.msb = false := by
  rw [BitVec.msb_eq_false_iff_two_mul_lt]
  omega

theorem i256Div_of_lt (ha : a.toNat < 2 ^ 255) (hb : b.toNat < 2 ^ 255) :
    i256Div a b = div a b := by
  unfold i256Div div
  rw [msb_of_lt ha, msb_of_lt hb]
  rfl

theorem i256Mod_of_lt (ha : a.toNat < 2 ^ 255) (hb : b.toNat < 2 ^ 255) :
    i256Mod a b = rem a b := by
  unfold i256Mod rem
  rw [msb_of_lt ha, msb_of_lt hb]
  rfl

theorem toNat_i256Mod_le (ha : a.toNat < 2 ^ 255) : (i256Mod a b).toNat ≤ a.toNat := by
  unfold i256Mod
  by_cases hb : b = 0
  · rw [if_pos hb]
    exact Nat.zero_le _
  · rw [if_neg hb, msb_of_lt ha]
    change (a % negateIf b b.msb).toNat ≤ a.toNat
    rw [BitVec.toNat_umod]
    exact Nat.mod_le _ _

theorem i256Lt_of_lt (ha : a.toNat < 2 ^ 255) (hb : b.toNat < 2 ^ 255) :
    i256Lt a b = decide (a < b) := by
  have hflip : ∀ w : Word, w.toNat < 2 ^ 255 → (flipSign w).toNat = w.toNat + 2 ^ 255 := by
    intro w hw
    have hint : w.toInt = w.toNat := BitVec.toInt_eq_toNat_of_msb (msb_of_lt hw)
    have := toNat_flipSign w
    omega
  unfold i256Lt
  rw [decide_eq_decide, BitVec.lt_def, BitVec.lt_def, hflip a ha, hflip b hb]
  omega

theorem sar_of_lt (ha : a.toNat < 2 ^ 255) (s : Word) : sar s a = shr s a := by
  unfold sar shr
  rw [msb_of_lt ha, BitVec.sshiftRight_eq_of_msb_false (msb_of_lt ha)]
  rfl

end Nonneg

/-! ## Powers -/

theorem toNat_wrappingPow : (wrappingPow a b).toNat = a.toNat ^ b.toNat % 2 ^ 256 := by
  -- the loop has read the first `k` bits of the exponent
  have hloop : ∀ k ≤ 256, ((List.range k).foldl
      (fun acc i => acc * acc * if b.getMsbD i then a else 1) (1 : Word)).toNat =
        a.toNat ^ (b.toNat >>> (256 - k)) % 2 ^ 256 := by
    intro k
    induction k with
    | zero =>
      intro _
      rw [Nat.shiftRight_eq_div_pow, Nat.div_eq_of_lt b.isLt]
      rfl
    | succ k ih =>
      intro hk
      have ih := ih (by omega)
      rw [List.range_succ, List.foldl_append]
      generalize (List.range k).foldl
        (fun acc i => acc * acc * if b.getMsbD i then a else 1) (1 : Word) = acc at ih
      have hbit : b.getMsbD k = b.toNat.testBit (255 - k) := by
        rw [BitVec.getMsbD_eq_getLsbD, decide_eq_true (by omega), Bool.true_and]
        exact congrArg _ (by omega)
      have hexp : b.toNat >>> (256 - (k + 1)) =
          b.toNat >>> (256 - k) + b.toNat >>> (256 - k) + (b.toNat.testBit (255 - k)).toNat := by
        have hk' : 256 - k = 255 - k + 1 := by omega
        have hk'' : 256 - (k + 1) = 255 - k := by omega
        rw [hk', hk'', Nat.shiftRight_succ, Nat.testBit_eq_decide_div_mod_eq,
          Nat.shiftRight_eq_div_pow]
        by_cases h : b.toNat / 2 ^ (255 - k) % 2 = 1
        · rw [decide_eq_true h, Bool.toNat_true]
          omega
        · rw [decide_eq_false h, Bool.toNat_false]
          omega
      change (acc * acc * if b.getMsbD k then a else 1).toNat = _
      rw [hexp, pow_add, pow_add, hbit, BitVec.toNat_mul, BitVec.toNat_mul, ih]
      cases b.toNat.testBit (255 - k) with
      | false =>
        simp only [Bool.false_eq_true, if_false, Bool.toNat_false, pow_zero]
        change _ * 1 % _ = _
        rw [Nat.mul_one, Nat.mul_one, Nat.mod_mod, ← Nat.mul_mod]
      | true =>
        simp only [if_true, Bool.toNat_true, pow_one]
        rw [Nat.mul_mod, Nat.mod_mod, ← Nat.mul_mod (a.toNat ^ _), ← Nat.mul_mod]
  have h := hloop 256 le_rfl
  rw [Nat.sub_self, Nat.shiftRight_zero] at h
  exact h

/-! ## Bytes and shifts -/

theorem toUsizeSaturated_of_lt {s : Word} (h : s.toNat < 2 ^ 64) :
    s.toUsizeSaturated = s.toNat := by
  unfold toUsizeSaturated maxU64
  omega

theorem toNat_shl (s : Word) : (shl s a).toNat = a.toNat * 2 ^ s.toNat % 2 ^ 256 := by
  unfold shl
  by_cases h : s.toNat < 256
  · rw [if_pos ((toUsizeSaturated_lt (by decide)).mpr h), toUsizeSaturated_of_lt (by omega),
      BitVec.toNat_shiftLeft, Nat.shiftLeft_eq]
  · rw [if_neg (mt (toUsizeSaturated_lt (by decide)).mp h)]
    have hpow : 2 ^ s.toNat = 2 ^ 256 * 2 ^ (s.toNat - 256) := by
      rw [← pow_add]
      exact congrArg _ (by omega)
    rw [hpow, Nat.mul_left_comm, Nat.mul_mod_right]
    rfl

theorem toNat_shr (s : Word) : (shr s a).toNat = a.toNat / 2 ^ s.toNat := by
  unfold shr
  by_cases h : s.toNat < 256
  · rw [if_pos ((toUsizeSaturated_lt (by decide)).mpr h), toUsizeSaturated_of_lt (by omega),
      BitVec.toNat_ushiftRight, Nat.shiftRight_eq_div_pow]
  · rw [if_neg (mt (toUsizeSaturated_lt (by decide)).mp h)]
    have hpow : 2 ^ 256 ≤ 2 ^ s.toNat := Nat.pow_le_pow_right (by omega) (by omega)
    exact (Nat.div_eq_of_lt (a.isLt.trans_le hpow)).symm

theorem signextend_of_lt {k : Word} (h : k.toNat < 31 → a.toNat < 2 ^ (8 * k.toNat + 7)) :
    signextend k a = a := by
  unfold signextend
  by_cases hk : k < 31
  · rw [if_pos hk]
    have hk' : k.toNat < 31 := hk
    have hlow : ∀ i, 8 * k.toNat + 7 ≤ i → a.getLsbD i = false := fun i hi =>
      Nat.testBit_lt_two_pow ((h hk').trans_le (Nat.pow_le_pow_right (by omega) hi))
    change (if a.getLsbD (8 * k.toNat + 7) then _ else _) = _
    rw [hlow _ le_rfl, if_neg Bool.false_ne_true]
    apply BitVec.eq_of_getLsbD_eq
    intro i hi
    rw [BitVec.getLsbD_and, getLsbD_lowMask (by omega)]
    by_cases hlt : i < 8 * k.toNat + 7
    · rw [decide_eq_true hlt, Bool.and_true]
    · rw [hlow i (by omega), Bool.false_and]
  · rw [if_neg hk]

theorem toNat_byte (i : Word) :
    (byte i a).toNat = ((beBytes 32 a.toNat).getD i.toNat 0).toNat := by
  unfold byte
  by_cases h : i.toNat < 32
  · rw [if_pos ((toUsizeSaturated_lt (by decide)).mpr h), toUsizeSaturated_of_lt (by omega)]
    have hget : (beBytes 32 a.toNat).getD i.toNat 0 =
        BitVec.ofNat 8 (a.toNat >>> (8 * (31 - i.toNat))) := by
      simp [beBytes, h]
    rw [hget, BitVec.toNat_and, BitVec.toNat_ushiftRight, BitVec.toNat_ofNat]
    exact Nat.and_two_pow_sub_one_eq_mod _ 8
  · rw [if_neg (mt (toUsizeSaturated_lt (by decide)).mp h)]
    have hget : (beBytes 32 a.toNat).getD i.toNat 0 = 0 := by
      rw [List.getD_eq_getElem?_getD, List.getElem?_eq_none (by rw [length_beBytes]; omega)]
      rfl
    rw [hget]
    rfl

theorem toNat_byte_le (i : Word) : (byte i a).toNat ≤ a.toNat := by
  unfold byte
  by_cases h : i.toUsizeSaturated < 32
  · rw [if_pos h, BitVec.toNat_and, BitVec.toNat_ushiftRight, Nat.shiftRight_eq_div_pow]
    exact Nat.and_le_left.trans (Nat.div_le_self _ _)
  · rw [if_neg h]
    exact Nat.zero_le _

theorem toNat_leadingZeros : (leadingZeros a).toNat = 256 - a.toNat.size := by
  unfold leadingZeros
  by_cases ha : a = 0
  · rw [if_pos ha, ha]
    rfl
  · have hne : a.toNat ≠ 0 := (toNat_pos ha).ne'
    have hsize : a.toNat.size = a.toNat.log2 + 1 := by
      refine le_antisymm ?_ ?_
      · rw [Nat.size_le]
        exact Nat.lt_log2_self
      · rw [Nat.succ_le_iff, Nat.lt_size]
        exact Nat.log2_self_le hne
    rw [if_neg ha, BitVec.toNat_ofNat, hsize]
    omega

end Evm2.Word
