import Evm2.Interpreter.Arithmetic

/-!
# Signed arithmetic

The signed instructions compute on unsigned limbs, with sign flips and conditional negation.

* `Limbs`: the functions of `i256.rs` as they compute on four limbs of 64 bits;
* `Word.toInt_sar`, `Word.toInt_signextend`: shifts and sign extension.
-/

namespace Evm2

/-! ## Limbs -/

theorem Word.getLsbD_signBit {i : ℕ} (hi : i < 256) :
    (1#256 <<< 255).getLsbD i = decide (i = 255) := by
  rw [BitVec.getLsbD_shiftLeft, BitVec.getLsbD_one]
  by_cases h : i = 255
  · subst h
    rfl
  · simp [h, hi]
    omega

namespace Limbs

def limb (w : Word) (i : ℕ) : BitVec 64 := w.extractLsb' (64 * i) 64

def ofLimbs (l₀ l₁ l₂ l₃ : BitVec 64) : Word := l₃ ++ (l₂ ++ (l₁ ++ l₀))

def flipSign (value : Word) : Word :=
  ofLimbs (limb value 0) (limb value 1) (limb value 2) (limb value 3 ^^^ (1#64 <<< 63))

def i256Cmp (first second : Word) : Ordering :=
  compare (flipSign first).toNat (flipSign second).toNat

def signMask (value : Word) : BitVec 64 := (limb value 3).sshiftRight 63

def negateIf (value : Word) (mask : BitVec 64) : Word :=
  ofLimbs (limb value 0 ^^^ mask) (limb value 1 ^^^ mask) (limb value 2 ^^^ mask)
    (limb value 3 ^^^ mask) - ofLimbs mask mask mask mask

def i256Div (first second : Word) : Word :=
  if second = 0 then 0
  else
    let quotient := negateIf first (signMask first) / negateIf second (signMask second)
    negateIf quotient (signMask first ^^^ signMask second)

def i256Mod (first second : Word) : Word :=
  if second = 0 then 0
  else
    let remainder := negateIf first (signMask first) % negateIf second (signMask second)
    negateIf remainder (signMask first)

theorem getLsbD_ofLimbs (l₀ l₁ l₂ l₃ : BitVec 64) (i : ℕ) :
    (ofLimbs l₀ l₁ l₂ l₃).getLsbD i =
      if i < 64 then l₀.getLsbD i
      else if i < 128 then l₁.getLsbD (i - 64)
      else if i < 192 then l₂.getLsbD (i - 128)
      else l₃.getLsbD (i - 192) := by
  show (l₃ ++ (l₂ ++ (l₁ ++ l₀)) : BitVec (64 + (64 + (64 + 64)))).getLsbD i = _
  rw [BitVec.getLsbD_append, BitVec.getLsbD_append, BitVec.getLsbD_append]
  simp only [Nat.reduceAdd]
  by_cases h₀ : i < 64
  · have h₁ : i < 128 := by omega
    have h₂ : i < 192 := by omega
    simp only [h₀, h₁, h₂, if_true]
  · by_cases h₁ : i < 128
    · have h₂ : i < 192 := by omega
      simp only [h₀, h₁, h₂, if_true, if_false]
    · simp only [h₀, h₁, if_false]

theorem getLsbD_limb (w : Word) (n i : ℕ) (hi : i < 64) :
    (limb w n).getLsbD i = w.getLsbD (64 * n + i) := by
  simp [limb, hi]

theorem getLsbD_ofLimbs_limb (w : Word) {i : ℕ} (hi : i < 256) :
    (ofLimbs (limb w 0) (limb w 1) (limb w 2) (limb w 3)).getLsbD i = w.getLsbD i := by
  rw [getLsbD_ofLimbs]
  split_ifs with h₀ h₁ h₂
  · rw [getLsbD_limb _ _ _ h₀, show 64 * 0 + i = i by omega]
  · rw [getLsbD_limb _ _ _ (by omega), show 64 * 1 + (i - 64) = i by omega]
  · rw [getLsbD_limb _ _ _ (by omega), show 64 * 2 + (i - 128) = i by omega]
  · rw [getLsbD_limb _ _ _ (by omega), show 64 * 3 + (i - 192) = i by omega]

theorem ofLimbs_mask (b : Bool) :
    ofLimbs (if b then .allOnes 64 else 0) (if b then .allOnes 64 else 0)
      (if b then .allOnes 64 else 0) (if b then .allOnes 64 else 0) =
      if b then BitVec.allOnes 256 else 0 := by
  cases b <;> decide

theorem signMask_eq (w : Word) : signMask w = if w.msb then BitVec.allOnes 64 else 0 := by
  have hmsb : (limb w 3).msb = w.msb := by
    rw [BitVec.msb_eq_getLsbD_last, BitVec.msb_eq_getLsbD_last]
    exact getLsbD_limb w 3 63 (by omega)
  have htop : (limb w 3).getLsbD 63 = (limb w 3).msb := (BitVec.msb_eq_getLsbD_last _).symm
  apply BitVec.eq_of_getLsbD_eq
  intro i hi
  unfold signMask
  rw [BitVec.getLsbD_sshiftRight, ← hmsb]
  have hge : ¬64 ≤ i := by omega
  by_cases h : 63 + i < 64
  · obtain rfl : i = 0 := by omega
    rw [if_pos h, Nat.add_zero, htop]
    generalize (limb w 3).msb = b
    cases b <;> decide
  · rw [if_neg h]
    generalize (limb w 3).msb = b
    cases b with
    | false => simp
    | true => simp only [hge, hi, decide_false, decide_true, Bool.not_false, Bool.and_true, if_true,
        BitVec.getLsbD_allOnes]

theorem negateIf_eq (w : Word) (b : Bool) :
    negateIf w (if b then BitVec.allOnes 64 else 0) = Word.negateIf w b := by
  unfold negateIf
  rw [ofLimbs_mask]
  have hbits : ofLimbs (limb w 0 ^^^ if b then BitVec.allOnes 64 else 0)
      (limb w 1 ^^^ if b then BitVec.allOnes 64 else 0)
      (limb w 2 ^^^ if b then BitVec.allOnes 64 else 0)
      (limb w 3 ^^^ if b then BitVec.allOnes 64 else 0) = if b then ~~~w else w := by
    apply BitVec.eq_of_getLsbD_eq
    intro i hi
    have hw := getLsbD_ofLimbs_limb w hi
    rw [getLsbD_ofLimbs] at hw ⊢
    cases b with
    | false => simpa using hw
    | true =>
      simp only [if_true, BitVec.xor_allOnes, BitVec.getLsbD_not, hi, decide_true, Bool.true_and]
      rw [← hw]
      split_ifs with h₀ h₁ h₂
      · simp [h₀]
      · simp [show i - 64 < 64 by omega]
      · simp [show i - 128 < 64 by omega]
      · simp [show i - 192 < 64 by omega]
  rw [hbits]
  cases b with
  | false => simp [Word.negateIf]
  | true =>
    show ~~~w - BitVec.allOnes 256 = -w
    rw [BitVec.sub_eq_add_neg, ← BitVec.neg_one_eq_allOnes, BitVec.neg_neg, BitVec.neg_eq_not_add]

theorem xor_mask (b c : Bool) :
    ((if b then BitVec.allOnes 64 else 0) ^^^ if c then BitVec.allOnes 64 else 0) =
      if b ^^ c then BitVec.allOnes 64 else 0 := by
  cases b <;> cases c <;> decide

theorem i256Div_eq (a b : Word) : i256Div a b = Word.i256Div a b := by
  unfold i256Div Word.i256Div
  simp only [signMask_eq, xor_mask, negateIf_eq]

theorem i256Mod_eq (a b : Word) : i256Mod a b = Word.i256Mod a b := by
  unfold i256Mod Word.i256Mod
  simp only [signMask_eq, negateIf_eq]

theorem flipSign_eq (w : Word) : flipSign w = Word.flipSign w := by
  apply BitVec.eq_of_getLsbD_eq
  intro i hi
  have hw := getLsbD_ofLimbs_limb w hi
  have hbit := Word.getLsbD_signBit hi
  have htop : ∀ j < 64, (1#64 <<< 63).getLsbD j = decide (j = 63) := by decide
  rw [Word.flipSign, BitVec.getLsbD_xor (x := w), hbit, ← hw]
  unfold flipSign
  rw [getLsbD_ofLimbs, getLsbD_ofLimbs]
  split_ifs with h₀ h₁ h₂
  · simp [show i ≠ 255 by omega]
  · simp [show i ≠ 255 by omega]
  · simp [show i ≠ 255 by omega]
  · rw [BitVec.getLsbD_xor, htop _ (by omega)]
    have hpos : decide (i - 192 = 63) = decide (i = 255) := decide_eq_decide.mpr (by omega)
    rw [hpos]

end Limbs

/-! ## Words read in two's complement -/

namespace Word

theorem toNat_flipSign (w : Word) : ((flipSign w).toNat : ℤ) = w.toInt + 2 ^ 255 := by
  have hcons : flipSign w = BitVec.cons (!w.msb) (w.setWidth 255) := by
    apply BitVec.eq_of_getLsbD_eq
    intro i hi
    unfold flipSign
    rw [BitVec.getLsbD_xor, getLsbD_signBit hi, BitVec.getLsbD_cons, BitVec.getLsbD_setWidth]
    by_cases h : i = 255
    · subst h
      simp [BitVec.msb_eq_getLsbD_last]
    · have hlt : i < 255 := by omega
      simp [h, hlt]
  have hw : w = BitVec.cons w.msb (w.setWidth 255) := (BitVec.cons_msb_setWidth w).symm
  have hlt : (w.setWidth 255).toNat < 2 ^ 255 := (w.setWidth 255).isLt
  have hnat : w.toNat = w.msb.toNat * 2 ^ 255 + (w.setWidth 255).toNat := by
    conv_lhs => rw [hw]
    rw [BitVec.toNat_cons', Nat.shiftLeft_eq]
  have htop : (2 : ℕ) ^ 256 = 2 * 2 ^ 255 := Nat.pow_succ'
  have hcast : (2 : ℤ) ^ 255 = ((2 ^ 255 : ℕ) : ℤ) := (Int.natCast_pow 2 255).symm
  rw [hcons, BitVec.toNat_cons', Nat.shiftLeft_eq, BitVec.toInt_eq_msb_cond, hnat, hcast, htop]
  generalize (2 : ℕ) ^ 255 = P at *
  cases w.msb with
  | false =>
    simp only [Bool.not_false, Bool.toNat_true, Bool.toNat_false, Bool.false_eq_true, if_false]
    omega
  | true =>
    simp only [Bool.not_true, Bool.toNat_true, Bool.toNat_false, if_true]
    omega

theorem compare_flipSign (a b : Word) :
    compare (flipSign a).toNat (flipSign b).toNat = compare a.toInt b.toInt := by
  have ha := toNat_flipSign a
  have hb := toNat_flipSign b
  generalize (2 : ℤ) ^ 255 = P at ha hb
  rcases lt_trichotomy a.toInt b.toInt with h | h | h
  · rw [compare_lt_iff_lt.mpr h, compare_lt_iff_lt]
    omega
  · rw [compare_eq_iff_eq.mpr h, compare_eq_iff_eq]
    omega
  · rw [compare_gt_iff_gt.mpr h, compare_gt_iff_gt]
    omega

theorem i256Div_eq_sdiv (a b : Word) : i256Div a b = BitVec.sdiv a b := by
  unfold i256Div
  by_cases hb : b = 0
  · subst hb
    rw [if_pos rfl]
    exact (BitVec.sdiv_zero).symm
  · rw [if_neg hb, BitVec.sdiv_eq]
    cases a.msb <;> cases b.msb <;> rfl

theorem i256Mod_eq_srem {a b : Word} (hb : b ≠ 0) : i256Mod a b = BitVec.srem a b := by
  unfold i256Mod
  rw [if_neg hb, BitVec.srem_eq]
  cases a.msb <;> cases b.msb <;> rfl

theorem i256Div_eq_ofInt (a b : Word) :
    i256Div a b = BitVec.ofInt 256 (a.toInt.tdiv b.toInt) := by
  rw [i256Div_eq_sdiv]
  apply BitVec.eq_of_toInt_eq
  rw [BitVec.toInt_sdiv, BitVec.toInt_ofInt]

/-- **The remainder has the sign of the dividend.** -/
theorem toInt_i256Mod {a b : Word} (hb : b ≠ 0) :
    (i256Mod a b).toInt = a.toInt.tmod b.toInt := by
  rw [i256Mod_eq_srem hb, BitVec.toInt_srem]

theorem i256Div_mul_add_i256Mod {a b : Word} (hb : b ≠ 0) :
    a = b * i256Div a b + i256Mod a b := by
  have hmod : i256Mod a b = BitVec.ofInt 256 (a.toInt.tmod b.toInt) := by
    rw [← toInt_i256Mod hb, BitVec.ofInt_toInt]
  have hb' : b = BitVec.ofInt 256 b.toInt := BitVec.ofInt_toInt.symm
  calc a = BitVec.ofInt 256 (b.toInt * a.toInt.tdiv b.toInt + a.toInt.tmod b.toInt) := by
        rw [Int.mul_tdiv_add_tmod, BitVec.ofInt_toInt]
    _ = BitVec.ofInt 256 b.toInt * BitVec.ofInt 256 (a.toInt.tdiv b.toInt) +
          BitVec.ofInt 256 (a.toInt.tmod b.toInt) := by
        rw [BitVec.ofInt_add, BitVec.ofInt_mul]
    _ = b * i256Div a b + i256Mod a b := by
        rw [← hb', ← i256Div_eq_ofInt, ← hmod]

theorem toUsizeSaturated_lt {s : Word} {n : ℕ} (hn : n ≤ maxU64) :
    s.toUsizeSaturated < n ↔ s.toNat < n := by
  unfold toUsizeSaturated
  omega

/-- **An arithmetic shift divides, rounding down.** -/
theorem toInt_sar (s x : Word) : (sar s x).toInt = x.toInt / 2 ^ s.toNat := by
  unfold sar
  by_cases h : s.toUsizeSaturated < 256
  · have hs : s.toUsizeSaturated = s.toNat := by
      rw [toUsizeSaturated_lt (by decide)] at h
      unfold toUsizeSaturated
      have : 256 ≤ maxU64 := by decide
      omega
    rw [if_pos h, hs, BitVec.toInt_sshiftRight, Int.shiftRight_eq_div_pow]
    norm_cast
  · -- nothing but the sign is left
    rw [if_neg h]
    rw [toUsizeSaturated_lt (by decide)] at h
    have hpow : (2 : ℤ) ^ 256 ≤ 2 ^ s.toNat := by
      have : (2 : ℕ) ^ 256 ≤ 2 ^ s.toNat := Nat.pow_le_pow_right (by omega) (by omega)
      exact_mod_cast this
    have hlt : 2 * x.toInt < 2 ^ 256 := BitVec.two_mul_toInt_lt
    have hge : -2 ^ 256 ≤ 2 * x.toInt := BitVec.le_two_mul_toInt
    have hmsb : x.msb = decide (x.toInt < 0) := BitVec.msb_eq_toInt
    have hpos : (0 : ℤ) < 2 ^ s.toNat := by
      have := Nat.two_pow_pos s.toNat
      exact_mod_cast this
    generalize (2 : ℤ) ^ s.toNat = P at *
    generalize (2 : ℤ) ^ 256 = Q at *
    by_cases hneg : x.toInt < 0
    · rw [hmsb, if_pos (by simpa using hneg)]
      have h₁ : x.toInt / P < 0 := Int.ediv_neg_of_neg_of_pos hneg hpos
      have h₂ : -1 ≤ x.toInt / P := Int.le_ediv_of_mul_le hpos (by omega)
      show (-1 : ℤ) = x.toInt / P
      omega
    · rw [hmsb, if_neg (by simpa using hneg), Int.ediv_eq_zero_of_lt (by omega) (by omega)]
      rfl

theorem getLsbD_lowMask {n : ℕ} (hn : n < 256) (i : ℕ) :
    ((1#256 <<< n) - 1).getLsbD i = decide (i < n) := by
  have hlt : 2 ^ n < 2 ^ 256 := Nat.pow_lt_pow_right (by omega) hn
  have hone : (1#256).toNat = 1 := by decide
  have hshift : (1#256 <<< n).toNat = 2 ^ n := by
    rw [BitVec.toNat_shiftLeft, Nat.shiftLeft_eq, hone, Nat.one_mul, Nat.mod_eq_of_lt hlt]
  have hle : 1#256 ≤ 1#256 <<< n := by
    rw [BitVec.le_def, hshift, hone]
    exact Nat.one_le_two_pow
  have hnat : ((1#256 <<< n) - 1#256).toNat = 2 ^ n - 1 := by
    rw [BitVec.toNat_sub_of_le hle, hshift, hone]
  show ((1#256 <<< n) - 1#256).toNat.testBit i = _
  rw [hnat, Nat.testBit_two_pow_sub_one]

/-- **Sign extension keeps the low bytes and repeats their sign.** -/
theorem signextend_eq {k x : Word} (hk : k < 31) :
    signextend k x = (x.setWidth (8 * (k.toNat + 1))).signExtend 256 := by
  have hk' : k.toNat < 31 := hk
  unfold signextend
  rw [if_pos hk]
  apply BitVec.eq_of_getLsbD_eq
  intro i hi
  have hmask := getLsbD_lowMask (n := 8 * k.toNat + 7) (by omega) i
  have hmsb : (x.setWidth (8 * (k.toNat + 1))).msb = x.getLsbD (8 * k.toNat + 7) := by
    rw [BitVec.msb_eq_getLsbD_last, BitVec.getLsbD_setWidth]
    have h : 8 * (k.toNat + 1) - 1 = 8 * k.toNat + 7 := by omega
    rw [h]
    simp
    omega
  have hcode : (if x.getLsbD (8 * k.toNat + 7) then x ||| ~~~((1#256 <<< (8 * k.toNat + 7)) - 1)
      else x &&& ((1#256 <<< (8 * k.toNat + 7)) - 1)).getLsbD i =
      if i < 8 * k.toNat + 7 then x.getLsbD i else x.getLsbD (8 * k.toNat + 7) := by
    by_cases hbit : x.getLsbD (8 * k.toNat + 7) = true
    · rw [if_pos hbit, BitVec.getLsbD_or, BitVec.getLsbD_not, hmask, hbit]
      by_cases h : i < 8 * k.toNat + 7 <;> simp [h, hi]
    · rw [if_neg hbit, BitVec.getLsbD_and, hmask]
      by_cases h : i < 8 * k.toNat + 7 <;> simp [h, hbit]
  refine Eq.trans hcode ?_
  rw [BitVec.getLsbD_signExtend, BitVec.getLsbD_setWidth, hmsb, decide_eq_true hi, Bool.true_and]
  -- the sign bit is the last one that is kept
  by_cases h : i = 8 * k.toNat + 7
  · subst h
    simp
    omega
  · have hiff : i < 8 * k.toNat + 7 ↔ i < 8 * (k.toNat + 1) := by omega
    by_cases hlt : i < 8 * (k.toNat + 1) <;> simp [hiff, hlt]

theorem toInt_signextend {k x : Word} (hk : k < 31) :
    (signextend k x).toInt = (x.setWidth (8 * (k.toNat + 1))).toInt := by
  have hk' : k.toNat < 31 := hk
  rw [signextend_eq hk, BitVec.toInt_signExtend_of_le (by omega)]

end Word

/-- **Signed arithmetic is two's complement arithmetic**, as the limbs compute it. -/
theorem signed_arithmetic_is_twos_complement (a b : Word) :
    (Limbs.i256Div a b = if b = 0 then 0 else BitVec.ofInt 256 (a.toInt.tdiv b.toInt)) ∧
      Limbs.i256Div (BitVec.intMin 256) (-1) = BitVec.intMin 256 ∧
      (Limbs.i256Mod a b).toInt = (if b = 0 then 0 else a.toInt.tmod b.toInt) ∧
      (b ≠ 0 → a = b * Limbs.i256Div a b + Limbs.i256Mod a b) ∧
      Limbs.i256Cmp a b = compare a.toInt b.toInt ∧
      (Word.sar a b).toInt = b.toInt / 2 ^ a.toNat ∧
      (if a < 31 then (Word.signextend a b).toInt = (b.setWidth (8 * (a.toNat + 1))).toInt
        else Word.signextend a b = b) := by
  rw [Limbs.i256Div_eq, Limbs.i256Mod_eq]
  refine ⟨?_, by decide, ?_, Word.i256Div_mul_add_i256Mod, ?_, Word.toInt_sar a b, ?_⟩
  · split_ifs with hb
    · rw [Word.i256Div, if_pos hb]
    · exact Word.i256Div_eq_ofInt a b
  · split_ifs with hb
    · rw [Word.i256Mod, if_pos hb]
      rfl
    · exact Word.toInt_i256Mod hb
  · rw [Limbs.i256Cmp, Limbs.flipSign_eq, Limbs.flipSign_eq, Word.compare_flipSign]
  · split_ifs with hk
    · exact Word.toInt_signextend hk
    · rw [Word.signextend, if_neg hk]

end Evm2
