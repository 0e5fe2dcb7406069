import Evm2.Precompiles.Modexp

/-!
# The MODEXP precompile and its specification

EIP-198, EIP-2565 and EIP-7883 state the price and the result in unbounded integers, for an input
that is followed by infinitely many zeros. The precompile saturates lengths and prices to 64 bits.
-/

namespace Evm2.Modexp

/-! ## The specification -/

namespace Eip

def number (input : Bytes) (offset len : ℕ) : ℕ := ofBeBytes (paddedSlice input offset len)

section

variable (input : Bytes)

def baseLen : ℕ := number input 0 32

def expLen : ℕ := number input 32 32

def modLen : ℕ := number input 64 32

def base : ℕ := number input 96 (baseLen input)

def exponent : ℕ := number input (96 + baseLen input) (expLen input)

def modulus : ℕ := number input (96 + baseLen input + expLen input) (modLen input)

def expHead : ℕ := number input (96 + baseLen input) (min (expLen input) 32)

/-- The adjusted exponent length: the index of the highest bit of the exponent, as far as it lies
in the first 32 bytes; the others count with the multiplier. -/
def adjustedExponentLength (multiplier : ℕ) : ℕ :=
  if expLen input ≤ 32 then (expHead input).log2
  else multiplier * (expLen input - 32) + (expHead input).log2

def multComplexity198 (x : ℕ) : ℕ :=
  if x ≤ 64 then x ^ 2
  else if x ≤ 1024 then x ^ 2 / 4 + 96 * x - 3072
  else x ^ 2 / 16 + 480 * x - 199680

def multComplexity2565 (x : ℕ) : ℕ := ((x + 7) / 8) ^ 2

def multComplexity7883 (x : ℕ) : ℕ := if x ≤ 32 then 16 else 2 * ((x + 7) / 8) ^ 2

def gas198 : ℕ :=
  multComplexity198 (max (modLen input) (baseLen input)) *
    max (adjustedExponentLength input 8) 1 / 20

def gas2565 : ℕ :=
  max 200 (multComplexity2565 (max (modLen input) (baseLen input)) *
    max (adjustedExponentLength input 8) 1 / 3)

def gas7883 : ℕ :=
  max 500 (multComplexity7883 (max (modLen input) (baseLen input)) *
    max (adjustedExponentLength input 16) 1)

def result : ℕ := if modulus input = 0 then 0 else base input ^ exponent input % modulus input

def TooLong : Prop := 1024 < baseLen input ∨ 1024 < expLen input ∨ 1024 < modLen input

end

end Eip

/-- What a precompile with this price does on an input, if `limited` with the limits of EIP-7823. -/
structure Meets (run : Bytes → GasTracker → Except PrecompileHalt Bytes × GasTracker)
    (price : Bytes → ℕ) (limited : Prop) (input : Bytes) (gas : GasTracker) : Prop where
  outOfGas : (run input gas).1 = .error .outOfGas ↔ gas.remaining < price input
  charges : price input ≤ gas.remaining →
    (run input gas).2 = { gas with remaining := gas.remaining - price input }
  rejects : price input ≤ gas.remaining →
    ((run input gas).1 = .error .modexpEip7823LimitSize ↔ limited ∧ Eip.TooLong input)
  returns : price input ≤ gas.remaining → ¬(limited ∧ Eip.TooLong input) →
    (run input gas).1 = .ok (beBytes (Eip.modLen input) (Eip.result input))

/-- The exponentiation of the library is right: it returns the power, in as many bytes as the
modulus has at most, and zero if the modulus is. -/
def Correct (modexpBig : Bytes → Bytes → Bytes → Bytes) : Prop :=
  ∀ base exponent modulus,
    (modexpBig base exponent modulus).length ≤ modulus.length ∧
      ofBeBytes (modexpBig base exponent modulus) =
        if ofBeBytes modulus = 0 then 0
        else ofBeBytes base ^ ofBeBytes exponent % ofBeBytes modulus

/-! ## Slices -/

theorem getElem?_paddedSlice (data : Bytes) (offset len i : ℕ) :
    (paddedSlice data offset len)[i]? =
      if i < len then some (data.getD (offset + i) 0) else none := by
  by_cases hi : i < len
  · rw [if_pos hi]
    unfold paddedSlice
    by_cases hin : offset + i < data.length
    · rw [List.getElem?_append_left (by rw [List.length_take, List.length_drop]; omega),
        List.getElem?_take_of_lt hi, List.getElem?_drop, List.getD_eq_getElem _ _ hin]
      exact List.getElem?_eq_getElem hin
    · rw [List.getElem?_append_right (by rw [List.length_take, List.length_drop]; omega),
        List.getD_eq_default _ _ (by omega), List.getElem?_replicate, if_pos]
      rw [List.length_take, List.length_drop]
      omega
  · rw [if_neg hi]
    exact List.getElem?_eq_none (by rw [length_paddedSlice]; omega)

theorem take_paddedSlice (data : Bytes) (offset : ℕ) {m n : ℕ} (h : m ≤ n) :
    (paddedSlice data offset n).take m = paddedSlice data offset m := by
  refine List.ext_getElem? fun i => ?_
  rw [List.getElem?_take, getElem?_paddedSlice, getElem?_paddedSlice]
  by_cases hi : i < m
  · rw [if_pos hi, if_pos hi, if_pos (by omega)]
  · rw [if_neg hi, if_neg hi]

theorem drop_paddedSlice (data : Bytes) (offset m n : ℕ) :
    (paddedSlice data offset n).drop m = paddedSlice data (offset + m) (n - m) := by
  refine List.ext_getElem? fun i => ?_
  rw [List.getElem?_drop, getElem?_paddedSlice, getElem?_paddedSlice, Nat.add_assoc]
  by_cases hi : m + i < n
  · rw [if_pos hi, if_pos (by omega)]
  · rw [if_neg hi, if_neg (by omega)]

theorem paddedSlice_drop (data : Bytes) (start offset len : ℕ) :
    paddedSlice (data.drop start) offset len = paddedSlice data (start + offset) len := by
  unfold paddedSlice
  rw [List.drop_drop]

theorem rightPadVec_eq (data : Bytes) (len : ℕ) :
    rightPadVec data len = paddedSlice data 0 len := by
  unfold rightPadVec paddedSlice
  rw [List.drop_zero]
  dsimp only
  by_cases h : len ≤ data.length
  · rw [if_pos h, List.length_take, min_eq_left h, Nat.sub_self]
    exact (List.append_nil _).symm
  · rw [if_neg h, List.take_of_length_le (by omega)]

theorem ofBeBytes_zeros_append (n : ℕ) (bytes : Bytes) :
    ofBeBytes (List.replicate n 0 ++ bytes) = ofBeBytes bytes := by
  rw [ofBeBytes_append, ofBeBytes_zeros, Nat.zero_mul, Nat.zero_add]

theorem leftPadVecBe_eq {bytes : Bytes} {len : ℕ} (h : bytes.length ≤ len) :
    leftPadVecBe bytes len = beBytes len (ofBeBytes bytes) := by
  have hpad : leftPadVecBe bytes len = List.replicate (len - bytes.length) 0 ++ bytes := by
    unfold leftPadVecBe
    by_cases hlt : bytes.length < len
    · rw [if_pos hlt]
    · rw [if_neg hlt, show len = bytes.length by omega, Nat.sub_self]
      rfl
  have hlen : (List.replicate (len - bytes.length) 0 ++ bytes).length = len := by
    rw [List.length_append, List.length_replicate]
    omega
  have := beBytes_ofBeBytes (List.replicate (len - bytes.length) 0 ++ bytes)
  rw [hlen, ofBeBytes_zeros_append] at this
  rw [hpad, this]

theorem expHighp_eq (input : Bytes) (baseLen expLen : ℕ) :
    expHighp (input.drop 96) baseLen expLen =
      Eip.number input (96 + baseLen) (min expLen 32) := by
  unfold expHighp readWordPadded Eip.number
  rw [paddedSlice_drop, take_paddedSlice _ _ (min_le_right _ _)]
  unfold leftPad
  rw [length_paddedSlice]
  by_cases h : 32 ≤ min expLen 32
  · rw [if_pos h, List.take_of_length_le (by rw [length_paddedSlice]; omega)]
  · rw [if_neg h, ofBeBytes_zeros_append]

/-! ## Fermat's little theorem -/

theorem invMod_eq_some {a p x : ℕ} (hp : 1 < p) (h : invMod a p = some x) :
    a * x % p = 1 ∧ x < p := by
  unfold invMod at h
  by_cases hg : Nat.gcd a p = 1
  · rw [if_pos hg] at h
    cases h
    have hnn : 0 ≤ Nat.gcdA a p % (p : ℤ) := Int.emod_nonneg _ (by omega)
    have hlt : Nat.gcdA a p % (p : ℤ) < p := Int.emod_lt_of_pos _ (by omega)
    refine ⟨?_, by omega⟩
    -- Bézout's identity, modulo `p`
    have hbez := Nat.gcd_eq_gcd_ab a p
    have hone : (a : ℤ) * Nat.gcdA a p = 1 - p * Nat.gcdB a p := by
      rw [hg] at hbez
      push_cast at hbez
      linarith
    have hmod : (a * (Nat.gcdA a p % (p : ℤ))) % p = 1 := by
      rw [Int.mul_emod, Int.emod_emod_of_dvd _ (dvd_refl _), ← Int.mul_emod, hone,
        Int.sub_mul_emod_self_left]
      exact Int.emod_eq_of_lt (by omega) (by omega)
    zify
    rw [Int.toNat_of_nonneg hnn]
    exact hmod
  · rw [if_neg hg] at h
    cases h

theorem invMod_eq_none {a p : ℕ} (hp : p.Prime) (h : invMod a p = none) : p ∣ a := by
  unfold invMod at h
  by_cases hg : Nat.gcd a p = 1
  · rw [if_pos hg] at h
    cases h
  · by_contra hdvd
    exact hg ((Nat.Prime.coprime_iff_not_dvd hp).mpr hdvd).symm

theorem invMod_getD {a p : ℕ} (hp : p.Prime) (h2 : 2 < p) :
    (invMod a p).getD 0 = a ^ (p - 2) % p := by
  cases h : invMod a p with
  | none =>
    have hdvd : p ∣ a ^ (p - 2) := dvd_pow (invMod_eq_none hp h) (by omega)
    exact (Nat.mod_eq_zero_of_dvd hdvd).symm
  | some x =>
    obtain ⟨hx, hlt⟩ := invMod_eq_some hp.one_lt h
    show x = a ^ (p - 2) % p
    have hco : Nat.Coprime a p := by
      by_contra hg
      unfold invMod at h
      rw [if_neg hg] at h
      cases h
    have hfermat : a ^ (p - 1) ≡ 1 [MOD p] := by
      have := Nat.ModEq.pow_totient hco
      rwa [Nat.totient_prime hp] at this
    have hax : a * x ≡ 1 [MOD p] := by
      show a * x % p = 1 % p
      rw [hx, Nat.mod_eq_of_lt hp.one_lt]
    -- both are inverses of `a`
    have hstep : a ^ (p - 2) * (a * x) = a ^ (p - 1) * x := by
      rw [← Nat.mul_assoc, ← Nat.pow_succ, show (p - 2).succ = p - 1 by omega]
    have hmod : a ^ (p - 2) ≡ x [MOD p] := by
      calc a ^ (p - 2) ≡ a ^ (p - 2) * (a * x) [MOD p] := by
            simpa using (Nat.ModEq.refl (a ^ (p - 2))).mul hax.symm
        _ ≡ x [MOD p] := by
            rw [hstep]
            simpa using hfermat.mul (Nat.ModEq.refl x)
    rw [show a ^ (p - 2) % p = x % p from hmod, Nat.mod_eq_of_lt hlt]

theorem two_lt_of_mem_PRIMES {p : ℕ} (h : p ∈ PRIMES) : 2 < p ∧ p < 256 ^ 32 := by
  revert p
  decide

theorem fermatInverse_eq_some {base exponent modulus r : Bytes}
    (hp : ofBeBytes modulus ∈ PRIMES → (ofBeBytes modulus).Prime)
    (h : fermatInverse base exponent modulus = some r) :
    r.length = modulus.length ∧ ofBeBytes modulus ≠ 0 ∧
      ofBeBytes r = ofBeBytes base ^ ofBeBytes exponent % ofBeBytes modulus := by
  unfold fermatInverse at h
  by_cases hlen : 32 < base.length ∨ 32 < exponent.length ∨ modulus.length ≠ 32
  · rw [if_pos hlen] at h
    cases h
  · rw [if_neg hlen] at h
    by_cases hform : ofBeBytes modulus ∉ PRIMES ∨ ofBeBytes exponent ≠ ofBeBytes modulus - 2
    · rw [if_pos hform] at h
      cases h
    · rw [if_neg hform] at h
      cases h
      rw [not_or, not_not, not_not] at hform
      obtain ⟨hmem, hexp⟩ := hform
      obtain ⟨h2, hlt⟩ := two_lt_of_mem_PRIMES hmem
      refine ⟨?_, by omega, ?_⟩
      · rw [length_beBytes]
        omega
      · rw [invMod_getD (hp hmem) h2, hexp, ofBeBytes_beBytes]
        exact Nat.mod_eq_of_lt ((Nat.mod_lt _ (by omega)).trans hlt)

theorem modexp_correct {modexpBig : Bytes → Bytes → Bytes → Bytes} (hbig : Correct modexpBig)
    {base exponent modulus : Bytes}
    (hp : ofBeBytes modulus ∈ PRIMES → (ofBeBytes modulus).Prime) :
    (modexp modexpBig base exponent modulus).length ≤ modulus.length ∧
      ofBeBytes (modexp modexpBig base exponent modulus) =
        if ofBeBytes modulus = 0 then 0
        else ofBeBytes base ^ ofBeBytes exponent % ofBeBytes modulus := by
  unfold modexp
  cases h : fermatInverse base exponent modulus with
  | none => exact hbig base exponent modulus
  | some r =>
    obtain ⟨hlen, hne, hval⟩ := fermatInverse_eq_some hp h
    rw [if_neg hne]
    exact ⟨Nat.le_of_eq hlen, hval⟩

/-! ## Prices -/

theorem size_sub_one (n : ℕ) : n.size - 1 = n.log2 := by
  by_cases hn : n = 0
  · rw [hn]
    rfl
  · have hle : n.size ≤ n.log2 + 1 := Nat.size_le.mpr Nat.lt_log2_self
    have hlt : n.log2 < n.size := Nat.lt_size.mpr (Nat.log2_self_le hn)
    omega

def iterations (multiplier expLen head : ℕ) : ℕ :=
  max (if expLen ≤ 32 then head.log2 else multiplier * (expLen - 32) + head.log2) 1

theorem calculateIterationCount_eq {multiplier expLen head : ℕ} (hm : 8 ≤ multiplier)
    (hhead : head < 2 ^ 256) :
    calculateIterationCount (min expLen maxU64) head multiplier =
      min (iterations multiplier expLen head) maxU64 := by
  have hsize := size_sub_one head
  have hlog : head.log2 < 256 := by
    by_cases h0 : head = 0
    · rw [h0]
      decide
    · exact (Nat.log2_lt h0).mpr hhead
  unfold calculateIterationCount iterations
  dsimp only
  by_cases he : expLen ≤ 32
  · have he' : min expLen maxU64 ≤ 32 := by omega
    rw [if_pos he]
    by_cases h0 : head = 0
    · rw [if_pos ⟨he', h0⟩, h0]
      rfl
    · rw [if_neg fun h => h0 h.2, if_pos he', hsize]
      unfold maxU64
      omega
  · have he' : ¬min expLen maxU64 ≤ 32 := by
      unfold maxU64
      omega
    rw [if_neg he, if_neg fun h => he' h.1, if_neg he']
    have hmax : max 1 head.size - 1 = head.log2 := by omega
    rw [hmax]
    unfold satAdd64 satMul64
    by_cases hlarge : expLen ≤ maxU64
    · rw [min_eq_left hlarge]
      unfold maxU64
      omega
    · -- the product saturates for a length that does
      have h1 : 8 * (maxU64 - 32) ≤ multiplier * (maxU64 - 32) := Nat.mul_le_mul_right _ hm
      have h2 : 8 * (expLen - 32) ≤ multiplier * (expLen - 32) := Nat.mul_le_mul_right _ hm
      rw [min_eq_right (by omega : maxU64 ≤ expLen)]
      generalize multiplier * (maxU64 - 32) = t at h1 ⊢
      generalize multiplier * (expLen - 32) = t' at h2 ⊢
      unfold maxU64 at hlarge h1 ⊢
      omega

/-- What the prices need of a complexity: it does not vanish, exceeds all gas for long operands, and
does not overflow for lengths of 64 bits. -/
structure Growth (complexity : ℕ → ℕ) : Prop where
  pos : ∀ x, 1 ≤ x → 1 ≤ complexity x
  big : ∀ x, 2 ^ 40 ≤ x → 20 * 2 ^ 64 ≤ complexity x
  fits : ∀ x ≤ maxU64, complexity x < 2 ^ 192

theorem growth_byzantium : Growth byzantiumMultiplicationComplexity where
  pos x hx := by
    have : 1 ≤ x * x := Nat.mul_pos hx hx
    unfold byzantiumMultiplicationComplexity
    split_ifs <;> omega
  big x hx := by
    have : 2 ^ 40 * 2 ^ 40 ≤ x * x := Nat.mul_le_mul hx hx
    unfold byzantiumMultiplicationComplexity
    rw [if_neg (by omega), if_neg (by omega)]
    omega
  fits x hx := by
    have : x * x ≤ maxU64 * maxU64 := Nat.mul_le_mul hx hx
    unfold maxU64 at hx this
    unfold byzantiumMultiplicationComplexity
    split_ifs <;> omega

theorem growth_berlin : Growth berlinMultiplicationComplexity where
  pos x hx := Nat.mul_pos (by omega) (by omega)
  big x hx := by
    have : 2 ^ 37 * 2 ^ 37 ≤ (x + 7) / 8 * ((x + 7) / 8) := Nat.mul_le_mul (by omega) (by omega)
    unfold berlinMultiplicationComplexity
    dsimp only
    omega
  fits x hx := by
    unfold maxU64 at hx
    have : (x + 7) / 8 * ((x + 7) / 8) ≤ 2 ^ 64 * 2 ^ 64 := Nat.mul_le_mul (by omega) (by omega)
    unfold berlinMultiplicationComplexity
    dsimp only
    omega

theorem growth_osaka : Growth osakaMultiplicationComplexity where
  pos x hx := by
    have := growth_berlin.pos x hx
    unfold osakaMultiplicationComplexity
    split_ifs <;> omega
  big x hx := by
    have := growth_berlin.big x hx
    unfold osakaMultiplicationComplexity
    rw [if_neg (by omega)]
    omega
  fits x hx := by
    unfold maxU64 at hx
    have : (x + 7) / 8 * ((x + 7) / 8) ≤ 2 ^ 64 * 2 ^ 64 := Nat.mul_le_mul (by omega) (by omega)
    unfold osakaMultiplicationComplexity berlinMultiplicationComplexity
    dsimp only
    split_ifs <;> omega

theorem le_of_iterations {multiplier expLen head : ℕ} (hm : 8 ≤ multiplier)
    (h : iterations multiplier expLen head ≤ maxU64) : expLen ≤ 2 ^ 62 := by
  unfold iterations at h
  by_cases he : expLen ≤ 32
  · omega
  · rw [if_neg he] at h
    have h8 : 8 * (expLen - 32) ≤ multiplier * (expLen - 32) := Nat.mul_le_mul_right _ hm
    unfold maxU64 at h
    omega

section Price

variable {params : GasCalcParams} {complexity : ℕ → ℕ} {R : ℕ}

theorem lt_div_of_large {n d : ℕ} (hd : 0 < d) (hd20 : d ≤ 20) (hR : R < maxU64 / 20)
    (hn : maxU64 ≤ n) : R < n / d := by
  have h1 : n / 20 ≤ n / d := Nat.div_le_div_left hd20 hd
  have h2 : maxU64 / 20 ≤ n / 20 := Nat.div_le_div_right hn
  omega

theorem saturated_price {c c' k k' x d : ℕ} (hd : 0 < d) (hd20 : d ≤ 20) (hR : R < maxU64 / 20)
    (hk : 1 ≤ k) (hk' : 1 ≤ k') (hlong : 2 ^ 40 ≤ x → 20 * 2 ^ 64 ≤ c ∧ 20 * 2 ^ 64 ≤ c')
    (hshort : x < 2 ^ 40 → c' = c ∧ k' = min k maxU64) (hpos : 1 ≤ x → 1 ≤ c) :
    (c * k / d ≤ R ∧ c' * k' / d = c * k / d ∧ (x = 0 ∨ x < 2 ^ 40 ∧ k ≤ maxU64)) ∨
      R < c * k / d ∧ R < c' * k' / d := by
  by_cases hx : 2 ^ 40 ≤ x
  · obtain ⟨hc, hc'⟩ := hlong hx
    have h1 : c ≤ c * k := Nat.le_mul_of_pos_right c hk
    have h2 : c' ≤ c' * k' := Nat.le_mul_of_pos_right c' hk'
    refine .inr ⟨lt_div_of_large hd hd20 hR ?_, lt_div_of_large hd hd20 hR ?_⟩ <;>
      unfold maxU64 <;> omega
  · obtain ⟨rfl, rfl⟩ := hshort (Nat.lt_of_not_le hx)
    by_cases hc : c' = 0
    · have hx0 : x = 0 := by
        by_contra hne
        have := hpos (by omega)
        omega
      rw [hc, Nat.zero_mul, Nat.zero_mul, Nat.zero_div]
      exact .inl ⟨Nat.zero_le R, rfl, .inl hx0⟩
    · by_cases hkl : k ≤ maxU64
      · rw [min_eq_left hkl]
        by_cases hle : c' * k / d ≤ R
        · exact .inl ⟨hle, rfl, .inr ⟨Nat.lt_of_not_le hx, hkl⟩⟩
        · exact .inr ⟨Nat.lt_of_not_le hle, Nat.lt_of_not_le hle⟩
      · have hkl' : maxU64 ≤ k := by omega
        rw [min_eq_right hkl']
        have h1 : k ≤ c' * k := Nat.le_mul_of_pos_left k (by omega)
        have h2 : maxU64 ≤ c' * maxU64 := Nat.le_mul_of_pos_left maxU64 (by omega)
        exact .inr ⟨lt_div_of_large hd hd20 hR (by omega), lt_div_of_large hd hd20 hR h2⟩

/-- **The saturated price is the price**, for any gas that a call may have. -/
theorem gasCalc_spec (hc : Growth complexity) (hd : 0 < params.divisor)
    (hd20 : params.divisor ≤ 20) (hm : 8 ≤ params.multiplier) (hR : R < maxU64 / 20)
    {baseLen expLen modLen head head' : ℕ} (hhead' : head' < 2 ^ 256)
    (hhead : baseLen ≤ maxU64 → head' = head) :
    let price := max params.minPrice (complexity (max baseLen modLen) *
      iterations params.multiplier expLen head / params.divisor)
    let cost := gasCalc params complexity (min baseLen maxU64) (min expLen maxU64)
      (min modLen maxU64) head'
    price ≤ R ∧ cost = price ∧ (max baseLen modLen = 0 ∨ baseLen + expLen + modLen ≤ maxU64) ∨
      R < price ∧ R < cost := by
  set x := max baseLen modLen with hx
  have hmax : max (min baseLen maxU64) (min modLen maxU64) = min x maxU64 := by omega
  set c' := complexity (min x maxU64) with hc'
  set k' := calculateIterationCount (min expLen maxU64) head' params.multiplier with hk'
  have hkeq : k' = min (iterations params.multiplier expLen head') maxU64 :=
    calculateIterationCount_eq hm hhead'
  have hk1 : 1 ≤ k' := le_max_right _ _
  -- the product of 256 bits does not overflow
  have hprod : c' * k' % 2 ^ 256 = c' * k' := by
    have h1 : c' < 2 ^ 192 := hc.fits _ (min_le_right _ _)
    have h2 : k' < 2 ^ 64 := by
      have : k' ≤ maxU64 := hkeq ▸ min_le_right _ _
      unfold maxU64 at this
      omega
    have h3 : c' * k' < 2 ^ 192 * 2 ^ 64 := Nat.mul_lt_mul'' h1 h2
    exact Nat.mod_eq_of_lt (by omega)
  have hcost : gasCalc params complexity (min baseLen maxU64) (min expLen maxU64)
      (min modLen maxU64) head' =
        max params.minPrice (min (c' * k' / params.divisor) maxU64) := by
    unfold gasCalc
    dsimp only
    rw [hmax, ← hc', ← hk', hprod]
  have hsat := @saturated_price R (complexity x) c' (iterations params.multiplier expLen head) k' x
    params.divisor hd hd20 hR (le_max_right _ _) hk1
    (fun hlong => ⟨hc.big x hlong, hc.big _ (by unfold maxU64; omega)⟩)
    (fun hshort => ⟨by rw [hc', min_eq_left (by unfold maxU64; omega)],
      by rw [hkeq, hhead (by unfold maxU64; omega)]⟩) (hc.pos x)
  dsimp only
  rw [hcost]
  rcases hsat with ⟨hle, heq, hsmall⟩ | ⟨hlt, hlt'⟩
  · rw [heq]
    by_cases hmin : params.minPrice ≤ R
    · refine .inl ⟨max_le hmin hle, ?_, ?_⟩
      · rw [min_eq_left (by unfold maxU64 at hR ⊢; omega)]
      · rcases hsmall with hzero | ⟨hx40, hk⟩
        · exact .inl hzero
        · have := le_of_iterations hm hk
          unfold maxU64
          omega
    · exact .inr ⟨lt_max_of_lt_left (Nat.lt_of_not_le hmin),
        lt_max_of_lt_left (Nat.lt_of_not_le hmin)⟩
  · refine .inr ⟨lt_max_of_lt_right hlt, lt_max_of_lt_right (lt_min hlt' ?_)⟩
    unfold maxU64 at hR ⊢
    omega

end Price

/-! ## The precompile -/

theorem ofBeBytes_lt (bytes : Bytes) : ofBeBytes bytes < 256 ^ bytes.length := by
  rw [← beBytes_ofBeBytes bytes, ofBeBytes_beBytes, length_beBytes]
  exact Nat.mod_lt _ (Nat.pow_pos (by decide))

theorem number_lt (input : Bytes) (offset len : ℕ) : Eip.number input offset len < 256 ^ len := by
  have := ofBeBytes_lt (paddedSlice input offset len)
  rwa [length_paddedSlice] at this

section Run

variable {modexpBig : Bytes → Bytes → Bytes → Bytes} {params : GasCalcParams} {osaka : Bool}
  {calcGas : ℕ → ℕ → ℕ → ℕ → ℕ} {input : Bytes} {gas : GasTracker}

def costOf (calcGas : ℕ → ℕ → ℕ → ℕ → ℕ) (input : Bytes) : ℕ :=
  calcGas (lengthAt input 0) (lengthAt input 32) (lengthAt input 64)
    (expHighp (input.drop 96) (lengthAt input 0) (lengthAt input 32))

theorem runInner_eq (hgas : gas.remaining < 2 ^ 64)
    (hmin : params.minPrice ≤ costOf calcGas input) :
    (gas.remaining < costOf calcGas input →
      (runInner modexpBig params osaka calcGas input gas).1 = .error .outOfGas) ∧
    (costOf calcGas input ≤ gas.remaining →
      runInner modexpBig params osaka calcGas input gas =
        (output modexpBig (input.drop 96) osaka (lengthAt input 0) (lengthAt input 32)
          (lengthAt input 64),
          { gas with remaining := gas.remaining - costOf calcGas input })) := by
  by_cases henough : params.minPrice ≤ gas.remaining
  · have hfirst : gas.spend params.minPrice =
        (true, { gas with remaining := gas.remaining - params.minPrice }) := by
      unfold GasTracker.spend
      rw [wrapSub64_eq henough hgas, decide_eq_true henough]
    have hrun : runInner modexpBig params osaka calcGas input gas =
        let paid := ({ gas with remaining := gas.remaining - params.minPrice } : GasTracker).spend
          (costOf calcGas input - params.minPrice)
        if !paid.1 then (.error .outOfGas, paid.2)
        else (output modexpBig (input.drop 96) osaka (lengthAt input 0) (lengthAt input 32)
          (lengthAt input 64), paid.2) := by
      unfold runInner
      rw [hfirst]
      rfl
    rw [hrun]
    unfold GasTracker.spend
    constructor
    · intro hlt
      rw [decide_eq_false (by show ¬_ ≤ gas.remaining - params.minPrice; omega)]
      rfl
    · intro hle
      rw [decide_eq_true (by show _ ≤ gas.remaining - params.minPrice; omega),
        wrapSub64_eq (by show _ ≤ gas.remaining - params.minPrice; omega)
          (by show gas.remaining - params.minPrice < _; omega)]
      have hrest : gas.remaining - params.minPrice - (costOf calcGas input - params.minPrice) =
          gas.remaining - costOf calcGas input := by omega
      refine Prod.ext rfl ?_
      dsimp only
      rw [hrest]
      rfl
  · have hfirst : (gas.spend params.minPrice).1 = false := decide_eq_false henough
    refine ⟨fun _ => ?_, fun hle => absurd (hmin.trans hle) henough⟩
    unfold runInner
    rw [show gas.spend params.minPrice = (false, (gas.spend params.minPrice).2) from
      Prod.ext hfirst rfl]
    rfl

theorem lengthAt_eq (input : Bytes) (offset : ℕ) :
    lengthAt input offset = min (Eip.number input offset 32) maxU64 := rfl

theorem any_limit_iff {baseLen expLen modLen : ℕ} :
    [baseLen, expLen, modLen].any (INPUT_SIZE_LIMIT < ·) = true ↔
      1024 < baseLen ∨ 1024 < expLen ∨ 1024 < modLen := by
  rw [List.any_cons, List.any_cons, List.any_cons, List.any_nil, Bool.or_false, Bool.or_eq_true,
    Bool.or_eq_true]
  exact or_congr decide_eq_true_iff (or_congr decide_eq_true_iff decide_eq_true_iff)

theorem output_eq {baseLen expLen modLen : ℕ} (hbig : Correct modexpBig)
    (hlimit : ¬(osaka = true ∧ (1024 < baseLen ∨ 1024 < expLen ∨ 1024 < modLen)))
    (hsum : max baseLen modLen = 0 ∨ baseLen + expLen + modLen ≤ maxU64)
    (hp : Eip.number input (96 + baseLen + expLen) modLen ∈ PRIMES →
      (Eip.number input (96 + baseLen + expLen) modLen).Prime) :
    output modexpBig (input.drop 96) osaka baseLen expLen modLen =
      .ok (beBytes modLen
        (if Eip.number input (96 + baseLen + expLen) modLen = 0 then 0
          else Eip.number input 96 baseLen ^ Eip.number input (96 + baseLen) expLen %
            Eip.number input (96 + baseLen + expLen) modLen)) := by
  unfold output
  rw [if_neg (by rwa [any_limit_iff])]
  by_cases hzero : baseLen = 0 ∧ modLen = 0
  · rw [if_pos hzero, hzero.2]
    rfl
  · rw [if_neg hzero]
    have hsum : baseLen + expLen + modLen ≤ maxU64 := by
      refine hsum.resolve_left fun h => hzero ?_
      omega
    have hadd : satAdd64 (satAdd64 baseLen expLen) modLen = baseLen + expLen + modLen := by
      unfold satAdd64
      omega
    dsimp only
    rw [hadd, rightPadVec_eq, paddedSlice_drop, drop_paddedSlice, drop_paddedSlice,
      take_paddedSlice _ _ (by omega), take_paddedSlice _ _ (by omega),
      show baseLen + expLen + modLen - baseLen - expLen = modLen by omega]
    obtain ⟨hlen, hval⟩ := @modexp_correct modexpBig hbig (paddedSlice input (96 + 0) baseLen)
      (paddedSlice input (96 + 0 + baseLen) expLen)
      (paddedSlice input (96 + 0 + baseLen + expLen) modLen) hp
    rw [length_paddedSlice] at hlen
    rw [leftPadVecBe_eq hlen, hval]
    rfl

theorem output_eq_error (hlimit : osaka = true ∧ Eip.TooLong input) :
    output modexpBig (input.drop 96) osaka (lengthAt input 0) (lengthAt input 32)
      (lengthAt input 64) = .error .modexpEip7823LimitSize := by
  unfold output
  rw [if_pos]
  refine ⟨hlimit.1, any_limit_iff.mpr ?_⟩
  have := hlimit.2
  unfold Eip.TooLong Eip.baseLen Eip.expLen Eip.modLen at this
  simp only [lengthAt_eq]
  unfold maxU64
  omega

theorem output_eq_ok (hbig : Correct modexpBig) (hlimit : ¬(osaka = true ∧ Eip.TooLong input))
    (hsum : max (Eip.baseLen input) (Eip.modLen input) = 0 ∨
      Eip.baseLen input + Eip.expLen input + Eip.modLen input ≤ maxU64)
    (hp : Eip.modulus input ∈ PRIMES → (Eip.modulus input).Prime) :
    output modexpBig (input.drop 96) osaka (lengthAt input 0) (lengthAt input 32)
      (lengthAt input 64) = .ok (beBytes (Eip.modLen input) (Eip.result input)) := by
  rcases hsum with hzero | hsum
  · -- the exponent may be of any length if there is neither a base nor a modulus
    have hb : Eip.baseLen input = 0 := by omega
    have hm : Eip.modLen input = 0 := by omega
    have hb' : lengthAt input 0 = 0 := by
      show min (Eip.baseLen input) maxU64 = 0
      omega
    have hm' : lengthAt input 64 = 0 := by
      show min (Eip.modLen input) maxU64 = 0
      omega
    have hlimit' : ¬(osaka = true ∧
        (1024 < lengthAt input 0 ∨ 1024 < lengthAt input 32 ∨ 1024 < lengthAt input 64)) := by
      rintro ⟨hosaka, h⟩
      refine hlimit ⟨hosaka, ?_⟩
      have : lengthAt input 32 ≤ Eip.expLen input := min_le_left _ _
      unfold Eip.TooLong
      omega
    unfold output
    rw [if_neg (by rwa [any_limit_iff]), if_pos ⟨hb', hm'⟩, hm]
    rfl
  · have hb : Eip.baseLen input ≤ maxU64 := by omega
    have he : Eip.expLen input ≤ maxU64 := by omega
    have hm : Eip.modLen input ≤ maxU64 := by omega
    rw [show lengthAt input 0 = Eip.baseLen input from min_eq_left hb,
      show lengthAt input 32 = Eip.expLen input from min_eq_left he,
      show lengthAt input 64 = Eip.modLen input from min_eq_left hm]
    exact output_eq hbig hlimit (.inr hsum) hp

/-- **A precompile whose complexity grows so meets its specification.** -/
theorem meets_runInner {complexity : ℕ → ℕ} (hbig : Correct modexpBig) (hc : Growth complexity)
    (hd : 0 < params.divisor) (hd20 : params.divisor ≤ 20) (hm : 8 ≤ params.multiplier)
    (hgas : gas.remaining < maxU64 / 20)
    (hp : Eip.modulus input ∈ PRIMES → (Eip.modulus input).Prime) :
    Meets (runInner modexpBig params osaka (gasCalc params complexity))
      (fun input => max params.minPrice (complexity (max (Eip.baseLen input) (Eip.modLen input)) *
        iterations params.multiplier (Eip.expLen input) (Eip.expHead input) / params.divisor))
      (osaka = true) input gas := by
  have hspec := @gasCalc_spec params complexity gas.remaining hc hd hd20 hm hgas
    (Eip.baseLen input) (Eip.expLen input) (Eip.modLen input) (Eip.expHead input)
    (expHighp (input.drop 96) (lengthAt input 0) (lengthAt input 32))
    (by
      rw [expHighp_eq]
      refine (number_lt _ _ _).trans_le ?_
      exact Nat.pow_le_pow_right (by decide) (min_le_right _ _))
    (by
      intro hle
      rw [expHighp_eq]
      unfold Eip.expHead
      rw [show lengthAt input 0 = Eip.baseLen input from min_eq_left hle,
        show lengthAt input 32 = min (Eip.expLen input) maxU64 from rfl, min_assoc,
        min_eq_right (show 32 ≤ maxU64 by unfold maxU64; omega)])
  dsimp only at hspec
  set price := max params.minPrice (complexity (max (Eip.baseLen input) (Eip.modLen input)) *
    iterations params.multiplier (Eip.expLen input) (Eip.expHead input) / params.divisor)
  have hcost : gasCalc params complexity (min (Eip.baseLen input) maxU64)
      (min (Eip.expLen input) maxU64) (min (Eip.modLen input) maxU64)
      (expHighp (input.drop 96) (lengthAt input 0) (lengthAt input 32)) =
        costOf (gasCalc params complexity) input := rfl
  rw [hcost] at hspec
  have h64 : gas.remaining < 2 ^ 64 := by
    unfold maxU64 at hgas
    omega
  have hmin : params.minPrice ≤ costOf (gasCalc params complexity) input := le_max_left _ _
  obtain ⟨hless, hmore⟩ := @runInner_eq modexpBig params osaka _ input gas h64 hmin
  rcases hspec with ⟨hle, heq, hsum⟩ | ⟨hlt, hlt'⟩
  · have hrun := hmore (by omega)
    have hreturns : ¬(osaka = true ∧ Eip.TooLong input) →
        output modexpBig (input.drop 96) osaka (lengthAt input 0) (lengthAt input 32)
          (lengthAt input 64) = .ok (beBytes (Eip.modLen input) (Eip.result input)) :=
      fun hlimit => output_eq_ok hbig hlimit hsum hp
    constructor
    · rw [hrun]
      refine ⟨fun herr => ?_, fun hlt => absurd hle (Nat.not_le_of_lt hlt)⟩
      by_cases hlimit : osaka = true ∧ Eip.TooLong input
      · rw [output_eq_error hlimit] at herr
        cases herr
      · rw [hreturns hlimit] at herr
        cases herr
    · intro _
      rw [hrun, heq]
    · intro _
      rw [hrun]
      refine ⟨fun herr => ?_, output_eq_error⟩
      by_contra hlimit
      rw [hreturns hlimit] at herr
      cases herr
    · intro _ hlimit
      rw [hrun]
      exact hreturns hlimit
  · have habs : ¬price ≤ gas.remaining := Nat.not_le_of_lt hlt
    exact ⟨⟨fun _ => hlt, fun _ => hless hlt'⟩, fun h => absurd h habs, fun h => absurd h habs,
      fun h => absurd h habs⟩

end Run

/-! ## The prices of the specifications -/

theorem gas198_eq (input : Bytes) :
    Eip.gas198 input = max BYZANTIUM_PARAMS.minPrice
      (byzantiumMultiplicationComplexity (max (Eip.baseLen input) (Eip.modLen input)) *
        iterations BYZANTIUM_PARAMS.multiplier (Eip.expLen input) (Eip.expHead input) /
          BYZANTIUM_PARAMS.divisor) := by
  have hc : ∀ x, Eip.multComplexity198 x = byzantiumMultiplicationComplexity x := by
    intro x
    unfold Eip.multComplexity198 byzantiumMultiplicationComplexity
    rw [Nat.pow_two]
  unfold Eip.gas198
  rw [hc, max_comm (Eip.modLen input)]
  exact (Nat.zero_max _).symm

theorem gas2565_eq (input : Bytes) :
    Eip.gas2565 input = max BERLIN_PARAMS.minPrice
      (berlinMultiplicationComplexity (max (Eip.baseLen input) (Eip.modLen input)) *
        iterations BERLIN_PARAMS.multiplier (Eip.expLen input) (Eip.expHead input) /
          BERLIN_PARAMS.divisor) := by
  have hc : ∀ x, Eip.multComplexity2565 x = berlinMultiplicationComplexity x :=
    fun x => Nat.pow_two _
  unfold Eip.gas2565
  rw [hc, max_comm (Eip.modLen input)]
  rfl

theorem gas7883_eq (input : Bytes) :
    Eip.gas7883 input = max OSAKA_PARAMS.minPrice
      (osakaMultiplicationComplexity (max (Eip.baseLen input) (Eip.modLen input)) *
        iterations OSAKA_PARAMS.multiplier (Eip.expLen input) (Eip.expHead input) /
          OSAKA_PARAMS.divisor) := by
  have hc : ∀ x, Eip.multComplexity7883 x = osakaMultiplicationComplexity x := by
    intro x
    unfold Eip.multComplexity7883 osakaMultiplicationComplexity berlinMultiplicationComplexity
    rw [Nat.pow_two, Nat.mul_comm 2]
  unfold Eip.gas7883
  rw [hc, max_comm (Eip.modLen input), show OSAKA_PARAMS.divisor = 1 from rfl, Nat.div_one]
  rfl

/-- **MODEXP charges and returns what the EIPs say**, for every input and every remaining gas below
`(2 ^ 64 - 1) / 20`. The exponentiation of the library is assumed to be right, and the modulus to be
a prime if it is one of the six that have the shortcut. -/
theorem modexp_meets_eips {modexpBig : Bytes → Bytes → Bytes → Bytes} (hbig : Correct modexpBig)
    (input : Bytes) (gas : GasTracker) (hgas : gas.remaining < (2 ^ 64 - 1) / 20)
    (hp : Eip.modulus input ∈ PRIMES → (Eip.modulus input).Prime) :
    Meets (runByzantium modexpBig) Eip.gas198 False input gas ∧
    Meets (runBerlin modexpBig) Eip.gas2565 False input gas ∧
    Meets (runOsaka modexpBig) Eip.gas7883 True input gas := by
  have hfalse : (false = true) = False := by decide
  have htrue : (true = true) = True := by decide
  refine ⟨?_, ?_, ?_⟩
  · rw [funext gas198_eq, ← hfalse]
    exact meets_runInner hbig growth_byzantium (by decide) (by decide) (by decide) hgas hp
  · rw [funext gas2565_eq, ← hfalse]
    exact meets_runInner hbig growth_berlin (by decide) (by decide) (by decide) hgas hp
  · rw [funext gas7883_eq, ← htrue]
    exact meets_runInner hbig growth_osaka (by decide) (by decide) (by decide) hgas hp

def powBytes (base exponent modulus : Bytes) : Bytes :=
  beBytes modulus.length
    (if ofBeBytes modulus = 0 then 0 else ofBeBytes base ^ ofBeBytes exponent % ofBeBytes modulus)

theorem correct_powBytes : Correct powBytes := by
  intro base exponent modulus
  refine ⟨Nat.le_of_eq (length_beBytes _ _), ?_⟩
  unfold powBytes
  rw [ofBeBytes_beBytes]
  refine Nat.mod_eq_of_lt ?_
  have hlt := ofBeBytes_lt modulus
  by_cases h0 : ofBeBytes modulus = 0
  · rw [if_pos h0]
    omega
  · rw [if_neg h0]
    exact (Nat.mod_lt _ (by omega)).trans hlt

def threeToTheFourth : Bytes :=
  List.replicate 31 0 ++ [1] ++ List.replicate 31 0 ++ [1] ++ List.replicate 31 0 ++ [1, 3, 4, 7]

theorem modexp_meets_eips_small :
    Eip.gas7883 threeToTheFourth = 500 ∧
      (runOsaka powBytes threeToTheFourth (.fromParts 600 600 0)).1 = .ok [4] := by
  have hprice : Eip.gas7883 threeToTheFourth = 500 := by decide +kernel
  have hlong : ¬Eip.TooLong threeToTheFourth := by
    unfold Eip.TooLong
    decide +kernel
  have hmem : Eip.modulus threeToTheFourth ∉ PRIMES := by decide +kernel
  have h := (modexp_meets_eips correct_powBytes threeToTheFourth (.fromParts 600 600 0)
    (by decide) fun h => absurd h hmem).2.2
  refine ⟨hprice, ?_⟩
  rw [h.returns (by rw [hprice]; decide) fun hl => hlong hl.2]
  decide +kernel

end Evm2.Modexp
