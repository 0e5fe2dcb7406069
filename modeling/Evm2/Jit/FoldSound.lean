import Evm2.Jit.ConstFold
import Evm2.Interpreter.StackIo
import Evm2.Interpreter.WordNat

/-!
# Soundness of constant and range folding

Whatever words its operands hold, the word an instruction pushes is among those of the folded
value.
-/

namespace Evm2.Jit

/-! ## Bounds -/

/-- The number lies between the bounds, if there are any, and they are inline immediates. -/
def Fits (r : Option (ℕ × ℕ)) (n : ℕ) : Prop :=
  ∀ lo hi, r = some (lo, hi) → lo ≤ n ∧ n ≤ hi ∧ hi < 2 ^ 31

theorem AbsValue.Has.fits {v : AbsValue} {w : Word} (h : v.Has w) : Fits v.bounds w.toNat :=
  fun _ _ hb => h.within hb

def Within (r : ℕ × ℕ) (w : Word) : Prop := r.1 ≤ w.toNat ∧ w.toNat ≤ r.2

instance (r : ℕ × ℕ) (w : Word) : Decidable (Within r w) := by
  unfold Within
  infer_instance

section

variable {ra rb rn r : Option (ℕ × ℕ)} {kb : Option Word} {x y lo hi : ℕ} {p : ℕ × ℕ}
  {a b n : Word}

/-! ### Lemmas about numbers -/

theorem addBounds_within (hx : Fits ra x) (hy : Fits rb y) (h : addBounds ra rb = some p) :
    p.1 ≤ x + y ∧ x + y ≤ p.2 := by
  obtain ⟨⟨aLo, aHi⟩, hra, h⟩ := Option.bind_eq_some_iff.mp h
  obtain ⟨⟨bLo, bHi⟩, hrb, h⟩ := Option.bind_eq_some_iff.mp h
  cases h
  have := hx _ _ hra
  have := hy _ _ hrb
  constructor <;> dsimp only <;> omega

theorem mulBounds_within (hx : Fits ra x) (hy : Fits rb y) (h : mulBounds ra rb = some p) :
    p.1 ≤ x * y ∧ x * y ≤ p.2 := by
  obtain ⟨⟨aLo, aHi⟩, hra, h⟩ := Option.bind_eq_some_iff.mp h
  obtain ⟨⟨bLo, bHi⟩, hrb, h⟩ := Option.bind_eq_some_iff.mp h
  cases h
  obtain ⟨hal, hah, -⟩ := hx _ _ hra
  obtain ⟨hbl, hbh, -⟩ := hy _ _ hrb
  exact ⟨Nat.mul_le_mul hal hbl, Nat.mul_le_mul hah hbh⟩

theorem divBounds_within {aLo aHi bLo bHi : ℕ} (hx : aLo ≤ x ∧ x ≤ aHi) (hy : bLo ≤ y ∧ y ≤ bHi)
    (h : (if 0 < bLo then some (aLo / bHi, aHi / bLo) else some (0, aHi)) = some p) :
    p.1 ≤ x / y ∧ x / y ≤ p.2 := by
  by_cases hb : 0 < bLo
  · rw [if_pos hb] at h
    cases h
    exact ⟨Nat.div_le_div hx.1 hy.2 (by omega), Nat.div_le_div hx.2 hy.1 (by omega)⟩
  · rw [if_neg hb] at h
    cases h
    exact ⟨Nat.zero_le _, (Nat.div_le_self x y).trans hx.2⟩

theorem remBounds_within {z : ℕ} (ha : ∀ r, ra = some r → z ≤ r.2)
    (hb : ∀ r, rb = some r → z ≤ r.2 - 1) (h : remBounds ra rb = some p) : p.1 ≤ z ∧ z ≤ p.2 := by
  obtain ⟨m, hm, rfl⟩ := Option.map_eq_some_iff.mp h
  refine ⟨Nat.zero_le _, ?_⟩
  cases ra with
  | some pa =>
    cases rb with
    | some pb =>
      cases hm
      exact le_min (ha pa rfl) (hb pb rfl)
    | none =>
      cases hm
      exact ha pa rfl
  | none =>
    cases rb with
    | some pb =>
      cases hm
      exact hb pb rfl
    | none => cases hm

theorem toNat_rem_le (a b : Word) : (a.rem b).toNat ≤ a.toNat ∧ (a.rem b).toNat ≤ b.toNat - 1 := by
  by_cases hb : b = 0
  · have h0 : (a.rem b).toNat = 0 := by
      unfold Word.rem
      rw [if_pos hb]
      rfl
    omega
  · rw [Word.toNat_rem a b hb]
    have := Nat.mod_lt a.toNat (Word.toNat_pos hb)
    exact ⟨Nat.mod_le _ _, by omega⟩

theorem toNat_rem_of_lt (h : a.toNat < b.toNat) : (a.rem b).toNat = a.toNat := by
  have hb : b ≠ 0 := by
    rintro rfl
    exact absurd h (Nat.not_lt_zero _)
  rw [Word.toNat_rem a b hb, Nat.mod_eq_of_lt h]

theorem modnBounds_within {z : ℕ} (hr : ∀ p, r = some p → p.1 ≤ z ∧ z ≤ p.2) (hn : Fits rn y)
    (h : modnBounds r rn = some p) :
    p.1 ≤ (if y = 0 then 0 else z % y) ∧ (if y = 0 then 0 else z % y) ≤ p.2 := by
  have hle : (if y = 0 then 0 else z % y) ≤ z ∧ (if y = 0 then 0 else z % y) ≤ y - 1 := by
    by_cases hy : y = 0
    · rw [if_pos hy]
      omega
    · rw [if_neg hy]
      have := Nat.mod_lt z (Nat.pos_of_ne_zero hy)
      exact ⟨Nat.mod_le _ _, by omega⟩
  have hrem : remBounds r rn = some p → p.1 ≤ (if y = 0 then 0 else z % y) ∧
      (if y = 0 then 0 else z % y) ≤ p.2 := by
    refine remBounds_within (fun q hq => ?_) fun q hq => ?_
    · exact hle.1.trans (hr q hq).2
    · exact hle.2.trans (Nat.sub_le_sub_right (hn _ _ hq).2.1 1)
  unfold modnBounds at h
  cases r with
  | none => exact hrem h
  | some pr =>
    cases rn with
    | none => exact hrem h
    | some pn =>
      dsimp only at h
      by_cases hlt : pr.2 < pn.1
      · rw [if_pos hlt] at h
        cases h
        have hz := hr _ rfl
        have hy := (hn _ _ rfl).1
        rw [if_neg (by omega), Nat.mod_eq_of_lt (by omega)]
        exact hz
      · rw [if_neg hlt] at h
        exact hrem h

theorem toNat_addMod_eq (a b n : Word) :
    (a.addMod b n).toNat = if n.toNat = 0 then 0 else (a.toNat + b.toNat) % n.toNat := by
  by_cases hn : n = 0
  · subst hn
    rfl
  · rw [Word.toNat_addMod a b n hn, if_neg (Word.toNat_pos hn).ne']

theorem toNat_mulMod_eq (a b n : Word) :
    (a.mulMod b n).toNat = if n.toNat = 0 then 0 else a.toNat * b.toNat % n.toNat := by
  by_cases hn : n = 0
  · subst hn
    rfl
  · rw [Word.toNat_mulMod a b n hn, if_neg (Word.toNat_pos hn).ne']

theorem checkedPow_eq {m k z : ℕ} (h : checkedPow m k = some z) : z = m ^ k ∧ z < 2 ^ 64 := by
  unfold checkedPow at h
  by_cases hlt : m ^ k < 2 ^ 64
  · rw [if_pos hlt] at h
    cases h
    exact ⟨rfl, hlt⟩
  · rw [if_neg hlt] at h
    cases h

theorem within_ofBool (c : Bool) : Within (0, 1) (.ofBool c) := by
  cases c <;> decide

theorem within_cmp {c lt ge : Bool} (hlt : lt = true → c = true) (hge : ge = true → c = false) :
    Within (cmpBounds lt ge) (.ofBool c) := by
  cases lt with
  | true =>
    rw [hlt rfl]
    change Within (1, 1) _
    decide
  | false =>
    cases ge with
    | true =>
      rw [hge rfl]
      decide
    | false => exact within_ofBool c

theorem within_iszero (ha : Fits ra a.toNat) : Within (iszeroBounds ra) (.ofBool (a == 0)) := by
  cases ra with
  | none => exact within_ofBool _
  | some pa =>
    obtain ⟨hal, hah, -⟩ := ha _ _ rfl
    refine within_cmp (fun h => ?_) fun h => ?_
    · have hz := of_decide_eq_true h
      rw [beq_iff_eq]
      exact BitVec.eq_of_toNat_eq (show a.toNat = 0 by omega)
    · have hpos := of_decide_eq_true h
      rw [beq_eq_false_iff_ne]
      rintro rfl
      exact absurd (hpos.trans_le hal) (Nat.lt_irrefl 0)

theorem ones_shiftRight {k : ℕ} (hk : k ≤ 64) : (2 ^ 64 - 1) >>> (64 - k) = 2 ^ k - 1 := by
  have hall : ∀ k : Fin 65, (2 ^ 64 - 1) >>> (64 - k.val) = 2 ^ k.val - 1 := by decide +kernel
  exact hall ⟨k, by omega⟩

theorem mask64_or {m k : ℕ} (hm : m < 2 ^ 31) (hk : k < 2 ^ 31) (hx : x ≤ m) (hy : y ≤ k) :
    x < mask64 (m ||| k) + 1 ∧ y < mask64 (m ||| k) + 1 ∧ ∃ e, mask64 (m ||| k) + 1 = 2 ^ e := by
  have hor : m ||| k < 2 ^ 31 := Nat.or_lt_two_pow hm hk
  have hsize : (m ||| k).size ≤ 31 := Nat.size_le.mpr hor
  have hmask : mask64 (m ||| k) + 1 = 2 ^ (m ||| k).size := by
    unfold mask64 leadingZeros64
    by_cases h0 : (m ||| k).size = 0
    · rw [if_neg (by omega), h0]
      rfl
    · rw [if_pos (by omega), ones_shiftRight (by omega)]
      exact Nat.sub_add_cancel (Nat.two_pow_pos _)
  rw [hmask]
  exact ⟨(hx.trans Nat.left_le_or).trans_lt (Nat.lt_size_self _),
    (hy.trans Nat.right_le_or).trans_lt (Nat.lt_size_self _), _, rfl⟩

theorem div_two_pow_le {m k : ℕ} (hxy : x ≤ y) (hmk : m ≤ k) : x / 2 ^ k ≤ y / 2 ^ m :=
  Nat.div_le_div hxy (Nat.pow_le_pow_right (by omega) hmk) (Nat.two_pow_pos _).ne'

theorem within_clz (ha : Fits ra a.toNat) : Within (clzBounds ra) a.leadingZeros := by
  unfold Within clzBounds
  rw [Word.toNat_leadingZeros]
  cases ra with
  | none => exact ⟨Nat.zero_le _, Nat.sub_le _ _⟩
  | some pa =>
    obtain ⟨hal, hah, ha31⟩ := ha _ _ rfl
    have h₁ := Nat.size_le_size hal
    have h₂ := Nat.size_le_size hah
    have h₃ := Nat.size_le.mpr ha31
    unfold leadingZeros64
    constructor <;> dsimp only <;> omega

theorem gtBounds_eq (ra rb : Option (ℕ × ℕ)) : gtBounds ra rb = ltBounds rb ra := by
  cases ra <;> cases rb <;> rfl

variable (ha : Fits ra a.toNat) (hb : Fits rb b.toNat)

include ha hb

/-! ### Arithmetic -/

theorem within_add (h : addBounds ra rb = some p) : Within p (a + b) := by
  have hsum := addBounds_within ha hb h
  obtain ⟨⟨aLo, aHi⟩, hra, h⟩ := Option.bind_eq_some_iff.mp h
  obtain ⟨⟨bLo, bHi⟩, hrb, h⟩ := Option.bind_eq_some_iff.mp h
  have := ha _ _ hra
  have := hb _ _ hrb
  unfold Within
  rw [BitVec.toNat_add, Nat.mod_eq_of_lt (by omega)]
  exact hsum

theorem within_mul (h : mulBounds ra rb = some p) : Within p (a * b) := by
  have hprod := mulBounds_within ha hb h
  obtain ⟨⟨aLo, aHi⟩, hra, h⟩ := Option.bind_eq_some_iff.mp h
  obtain ⟨⟨bLo, bHi⟩, hrb, h⟩ := Option.bind_eq_some_iff.mp h
  obtain ⟨-, hah, ha31⟩ := ha _ _ hra
  obtain ⟨-, hbh, hb31⟩ := hb _ _ hrb
  have hlt : a.toNat * b.toNat < 2 ^ 31 * 2 ^ 31 :=
    Nat.mul_lt_mul'' (hah.trans_lt ha31) (hbh.trans_lt hb31)
  unfold Within
  rw [BitVec.toNat_mul, Nat.mod_eq_of_lt (by omega)]
  exact hprod

theorem within_sub (h : subBounds ra rb = some p) : Within p (a - b) := by
  obtain ⟨⟨aLo, aHi⟩, hra, h⟩ := Option.bind_eq_some_iff.mp h
  obtain ⟨⟨bLo, bHi⟩, hrb, h⟩ := Option.bind_eq_some_iff.mp h
  have := ha _ _ hra
  have := hb _ _ hrb
  dsimp only at h
  by_cases hle : bHi ≤ aLo
  · rw [if_pos hle] at h
    cases h
    unfold Within
    rw [BitVec.toNat_sub_of_le (BitVec.le_def.mpr (by omega))]
    constructor <;> dsimp only <;> omega
  · rw [if_neg hle] at h
    cases h

theorem within_div
    (hk : ∀ c, kb = some c → b = c) (h : divBounds ra rb kb false = some p) :
    Within p (a.div b) := by
  unfold Within
  rw [Word.toNat_div]
  unfold divBounds at h
  cases ra with
  | some pa =>
    obtain ⟨-, hah, -⟩ := ha _ _ rfl
    cases rb with
    | some pb => exact divBounds_within ⟨(ha _ _ rfl).1, hah⟩ ⟨(hb _ _ rfl).1, (hb _ _ rfl).2.1⟩ h
    | none =>
      cases h
      exact ⟨Nat.zero_le _, (Nat.div_le_self _ _).trans hah⟩
  | none =>
    obtain ⟨c, hc, h⟩ := Option.bind_eq_some_iff.mp h
    rw [hk c hc]
    by_cases h0 : c = 0
    · rw [if_pos h0] at h
      cases h
      rw [h0]
      exact ⟨Nat.zero_le _, (Nat.div_zero _).le⟩
    · rw [if_neg h0] at h
      dsimp only at h
      by_cases hq : (2 ^ 256 - 1) / c.toNat < 2 ^ 64
      · rw [if_pos hq] at h
        cases h
        exact ⟨Nat.zero_le _, Nat.div_le_div_right (Nat.le_sub_one_of_lt a.isLt)⟩
      · rw [if_neg hq] at h
        cases h

theorem within_sdiv (h : divBounds ra rb kb true = some p) : Within p (a.i256Div b) := by
  unfold divBounds at h
  cases ra with
  | some pa =>
    cases rb with
    | some pb =>
      obtain ⟨hal, hah, ha31⟩ := ha _ _ rfl
      obtain ⟨hbl, hbh, hb31⟩ := hb _ _ rfl
      unfold Within
      rw [Word.i256Div_of_lt (by omega) (by omega), Word.toNat_div]
      exact divBounds_within ⟨hal, hah⟩ ⟨hbl, hbh⟩ h
    | none => cases h
  | none => cases h

theorem within_rem
    (hk : ∀ c, kb = some c → b = c ∧ (rb = none → 2 ^ 31 ≤ c.toNat))
    (h : modBounds ra rb kb false = some p) : Within p (a.rem b) := by
  have hle := toNat_rem_le a b
  have hrem : remBounds ra rb = some p → Within p (a.rem b) := by
    refine remBounds_within (fun r hr => ?_) fun r hr => ?_
    · exact hle.1.trans (ha _ _ hr).2.1
    · exact hle.2.trans (Nat.sub_le_sub_right (hb _ _ hr).2.1 1)
  unfold modBounds at h
  rw [if_neg (fun h => Bool.false_ne_true h.1)] at h
  cases ra with
  | none => exact hrem h
  | some pa =>
    obtain ⟨hal, hah, ha31⟩ := ha _ _ rfl
    cases rb with
    | some pb =>
      dsimp only at h
      by_cases hlt : pa.2 < pb.1
      · rw [if_pos hlt] at h
        cases h
        have hbl := (hb _ _ rfl).1
        unfold Within
        rw [toNat_rem_of_lt (by omega)]
        exact ⟨hal, hah⟩
      · rw [if_neg hlt] at h
        exact hrem h
    | none =>
      cases kb with
      | none => exact hrem h
      | some c =>
        cases h
        obtain ⟨rfl, hbig⟩ := hk c rfl
        have := hbig rfl
        unfold Within
        rw [toNat_rem_of_lt (by omega)]
        exact ⟨hal, hah⟩

theorem within_smod (h : modBounds ra rb kb true = some p) : Within p (a.i256Mod b) := by
  unfold modBounds at h
  cases ra with
  | none => cases h
  | some pa =>
    obtain ⟨hal, hah, ha31⟩ := ha _ _ rfl
    have hle : (a.i256Mod b).toNat ≤ pa.2 := (Word.toNat_i256Mod_le (by omega)).trans hah
    rw [if_neg (fun h => Bool.false_ne_true h.2)] at h
    cases rb with
    | some pb =>
      obtain ⟨hbl, hbh, hb31⟩ := hb _ _ rfl
      rw [Word.i256Mod_of_lt (by omega) (by omega)] at hle ⊢
      dsimp only at h
      by_cases hlt : pa.2 < pb.1
      · rw [if_pos hlt] at h
        cases h
        unfold Within
        rw [toNat_rem_of_lt (by omega)]
        exact ⟨hal, hah⟩
      · rw [if_neg hlt] at h
        refine remBounds_within (fun r hr => ?_) (fun r hr => ?_) h
        · cases hr
          exact hle
        · cases hr
          exact (toNat_rem_le a b).2.trans (Nat.sub_le_sub_right hbh 1)
    | none =>
      have hrem : remBounds (some pa) none = some p := by
        cases kb <;> exact h
      refine remBounds_within (fun r hr => ?_) (fun r hr => ?_) hrem
      · cases hr
        exact hle
      · cases hr

theorem within_addmod (hn : Fits rn n.toNat)
    (h : modnBounds (addBounds ra rb) rn = some p) : Within p (a.addMod b n) := by
  unfold Within
  rw [toNat_addMod_eq]
  exact modnBounds_within (fun _ hr => addBounds_within ha hb hr) hn h

theorem within_mulmod (hn : Fits rn n.toNat)
    (h : modnBounds (mulBounds ra rb) rn = some p) : Within p (a.mulMod b n) := by
  unfold Within
  rw [toNat_mulMod_eq]
  exact modnBounds_within (fun _ hr => mulBounds_within ha hb hr) hn h

/-! ### Powers and sign extension -/

theorem within_exp (h : expBounds ra rb = some p) : Within p (a.wrappingPow b) := by
  obtain ⟨⟨aLo, aHi⟩, hra, h⟩ := Option.bind_eq_some_iff.mp h
  obtain ⟨⟨bLo, bHi⟩, hrb, h⟩ := Option.bind_eq_some_iff.mp h
  obtain ⟨lo, hlo, h⟩ := Option.bind_eq_some_iff.mp h
  obtain ⟨hi, hhi, h⟩ := Option.bind_eq_some_iff.mp h
  cases h
  unfold powBound at hlo hhi
  obtain ⟨hal, hah, -⟩ := ha _ _ hra
  obtain ⟨hbl, hbh, -⟩ := hb _ _ hrb
  have hlower : lo ≤ a.toNat ^ b.toNat := by
    by_cases h0 : 0 < aLo
    · rw [if_pos h0] at hlo
      rw [(checkedPow_eq hlo).1]
      exact (Nat.pow_le_pow_left hal _).trans (Nat.pow_le_pow_right (by omega) hbl)
    · rw [if_neg h0] at hlo
      cases hlo
      by_cases hz : bHi = 0
      · rw [if_pos hz, show b.toNat = 0 by omega, pow_zero]
      · rw [if_neg hz]
        exact Nat.zero_le _
  have hupper : a.toNat ^ b.toNat ≤ hi ∧ hi < 2 ^ 64 := by
    by_cases h0 : 0 < aHi
    · rw [if_pos h0] at hhi
      obtain ⟨rfl, hlt⟩ := checkedPow_eq hhi
      exact ⟨(Nat.pow_le_pow_left hah _).trans (Nat.pow_le_pow_right h0 hbh), hlt⟩
    · rw [if_neg h0] at hhi
      cases hhi
      rw [show a.toNat = 0 by omega]
      by_cases hz : bLo = 0
      · rw [if_pos hz]
        exact ⟨(Nat.pow_le_pow_left (Nat.zero_le 1) _).trans_eq (one_pow _), by decide⟩
      · rw [if_neg hz, Nat.zero_pow (by omega)]
        exact ⟨le_rfl, by decide⟩
  unfold Within
  rw [Word.toNat_wrappingPow, Nat.mod_eq_of_lt (by omega)]
  exact ⟨hlower, hupper.1⟩

theorem within_signextend (h : signextendBounds ra rb = some p) : Within p (a.signextend b) := by
  obtain ⟨⟨bLo, bHi⟩, hrb, h⟩ := Option.bind_eq_some_iff.mp h
  obtain ⟨hbl, hbh, -⟩ := hb _ _ hrb
  have hal : (ra.map Prod.fst).getD 0 ≤ a.toNat := by
    cases ra with
    | none => exact Nat.zero_le _
    | some pa => exact (ha _ _ rfl).1
  generalize (ra.map Prod.fst).getD 0 = aLo at h hal
  dsimp only at h
  by_cases hc : aLo < 31 ∧ bHi >>> (8 * min aLo 7 + 7) ≠ 0
  · rw [if_pos hc] at h
    cases h
  · rw [if_neg hc] at h
    cases h
    have hsame : a.signextend b = b := by
      refine Word.signextend_of_lt b fun ha31 => ?_
      -- the sign bit lies above the bound
      have hshift : bHi >>> (8 * min aLo 7 + 7) = 0 := by
        by_contra hne
        exact hc ⟨by omega, hne⟩
      rw [Nat.shiftRight_eq_div_pow, Nat.div_eq_zero_iff_lt (Nat.two_pow_pos _)] at hshift
      exact (hbh.trans_lt hshift).trans_le (Nat.pow_le_pow_right (by omega) (by omega))
    rw [hsame]
    exact ⟨hbl, hbh⟩

/-! ### Comparisons -/

theorem within_lt {c : Bool}
    (hc : ra.isSome → rb.isSome → c = decide (a < b)) :
    Within (ltBounds ra rb) (.ofBool c) := by
  cases ra with
  | none => exact within_ofBool c
  | some pa =>
    cases rb with
    | none => exact within_ofBool c
    | some pb =>
      obtain ⟨hal, hah, -⟩ := ha _ _ rfl
      obtain ⟨hbl, hbh, -⟩ := hb _ _ rfl
      rw [hc rfl rfl]
      refine within_cmp (fun h => ?_) fun h => ?_
      · have := of_decide_eq_true h
        exact decide_eq_true (BitVec.lt_def.mpr (by omega))
      · have := of_decide_eq_true h
        exact decide_eq_false fun hlt => by
          rw [BitVec.lt_def] at hlt
          omega

theorem within_gt {c : Bool} (hc : ra.isSome → rb.isSome → c = decide (b < a)) :
    Within (gtBounds ra rb) (.ofBool c) := by
  rw [gtBounds_eq]
  exact within_lt hb ha fun hrb hra => hc hra hrb

theorem within_eq :
    Within (eqBounds ra rb) (.ofBool (a == b)) := by
  cases ra with
  | none => exact within_ofBool _
  | some pa =>
    cases rb with
    | none => exact within_ofBool _
    | some pb =>
      obtain ⟨hal, hah, -⟩ := ha _ _ rfl
      obtain ⟨hbl, hbh, -⟩ := hb _ _ rfl
      refine within_cmp nofun fun h => ?_
      have hne := of_decide_eq_true h
      rw [beq_eq_false_iff_ne]
      rintro rfl
      omega

theorem i256Lt_of_fits (hra : ra.isSome)
    (hrb : rb.isSome) : a.i256Lt b = decide (a < b) := by
  obtain ⟨pa, rfl⟩ := Option.isSome_iff_exists.mp hra
  obtain ⟨pb, rfl⟩ := Option.isSome_iff_exists.mp hrb
  have := ha _ _ rfl
  have := hb _ _ rfl
  exact Word.i256Lt_of_lt (by omega) (by omega)

/-! ### Bits -/

theorem within_and (h : andBounds ra rb = some p) : Within p (a &&& b) := by
  obtain ⟨m, hm, rfl⟩ := Option.map_eq_some_iff.mp h
  have hal : (a &&& b).toNat ≤ a.toNat := by
    rw [BitVec.toNat_and]
    exact Nat.and_le_left
  have hbl : (a &&& b).toNat ≤ b.toNat := by
    rw [BitVec.toNat_and]
    exact Nat.and_le_right
  refine ⟨Nat.zero_le _, ?_⟩
  cases ra with
  | some pa =>
    cases rb with
    | some pb =>
      cases hm
      exact le_min (hal.trans (ha _ _ rfl).2.1) (hbl.trans (hb _ _ rfl).2.1)
    | none =>
      cases hm
      exact hal.trans (ha pa.1 pa.2 rfl).2.1
  | none =>
    cases rb with
    | some pb =>
      cases hm
      exact hbl.trans (hb pb.1 pb.2 rfl).2.1
    | none => cases hm

theorem within_or (h : orBounds ra rb = some p) : Within p (a ||| b) := by
  obtain ⟨⟨aLo, aHi⟩, hra, h⟩ := Option.bind_eq_some_iff.mp h
  obtain ⟨⟨bLo, bHi⟩, hrb, h⟩ := Option.bind_eq_some_iff.mp h
  cases h
  obtain ⟨hal, hah, ha31⟩ := ha _ _ hra
  obtain ⟨hbl, hbh, hb31⟩ := hb _ _ hrb
  obtain ⟨hxa, hxb, e, he⟩ := mask64_or ha31 hb31 hah hbh
  unfold Within
  rw [BitVec.toNat_or]
  refine ⟨max_le (hal.trans Nat.left_le_or) (hbl.trans Nat.right_le_or), ?_⟩
  rw [he] at hxa hxb
  have := Nat.or_lt_two_pow hxa hxb
  dsimp only
  omega

theorem within_xor (h : xorBounds ra rb = some p) : Within p (a ^^^ b) := by
  obtain ⟨⟨aLo, aHi⟩, hra, h⟩ := Option.bind_eq_some_iff.mp h
  obtain ⟨⟨bLo, bHi⟩, hrb, h⟩ := Option.bind_eq_some_iff.mp h
  cases h
  obtain ⟨-, hah, ha31⟩ := ha _ _ hra
  obtain ⟨-, hbh, hb31⟩ := hb _ _ hrb
  obtain ⟨hxa, hxb, e, he⟩ := mask64_or ha31 hb31 hah hbh
  unfold Within
  rw [BitVec.toNat_xor]
  refine ⟨Nat.zero_le _, ?_⟩
  rw [he] at hxa hxb
  have := Nat.xor_lt_two_pow hxa hxb
  dsimp only
  omega

/-! ### Bytes, shifts and leading zeros -/

theorem within_byte
    (hk : ∀ c, kb = some c → b = c) : Within (byteBounds ra rb kb) (a.byte b) := by
  have hidx : ∃ iLo iHi, indexBounds ra = (iLo, iHi) ∧ iLo ≤ min a.toNat 32 ∧
      min a.toNat 32 ≤ iHi := by
    cases ra with
    | none => exact ⟨0, 32, rfl, Nat.zero_le _, min_le_right _ _⟩
    | some pa =>
      have := ha _ _ rfl
      exact ⟨_, _, rfl, by omega, by omega⟩
  obtain ⟨iLo, iHi, hmatch, hlo, hhi⟩ := hidx
  unfold byteBounds
  rw [hmatch]
  cases kb with
  | some c =>
    rw [hk c rfl]
    have hmem : (a.byte c).toNat ∈ bytesAt c iLo iHi := by
      unfold bytesAt
      rw [Word.toNat_byte, List.mem_map]
      refine ⟨min a.toNat 32, ?_, ?_⟩
      · rw [List.mem_range'_1]
        omega
      · -- all indices past 31 select 0
        by_cases h : a.toNat ≤ 32
        · rw [min_eq_left h]
        · rw [min_eq_right (by omega), List.getD_eq_getElem?_getD, List.getD_eq_getElem?_getD,
            List.getElem?_eq_none (by rw [length_beBytes]),
            List.getElem?_eq_none (by rw [length_beBytes]; omega)]
    exact ⟨List.min?_getD_le_of_mem hmem, List.le_max?_getD_of_mem hmem⟩
  | none =>
    refine ⟨Nat.zero_le _, ?_⟩
    have h255 : (a.byte b).toNat ≤ 255 := by
      rw [Word.toNat_byte]
      exact Nat.le_of_lt_succ (BitVec.isLt _)
    cases rb with
    | none => exact h255
    | some pb => exact le_min ((Word.toNat_byte_le b a).trans (hb pb.1 pb.2 rfl).2.1) h255

theorem within_shl (h : shlBounds ra rb = some p) : Within p (a.shl b) := by
  obtain ⟨⟨sLo, sHi⟩, hra, h⟩ := Option.bind_eq_some_iff.mp h
  obtain ⟨hsl, hsh, -⟩ := ha _ _ hra
  dsimp only at h
  by_cases h256 : 256 ≤ sLo
  · rw [if_pos h256] at h
    cases h
    unfold Within Word.shl
    rw [if_neg (mt (Word.toUsizeSaturated_lt (by decide)).mp (by omega))]
    exact ⟨le_rfl, le_rfl⟩
  · rw [if_neg h256] at h
    obtain ⟨⟨bLo, bHi⟩, hrb, h⟩ := Option.bind_eq_some_iff.mp h
    obtain ⟨hbl, hbh, hb31⟩ := hb _ _ hrb
    dsimp only at h
    by_cases h32 : sHi < 32
    · rw [if_pos h32] at h
      cases h
      have hlow : bLo * 2 ^ sLo ≤ b.toNat * 2 ^ a.toNat :=
        Nat.mul_le_mul hbl (Nat.pow_le_pow_right (by omega) hsl)
      have hhigh : b.toNat * 2 ^ a.toNat ≤ bHi * 2 ^ sHi :=
        Nat.mul_le_mul hbh (Nat.pow_le_pow_right (by omega) hsh)
      have hlt : bHi * 2 ^ sHi < 2 ^ 31 * 2 ^ 32 :=
        Nat.mul_lt_mul'' hb31 (Nat.pow_lt_pow_right (by omega) h32)
      unfold Within
      rw [Word.toNat_shl, Nat.mod_eq_of_lt (by omega), Nat.shiftLeft_eq, Nat.shiftLeft_eq]
      exact ⟨hlow, hhigh⟩
    · rw [if_neg h32] at h
      cases h

theorem within_shr
    (hk : ∀ c, kb = some c → b = c) (h : shrBounds ra rb kb false = some p) :
    Within p (a.shr b) := by
  have hshift : ∃ sLo sHi, ra.getD (0, 256) = (sLo, sHi) ∧ sLo ≤ a.toNat ∧
      (a.toNat ≤ sHi ∨ sHi = 256) := by
    cases ra with
    | none => exact ⟨0, 256, rfl, Nat.zero_le _, .inr rfl⟩
    | some pa => exact ⟨_, _, rfl, (ha _ _ rfl).1, .inl (ha _ _ rfl).2.1⟩
  obtain ⟨sLo, sHi, hs, hsl, hsh⟩ := hshift
  unfold shrBounds at h
  rw [hs] at h
  unfold Within
  rw [Word.toNat_shr]
  cases rb with
  | some pb =>
    obtain ⟨hbl, hbh, hb31⟩ := hb _ _ rfl
    cases h
    unfold shr64
    constructor <;> dsimp only
    · by_cases h64 : sHi < 64
      · rw [if_pos h64, Nat.shiftRight_eq_div_pow]
        exact div_two_pow_le hbl (by omega)
      · rw [if_neg h64]
        exact Nat.zero_le _
    · by_cases h64 : sLo < 64
      · rw [if_pos h64, Nat.shiftRight_eq_div_pow]
        exact div_two_pow_le hbh hsl
      · have hpow : 2 ^ 64 ≤ 2 ^ a.toNat := Nat.pow_le_pow_right (by omega) (by omega)
        rw [if_neg h64, Nat.div_eq_of_lt (by omega)]
  | none =>
    cases kb with
    | some c =>
      rw [hk c rfl]
      dsimp only at h
      rw [if_neg (fun h => Bool.false_ne_true h.1)] at h
      by_cases hfit : shiftConst c sHi < 2 ^ 64 ∧ shiftConst c sLo < 2 ^ 64
      · rw [if_pos hfit] at h
        cases h
        unfold shiftConst
        constructor <;> dsimp only
        · by_cases h256 : sHi < 256
          · rw [if_pos h256, Nat.shiftRight_eq_div_pow]
            exact div_two_pow_le le_rfl (by omega)
          · rw [if_neg h256]
            exact Nat.zero_le _
        · by_cases h256 : sLo < 256
          · rw [if_pos h256, Nat.shiftRight_eq_div_pow]
            exact div_two_pow_le le_rfl hsl
          · have hpow : 2 ^ 256 ≤ 2 ^ a.toNat := Nat.pow_le_pow_right (by omega) (by omega)
            rw [if_neg h256, Nat.div_eq_of_lt (c.isLt.trans_le hpow)]
      · rw [if_neg hfit] at h
        cases h
    | none =>
      dsimp only at h
      by_cases h225 : ¬(false = true) ∧ 225 ≤ sLo
      · rw [if_pos h225] at h
        cases h
        refine ⟨Nat.zero_le _, ?_⟩
        by_cases h256 : sLo < 256
        · rw [if_pos h256, show sLo - 192 = 64 - (256 - sLo) by omega, ones_shiftRight (by omega)]
          have hpow : 2 ^ 256 = 2 ^ sLo * 2 ^ (256 - sLo) := by
            rw [← pow_add]
            exact congrArg _ (by omega)
          have hlt : b.toNat / 2 ^ a.toNat < 2 ^ (256 - sLo) := by
            refine (div_two_pow_le le_rfl hsl).trans_lt ?_
            rw [Nat.div_lt_iff_lt_mul (Nat.two_pow_pos _), Nat.mul_comm, ← hpow]
            exact b.isLt
          omega
        · have hpow : 2 ^ 256 ≤ 2 ^ a.toNat := Nat.pow_le_pow_right (by omega) (by omega)
          rw [if_neg h256, Nat.div_eq_of_lt (b.isLt.trans_le hpow)]
      · rw [if_neg h225] at h
        cases h

theorem within_sar
    (hk : ∀ c, kb = some c → b = c) (h : shrBounds ra rb kb true = some p) :
    Within p (a.sar b) := by
  have hpos : b.toNat < 2 ^ 255 ∧ shrBounds ra rb kb false = some p := by
    unfold shrBounds at h ⊢
    cases rb with
    | some pb =>
      have := hb _ _ rfl
      exact ⟨by omega, h⟩
    | none =>
      cases kb with
      | some c =>
        dsimp only at h ⊢
        by_cases hc : c.msb = true
        · rw [if_pos ⟨rfl, hc⟩] at h
          cases h
        · rw [if_neg (fun h => hc h.2)] at h
          rw [if_neg (fun h => Bool.false_ne_true h.1)]
          rw [hk c rfl]
          refine ⟨?_, h⟩
          rw [Bool.not_eq_true, BitVec.msb_eq_false_iff_two_mul_lt] at hc
          omega
      | none =>
        dsimp only at h
        rw [if_neg (fun h => h.1 rfl)] at h
        cases h
  rw [Word.sar_of_lt hpos.1]
  exact within_shr ha hb hk hpos.2

end

/-! ## The words instructions push -/

/-- The word an instruction pushes for the words it pops, the top one first, if it is the
instruction at `pc` in code of length `codeLen`. -/
def result (codeLen pc : ℕ) : OpCode → List Word → Option Word
  | .codesize, [] => some (BitVec.ofNat 256 codeLen)
  | .pc, [] => some (BitVec.ofNat 256 pc)
  | .iszero, [a] => some (.ofBool (a == 0))
  | .not, [a] => some (~~~a)
  | .clz, [a] => some a.leadingZeros
  | .add, [a, b] => some (a + b)
  | .mul, [a, b] => some (a * b)
  | .sub, [a, b] => some (a - b)
  | .div, [a, b] => some (a.div b)
  | .sdiv, [a, b] => some (a.i256Div b)
  | .mod, [a, b] => some (a.rem b)
  | .smod, [a, b] => some (a.i256Mod b)
  | .exp, [a, b] => some (a.wrappingPow b)
  | .signextend, [a, b] => some (a.signextend b)
  | .lt, [a, b] => some (.ofBool (a < b))
  | .gt, [a, b] => some (.ofBool (b < a))
  | .slt, [a, b] => some (.ofBool (a.i256Lt b))
  | .sgt, [a, b] => some (.ofBool (b.i256Lt a))
  | .eq, [a, b] => some (.ofBool (a == b))
  | .and, [a, b] => some (a &&& b)
  | .or, [a, b] => some (a ||| b)
  | .xor, [a, b] => some (a ^^^ b)
  | .byte, [a, b] => some (a.byte b)
  | .shl, [a, b] => some (a.shl b)
  | .shr, [a, b] => some (a.shr b)
  | .sar, [a, b] => some (a.sar b)
  | .addmod, [a, b, n] => some (a.addMod b n)
  | .mulmod, [a, b, n] => some (a.mulMod b n)
  | _, _ => none

section Execute

open Instr (checkBounds popUnchecked write nullary unary binary ternary)

variable {f : Interpreter} {rest : List Word} {w : Word}

/-- The instruction computes `w` and leaves the stack as it is, unless it stops the frame. -/
def Computes (x : SimpleInstr Word) (f : Interpreter) (w : Word) : Prop :=
  (x.run f).Spec (fun _ => True) (fun _ _ => True) fun r =>
    r.2.stack = f.stack ∧ ∀ w', r.1 = .ok w' → w' = w

/-- The instruction replaces its inputs by `w`, unless it stops the frame. -/
def Pushes (x : SimpleInstr Unit) (f : Interpreter) (rest : List Word) (w : Word) : Prop :=
  (x.run f).Spec (fun _ => True) (fun _ _ => True) fun r =>
    r.1 = .ok () → r.2.stack = w :: rest

theorem Computes.ret (f : Interpreter) (w : Word) : Computes (pure w) f w := by
  refine ⟨rfl, ?_⟩
  rintro _ ⟨⟩
  rfl

theorem Computes.write {x : SimpleInstr Word} (hx : Computes x f w) :
    Pushes (x >>= write) f f.stack w := by
  refine Prog.Spec.bind hx fun r hr => ?_
  obtain ⟨r, f'⟩ := r
  cases r with
  | ok w' =>
    intro _
    change w' :: f'.stack = _
    rw [hr.1, hr.2 w' rfl]
  | error reason => exact nofun

theorem Pushes.check {x : SimpleInstr Unit} {input output : ℕ} (hx : Pushes x f rest w) :
    Pushes (checkBounds input output >>= fun _ => x) f rest w := by
  have hcheck : ((checkBounds input output : SimpleInstr Unit).run f).Spec (fun _ => True)
      (fun _ _ => True) fun r => r.2 = f := by
    change ((if f.stack.length < input then Instr.stop .stackUnderflow
      else if input < output ∧ f.stack.length - input = STACK_LIMIT then
        Instr.stop .stackOverflow else pure () : SimpleInstr Unit).run f).Spec _ _ _
    split_ifs <;> exact rfl
  refine Prog.Spec.bind hcheck fun r hr => ?_
  obtain ⟨r, f'⟩ := r
  cases hr
  cases r with
  | ok _ => exact hx
  | error reason => exact nofun

theorem Pushes.popped {g : Word → SimpleInstr Unit} {a : Word} {s : List Word}
    (hf : f.stack = a :: s) (hg : ∀ f' : Interpreter, f'.stack = s → Pushes (g a) f' rest w) :
    Pushes (popUnchecked >>= g) f rest w := by
  have h := hg { f with stack := f.stack.tail } (by rw [hf]; rfl)
  unfold Pushes at h ⊢
  change ((g (f.stack.headD 0)).run { f with stack := f.stack.tail }).Spec _ _ _
  rw [show f.stack.headD 0 = a by rw [hf]; rfl]
  exact h

theorem pushes_nullary {x : SimpleInstr Word} (hx : Computes x f w) :
    Pushes (nullary x) f f.stack w := hx.write.check

theorem pushes_unary {g : Word → SimpleInstr Word} {a : Word} (hf : f.stack = a :: rest)
    (hg : ∀ f', Computes (g a) f' w) : Pushes (unary g) f rest w := by
  refine .check (.popped hf fun f' hf' => ?_)
  rw [← hf']
  exact (hg f').write

theorem pushes_binary {g : Word → Word → SimpleInstr Word} {a b : Word}
    (hf : f.stack = a :: b :: rest) (hg : ∀ f', Computes (g a b) f' w) :
    Pushes (binary g) f rest w := by
  refine .check (.popped hf fun f₁ hf₁ => .popped hf₁ fun f₂ hf₂ => ?_)
  rw [← hf₂]
  exact (hg f₂).write

theorem pushes_ternary {g : Word → Word → Word → SimpleInstr Word} {a b c : Word}
    (hf : f.stack = a :: b :: c :: rest) (hg : ∀ f', Computes (g a b c) f' w) :
    Pushes (ternary g) f rest w := by
  refine .check (.popped hf fun f₁ hf₁ => .popped hf₁ fun f₂ hf₂ => .popped hf₂ fun f₃ hf₃ => ?_)
  rw [← hf₃]
  exact (hg f₃).write

theorem computes_exp (env : FrameEnv) (a b : Word) (f : Interpreter) :
    Computes (do
      SimpleInstr.spend (env.gasParams.expCost b)
      return a.wrappingPow b) f (a.wrappingPow b) := by
  refine ⟨trivial, fun paid _ => ?_⟩
  cases paid with
  | true =>
    refine ⟨rfl, ?_⟩
    rintro _ ⟨⟩
    rfl
  | false => exact ⟨rfl, nofun⟩

theorem pushes_result [Keccak] {env : FrameEnv} {op : OpCode} {ws : List Word}
    (hw : result env.message.code.len f.pc op ws = some w) (hf : f.stack = ws ++ rest) :
    Pushes (SimpleInstr.execute env op) f rest w := by
  unfold result at hw
  -- by the opcode, with as many words as it pops
  split at hw <;> cases hw <;> first
    | exact pushes_unary hf fun _ => .ret _ _
    | exact pushes_binary hf fun _ => .ret _ _
    | exact pushes_ternary hf fun _ => .ret _ _
    | exact pushes_binary hf (computes_exp env _ _)
    | (rw [show rest = f.stack from hf.symm]
       exact pushes_nullary (Computes.ret f _))

end Execute

/-! ## Folding -/

section Fold

variable {op : OpCode} {inputs : List AbsValue} {ws : List Word} {p : ℕ × ℕ} {v : AbsValue}

theorem foldBounds_sound (codeLen pc : ℕ) (h : foldBounds op inputs = some p)
    (hw : List.Forall₂ AbsValue.Has inputs ws) :
    ∃ w, result codeLen pc op ws = some w ∧ Within p w := by
  cases hw with
  | nil => cases h
  | @cons va a _ _ ha hw =>
    cases hw with
    | nil =>
      cases op with
      | iszero =>
        cases h
        exact ⟨_, rfl, within_iszero ha.fits⟩
      | clz =>
        cases h
        exact ⟨_, rfl, within_clz ha.fits⟩
      | _ => cases h
    | @cons vb b _ _ hb hw =>
      cases hw with
      | nil =>
        have hk : ∀ c, vb.asConst = some c → b = c := fun c => hb.eq_of_asConst
        have hkb : ∀ c, vb.asConst = some c → b = c ∧ (vb.bounds = none → 2 ^ 31 ≤ c.toNat) :=
          fun c hc => ⟨hk c hc, AbsValue.le_of_bounds_none hc⟩
        cases op with
        | add => exact ⟨_, rfl, within_add ha.fits hb.fits h⟩
        | mul => exact ⟨_, rfl, within_mul ha.fits hb.fits h⟩
        | sub => exact ⟨_, rfl, within_sub ha.fits hb.fits h⟩
        | div => exact ⟨_, rfl, within_div ha.fits hb.fits hk h⟩
        | sdiv => exact ⟨_, rfl, within_sdiv ha.fits hb.fits h⟩
        | mod => exact ⟨_, rfl, within_rem ha.fits hb.fits hkb h⟩
        | smod => exact ⟨_, rfl, within_smod ha.fits hb.fits h⟩
        | exp => exact ⟨_, rfl, within_exp ha.fits hb.fits h⟩
        | signextend => exact ⟨_, rfl, within_signextend ha.fits hb.fits h⟩
        | lt =>
          cases h
          exact ⟨_, rfl, within_lt ha.fits hb.fits fun _ _ => rfl⟩
        | slt =>
          cases h
          exact ⟨_, rfl, within_lt ha.fits hb.fits fun h h' => i256Lt_of_fits ha.fits hb.fits h h'⟩
        | gt =>
          cases h
          exact ⟨_, rfl, within_gt ha.fits hb.fits fun _ _ => rfl⟩
        | sgt =>
          cases h
          exact ⟨_, rfl, within_gt ha.fits hb.fits fun h h' => i256Lt_of_fits hb.fits ha.fits h' h⟩
        | eq =>
          cases h
          exact ⟨_, rfl, within_eq ha.fits hb.fits⟩
        | and => exact ⟨_, rfl, within_and ha.fits hb.fits h⟩
        | or => exact ⟨_, rfl, within_or ha.fits hb.fits h⟩
        | xor => exact ⟨_, rfl, within_xor ha.fits hb.fits h⟩
        | byte =>
          cases h
          exact ⟨_, rfl, within_byte ha.fits hb.fits hk⟩
        | shl => exact ⟨_, rfl, within_shl ha.fits hb.fits h⟩
        | shr => exact ⟨_, rfl, within_shr ha.fits hb.fits hk h⟩
        | sar => exact ⟨_, rfl, within_sar ha.fits hb.fits hk h⟩
        | _ => cases h
      | @cons vn n _ _ hn hw =>
        cases hw with
        | nil =>
          cases op with
          | addmod => exact ⟨_, rfl, within_addmod ha.fits hb.fits hn.fits h⟩
          | mulmod => exact ⟨_, rfl, within_mulmod ha.fits hb.fits hn.fits h⟩
          | _ => cases h
        | cons => cases h

theorem tryRangeFold_sound (codeLen pc : ℕ) (h : tryRangeFold op inputs = some v)
    (hw : List.Forall₂ AbsValue.Has inputs.reverse ws) :
    ∃ w, result codeLen pc op ws = some w ∧ v.Has w := by
  obtain ⟨p, hp, hv⟩ := Option.bind_eq_some_iff.mp h
  obtain ⟨w, hresult, hwithin⟩ := foldBounds_sound codeLen pc hp hw
  exact ⟨w, hresult, AbsValue.has_ofRange hv hwithin.1 hwithin.2⟩

theorem i256Cmp_lt (a b : Word) : (i256Cmp a b == .lt) = a.i256Lt b := by
  unfold i256Cmp Word.i256Lt
  rw [Bool.eq_iff_iff, beq_iff_eq, decide_eq_true_iff]
  exact compare_lt_iff_lt

theorem i256Cmp_gt (a b : Word) : (i256Cmp a b == .gt) = b.i256Lt a := by
  unfold i256Cmp Word.i256Lt
  rw [Bool.eq_iff_iff, beq_iff_eq, decide_eq_true_iff]
  exact compare_gt_iff_gt

theorem constFold1_eq (codeLen pc : ℕ) {a w : Word} (h : constFold1 a op = some w) :
    result codeLen pc op [a] = some w := by
  cases op with
  | iszero | not | clz => exact h
  | _ => cases h

theorem constFold2_eq (codeLen pc : ℕ) {a b w : Word} (h : constFold2 a b op = some w) :
    result codeLen pc op [a, b] = some w := by
  cases op with
  | slt =>
    rw [← h]
    exact congrArg (fun c => some (Word.ofBool c)) (i256Cmp_lt a b).symm
  | sgt =>
    rw [← h]
    exact congrArg (fun c => some (Word.ofBool c)) (i256Cmp_gt a b).symm
  | div =>
    rw [← h]
    exact congrArg some (ite_not (b = 0) (a / b) 0).symm
  | mod =>
    rw [← h]
    exact congrArg some (ite_not (b = 0) (a % b) 0).symm
  | add | mul | sub | sdiv | smod | exp | signextend | lt | gt | eq | and | or | xor | byte | shl
  | shr | sar => exact h
  | _ => cases h

theorem constFold3_eq (codeLen pc : ℕ) {a b n w : Word} (h : constFold3 a b n op = some w) :
    result codeLen pc op [a, b, n] = some w := by
  cases op with
  | addmod | mulmod => exact h
  | _ => cases h

theorem foldUnary_sound (codeLen pc : ℕ) (h : foldUnary op inputs = some v)
    (hw : List.Forall₂ AbsValue.Has inputs.reverse ws) :
    ∃ w, result codeLen pc op ws = some w ∧ v.Has w := by
  unfold foldUnary at h
  split at h
  · obtain ⟨w, hfold, rfl⟩ := Option.map_eq_some_iff.mp h
    rcases hw with _ | ⟨rfl, _ | _⟩
    exact ⟨w, constFold1_eq codeLen pc hfold, rfl⟩
  · exact tryRangeFold_sound codeLen pc h hw

theorem foldBinary_sound (codeLen pc : ℕ) (h : foldBinary op inputs = some v)
    (hw : List.Forall₂ AbsValue.Has inputs.reverse ws) :
    ∃ w, result codeLen pc op ws = some w ∧ v.Has w := by
  unfold foldBinary at h
  split at h
  · obtain ⟨w, hfold, rfl⟩ := Option.map_eq_some_iff.mp h
    rcases hw with _ | ⟨rfl, _ | ⟨rfl, _ | _⟩⟩
    exact ⟨w, constFold2_eq codeLen pc hfold, rfl⟩
  · exact tryRangeFold_sound codeLen pc h hw

theorem foldTernary_sound (codeLen pc : ℕ) (h : foldTernary op inputs = some v)
    (hw : List.Forall₂ AbsValue.Has inputs.reverse ws) :
    ∃ w, result codeLen pc op ws = some w ∧ v.Has w := by
  unfold foldTernary at h
  split at h
  · obtain ⟨w, hfold, rfl⟩ := Option.map_eq_some_iff.mp h
    rcases hw with _ | ⟨rfl, _ | ⟨rfl, _ | ⟨rfl, _ | _⟩⟩⟩
    exact ⟨w, constFold3_eq codeLen pc hfold, rfl⟩
  · exact tryRangeFold_sound codeLen pc h hw

theorem tryConstFold_sound {codeLen pc : ℕ} (h : tryConstFold op pc inputs codeLen = some v)
    (hlen : inputs.length = op.stackIo.1) (hw : List.Forall₂ AbsValue.Has inputs.reverse ws) :
    ∃ w, result codeLen pc op ws = some w ∧ v.Has w := by
  cases op with
  | codesize | pc =>
    cases h
    cases List.length_eq_zero_iff.mp hlen
    cases hw
    exact ⟨_, rfl, rfl⟩
  | iszero | not | clz => exact foldUnary_sound codeLen pc h hw
  | add | mul | sub | div | sdiv | mod | smod | exp | signextend | lt | gt | slt | sgt | eq | and
  | or | xor | byte | shl | shr | sar => exact foldBinary_sound codeLen pc h hw
  | addmod | mulmod => exact foldTernary_sound codeLen pc h hw
  | _ => cases h

end Fold

/-- **Constant and range folding is sound**: whenever an instruction is folded, the word that it
pushes for any operands of the abstract ones is one of the folded value. -/
theorem fold_sound [Keccak] {env : FrameEnv} {f : Interpreter} {op : OpCode}
    {inputs : List AbsValue} {ws rest : List Word} {v : AbsValue}
    (hlen : inputs.length = op.stackIo.1)
    (hfold : tryConstFold op f.pc inputs env.message.code.len = some v ∨
      tryRangeFold op inputs = some v)
    (hws : List.Forall₂ AbsValue.Has inputs.reverse ws) (hf : f.stack = ws ++ rest) :
    ∃ w, v.Has w ∧ ((SimpleInstr.execute env op).run f).Spec (fun _ => True) (fun _ _ => True)
      fun r => r.1 = .ok () → r.2.stack = w :: rest := by
  have hresult : ∃ w, result env.message.code.len f.pc op ws = some w ∧ v.Has w := by
    rcases hfold with hfold | hfold
    · exact tryConstFold_sound hfold hlen hws
    · exact tryRangeFold_sound _ _ hfold hws
  obtain ⟨w, hw, hv⟩ := hresult
  exact ⟨w, hv, pushes_result hw hf⟩

def oneOrTwo : AbsValue := .range ⟨1, 2, by decide, by decide⟩

/-- `7 + 2` is among the folded sums of 7 and one or two. -/
theorem fold_sound_add :
    tryConstFold .add 0 [oneOrTwo, .const 7] 0 = some (.range ⟨8, 9, by decide, by decide⟩) ∧
      ∃ w, (AbsValue.range ⟨8, 9, by decide, by decide⟩).Has w ∧
        ((@SimpleInstr.execute
          ⟨.base .frontier, ⟨fun _ => none⟩, .default, .default, .default⟩ Keccak.const .add).run
            { Interpreter.init with stack := [7, 2] }).Spec (fun _ => True) (fun _ _ => True)
              fun r => r.1 = .ok () → r.2.stack = [w] := by
  refine ⟨by decide, ?_⟩
  refine @fold_sound Keccak.const _ _ .add [oneOrTwo, .const 7] [7, 2] [] _ rfl (.inl ?_) ?_ rfl
  · decide
  · exact .cons rfl (.cons (by decide) .nil)

/-- A range is not a bound from above only: read as the words up to 10, the operand 5..=10 of a
subtraction of 3 also stands for 0, and the result is not among the words up to 7. -/
theorem range_read_from_zero :
    let operand : Span := ⟨5, 10, by decide, by decide⟩
    let folded : Span := ⟨2, 7, by decide, by decide⟩
    tryConstFold .sub 0 [.const 3, .range operand] 0 = some (.range folded) ∧
      (0 : Word).toNat ≤ operand.last ∧
      ∀ w, result 0 0 .sub [0, 3] = some w → ¬w.toNat ≤ folded.last := by
  refine ⟨by decide, by decide, ?_⟩
  rintro _ ⟨⟩
  decide

end Evm2.Jit
