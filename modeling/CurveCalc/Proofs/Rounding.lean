import CurveCalc.Number.Decimal
import Mathlib.Algebra.Order.Ring.Rat
import Mathlib.Data.Int.Log
import Mathlib.Data.Rat.Cast.Order
import Mathlib.Data.Rat.Floor
import Mathlib.Tactic.FieldSimp
import Mathlib.Tactic.Linarith
import Mathlib.Tactic.NormNum
import Mathlib.Tactic.Positivity
import Mathlib.Tactic.Ring

/-!
# What rounding depends on

`Binary64.nearestMagnitude` is handed a numerator and a denominator, but it sees no more than their
quotient: equal quotients round to the same magnitude (`nearestMagnitude_congr`). The value of a
magnitude rounds to that magnitude again (`nearestMagnitude_of_value`), and quotients off either end
of the scale round to infinity and to zero. For decimals this says that the cap on the exponent
changes nothing, and that a decimal is read by its value alone (`Decimal.magnitude_congr`).
-/

namespace CurveCalc

namespace Binary64

/-! ## Powers with an integer exponent -/

theorem zpow_eq_div (b : ℕ) [NeZero b] (k : ℤ) :
    (b : ℚ) ^ k = (b : ℚ) ^ k.toNat / (b : ℚ) ^ (-k).toNat := by
  have hb : (b : ℚ) ≠ 0 := Nat.cast_ne_zero.mpr (NeZero.ne b)
  rw [← zpow_natCast, ← zpow_natCast, ← zpow_sub₀ hb]
  congr 1
  omega

theorem scale_eq_div (b num den : ℕ) [NeZero b] (k : ℤ) :
    ((num * Nat.pow b (-k).toNat : ℕ) : ℚ) / ((den * Nat.pow b k.toNat : ℕ) : ℚ) =
      num / den / (b : ℚ) ^ k := by
  rw [zpow_eq_div]
  push_cast [Nat.pow_eq]
  rw [div_div_div_eq]

/-! ## The order of a quotient -/

theorem log_eq_of_zpow_le {q : ℚ} {k : ℤ} (hle : (2 : ℚ) ^ k ≤ q) (hlt : q < 2 ^ (k + 1)) :
    Int.log 2 q = k := by
  have hq : 0 < q := lt_of_lt_of_le (zpow_pos two_pos k) hle
  have hge := (Int.zpow_le_iff_le_log (b := 2) Nat.one_lt_two hq).mp hle
  have hlog := (Int.lt_zpow_iff_log_lt (b := 2) Nat.one_lt_two hq).mp hlt
  omega

/-- Comparing a quotient with a multiple of a power, without dividing. -/
theorem mul_le_scaled_iff {n num den : ℕ} (hden : 0 < den) (k : ℤ) :
    n * (den * Nat.pow 2 k.toNat) ≤ num * Nat.pow 2 (-k).toNat ↔
      (n : ℚ) * 2 ^ k ≤ (num : ℚ) / den := by
  have hpos : (0 : ℚ) < (den * Nat.pow 2 k.toNat : ℕ) :=
    Nat.cast_pos.mpr (Nat.mul_pos hden (Nat.two_pow_pos _))
  have htwo : (0 : ℚ) < 2 ^ k := zpow_pos two_pos k
  rw [← @Nat.cast_le ℚ, Nat.cast_mul n, ← le_div_iff₀ hpos, scale_eq_div 2 num den k, Nat.cast_two,
    le_div_iff₀ htwo]

theorem floorLog2_eq_log {num den : ℕ} (hnum : 0 < num) (hden : 0 < den) :
    floorLog2 num den = Int.log 2 ((num : ℚ) / den) := by
  have htwo : (2 : ℚ) ≠ 0 := two_ne_zero
  have hden' : (0 : ℚ) < den := Nat.cast_pos.mpr hden
  -- the bit lengths leave two candidates for the logarithm
  have hlow : (2 : ℚ) ^ ((num.log2 : ℤ) - den.log2 - 1) ≤ num / den := by
    have hn : (2 : ℚ) ^ num.log2 ≤ num := by exact_mod_cast Nat.log2_self_le hnum.ne'
    have hd : (den : ℚ) ≤ 2 ^ (den.log2 + 1) := by
      exact_mod_cast Nat.le_of_lt Nat.lt_log2_self
    rw [show (num.log2 : ℤ) - den.log2 - 1 = num.log2 - ((den.log2 + 1 : ℕ) : ℤ) by push_cast; ring,
      zpow_sub₀ htwo, zpow_natCast, zpow_natCast]
    gcongr
  have hhigh : (num : ℚ) / den < 2 ^ ((num.log2 : ℤ) - den.log2 + 1) := by
    have hn : (num : ℚ) < 2 ^ (num.log2 + 1) := by exact_mod_cast Nat.lt_log2_self
    have hd : (2 : ℚ) ^ den.log2 ≤ den := by exact_mod_cast Nat.log2_self_le hden.ne'
    rw [show (num.log2 : ℤ) - den.log2 + 1 = ((num.log2 + 1 : ℕ) : ℤ) - den.log2 by push_cast; ring,
      zpow_sub₀ htwo, zpow_natCast, zpow_natCast]
    gcongr
  -- and the comparison tells them apart
  have htest : ∀ k : ℤ, num * Nat.pow 2 (-k).toNat < den * Nat.pow 2 k.toNat ↔
      (num : ℚ) / den < 2 ^ k := by
    intro k
    have hle := @mul_le_scaled_iff 1 num den hden k
    rw [one_mul, Nat.cast_one, one_mul] at hle
    rw [← not_le, hle, not_le]
  rw [floorLog2]
  simp only [htest]
  split
  · next hlt =>
    refine (log_eq_of_zpow_le hlow ?_).symm
    rwa [sub_add_cancel]
  · next hge => exact (log_eq_of_zpow_le (not_lt.mp hge) hhigh).symm

/-! ## Rounding to an integer -/

theorem roundHalfEven_mul_right (num den : ℕ) {k : ℕ} (hk : 0 < k) :
    roundHalfEven (num * k) (den * k) = roundHalfEven num den := by
  have hmod : 2 * (num * k % (den * k)) = 2 * (num % den) * k := by
    rw [Nat.mul_mod_mul_right, Nat.mul_assoc]
  simp only [roundHalfEven, Nat.mul_div_mul_right num den hk, hmod, Nat.mul_lt_mul_right hk]

theorem roundHalfEven_congr {num den num' den' : ℕ} (hden : 0 < den) (hden' : 0 < den')
    (h : num * den' = num' * den) : roundHalfEven num den = roundHalfEven num' den' := by
  rw [← roundHalfEven_mul_right num den hden', h, Nat.mul_comm den,
    roundHalfEven_mul_right num' den' hden]

@[simp] theorem roundHalfEven_mul_self (n : ℕ) {den : ℕ} (hden : 0 < den) :
    roundHalfEven (n * den) den = n := by
  simp [roundHalfEven, Nat.mul_div_cancel n hden, hden]

theorem le_roundHalfEven {num den n : ℕ} (hden : 0 < den) (h : n * den ≤ num) :
    n ≤ roundHalfEven num den := by
  have hdiv : n ≤ num / den := (Nat.le_div_iff_mul_le hden).mpr h
  simp only [roundHalfEven]
  split
  · exact hdiv
  · split <;> omega

theorem roundHalfEven_eq_zero {num den : ℕ} (h : 2 * num ≤ den) : roundHalfEven num den = 0 := by
  rcases Nat.eq_zero_or_pos num with rfl | hnum
  · simp [roundHalfEven]
  · have hdiv : num / den = 0 := Nat.div_eq_of_lt (by omega)
    have hmod : num % den = num := Nat.mod_eq_of_lt (by omega)
    simp only [roundHalfEven, hdiv, hmod]
    split
    · rfl
    · rw [if_neg (by omega)]

/-! ## Rounding to a magnitude -/

/-- **Equal quotients have the same nearest magnitude.** -/
theorem nearestMagnitude_congr {num den num' den' : ℕ} (hden : 0 < den) (hden' : 0 < den')
    (h : (num : ℚ) / den = num' / den') :
    nearestMagnitude num den = nearestMagnitude num' den' := by
  have hcross : num * den' = num' * den := by
    rw [div_eq_div_iff (Nat.cast_ne_zero.mpr hden.ne') (Nat.cast_ne_zero.mpr hden'.ne')] at h
    exact_mod_cast h
  have hzero : num = 0 ↔ num' = 0 := by
    constructor
    · rintro rfl
      rw [Nat.zero_mul, eq_comm, Nat.mul_eq_zero] at hcross
      exact hcross.resolve_right hden.ne'
    · rintro rfl
      rw [Nat.zero_mul, Nat.mul_eq_zero] at hcross
      exact hcross.resolve_right hden'.ne'
  rcases Nat.eq_zero_or_pos num with hnum | hnum
  · rw [nearestMagnitude, nearestMagnitude, if_pos hnum, if_pos (hzero.mp hnum)]
  · -- the grid depends on the quotient, and on one grid so does the integer
    have hnum' : 0 < num' := Nat.pos_of_ne_zero fun hc ↦ hnum.ne' (hzero.mpr hc)
    have hgrid : gridExponent num den = gridExponent num' den' := by
      rw [gridExponent, gridExponent, floorLog2_eq_log hnum hden, floorLog2_eq_log hnum' hden', h]
    have hround : ∀ e : ℤ,
        roundHalfEven (num * Nat.pow 2 (-e).toNat) (den * Nat.pow 2 e.toNat) =
          roundHalfEven (num' * Nat.pow 2 (-e).toNat) (den' * Nat.pow 2 e.toNat) := by
      intro e
      refine roundHalfEven_congr (Nat.mul_pos hden (Nat.two_pow_pos _))
        (Nat.mul_pos hden' (Nat.two_pow_pos _)) ?_
      calc num * Nat.pow 2 (-e).toNat * (den' * Nat.pow 2 e.toNat)
          = num * den' * (Nat.pow 2 (-e).toNat * Nat.pow 2 e.toNat) := by ring
        _ = num' * den * (Nat.pow 2 (-e).toNat * Nat.pow 2 e.toNat) := by rw [hcross]
        _ = num' * Nat.pow 2 (-e).toNat * (den * Nat.pow 2 e.toNat) := by ring
    simp only [nearestMagnitude, if_neg hnum.ne', if_neg hnum'.ne', hgrid, hround]

/-! ## The value of a magnitude -/

/-- The value of a finite magnitude. -/
def value (magnitude : ℕ) : ℚ := significand magnitude * 2 ^ exponent magnitude

theorem fraction_eq_value (magnitude : ℕ) :
    ((fraction magnitude).1 : ℚ) / (fraction magnitude).2 = value magnitude := by
  have hpow := zpow_eq_div 2 (exponent magnitude)
  rw [value, fraction]
  push_cast [Nat.pow_eq] at hpow ⊢
  rw [hpow, mul_div_assoc]

theorem exponent_ge (magnitude : ℕ) : -1074 ≤ exponent magnitude := by
  rw [exponent, leadingBit]
  split <;> omega

theorem significand_lt (magnitude : ℕ) : significand magnitude < 2 ^ 53 := by
  rw [significand, leadingBit]
  split <;> omega

theorem significand_pos {magnitude : ℕ} (h : 0 < magnitude) : 0 < significand magnitude := by
  rw [significand, leadingBit]
  split <;> omega

theorem le_significand {magnitude : ℕ} (h : leadingBit ≤ magnitude) :
    2 ^ 52 ≤ significand magnitude := by
  rw [significand, if_neg (by omega), leadingBit]
  omega

theorem exponent_eq_or_le_significand (magnitude : ℕ) :
    exponent magnitude = -1074 ∨ 2 ^ 52 ≤ significand magnitude := by
  rcases Nat.lt_or_ge magnitude leadingBit with hsub | hnormal
  · exact Or.inl (if_pos hsub)
  · exact Or.inr (le_significand hnormal)

/-- Exponent and significand, put next to each other, are the magnitude. -/
theorem exponent_significand (magnitude : ℕ) :
    (exponent magnitude + 1074).toNat * leadingBit + significand magnitude = magnitude := by
  rw [exponent, significand, leadingBit]
  split <;> omega

theorem value_lt (magnitude : ℕ) : value magnitude < 2 ^ (exponent magnitude + 53) := by
  have hlt : (significand magnitude : ℚ) < 2 ^ (53 : ℕ) := by
    exact_mod_cast significand_lt magnitude
  rw [value, zpow_add₀ two_ne_zero, mul_comm]
  exact mul_lt_mul_of_pos_left hlt (zpow_pos two_pos _)

theorem le_value {magnitude : ℕ} (h : leadingBit ≤ magnitude) :
    (2 : ℚ) ^ (exponent magnitude + 52) ≤ value magnitude := by
  have hle : (2 : ℚ) ^ (52 : ℕ) ≤ significand magnitude := by
    exact_mod_cast le_significand h
  rw [value, zpow_add₀ two_ne_zero, mul_comm]
  exact mul_le_mul_of_nonneg_right hle (zpow_pos two_pos _).le

theorem gridExponent_fraction {magnitude : ℕ} (h : 0 < magnitude) :
    gridExponent (fraction magnitude).1 (fraction magnitude).2 = exponent magnitude := by
  have hsig := significand_pos h
  have hnum : 0 < (fraction magnitude).1 := Nat.mul_pos hsig (Nat.two_pow_pos _)
  rw [gridExponent, floorLog2_eq_log hnum (fraction_snd_pos magnitude), fraction_eq_value]
  have hvalue : 0 < value magnitude := mul_pos (Nat.cast_pos.mpr hsig) (zpow_pos two_pos _)
  rcases Nat.lt_or_ge magnitude leadingBit with hsub | hnormal
  · have hexp : exponent magnitude = -1074 := if_pos hsub
    have hlt : value magnitude < 2 ^ (-1022 : ℤ) := by
      have hcast : (magnitude : ℚ) < 2 ^ (52 : ℕ) := by exact_mod_cast hsub
      have hpow : (0 : ℚ) < 2 ^ (-1074 : ℤ) := zpow_pos two_pos _
      rw [value, hexp, significand, if_pos hsub, show (-1022 : ℤ) = 52 + -1074 from rfl,
        zpow_add₀ two_ne_zero]
      exact mul_lt_mul_of_pos_right hcast hpow
    have hlog := (Int.lt_zpow_iff_log_lt (b := 2) Nat.one_lt_two hvalue).mp hlt
    rw [hexp]
    exact if_pos (by omega)
  · have hlog : Int.log 2 (value magnitude) = exponent magnitude + 52 :=
      log_eq_of_zpow_le (le_value hnormal) (by rw [add_assoc]; exact value_lt magnitude)
    have hge := exponent_ge magnitude
    rw [hlog, add_sub_cancel_right]
    exact if_neg (by omega)

/-- **A quotient that is the value of a finite magnitude rounds to it.** -/
theorem nearestMagnitude_of_value {num den magnitude : ℕ} (hden : 0 < den)
    (h : (num : ℚ) / den = value magnitude) (hfin : magnitude < infinityMagnitude) :
    nearestMagnitude num den = magnitude := by
  rw [nearestMagnitude_congr hden (fraction_snd_pos magnitude) (h.trans (fraction_eq_value _).symm)]
  rcases Nat.eq_zero_or_pos magnitude with rfl | hpos
  · rfl
  · -- the grid is the one that the significand counts on, so nothing is rounded off
    have hne : (fraction magnitude).1 ≠ 0 :=
      Nat.mul_ne_zero (significand_pos hpos).ne' (Nat.two_pow_pos _).ne'
    have hscale : (fraction magnitude).1 * Nat.pow 2 (-exponent magnitude).toNat =
        significand magnitude *
          ((fraction magnitude).2 * Nat.pow 2 (exponent magnitude).toNat) := by
      rw [fraction]
      ring
    have hpos' : 0 < (fraction magnitude).2 * Nat.pow 2 (exponent magnitude).toNat :=
      Nat.mul_pos (fraction_snd_pos magnitude) (Nat.two_pow_pos _)
    simp only [nearestMagnitude, if_neg hne, gridExponent_fraction hpos, hscale,
      roundHalfEven_mul_self _ hpos', exponent_significand]
    exact if_neg (Nat.not_le.mpr hfin)

/-- A number that is the value of a finite magnitude. -/
def Representable (q : ℚ) : Prop := ∃ m < infinityMagnitude, value m = q

section Packed

/-! An exponent and a significand, put next to each other. The leading bit may be missing at the
lower end of the scale only. -/

variable {n : ℕ} {e : ℤ}

theorem significand_packed (hn : n < 2 ^ 53) (hfull : e = -1074 ∨ 2 ^ 52 ≤ n) :
    significand ((e + 1074).toNat * leadingBit + n) = n := by
  rw [significand, leadingBit]
  split <;> omega

theorem exponent_packed (hn : n < 2 ^ 53) (hlow : -1074 ≤ e) (hfull : e = -1074 ∨ 2 ^ 52 ≤ n) :
    exponent ((e + 1074).toNat * leadingBit + n) = e := by
  rw [exponent, leadingBit]
  split <;> omega

theorem value_packed (hn : n < 2 ^ 53) (hlow : -1074 ≤ e) (hfull : e = -1074 ∨ 2 ^ 52 ≤ n) :
    value ((e + 1074).toNat * leadingBit + n) = n * 2 ^ e := by
  rw [value, significand_packed hn hfull, exponent_packed hn hlow hfull]

end Packed

/-- Bits can be moved up to the leading bit, or as far as the scale goes down. -/
theorem exists_aligned {n : ℕ} {e : ℤ} (hpos : 0 < n) (hn : n < 2 ^ 53) (hlow : -1074 ≤ e) :
    ∃ j : ℕ, n * 2 ^ j < 2 ^ 53 ∧ -1074 ≤ e - j ∧ (e - j = -1074 ∨ 2 ^ 52 ≤ n * 2 ^ j) := by
  have hlog : n.log2 ≤ 52 := Nat.le_of_lt_succ ((Nat.log2_lt hpos.ne').mpr hn)
  have hbits : ∀ j ≤ 52 - n.log2, n * 2 ^ j < 2 ^ 53 := by
    intro j hj
    calc n * 2 ^ j < 2 ^ (n.log2 + 1) * 2 ^ j :=
          Nat.mul_lt_mul_of_pos_right Nat.lt_log2_self (Nat.two_pow_pos j)
      _ = 2 ^ (n.log2 + 1 + j) := (pow_add 2 _ _).symm
      _ ≤ 2 ^ 53 := Nat.pow_le_pow_right two_pos (by omega)
  by_cases hroom : 52 - n.log2 < (e + 1074).toNat
  · refine ⟨52 - n.log2, hbits _ le_rfl, by omega, Or.inr ?_⟩
    calc 2 ^ 52 = 2 ^ n.log2 * 2 ^ (52 - n.log2) := by
          rw [← pow_add]
          congr 1
          omega
      _ ≤ n * 2 ^ (52 - n.log2) := Nat.mul_le_mul_right _ (Nat.log2_self_le hpos.ne')
  · exact ⟨(e + 1074).toNat, hbits _ (by omega), by omega, Or.inl (by omega)⟩

/-- **Up to 53 bits at any place of the scale** are representable. -/
theorem representable_mul_zpow {n : ℕ} {e : ℤ} (hn : n < 2 ^ 53) (hlow : -1074 ≤ e)
    (hhigh : e ≤ 971) : Representable (n * 2 ^ e) := by
  rcases Nat.eq_zero_or_pos n with rfl | hpos
  · exact ⟨0, by decide, by simp [value, significand, leadingBit]⟩
  · obtain ⟨j, hbits, hmin, hfull⟩ := exists_aligned hpos hn hlow
    refine ⟨_, ?_, (value_packed hbits hmin hfull).trans ?_⟩
    · generalize n * 2 ^ j = bits at *
      rw [infinityMagnitude, leadingBit]
      omega
    · rw [zpow_sub₀ two_ne_zero, zpow_natCast]
      push_cast
      field_simp

theorem representable_natCast {n : ℕ} (h : n < 2 ^ 53) : Representable n := by
  simpa using representable_mul_zpow h (by norm_num : (-1074 : ℤ) ≤ 0) (by norm_num)

/-! ## Off the scale -/

theorem nearestMagnitude_le (num den : ℕ) : nearestMagnitude num den ≤ infinityMagnitude := by
  rw [nearestMagnitude]
  split
  · exact Nat.zero_le _
  · simp only
    split <;> omega

theorem mulMagnitudes_le (a b : ℕ) : mulMagnitudes a b ≤ infinityMagnitude := by
  rw [mulMagnitudes]
  split
  · exact Nat.zero_le _
  · split
    · exact Nat.le_refl _
    · exact nearestMagnitude_le _ _

theorem nearestMagnitude_of_le {num den : ℕ} (hden : 0 < den)
    (h : (2 : ℚ) ^ (1024 : ℤ) ≤ num / den) : nearestMagnitude num den = infinityMagnitude := by
  have hq : (0 : ℚ) < num / den := lt_of_lt_of_le (zpow_pos two_pos _) h
  have hnum : 0 < num := by
    rcases Nat.eq_zero_or_pos num with rfl | hpos
    · simp at hq
    · exact hpos
  have hlog := (Int.zpow_le_iff_le_log (b := 2) Nat.one_lt_two hq).mp h
  have hgrid : gridExponent num den = Int.log 2 ((num : ℚ) / den) - 52 := by
    rw [gridExponent, floorLog2_eq_log hnum hden]
    exact if_neg (by omega)
  have hfull : 2 ^ 52 ≤ roundHalfEven (num * Nat.pow 2 (-gridExponent num den).toNat)
      (den * Nat.pow 2 (gridExponent num den).toNat) := by
    have hpos : 0 < den * Nat.pow 2 (gridExponent num den).toNat :=
      Nat.mul_pos hden (Nat.two_pow_pos _)
    refine le_roundHalfEven hpos ?_
    rw [mul_le_scaled_iff hden, hgrid]
    have hle := Int.zpow_log_le_self (b := 2) Nat.one_lt_two hq
    have hsplit : ((2 ^ 52 : ℕ) : ℚ) * 2 ^ (Int.log 2 ((num : ℚ) / den) - 52) =
        2 ^ Int.log 2 ((num : ℚ) / den) := by
      rw [zpow_sub₀ two_ne_zero]
      push_cast
      field_simp
    rwa [hsplit]
  simp only [nearestMagnitude, if_neg hnum.ne']
  refine if_pos ?_
  rw [infinityMagnitude, leadingBit]
  omega

/-- At most half a step of a grid rounds to none. -/
theorem roundHalfEven_scaled_eq_zero {num den : ℕ} (hden : 0 < den) (k : ℤ)
    (h : (num : ℚ) / den ≤ 2 ^ (k - 1)) :
    roundHalfEven (num * Nat.pow 2 (-k).toNat) (den * Nat.pow 2 k.toNat) = 0 := by
  have hpos : (0 : ℚ) < (den * Nat.pow 2 k.toNat : ℕ) :=
    Nat.cast_pos.mpr (Nat.mul_pos hden (Nat.two_pow_pos _))
  have hhalf : (num : ℚ) / den / 2 ^ k ≤ 1 / 2 := by
    rw [div_le_iff₀ (zpow_pos two_pos k)]
    refine h.trans (le_of_eq ?_)
    rw [zpow_sub_one₀ two_ne_zero, one_div, mul_comm]
  have hscale := scale_eq_div 2 num den k
  rw [Nat.cast_two] at hscale
  rw [← hscale, div_le_iff₀ hpos, one_div, ← div_eq_inv_mul, le_div_iff₀ two_pos,
    mul_comm] at hhalf
  refine roundHalfEven_eq_zero ?_
  rw [← @Nat.cast_le ℚ, Nat.cast_mul 2, Nat.cast_two]
  exact hhalf

theorem nearestMagnitude_eq_zero {num den : ℕ} (hden : 0 < den)
    (h : (num : ℚ) / den ≤ 2 ^ (-1075 : ℤ)) : nearestMagnitude num den = 0 := by
  rcases Nat.eq_zero_or_pos num with hnum | hnum
  · exact if_pos hnum
  · have hq : (0 : ℚ) < num / den := div_pos (Nat.cast_pos.mpr hnum) (Nat.cast_pos.mpr hden)
    have hlog : Int.log 2 ((num : ℚ) / den) < -1022 := by
      refine (Int.lt_zpow_iff_log_lt (b := 2) Nat.one_lt_two hq).mp (lt_of_le_of_lt h ?_)
      exact zpow_lt_zpow_right₀ one_lt_two (by norm_num)
    have hgrid : gridExponent num den = -1074 := by
      rw [gridExponent, floorLog2_eq_log hnum hden]
      exact if_pos (by omega)
    have hround := roundHalfEven_scaled_eq_zero hden (-1074)
      (by rwa [show (-1074 : ℤ) - 1 = -1075 from rfl])
    simp only [nearestMagnitude, if_neg hnum.ne', hgrid, hround]
    rfl

end Binary64

namespace Decimal

/-! ## Decimals -/

/-- The value of a decimal. -/
def value (d : Decimal) : ℚ := d.coefficient * 10 ^ d.exponent

theorem scaled_eq_value (coefficient : ℕ) (e : ℤ) :
    ((coefficient * Nat.pow 10 e.toNat : ℕ) : ℚ) / (Nat.pow 10 (-e).toNat : ℕ) =
      (⟨coefficient, e⟩ : Decimal).value := by
  have hpow := Binary64.zpow_eq_div 10 e
  rw [value]
  push_cast [Nat.pow_eq] at hpow ⊢
  rw [hpow, mul_div_assoc]

theorem nearestMagnitude_of_large {coefficient : ℕ} (hc : 0 < coefficient) {e : ℤ} (he : 400 ≤ e) :
    Binary64.nearestMagnitude (coefficient * Nat.pow 10 e.toNat) (Nat.pow 10 (-e).toNat) =
      Binary64.infinityMagnitude := by
  refine Binary64.nearestMagnitude_of_le (Nat.pow_pos (by decide)) ?_
  rw [scaled_eq_value, value]
  calc (2 : ℚ) ^ (1024 : ℤ) ≤ 10 ^ (400 : ℤ) := by
        exact_mod_cast show 2 ^ 1024 ≤ 10 ^ 400 by decide +kernel
    _ ≤ 10 ^ e := zpow_le_zpow_right₀ (by norm_num) he
    _ ≤ coefficient * 10 ^ e :=
      le_mul_of_one_le_left (zpow_pos (by norm_num) e).le (Nat.one_le_cast.mpr hc)

theorem nearestMagnitude_of_small {coefficient : ℕ} {e : ℤ}
    (he : e ≤ -((coefficient.log2 : ℤ) + 401)) :
    Binary64.nearestMagnitude (coefficient * Nat.pow 10 e.toNat) (Nat.pow 10 (-e).toNat) = 0 := by
  refine Binary64.nearestMagnitude_eq_zero (Nat.pow_pos (by decide)) ?_
  have hten : (0 : ℚ) < 10 ^ e := zpow_pos (by norm_num) e
  have hc : (coefficient : ℚ) ≤ 10 ^ ((coefficient.log2 : ℤ) + 1) := by
    calc (coefficient : ℚ) ≤ 2 ^ (coefficient.log2 + 1) := by
          exact_mod_cast Nat.le_of_lt Nat.lt_log2_self
      _ ≤ 10 ^ (coefficient.log2 + 1) := by gcongr; norm_num
      _ = 10 ^ ((coefficient.log2 : ℤ) + 1) := by norm_cast
  rw [scaled_eq_value, value]
  calc (coefficient : ℚ) * 10 ^ e
      ≤ 10 ^ ((coefficient.log2 : ℤ) + 1) * 10 ^ e := mul_le_mul_of_nonneg_right hc hten.le
    _ = 10 ^ ((coefficient.log2 : ℤ) + 1 + e) := (zpow_add₀ (by norm_num) _ _).symm
    _ ≤ 10 ^ (-400 : ℤ) := zpow_le_zpow_right₀ (by norm_num) (by omega)
    _ ≤ 2 ^ (-1075 : ℤ) := by
      rw [zpow_neg, zpow_neg]
      refine inv_anti₀ (zpow_pos two_pos _) ?_
      exact_mod_cast show 2 ^ 1075 ≤ 10 ^ 400 by decide +kernel

/-- **The cap on the exponent changes nothing**: the magnitude of a decimal is the nearest to its
value. -/
theorem magnitude_eq_nearestMagnitude (d : Decimal) :
    d.magnitude = Binary64.nearestMagnitude (d.coefficient * Nat.pow 10 d.exponent.toNat)
      (Nat.pow 10 (-d.exponent).toNat) := by
  simp only [magnitude, cappedExponent]
  split
  · next hlarge =>
    rcases Nat.eq_zero_or_pos d.coefficient with hc | hc
    · simp only [hc, Nat.zero_mul, Binary64.nearestMagnitude, if_true]
    · rw [nearestMagnitude_of_large hc le_rfl, nearestMagnitude_of_large hc hlarge.le]
  · split
    · next hsmall => rw [nearestMagnitude_of_small le_rfl, nearestMagnitude_of_small hsmall.le]
    · rfl

theorem magnitude_congr {d d' : Decimal} (h : d.value = d'.value) : d.magnitude = d'.magnitude := by
  have hten : ∀ k : ℕ, 0 < Nat.pow 10 k := fun _ ↦ Nat.pow_pos (by decide)
  rw [magnitude_eq_nearestMagnitude, magnitude_eq_nearestMagnitude]
  refine Binary64.nearestMagnitude_congr (hten _) (hten _) ?_
  rw [scaled_eq_value, scaled_eq_value]
  exact h

theorem magnitude_of_value {d : Decimal} {magnitude : ℕ} (h : d.value = Binary64.value magnitude)
    (hfin : magnitude < Binary64.infinityMagnitude) : d.magnitude = magnitude := by
  rw [magnitude_eq_nearestMagnitude]
  refine Binary64.nearestMagnitude_of_value (Nat.pow_pos (by decide)) ?_ hfin
  rw [scaled_eq_value]
  exact h

/-! ## The shortest decimal of a magnitude -/

theorem value_exact (magnitude : ℕ) : (exact magnitude).value = Binary64.value magnitude := by
  simp only [exact]
  split
  · next h =>
    rw [value, Binary64.value, zpow_zero, mul_one]
    push_cast [Nat.pow_eq]
    rw [← zpow_natCast, Int.toNat_of_nonneg h]
  · next h =>
    rw [value, Binary64.value]
    push_cast [Nat.pow_eq]
    rw [← zpow_natCast, Int.toNat_of_nonneg (by omega), zpow_neg, mul_assoc, ← inv_zpow,
      ← mul_zpow]
    norm_num

theorem value_trim (coefficient : ℕ) (e : ℤ) :
    (trim coefficient e).value = (⟨coefficient, e⟩ : Decimal).value := by
  induction coefficient, e using trim.induct with
  | case1 e => rw [trim, if_pos rfl]
  | case2 c e hne hten ih =>
    have hc : ((c / 10 : ℕ) : ℚ) * 10 = c := by
      exact_mod_cast Nat.div_mul_cancel (Nat.dvd_of_mod_eq_zero hten)
    rw [trim, if_neg hne, if_pos hten, ih, value, value]
    simp only
    rw [zpow_add_one₀ (by norm_num), mul_comm _ (10 : ℚ), ← mul_assoc, hc]
  | case3 c e hne hten => rw [trim, if_neg hne, if_neg hten]

theorem magnitude_of_neighbour? {target num den : ℕ} {e : ℤ} {d : Decimal}
    (h : neighbour? target num den e = some d) : d.magnitude = target := by
  simp only [neighbour?] at h
  split at h
  · next hlower =>
    split at h
    · next hupper =>
      obtain rfl := Option.some.inj h
      exact hupper.1
    · obtain rfl := Option.some.inj h
      exact hlower
  · split at h
    · next hupper =>
      obtain rfl := Option.some.inj h
      exact hupper
    · exact absurd h (by simp)

/-- **The shortest decimal of a magnitude is read as that magnitude.** -/
theorem magnitude_shortest {magnitude : ℕ} (hfin : magnitude < Binary64.infinityMagnitude) :
    (shortest magnitude).magnitude = magnitude := by
  -- a hit of the search was tested by reading it, and the fallback has the value itself
  have hread : ((shortest? magnitude).getD (exact magnitude)).magnitude = magnitude := by
    rcases hfound : shortest? magnitude with - | d
    · exact magnitude_of_value (value_exact magnitude) hfin
    · obtain ⟨n, -, hn⟩ := List.exists_of_findSome?_eq_some hfound
      exact magnitude_of_neighbour? hn
  rw [shortest]
  exact (magnitude_congr (value_trim _ _)).trans hread

end Decimal

end CurveCalc
