import CurveCalc.Proofs.NearestMagnitude
import CurveCalc.Proofs.UnpackedDouble

/-!
# How results are rounded to doubles

An operation on doubles leaves an integer, its exponent, and two bits for what comes after the
integer: whether that is half a unit or more, and whether it is anything besides. `CutOff` says
which numbers these stand for. Shifts to the right keep what is said of the number, and the two bits
are enough to round it; so what is packed in the end is the magnitude nearest to the number, ties to
even (`packed_roundWithAccuracy`). The integer must have 53 bits to begin with, or reach down to the
lower end of the scale: bits that were never there cannot be shifted in.
-/

namespace CurveCalc

namespace Binary64

open Float.Model (Format totalExponent)
open Float.Model.UnpackedFloat

/-! ## Numbers and the bits cut off -/

/-- A number of which an integer and two bits are left. -/
structure CutOff (em : ExtendedMantissa) (q : ℚ) : Prop where
  le : (em.mantissa : ℚ) ≤ q
  lt : q < em.mantissa + 1
  roundBit_iff : em.roundBit = true ↔ em.mantissa + 1 / 2 ≤ q
  stickyBit_iff : em.stickyBit = true ↔ q ≠ em.mantissa ∧ q ≠ em.mantissa + 1 / 2

theorem cutOff_exact (m : ℕ) : CutOff (.ofMantissaAndAccuracy m .exact) m where
  le := le_rfl
  lt := lt_add_one _
  roundBit_iff := by simp [ExtendedMantissa.ofMantissaAndAccuracy]
  stickyBit_iff := by simp [ExtendedMantissa.ofMantissaAndAccuracy]

/-- Above the integer, comparing with the middle of the unit is enough. -/
theorem cutOff_inexact {m : ℕ} {q : ℚ} (hlo : (m : ℚ) < q) (hhi : q < m + 1) :
    CutOff (.ofMantissaAndAccuracy m (.inexact (compare q (m + 1 / 2)))) q := by
  rcases lt_trichotomy q (m + 1 / 2) with h | h | h
  · rw [compare_lt_iff_lt.mpr h]
    exact ⟨hlo.le, hhi, iff_of_false Bool.false_ne_true h.not_ge, iff_of_true rfl ⟨hlo.ne', h.ne⟩⟩
  · rw [compare_eq_iff_eq.mpr h]
    exact ⟨hlo.le, hhi, iff_of_true rfl h.ge, iff_of_false Bool.false_ne_true fun hne ↦ hne.2 h⟩
  · rw [compare_gt_iff_gt.mpr h]
    exact ⟨hlo.le, hhi, iff_of_true rfl h.le, iff_of_true rfl ⟨hlo.ne', h.ne'⟩⟩

theorem cutOff_fraction (d : ℕ) {r n : ℕ} (hr : r < n) :
    CutOff (.ofMantissaAndAccuracy d (accuracyOfFraction r n)) (d + r / n) := by
  have hn : (0 : ℚ) < n := Nat.cast_pos.mpr (Nat.zero_lt_of_lt hr)
  have hlt : (r : ℚ) / n < 1 := (div_lt_one hn).mpr (Nat.cast_lt.mpr hr)
  rw [accuracyOfFraction]
  split
  · next hzero =>
    rw [hzero, Nat.cast_zero, zero_div, add_zero]
    exact cutOff_exact d
  · next hne =>
    have hpos : (0 : ℚ) < r / n := div_pos (Nat.cast_pos.mpr (Nat.pos_of_ne_zero hne)) hn
    have hmiddle : compare (2 * r) n = compare ((d : ℚ) + r / n) (d + 1 / 2) := by
      rcases Nat.lt_trichotomy (2 * r) n with h | h | h
      · rw [Nat.compare_eq_lt.mpr h, eq_comm, compare_lt_iff_lt, add_lt_add_iff_left,
          div_lt_div_iff₀ hn two_pos, mul_comm, one_mul]
        exact_mod_cast h
      · rw [Nat.compare_eq_eq.mpr h, eq_comm, compare_eq_iff_eq, add_right_inj,
          div_eq_div_iff hn.ne' two_ne_zero, mul_comm, one_mul]
        exact_mod_cast h
      · rw [Nat.compare_eq_gt.mpr h, eq_comm, compare_gt_iff_gt, add_lt_add_iff_left,
          div_lt_div_iff₀ two_pos hn, one_mul, mul_comm (r : ℚ)]
        exact_mod_cast h
    rw [hmiddle]
    exact cutOff_inexact (by linarith) (by linarith)

namespace CutOff

variable {em : ExtendedMantissa} {q : ℚ}

theorem anyBit_iff (h : CutOff em q) :
    (em.roundBit || em.stickyBit) = true ↔ q ≠ em.mantissa := by
  rw [Bool.or_eq_true, h.roundBit_iff, h.stickyBit_iff]
  constructor
  · rintro (hround | ⟨hne, -⟩) hq
    · linarith
    · exact hne hq
  · intro hne
    by_contra! hbits
    exact hbits.1.ne (hbits.2 hne)

theorem shiftRightOne (h : CutOff em q) : CutOff em.shiftRightOne (q / 2) := by
  have hle := h.le
  have hlt := h.lt
  have hsticky := h.anyBit_iff
  -- the last bit of the integer moves behind it
  have hcast : (em.mantissa : ℚ) = 2 * (em.mantissa / 2 : ℕ) + (em.mantissa % 2 : ℕ) := by
    exact_mod_cast (Nat.div_add_mod em.mantissa 2).symm
  rw [hcast] at hle hlt hsticky
  have hlast := Nat.mod_two_eq_zero_or_one em.mantissa
  constructor <;> simp only [ExtendedMantissa.shiftRightOne]
  case le =>
    have hnonneg : (0 : ℚ) ≤ (em.mantissa % 2 : ℕ) := Nat.cast_nonneg _
    linarith
  case lt =>
    rcases hlast with hlast | hlast <;> rw [hlast] at hlt <;> push_cast at hlt <;> linarith
  case roundBit_iff =>
    rcases hlast with hlast | hlast <;> rw [hlast] at hle hlt ⊢ <;> push_cast at hle hlt
    · exact iff_of_false (by decide) (by linarith)
    · exact iff_of_true (by decide) (by linarith)
  case stickyBit_iff =>
    rw [hsticky]
    rcases hlast with hlast | hlast <;> rw [hlast] at hle hlt ⊢ <;> push_cast at hle hlt ⊢
    · have hhalf : q / 2 ≠ (em.mantissa / 2 : ℕ) + 1 / 2 := by
        intro hq
        linarith
      exact ⟨fun hne ↦ ⟨fun hq ↦ hne (by linarith), hhalf⟩, fun hne hq ↦ hne.1 (by linarith)⟩
    · have hwhole : q / 2 ≠ (em.mantissa / 2 : ℕ) := by
        intro hq
        linarith
      exact ⟨fun hne ↦ ⟨hwhole, fun hq ↦ hne (by linarith)⟩, fun hne hq ↦ hne.2 (by linarith)⟩

theorem shiftRight (h : CutOff em q) (k : ℕ) : CutOff (em >>> k) (q / 2 ^ k) := by
  induction k with
  | zero =>
    rw [pow_zero, div_one]
    exact h
  | succ k ih =>
    rw [pow_succ, ← div_div]
    exact ih.shiftRightOne

/-- The two bits are enough to round to the nearest integer. -/
theorem roundedMantissa_eq (h : CutOff em q) :
    em.roundedMantissa =
      if q < em.mantissa + 1 / 2 then em.mantissa
      else if em.mantissa + 1 / 2 < q then em.mantissa + 1
      else em.mantissa + em.mantissa % 2 := by
  obtain ⟨hle, hlt, hround, hsticky⟩ := h
  obtain ⟨m, roundBit, stickyBit⟩ := em
  simp only at hle hlt hround hsticky
  rcases lt_trichotomy q (m + 1 / 2) with hlow | hhalf | hhigh
  · obtain rfl : roundBit = false :=
      Bool.eq_false_iff.mpr fun hbit ↦ hlow.not_ge (hround.mp hbit)
    rw [if_pos hlow]
    cases stickyBit <;> rfl
  · obtain rfl : roundBit = true := hround.mpr hhalf.ge
    obtain rfl : stickyBit = false :=
      Bool.eq_false_iff.mpr fun hbit ↦ (hsticky.mp hbit).2 hhalf
    rw [if_neg (by linarith), if_neg (by linarith)]
    rfl
  · obtain rfl : roundBit = true := hround.mpr hhigh.le
    obtain rfl : stickyBit = true := hsticky.mpr ⟨by linarith, by linarith⟩
    rw [if_neg (by linarith), if_pos hhigh]
    rfl

theorem le_roundedMantissa (h : CutOff em q) :
    em.mantissa ≤ em.roundedMantissa ∧ em.roundedMantissa ≤ em.mantissa + 1 := by
  rw [h.roundedMantissa_eq]
  split
  · omega
  · split <;> omega

/-- **The integer and its exponent, put next to each other and rounded, are the nearest
magnitude.** -/
theorem nearestTo_eq (h : CutOff em q) {e : ℤ} (hbits : em.mantissa < 2 ^ 53) (hlow : -1074 ≤ e)
    (hfull : e = -1074 ∨ 2 ^ 52 ≤ em.mantissa) :
    nearestTo (q * 2 ^ e) =
      min infinityMagnitude ((e + 1074).toNat * leadingBit + em.roundedMantissa) := by
  have hvalue := value_packed hbits hlow hfull
  have hexp := exponent_packed hbits hlow hfull
  have hsig := significand_packed hbits hfull
  have hrounded := h.le_roundedMantissa
  generalize hk : (e + 1074).toNat * leadingBit + em.mantissa = k at *
  have hunit : (0 : ℚ) < 2 ^ e := zpow_pos two_pos e
  have hlo : value k ≤ q * 2 ^ e := by
    rw [hvalue]
    exact mul_le_mul_of_nonneg_right h.le hunit.le
  rcases Nat.lt_or_ge k infinityMagnitude with hfin | hover
  · have hhi : q * 2 ^ e < value (k + 1) := by
      rw [value_succ, hvalue, hexp, ← add_one_mul]
      exact mul_lt_mul_of_pos_right h.lt hunit
    have hhalf : halfway k = (em.mantissa + 1 / 2) * 2 ^ e := by rw [halfway_eq, hsig, hexp]
    have heven : k % 2 = em.mantissa % 2 := by
      rw [leadingBit] at hk
      omega
    rw [min_eq_right (by omega), nearestTo_eq_nearer hfin hlo hhi, nearer, heven,
      h.roundedMantissa_eq]
    simp only [hhalf, mul_lt_mul_iff_left₀ hunit]
    split
    · exact hk.symm
    · split <;> omega
  · rw [min_eq_left (by omega)]
    refine nearestTo_of_le (le_trans ?_ hlo)
    rw [← value_infinityMagnitude]
    exact value_strictMono.monotone hover

end CutOff

/-! ## The bits kept -/

theorem targetExponent_eq (t : ℤ) : Format.binary64.targetExponent t = max (t - 53) (-1074) := rfl

/-- How far a significand is shifted. -/
def shiftAmount (m : ℕ) (e : ℤ) : ℕ :=
  (Format.binary64.targetExponent (totalExponent m e) - e).toNat

theorem mantissa_shiftRight (em : ExtendedMantissa) (k : ℕ) :
    (em >>> k).mantissa = em.mantissa / 2 ^ k := by
  induction k with
  | zero => simp [HShiftRight.hShiftRight, Nat.repeat]
  | succ k ih =>
    rw [pow_succ, ← Nat.div_div_eq_div_mul, ← ih]
    rfl

theorem mantissa_ofMantissaAndAccuracy (m : ℕ) (acc : Accuracy) :
    (ExtendedMantissa.ofMantissaAndAccuracy m acc).mantissa = m := by
  cases acc with
  | exact => rfl
  | inexact order => cases order <;> rfl

/-- A shift leaves 53 bits, or those down to the lower end of the scale. -/
theorem shift_bounds {m : ℕ} {e : ℤ} (hroom : e ≤ -1074 ∨ 2 ^ 52 ≤ m) :
    m / 2 ^ shiftAmount m e < 2 ^ 53 ∧ -1074 ≤ e + shiftAmount m e ∧
      (e + shiftAmount m e = -1074 ∨ 2 ^ 52 ≤ m / 2 ^ shiftAmount m e) := by
  have hlt : m < 2 ^ (m.log2 + 1) := Nat.lt_log2_self
  have hlog : 2 ^ 52 ≤ m → 52 ≤ m.log2 := fun h ↦ (Nat.le_log2 (by omega)).mpr h
  have hshift : (shiftAmount m e : ℤ) = max 0 (max (m.log2 + 1 + e - 53) (-1074) - e) := by
    rw [shiftAmount, targetExponent_eq, totalExponent]
    omega
  generalize shiftAmount m e = k at *
  have hbits : m / 2 ^ k < 2 ^ 53 := by
    rw [Nat.div_lt_iff_lt_mul (Nat.two_pow_pos k), ← pow_add]
    exact hlt.trans_le (Nat.pow_le_pow_right two_pos (by omega))
  refine ⟨hbits, by omega, ?_⟩
  by_cases hend : e + k = -1074
  · exact Or.inl hend
  · right
    have hk : m.log2 = 52 + k := by omega
    have hm : m ≠ 0 := by
      rintro rfl
      rw [Nat.log2_zero] at hk
      omega
    rw [Nat.le_div_iff_mul_le (Nat.two_pow_pos k), ← pow_add, ← hk]
    exact Nat.log2_self_le hm

/-- A significand of 53 bits stays as it is; the next integer loses a bit, which is zero. -/
theorem shiftAmount_of_le {r : ℕ} {e : ℤ} (hr : r ≤ 2 ^ 53) (hlow : -1074 ≤ e) :
    r = 2 ^ 53 ∧ shiftAmount r e = 1 ∨ r < 2 ^ 53 ∧ shiftAmount r e = 0 := by
  rcases Nat.lt_or_eq_of_le hr with hlt | rfl
  · right
    refine ⟨hlt, ?_⟩
    have hlog : r.log2 ≤ 52 := by
      rcases Nat.eq_zero_or_pos r with rfl | hpos
      · decide
      · exact Nat.le_of_lt_succ ((Nat.log2_lt hpos.ne').mpr hlt)
    rw [shiftAmount, targetExponent_eq, totalExponent]
    omega
  · left
    refine ⟨rfl, ?_⟩
    rw [shiftAmount, targetExponent_eq, totalExponent, Nat.log2_two_pow]
    omega

/-! ## The rounded result -/

theorem shiftToTargetExponent_eq (m : ℕ) (e : ℤ) (acc : Accuracy) :
    shiftToTargetExponent Format.binary64 m e acc =
      (ExtendedMantissa.ofMantissaAndAccuracy m acc >>> shiftAmount m e, e + shiftAmount m e) := rfl

theorem roundWithAccuracy_eq {s : Sign} {m : ℕ} {e e₁ e₂ : ℤ} {acc : Accuracy}
    {em₁ em₂ : ExtendedMantissa}
    (h₁ : shiftToTargetExponent Format.binary64 m e acc = (em₁, e₁))
    (h₂ : shiftToTargetExponent Format.binary64 em₁.roundedMantissa e₁ .exact = (em₂, e₂)) :
    roundWithAccuracy Format.binary64 s m e acc =
      if h : em₂.mantissa = 0 then .zero s
      else .finite s em₂.mantissa e₂ (Nat.pos_of_ne_zero h) := by
  simp only [roundWithAccuracy, h₁, h₂]

/-- A rounded significand is packed next to its exponent. Rounding up may have given it one bit too
many, which is carried into the exponent. -/
theorem packed_shifted (negative : Bool) {r : ℕ} {e : ℤ} (hr : r ≤ 2 ^ 53) (hlow : -1074 ≤ e)
    (hfull : e = -1074 ∨ 2 ^ 52 ≤ r) :
    packed (if h : r / 2 ^ shiftAmount r e = 0 then .zero (signOf negative)
      else .finite (signOf negative) (r / 2 ^ shiftAmount r e) (e + shiftAmount r e)
        (Nat.pos_of_ne_zero h)) =
      signed negative (min infinityMagnitude ((e + 1074).toNat * leadingBit + r)) := by
  rcases shiftAmount_of_le hr hlow with ⟨rfl, hk⟩ | ⟨hlt, hk⟩
  · have hcarry : (e + (1 : ℕ) + 1074).toNat * leadingBit + 2 ^ 53 / 2 ^ 1 =
        (e + 1074).toNat * leadingBit + 2 ^ 53 := by
      rw [leadingBit]
      omega
    simp only [hk]
    rw [dif_neg (by norm_num), packed_finite negative _ (by norm_num) (by omega) (by norm_num),
      hcarry]
  · simp only [hk, pow_zero, Nat.div_one, Nat.cast_zero, add_zero]
    split
    · next hzero =>
      obtain rfl : e = -1074 := by omega
      rw [packed_zero, hzero]
      rfl
    · next hpos => exact packed_finite negative _ hlt hlow hfull

/-- **What is packed is the nearest magnitude**, ties to even, with the sign of the result. -/
theorem packed_roundWithAccuracy (negative : Bool) {m : ℕ} {e : ℤ} {acc : Accuracy} {x : ℚ}
    (h : CutOff (.ofMantissaAndAccuracy m acc) x) (hroom : e ≤ -1074 ∨ 2 ^ 52 ≤ m) :
    packed (roundWithAccuracy Format.binary64 (signOf negative) m e acc) =
      signed negative (nearestTo (x * 2 ^ e)) := by
  obtain ⟨hbits, hlow, hfull⟩ := shift_bounds hroom
  have hcut := h.shiftRight (shiftAmount m e)
  have hmantissa := mantissa_shiftRight (.ofMantissaAndAccuracy m acc) (shiftAmount m e)
  rw [mantissa_ofMantissaAndAccuracy] at hmantissa
  rw [← hmantissa] at hbits hfull
  -- the first shift rounds the number
  have hscale : x / 2 ^ shiftAmount m e * (2 : ℚ) ^ (e + shiftAmount m e) = x * 2 ^ e := by
    rw [zpow_add₀ two_ne_zero, zpow_natCast]
    field_simp
  have hnear := hcut.nearestTo_eq hbits hlow hfull
  rw [hscale] at hnear
  rw [hnear]
  -- the second one is there for the carry
  obtain ⟨hle, hge⟩ := hcut.le_roundedMantissa
  rw [roundWithAccuracy_eq (shiftToTargetExponent_eq m e acc) (shiftToTargetExponent_eq _ _ .exact)]
  simp only [mantissa_shiftRight (.ofMantissaAndAccuracy _ .exact), mantissa_ofMantissaAndAccuracy]
  exact packed_shifted negative (by omega) hlow (by omega)

/-! ## Rounding a number of any size -/

theorem value_decreaseExponent (m : ℕ) (e t : ℤ) :
    ((decreaseExponent m e t).1 : ℚ) * 2 ^ (decreaseExponent m e t).2 = m * 2 ^ e := by
  rw [decreaseExponent, Nat.shiftLeft_eq, zpow_sub₀ two_ne_zero, zpow_natCast]
  push_cast
  field_simp

theorem decreaseExponent_room {m : ℕ} (hm : 0 < m) (e : ℤ) {t : ℤ}
    (ht : t ≤ max (totalExponent m e - 53) (-1074)) :
    (decreaseExponent m e t).2 ≤ -1074 ∨ 2 ^ 52 ≤ (decreaseExponent m e t).1 := by
  rw [totalExponent] at ht
  rw [decreaseExponent, Nat.shiftLeft_eq]
  generalize hk : (e - t).toNat = k
  by_cases hend : e - k ≤ -1074
  · exact Or.inl hend
  · right
    calc 2 ^ 52 ≤ 2 ^ (m.log2 + k) := Nat.pow_le_pow_right two_pos (by omega)
      _ = 2 ^ m.log2 * 2 ^ k := pow_add 2 _ _
      _ ≤ m * 2 ^ k := Nat.mul_le_mul_right _ (Nat.log2_self_le hm.ne')

theorem packed_round (negative : Bool) {m : ℕ} (hm : 0 < m) (e : ℤ) :
    packed (round Format.binary64 (signOf negative) m e) =
      signed negative (nearestTo (m * 2 ^ e)) := by
  have hroom := decreaseExponent_room hm e (targetExponent_eq (totalExponent m e)).le
  rw [← value_decreaseExponent m e (Format.binary64.targetExponent (totalExponent m e))]
  exact packed_roundWithAccuracy negative (cutOff_exact _) hroom

theorem packed_normalize {n : ℤ} (hn : n ≠ 0) (e : ℤ) (s : Sign) :
    packed (normalize Format.binary64 n e s) =
      signed (decide (n < 0)) (nearestTo (|(n : ℚ)| * 2 ^ e)) := by
  have habs : (n.natAbs : ℚ) = |(n : ℚ)| := by
    rw [Nat.cast_natAbs, Int.cast_abs]
  rw [← habs, Float.Model.UnpackedFloat.normalize]
  rcases lt_or_gt_of_ne hn with hlt | hgt
  · rw [Int.compare_eq_lt.mpr hlt, decide_eq_true hlt, show n.natAbs = (-n).toNat by omega]
    exact packed_round true (by omega) e
  · rw [Int.compare_eq_gt.mpr hgt, decide_eq_false (by omega), show n.natAbs = n.toNat by omega]
    exact packed_round false (by omega) e

end Binary64

end CurveCalc
