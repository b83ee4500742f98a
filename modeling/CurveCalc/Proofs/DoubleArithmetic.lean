import CurveCalc.Proofs.DoubleOrder

/-!
# Arithmetic on doubles

A sum, a difference, a product or a quotient of finite doubles is the exact one, rounded once: it is
at the place that the exact result is rounded to (`HasRank.add`, `HasRank.sub`, `HasRank.mul`,
`HasRank.div`). Rounding keeps the order and does not move the values of places, so operations on
doubles keep the order as well.
-/

namespace CurveCalc

namespace Binary64

open Float.Model (Format UnpackedFloat totalExponent)
open Float.Model.UnpackedFloat

variable {a b : Float} {j k : ℤ}

/-! ## Finite doubles -/

/-- A finite double has its place strictly between those of the infinities. -/
def FiniteRank (v : Float) (k : ℤ) : Prop := HasRank v k ∧ k.natAbs < infinityMagnitude

theorem finiteRank_signed (negative : Bool) {magnitude : ℕ} (h : magnitude < infinityMagnitude) :
    FiniteRank (signed negative magnitude) (signedRank negative magnitude) :=
  ⟨.mk negative h.le, by rwa [natAbs_signedRank]⟩

theorem FiniteRank.eq_signed (h : FiniteRank a k) :
    ∃ negative magnitude, magnitude < infinityMagnitude ∧ a = signed negative magnitude ∧
      k = signedRank negative magnitude := by
  obtain ⟨⟨negative, _⟩, hfin⟩ := h
  rw [natAbs_signedRank] at hfin
  exact ⟨negative, _, hfin, rfl, rfl⟩

theorem rankValue_eq_apply (negative : Bool) (magnitude : ℕ) :
    rankValue (signedRank negative magnitude) =
      ((signOf negative).apply (significand magnitude) : ℤ) * 2 ^ exponent magnitude := by
  rw [rankValue_signedRank]
  cases negative with
  | false => rfl
  | true => exact (neg_mul _ _).symm.trans (by rw [← Int.cast_natCast, ← Int.cast_neg]; rfl)

/-! ## Sums -/

theorem add_eq_packed (a b : Float) :
    a + b = packed (UnpackedFloat.add Format.binary64 (unpack a) (unpack b)) := rfl

theorem hasRank_normalize (n e : ℤ) :
    HasRank (packed (normalize Format.binary64 n e .positive)) (roundedRank (n * 2 ^ e)) := by
  have hunit : (0 : ℚ) < 2 ^ e := zpow_pos two_pos e
  rcases eq_or_ne n 0 with rfl | hn
  · have hzero : normalize Format.binary64 0 e .positive = .zero (signOf false) := rfl
    rw [Int.cast_zero, zero_mul, roundedRank_zero, hzero, packed_zero]
    exact hasRank_zero false
  · have hsign : (if decide (n < 0) then -(|(n : ℚ)| * 2 ^ e) else |(n : ℚ)| * 2 ^ e) =
        n * 2 ^ e := by
      split
      · next hneg =>
        rw [abs_of_neg (by exact_mod_cast of_decide_eq_true hneg), neg_mul, neg_neg]
      · next hnonneg =>
        have hn₀ : 0 ≤ n := not_lt.mp (of_decide_eq_false (by simpa using hnonneg))
        rw [abs_of_nonneg (by exact_mod_cast hn₀)]
    rw [packed_normalize hn, ← hsign]
    exact hasRank_nearestTo _ (mul_nonneg (abs_nonneg _) hunit.le)

theorem mul_zpow_of_decreaseExponent (m : ℕ) {e t : ℤ} (h : t ≤ e) :
    ((decreaseExponent m e t).1 : ℚ) * 2 ^ t = m * 2 ^ e := by
  rw [← value_decreaseExponent m e t]
  congr 2
  simp only [decreaseExponent]
  omega

theorem apply_mul_zpow_of_decreaseExponent (s : Sign) (m : ℕ) {e t : ℤ} (h : t ≤ e) :
    ((s.apply (decreaseExponent m e t).1 : ℤ) : ℚ) * 2 ^ t = (s.apply m : ℤ) * 2 ^ e := by
  have hvalue := mul_zpow_of_decreaseExponent m h
  cases s with
  | positive => exact hvalue
  | negative =>
    simp only [Sign.apply, Int.cast_neg, Int.cast_natCast, neg_mul, hvalue]

theorem zero_add_zero (negative negative' : Bool) :
    signed negative 0 + signed negative' 0 = signed (negative && negative') 0 := by
  rw [add_eq_packed, unpack_zero, unpack_zero, ← packed_zero]
  cases negative <;> cases negative' <;> rfl

/-- **A sum of finite doubles is the exact sum, rounded.** -/
theorem HasRank.add (ha : FiniteRank a j) (hb : FiniteRank b k) :
    HasRank (a + b) (roundedRank (rankValue j + rankValue k)) := by
  obtain ⟨negative, m, hm, rfl, rfl⟩ := ha.eq_signed
  obtain ⟨negative', n, hn, rfl, rfl⟩ := hb.eq_signed
  rcases Nat.eq_zero_or_pos m with rfl | hmpos
  · rw [signedRank_zero, rankValue_zero, zero_add, roundedRank_rankValue hb.2.le]
    rcases Nat.eq_zero_or_pos n with rfl | hnpos
    · rw [signedRank_zero, zero_add_zero]
      exact hasRank_zero _
    · rw [add_eq_packed, unpack_zero, unpack_finite _ hnpos hn]
      change HasRank (packed (.finite _ _ _ _)) _
      rw [← unpack_finite _ hnpos hn, packed_unpack]
      exact hb.1
  · rcases Nat.eq_zero_or_pos n with rfl | hnpos
    · rw [signedRank_zero, rankValue_zero, add_zero, roundedRank_rankValue ha.2.le, add_eq_packed,
        unpack_zero, unpack_finite _ hmpos hm]
      change HasRank (packed (.finite _ _ _ _)) _
      rw [← unpack_finite _ hmpos hm, packed_unpack]
      exact ha.1
    · -- at the lower of the two exponents the exact sum is an integer
      rw [add_eq_packed, unpack_finite _ hmpos hm, unpack_finite _ hnpos hn, rankValue_eq_apply,
        rankValue_eq_apply, ← apply_mul_zpow_of_decreaseExponent _ _ (min_le_left _ (exponent n)),
        ← apply_mul_zpow_of_decreaseExponent _ (significand n) (min_le_right (exponent m) _),
        ← add_mul, ← Int.cast_add]
      exact hasRank_normalize _ _

/-! ## Differences -/

theorem sub_eq_add_neg_unpacked (x y : UnpackedFloat) :
    UnpackedFloat.sub Format.binary64 x y = UnpackedFloat.add Format.binary64 x y.neg := by
  cases x with
  | notANumber => cases y <;> rfl
  | infinity s => cases y <;> rfl
  | zero s => cases y <;> rfl
  | finite s m e hm =>
    cases y with
    | notANumber => rfl
    | infinity s' => rfl
    | zero s' => rfl
    | finite s' n e' hn =>
      have hsign : ∀ i : ℕ, s.apply (decreaseExponent m e (min e e')).1 - s'.apply i =
          s.apply (decreaseExponent m e (min e e')).1 + (-s').apply i := by
        intro i
        cases s' with
        | positive => exact sub_eq_add_neg _ (i : ℤ)
        | negative => exact sub_neg_eq_add _ (i : ℤ)
      simp only [UnpackedFloat.sub, UnpackedFloat.add, UnpackedFloat.neg, hsign]

theorem unpack_neg_signed (negative : Bool) {magnitude : ℕ} (h : magnitude ≤ infinityMagnitude) :
    unpack (-signed negative magnitude) = (unpack (signed negative magnitude)).neg := by
  have hsign : signOf (!negative) = -signOf negative := by cases negative <;> rfl
  rw [neg_signed negative h]
  rcases magnitude_cases h with rfl | ⟨hpos, hfin⟩ | rfl
  · rw [unpack_zero, unpack_zero, hsign]
    rfl
  · simp only [unpack_finite _ hpos hfin, hsign]
    rfl
  · rw [unpack_infinity, unpack_infinity, hsign]
    rfl

theorem FiniteRank.neg (h : FiniteRank a k) : FiniteRank (-a) (-k) := by
  obtain ⟨negative, m, hm, rfl, rfl⟩ := h.eq_signed
  have hrank : -signedRank negative m = signedRank (!negative) m := by
    cases negative <;> simp [signedRank]
  rw [neg_signed negative hm.le, hrank]
  exact finiteRank_signed _ hm

theorem sub_eq_packed (a b : Float) :
    a - b = packed (UnpackedFloat.sub Format.binary64 (unpack a) (unpack b)) := rfl

theorem sub_signed (a : Float) (negative : Bool) {n : ℕ} (hn : n ≤ infinityMagnitude) :
    a - signed negative n = a + signed (!negative) n := by
  rw [← neg_signed negative hn, add_eq_packed, unpack_neg_signed negative hn,
    ← sub_eq_add_neg_unpacked, sub_eq_packed]

/-- **A difference of finite doubles is the exact difference, rounded.** -/
theorem HasRank.sub (ha : FiniteRank a j) (hb : FiniteRank b k) :
    HasRank (a - b) (roundedRank (rankValue j - rankValue k)) := by
  have hopposite := HasRank.add ha hb.neg
  obtain ⟨negative, n, hn, rfl, rfl⟩ := hb.eq_signed
  rw [rankValue_neg, neg_signed negative hn.le] at hopposite
  rwa [sub_signed a negative hn.le, sub_eq_add_neg]

/-! ## Products -/

theorem signOf_mul (negative negative' : Bool) :
    signOf negative * signOf negative' = signOf (negative ^^ negative') := by
  cases negative <;> cases negative' <;> rfl

theorem mul_eq_packed (a b : Float) :
    a * b = packed (UnpackedFloat.mul Format.binary64 (unpack a) (unpack b)) := rfl

theorem double_mul_comm (a b : Float) : a * b = b * a := by
  have hsign : ∀ s s' : UnpackedFloat.Sign, s * s' = s' * s := by
    intro s s'
    cases s <;> cases s' <;> rfl
  rw [mul_eq_packed, mul_eq_packed]
  congr 1
  cases unpack a <;> cases unpack b <;>
    simp only [UnpackedFloat.mul, hsign, Nat.mul_comm, Int.add_comm]

theorem mul_room {m n : ℕ} (hm : 0 < m) (hn : 0 < n) :
    exponent m + exponent n ≤ -1074 ∨ 2 ^ 52 ≤ significand m * significand n := by
  have hm' := significand_pos hm
  have hn' := significand_pos hn
  rcases exponent_eq_or_le_significand m with hlow | hlong
  · rcases exponent_eq_or_le_significand n with hlow' | hlong'
    · left
      omega
    · exact Or.inr (hlong'.trans (Nat.le_mul_of_pos_left _ hm'))
  · exact Or.inr (hlong.trans (Nat.le_mul_of_pos_right _ hn'))

/-- **A product of finite doubles is the exact product, rounded**, and its sign is that of the
product. -/
theorem signed_mul_signed (negative negative' : Bool) {m n : ℕ} (hm : m < infinityMagnitude)
    (hn : n < infinityMagnitude) :
    signed negative m * signed negative' n =
      signed (negative ^^ negative') (nearestTo (value m * value n)) := by
  have hvalue : value m * value n =
      (significand m * significand n : ℕ) * 2 ^ (exponent m + exponent n) := by
    rw [value, value, zpow_add₀ two_ne_zero]
    push_cast
    ring
  rw [mul_eq_packed]
  rcases Nat.eq_zero_or_pos m with rfl | hmpos
  · rw [value_zero, zero_mul, nearestTo_zero, unpack_zero, ← packed_zero, ← signOf_mul]
    rcases Nat.eq_zero_or_pos n with rfl | hnpos
    · rw [unpack_zero]
      rfl
    · rw [unpack_finite _ hnpos hn]
      rfl
  · rcases Nat.eq_zero_or_pos n with rfl | hnpos
    · rw [value_zero, mul_zero, nearestTo_zero, unpack_zero, unpack_finite _ hmpos hm,
        ← packed_zero, ← signOf_mul]
      rfl
    · rw [unpack_finite _ hmpos hm, unpack_finite _ hnpos hn, hvalue,
        ← packed_roundWithAccuracy _ (cutOff_exact _) (mul_room hmpos hnpos), ← signOf_mul]
      rfl

theorem zero_mul_signed (negative negative' : Bool) {m : ℕ} (hm : m < infinityMagnitude) :
    signed negative 0 * signed negative' m = signed (negative ^^ negative') 0 := by
  rw [signed_mul_signed negative negative' (by decide) hm, value_zero, zero_mul,
    nearestTo_zero]

theorem HasRank.mul (ha : FiniteRank a j) (hb : FiniteRank b k) :
    HasRank (a * b) (roundedRank (rankValue j * rankValue k)) := by
  obtain ⟨negative, m, hm, rfl, rfl⟩ := ha.eq_signed
  obtain ⟨negative', n, hn, rfl, rfl⟩ := hb.eq_signed
  have hsign : rankValue (signedRank negative m) * rankValue (signedRank negative' n) =
      if negative ^^ negative' then -(value m * value n) else value m * value n := by
    rw [rankValue_signedRank, rankValue_signedRank]
    cases negative <;> cases negative' <;> simp
  rw [signed_mul_signed _ _ hm hn, hsign]
  exact hasRank_nearestTo _ (mul_nonneg (value_nonneg m) (value_nonneg n))

/-! ## Quotients -/

theorem signOf_div (negative negative' : Bool) :
    signOf negative / signOf negative' = signOf (negative ^^ negative') := by
  cases negative <;> cases negative' <;> rfl

theorem div_eq_packed (a b : Float) :
    a / b = packed (UnpackedFloat.div Format.binary64 (unpack a) (unpack b)) := rfl

/-- What is left of a quotient: its integer part, a remainder over the divisor, and an exponent. -/
theorem divCore_eq (m : ℕ) (e : ℤ) (n : ℕ) (e' : ℤ) :
    ∃ (t : ℤ) (dividend : ℕ), divCore Format.binary64 m e n e' =
        (dividend / n, t, accuracyOfFraction (dividend % n) n) ∧
      dividend = (decreaseExponent m (e - e') t).1 ∧
      t = min (e - e') (max (totalExponent m e - totalExponent n e' - 53) (-1074)) :=
  ⟨_, _, rfl, rfl, rfl⟩

theorem div_room {m n : ℕ} (hm : 0 < m) (hn : 0 < n) {e e' t : ℤ}
    (ht : t = min (e - e') (max (totalExponent m e - totalExponent n e' - 53) (-1074))) :
    t ≤ -1074 ∨ 2 ^ 52 ≤ (decreaseExponent m (e - e') t).1 / n := by
  rw [totalExponent, totalExponent] at ht
  by_cases hend : t ≤ -1074
  · exact Or.inl hend
  · right
    rw [Nat.le_div_iff_mul_le hn, decreaseExponent, Nat.shiftLeft_eq]
    calc 2 ^ 52 * n ≤ 2 ^ 52 * 2 ^ (n.log2 + 1) :=
          Nat.mul_le_mul_left _ (Nat.le_of_lt Nat.lt_log2_self)
      _ = 2 ^ (52 + (n.log2 + 1)) := (pow_add 2 _ _).symm
      _ ≤ 2 ^ (m.log2 + (e - e' - t).toNat) := Nat.pow_le_pow_right two_pos (by omega)
      _ = 2 ^ m.log2 * 2 ^ (e - e' - t).toNat := pow_add 2 _ _
      _ ≤ m * 2 ^ (e - e' - t).toNat := Nat.mul_le_mul_right _ (Nat.log2_self_le hm.ne')

/-- **A quotient of finite doubles is the exact quotient, rounded**, and its sign is that of the
quotient. The divisor is not zero. -/
theorem signed_div_signed (negative negative' : Bool) {m n : ℕ} (hm : m < infinityMagnitude)
    (hnpos : 0 < n) (hn : n < infinityMagnitude) :
    signed negative m / signed negative' n =
      signed (negative ^^ negative') (nearestTo (value m / value n)) := by
  rw [div_eq_packed, unpack_finite _ hnpos hn]
  rcases Nat.eq_zero_or_pos m with rfl | hmpos
  · rw [value_zero, zero_div, nearestTo_zero, unpack_zero, ← packed_zero, ← signOf_div]
    rfl
  · have hsig := significand_pos hnpos
    obtain ⟨t, dividend, hcore, hdividend, ht⟩ := divCore_eq (significand m) (exponent m)
      (significand n) (exponent n)
    -- the quotient of integers is long enough to be rounded, whatever the remainder is
    have hroom := div_room (significand_pos hmpos) hsig ht
    have hcut := cutOff_fraction (dividend / significand n) (Nat.mod_lt dividend hsig)
    have hvalue : (((dividend / significand n : ℕ) : ℚ) +
        (dividend % significand n : ℕ) / significand n) * 2 ^ t = value m / value n := by
      have hmoved := mul_zpow_of_decreaseExponent (significand m)
        (ht.le.trans (min_le_left (exponent m - exponent n) _))
      have hsplit : ((dividend / significand n : ℕ) : ℚ) +
          (dividend % significand n : ℕ) / significand n = dividend / significand n := by
        rw [add_div' _ _ _ (Nat.cast_ne_zero.mpr hsig.ne')]
        congr 1
        exact_mod_cast Nat.div_add_mod' dividend (significand n)
      rw [hsplit, div_mul_eq_mul_div, hdividend, hmoved, value, value, zpow_sub₀ two_ne_zero]
      field_simp
    rw [← hdividend] at hroom
    rw [unpack_finite _ hmpos hm, ← hvalue, ← packed_roundWithAccuracy _ hcut hroom, ← signOf_div]
    simp only [UnpackedFloat.div, hcore]

theorem zero_div_signed (negative negative' : Bool) {m : ℕ} (hpos : 0 < m)
    (hm : m < infinityMagnitude) :
    signed negative 0 / signed negative' m = signed (negative ^^ negative') 0 := by
  rw [signed_div_signed negative negative' (by decide) hpos hm, value_zero, zero_div,
    nearestTo_zero]

theorem HasRank.div (ha : FiniteRank a j) (hb : FiniteRank b k) (hk : k ≠ 0) :
    HasRank (a / b) (roundedRank (rankValue j / rankValue k)) := by
  obtain ⟨negative, m, hm, rfl, rfl⟩ := ha.eq_signed
  obtain ⟨negative', n, hn, rfl, rfl⟩ := hb.eq_signed
  have hpos : 0 < n := by
    rcases Nat.eq_zero_or_pos n with rfl | hpos
    · exact absurd (signedRank_zero negative') hk
    · exact hpos
  have hsign : rankValue (signedRank negative m) / rankValue (signedRank negative' n) =
      if negative ^^ negative' then -(value m / value n) else value m / value n := by
    rw [rankValue_signedRank, rankValue_signedRank]
    cases negative <;> cases negative' <;> simp [neg_div, div_neg]
  rw [signed_div_signed _ _ hm hpos hn, hsign]
  exact hasRank_nearestTo _ (div_nonneg (value_nonneg m) (value_nonneg n))

/-! ## Infinities -/

theorem FiniteRank.isFinite (h : FiniteRank a k) : IsFinite a := by
  obtain ⟨negative, m, hm, rfl, rfl⟩ := h.eq_signed
  exact ⟨negative, m, shape_signed hm⟩

section Nan

variable (a : Float) (negative negative' : Bool)

@[simp] theorem nan_add : nan + a = nan := by
  rw [add_eq_packed, unpack_nan, ← packed_nan]
  rfl

@[simp] theorem add_nan : a + nan = nan := by
  rw [add_eq_packed, unpack_nan, ← packed_nan]
  cases unpack a <;> rfl

@[simp] theorem nan_sub : nan - a = nan := by
  rw [sub_eq_packed, unpack_nan, ← packed_nan]
  rfl

@[simp] theorem sub_nan : a - nan = nan := by
  rw [sub_eq_packed, unpack_nan, ← packed_nan]
  cases unpack a <;> rfl

@[simp] theorem nan_mul : nan * a = nan := by
  rw [mul_eq_packed, unpack_nan, ← packed_nan]
  rfl

@[simp] theorem mul_nan : a * nan = nan := by
  rw [mul_eq_packed, unpack_nan, ← packed_nan]
  cases unpack a <;> rfl

@[simp] theorem nan_div : nan / a = nan := by
  rw [div_eq_packed, unpack_nan, ← packed_nan]
  rfl

@[simp] theorem div_nan : a / nan = nan := by
  rw [div_eq_packed, unpack_nan, ← packed_nan]
  cases unpack a <;> rfl

theorem zero_mul_infinity : signed negative 0 * signed negative' infinityMagnitude = nan := by
  rw [mul_eq_packed, unpack_zero, unpack_infinity, ← packed_nan]
  rfl

theorem zero_div_zero : signed negative 0 / signed negative' 0 = nan := by
  rw [div_eq_packed, unpack_zero, unpack_zero, ← packed_nan]
  rfl

theorem zero_div_infinity :
    signed negative 0 / signed negative' infinityMagnitude = signed (negative ^^ negative') 0 := by
  rw [div_eq_packed, unpack_zero, unpack_infinity, ← packed_zero, ← signOf_div]
  rfl

end Nan

/-! ## Integers -/

theorem ceil_natCast_div (m : ℕ) {n : ℕ} (hn : 0 < n) : ⌈(m / n : ℚ)⌉₊ = (m + n - 1) / n := by
  rw [← Nat.ceilDiv_eq_add_pred_div]
  refine eq_of_forall_ge_iff fun c ↦ ?_
  rw [Nat.ceil_le, div_le_iff₀ (by exact_mod_cast hn), ceilDiv_le_iff_le_mul hn, mul_comm]
  exact_mod_cast Iff.rfl

/-- **The integer part of a double is rounded to its place.** -/
theorem FiniteRank.floor (h : FiniteRank a k) : HasRank (floor a) (roundedRank ⌊rankValue k⌋) := by
  obtain ⟨negative, m, hm, rfl, rfl⟩ := h.eq_signed
  have hden := fraction_snd_pos m
  simp only [Binary64.floor, shape_signed hm, nearestMagnitude_eq_nearestTo one_pos, Nat.cast_one,
    div_one]
  convert hasRank_nearestTo negative (Nat.cast_nonneg _) using 2
  rw [rankValue_signedRank, ← fraction_eq_value]
  cases negative with
  | false =>
    simp only [Bool.false_eq_true, if_false]
    rw [Rat.floor_natCast_div_natCast]
    norm_cast
  | true =>
    simp only [if_true]
    have hnonneg : (0 : ℚ) ≤ (fraction m).1 / (fraction m).2 := by positivity
    rw [Int.floor_neg, ← Int.natCast_ceil_eq_ceil hnonneg, ceil_natCast_div _ hden]
    norm_cast

end Binary64

end CurveCalc
