import CurveCalc.Proofs.NearestMagnitude

/-!
# Rounding twice

A number is cut off after its first digits, what is left is rounded to 53 bits, and the result is
scaled and rounded to a magnitude. The second rounding may be coarser than the first, since the
scale of magnitudes ends at its lower end before the bits do.

If the second rounding is as fine as the first, it changes nothing, and the cut number is the one
that decides; if it is coarser, the halfway points of the coarse scale lie on the fine one, and the
number rounded to 53 bits decides. Either way the deciding number stays on the side of the halfway
point that the whole number is on, or comes to lie on the halfway point itself (`Tracks`). So the
outcome is wrong exactly where a halfway point was reached that the number is not at, and evenness
then takes the wrong neighbour (`nearestTo_roundedStart_eq_iff`).
-/

namespace CurveCalc

namespace Binary64

/-! ## Sides of a halfway point -/

/-- `x` is on the side of `h` that `v` is on, or at `h`. -/
structure Tracks (h x v : ℚ) : Prop where
  below : v < h → x ≤ h
  above : h < v → h ≤ x
  at_point : v = h → x = h

/-- Evenness takes the halfway point to the neighbour that is farther from `v`. -/
def TieMisleads (v : ℚ) (m : ℕ) : Prop :=
  halfway m < v ∧ Even m ∨ v < halfway m ∧ ¬Even m

variable {m : ℕ} {v x : ℚ}

theorem nearer_halfway_of_even (h : Even m) : nearer (halfway m) m = m := by
  rw [nearer_halfway, Nat.even_iff.mp h, Nat.add_zero]

theorem nearer_halfway_of_not_even (h : ¬Even m) : nearer (halfway m) m = m + 1 := by
  rw [nearer_halfway, Nat.not_even_iff.mp h]

theorem Tracks.nearer_eq_iff (h : Tracks (halfway m) x v) :
    nearer x m = nearer v m ↔ ¬(x = halfway m ∧ TieMisleads v m) := by
  rw [TieMisleads]
  rcases lt_trichotomy v (halfway m) with hlt | heq | hgt
  · rw [nearer_of_lt hlt]
    rcases lt_or_eq_of_le (h.below hlt) with hx | hx
    · simp [nearer_of_lt hx, hx.ne]
    · by_cases heven : Even m
      · simp [hx, nearer_halfway_of_even heven, heven, hlt.not_gt]
      · simp [hx, nearer_halfway_of_not_even heven, heven, hlt]
  · simp [h.at_point heq, heq]
  · rw [nearer_of_gt hgt]
    rcases lt_or_eq_of_le (h.above hgt) with hx | hx
    · simp [nearer_of_gt hx, hx.ne']
    · by_cases heven : Even m
      · simp [← hx, nearer_halfway_of_even heven, heven, hgt]
      · simp [← hx, nearer_halfway_of_not_even heven, heven, hgt.not_gt]

/-! ## Multiples of a finer unit -/

theorem exists_multiples {m : ℕ} {e : ℤ} (h : e < exponent m) :
    (∃ n : ℕ, value m = n * 2 ^ e) ∧
      (∃ n : ℕ, halfway m = n * 2 ^ e) ∧
        ∃ n : ℕ, value (m + 1) = n * 2 ^ e := by
  obtain ⟨k, hk⟩ : ∃ k : ℕ, (2 : ℚ) ^ exponent m = 2 * k * 2 ^ e := by
    refine ⟨2 ^ (exponent m - 1 - e).toNat, ?_⟩
    push_cast
    rw [← zpow_natCast, Int.toNat_of_nonneg (by omega), ← zpow_one_add₀ two_ne_zero,
      ← zpow_add₀ two_ne_zero]
    congr 1
    omega
  refine ⟨⟨significand m * (2 * k), ?_⟩, ⟨(2 * significand m + 1) * k, ?_⟩,
    ⟨(significand m + 1) * (2 * k), ?_⟩⟩
  · rw [value, hk]
    push_cast
    ring
  · rw [halfway_eq, hk]
    push_cast
    ring
  · rw [value_succ, value, hk]
    push_cast
    ring

/-- Between two multiples of a unit in sequence there is none. -/
theorem le_or_le_of_multiple {k : ℕ} {e : ℤ} {x : ℚ} (hx : ∃ n : ℕ, x = n * 2 ^ e) :
    x ≤ k * 2 ^ e ∨ (k + 1) * 2 ^ e ≤ x := by
  have hunit : (0 : ℚ) < 2 ^ e := zpow_pos two_pos e
  obtain ⟨n, rfl⟩ := hx
  rcases Nat.lt_or_ge k n with hlt | hge
  · right
    refine mul_le_mul_of_nonneg_right ?_ hunit.le
    exact_mod_cast hlt
  · left
    refine mul_le_mul_of_nonneg_right ?_ hunit.le
    exact_mod_cast hge

/-! ## The two roundings -/

/-- A number `v` that starts with `p`, which has more than 53 bits, scaled by a power of two; the
neighbours of `p` are `a` and the next magnitude, and those of `v` are `m` and the next. -/
structure StartsWith (v : ℚ) (m p a : ℕ) (t : ℤ) : Prop where
  lower : p * 2 ^ t ≤ v
  upper : v < (p + 1) * 2 ^ t
  many_bits : 2 ^ 53 ≤ p
  finite_start : a < infinityMagnitude
  start_lower : value a ≤ p
  start_upper : p < value (a + 1)
  finite : m < infinityMagnitude
  neighbour_lower : value m < v
  neighbour_upper : v < value (m + 1)

/-- What `p` is rounded to, at its place. -/
def roundedStart (p : ℕ) (t : ℤ) : ℚ := value (nearestTo p) * 2 ^ t

namespace StartsWith

variable {p a : ℕ} {t : ℤ}

theorem exponent_pos (h : StartsWith v m p a t) : 0 < exponent a := by
  have hlt : (2 : ℚ) ^ (53 : ℤ) < 2 ^ (exponent a + 53) := by
    calc (2 : ℚ) ^ (53 : ℤ) ≤ p := by exact_mod_cast h.many_bits
      _ < value (a + 1) := h.start_upper
      _ ≤ 2 ^ (exponent a + 53) := value_succ_le a
  rw [zpow_lt_zpow_iff_right₀ one_lt_two] at hlt
  omega

theorem exists_unit (h : StartsWith v m p a t) : ∃ k : ℕ, (2 : ℚ) ^ exponent a = 2 * (k : ℚ) := by
  have hpos := h.exponent_pos
  refine ⟨2 ^ (exponent a - 1).toNat, ?_⟩
  push_cast
  rw [← zpow_natCast, ← zpow_one_add₀ two_ne_zero]
  congr 1
  omega

theorem succ_le (h : StartsWith v m p a t) : (p : ℚ) + 1 ≤ value (a + 1) := by
  obtain ⟨k, hk⟩ := h.exists_unit
  have hupper := h.start_upper
  rw [value_succ, value, hk] at hupper ⊢
  exact_mod_cast hupper

theorem unit_pos (a : ℕ) (t : ℤ) : (0 : ℚ) < 2 ^ (exponent a + t) := zpow_pos two_pos _

theorem value_mul_zpow (a : ℕ) (t : ℤ) :
    value a * 2 ^ t = significand a * 2 ^ (exponent a + t) := by
  rw [value, mul_assoc, ← zpow_add₀ two_ne_zero]

theorem value_succ_mul_zpow (a : ℕ) (t : ℤ) :
    value (a + 1) * 2 ^ t = (significand a + 1) * 2 ^ (exponent a + t) := by
  rw [value_succ, add_mul, value_mul_zpow, ← zpow_add₀ two_ne_zero, add_one_mul]

theorem unit_bounds (h : StartsWith v m p a t) :
    significand a * 2 ^ (exponent a + t) ≤ v ∧ v < (significand a + 1) * 2 ^ (exponent a + t) := by
  have hplace : (0 : ℚ) < 2 ^ t := zpow_pos two_pos t
  rw [← value_mul_zpow, ← value_succ_mul_zpow]
  constructor
  · exact (mul_le_mul_of_nonneg_right h.start_lower hplace.le).trans h.lower
  · exact h.upper.trans_le (mul_le_mul_of_nonneg_right h.succ_le hplace.le)

/-- The second rounding is no finer than the first. -/
theorem exponent_add_le (h : StartsWith v m p a t) : exponent a + t ≤ exponent m := by
  have hnormal : leadingBit ≤ a := by
    by_contra hsub
    have hexp : exponent a = -1074 := if_pos (Nat.not_le.mp hsub)
    have hpos := h.exponent_pos
    omega
  have hlt : (2 : ℚ) ^ (exponent a + 52 + t) < 2 ^ (exponent m + 53) := by
    calc (2 : ℚ) ^ (exponent a + 52 + t)
      _ = 2 ^ (exponent a + 52) * 2 ^ t := zpow_add₀ two_ne_zero _ _
      _ ≤ value a * 2 ^ t := mul_le_mul_of_nonneg_right (le_value hnormal) (zpow_pos two_pos t).le
      _ ≤ v := by
        rw [value_mul_zpow]
        exact h.unit_bounds.1
      _ < value (m + 1) := h.neighbour_upper
      _ ≤ 2 ^ (exponent m + 53) := value_succ_le m
  rw [zpow_lt_zpow_iff_right₀ one_lt_two] at hlt
  omega

theorem roundedStart_eq (h : StartsWith v m p a t) :
    roundedStart p t = value (nearer p a) * 2 ^ t := by
  rw [roundedStart, nearestTo_eq_nearer h.finite_start h.start_lower h.start_upper]

theorem roundedStart_bounds (h : StartsWith v m p a t) :
    significand a * 2 ^ (exponent a + t) ≤ roundedStart p t ∧
      roundedStart p t ≤ (significand a + 1) * 2 ^ (exponent a + t) := by
  have hunit := unit_pos a t
  rw [h.roundedStart_eq]
  rcases nearer_eq_or p a with heq | heq <;> rw [heq]
  · rw [value_mul_zpow]
    exact ⟨le_rfl, by linarith⟩
  · rw [value_succ_mul_zpow]
    exact ⟨by linarith, le_rfl⟩

theorem roundedStart_of_le (h : StartsWith v m p a t)
    (hle : (p : ℚ) * 2 ^ t ≤ significand a * 2 ^ (exponent a + t)) :
    roundedStart p t = p * 2 ^ t := by
  have hplace : (0 : ℚ) < 2 ^ t := zpow_pos two_pos t
  rw [← value_mul_zpow] at hle
  have hvalue : (p : ℚ) = value a :=
    le_antisymm (le_of_mul_le_mul_right hle hplace) h.start_lower
  rw [roundedStart, hvalue, nearestTo_value h.finite_start.le]

/-! ### Equal units -/

section Fine

variable (h : StartsWith v m p a t) (hfine : exponent m = exponent a + t)

include h hfine

theorem significand_eq : significand m = significand a := by
  obtain ⟨hlow, hhigh⟩ := h.unit_bounds
  have hlow' := h.neighbour_lower
  have hhigh' := h.neighbour_upper
  have hunit := unit_pos a t
  rw [value_succ, value, hfine, ← add_one_mul] at hhigh'
  rw [value, hfine] at hlow'
  have h1 : (significand m : ℚ) < significand a + 1 :=
    lt_of_mul_lt_mul_right (hlow'.trans hhigh) hunit.le
  have h2 : (significand a : ℚ) < significand m + 1 :=
    lt_of_mul_lt_mul_right (hlow.trans_lt hhigh') hunit.le
  have h3 : significand m < significand a + 1 := by exact_mod_cast h1
  have h4 : significand a < significand m + 1 := by exact_mod_cast h2
  omega

theorem halfway_fine : halfway m = halfway a * 2 ^ t := by
  rw [halfway_eq, halfway_eq, h.significand_eq hfine, hfine, mul_assoc, ← zpow_add₀ two_ne_zero]

/-- Neighbours of the start go to neighbours of the number, halves to halves. -/
theorem nearer_fine :
    nearer (p * 2 ^ t) m = m + (nearer p a - a) ∧ nearer p a - a ≤ 1 ∧ a ≤ nearer p a := by
  have hplace : (0 : ℚ) < 2 ^ t := zpow_pos two_pos t
  have hparity : m % 2 = a % 2 := by
    have hm := exponent_significand m
    have ha := exponent_significand a
    rw [h.significand_eq hfine, leadingBit] at hm
    rw [leadingBit] at ha
    omega
  simp only [nearer, h.halfway_fine hfine, mul_lt_mul_iff_left₀ hplace, hparity]
  split
  · omega
  · split <;> omega

theorem tracks_fine : Tracks (halfway m) (p * 2 ^ t) v := by
  have hplace : (0 : ℚ) < 2 ^ t := zpow_pos two_pos t
  obtain ⟨k, hk⟩ := h.exists_unit
  -- the halfway point of the start is a whole number
  have hwhole : halfway a = ((2 * significand a + 1) * k : ℕ) := by
    rw [halfway_eq, hk]
    push_cast
    ring
  have hpast : p * 2 ^ t < halfway m → v < halfway m := by
    intro hlt
    rw [h.halfway_fine hfine, hwhole] at hlt ⊢
    have hlt' : p < (2 * significand a + 1) * k := by
      exact_mod_cast lt_of_mul_lt_mul_right hlt hplace.le
    refine h.upper.trans_le (mul_le_mul_of_nonneg_right ?_ hplace.le)
    exact_mod_cast hlt'
  refine ⟨fun hlt ↦ h.lower.trans hlt.le, fun hgt ↦ ?_, fun heq ↦ ?_⟩
  · by_contra hlt
    exact absurd (hpast (not_le.mp hlt)) hgt.not_gt
  · refine le_antisymm (heq ▸ h.lower) (not_lt.mp fun hlt ↦ ?_)
    exact absurd heq (hpast hlt).ne

/-- A start that was rounded is not rounded again. -/
theorem nearestTo_fine :
    nearestTo (roundedStart p t) = nearer (p * 2 ^ t) m ∧ roundedStart p t ≠ halfway m := by
  have hfin := h.finite
  obtain ⟨hnearer, hone, hle⟩ := h.nearer_fine hfine
  have hvalue : roundedStart p t = value (m + (nearer p a - a)) := by
    rw [h.roundedStart_eq]
    rcases nearer_eq_or p a with heq | heq <;> rw [heq]
    · rw [Nat.sub_self, Nat.add_zero, value_mul_zpow, value, h.significand_eq hfine, hfine]
    · rw [Nat.add_sub_cancel_left, value_succ_mul_zpow, value_succ, value,
        h.significand_eq hfine, hfine, add_one_mul]
  rw [hvalue, hnearer]
  refine ⟨nearestTo_value (by omega), ?_⟩
  rcases Nat.le_one_iff_eq_zero_or_eq_one.mp hone with hzero | hone
  · rw [hzero, Nat.add_zero]
    exact (value_lt_halfway m).ne
  · rw [hone]
    exact (halfway_lt_value_succ m).ne'

end Fine

/-! ### A coarser unit -/

section Coarse

variable (h : StartsWith v m p a t) (hcoarse : exponent a + t < exponent m)

include h hcoarse

theorem nearestTo_coarse : nearestTo (roundedStart p t) = nearer (roundedStart p t) m := by
  obtain ⟨hlow, -, hhigh⟩ := exists_multiples hcoarse
  obtain ⟨hstart, hstart'⟩ := h.unit_bounds
  obtain ⟨hround, hround'⟩ := h.roundedStart_bounds
  refine nearestTo_eq_nearer_of_le h.finite ?_ ?_
  · rcases le_or_le_of_multiple (k := significand a) hlow with hle | hle
    · exact hle.trans hround
    · exact absurd h.neighbour_lower (hstart'.trans_le hle).not_gt
  · rcases le_or_le_of_multiple (k := significand a) hhigh with hle | hle
    · exact absurd h.neighbour_upper (hle.trans hstart).not_gt
    · exact hround'.trans hle

theorem tracks_coarse : Tracks (halfway m) (roundedStart p t) v := by
  obtain ⟨-, hhalf, -⟩ := exists_multiples hcoarse
  obtain ⟨hstart, hstart'⟩ := h.unit_bounds
  obtain ⟨hround, hround'⟩ := h.roundedStart_bounds
  rcases le_or_le_of_multiple (k := significand a) hhalf with hle | hle
  · refine ⟨fun hlt ↦ ?_, fun _ ↦ hle.trans hround, fun heq ↦ ?_⟩
    · exact absurd hlt (hle.trans hstart).not_gt
    · rw [h.roundedStart_of_le (h.lower.trans (heq.le.trans hle))]
      refine le_antisymm (heq ▸ h.lower) (hle.trans ?_)
      rw [← value_mul_zpow]
      exact mul_le_mul_of_nonneg_right h.start_lower (zpow_pos two_pos t).le
  · refine ⟨fun _ ↦ hround'.trans hle, fun hgt ↦ ?_, fun heq ↦ ?_⟩
    · exact absurd hgt (hstart'.trans_le hle).not_gt
    · exact absurd heq (hstart'.trans_le hle).ne

theorem roundedStart_of_cut (heq : p * 2 ^ t = halfway m) : roundedStart p t = halfway m := by
  obtain ⟨-, hhalf, -⟩ := exists_multiples hcoarse
  rcases le_or_le_of_multiple (k := significand a) hhalf with hle | hle
  · rw [h.roundedStart_of_le (heq.le.trans hle), heq]
  · exact absurd (h.lower.trans_lt (h.unit_bounds.2.trans_le hle)) heq.not_lt

end Coarse

/-- **Where rounding twice is rounding once**: everywhere, except where the cut number or the
rounded one is at the halfway point, the number itself is not, and evenness takes the farther
neighbour. -/
theorem nearestTo_roundedStart_eq_iff (h : StartsWith v m p a t) :
    nearestTo (roundedStart p t) = nearer v m ↔
      ¬((p * 2 ^ t = halfway m ∨ roundedStart p t = halfway m) ∧ TieMisleads v m) := by
  rcases lt_or_eq_of_le h.exponent_add_le with hcoarse | hfine
  · rw [h.nearestTo_coarse hcoarse, (h.tracks_coarse hcoarse).nearer_eq_iff,
      or_iff_right_of_imp (h.roundedStart_of_cut hcoarse)]
  · obtain ⟨hnearest, hne⟩ := h.nearestTo_fine hfine.symm
    rw [hnearest, (h.tracks_fine hfine.symm).nearer_eq_iff, or_iff_left hne]

/-- Rounding twice leads to one of the neighbours all the same. -/
theorem nearestTo_eq_or (h : StartsWith v m p a t) :
    nearestTo (roundedStart p t) = m ∨ nearestTo (roundedStart p t) = m + 1 := by
  rcases lt_or_eq_of_le h.exponent_add_le with hcoarse | hfine
  · rw [h.nearestTo_coarse hcoarse]
    exact nearer_eq_or _ _
  · rw [(h.nearestTo_fine hfine.symm).1]
    exact nearer_eq_or _ _

end StartsWith

end Binary64

end CurveCalc
