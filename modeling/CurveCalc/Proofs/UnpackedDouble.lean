import CurveCalc.Proofs.FloatBits
import CurveCalc.Proofs.Rounding
import Mathlib

/-!
# Doubles as unpacked numbers

Arithmetic on doubles is defined on unpacked numbers: a sign, a significand and an exponent. A sign
and a magnitude stand for the same number, and this file says which (`unpack_signed`), so that what
is known of magnitudes can be said of the results of operations. Packing a number that was unpacked
changes nothing (`packed_unpack`), and packing puts exponent and significand next to each other
(`packed_finite`), as they are in a magnitude.
-/

namespace CurveCalc

namespace Binary64

open Float.Model (Format UnpackedFloat)
open Float.Model.UnpackedFloat

/-! ## Doubles by sign and magnitude -/

/-- The sign of an unpacked number. -/
def signOf (negative : Bool) : Sign := if negative then .negative else .positive

/-- A finite double, unpacked. -/
def unpacked (negative : Bool) (magnitude : ℕ) : UnpackedFloat :=
  if h : magnitude = 0 then .zero (signOf negative)
  else .finite (signOf negative) (significand magnitude) (exponent magnitude)
    (significand_pos (Nat.pos_of_ne_zero h))

/-- The number that arithmetic takes a double for. -/
abbrev unpack (v : Float) : UnpackedFloat := v.toModel.unpack

section Fields

variable {negative : Bool} {magnitude : ℕ}

private theorem toNat_pattern (h : magnitude ≤ infinityMagnitude) :
    (signed negative magnitude).toBits.toBitVec.toNat =
      (if negative then 2 ^ 63 else 0) + magnitude := by
  rw [UInt64.toNat_toBitVec, toNat_toBits_signed negative h, signBit]
  cases negative <;> simp

private theorem unpackSign_signed (h : magnitude ≤ infinityMagnitude) :
    Sign.ofBitVec (@unpackSign Format.binary64 (signed negative magnitude).toBits.toBitVec) =
      signOf negative := by
  have hnat := toNat_unpackSign (signed negative magnitude).toBits.toBitVec
  rw [toNat_pattern h] at hnat
  rw [infinityMagnitude] at h
  cases negative with
  | false =>
    have hzero : @unpackSign Format.binary64 (signed false magnitude).toBits.toBitVec = 0#1 :=
      BitVec.eq_of_toNat_eq (by rw [hnat]; simp; omega)
    rw [hzero]
    rfl
  | true =>
    have hone : @unpackSign Format.binary64 (signed true magnitude).toBits.toBitVec = 1#1 :=
      BitVec.eq_of_toNat_eq (by rw [hnat]; simp; omega)
    rw [hone]
    rfl

private theorem toNat_unpackMantissa_signed (h : magnitude ≤ infinityMagnitude) :
    (@unpackMantissa Format.binary64 (signed negative magnitude).toBits.toBitVec).toNat =
      magnitude % leadingBit := by
  rw [toNat_unpackMantissa, toNat_pattern h, leadingBit]
  split <;> omega

private theorem toNat_unpackExponent_signed (h : magnitude ≤ infinityMagnitude) :
    (@unpackExponent Format.binary64 (signed negative magnitude).toBits.toBitVec).toNat =
      magnitude / leadingBit := by
  rw [toNat_unpackExponent, toNat_pattern h, leadingBit]
  rw [infinityMagnitude] at h
  split <;> omega

end Fields

theorem unpack_nan : unpack nan = .notANumber := rfl

theorem unpack_infinity (negative : Bool) :
    unpack (signed negative infinityMagnitude) = .infinity (signOf negative) := by
  cases negative <;> rfl

theorem unpacked_of_subnormal (negative : Bool) {magnitude : ℕ} (hpos : 0 < magnitude)
    (h : magnitude < leadingBit) :
    unpacked negative magnitude = .finite (signOf negative) magnitude (-1074) hpos := by
  simp only [unpacked, dif_neg hpos.ne', significand, exponent, if_pos h]

theorem unpacked_of_normal (negative : Bool) {magnitude : ℕ} (h : ¬magnitude < leadingBit) :
    unpacked negative magnitude =
      .finite (signOf negative) (magnitude % leadingBit + leadingBit)
        ((magnitude / leadingBit : ℕ) - 1075) (Nat.add_pos_right _ (by decide)) := by
  have hne : magnitude ≠ 0 := by
    rintro rfl
    exact h (by decide)
  simp only [unpacked, dif_neg hne, significand, exponent, if_neg h]

/-- **A finite double is unpacked to its significand and its exponent.** -/
theorem unpack_signed (negative : Bool) {magnitude : ℕ} (h : magnitude < infinityMagnitude) :
    unpack (signed negative magnitude) = unpacked negative magnitude := by
  have hsign := @unpackSign_signed negative magnitude h.le
  have hmantissa := @toNat_unpackMantissa_signed negative magnitude h.le
  have hexponent := @toNat_unpackExponent_signed negative magnitude h.le
  rw [infinityMagnitude] at h
  rw [unpack, Float.Model.unpack, ← Float.toBits, UnpackedFloat.unpack]
  simp only [hsign]
  split
  · -- an exponent field of ones belongs to no finite magnitude
    next hones =>
    rw [hones, leadingBit] at hexponent
    change 2047 = _ at hexponent
    omega
  split
  · -- an exponent field of zeros: the significand field is the magnitude
    next hzeros =>
    rw [hzeros] at hexponent
    have hsub : magnitude < leadingBit := (Nat.div_eq_zero_iff_lt (by decide)).mp hexponent.symm
    rw [Nat.mod_eq_of_lt hsub] at hmantissa
    split
    · next hm =>
      have hzero : magnitude = 0 := by
        rw [← hmantissa, hm]
        rfl
      rw [unpacked, dif_pos hzero]
    · next hm =>
      have hpos : 0 < magnitude := by
        refine Nat.pos_of_ne_zero ?_
        rintro rfl
        exact hm (BitVec.eq_of_toNat_eq hmantissa)
      rw [unpacked_of_subnormal negative hpos hsub, UnpackedFloat.finite.injEq]
      exact ⟨rfl, hmantissa, by rw [hzeros]; rfl⟩
  · -- any other: the leading bit is put back in front of the significand field
    next hne =>
    have hnormal : ¬magnitude < leadingBit := by
      intro hsub
      exact hne (BitVec.eq_of_toNat_eq (hexponent.trans (Nat.div_eq_of_lt hsub)))
    rw [unpacked_of_normal negative hnormal, UnpackedFloat.finite.injEq]
    refine ⟨rfl, ?_, ?_⟩
    · rw [BitVec.toNat_append, ← Nat.shiftLeft_add_eq_or_of_lt (BitVec.isLt _), hmantissa,
        Nat.add_comm]
      rfl
    · rw [hexponent]
      rfl

theorem magnitude_cases {magnitude : ℕ} (h : magnitude ≤ infinityMagnitude) :
    magnitude = 0 ∨ (0 < magnitude ∧ magnitude < infinityMagnitude) ∨
      magnitude = infinityMagnitude := by
  omega

theorem unpack_zero (negative : Bool) : unpack (signed negative 0) = .zero (signOf negative) :=
  unpack_signed negative (by decide : 0 < infinityMagnitude)

theorem unpack_finite (negative : Bool) {magnitude : ℕ} (hpos : 0 < magnitude)
    (h : magnitude < infinityMagnitude) :
    unpack (signed negative magnitude) =
      .finite (signOf negative) (significand magnitude) (exponent magnitude)
        (significand_pos hpos) := by
  rw [unpack_signed negative h, unpacked, dif_neg hpos.ne']

/-! ## Packing -/

/-- The double that an unpacked number is packed to. -/
def packed (u : UnpackedFloat) : Float := Float.ofModel (Float.Model.pack u)

@[simp] theorem packed_unpack (v : Float) : packed (unpack v) = v := ofBits_toBits v

theorem packed_unpacked (negative : Bool) {magnitude : ℕ} (h : magnitude < infinityMagnitude) :
    packed (unpacked negative magnitude) = signed negative magnitude := by
  rw [← unpack_signed negative h, packed_unpack]

theorem packed_infinity (negative : Bool) :
    packed (.infinity (signOf negative)) = signed negative infinityMagnitude := by
  rw [← unpack_infinity, packed_unpack]

theorem packed_nan : packed .notANumber = nan := by
  rw [← unpack_nan, packed_unpack]

theorem packed_zero (negative : Bool) : packed (.zero (signOf negative)) = signed negative 0 :=
  packed_unpacked negative (by decide : 0 < infinityMagnitude)

/-- **Packing puts the exponent and the significand next to each other**, unless they are past the
last finite double. -/
theorem packed_finite (negative : Bool) {n : ℕ} {e : ℤ} (hpos : 0 < n) (hn : n < 2 ^ 53)
    (hlow : -1074 ≤ e) (hfull : e = -1074 ∨ 2 ^ 52 ≤ n) :
    packed (.finite (signOf negative) n e hpos) =
      signed negative (min infinityMagnitude ((e + 1074).toNat * leadingBit + n)) := by
  rcases Nat.lt_or_ge ((e + 1074).toNat * leadingBit + n) infinityMagnitude with hfin | hover
  · rw [min_eq_right hfin.le, ← packed_unpacked negative hfin, unpacked, dif_neg (by omega)]
    simp only [significand_packed hn hfull, exponent_packed hn hlow hfull]
  · have hbiased : 2 ^ 11 ≤ (e + Format.binary64.exponentBias + (52 : ℕ)).toNat + 1 := by
      rw [infinityMagnitude, leadingBit] at hover
      rw [show (Format.binary64.exponentBias : ℤ) = 1023 from rfl]
      omega
    rw [min_eq_left hover, ← packed_infinity, packed, packed, Float.Model.pack, Float.Model.pack]
    congr 3
    exact if_pos hbiased

end Binary64

end CurveCalc
