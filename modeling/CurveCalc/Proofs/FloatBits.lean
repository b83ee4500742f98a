import CurveCalc.Number.Binary64
import Mathlib

/-!
# The bits of a double

A double is determined by its bit pattern, and a pattern is that of one double unless it stands for
NaN, of which there is one only. So the sign and the magnitude that `Binary64.shape` takes off a
double give the double back: `shape` and `signed` are inverse to each other. All that is said here
about the layout of a pattern is that it is a sign, an exponent field and a mantissa field.
-/

namespace CurveCalc

namespace Binary64

open Float.Model (Format)
open Float.Model.UnpackedFloat

/-! ## The fields of a pattern -/

private theorem toNat_packComponents (s : Sign) (x : BitVec 11) (m : BitVec 52) :
    (packComponents Format.binary64 s x m).toNat =
      s.toBitVec.toNat * 2 ^ 63 + x.toNat * 2 ^ 52 + m.toNat := by
  rw [packComponents, BitVec.toNat_append, BitVec.toNat_append,
    ← Nat.shiftLeft_add_eq_or_of_lt m.isLt, ← Nat.shiftLeft_add_eq_or_of_lt x.isLt]
  simp only [Nat.shiftLeft_eq]
  omega

theorem toNat_unpackMantissa (b : BitVec 64) :
    (@unpackMantissa Format.binary64 b).toNat = b.toNat % 2 ^ 52 := by
  simp [unpackMantissa]

theorem toNat_unpackExponent (b : BitVec 64) :
    (@unpackExponent Format.binary64 b).toNat = b.toNat / 2 ^ 52 % 2 ^ 11 := by
  simp [unpackExponent, Nat.shiftRight_eq_div_pow]

theorem toNat_unpackSign (b : BitVec 64) :
    (@unpackSign Format.binary64 b).toNat = b.toNat / 2 ^ 63 % 2 := by
  simp [unpackSign, Nat.shiftRight_eq_div_pow]

private theorem packComponents_unpack (b : BitVec 64) :
    packComponents Format.binary64 (Sign.ofBitVec (@unpackSign Format.binary64 b))
      (@unpackExponent Format.binary64 b) (@unpackMantissa Format.binary64 b) = b := by
  have hsign : ∀ s : BitVec 1, (Sign.ofBitVec s).toBitVec = s := by decide
  apply BitVec.eq_of_toNat_eq
  rw [toNat_packComponents, hsign, toNat_unpackMantissa, toNat_unpackExponent, toNat_unpackSign]
  have hlt := b.isLt
  omega

/-! ## Packing what was unpacked -/

private theorem pack_subnormal (s : Sign) (m : BitVec 52) {e : Int} (he : e = -1074)
    (hpos : 0 < m.toNat) :
    pack Format.binary64 (.finite s m.toNat e hpos) =
      packComponents Format.binary64 s 0#11 m := by
  subst he
  have hlog : m.toNat.log2 < 52 := (Nat.log2_lt (Nat.ne_of_gt hpos)).mpr m.isLt
  have hsub : ¬m.toNat.log2 + 1 = 1 + 52 := by omega
  rw [pack]
  refine (if_neg (by decide)).trans ((if_neg hsub).trans ?_)
  rw [BitVec.ofNat_toNat, BitVec.setWidth_eq]

private theorem pack_normal (s : Sign) (x : BitVec 11) (m : BitVec 52) (hx : x ≠ -1#11) {k : Nat}
    {e : Int} (hk : k = 2 ^ 52 + m.toNat) (he : e = (x.toNat : Int) - 1075) (hpos : 0 < k) :
    pack Format.binary64 (.finite s k e hpos) = packComponents Format.binary64 s x m := by
  have hxlt := x.isLt
  have hmlt := m.isLt
  have hxne : x.toNat ≠ 2047 := fun hc ↦ hx (BitVec.eq_of_toNat_eq hc)
  have hlog : k.log2 = 52 := (Nat.log2_eq_iff (by omega)).mpr (by omega)
  have hbiased : (e + Format.binary64.exponentBias + (52 : Nat)).toNat = x.toNat := by
    rw [show (Format.binary64.exponentBias : Int) = 1023 from rfl]
    omega
  have hexp : BitVec.ofNat 11 (e + Format.binary64.exponentBias + (52 : Nat)).toNat = x := by
    rw [hbiased, BitVec.ofNat_toNat, BitVec.setWidth_eq]
  -- the leading bit of the significand is the one that the field has no room for
  have hmant : BitVec.ofNat 52 k = m := by
    apply BitVec.eq_of_toNat_eq
    rw [BitVec.toNat_ofNat]
    omega
  have hfit : ¬2 ^ 11 ≤ (e + Format.binary64.exponentBias + (52 : Nat)).toNat + 1 := by omega
  have hnormal : k.log2 + 1 = 1 + 52 := by omega
  rw [pack]
  refine (if_neg hfit).trans ((if_pos hnormal).trans ?_)
  exact congr (congrArg (packComponents Format.binary64 s) hexp) hmant

private theorem pack_unpack {b : BitVec 64}
    (h : @unpackExponent Format.binary64 b = -1#11 → @unpackMantissa Format.binary64 b = 0#52) :
    pack Format.binary64 (unpack Format.binary64 b) = b := by
  have hparts := packComponents_unpack b
  generalize hs : Sign.ofBitVec (@unpackSign Format.binary64 b) = s at hparts
  generalize hx : @unpackExponent Format.binary64 b = x at *
  generalize hm : @unpackMantissa Format.binary64 b = m at *
  rw [unpack]
  simp only [hs, hx, hm]
  refine Eq.trans ?_ hparts
  split
  · next hone =>
    have hzero := h hone
    rw [if_pos (c := m = 0#52) hzero, hone, hzero]
    rfl
  · next hone =>
    split
    · next hzero =>
      rw [hzero]
      split
      · next hmzero =>
        rw [hmzero]
        rfl
      · exact pack_subnormal s m rfl _
    · refine pack_normal s x m hone ?_ rfl _
      rw [BitVec.toNat_append, ← Nat.shiftLeft_add_eq_or_of_lt m.isLt, Nat.shiftLeft_eq]
      rfl

private theorem unpack_neg {b b' : BitVec 64} (hsign : b'.toNat / 2 ^ 63 ≠ b.toNat / 2 ^ 63)
    (hrest : b'.toNat % 2 ^ 63 = b.toNat % 2 ^ 63) :
    unpack Format.binary64 b' = neg (unpack Format.binary64 b) := by
  have hlt := b.isLt
  have hlt' := b'.isLt
  have hmantissa : @unpackMantissa Format.binary64 b' = @unpackMantissa Format.binary64 b := by
    apply BitVec.eq_of_toNat_eq
    rw [toNat_unpackMantissa, toNat_unpackMantissa]
    omega
  have hexponent : @unpackExponent Format.binary64 b' = @unpackExponent Format.binary64 b := by
    apply BitVec.eq_of_toNat_eq
    rw [toNat_unpackExponent, toNat_unpackExponent]
    omega
  have hopposite : ∀ s s' : BitVec 1, s'.toNat ≠ s.toNat →
      Sign.ofBitVec s' = -Sign.ofBitVec s := by
    intro s s' hne
    rcases BitVec.eq_zero_or_eq_one s with rfl | rfl <;>
      rcases BitVec.eq_zero_or_eq_one s' with rfl | rfl <;>
        first | rfl | exact absurd rfl hne
  have hs : Sign.ofBitVec (@unpackSign Format.binary64 b') =
      -Sign.ofBitVec (@unpackSign Format.binary64 b) := by
    refine hopposite _ _ ?_
    rw [toNat_unpackSign, toNat_unpackSign]
    omega
  rw [unpack, unpack]
  simp only [hmantissa, hexponent, hs]
  split
  · split <;> rfl
  · split
    · split <;> rfl
    · rfl

/-! ## Doubles and patterns -/

theorem ofBits_toBits (v : Float) : Float.ofBits v.toBits = v := by
  obtain ⟨bits, hvalid⟩ := v
  have hpack : pack Format.binary64 (unpack Format.binary64 bits.toBitVec) = bits.toBitVec := by
    by_cases hx : @unpackExponent Format.binary64 bits.toBitVec = -1#11
    · by_cases hm : @unpackMantissa Format.binary64 bits.toBitVec = 0#52
      · exact pack_unpack fun _ ↦ hm
      · rw [hvalid.eq_packedNaN hx hm]
        decide
    · exact pack_unpack fun hc ↦ absurd hc hx
  rw [Float.toBits, Float.ofBits, Float.ofModel.injEq, Float.Model.ofBits, Float.Model.pack,
    Float.Model.mk.injEq]
  exact UInt64.toBitVec_inj.mp hpack

theorem toBits_ofBits {b : UInt64} (h : b.toNat % signBit ≤ infinityMagnitude) :
    (Float.ofBits b).toBits = b := by
  have hpack : pack Format.binary64 (unpack Format.binary64 b.toBitVec) = b.toBitVec := by
    refine pack_unpack fun hx ↦ ?_
    apply BitVec.eq_of_toNat_eq
    have hx' := congrArg BitVec.toNat hx
    rw [toNat_unpackExponent, show BitVec.toNat (-1#11) = 2047 from rfl] at hx'
    rw [toNat_unpackMantissa, show BitVec.toNat 0#52 = 0 from rfl]
    rw [← UInt64.toNat_toBitVec, signBit, infinityMagnitude] at h
    omega
  exact UInt64.toBitVec_inj.mp hpack

/-! ## Doubles and shapes -/

theorem toNat_toBits_signed (negative : Bool) {magnitude : Nat}
    (h : magnitude ≤ infinityMagnitude) :
    (signed negative magnitude).toBits.toNat =
      if negative then signBit + magnitude else magnitude := by
  rw [infinityMagnitude] at h
  have hlt : (if negative then signBit + magnitude else magnitude) < 2 ^ 64 := by
    rw [signBit]
    split <;> omega
  have hnat := UInt64.toNat_ofNat_of_lt' hlt
  rw [signed, toBits_ofBits, hnat]
  rw [hnat, infinityMagnitude, signBit]
  split <;> omega

theorem shape_signed {negative : Bool} {magnitude : Nat} (h : magnitude < infinityMagnitude) :
    shape (signed negative magnitude) = .finite negative magnitude := by
  have hbits := toNat_toBits_signed negative (Nat.le_of_lt h)
  have hmod : (if negative then signBit + magnitude else magnitude) % signBit = magnitude := by
    rw [infinityMagnitude] at h
    rw [signBit]
    split <;> omega
  have hsign : decide (signBit ≤ if negative then signBit + magnitude else magnitude) =
      negative := by
    rw [infinityMagnitude] at h
    cases negative <;> simp [signBit]; omega
  rw [shape]
  simp only [hbits, hmod, hsign]
  rw [if_neg (by omega), if_neg (by omega)]

theorem eq_signed (v : Float) :
    v = signed (decide (signBit ≤ v.toBits.toNat)) (v.toBits.toNat % signBit) := by
  have hlt := v.toBits.toNat_lt
  have hbits : (if signBit ≤ v.toBits.toNat then signBit + v.toBits.toNat % signBit
      else v.toBits.toNat % signBit) = v.toBits.toNat := by
    rw [signBit]
    split <;> omega
  simp only [signed, decide_eq_true_eq]
  rw [hbits, UInt64.ofNat_toNat, ofBits_toBits]

private theorem shape_cases (v : Float) :
    shape v = .nan ∧ infinityMagnitude < v.toBits.toNat % signBit ∨
      (∃ negative, shape v = .infinite negative ∧ v = signed negative infinityMagnitude) ∨
        ∃ negative magnitude, shape v = .finite negative magnitude ∧
          v = signed negative magnitude ∧ magnitude < infinityMagnitude := by
  have hv := eq_signed v
  rw [shape]
  generalize v.toBits.toNat % signBit = magnitude at *
  rcases Nat.lt_trichotomy magnitude infinityMagnitude with hlt | rfl | hgt
  · right; right
    refine ⟨_, magnitude, ?_, hv, hlt⟩
    simp only [if_neg (Nat.lt_asymm hlt), if_neg (Nat.ne_of_lt hlt)]
  · right; left
    refine ⟨_, ?_, hv⟩
    simp only [if_neg (Nat.lt_irrefl _), if_true]
  · left
    exact ⟨if_pos hgt, hgt⟩

theorem eq_of_shape_finite {v : Float} {negative : Bool} {magnitude : Nat}
    (h : shape v = .finite negative magnitude) :
    v = signed negative magnitude ∧ magnitude < infinityMagnitude := by
  rcases shape_cases v with ⟨hs, -⟩ | ⟨_, hs, -⟩ | ⟨_, _, hs, hv⟩
  · exact absurd (hs.symm.trans h) (by simp)
  · exact absurd (hs.symm.trans h) (by simp)
  · obtain ⟨rfl, rfl⟩ := Shape.finite.inj (hs.symm.trans h)
    exact hv

theorem eq_of_shape_infinite {v : Float} {negative : Bool} (h : shape v = .infinite negative) :
    v = signed negative infinityMagnitude := by
  rcases shape_cases v with ⟨hs, -⟩ | ⟨_, hs, hv⟩ | ⟨_, _, hs, -⟩
  · exact absurd (hs.symm.trans h) (by simp)
  · obtain rfl := Shape.infinite.inj (hs.symm.trans h)
    exact hv
  · exact absurd (hs.symm.trans h) (by simp)

/-- There is one NaN. -/
theorem eq_of_shape_nan {v : Float} (h : shape v = .nan) : v = nan := by
  rcases shape_cases v with ⟨-, hmag⟩ | ⟨_, hs, -⟩ | ⟨_, _, hs, -⟩
  · obtain ⟨bits, hvalid⟩ := v
    change infinityMagnitude < bits.toNat % signBit at hmag
    have hlt := bits.toNat_lt
    rw [infinityMagnitude, signBit, ← UInt64.toNat_toBitVec] at hmag
    have hx : @unpackExponent Format.binary64 bits.toBitVec = -1#11 := by
      apply BitVec.eq_of_toNat_eq
      rw [toNat_unpackExponent, show BitVec.toNat (-1#11) = 2047 from rfl]
      omega
    have hm : @unpackMantissa Format.binary64 bits.toBitVec ≠ 0#52 := by
      intro hzero
      have hzero' := congrArg BitVec.toNat hzero
      rw [toNat_unpackMantissa, show BitVec.toNat 0#52 = 0 from rfl] at hzero'
      omega
    -- a valid pattern of this kind is the canonical one
    have hbits : bits = 0x7FF8000000000000 := UInt64.toBitVec_inj.mp (hvalid.eq_packedNaN hx hm)
    subst hbits
    rw [nan, ← ofBits_toBits ⟨0x7FF8000000000000, hvalid⟩]
    rfl
  · exact absurd (hs.symm.trans h) (by simp)
  · exact absurd (hs.symm.trans h) (by simp)

/-! ## Opposite doubles -/

theorem neg_signed (negative : Bool) {magnitude : Nat} (h : magnitude ≤ infinityMagnitude) :
    -signed negative magnitude = signed (!negative) magnitude := by
  have hbits := toNat_toBits_signed negative h
  have hbits' := toNat_toBits_signed (!negative) h
  have hunpack : unpack Format.binary64 (signed (!negative) magnitude).toBits.toBitVec =
      neg (unpack Format.binary64 (signed negative magnitude).toBits.toBitVec) := by
    refine unpack_neg ?_ ?_
    all_goals
      rw [UInt64.toNat_toBitVec, UInt64.toNat_toBitVec, hbits, hbits', signBit]
      cases negative <;> simp
  have hneg : -signed negative magnitude = Float.ofModel (Float.Model.pack
      (neg (unpack Format.binary64 (signed negative magnitude).toBits.toBitVec))) := rfl
  rw [hneg, ← hunpack]
  exact ofBits_toBits _

theorem neg_nan : -nan = nan := by
  rw [nan]
  decide +kernel

end Binary64

end CurveCalc
