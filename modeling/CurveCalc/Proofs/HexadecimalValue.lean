import CurveCalc.Proofs.HexadecimalDigits
import CurveCalc.Proofs.LiteralLanguage
import CurveCalc.Proofs.LiteralReading
import CurveCalc.Proofs.RoundingTwice

/-!
# The value of a hexadecimal literal

A hexadecimal literal stands for a mantissa scaled by a power of two, exactly (`HexLiteral.value`).
If a double has that value, the literal is read as it, be it subnormal or behind any number of
digits that are zero (`readLiteral?_eq_of_representable`).

If the value lies between two doubles, the literal is read as one of the two, but not always as the
nearer: the digits up to the first past 53 bits are rounded before the others are seen. It is the
nearer one unless these digits, as they are or as they are rounded, come to lie halfway between the
two, and the whole literal does not (`readLiteral?_isNearest_iff`).
-/

namespace CurveCalc

open Binary64
open Numeral (IsSign IsDigits IsExponent IsNumber IsNumeral Parts)

/-- How a hexadecimal literal is spelled: padding and a sign, `0x`, digits with at most one point
among them, the mark of the exponent, its sign and its digits, a suffix letter or none, and padding.
-/
structure HexLiteral where
  pad : List Char
  sign : List Char
  base : Char
  mantissa : List Char
  /-- The digits before the point. -/
  whole : List Char
  /-- The digits after the point. -/
  fraction : List Char
  mark : Char
  powerSign : List Char
  power : List Char
  suffix : List Char
  pad' : List Char
  isPad : Literal.IsPad pad
  isSign : IsSign sign
  isBase : base = 'x' ∨ base = 'X'
  isMantissa : Parts Text.isHexDigit mantissa whole fraction
  isMark : mark = 'p' ∨ mark = 'P'
  isPowerSign : IsSign powerSign
  isPower : IsDigits power
  isSuffix : suffix = [] ∨ ∃ c, Numeral.isSuffix c = true ∧ suffix = [c]
  isPad' : Literal.IsPad pad'

namespace HexLiteral

variable (l : HexLiteral)

/-- The number of a literal, without sign and suffix. -/
def numberText : List Char := '0' :: l.base :: l.mantissa ++ l.mark :: (l.powerSign ++ l.power)

def text : List Char := l.pad ++ (l.sign ++ (l.numberText ++ l.suffix ++ l.pad'))

def negative : Bool := decide (l.sign = ['-'])

def digits : List Char := l.whole ++ l.fraction

/-- The written exponent. -/
def exponent : ℤ := (if l.powerSign = ['-'] then -1 else 1) * (Nat.ofDigitChars 10 l.power 0 : ℤ)

/-- A literal with a point and nothing that it can do without. -/
def pointed (sign whole fraction powerSign power : List Char) (hsign : IsSign sign)
    (hwhole : whole.all Text.isHexDigit = true) (hfraction : fraction.all Text.isHexDigit = true)
    (hne : ¬(whole = [] ∧ fraction = [])) (hpowerSign : IsSign powerSign) (hpower : power ≠ [])
    (hdigits : power.all Char.isDigit = true) : HexLiteral where
  pad := []
  sign := sign
  base := 'x'
  mantissa := whole ++ '.' :: fraction
  whole := whole
  fraction := fraction
  mark := 'p'
  powerSign := powerSign
  power := power
  suffix := []
  pad' := []
  isPad := List.forall_mem_nil _
  isSign := hsign
  isBase := Or.inl rfl
  isMantissa := ⟨Or.inr rfl, List.all_eq_true.mp hwhole, List.all_eq_true.mp hfraction, hne⟩
  isMark := Or.inl rfl
  isPowerSign := hpowerSign
  isPower := ⟨hpower, List.all_eq_true.mp hdigits⟩
  isSuffix := Or.inl rfl
  isPad' := List.forall_mem_nil _

/-- The value of a number that is written in place of the digits of the mantissa. -/
def place (q : ℚ) : ℚ := q / 16 ^ l.fraction.length * 2 ^ l.exponent

/-- **What a literal stands for**, its sign apart: the mantissa times a power of two. -/
def value : ℚ := l.place (Hexadecimal.number l.digits)

/-- The literal with zeros for all digits after the first past 53 bits. -/
def cutValue : ℚ := l.place ((Hexadecimal.cut l.digits).1 * 16 ^ (Hexadecimal.cut l.digits).2)

/-- The same, with the digits before rounded to 53 bits. -/
def keptValue : ℚ := l.place (Hexadecimal.kept l.digits)

/-! ## Reading -/

theorem isHexDigit_of_mem_digits : ∀ c ∈ l.digits, Text.isHexDigit c = true :=
  List.forall_mem_append.mpr ⟨l.isMantissa.digit_whole, l.isMantissa.digit_fraction⟩

theorem isExponent_power : IsExponent (l.powerSign ++ l.power) :=
  ⟨l.powerSign, l.power, l.isPowerSign, l.isPower, rfl⟩

theorem integer?_power : Numeral.integer? (l.powerSign ++ l.power) = some l.exponent := by
  have hnatural := Numeral.natural?_of_isDigits l.isPower
  rw [exponent]
  rcases l.isPowerSign with hsign | hsign | hsign <;> rw [hsign]
  · rw [List.nil_append, Numeral.integer?_of_isDigits l.isPower, hnatural]
    simp
  · rw [List.singleton_append, Numeral.integer?, hnatural]
    simp
  · rw [List.singleton_append, Numeral.integer?, hnatural]
    simp

theorem isNumber_numberText : IsNumber l.numberText :=
  .hexadecimal l.isBase l.isMantissa.isMantissa l.isMark l.isExponent_power

theorem read?_numberText :
    Numeral.read? l.numberText = some (.hexadecimal l.whole l.fraction l.exponent) := by
  rw [l.isNumber_numberText.read?_eq, ← l.isMantissa.hexadecimal?_eq l.isMark l.integer?_power,
    numberText]
  rcases l.isBase with hbase | hbase <;> rw [hbase] <;> rfl

theorem read?_text :
    Literal.read? l.text =
      some ⟨l.negative, .hexadecimal l.whole l.fraction l.exponent⟩ := by
  have hnumber := l.isNumber_numberText
  rw [text, ← List.append_assoc l.sign, Literal.read?_padded l.isPad l.isPad']
  rcases l.isSuffix with hsuffix | ⟨c, hc, hsuffix⟩ <;> rw [hsuffix]
  · rw [List.append_nil, Literal.read?_sign l.isSign (.number hnumber), l.read?_numberText]
    rfl
  · rw [Literal.read?_sign l.isSign (.suffixed hnumber hc), hnumber.read?_concat hc,
      l.read?_numberText]
    rfl

theorem readLiteral?_text :
    readLiteral? l.text =
      some (signed l.negative (Hexadecimal.magnitude l.whole l.fraction l.exponent)) := by
  rw [readLiteral?, l.read?_text]
  rfl

theorem exists_text_eq_iff {text : List Char} :
    (∃ l : HexLiteral, l.text = text) ↔
      text ∈ (Pattern.padding * (Pattern.sign * (Pattern.hexadecimal *
        Pattern.optional (Pattern.oneOf ['f', 'F', 'd', 'D']) * Pattern.padding))).matches' := by
  constructor
  · rintro ⟨l, rfl⟩
    refine ⟨l.pad, Pattern.mem_padding.mpr l.isPad, _, ⟨l.sign, Pattern.mem_sign.mpr l.isSign, _,
      ⟨_, ⟨l.numberText, ?_, l.suffix, ?_, rfl⟩, l.pad', Pattern.mem_padding.mpr l.isPad', rfl⟩,
      rfl⟩, rfl⟩
    · exact Pattern.mem_hexadecimal.mpr ⟨l.base, by simpa using l.isBase, l.mantissa,
        l.isMantissa.isMantissa, l.mark, by simpa using l.isMark, _, l.isExponent_power, rfl⟩
    · refine l.isSuffix.imp_right ?_
      rintro ⟨c, hc, hsuffix⟩
      exact Pattern.mem_oneOf.mpr ⟨c, by simpa [Numeral.isSuffix, or_assoc] using hc, hsuffix⟩
  · rintro ⟨pad, hpad, _, ⟨sign, hsign, _, ⟨_, ⟨number, hnumber, suffix, hsuffix, rfl⟩, pad', hpad',
      rfl⟩, rfl⟩, rfl⟩
    obtain ⟨base, hbase, mantissa, hmantissa, mark, hmark, _, ⟨powerSign, power, hpowerSign, hpower,
      rfl⟩, rfl⟩ := Pattern.mem_hexadecimal.mp hnumber
    obtain ⟨whole, fraction, hparts⟩ := hmantissa.exists_parts
    have hletter : suffix = [] ∨ ∃ c, Numeral.isSuffix c = true ∧ suffix = [c] := by
      refine (Pattern.mem_optional.mp hsuffix).imp_right fun hone ↦ ?_
      obtain ⟨c, hc, rfl⟩ := Pattern.mem_oneOf.mp hone
      exact ⟨c, by simpa [Numeral.isSuffix, or_assoc] using hc, rfl⟩
    exact ⟨{ pad, sign, base, mantissa, whole, fraction, mark, powerSign, power, suffix, pad'
             isPad := Pattern.mem_padding.mp hpad
             isSign := Pattern.mem_sign.mp hsign
             isBase := by simpa using hbase
             isMantissa := hparts
             isMark := by simpa using hmark
             isPowerSign := hpowerSign
             isPower := hpower
             isSuffix := hletter
             isPad' := Pattern.mem_padding.mp hpad' }, rfl⟩

/-! ## The value -/

theorem place_eq (q : ℚ) : l.place q = q * 2 ^ (l.exponent - 4 * (l.fraction.length : ℤ)) := by
  rw [place, Hexadecimal.sixteen_pow, zpow_sub₀ two_ne_zero, div_mul_eq_mul_div, mul_div_assoc]

theorem place_mul_sixteen_pow (q : ℚ) (r : ℕ) :
    l.place (q * 16 ^ r) = q * 2 ^ (4 * (r : ℤ) + (l.exponent - 4 * (l.fraction.length : ℤ))) := by
  rw [place_eq, Hexadecimal.sixteen_pow, mul_assoc, ← zpow_add₀ two_ne_zero]

theorem place_le_place {q q' : ℚ} (h : q ≤ q') : l.place q ≤ l.place q' := by
  rw [place_eq, place_eq]
  exact mul_le_mul_of_nonneg_right h (zpow_pos two_pos _).le

theorem place_lt_place {q q' : ℚ} (h : q < q') : l.place q < l.place q' := by
  rw [place_eq, place_eq]
  exact mul_lt_mul_of_pos_right h (zpow_pos two_pos _)

/-- **What is read is the magnitude nearest to what is kept of the digits**, unless the exponent is
beyond 32 bits and there are very many digits. -/
theorem magnitude_eq (h : Hexadecimal.capped l.exponent = l.exponent ∨ l.digits.length < 2 ^ 28) :
    Hexadecimal.magnitude l.whole l.fraction l.exponent = nearestTo l.keptValue := by
  rw [Hexadecimal.magnitude_eq_nearestTo_of_length l.isHexDigit_of_mem_digits h, keptValue,
    place_eq, digits]

end HexLiteral

/-! ## Values that a double has -/

/-- **A hexadecimal literal whose value a double has is read as that value**, with its sign. -/
theorem readLiteral?_eq_of_representable (l : HexLiteral) (hdigits : l.digits.length < 2 ^ 28)
    (h : Representable l.value) :
    ∃ v m, readLiteral? l.text = some v ∧ shape v = .finite l.negative m ∧ value m = l.value := by
  -- a significand has no more than 53 bits, so no digit that is not zero is lost
  have hkept : l.keptValue = l.value := by
    obtain ⟨m, -, hm⟩ := h
    have hnumber := hm.symm
    rw [HexLiteral.value, HexLiteral.place_eq, value, ← eq_div_iff (zpow_pos two_pos _).ne',
      mul_div_assoc, ← zpow_sub₀ two_ne_zero] at hnumber
    rw [HexLiteral.keptValue, HexLiteral.value,
      Hexadecimal.kept_eq_number l.isHexDigit_of_mem_digits (significand_lt m) hnumber]
  rw [l.readLiteral?_text, l.magnitude_eq (Or.inr hdigits), hkept]
  exact ⟨_, _, rfl, shape_signed h.nearestTo_lt, h.value_nearestTo⟩

/-- The least double, negated, behind so many digits that the last of them is dropped. -/
theorem readLiteral?_eq_of_representable_least :
    ∃ l : HexLiteral, l.text = "-0x10000000000000000.p-1138".toList ∧ l.digits.length < 2 ^ 28 ∧
      l.value = 2 ^ (-1074 : ℤ) ∧ ∃ v m, readLiteral? l.text = some v ∧
        shape v = .finite true m ∧ value m = 2 ^ (-1074 : ℤ) := by
  let l : HexLiteral := .pointed ['-'] "10000000000000000".toList [] ['-'] "1138".toList
    (Or.inr (Or.inr rfl)) (by decide) (by decide) (by decide) (Or.inr (Or.inr rfl)) (by decide)
    (by decide)
  have hnumber : Hexadecimal.number l.digits = 2 ^ 64 := by decide +kernel
  have hexponent : l.exponent = -1138 := by decide +kernel
  have hvalue : l.value = 2 ^ (-1074 : ℤ) := by
    rw [HexLiteral.value, HexLiteral.place_eq, hnumber, hexponent]
    rw [Nat.cast_pow, Nat.cast_ofNat, ← zpow_natCast, ← zpow_add₀ two_ne_zero]
    rfl
  obtain ⟨v, m, hread, hshape, hm⟩ := readLiteral?_eq_of_representable l (by decide)
    (hvalue ▸ representable_zpow (by norm_num) (by norm_num))
  exact ⟨l, rfl, by decide, hvalue, v, m, hread, hshape, hm.trans hvalue⟩

/-! ## Values between two doubles -/

namespace HexLiteral

variable (l : HexLiteral) {m : ℕ}

theorem kept_of_lt (h : (Hexadecimal.cut l.digits).1 < 2 ^ 53) :
    l.cutValue = l.value ∧ l.keptValue = l.value := by
  have hcut := Hexadecimal.isCut_cut l.isHexDigit_of_mem_digits
  have hrest := hcut.rest_eq_zero h
  have hfirst := hcut.fst_eq (k := Hexadecimal.number l.digits)
    (by rw [hrest, pow_zero, Nat.mul_one])
  rw [cutValue, keptValue, Hexadecimal.kept, (representable_natCast h).value_nearestTo, hrest,
    pow_zero, mul_one, hfirst]
  exact ⟨rfl, rfl⟩

theorem exists_startsWith (h : 2 ^ 53 ≤ (Hexadecimal.cut l.digits).1) (hfin : m < infinityMagnitude)
    (hlo : Binary64.value m < l.value) (hhi : l.value < Binary64.value (m + 1)) :
    ∃ p a t, StartsWith l.value m p a t ∧ l.cutValue = p * 2 ^ t ∧
      l.keptValue = roundedStart p t := by
  have hcut := Hexadecimal.isCut_cut l.isHexDigit_of_mem_digits
  have hbits : ((Hexadecimal.cut l.digits).1 : ℚ) < Binary64.value infinityMagnitude := by
    rw [value_infinityMagnitude]
    calc ((Hexadecimal.cut l.digits).1 : ℚ) < 2 ^ (57 : ℤ) := by exact_mod_cast hcut.bits
      _ ≤ 2 ^ (1024 : ℤ) := zpow_le_zpow_right₀ one_lt_two.le (by norm_num)
  obtain ⟨a, ha, hlower, hupper⟩ := exists_neighbours (Nat.cast_nonneg _) hbits
  refine ⟨_, a, 4 * ((Hexadecimal.cut l.digits).2 : ℤ) +
    (l.exponent - 4 * (l.fraction.length : ℤ)), ⟨?_, ?_, h, ha, hlower, hupper, hfin, hlo, hhi⟩,
    l.place_mul_sixteen_pow _ _, ?_⟩
  · rw [← place_mul_sixteen_pow]
    exact l.place_le_place (by exact_mod_cast hcut.lower)
  · rw [← place_mul_sixteen_pow]
    exact l.place_lt_place (by exact_mod_cast hcut.upper)
  · rw [keptValue, Hexadecimal.kept, place_mul_sixteen_pow, roundedStart]

/-- What is kept of a literal between two magnitudes is rounded to one of them, and to the one that
the literal itself is rounded to, unless evenness decides and the literal is not halfway. -/
theorem nearestTo_keptValue (hfin : m < infinityMagnitude) (hlo : Binary64.value m < l.value)
    (hhi : l.value < Binary64.value (m + 1)) :
    (nearestTo l.keptValue = m ∨ nearestTo l.keptValue = m + 1) ∧
      (nearestTo l.keptValue = nearer l.value m ↔
        ¬((l.cutValue = halfway m ∨ l.keptValue = halfway m) ∧ TieMisleads l.value m)) := by
  rcases Nat.lt_or_ge (Hexadecimal.cut l.digits).1 (2 ^ 53) with hlt | hge
  · -- all digits are kept, and where they lie halfway the literal itself does
    obtain ⟨hcut, hkept⟩ := l.kept_of_lt hlt
    rw [hcut, hkept, nearestTo_eq_nearer hfin hlo.le hhi, or_self]
    refine ⟨nearer_eq_or _ _, iff_of_true rfl ?_⟩
    rintro ⟨htie, habove | hbelow⟩
    · exact habove.1.ne htie.symm
    · exact hbelow.1.ne htie
  · obtain ⟨p, a, t, hstart, hcut, hkept⟩ := l.exists_startsWith hge hfin hlo hhi
    rw [hcut, hkept]
    exact ⟨hstart.nearestTo_eq_or, hstart.nearestTo_roundedStart_eq_iff⟩

end HexLiteral

/-- **When a hexadecimal literal is read as the nearest double**: a literal between two finite
doubles is read as one of them. It is the nearest, ties to even, unless the digits kept lie halfway
between the two, before they are rounded or after, and the literal itself is nearer to the one that
is not even. -/
theorem readLiteral?_isNearest_iff (l : HexLiteral) {m : ℕ}
    (hlength : Hexadecimal.capped l.exponent = l.exponent ∨ l.digits.length < 2 ^ 28)
    (hfin : m + 1 < infinityMagnitude) (hlo : value m < l.value) (hhi : l.value < value (m + 1)) :
    ∃ v k, readLiteral? l.text = some v ∧ shape v = .finite l.negative k ∧ (k = m ∨ k = m + 1) ∧
      (IsNearest l.value k ↔
        ¬((l.cutValue = halfway m ∨ l.keptValue = halfway m) ∧ TieMisleads l.value m)) := by
  obtain ⟨hnext, hiff⟩ := l.nearestTo_keptValue (Nat.lt_of_succ_lt hfin) hlo hhi
  rw [l.readLiteral?_text, l.magnitude_eq hlength]
  have hbound : nearestTo l.keptValue < infinityMagnitude := by omega
  refine ⟨_, _, rfl, shape_signed hbound, hnext, ?_⟩
  rw [isNearest_iff_eq_nearer hfin hlo.le hhi.le]
  exact hiff

theorem value_even {n : ℕ} (hn : n < 2 ^ 52) : value (0x4340000000000000 + n) = 2 ^ 53 + 2 * n := by
  have hpacked := @value_packed (2 ^ 52 + n) 1 (by omega) (by norm_num) (Or.inr (by omega))
  rw [show ((1 : ℤ) + 1074).toNat * leadingBit + (2 ^ 52 + n) = 0x4340000000000000 + n by
    rw [leadingBit]; omega] at hpacked
  rw [hpacked]
  push_cast
  ring

/-- The digit that goes beyond 53 bits makes a tie here, and evenness takes it up, where the last
digit would take it too. -/
theorem readLiteral?_isNearest_iff_up :
    ∃ l : HexLiteral, l.text = "0x20000000000003.8p0".toList ∧
      Hexadecimal.capped l.exponent = l.exponent ∧ value 0x4340000000000001 < l.value ∧
        l.value < value 0x4340000000000002 ∧ ∃ v k, readLiteral? l.text = some v ∧
          shape v = .finite false k ∧ IsNearest l.value k := by
  let l : HexLiteral := .pointed [] "20000000000003".toList ['8'] [] ['0']
    (Or.inl rfl) (by decide) (by decide) (by decide) (Or.inl rfl) (by decide) (by decide)
  have hnumber : Hexadecimal.number l.digits = 2 ^ 57 + 56 := by decide +kernel
  have hexponent : l.exponent = 0 := by decide +kernel
  have hvalue : l.value = 2 ^ 53 + 7 / 2 := by
    rw [HexLiteral.value, HexLiteral.place, hnumber, hexponent]
    norm_num [l, HexLiteral.pointed]
  have hlower := @value_even 1 (by norm_num)
  have hupper := @value_even 2 (by norm_num)
  norm_num at hlower hupper
  have hhalf : halfway 0x4340000000000001 = 2 ^ 53 + 3 := by
    rw [halfway, hlower, hupper]
    norm_num
  have hlo : value 0x4340000000000001 < l.value := by
    rw [hlower, hvalue]
    norm_num
  have hhi : l.value < value 0x4340000000000002 := by
    rw [hupper, hvalue]
    norm_num
  have hcapped : Hexadecimal.capped l.exponent = l.exponent := by
    rw [hexponent]
    rfl
  obtain ⟨v, k, hread, hshape, -, hiff⟩ :=
    readLiteral?_isNearest_iff l (Or.inl hcapped) (by decide) hlo hhi
  refine ⟨l, rfl, hcapped, hlo, hhi, v, k, hread, hshape, hiff.mpr ?_⟩
  rintro ⟨-, hmisleads⟩
  rw [TieMisleads, hhalf, hvalue] at hmisleads
  rcases hmisleads with ⟨-, heven⟩ | ⟨hlt, -⟩
  · exact absurd heven (by decide)
  · norm_num at hlt

/-- **Not every hexadecimal literal between two doubles is read as the nearest**: here the same
digit takes the tie down, to the even double, and the last digit comes too late. -/
theorem not_forall_readLiteral?_isNearest :
    ¬∀ (l : HexLiteral) (m : ℕ), m + 1 < infinityMagnitude → value m < l.value →
      l.value < value (m + 1) →
        ∃ v k, readLiteral? l.text = some v ∧ shape v = .finite l.negative k ∧
          IsNearest l.value k := by
  intro h
  let l : HexLiteral := .pointed [] "20000000000001".toList ['8'] [] ['0']
    (Or.inl rfl) (by decide) (by decide) (by decide) (Or.inl rfl) (by decide) (by decide)
  have hnumber : Hexadecimal.number l.digits = 2 ^ 57 + 24 := by decide +kernel
  have hexponent : l.exponent = 0 := by decide +kernel
  have hvalue : l.value = 2 ^ 53 + 3 / 2 := by
    rw [HexLiteral.value, HexLiteral.place, hnumber, hexponent]
    norm_num [l, HexLiteral.pointed]
  have hlower := @value_even 0 (by norm_num)
  have hupper := @value_even 1 (by norm_num)
  rw [Nat.cast_zero, mul_zero, add_zero] at hlower
  rw [Nat.cast_one, mul_one] at hupper
  have hread : readLiteral? l.text = some (signed false 0x4340000000000000) := by
    rw [l.readLiteral?_text, show Hexadecimal.magnitude l.whole l.fraction l.exponent =
      0x4340000000000000 by decide +kernel]
    rfl
  obtain ⟨v, k, hv, hshape, hnearest⟩ := h l 0x4340000000000000 (by decide)
    (by rw [hlower, hvalue]; norm_num) (by rw [hupper, hvalue]; norm_num)
  obtain rfl := Option.some.inj (hread.symm.trans hv)
  rw [shape_signed (by decide)] at hshape
  obtain ⟨-, rfl⟩ := Binary64.Shape.finite.inj hshape
  have hcloser := hnearest.le_abs (0x4340000000000000 + 1) (by decide)
  rw [hlower, hupper, hvalue] at hcloser
  norm_num [abs_of_pos, abs_of_neg] at hcloser

end CurveCalc
