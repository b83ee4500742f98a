import CurveCalc.Proofs.LiteralLanguage
import CurveCalc.Proofs.LiteralReading

/-!
# The decoder of number literals

Once a text is known to be a literal, its value can be found without looking at the pattern again:
padding and a suffix come off the ends and the sign off the front, what is left is a name, a
hexadecimal number behind `0x`, or a decimal one, and a hexadecimal number is cut at its mark and at
its point. Such a decoder takes more texts than are literals, and it might cut a literal in other
places than the pattern has it: `d` and `f` are digits and suffixes, either side of the point may be
empty, and the exponent may be too large for the word that it is kept in.

It does not (`decode?_sign`). So the reader of literals is the regular expression with the decoder
behind it (`readLiteral?_eq_decode?`).
-/

namespace CurveCalc

namespace Literal

/-! ## The decoder -/

/-- The text before and after the first character of a class. -/
def cutAt? (p : Char → Bool) (text : List Char) : Option (List Char × List Char) :=
  match text.dropWhile fun c ↦ !p c with
  | [] => none
  | _ :: after => some (text.takeWhile fun c ↦ !p c, after)

/-- The sign in front of a text, and the rest. -/
def cutSign : List Char → Bool × List Char
  | '-' :: body => (true, body)
  | '+' :: body => (false, body)
  | body => (false, body)

/-- The text behind the start of a hexadecimal number. -/
def afterBase? : List Char → Option (List Char)
  | '0' :: 'x' :: text => some text
  | '0' :: 'X' :: text => some text
  | _ => none

/-- An exponent as a signed word of 32 bits. One that does not fit is the largest or the smallest.
-/
def exponentWord (text : List Char) : Int :=
  match (Numeral.integer? text).filter fun k ↦ -2147483648 ≤ k ∧ k ≤ 2147483647 with
  | some k => k
  | none => if text.head? = some '-' then -2147483648 else 2147483647

/-- The magnitude of the part of a hexadecimal number behind `0x`. -/
def hexMagnitude? (text : List Char) : Option Nat :=
  (cutAt? (fun c ↦ c = 'p' || c = 'P') text).bind fun (m, exponent) ↦
    let (whole, fraction) := (cutAt? (fun c ↦ c = '.') m).getD (m, [])
    if (whole ++ fraction).all Text.isHexDigit then
      some (Hexadecimal.magnitude whole fraction (exponentWord exponent))
    else none

def numberMagnitude? (body : List Char) : Option Nat :=
  match afterBase? body with
  | some text => hexMagnitude? text
  | none => (Numeral.decimal? body).bind Numeral.magnitude?

/-- The double of a numeral without a suffix. -/
def decodeBody? (body : List Char) : Option Float :=
  if body = ['N', 'a', 'N'] then some Binary64.nan
  else if body = ['I', 'n', 'f', 'i', 'n', 'i', 't', 'y'] then
    some (Binary64.ofMagnitude Binary64.infinityMagnitude)
  else (numberMagnitude? body).map Binary64.ofMagnitude

/-- The double of a text that is known to be a literal. -/
def decode? (text : List Char) : Option Float :=
  let (negative, body) := cutSign (Numeral.dropSuffix (dropPadding text))
  (decodeBody? body).map fun v ↦ if negative then -v else v

/-! ## Cuts -/

section Cuts

variable {p : Char → Bool} {left right : List Char} {c : Char}

theorem cutAt?_append (hleft : ∀ d ∈ left, p d = false) (hc : p c = true) :
    cutAt? p (left ++ c :: right) = some (left, right) := by
  have hnot : ∀ d ∈ left, (!p d) = true := fun d hd ↦ by rw [hleft d hd, Bool.not_false]
  have hstop : ¬(!p c) = true := by simp [hc]
  have hdrop : (left ++ c :: right).dropWhile (fun d ↦ !p d) = c :: right := by
    rw [List.dropWhile_append_of_pos hnot, List.dropWhile_cons_of_neg (p := fun d ↦ !p d) hstop]
  have htake : (left ++ c :: right).takeWhile (fun d ↦ !p d) = left := by
    rw [List.takeWhile_append_of_pos hnot,
      List.takeWhile_cons_of_neg (p := fun d ↦ !p d) hstop, List.append_nil]
  rw [cutAt?, hdrop]
  simp only [htake]

theorem cutAt?_eq_none (h : ∀ d ∈ left, p d = false) : cutAt? p left = none := by
  rw [cutAt?, List.dropWhile_eq_nil_iff.mpr fun d hd ↦ by rw [h d hd, Bool.not_false]]

end Cuts

open Numeral (IsSign IsExponent IsNumber IsNumeral Parts)

/-- No numeral starts with a sign, so just the one in front of it comes off. -/
theorem cutSign_append {sign body : List Char} (hsign : IsSign sign) (hbody : IsNumeral body) :
    cutSign (sign ++ body) = (decide (sign = ['-']), body) := by
  rcases hsign with rfl | rfl | rfl
  · rw [List.nil_append, cutSign.eq_def]
    split
    · exact absurd rfl (hbody.not_signed _).1
    · exact absurd rfl (hbody.not_signed _).2
    · rfl
  · rfl
  · rfl

theorem afterBase?_eq_none {text : List Char} (hx : 'x' ∉ text) (hX : 'X' ∉ text) :
    afterBase? text = none := by
  rw [afterBase?.eq_def]
  split
  · exact absurd (by simp) hx
  · exact absurd (by simp) hX
  · rfl

/-! ## Exponents -/

private theorem natural?_nonneg {digits : List Char} {i : ℤ}
    (h : (Numeral.natural? digits >>= fun n ↦ pure (n : ℤ)) = some i) : 0 ≤ i := by
  obtain ⟨n, -, hn⟩ := Option.bind_eq_some_iff.mp h
  obtain rfl := Option.some.inj hn
  exact Int.natCast_nonneg n

/-- The sign of an exponent can be told from its first character. -/
theorem integer?_sign {text : List Char} {k : ℤ} (h : Numeral.integer? text = some k) :
    if text.head? = some '-' then k ≤ 0 else 0 ≤ k := by
  rw [Numeral.integer?.eq_def] at h
  split at h
  · obtain ⟨i, hi, rfl⟩ := Option.map_eq_some_iff.mp h
    rw [if_pos (by simp)]
    exact neg_nonpos.mpr (natural?_nonneg hi)
  · obtain ⟨i, hi, rfl⟩ := Option.map_eq_some_iff.mp h
    rw [if_neg (by simp)]
    exact natural?_nonneg hi
  · next hminus _ =>
    obtain ⟨i, hi, rfl⟩ := Option.map_eq_some_iff.mp h
    have hhead : text.head? ≠ some '-' := by
      intro hhead
      obtain ⟨digits, rfl⟩ := List.head?_eq_some_iff.mp hhead
      exact hminus digits rfl
    rw [if_neg hhead]
    exact natural?_nonneg hi

/-- **An exponent out of range is brought into it**, be it too small or too large. -/
theorem capped_exponentWord {text : List Char} {k : ℤ} (h : Numeral.integer? text = some k) :
    Hexadecimal.capped (exponentWord text) = Hexadecimal.capped k := by
  have hsign := integer?_sign h
  rw [exponentWord, h, Option.filter_some]
  -- an exponent that does not fit is beyond the cap on the side that its sign tells
  simp only [Hexadecimal.capped]
  split at hsign
  · next hminus =>
    simp only [hminus]
    grind
  · grind

/-! ## Numbers -/

/-- **A hexadecimal number is cut where its digits end**: no mark is a digit, and no point. -/
theorem hexMagnitude?_eq {m x : List Char} {mark : Char}
    (hm : Numeral.IsMantissa Text.isHexDigit m) (hmark : mark = 'p' ∨ mark = 'P')
    (hx : IsExponent x) :
    hexMagnitude? (m ++ mark :: x) =
      (Numeral.hexadecimal? (m ++ mark :: x)).bind Numeral.magnitude? := by
  obtain ⟨whole, fraction, hparts⟩ := hm.exists_parts
  obtain ⟨k, hk⟩ := hx.exists_integer?
  have hcut : cutAt? (fun c ↦ c = 'p' || c = 'P') (m ++ mark :: x) = some (m, x) := by
    refine cutAt?_append (fun d hd ↦ ?_) (by simpa using hmark)
    have hp : d ≠ 'p' := fun h ↦ hm.notMem (by decide) (h ▸ hd)
    have hP : d ≠ 'P' := fun h ↦ hm.notMem (by decide) (h ▸ hd)
    simp [hp, hP]
  have hpoint : (cutAt? (fun c ↦ c = '.') m).getD (m, []) = (whole, fraction) := by
    have hnone : ∀ d ∈ whole, decide (d = '.') = false := by
      intro d hd
      rw [decide_eq_false_iff_not]
      rintro rfl
      exact absurd (hparts.digit_whole '.' hd) (by decide)
    rcases hparts.text_eq with ⟨rfl, rfl⟩ | rfl
    · rw [cutAt?_eq_none hnone, Option.getD_none]
    · rw [cutAt?_append hnone (by decide), Option.getD_some]
  have hdigits : (whole ++ fraction).all Text.isHexDigit = true :=
    List.all_eq_true.mpr (List.forall_mem_append.mpr ⟨hparts.digit_whole, hparts.digit_fraction⟩)
  rw [hparts.hexadecimal?_eq hmark hk, Option.bind_some, Numeral.magnitude?, hexMagnitude?, hcut,
    Option.bind_some]
  simp only [hpoint, hdigits, if_true, Hexadecimal.magnitude, capped_exponentWord hk]

/-- Behind `0x` there is a hexadecimal number and in front of nothing else. -/
theorem numberMagnitude?_eq {text : List Char} (h : IsNumber text) :
    numberMagnitude? text = (Numeral.number? text).bind Numeral.magnitude? := by
  cases h with
  | decimal hm =>
    have hx : 'x' ∉ text := hm.notMem (by decide)
    have hX : 'X' ∉ text := hm.notMem (by decide)
    rw [numberMagnitude?, afterBase?_eq_none hx hX, Numeral.number?_eq_decimal? hx hX]
  | @scientific m x mark hm hmark hx =>
    have hx' : 'x' ∉ m ++ mark :: x := hm.notMem_marked hmark hx (by decide)
    have hX' : 'X' ∉ m ++ mark :: x := hm.notMem_marked hmark hx (by decide)
    rw [numberMagnitude?, afterBase?_eq_none hx' hX', Numeral.number?_eq_decimal? hx' hX']
  | hexadecimal hbase hm hmark hx =>
    rcases hbase with rfl | rfl
    all_goals exact hexMagnitude?_eq hm hmark hx

theorem decodeBody?_of_isNumber {text : List Char} (h : IsNumber text) :
    decodeBody? text = (Numeral.read? text).map fun n ↦ value ⟨false, n⟩ := by
  obtain ⟨n, magnitude, hn, hmagnitude⟩ := h.exists_number?
  have hvalue : value ⟨false, n⟩ = Binary64.ofMagnitude magnitude := by
    rw [value]
    simp only [hmagnitude]
    rfl
  rw [h.read?_eq, hn, Option.map_some, hvalue]
  have hnumber := numberMagnitude?_eq h
  obtain ⟨c, rest, rfl, hc⟩ := h.exists_head
  obtain ⟨hnan, hinfinity⟩ := @Numeral.not_name_of_head c rest hc
  rw [decodeBody?, if_neg hnan, if_neg hinfinity, hnumber, hn, Option.bind_some, hmagnitude,
    Option.map_some]

/-! ## Literals -/

/-- A numeral without its suffix is the same numeral, and the sign in front is left alone. -/
theorem exists_core (sign : List Char) {body : List Char} (hbody : IsNumeral body) :
    ∃ core, IsNumeral core ∧ Numeral.dropSuffix (sign ++ body) = sign ++ core ∧
      Numeral.read? body = Numeral.read? core ∧
        decodeBody? core = (Numeral.read? core).map fun n ↦ value ⟨false, n⟩ := by
  have hkept : ∀ core : List Char, core ≠ [] →
      (∀ c ∈ core.getLast?, Numeral.isSuffix c = false) →
        Numeral.dropSuffix (sign ++ core) = sign ++ core := by
    intro core hne hlast
    refine Numeral.dropSuffix_eq_self ?_
    rwa [List.getLast?_append_of_ne_nil _ hne]
  have hne : ∀ number, IsNumber number → number ≠ [] := by
    intro number h
    obtain ⟨c, rest, rfl, -⟩ := h.exists_head
    exact List.cons_ne_nil c rest
  cases hbody with
  | nan => exact ⟨_, .nan, hkept _ (by decide) (by rintro _ ⟨⟩; decide), rfl, rfl⟩
  | infinity => exact ⟨_, .infinity, hkept _ (by decide) (by rintro _ ⟨⟩; decide), rfl, rfl⟩
  | number h =>
    -- a hexadecimal number ends in the digits of its exponent, so none of its letters is a suffix
    exact ⟨body, .number h, hkept body (hne body h) h.not_isSuffix_last, rfl,
      decodeBody?_of_isNumber h⟩
  | @suffixed number c h hc =>
    refine ⟨number, .number h, ?_, h.read?_concat hc, decodeBody?_of_isNumber h⟩
    rw [← List.append_assoc, Numeral.dropSuffix_concat _ hc]

/-- **The decoder takes every literal apart as the reader does**, and finds the same value. -/
theorem decode?_sign {sign body : List Char} (hsign : IsSign sign) (hbody : IsNumeral body) :
    ∃ v, decode? (sign ++ body) = some v ∧ readLiteral? (sign ++ body) = some v := by
  obtain ⟨core, hcore, hdrop, hread, hdecode⟩ := exists_core sign hbody
  obtain ⟨n, hn⟩ := hcore.exists_read?
  have hbare := dropPadding_of_forall (not_isPadding_signed hsign hbody)
  refine ⟨value ⟨decide (sign = ['-']), n⟩, ?_, ?_⟩
  · rw [decode?, hbare, hdrop, cutSign_append hsign hcore]
    simp only [hdecode, hn, Option.map_some]
    cases decide (sign = ['-']) with
    | false => rfl
    | true => rw [value_negative, if_pos rfl]
  · rw [readLiteral?, read?_sign hsign hbody, hread, hn]
    rfl

theorem decode?_padded {pad pad' : List Char} (hpad : IsPad pad) (hpad' : IsPad pad')
    (text : List Char) : decode? (pad ++ (text ++ pad')) = decode? text := by
  rw [decode?, dropPadding_padded hpad hpad', decode?]

theorem readLiteral?_padded {pad pad' : List Char} (hpad : IsPad pad) (hpad' : IsPad pad')
    (text : List Char) : readLiteral? (pad ++ (text ++ pad')) = readLiteral? text := by
  rw [readLiteral?, read?_padded hpad hpad', readLiteral?]

/-- **What matches the regular expression is decoded**, as the reader reads it. -/
theorem exists_decode? {text : List Char} (h : text ∈ Pattern.literal.matches') :
    ∃ v, decode? text = some v ∧ readLiteral? text = some v := by
  obtain ⟨pad, sign, body, pad', hpad, hsign, hbody, hpad', rfl⟩ := Pattern.mem_literal.mp h
  rw [← List.append_assoc sign, decode?_padded hpad hpad', readLiteral?_padded hpad hpad']
  exact decode?_sign hsign hbody

theorem readLiteral?_suffix {sign number : List Char} (hsign : IsSign sign)
    (hnumber : IsNumber number) {c : Char} (hc : Numeral.isSuffix c = true) :
    readLiteral? (sign ++ (number ++ [c])) = readLiteral? (sign ++ number) := by
  rw [readLiteral?, readLiteral?, read?_sign hsign (.suffixed hnumber hc),
    read?_sign hsign (.number hnumber), hnumber.read?_concat hc]

theorem readLiteral?_plus {body : List Char} (hbody : IsNumeral body) :
    readLiteral? ('+' :: body) = readLiteral? body := by
  have hplus := read?_sign (Or.inr (Or.inl rfl)) hbody
  have hbare := read?_sign (Or.inl rfl) hbody
  rw [List.singleton_append] at hplus
  rw [List.nil_append] at hbare
  rw [readLiteral?, readLiteral?, hplus, hbare]
  rfl

theorem readLiteral?_minus {body : List Char} (hbody : IsNumeral body) :
    readLiteral? ('-' :: body) = (readLiteral? body).map fun v ↦ -v := by
  have hminus := read?_sign (Or.inr (Or.inr rfl)) hbody
  have hbare := read?_sign (Or.inl rfl) hbody
  rw [List.singleton_append] at hminus
  rw [List.nil_append] at hbare
  obtain ⟨n, hn⟩ := hbody.exists_read?
  rw [readLiteral?, readLiteral?, hminus, hbare, hn]
  exact congrArg some (value_negative n)

end Literal

open Literal

/-- **The reader of literals is the regular expression with the decoder behind it**: every text that
matches is decoded, all others are none. Padding around a text makes no difference, neither does a
suffix behind a number; a plus sign leaves the value as it is, and a minus sign negates it. -/
theorem readLiteral?_eq_decode? (text : List Char) :
    (isLiteral text = true ↔ text ∈ Pattern.literal.matches') ∧
      (text ∈ Pattern.literal.matches' →
        ∃ v, decode? text = some v ∧ readLiteral? text = some v) ∧
      (text ∉ Pattern.literal.matches' → readLiteral? text = none) ∧
      (∀ pad ∈ Pattern.padding.matches', ∀ pad' ∈ Pattern.padding.matches',
        readLiteral? (pad ++ (text ++ pad')) = readLiteral? text) ∧
      (∀ c ∈ ['f', 'F', 'd', 'D'], text ∈ (Pattern.sign * Pattern.number).matches' →
        readLiteral? (text ++ [c]) = readLiteral? text) ∧
      (text ∈ Pattern.numeral.matches' →
        readLiteral? ('+' :: text) = readLiteral? text ∧
          readLiteral? ('-' :: text) = (readLiteral? text).map fun v ↦ -v) := by
  have hliteral : isLiteral text = true ↔ text ∈ Pattern.literal.matches' :=
    isLiteral_iff.trans Pattern.mem_literal.symm
  refine ⟨hliteral, exists_decode?, fun hnot ↦ ?_, fun pad hpad pad' hpad' ↦ ?_,
    fun c hc htext ↦ ?_, fun htext ↦ ?_⟩
  · have hnone : read? text = none := by
      rw [← hliteral, isLiteral, Bool.not_eq_true, Option.isSome_eq_false_iff] at hnot
      exact Option.isNone_iff_eq_none.mp hnot
    rw [readLiteral?, hnone, Option.map_none]
  · exact readLiteral?_padded (Pattern.mem_padding.mp hpad) (Pattern.mem_padding.mp hpad') text
  · obtain ⟨sign, hsign, number, hnumber, rfl⟩ := htext
    have hsuffix : Numeral.isSuffix c = true := by
      simpa [Numeral.isSuffix, or_assoc] using hc
    have h := readLiteral?_suffix (Pattern.mem_sign.mp hsign) (Pattern.mem_number.mp hnumber)
      hsuffix
    rwa [← List.append_assoc] at h
  · have hnumeral := Pattern.mem_numeral.mp htext
    exact ⟨readLiteral?_plus hnumeral, readLiteral?_minus hnumeral⟩

/-- Both sides of the point are letters that could be suffixes; without its exponent the number is
none. -/
theorem readLiteral?_eq_decode?_hexadecimal :
    (∃ v, decode? "0xd.fp1".toList = some v ∧ readLiteral? "0xd.fp1".toList = some v) ∧
      readLiteral? "0xd.f".toList = none ∧
      readLiteral? "\t0xd.fp1 ".toList = readLiteral? "0xd.fp1".toList ∧
      readLiteral? "0xd.fp1d".toList = readLiteral? "0xd.fp1".toList ∧
      readLiteral? "+0xd.fp1".toList = readLiteral? "0xd.fp1".toList ∧
      readLiteral? "-0xd.fp1".toList = (readLiteral? "0xd.fp1".toList).map fun v ↦ -v := by
  have hnumber : Numeral.IsNumber "0xd.fp1".toList :=
    Numeral.isNumber_of_number? (n := .hexadecimal ['d'] ['f'] 1) (by decide)
  obtain ⟨hmatch, hdecoded, -, hpadding, hsuffix, hsign⟩ :=
    readLiteral?_eq_decode? "0xd.fp1".toList
  obtain ⟨hmatch', -, hnone, -⟩ := readLiteral?_eq_decode? "0xd.f".toList
  refine ⟨hdecoded (hmatch.mp (by decide)), hnone fun h ↦ ?_, ?_, ?_, ?_⟩
  · exact absurd (hmatch'.mpr h) (by decide)
  · exact hpadding ['\t'] (Pattern.mem_padding.mpr (List.forall_mem_singleton.mpr (by decide)))
      [' '] (Pattern.mem_padding.mpr (List.forall_mem_singleton.mpr (by decide)))
  · exact hsuffix 'd' (by decide) ⟨[], Or.inl rfl, _, Pattern.mem_number.mpr hnumber, rfl⟩
  · exact hsign (Pattern.mem_numeral.mpr (.number hnumber))

end CurveCalc
