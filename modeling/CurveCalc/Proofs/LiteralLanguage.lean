import CurveCalc.Proofs.LiteralPattern
import Mathlib

/-!
# The language of number literals

The pattern of literals once more, as one regular expression: `Pattern.literal` has two forms of
decimal numbers, with a digit in front or a point, and two of hexadecimal ones, with digits in front
of the point or behind it. What it matches are the texts that have the pattern (`mem_literal`).
-/

namespace CurveCalc

/-! ## Regular expressions over characters -/

namespace Pattern

open RegularExpression (char star)

/-- The characters from one to another. -/
def between (first last : Char) : List Char :=
  (List.range' first.toNat (last.toNat + 1 - first.toNat)).map Char.ofNat

/-- One of some characters. -/
def oneOf (chars : List Char) : RegularExpression Char := (chars.map char).sum

/-- A fixed text. -/
def word (text : List Char) : RegularExpression Char := (text.map char).prod

/-- What an expression matches, or nothing. -/
def optional (r : RegularExpression Char) : RegularExpression Char := 1 + r

/-- What an expression matches, once or more. -/
def repeated (r : RegularExpression Char) : RegularExpression Char := r * star r

section Matches

variable {r s : RegularExpression Char} {chars text : List Char}

theorem mem_between {first last c : Char} (hlast : last.toNat < 0xd800) :
    c ∈ between first last ↔ first ≤ c ∧ c ≤ last := by
  have hle : ∀ a b : Char, a ≤ b ↔ a.toNat ≤ b.toNat := fun a b ↦ by
    rw [Char.le_def, UInt32.le_iff_toNat_le]
    rfl
  rw [between, List.mem_map, hle, hle]
  constructor
  · rintro ⟨n, hn, rfl⟩
    rw [List.mem_range'_1] at hn
    have hvalid : n.isValidChar := Or.inl (by omega)
    rw [Char.toNat_ofNat, if_pos hvalid]
    omega
  · intro h
    refine ⟨c.toNat, ?_, Char.ofNat_toNat c⟩
    rw [List.mem_range'_1]
    omega

theorem mem_mul : text ∈ (r * s).matches' ↔
    ∃ a ∈ r.matches', ∃ b ∈ s.matches', a ++ b = text :=
  Language.mem_mul

theorem mem_add : text ∈ (r + s).matches' ↔ text ∈ r.matches' ∨ text ∈ s.matches' :=
  Iff.rfl

theorem mem_oneOf : text ∈ (oneOf chars).matches' ↔ ∃ c ∈ chars, text = [c] := by
  induction chars with
  | nil => simp [oneOf, Language.notMem_zero]
  | cons c chars ih =>
    rw [oneOf, List.map_cons, List.sum_cons, mem_add, ← oneOf, ih, List.exists_mem_cons_iff]
    exact Iff.rfl

theorem mem_word {w : List Char} : text ∈ (word w).matches' ↔ text = w := by
  induction w generalizing text with
  | nil => exact Iff.rfl
  | cons c w ih =>
    rw [word, List.map_cons, List.prod_cons, mem_mul, ← word]
    constructor
    · rintro ⟨_, rfl, b, hb, rfl⟩
      rw [ih.mp hb]
      rfl
    · rintro rfl
      exact ⟨[c], rfl, w, ih.mpr rfl, rfl⟩

theorem mem_optional : text ∈ (optional r).matches' ↔ text = [] ∨ text ∈ r.matches' :=
  Iff.rfl

theorem mem_star_oneOf : text ∈ (star (oneOf chars)).matches' ↔ ∀ c ∈ text, c ∈ chars := by
  rw [RegularExpression.matches'_star, Language.mem_kstar]
  constructor
  · rintro ⟨pieces, rfl, hpieces⟩ c hc
    obtain ⟨piece, hpiece, hc⟩ := List.mem_flatten.mp hc
    obtain ⟨d, hd, rfl⟩ := mem_oneOf.mp (hpieces piece hpiece)
    rwa [List.mem_singleton.mp hc]
  · intro h
    refine ⟨text.map fun c ↦ [c], ?_, ?_⟩
    · rw [← List.flatMap_def, List.flatMap_singleton']
    · rw [List.forall_mem_map]
      exact fun c hc ↦ mem_oneOf.mpr ⟨c, h c hc, rfl⟩

theorem mem_repeated_oneOf :
    text ∈ (repeated (oneOf chars)).matches' ↔ text ≠ [] ∧ ∀ c ∈ text, c ∈ chars := by
  rw [repeated, mem_mul]
  constructor
  · rintro ⟨_, hone, rest, hrest, rfl⟩
    obtain ⟨c, hc, rfl⟩ := mem_oneOf.mp hone
    exact ⟨List.cons_ne_nil c rest, List.forall_mem_cons.mpr ⟨hc, mem_star_oneOf.mp hrest⟩⟩
  · rintro ⟨hne, hall⟩
    obtain ⟨c, rest, rfl⟩ := List.exists_cons_of_ne_nil hne
    obtain ⟨hc, hrest⟩ := List.forall_mem_cons.mp hall
    exact ⟨[c], mem_oneOf.mpr ⟨c, hc, rfl⟩, rest, mem_star_oneOf.mpr hrest, rfl⟩

theorem mem_optional_of_nonempty {p : Char → Prop}
    (hr : ∀ text : List Char, text ∈ r.matches' ↔ text ≠ [] ∧ ∀ c ∈ text, p c) :
    text ∈ (optional r).matches' ↔ ∀ c ∈ text, p c := by
  rw [mem_optional, hr]
  rcases eq_or_ne text [] with rfl | hne
  · simp
  · simp [hne]

end Matches

/-! ## The expression of a literal -/

def padding : RegularExpression Char := star (oneOf (between '\x00' ' '))

def sign : RegularExpression Char := optional (oneOf ['+', '-'])

def point : RegularExpression Char := char '.'

def digits : RegularExpression Char := repeated (oneOf (between '0' '9'))

def hexDigits : RegularExpression Char :=
  repeated (oneOf (between '0' '9' ++ between 'a' 'f' ++ between 'A' 'F'))

/-- A decimal exponent behind its mark. -/
def exponent : RegularExpression Char := oneOf ['e', 'E'] * (sign * digits)

/-- A decimal number that starts with a digit. -/
def whole : RegularExpression Char :=
  digits * (optional point * (optional digits * optional exponent))

/-- A decimal number that starts with its point. -/
def fraction : RegularExpression Char := point * (digits * optional exponent)

/-- What starts a hexadecimal number. -/
def base : RegularExpression Char := char '0' * oneOf ['x', 'X']

/-- A hexadecimal number, with its mandatory binary exponent. -/
def hexadecimal : RegularExpression Char :=
  (base * (hexDigits * optional point) + base * (optional hexDigits * (point * hexDigits))) *
    (oneOf ['p', 'P'] * (sign * digits))

def number : RegularExpression Char := whole + (fraction + hexadecimal)

/-- A name, or a number with a letter behind it that means nothing. -/
def numeral : RegularExpression Char :=
  word ['N', 'a', 'N'] + (word ['I', 'n', 'f', 'i', 'n', 'i', 't', 'y'] +
    number * optional (oneOf ['f', 'F', 'd', 'D']))

/-- A literal, with padding around it. -/
def literal : RegularExpression Char := padding * (sign * (numeral * padding))

/-! ## What it matches -/

open Numeral (IsSign IsDigits IsExponent IsMantissa IsNumber IsNumeral)

section Literal

variable {text m x : List Char}

theorem mem_padding : text ∈ padding.matches' ↔ Literal.IsPad text := by
  rw [padding, mem_star_oneOf]
  refine forall₂_congr fun c _ ↦ ?_
  rw [mem_between (by decide), Literal.isPadding, decide_eq_true_eq]
  exact and_iff_right (UInt32.le_iff_toNat_le.mpr (Nat.zero_le _))

theorem mem_sign : text ∈ sign.matches' ↔ IsSign text := by
  rw [sign, mem_optional, mem_oneOf]
  simp [IsSign]

theorem mem_between_digits {c : Char} : c ∈ between '0' '9' ↔ c.isDigit = true := by
  rw [mem_between (by decide), Char.isDigit, Bool.and_eq_true, decide_eq_true_eq,
    decide_eq_true_eq]
  exact Iff.rfl

theorem mem_digits : text ∈ digits.matches' ↔ IsDigits text := by
  rw [digits, mem_repeated_oneOf]
  exact and_congr_right fun _ ↦ forall₂_congr fun _ _ ↦ mem_between_digits

theorem mem_hexDigits :
    text ∈ hexDigits.matches' ↔ text ≠ [] ∧ ∀ c ∈ text, Text.isHexDigit c = true := by
  rw [hexDigits, mem_repeated_oneOf]
  refine and_congr_right fun _ ↦ forall₂_congr fun c _ ↦ ?_
  rw [List.mem_append, List.mem_append, mem_between_digits, mem_between (by decide),
    mem_between (by decide)]
  simp [Text.isHexDigit]

theorem mem_marked {marks : List Char} :
    text ∈ (oneOf marks * (sign * digits)).matches' ↔
      ∃ mark ∈ marks, ∃ x, IsExponent x ∧ text = mark :: x := by
  rw [mem_mul]
  constructor
  · rintro ⟨_, hmark, _, ⟨sign, hsign, digits, hdigits, rfl⟩, rfl⟩
    obtain ⟨mark, hmem, rfl⟩ := mem_oneOf.mp hmark
    exact ⟨mark, hmem, _, ⟨sign, digits, mem_sign.mp hsign, mem_digits.mp hdigits, rfl⟩, rfl⟩
  · rintro ⟨mark, hmem, _, ⟨sign, digits, hsign, hdigits, rfl⟩, rfl⟩
    exact ⟨[mark], mem_oneOf.mpr ⟨mark, hmem, rfl⟩, sign ++ digits,
      ⟨sign, mem_sign.mpr hsign, digits, mem_digits.mpr hdigits, rfl⟩, rfl⟩

theorem mem_optional_digits :
    text ∈ (optional digits).matches' ↔ ∀ c ∈ text, c.isDigit = true :=
  mem_optional_of_nonempty fun _ ↦ mem_digits

theorem mem_optional_hexDigits :
    text ∈ (optional hexDigits).matches' ↔ ∀ c ∈ text, Text.isHexDigit c = true :=
  mem_optional_of_nonempty fun _ ↦ mem_hexDigits

theorem mem_optional_point : text ∈ (optional point).matches' ↔ text = [] ∨ text = ['.'] :=
  Iff.rfl

theorem mem_decimal : text ∈ whole.matches' ∨ text ∈ fraction.matches' ↔
    ∃ m x, IsMantissa Char.isDigit m ∧ x ∈ (optional exponent).matches' ∧ text = m ++ x := by
  constructor
  · rintro (⟨w, hw, _, ⟨p, hp, _, ⟨f, hf, x, hx, rfl⟩, rfl⟩, rfl⟩ |
      ⟨_, rfl, _, ⟨f, hf, x, hx, rfl⟩, rfl⟩)
    · obtain ⟨hne, hw⟩ := mem_digits.mp hw
      have hf := mem_optional_digits.mp hf
      rcases mem_optional_point.mp hp with rfl | rfl
      · -- without a point, more digits are digits of the same number
        exact ⟨w ++ f, x, .whole (List.append_ne_nil_of_left_ne_nil hne f)
          (List.forall_mem_append.mpr ⟨hw, hf⟩), hx, by simp⟩
      · exact ⟨_, x, .pointed (Or.inl hne) hw hf, hx, by simp⟩
    · obtain ⟨hne, hf⟩ := mem_digits.mp hf
      exact ⟨_, x, .pointed (Or.inr hne) (List.forall_mem_nil _) hf, hx, rfl⟩
  · rintro ⟨m, x, hm, hx, rfl⟩
    cases hm with
    | whole hne hw =>
      exact Or.inl ⟨m, mem_digits.mpr ⟨hne, hw⟩, x, ⟨[], Or.inl rfl, x,
        ⟨[], Or.inl rfl, x, hx, rfl⟩, rfl⟩, rfl⟩
    | @pointed w f hne hw hf =>
      rcases eq_or_ne w [] with rfl | hne'
      · have hfraction := mem_digits.mpr ⟨hne.resolve_left fun h ↦ h rfl, hf⟩
        exact Or.inr ⟨['.'], rfl, _, ⟨f, hfraction, x, hx, rfl⟩, rfl⟩
      · have hrest := mem_optional_digits.mpr hf
        exact Or.inl ⟨w, mem_digits.mpr ⟨hne', hw⟩, _, ⟨['.'], Or.inr rfl, _,
          ⟨f, hrest, x, hx, rfl⟩, rfl⟩, by simp⟩

theorem mem_hexadecimal : text ∈ hexadecimal.matches' ↔
    ∃ b ∈ ['x', 'X'], ∃ m, IsMantissa Text.isHexDigit m ∧
      ∃ mark ∈ ['p', 'P'], ∃ x, IsExponent x ∧ text = '0' :: b :: m ++ mark :: x := by
  constructor
  · rintro ⟨_, hm, _, hmarked, rfl⟩
    obtain ⟨mark, hmark, x, hx, rfl⟩ := mem_marked.mp hmarked
    rcases hm with ⟨_, ⟨_, rfl, _, hbase, rfl⟩, _, ⟨w, hw, p, hp, rfl⟩, rfl⟩ |
      ⟨_, ⟨_, rfl, _, hbase, rfl⟩, _, ⟨w, hw, _, ⟨_, rfl, f, hf, rfl⟩, rfl⟩, rfl⟩
    all_goals obtain ⟨b, hb, rfl⟩ := mem_oneOf.mp hbase
    · obtain ⟨hne, hw⟩ := mem_hexDigits.mp hw
      rcases mem_optional_point.mp hp with rfl | rfl
      · exact ⟨b, hb, w, .whole hne hw, mark, hmark, x, hx, by simp⟩
      · exact ⟨b, hb, _, .pointed (Or.inl hne) hw (List.forall_mem_nil _), mark, hmark, x, hx,
          by simp⟩
    · obtain ⟨hne, hf⟩ := mem_hexDigits.mp hf
      exact ⟨b, hb, _, .pointed (Or.inr hne) (mem_optional_hexDigits.mp hw) hf, mark, hmark, x, hx,
        by simp⟩
  · rintro ⟨b, hb, m, hm, mark, hmark, x, hx, rfl⟩
    have hbase : ['0', b] ∈ base.matches' := ⟨['0'], rfl, [b], mem_oneOf.mpr ⟨b, hb, rfl⟩, rfl⟩
    refine ⟨'0' :: b :: m, ?_, mark :: x, mem_marked.mpr ⟨mark, hmark, x, hx, rfl⟩, rfl⟩
    cases hm with
    | whole hne hw =>
      exact Or.inl ⟨_, hbase, m, ⟨m, mem_hexDigits.mpr ⟨hne, hw⟩, [], Or.inl rfl, by simp⟩, rfl⟩
    | @pointed w f hne hw hf =>
      rcases eq_or_ne f [] with rfl | hne'
      · have hwhole := mem_hexDigits.mpr ⟨hne.resolve_right fun h ↦ h rfl, hw⟩
        exact Or.inl ⟨_, hbase, _, ⟨w, hwhole, ['.'], Or.inr rfl, rfl⟩, rfl⟩
      · have hfraction := mem_hexDigits.mpr ⟨hne', hf⟩
        exact Or.inr ⟨_, hbase, _, ⟨w, mem_optional_hexDigits.mpr hw, _,
          ⟨['.'], rfl, f, hfraction, rfl⟩, rfl⟩, rfl⟩

theorem mem_number : text ∈ number.matches' ↔ IsNumber text := by
  rw [number, mem_add, mem_add, ← or_assoc, mem_decimal, mem_hexadecimal]
  constructor
  · rintro (⟨m, x, hm, hx, rfl⟩ | ⟨b, hb, m, hm, mark, hmark, x, hx, rfl⟩)
    · rcases mem_optional.mp hx with rfl | hx
      · rw [List.append_nil]
        exact .decimal hm
      · obtain ⟨mark, hmark, x, hexponent, rfl⟩ := mem_marked.mp hx
        exact .scientific hm (by simpa using hmark) hexponent
    · exact .hexadecimal (by simpa using hb) hm (by simpa using hmark) hx
  · rintro (hm | ⟨hm, hmark, hx⟩ | ⟨hbase, hm, hmark, hx⟩)
    · exact Or.inl ⟨text, [], hm, Or.inl rfl, (List.append_nil text).symm⟩
    · exact Or.inl ⟨_, _, hm, Or.inr (mem_marked.mpr ⟨_, by simpa using hmark, _, hx, rfl⟩), rfl⟩
    · exact Or.inr ⟨_, by simpa using hbase, _, hm, _, by simpa using hmark, _, hx, rfl⟩

theorem mem_numeral : text ∈ numeral.matches' ↔ IsNumeral text := by
  rw [numeral, mem_add, mem_add, mem_word, mem_word]
  constructor
  · rintro (rfl | rfl | ⟨n, hn, c, hc, rfl⟩)
    · exact .nan
    · exact .infinity
    · rcases mem_optional.mp hc with rfl | hc
      · simpa using IsNumeral.number (mem_number.mp hn)
      · obtain ⟨c, hmem, rfl⟩ := mem_oneOf.mp hc
        exact .suffixed (mem_number.mp hn) (by simpa [Numeral.isSuffix, or_assoc] using hmem)
  · rintro (_ | _ | h | ⟨h, hc⟩)
    · exact Or.inl rfl
    · exact Or.inr (Or.inl rfl)
    · exact Or.inr (Or.inr ⟨text, mem_number.mpr h, [], Or.inl rfl, List.append_nil text⟩)
    · refine Or.inr (Or.inr ⟨_, mem_number.mpr h, _, Or.inr (mem_oneOf.mpr ⟨_, ?_, rfl⟩), rfl⟩)
      simpa [Numeral.isSuffix, or_assoc] using hc

/-- **The regular expression matches the texts that have the pattern of a literal.** -/
theorem mem_literal : text ∈ literal.matches' ↔ Literal.IsLiteralText text := by
  rw [literal, mem_mul]
  constructor
  · rintro ⟨pad, hpad, _, ⟨s, hs, _, ⟨n, hn, pad', hpad', rfl⟩, rfl⟩, rfl⟩
    exact ⟨pad, s, n, pad', mem_padding.mp hpad, mem_sign.mp hs, mem_numeral.mp hn,
      mem_padding.mp hpad', rfl⟩
  · rintro ⟨pad, s, n, pad', hpad, hs, hn, hpad', rfl⟩
    exact ⟨pad, mem_padding.mpr hpad, _, ⟨s, mem_sign.mpr hs, _, ⟨n, mem_numeral.mpr hn, pad',
      mem_padding.mpr hpad', rfl⟩, rfl⟩, rfl⟩

end Literal

end Pattern

end CurveCalc
