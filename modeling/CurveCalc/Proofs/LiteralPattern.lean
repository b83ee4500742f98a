import CurveCalc.Grammar.Diagnosis
import Mathlib.Data.List.Basic

/-!
# The pattern of number literals

What the texts look like that are read as literals, said without the functions that take them apart:
a literal is a numeral with a sign in front and padding around it, and a numeral is a name or a
number with a suffix letter. `isLiteralText_of_read?` is the one fact about the functions; all that
is later said about the characters of a literal comes from the pattern.
-/

namespace CurveCalc

namespace Numeral

/-! ## The pattern -/

def IsSign (text : List Char) : Prop := text = [] ∨ text = ['+'] ∨ text = ['-']

/-- Digits and nothing else, at least one. -/
def IsDigits (text : List Char) : Prop := text ≠ [] ∧ ∀ c ∈ text, c.isDigit = true

/-- Digits with a sign in front. -/
def IsExponent (text : List Char) : Prop :=
  ∃ sign digits, IsSign sign ∧ IsDigits digits ∧ text = sign ++ digits

/-- Digits with at most one point among them, at least one digit. -/
inductive IsMantissa (digit : Char → Bool) : List Char → Prop
  | whole {whole : List Char} (hne : whole ≠ []) (hw : ∀ c ∈ whole, digit c = true) :
    IsMantissa digit whole
  | pointed {whole fraction : List Char} (hne : whole ≠ [] ∨ fraction ≠ [])
    (hw : ∀ c ∈ whole, digit c = true) (hf : ∀ c ∈ fraction, digit c = true) :
    IsMantissa digit (whole ++ '.' :: fraction)

/-- A number without a suffix. -/
inductive IsNumber : List Char → Prop
  | decimal {m : List Char} (hm : IsMantissa Char.isDigit m) : IsNumber m
  | scientific {m x : List Char} {mark : Char} (hm : IsMantissa Char.isDigit m)
    (hmark : mark = 'e' ∨ mark = 'E') (hx : IsExponent x) : IsNumber (m ++ mark :: x)
  | hexadecimal {m x : List Char} {base mark : Char} (hbase : base = 'x' ∨ base = 'X')
    (hm : IsMantissa Text.isHexDigit m) (hmark : mark = 'p' ∨ mark = 'P') (hx : IsExponent x) :
    IsNumber ('0' :: base :: m ++ mark :: x)

/-- A numeral: a name, or a number with at most one suffix letter. -/
inductive IsNumeral : List Char → Prop
  | nan : IsNumeral ['N', 'a', 'N']
  | infinity : IsNumeral ['I', 'n', 'f', 'i', 'n', 'i', 't', 'y']
  | number {text : List Char} (h : IsNumber text) : IsNumeral text
  | suffixed {text : List Char} {c : Char} (h : IsNumber text) (hc : isSuffix c = true) :
    IsNumeral (text ++ [c])

/-! ## What is read has the pattern -/

private theorem eq_true_of_mem_takeWhile {p : Char → Bool} {text : List Char} {c : Char}
    (h : c ∈ text.takeWhile p) : p c = true := by
  have hall := List.all_takeWhile (p := p) (l := text)
  rw [List.all_eq_true] at hall
  exact hall c h

theorem isDigits_of_natural? {text : List Char} {n : Nat} (h : natural? text = some n) :
    IsDigits text := by
  rw [natural?] at h
  split at h
  · next hd => exact ⟨hd.1, List.all_eq_true.mp hd.2⟩
  · exact absurd h (by simp)

theorem isExponent_of_integer? {text : List Char} {k : Int} (h : integer? text = some k) :
    IsExponent text := by
  rw [integer?.eq_def] at h
  split at h
  · next digits =>
    obtain ⟨i, hi, -⟩ := Option.map_eq_some_iff.mp h
    obtain ⟨n, hn, -⟩ := Option.bind_eq_some_iff.mp hi
    exact ⟨['-'], digits, Or.inr (Or.inr rfl), isDigits_of_natural? hn, rfl⟩
  · next digits =>
    obtain ⟨i, hi, -⟩ := Option.map_eq_some_iff.mp h
    obtain ⟨n, hn, -⟩ := Option.bind_eq_some_iff.mp hi
    exact ⟨['+'], digits, Or.inr (Or.inl rfl), isDigits_of_natural? hn, rfl⟩
  · obtain ⟨i, hi, -⟩ := Option.map_eq_some_iff.mp h
    obtain ⟨n, hn, -⟩ := Option.bind_eq_some_iff.mp hi
    exact ⟨[], text, Or.inl rfl, isDigits_of_natural? hn, rfl⟩

theorem isMantissa_of_mantissa {digit : Char → Bool} {text whole fraction rest : List Char}
    (h : mantissa digit text = (whole, fraction, rest)) (hne : ¬(whole = [] ∧ fraction = [])) :
    ∃ m, IsMantissa digit m ∧ text = m ++ rest := by
  have hsplit := List.takeWhile_append_dropWhile (p := digit) (l := text)
  rw [mantissa] at h
  split at h
  · next after hafter =>
    obtain ⟨rfl, hf⟩ := Prod.mk.inj h
    obtain ⟨rfl, rfl⟩ := Prod.mk.inj hf
    refine ⟨text.takeWhile digit ++ '.' :: after.takeWhile digit, ?_, ?_⟩
    · refine .pointed ?_ (fun c hc ↦ eq_true_of_mem_takeWhile hc)
        (fun c hc ↦ eq_true_of_mem_takeWhile hc)
      by_contra hcon
      push Not at hcon
      exact hne hcon
    · rw [List.append_assoc, List.cons_append, List.takeWhile_append_dropWhile, ← hafter, hsplit]
  · obtain ⟨rfl, hf⟩ := Prod.mk.inj h
    obtain ⟨rfl, rfl⟩ := Prod.mk.inj hf
    exact ⟨text.takeWhile digit,
      .whole (fun hnil ↦ hne ⟨hnil, rfl⟩) (fun c hc ↦ eq_true_of_mem_takeWhile hc), hsplit.symm⟩

theorem isNumber_of_decimal? {text : List Char} {n : Numeral} (h : decimal? text = some n) :
    IsNumber text := by
  rw [decimal?] at h
  rcases hparts : mantissa Char.isDigit text with ⟨whole, fraction, rest⟩
  simp only [hparts] at h
  split at h
  · exact absurd h (by simp)
  · next hne =>
    obtain ⟨m, hm, rfl⟩ := isMantissa_of_mantissa hparts hne
    cases rest with
    | nil => rw [List.append_nil]; exact .decimal hm
    | cons mark x =>
      simp only at h
      split at h
      · next hmark =>
        obtain ⟨k, hk, -⟩ := Option.map_eq_some_iff.mp h
        exact .scientific hm hmark (isExponent_of_integer? hk)
      · exact absurd h (by simp)

theorem isNumber_of_hexadecimal? {text : List Char} {n : Numeral} {base : Char}
    (hbase : base = 'x' ∨ base = 'X') (h : hexadecimal? text = some n) :
    IsNumber ('0' :: base :: text) := by
  rw [hexadecimal?] at h
  rcases hparts : mantissa Text.isHexDigit text with ⟨whole, fraction, rest⟩
  simp only [hparts] at h
  split at h
  · exact absurd h (by simp)
  · next hne =>
    obtain ⟨m, hm, rfl⟩ := isMantissa_of_mantissa hparts hne
    cases rest with
    | nil => exact absurd h (by simp)
    | cons mark x =>
      simp only at h
      split at h
      · next hmark =>
        obtain ⟨k, hk, -⟩ := Option.map_eq_some_iff.mp h
        exact .hexadecimal hbase hm hmark (isExponent_of_integer? hk)
      · exact absurd h (by simp)

theorem isNumber_of_number? {text : List Char} {n : Numeral} (h : number? text = some n) :
    IsNumber text := by
  rw [number?.eq_def] at h
  split at h
  · exact isNumber_of_hexadecimal? (Or.inl rfl) h
  · exact isNumber_of_hexadecimal? (Or.inr rfl) h
  · exact isNumber_of_decimal? h

theorem isNumeral_of_read? {text : List Char} {n : Numeral} (h : read? text = some n) :
    IsNumeral text := by
  rw [read?] at h
  split at h
  · next hnan => rw [hnan]; exact .nan
  · split at h
    · next hinf => rw [hinf]; exact .infinity
    · -- a suffix that was dropped goes back to the end of the number
      have hnum := isNumber_of_number? h
      rw [dropSuffix] at hnum
      split at hnum
      · next c hlast =>
        split at hnum
        · next hc =>
          rw [← List.dropLast_append_getLast? c hlast]
          exact .suffixed hnum hc
        · exact .number hnum
      · exact .number hnum

end Numeral

namespace Literal

/-- Padding and nothing else. -/
def IsPad (text : List Char) : Prop := ∀ c ∈ text, isPadding c = true

/-- A numeral with a sign in front and padding around it. -/
def IsLiteralText (text : List Char) : Prop :=
  ∃ pad sign body pad', IsPad pad ∧ Numeral.IsSign sign ∧ Numeral.IsNumeral body ∧ IsPad pad' ∧
    text = pad ++ (sign ++ (body ++ pad'))

theorem exists_isPad_dropPadding (text : List Char) :
    ∃ pad pad', IsPad pad ∧ IsPad pad' ∧ text = pad ++ (dropPadding text ++ pad') := by
  have hall : ∀ t : List Char, IsPad (t.takeWhile isPadding) := fun t c hc ↦
    List.all_eq_true.mp List.all_takeWhile c hc
  refine ⟨text.takeWhile isPadding,
    ((text.dropWhile isPadding).reverse.takeWhile isPadding).reverse, hall text,
    fun c hc ↦ hall _ c (List.mem_reverse.mp hc), ?_⟩
  rw [dropPadding, ← List.reverse_append, List.takeWhile_append_dropWhile, List.reverse_reverse,
    List.takeWhile_append_dropWhile]

theorem exists_sign_of_readBare? {text : List Char} {l : Literal} (h : readBare? text = some l) :
    ∃ sign body, Numeral.IsSign sign ∧ Numeral.IsNumeral body ∧ text = sign ++ body := by
  rw [readBare?.eq_def] at h
  split at h
  · next body =>
    obtain ⟨n, hn, -⟩ := Option.map_eq_some_iff.mp h
    exact ⟨['-'], body, Or.inr (Or.inr rfl), Numeral.isNumeral_of_read? hn, rfl⟩
  · next body =>
    obtain ⟨n, hn, -⟩ := Option.map_eq_some_iff.mp h
    exact ⟨['+'], body, Or.inr (Or.inl rfl), Numeral.isNumeral_of_read? hn, rfl⟩
  · obtain ⟨n, hn, -⟩ := Option.map_eq_some_iff.mp h
    exact ⟨[], text, Or.inl rfl, Numeral.isNumeral_of_read? hn, rfl⟩

/-- **Every text that is read as a literal has the pattern of one.** -/
theorem isLiteralText_of_read? {text : List Char} {l : Literal} (h : read? text = some l) :
    IsLiteralText text := by
  obtain ⟨pad, pad', hpad, hpad', htext⟩ := exists_isPad_dropPadding text
  obtain ⟨sign, body, hsign, hbody, hbare⟩ := exists_sign_of_readBare? h
  exact ⟨pad, sign, body, pad', hpad, hsign, hbody, hpad', by
    rw [htext, hbare, List.append_assoc]⟩

theorem isLiteralText_of_readLiteral? {text : List Char} {v : Float}
    (h : readLiteral? text = some v) : IsLiteralText text := by
  obtain ⟨l, hl, -⟩ := Option.map_eq_some_iff.mp h
  exact isLiteralText_of_read? hl

end Literal

/-! ## How a literal starts -/

namespace Numeral

theorem IsMantissa.exists_head {digit : Char → Bool} {m : List Char} (h : IsMantissa digit m) :
    ∃ c rest, m = c :: rest ∧ (digit c = true ∨ c = '.') := by
  cases h with
  | whole hne hw =>
    obtain ⟨c, rest, rfl⟩ := List.exists_cons_of_ne_nil hne
    exact ⟨c, rest, rfl, Or.inl (hw c List.mem_cons_self)⟩
  | @pointed whole fraction _ hw _ =>
    cases whole with
    | nil => exact ⟨'.', fraction, rfl, Or.inr rfl⟩
    | cons c rest => exact ⟨c, _, rfl, Or.inl (hw c List.mem_cons_self)⟩

theorem IsNumber.exists_head {text : List Char} (h : IsNumber text) :
    ∃ c rest, text = c :: rest ∧ (c.isDigit = true ∨ c = '.') := by
  cases h with
  | decimal hm => exact hm.exists_head
  | scientific hm _ _ =>
    obtain ⟨c, rest, rfl, hc⟩ := hm.exists_head
    exact ⟨c, _, rfl, hc⟩
  | hexadecimal => exact ⟨'0', _, rfl, Or.inl (by decide)⟩

/-- A numeral starts with a character that makes a sign before it the sign of a number. -/
theorem IsNumeral.exists_head {text : List Char} (h : IsNumeral text) :
    ∃ c rest, text = c :: rest ∧ Diagnosis.followsSign c = true := by
  have hnumber : ∀ t, IsNumber t → ∃ c rest, t = c :: rest ∧ Diagnosis.followsSign c = true := by
    intro t ht
    obtain ⟨c, rest, rfl, hc⟩ := ht.exists_head
    refine ⟨c, rest, rfl, ?_⟩
    rcases hc with hc | rfl
    · simp [Diagnosis.followsSign, hc]
    · decide
  cases h with
  | nan => exact ⟨'N', _, rfl, by decide⟩
  | infinity => exact ⟨'I', _, rfl, by decide⟩
  | number h => exact hnumber _ h
  | suffixed h _ =>
    obtain ⟨c, rest, rfl, hc⟩ := hnumber _ h
    exact ⟨c, _, rfl, hc⟩

theorem IsNumeral.not_signed {text : List Char} (h : IsNumeral text) (rest : List Char) :
    text ≠ '-' :: rest ∧ text ≠ '+' :: rest := by
  obtain ⟨c, t, rfl, hc⟩ := h.exists_head
  constructor
  · rintro ⟨⟩
    exact absurd hc (by decide)
  · rintro ⟨⟩
    exact absurd hc (by decide)

theorem not_name_of_head {c : Char} {rest : List Char} (hc : c.isDigit = true ∨ c = '.') :
    c :: rest ≠ ['N', 'a', 'N'] ∧ c :: rest ≠ ['I', 'n', 'f', 'i', 'n', 'i', 't', 'y'] := by
  constructor
  · rintro ⟨⟩
    exact absurd hc (by decide)
  · rintro ⟨⟩
    exact absurd hc (by decide)

end Numeral

namespace Literal

theorem IsLiteralText.exists_head {text : List Char} (h : IsLiteralText text) :
    ∃ c rest, text = c :: rest ∧ (isPadding c = true ∨ Diagnosis.followsSign c = true ∨
      (c = '+' ∨ c = '-') ∧ ∃ d rest', rest = d :: rest' ∧ Diagnosis.followsSign d = true) := by
  obtain ⟨pad, sign, body, pad', hpad, hsign, hbody, -, rfl⟩ := h
  obtain ⟨d, rest, rfl, hd⟩ := hbody.exists_head
  cases pad with
  | cons c pad => exact ⟨c, _, rfl, Or.inl (hpad c List.mem_cons_self)⟩
  | nil =>
    rcases hsign with rfl | rfl | rfl
    · exact ⟨d, _, rfl, Or.inr (Or.inl hd)⟩
    · exact ⟨'+', _, rfl, Or.inr (Or.inr ⟨Or.inl rfl, d, _, rfl, hd⟩)⟩
    · exact ⟨'-', _, rfl, Or.inr (Or.inr ⟨Or.inr rfl, d, _, rfl, hd⟩)⟩

theorem not_isPadding_of_lt {c : Char} (h : ' ' < c) : isPadding c = false :=
  decide_eq_false (Char.not_le.mpr h)

theorem not_isPadding_of_isDigit {c : Char} (h : c.isDigit = true) : isPadding c = false := by
  simp only [Char.isDigit, Bool.and_eq_true, decide_eq_true_eq, ge_iff_le,
    UInt32.le_iff_toNat_le] at h
  refine not_isPadding_of_lt ?_
  rw [Char.lt_def, UInt32.lt_iff_toNat_lt]
  exact Nat.lt_of_lt_of_le (by decide : (' ').val.toNat < (48 : UInt32).toNat) h.1

theorem IsLiteralText.head_ne {c : Char} {rest : List Char} (h : IsLiteralText (c :: rest))
    {d : Char} (hd : isPadding d = false ∧ Diagnosis.followsSign d = false ∧ d ≠ '+' ∧ d ≠ '-') :
    c ≠ d := by
  rintro rfl
  obtain ⟨c', rest', heq, hc⟩ := h.exists_head
  obtain ⟨rfl, -⟩ := List.cons.inj heq
  rcases hc with hc | hc | ⟨rfl | rfl, -⟩
  · rw [hd.1] at hc
    exact absurd hc (by simp)
  · rw [hd.2.1] at hc
    exact absurd hc (by simp)
  · exact hd.2.2.1 rfl
  · exact hd.2.2.2 rfl

end Literal

/-! ## The characters of a literal -/

namespace Literal

/-- Signs, the point, and the letters of literals that are no digits. -/
def marks : List Char := ['+', '-', '.', 'N', 'I', 'n', 'i', 't', 'y', 'x', 'X', 'p', 'P']

/-- A class of characters that has all those of signs and numerals in it. -/
structure CoversNumerals (p : Char → Bool) : Prop where
  hexDigit : ∀ c, Text.isHexDigit c = true → p c = true
  marks : marks.all p = true

/-- A class of characters that has all those of literals in it. -/
structure Covers (p : Char → Bool) : Prop where
  padding : ∀ c, isPadding c = true → p c = true
  hexDigit : ∀ c, Text.isHexDigit c = true → p c = true
  marks : marks.all p = true

theorem Covers.numerals {p : Char → Bool} (hp : Covers p) : CoversNumerals p :=
  ⟨hp.hexDigit, hp.marks⟩

theorem CoversNumerals.mark {p : Char → Bool} (hp : CoversNumerals p) (c : Char)
    (hc : c ∈ Literal.marks) : p c = true :=
  List.all_eq_true.mp hp.marks c hc

theorem coversNumerals_not_isPadding : CoversNumerals fun c ↦ !isPadding c where
  hexDigit c hc := by
    rw [Text.isHexDigit, Bool.or_eq_true, Bool.or_eq_true, Bool.and_eq_true, Bool.and_eq_true,
      decide_eq_true_eq, decide_eq_true_eq, decide_eq_true_eq, decide_eq_true_eq] at hc
    rw [Bool.not_eq_true']
    rcases hc with (hc | ⟨hc, -⟩) | ⟨hc, -⟩
    · exact not_isPadding_of_isDigit hc
    · exact not_isPadding_of_lt (Std.lt_of_lt_of_le (by decide) hc)
    · exact not_isPadding_of_lt (Std.lt_of_lt_of_le (by decide) hc)
  marks := by decide

end Literal

namespace Numeral

open Literal (CoversNumerals)

variable {p : Char → Bool} {text : List Char}

theorem covers_digit (hp : CoversNumerals p) {c : Char} (hc : c.isDigit = true) : p c = true := by
  refine hp.hexDigit c ?_
  rw [Text.isHexDigit, hc]
  rfl

theorem IsSign.covered (hp : CoversNumerals p) (h : IsSign text) : ∀ c ∈ text, p c = true := by
  rcases h with rfl | rfl | rfl
  · exact fun c hc ↦ absurd hc (by simp)
  · exact List.forall_mem_singleton.mpr (hp.mark _ (by decide))
  · exact List.forall_mem_singleton.mpr (hp.mark _ (by decide))

theorem IsExponent.covered (hp : CoversNumerals p) (h : IsExponent text) :
    ∀ c ∈ text, p c = true := by
  obtain ⟨sign, digits, hsign, hdigits, rfl⟩ := h
  exact List.forall_mem_append.mpr
    ⟨hsign.covered hp, fun c hc ↦ covers_digit hp (hdigits.2 c hc)⟩

theorem IsMantissa.forall_mem {digit : Char → Bool} {m : List Char} (h : IsMantissa digit m) :
    ∀ c ∈ m, (digit c || c = '.') = true := by
  intro c hc
  cases h with
  | whole _ hw => simp [hw c hc]
  | pointed _ hw hf =>
    rcases List.mem_append.mp hc with hc | hc
    · simp [hw c hc]
    · rcases List.mem_cons.mp hc with rfl | hc
      · simp
      · simp [hf c hc]

theorem IsMantissa.covered {digit : Char → Bool} (hp : CoversNumerals p) (h : IsMantissa digit text)
    (hdigit : ∀ c, digit c = true → p c = true) : ∀ c ∈ text, p c = true := by
  intro c hc
  have hmem := h.forall_mem c hc
  rw [Bool.or_eq_true, decide_eq_true_eq] at hmem
  rcases hmem with hmem | rfl
  · exact hdigit c hmem
  · exact hp.mark _ (by decide)

theorem IsNumber.covered (hp : CoversNumerals p) (h : IsNumber text) : ∀ c ∈ text, p c = true := by
  cases h with
  | decimal hm => exact hm.covered hp fun _ ↦ covers_digit hp
  | scientific hm hmark hx =>
    refine List.forall_mem_append.mpr ⟨hm.covered hp fun _ ↦ covers_digit hp, ?_⟩
    refine List.forall_mem_cons.mpr ⟨?_, hx.covered hp⟩
    rcases hmark with rfl | rfl <;> exact hp.hexDigit _ (by decide)
  | hexadecimal hbase hm hmark hx =>
    refine List.forall_mem_append.mpr ⟨?_, List.forall_mem_cons.mpr ⟨?_, hx.covered hp⟩⟩
    · refine List.forall_mem_cons.mpr ⟨hp.hexDigit _ (by decide), List.forall_mem_cons.mpr ⟨?_, ?_⟩⟩
      · rcases hbase with rfl | rfl <;> exact hp.mark _ (by decide)
      · exact hm.covered hp hp.hexDigit
    · rcases hmark with rfl | rfl <;> exact hp.mark _ (by decide)

theorem IsNumeral.covered (hp : CoversNumerals p) (h : IsNumeral text) :
    ∀ c ∈ text, p c = true := by
  have hname : ∀ name : List Char,
      (name.all fun c ↦ Text.isHexDigit c || Literal.marks.elem c) = true →
        ∀ c ∈ name, p c = true := by
    intro name hall c hc
    have hmem := List.all_eq_true.mp hall c hc
    rw [Bool.or_eq_true, List.elem_eq_mem, decide_eq_true_eq] at hmem
    exact hmem.elim (hp.hexDigit c) (hp.mark c)
  cases h with
  | nan => exact hname _ (by decide)
  | infinity => exact hname _ (by decide)
  | number h => exact h.covered hp
  | @suffixed text c h hc =>
    refine List.forall_mem_append.mpr ⟨h.covered hp, List.forall_mem_singleton.mpr ?_⟩
    simp only [isSuffix, Bool.or_eq_true, decide_eq_true_eq] at hc
    rcases hc with ((rfl | rfl) | rfl) | rfl <;> exact hp.hexDigit _ (by decide)

end Numeral

/-- **A literal has no characters outside a class that covers literals.** -/
theorem Literal.IsLiteralText.covered {p : Char → Bool} {text : List Char} (hp : Literal.Covers p)
    (h : Literal.IsLiteralText text) : ∀ c ∈ text, p c = true := by
  obtain ⟨pad, sign, body, pad', hpad, hsign, hbody, hpad', rfl⟩ := h
  refine List.forall_mem_append.mpr ⟨fun c hc ↦ hp.padding c (hpad c hc), ?_⟩
  refine List.forall_mem_append.mpr ⟨hsign.covered hp.numerals, ?_⟩
  exact List.forall_mem_append.mpr ⟨hbody.covered hp.numerals, fun c hc ↦ hp.padding c (hpad' c hc)⟩

end CurveCalc
