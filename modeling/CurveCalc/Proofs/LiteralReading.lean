import CurveCalc.Proofs.NumberText

/-!
# What has the pattern of a literal is read as one

`isLiteralText_of_read?` says that the reader accepts nothing but literals; here it is shown to
accept all of them (`isLiteral_iff`). The pieces of a literal are cut off where the pattern has put
them: a mantissa ends before its mark, a number does not end in a suffix letter, a numeral does not
start with a sign, and neither has padding in it.

So padding around a literal and a suffix behind its number are of no account, and the sign in front
of it is the sign of its value.
-/

namespace CurveCalc

namespace Numeral

variable {digit : Char → Bool} {m whole fraction text : List Char}

/-! ## Mantissas and exponents -/

/-- The digits before and after the point of a mantissa, of which there is at least one. -/
structure Parts (digit : Char → Bool) (m whole fraction : List Char) : Prop where
  text_eq : m = whole ∧ fraction = [] ∨ m = whole ++ '.' :: fraction
  digit_whole : ∀ c ∈ whole, digit c = true
  digit_fraction : ∀ c ∈ fraction, digit c = true
  nonempty : ¬(whole = [] ∧ fraction = [])

theorem IsMantissa.exists_parts (h : IsMantissa digit m) :
    ∃ whole fraction, Parts digit m whole fraction := by
  cases h with
  | whole hne hw =>
    exact ⟨m, [], Or.inl ⟨rfl, rfl⟩, hw, List.forall_mem_nil _, fun hnil ↦ hne hnil.1⟩
  | @pointed whole fraction hne hw hf =>
    exact ⟨whole, fraction, Or.inr rfl, hw, hf, not_and_or.mpr hne⟩

theorem Parts.isMantissa (h : Parts digit m whole fraction) : IsMantissa digit m := by
  rcases h.text_eq with ⟨rfl, rfl⟩ | rfl
  · exact .whole (fun hnil ↦ h.nonempty ⟨hnil, rfl⟩) h.digit_whole
  · exact .pointed (not_and_or.mp h.nonempty) h.digit_whole h.digit_fraction

/-- A mantissa is cut off before the first character that cannot be in it. -/
theorem Parts.mantissa_eq (h : Parts digit m whole fraction) (hpoint : digit '.' = false)
    (rest : List Char) (hrest : ∀ c ∈ rest.head?, digit c = false ∧ c ≠ '.') :
    mantissa digit (m ++ rest) = (whole, fraction, rest) := by
  have hdigit : ∀ c ∈ rest.head?, digit c = false := fun c hc ↦ (hrest c hc).1
  rcases h.text_eq with ⟨rfl, rfl⟩ | rfl
  · exact mantissa_whole rest h.digit_whole hdigit fun hc ↦ (hrest '.' hc).2 rfl
  · rw [List.append_assoc, List.cons_append]
    exact mantissa_pointed hpoint rest h.digit_whole h.digit_fraction hdigit

theorem IsMantissa.notMem (h : IsMantissa digit m) {c : Char} (hc : digit c = false ∧ c ≠ '.') :
    c ∉ m := by
  intro hmem
  have hall := h.forall_mem c hmem
  rw [hc.1, Bool.false_or, decide_eq_true_eq] at hall
  exact hc.2 hall

theorem IsExponent.forall_mem (h : IsExponent text) :
    ∀ c ∈ text, c.isDigit = true ∨ c = '+' ∨ c = '-' := by
  obtain ⟨sign, digits, hsign, hdigits, rfl⟩ := h
  refine List.forall_mem_append.mpr ⟨?_, fun c hc ↦ Or.inl (hdigits.2 c hc)⟩
  rcases hsign with rfl | rfl | rfl <;> simp

theorem IsExponent.notMem (h : IsExponent text) {c : Char}
    (hc : c.isDigit = false ∧ c ≠ '+' ∧ c ≠ '-') : c ∉ text := by
  intro hmem
  rcases h.forall_mem c hmem with hdigit | heq | heq
  · exact absurd (hc.1.symm.trans hdigit) Bool.false_ne_true
  · exact hc.2.1 heq
  · exact hc.2.2 heq

theorem IsExponent.ne_nil (h : IsExponent text) : text ≠ [] := by
  obtain ⟨sign, digits, -, hdigits, rfl⟩ := h
  exact List.append_ne_nil_of_right_ne_nil sign hdigits.1

/-- **Every exponent is read**, be it as large as it may. -/
theorem IsExponent.exists_integer? (h : IsExponent text) : ∃ k, integer? text = some k := by
  obtain ⟨sign, digits, hsign, hdigits, rfl⟩ := h
  have hnatural := natural?_of_isDigits hdigits
  rcases hsign with rfl | rfl | rfl
  · exact ⟨_, by rw [List.nil_append, integer?_of_isDigits hdigits, hnatural]; rfl⟩
  · exact ⟨_, by rw [List.singleton_append, integer?, hnatural]; rfl⟩
  · exact ⟨_, by rw [List.singleton_append, integer?, hnatural]; rfl⟩

/-! ## Numbers -/

theorem IsMantissa.exists_decimal? (h : IsMantissa Char.isDigit m) :
    ∃ whole fraction k, decimal? m = some (.decimal whole fraction k) := by
  obtain ⟨whole, fraction, hparts⟩ := h.exists_parts
  have hcut := hparts.mantissa_eq (by decide) [] (by simp)
  rw [List.append_nil] at hcut
  refine ⟨whole, fraction, 0, ?_⟩
  simp only [decimal?, hcut]
  exact if_neg hparts.nonempty

theorem IsMantissa.exists_decimal?_marked (h : IsMantissa Char.isDigit m) {mark : Char}
    (hmark : mark = 'e' ∨ mark = 'E') {x : List Char} (hx : IsExponent x) :
    ∃ whole fraction k, decimal? (m ++ mark :: x) = some (.decimal whole fraction k) := by
  obtain ⟨whole, fraction, hparts⟩ := h.exists_parts
  obtain ⟨k, hk⟩ := hx.exists_integer?
  have hcut := hparts.mantissa_eq (by decide) (mark :: x) (by
    rintro c ⟨⟩
    rcases hmark with rfl | rfl <;> decide)
  refine ⟨whole, fraction, k, ?_⟩
  simp only [decimal?, hcut, if_pos hmark, hk, Option.map_some]
  exact if_neg hparts.nonempty

theorem Parts.hexadecimal?_eq (h : Parts Text.isHexDigit m whole fraction) {mark : Char}
    (hmark : mark = 'p' ∨ mark = 'P') {x : List Char} {k : ℤ} (hk : integer? x = some k) :
    hexadecimal? (m ++ mark :: x) = some (.hexadecimal whole fraction k) := by
  have hcut := h.mantissa_eq (by decide) (mark :: x) (by
    rintro c ⟨⟩
    rcases hmark with rfl | rfl <;> decide)
  simp only [hexadecimal?, hcut, if_pos hmark, hk, Option.map_some]
  exact if_neg h.nonempty

theorem IsMantissa.notMem_marked (hm : IsMantissa Char.isDigit m) {mark : Char}
    (hmark : mark = 'e' ∨ mark = 'E') {x : List Char} (hx : IsExponent x) {c : Char}
    (hc : (c.isDigit = false ∧ c ≠ '.') ∧ (c ≠ '+' ∧ c ≠ '-') ∧ c ≠ 'e' ∧ c ≠ 'E') :
    c ∉ m ++ mark :: x := by
  intro hmem
  rcases List.mem_append.mp hmem with hmem | hmem
  · exact hm.notMem hc.1 hmem
  · rcases List.mem_cons.mp hmem with rfl | hmem
    · exact hmark.elim hc.2.2.1 hc.2.2.2
    · exact hx.notMem ⟨hc.1.1, hc.2.1⟩ hmem

/-- **Every number is read**, and it has a magnitude. -/
theorem IsNumber.exists_number? (h : IsNumber text) :
    ∃ n magnitude, number? text = some n ∧ n.magnitude? = some magnitude := by
  cases h with
  | decimal hm =>
    rw [number?_eq_decimal? (hm.notMem (by decide)) (hm.notMem (by decide))]
    obtain ⟨whole, fraction, k, hread⟩ := hm.exists_decimal?
    exact ⟨_, _, hread, rfl⟩
  | scientific hm hmark hx =>
    rw [number?_eq_decimal? (hm.notMem_marked hmark hx (by decide))
      (hm.notMem_marked hmark hx (by decide))]
    obtain ⟨whole, fraction, k, hread⟩ := hm.exists_decimal?_marked hmark hx
    exact ⟨_, _, hread, rfl⟩
  | hexadecimal hbase hm hmark hx =>
    obtain ⟨whole, fraction, hparts⟩ := hm.exists_parts
    obtain ⟨k, hk⟩ := hx.exists_integer?
    refine ⟨.hexadecimal whole fraction k, _, ?_, rfl⟩
    rw [← hparts.hexadecimal?_eq hmark hk]
    rcases hbase with rfl | rfl <;> rfl

/-! ## Suffixes and names -/

theorem IsNumber.not_isSuffix_last (h : IsNumber text) :
    ∀ c ∈ text.getLast?, isSuffix c = false := by
  have hdigit : ∀ c : Char, c.isDigit = true → isSuffix c = false := by
    intro c hc
    rw [Bool.eq_false_iff]
    intro hsuffix
    simp only [isSuffix, Bool.or_eq_true, decide_eq_true_eq] at hsuffix
    rcases hsuffix with ((rfl | rfl) | rfl) | rfl <;> exact absurd hc (by decide)
  have hexponent : ∀ (front x : List Char), IsExponent x → ∀ c ∈ (front ++ x).getLast?,
      isSuffix c = false := by
    intro front x hx c hc
    rw [List.getLast?_append_of_ne_nil _ hx.ne_nil] at hc
    rcases hx.forall_mem c (List.mem_of_getLast? hc) with hc | rfl | rfl
    · exact hdigit c hc
    all_goals decide
  cases h with
  | decimal hm =>
    intro c hc
    have hmem := hm.forall_mem c (List.mem_of_getLast? hc)
    rw [Bool.or_eq_true, decide_eq_true_eq] at hmem
    rcases hmem with hmem | rfl
    · exact hdigit c hmem
    · decide
  | @scientific m x mark _ _ hx =>
    rw [List.append_cons]
    exact hexponent _ x hx
  | @hexadecimal m x base mark _ _ _ hx =>
    rw [List.append_cons]
    exact hexponent _ x hx

theorem IsNumber.dropSuffix_eq (h : IsNumber text) : dropSuffix text = text :=
  dropSuffix_eq_self h.not_isSuffix_last

theorem dropSuffix_concat (text : List Char) {c : Char} (hc : isSuffix c = true) :
    dropSuffix (text ++ [c]) = text := by
  simp [dropSuffix, hc]

theorem read?_eq_number? {c : Char} {rest : List Char} (hc : c.isDigit = true ∨ c = '.') :
    read? (c :: rest) = number? (dropSuffix (c :: rest)) := by
  obtain ⟨hnan, hinfinity⟩ := @not_name_of_head c rest hc
  rw [read?, if_neg hnan, if_neg hinfinity]

theorem IsNumber.read?_eq (h : IsNumber text) : read? text = number? text := by
  obtain ⟨c, rest, rfl, hc⟩ := h.exists_head
  rw [read?_eq_number? hc, h.dropSuffix_eq]

/-- **A suffix makes no difference.** -/
theorem IsNumber.read?_concat (h : IsNumber text) {c : Char} (hc : isSuffix c = true) :
    read? (text ++ [c]) = read? text := by
  rw [h.read?_eq]
  obtain ⟨d, rest, rfl, hd⟩ := h.exists_head
  rw [List.cons_append, read?_eq_number? hd, ← List.cons_append, dropSuffix_concat _ hc]

/-- **Every numeral is read.** -/
theorem IsNumeral.exists_read? (h : IsNumeral text) : ∃ n, read? text = some n := by
  cases h with
  | nan => exact ⟨.nan, rfl⟩
  | infinity => exact ⟨.infinity, rfl⟩
  | number h =>
    rw [h.read?_eq]
    obtain ⟨n, -, hn, -⟩ := h.exists_number?
    exact ⟨n, hn⟩
  | suffixed h hc =>
    rw [h.read?_concat hc, h.read?_eq]
    obtain ⟨n, -, hn, -⟩ := h.exists_number?
    exact ⟨n, hn⟩

end Numeral

/-! ## Signs -/

namespace Literal

open Numeral (IsSign IsNumeral)

variable {sign body text pad pad' : List Char}

theorem readBare?_sign (hsign : IsSign sign) (hbody : IsNumeral body) :
    readBare? (sign ++ body) = (Numeral.read? body).map (⟨decide (sign = ['-']), ·⟩) := by
  rcases hsign with rfl | rfl | rfl
  · obtain ⟨n, hn⟩ := hbody.exists_read?
    rw [List.nil_append, hn]
    exact readBare?_signed false hn
  · rfl
  · rfl

/-! ## Padding -/

/-- **Padding around a text is dropped**, whatever the text is. -/
theorem dropPadding_padded (hpad : IsPad pad) (hpad' : IsPad pad') (text : List Char) :
    dropPadding (pad ++ (text ++ pad')) = dropPadding text := by
  rw [dropPadding, List.dropWhile_append_of_pos hpad, List.dropWhile_append]
  split
  · next hempty =>
    -- there is nothing but padding
    have hdrop : pad'.dropWhile isPadding = [] := List.dropWhile_eq_nil_iff.mpr hpad'
    rw [hdrop, dropPadding, List.isEmpty_iff.mp hempty]
  · rw [List.reverse_append,
      List.dropWhile_append_of_pos fun c hc ↦ hpad' c (List.mem_reverse.mp hc), dropPadding]

theorem read?_padded (hpad : IsPad pad) (hpad' : IsPad pad') (text : List Char) :
    read? (pad ++ (text ++ pad')) = read? text := by
  rw [read?, dropPadding_padded hpad hpad', read?]

theorem not_isPadding_signed (hsign : IsSign sign) (hbody : IsNumeral body) :
    ∀ c ∈ sign ++ body, isPadding c = false := by
  have hclass := coversNumerals_not_isPadding
  intro c hc
  rw [← Bool.not_eq_true']
  exact (List.mem_append.mp hc).elim (hsign.covered hclass c) (hbody.covered hclass c)

theorem read?_sign (hsign : IsSign sign) (hbody : IsNumeral body) :
    read? (sign ++ body) = (Numeral.read? body).map (⟨decide (sign = ['-']), ·⟩) := by
  rw [read?, dropPadding_of_forall (not_isPadding_signed hsign hbody),
    readBare?_sign hsign hbody]

end Literal

/-- **The literals are the texts that have the pattern of one.** -/
theorem isLiteral_iff {text : List Char} :
    isLiteral text = true ↔ Literal.IsLiteralText text := by
  rw [isLiteral, Option.isSome_iff_exists]
  constructor
  · rintro ⟨l, hl⟩
    exact Literal.isLiteralText_of_read? hl
  · rintro ⟨pad, sign, body, pad', hpad, hsign, hbody, hpad', rfl⟩
    obtain ⟨n, hn⟩ := hbody.exists_read?
    rw [← List.append_assoc sign, Literal.read?_padded hpad hpad', Literal.read?_sign hsign hbody,
      hn]
    exact ⟨_, rfl⟩

/-! ## Values -/

theorem Numeral.magnitude?_le {n : Numeral} {magnitude : ℕ} (h : n.magnitude? = some magnitude) :
    magnitude ≤ Binary64.infinityMagnitude := by
  cases n with
  | nan => exact absurd h (by simp [Numeral.magnitude?])
  | infinity => exact Nat.le_of_eq (Option.some.inj h).symm
  | decimal =>
    obtain rfl := Option.some.inj h
    exact Binary64.nearestMagnitude_le _ _
  | hexadecimal =>
    obtain rfl := Option.some.inj h
    rw [Hexadecimal.magnitude]
    split
    · exact Nat.zero_le _
    · exact Binary64.mulMagnitudes_le _ _

/-- **A minus sign negates the value.** -/
theorem Literal.value_negative (n : Numeral) :
    Literal.value ⟨true, n⟩ = -Literal.value ⟨false, n⟩ := by
  rw [Literal.value, Literal.value]
  simp only
  cases hmagnitude : n.magnitude? with
  | none => exact Binary64.neg_nan.symm
  | some magnitude => exact (Binary64.neg_signed false (Numeral.magnitude?_le hmagnitude)).symm

end CurveCalc
