import CurveCalc.Number.Style
import CurveCalc.Proofs.FloatBits
import CurveCalc.Proofs.LiteralPattern
import CurveCalc.Proofs.Rounding

/-!
# Numbers read back

What a `NumberStyle` writes for a finite magnitude is a numeral, and it is read as that magnitude:
the digits may stand before a point, around it, after zeros or in front of an exponent, but the
value they stand for is that of the decimal written. `readLiteral?_write` puts the sign and the
names back and says that every double written as a literal is read as itself, bit for bit.
-/

namespace CurveCalc

namespace Numeral

/-! ## Digits -/

theorem isDigits_toDigits (n : ℕ) : IsDigits (Nat.toDigits 10 n) :=
  ⟨Nat.toDigits_ne_nil, fun _ hc ↦ Nat.isDigit_of_mem_toDigits (by decide) (by decide) hc⟩

theorem isDigits_zero : IsDigits ['0'] :=
  ⟨List.cons_ne_nil '0' [], List.forall_mem_singleton.mpr (by decide)⟩

theorem IsDigits.take {digits : List Char} (h : IsDigits digits) {n : ℕ} (hn : 0 < n) :
    IsDigits (digits.take n) := by
  refine ⟨?_, fun c hc ↦ h.2 c (List.mem_of_mem_take hc)⟩
  rw [Ne, List.take_eq_nil_iff]
  rintro (hzero | hnil)
  · exact hn.ne' hzero
  · exact h.1 hnil

theorem IsDigits.isDigit_of_mem_drop {digits : List Char} (h : IsDigits digits) (n : ℕ) :
    ∀ c ∈ digits.drop n, c.isDigit = true := fun c hc ↦ h.2 c (List.mem_of_mem_drop hc)

theorem natural?_of_isDigits {text : List Char} (h : IsDigits text) :
    natural? text = some (Nat.ofDigitChars 10 text 0) :=
  if_pos ⟨h.1, List.all_eq_true.mpr h.2⟩

theorem natural?_toDigits (n : ℕ) : natural? (Nat.toDigits 10 n) = some n := by
  rw [natural?_of_isDigits (isDigits_toDigits n), Nat.ofDigitChars_ten_toDigits]

theorem integer?_of_isDigits {text : List Char} (h : IsDigits text) :
    integer? text = (natural? text).map fun n ↦ (n : ℤ) := by
  rw [integer?.eq_def]
  split
  · exact absurd (h.2 '-' List.mem_cons_self) (by decide)
  · exact absurd (h.2 '+' List.mem_cons_self) (by decide)
  · rfl

theorem integer?_integerText : ∀ k : ℤ, integer? (NumberStyle.integerText k) = some k
  | .ofNat n => by
    rw [NumberStyle.integerText, integer?_of_isDigits (isDigits_toDigits n), natural?_toDigits]
    rfl
  | .negSucc n => by
    rw [NumberStyle.integerText, integer?, natural?_toDigits]
    rfl

/-! ## Decimal numerals -/

private theorem takeWhile_append {digit : Char → Bool} {whole : List Char} (rest : List Char)
    (hw : ∀ c ∈ whole, digit c = true) (hrest : ∀ c ∈ rest.head?, digit c = false) :
    (whole ++ rest).takeWhile digit = whole ∧ (whole ++ rest).dropWhile digit = rest := by
  rw [List.takeWhile_append_of_pos hw, List.dropWhile_append_of_pos hw]
  cases rest with
  | nil => simp
  | cons c rest => simp [hrest c rfl]

theorem mantissa_whole {digit : Char → Bool} {whole : List Char} (rest : List Char)
    (hw : ∀ c ∈ whole, digit c = true) (hrest : ∀ c ∈ rest.head?, digit c = false)
    (hpoint : rest.head? ≠ some '.') : mantissa digit (whole ++ rest) = (whole, [], rest) := by
  obtain ⟨htake, hdrop⟩ := takeWhile_append rest hw hrest
  rw [mantissa, htake, hdrop]
  split
  · exact absurd rfl hpoint
  · rfl

theorem mantissa_pointed {digit : Char → Bool} (hpoint : digit '.' = false)
    {whole fraction : List Char} (rest : List Char) (hw : ∀ c ∈ whole, digit c = true)
    (hf : ∀ c ∈ fraction, digit c = true) (hrest : ∀ c ∈ rest.head?, digit c = false) :
    mantissa digit (whole ++ '.' :: (fraction ++ rest)) = (whole, fraction, rest) := by
  obtain ⟨htake, hdrop⟩ := takeWhile_append ('.' :: (fraction ++ rest)) hw (by
    intro c hc
    obtain rfl := Option.some.inj hc
    exact hpoint)
  obtain ⟨htake', hdrop'⟩ := takeWhile_append rest hf hrest
  rw [mantissa, htake, hdrop]
  simp only [htake', hdrop']

theorem decimal?_whole {whole : List Char} (hw : IsDigits whole) :
    decimal? whole = some (.decimal whole [] 0) := by
  have hm := mantissa_whole [] hw.2 (by simp) (by simp)
  rw [List.append_nil] at hm
  simp only [decimal?, hm]
  rw [if_neg fun hc ↦ hw.1 hc.1]

theorem decimal?_pointed {whole fraction : List Char} (hw : IsDigits whole)
    (hf : ∀ c ∈ fraction, c.isDigit = true) :
    decimal? (whole ++ '.' :: fraction) = some (.decimal whole fraction 0) := by
  have hm := mantissa_pointed (by decide) [] hw.2 hf (by simp)
  rw [List.append_nil] at hm
  simp only [decimal?, hm]
  rw [if_neg fun hc ↦ hw.1 hc.1]

theorem decimal?_scientific {whole fraction : List Char} (hw : IsDigits whole)
    (hf : ∀ c ∈ fraction, c.isDigit = true) (k : ℤ) :
    decimal? (whole ++ (if fraction = [] then [] else '.' :: fraction) ++
      'e' :: NumberStyle.integerText k) = some (.decimal whole fraction k) := by
  have hmark : ∀ c ∈ ('e' :: NumberStyle.integerText k).head?, c.isDigit = false := by
    intro c hc
    obtain rfl := Option.some.inj hc
    decide
  have hm : mantissa Char.isDigit (whole ++ (if fraction = [] then [] else '.' :: fraction) ++
      'e' :: NumberStyle.integerText k) = (whole, fraction, 'e' :: NumberStyle.integerText k) := by
    split
    · next hnil =>
      rw [hnil, List.append_nil]
      exact mantissa_whole _ hw.2 hmark (by simp)
    · rw [List.append_assoc, List.cons_append]
      exact mantissa_pointed (by decide) _ hw.2 hf hmark
  simp only [decimal?, hm]
  rw [if_neg fun hc ↦ hw.1 hc.1, if_pos (Or.inl trivial), integer?_integerText]
  rfl

/-- A numeral with the digits of a decimal and zeros after them stands for that decimal, if its
exponent makes up for the zeros. -/
theorem magnitude?_decimal {whole fraction : List Char} {k : ℤ} {d : Decimal} (zeros : ℕ)
    (hdigits : Nat.ofDigitChars 10 (whole ++ fraction) 0 = d.coefficient * 10 ^ zeros)
    (hexp : k - fraction.length = d.exponent - zeros) :
    (Numeral.decimal whole fraction k).magnitude? = some d.magnitude := by
  rw [magnitude?, decimalMagnitude, hdigits, hexp]
  refine congrArg some (Decimal.magnitude_congr ?_)
  have hten : (10 : ℚ) ≠ 0 := by norm_num
  rw [Decimal.value, Decimal.value]
  push_cast
  rw [zpow_sub₀ hten, zpow_natCast, mul_assoc, mul_div_cancel₀ _ (pow_ne_zero _ hten)]

end Numeral

namespace NumberStyle

/-! ## Where the digits of a decimal go -/

section Digits

variable {s : NumberStyle} {d : Decimal} {digits : List Char} {order : ℤ}

private theorem isDigit_of_mem_append_replicate {text : List Char}
    (h : ∀ c ∈ text, c.isDigit = true) (n : ℕ) :
    (∀ c ∈ text ++ List.replicate n '0', c.isDigit = true) ∧
      ∀ c ∈ List.replicate n '0' ++ text, c.isDigit = true := by
  have hzero : ∀ c ∈ List.replicate n '0', c.isDigit = true := by
    intro c hc
    rw [List.eq_of_mem_replicate hc]
    decide
  exact ⟨fun c hc ↦ (List.mem_append.mp hc).elim (h c) (hzero c),
    fun c hc ↦ (List.mem_append.mp hc).elim (hzero c) (h c)⟩

private theorem decimal?_integral (hdigits : Numeral.IsDigits digits)
    (hvalue : Nat.ofDigitChars 10 digits 0 = d.coefficient) (zeros : ℕ)
    (hzeros : d.exponent = zeros) :
    ∃ n, Numeral.decimal? (digits ++ List.replicate zeros '0' ++ s.fractionText []) = some n ∧
      n.magnitude? = some d.magnitude := by
  have hwhole : Numeral.IsDigits (digits ++ List.replicate zeros '0') :=
    ⟨List.append_ne_nil_of_left_ne_nil hdigits.1 _,
      (isDigit_of_mem_append_replicate hdigits.2 zeros).1⟩
  have hpadded : Nat.ofDigitChars 10 (digits ++ List.replicate zeros '0') 0 =
      d.coefficient * 10 ^ zeros := by
    rw [Nat.ofDigitChars_append, hvalue, Nat.ofDigitChars_replicate_zero, Nat.mul_comm]
  rw [fractionText, if_pos rfl]
  split
  · refine ⟨_, Numeral.decimal?_pointed hwhole (List.forall_mem_singleton.mpr (by decide)),
      Numeral.magnitude?_decimal (zeros + 1) ?_ ?_⟩
    · rw [Nat.ofDigitChars_append, hpadded, Nat.ofDigitChars_cons, Nat.ofDigitChars_nil, pow_succ]
      simp only [Char.reduceToNat]
      ring
    · rw [List.length_singleton]
      omega
  · rw [List.append_nil]
    refine ⟨_, Numeral.decimal?_whole hwhole, Numeral.magnitude?_decimal zeros ?_ ?_⟩
    · rw [List.append_nil, hpadded]
    · rw [List.length_nil]
      omega

private theorem decimal?_split (hdigits : Numeral.IsDigits digits)
    (hvalue : Nat.ofDigitChars 10 digits 0 = d.coefficient) (width : ℕ) (hpos : 0 < width)
    (hwidth : d.exponent = (width : ℤ) - digits.length) (hlt : width < digits.length) :
    ∃ n, Numeral.decimal? (digits.take width ++ '.' :: digits.drop width) = some n ∧
      n.magnitude? = some d.magnitude := by
  refine ⟨_, Numeral.decimal?_pointed (hdigits.take hpos) (hdigits.isDigit_of_mem_drop width),
    Numeral.magnitude?_decimal 0 ?_ ?_⟩
  · rw [List.take_append_drop, hvalue, pow_zero, Nat.mul_one]
  · rw [List.length_drop]
    omega

private theorem decimal?_fractional (hdigits : Numeral.IsDigits digits)
    (hvalue : Nat.ofDigitChars 10 digits 0 = d.coefficient) (zeros : ℕ)
    (hzeros : d.exponent = -(zeros + digits.length : ℤ)) :
    ∃ n, Numeral.decimal? ('0' :: '.' :: List.replicate zeros '0' ++ digits) = some n ∧
      n.magnitude? = some d.magnitude := by
  have hpoint := Numeral.decimal?_pointed Numeral.isDigits_zero
    (isDigit_of_mem_append_replicate hdigits.2 zeros).2
  refine ⟨_, hpoint, Numeral.magnitude?_decimal 0 ?_ ?_⟩
  · rw [List.singleton_append, Nat.ofDigitChars_cons, Nat.ofDigitChars_append,
      Nat.ofDigitChars_replicate_zero, pow_zero, Nat.mul_one, ← hvalue]
    simp
  · rw [List.length_append, List.length_replicate]
    omega

theorem decimal?_positionalText (hdigits : Numeral.IsDigits digits)
    (hvalue : Nat.ofDigitChars 10 digits 0 = d.coefficient)
    (horder : order = d.exponent + digits.length - 1) :
    ∃ n, Numeral.decimal? (s.positionalText digits order) = some n ∧
      n.magnitude? = some d.magnitude := by
  have hlength := List.length_pos_of_ne_nil hdigits.1
  -- the point comes after the digits, among them, or before them
  rw [positionalText]
  split
  · next hge =>
    simp only
    rcases Nat.lt_or_ge (order.toNat + 1) digits.length with hlt | hle
    · rw [fractionText, if_neg (by rw [List.drop_eq_nil_iff]; omega),
        show order.toNat + 1 - digits.length = 0 by omega, List.replicate_zero, List.append_nil]
      exact decimal?_split hdigits hvalue _ (Nat.succ_pos _) (by omega) hlt
    · rw [List.take_of_length_le hle, List.drop_eq_nil_iff.mpr hle]
      exact decimal?_integral hdigits hvalue _ (by omega)
  · next hlt =>
    exact decimal?_fractional hdigits hvalue _ (by omega)

theorem decimal?_exponentText (hdigits : Numeral.IsDigits digits)
    (hvalue : Nat.ofDigitChars 10 digits 0 = d.coefficient)
    (horder : order = d.exponent + digits.length - 1) :
    ∃ n, Numeral.decimal? (exponentText digits order) = some n ∧
      n.magnitude? = some d.magnitude := by
  have hlength := List.length_pos_of_ne_nil hdigits.1
  refine ⟨_, Numeral.decimal?_scientific (hdigits.take Nat.one_pos) (hdigits.isDigit_of_mem_drop 1)
    order, Numeral.magnitude?_decimal 0 ?_ ?_⟩
  · rw [List.take_append_drop, hvalue, pow_zero, Nat.mul_one]
  · rw [List.length_drop]
    omega

end Digits

theorem decimal?_decimalText (s : NumberStyle) (d : Decimal) :
    ∃ n, Numeral.decimal? (s.decimalText d) = some n ∧ n.magnitude? = some d.magnitude := by
  have hdigits := Numeral.isDigits_toDigits d.coefficient
  have hvalue : Nat.ofDigitChars 10 (Nat.toDigits 10 d.coefficient) 0 = d.coefficient :=
    Nat.ofDigitChars_ten_toDigits
  simp only [decimalText]
  split
  · exact decimal?_positionalText hdigits hvalue rfl
  · exact decimal?_exponentText hdigits hvalue rfl

/-! ## The characters of a number -/

def IsFigure (c : Char) : Prop := c.isDigit = true ∨ c = '.' ∨ c = 'e' ∨ c = '-'

private theorem isFigure_of_isDigits {text : List Char} (h : ∀ c ∈ text, c.isDigit = true) :
    ∀ c ∈ text, IsFigure c := fun c hc ↦ Or.inl (h c hc)

private theorem isFigure_replicate (n : ℕ) : ∀ c ∈ List.replicate n '0', IsFigure c := by
  intro c hc
  rw [List.eq_of_mem_replicate hc]
  exact Or.inl (by decide)

theorem isFigure_fractionText (s : NumberStyle) {digits : List Char}
    (h : ∀ c ∈ digits, c.isDigit = true) : ∀ c ∈ s.fractionText digits, IsFigure c := by
  have hpoint : IsFigure '.' := Or.inr (Or.inl rfl)
  rw [fractionText]
  split
  · split
    · exact List.forall_mem_cons.mpr
        ⟨hpoint, List.forall_mem_singleton.mpr (Or.inl (by decide))⟩
    · exact List.forall_mem_nil _
  · exact List.forall_mem_cons.mpr ⟨hpoint, isFigure_of_isDigits h⟩

theorem isFigure_integerText : ∀ k : ℤ, ∀ c ∈ integerText k, IsFigure c
  | .ofNat n => isFigure_of_isDigits (Numeral.isDigits_toDigits n).2
  | .negSucc n => List.forall_mem_cons.mpr
    ⟨Or.inr (Or.inr (Or.inr rfl)), isFigure_of_isDigits (Numeral.isDigits_toDigits (n + 1)).2⟩

theorem isFigure_decimalText (s : NumberStyle) (d : Decimal) :
    ∀ c ∈ s.decimalText d, IsFigure c := by
  have hdigits := (Numeral.isDigits_toDigits d.coefficient).2
  simp only [decimalText]
  generalize Nat.toDigits 10 d.coefficient = digits at *
  have htake : ∀ n, ∀ c ∈ digits.take n, IsFigure c := fun n c hc ↦
    Or.inl (hdigits c (List.mem_of_mem_take hc))
  have hdrop : ∀ n, ∀ c ∈ digits.drop n, c.isDigit = true := fun n c hc ↦
    hdigits c (List.mem_of_mem_drop hc)
  have hzero : IsFigure '0' := Or.inl (by decide)
  have hpoint : IsFigure '.' := Or.inr (Or.inl rfl)
  have hmark : IsFigure 'e' := Or.inr (Or.inr (Or.inl rfl))
  split
  · rw [positionalText]
    split
    · simp only [List.forall_mem_append]
      exact ⟨⟨htake _, isFigure_replicate _⟩, s.isFigure_fractionText (hdrop _)⟩
    · simp only [List.forall_mem_append, List.forall_mem_cons]
      exact ⟨⟨hzero, hpoint, isFigure_replicate _⟩, isFigure_of_isDigits hdigits⟩
  · rw [exponentText]
    simp only [List.forall_mem_append, List.forall_mem_cons]
    refine ⟨⟨htake 1, ?_⟩, hmark, isFigure_integerText _⟩
    split
    · exact List.forall_mem_nil _
    · exact List.forall_mem_cons.mpr ⟨hpoint, isFigure_of_isDigits (hdrop 1)⟩

end NumberStyle

/-! ## Reading what was written -/

open NumberStyle (IsFigure)

namespace Numeral

theorem dropSuffix_eq_self {text : List Char} (h : ∀ c ∈ text.getLast?, isSuffix c = false) :
    dropSuffix text = text := by
  rw [dropSuffix]
  split
  · next c hlast => rw [h c hlast, if_neg Bool.false_ne_true]
  · rfl

theorem number?_eq_decimal? {text : List Char} (hx : 'x' ∉ text) (hX : 'X' ∉ text) :
    number? text = decimal? text := by
  rw [number?.eq_def]
  split
  · exact absurd (by simp) hx
  · exact absurd (by simp) hX
  · rfl

/-- A decimal numeral without letters other than `e` has no suffix, and is not hexadecimal. -/
theorem read?_of_decimal? {text : List Char} {n : Numeral} (hfig : ∀ c ∈ text, IsFigure c)
    (h : decimal? text = some n) : read? text = some n := by
  have habsent : ∀ c : Char, c.isDigit = false ∧ c ≠ '.' ∧ c ≠ 'e' ∧ c ≠ '-' → c ∉ text := by
    rintro c ⟨hdigit, hpoint, hmark, hminus⟩ hmem
    rcases hfig c hmem with hc | hc | hc | hc
    · rw [hdigit] at hc
      exact absurd hc (by simp)
    · exact hpoint hc
    · exact hmark hc
    · exact hminus hc
  have hsuffix : dropSuffix text = text := by
    refine dropSuffix_eq_self fun c hlast ↦ Bool.eq_false_iff.mpr fun hc ↦ ?_
    refine habsent c ?_ (List.mem_of_getLast? hlast)
    simp only [isSuffix, Bool.or_eq_true, decide_eq_true_eq] at hc
    rcases hc with ((rfl | rfl) | rfl) | rfl <;> decide
  rw [read?, if_neg, if_neg, hsuffix,
    number?_eq_decimal? (habsent 'x' (by decide)) (habsent 'X' (by decide)), h]
  · rintro rfl
    exact habsent 'I' (by decide) List.mem_cons_self
  · rintro rfl
    exact habsent 'N' (by decide) List.mem_cons_self

end Numeral

namespace Literal

theorem not_isPadding_of_all {text : List Char} (h : (text.all fun c ↦ !isPadding c) = true) :
    ∀ c ∈ text, isPadding c = false := fun c hc ↦ by
  simpa using List.all_eq_true.mp h c hc

theorem dropPadding_of_forall {text : List Char} (h : ∀ c ∈ text, isPadding c = false) :
    dropPadding text = text := by
  have hdrop : ∀ t : List Char, (∀ c ∈ t, isPadding c = false) → t.dropWhile isPadding = t := by
    intro t ht
    cases t with
    | nil => rfl
    | cons c t => exact List.dropWhile_cons_of_neg (by simp [ht c List.mem_cons_self])
  rw [dropPadding, hdrop text h, hdrop, List.reverse_reverse]
  exact fun c hc ↦ h c (List.mem_reverse.mp hc)

theorem readBare?_signed {text : List Char} {n : Numeral} (negative : Bool)
    (hread : Numeral.read? text = some n) :
    readBare? (NumberStyle.signed negative text) = some ⟨negative, n⟩ := by
  cases negative with
  | true =>
    rw [NumberStyle.signed, if_pos rfl, readBare?, hread]
    rfl
  | false =>
    -- no numeral starts with a sign, so none is taken off
    have hnumeral := Numeral.isNumeral_of_read? hread
    rw [NumberStyle.signed, if_neg (by decide), readBare?.eq_def]
    split
    · exact absurd rfl (hnumeral.not_signed _).1
    · exact absurd rfl (hnumeral.not_signed _).2
    · rw [hread]
      rfl

end Literal

namespace NumberStyle

/-- **What a style writes for a magnitude is read as that magnitude.** -/
theorem read?_magnitudeText (s : NumberStyle) {magnitude : ℕ}
    (hfin : magnitude < Binary64.infinityMagnitude) :
    ∃ n, Numeral.read? (s.magnitudeText magnitude) = some n ∧ n.magnitude? = some magnitude := by
  rw [magnitudeText]
  split
  · next hzero =>
    subst hzero
    obtain ⟨n, hn, hvalue⟩ :=
      decimal?_integral (s := s) (d := ⟨0, 0⟩) Numeral.isDigits_zero rfl 0 rfl
    refine ⟨n, Numeral.read?_of_decimal? ?_ hn, hvalue⟩
    exact List.forall_mem_cons.mpr
      ⟨Or.inl (by decide), s.isFigure_fractionText (List.forall_mem_nil _)⟩
  · obtain ⟨n, hn, hvalue⟩ := s.decimal?_decimalText (Decimal.shortest magnitude)
    rw [Decimal.magnitude_shortest hfin] at hvalue
    exact ⟨n, Numeral.read?_of_decimal? (s.isFigure_decimalText _) hn, hvalue⟩

theorem isPadding_of_isFigure {c : Char} (h : IsFigure c) : Literal.isPadding c = false := by
  rcases h with h | rfl | rfl | rfl
  · exact Literal.not_isPadding_of_isDigit h
  all_goals decide

theorem isFigure_magnitudeText (s : NumberStyle) (magnitude : ℕ) :
    ∀ c ∈ s.magnitudeText magnitude, IsFigure c := by
  rw [magnitudeText]
  split
  · exact List.forall_mem_cons.mpr
      ⟨Or.inl (by decide), s.isFigure_fractionText (List.forall_mem_nil _)⟩
  · exact s.isFigure_decimalText _

private theorem forall_mem_signed {p : Char → Prop} {text : List Char} (negative : Bool)
    (hminus : p '-') (h : ∀ c ∈ text, p c) : ∀ c ∈ signed negative text, p c := by
  rw [signed]
  split
  · exact List.forall_mem_cons.mpr ⟨hminus, h⟩
  · exact h

theorem isPadding_of_mem_write (v : Float) :
    ∀ c ∈ literal.write v, Literal.isPadding c = false := by
  rw [write]
  split
  · exact Literal.not_isPadding_of_all (by decide)
  · next negative _ =>
    exact forall_mem_signed negative (by decide) (Literal.not_isPadding_of_all (by decide))
  · next negative magnitude _ =>
    exact forall_mem_signed negative (by decide) fun c hc ↦
      isPadding_of_isFigure (literal.isFigure_magnitudeText magnitude c hc)

end NumberStyle

/-- **Every double is read back from its literal**, bit for bit. -/
theorem readLiteral?_write (v : Float) : readLiteral? (NumberStyle.literal.write v) = some v := by
  have hbare := Literal.dropPadding_of_forall (NumberStyle.isPadding_of_mem_write v)
  rw [readLiteral?, Literal.read?, hbare, NumberStyle.write]
  split
  · next h =>
    rw [Binary64.eq_of_shape_nan h]
    rfl
  · next negative h =>
    rw [Literal.readBare?_signed negative (n := .infinity) rfl, Binary64.eq_of_shape_infinite h]
    rfl
  · next negative magnitude h =>
    obtain ⟨hv, hfin⟩ := Binary64.eq_of_shape_finite h
    obtain ⟨n, hn, hvalue⟩ := NumberStyle.literal.read?_magnitudeText hfin
    rw [Literal.readBare?_signed negative hn, Option.map_some, Literal.value]
    simp only [hvalue]
    rw [← hv]

end CurveCalc
