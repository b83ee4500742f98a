import CurveCalc.Grammar.Diagnosis
import CurveCalc.Proofs.LiteralPattern

/-!
# A cursor that runs over a text

There are no tokens, so nothing in the reader says which `+` joins two operands and which is the
sign of a number. A `Cursor` says it from the left alone: it knows the depth in parentheses, and
whether an operand has just ended. An operator is *loose* where the cursor is at the outer depth and
an operand has just ended; signs, exponent signs and operators in parentheses are not.

`Passes d ops k text k'` says that the cursor runs from `k` over `text` to `k'`, stays at depth `d`
or deeper, meets a closing parenthesis only after an operand, and meets loose operators of `ops`
only. The rules for it are those of a program logic, one for each way to put texts together.
-/

namespace CurveCalc

theorem BinaryOp.symbol_injective {op op' : BinaryOp} (h : op.symbol = op'.symbol) : op = op' := by
  have hsome := congrArg ofChar? h
  rw [ofChar?_symbol, ofChar?_symbol] at hsome
  exact Option.some.inj hsome

namespace Grammar

/-- What is known of a text at one place from what stands before it. -/
structure Cursor where
  /-- How many more parentheses are open than closed. -/
  depth : Int
  /-- Whether an operand has just ended, padding after it aside. -/
  ended : Bool
deriving DecidableEq

namespace Cursor

/-! ## Running -/

/-- A character, other than a parenthesis, that an operand can end with. -/
def endsOperand (c : Char) : Bool :=
  c.isDigit || c = '.' || Numeral.isSuffix c || c = 'N' || c = 'y' || c = 'x'

/-- The cursor after one more character. -/
def step (k : Cursor) (c : Char) : Cursor :=
  if c = '(' then ⟨k.depth + 1, false⟩
  else if c = ')' then ⟨k.depth - 1, true⟩
  else if Literal.isPadding c then k
  else ⟨k.depth, endsOperand c⟩

/-- The cursor after a text. -/
def run (k : Cursor) (text : List Char) : Cursor := text.foldl step k

@[simp] theorem run_nil (k : Cursor) : k.run [] = k := rfl

@[simp] theorem run_cons (k : Cursor) (c : Char) (text : List Char) :
    k.run (c :: text) = (k.step c).run text := rfl

@[simp] theorem run_append (k : Cursor) (s t : List Char) : k.run (s ++ t) = (k.run s).run t :=
  List.foldl_append

@[simp] theorem step_open (k : Cursor) : k.step '(' = ⟨k.depth + 1, false⟩ := rfl

@[simp] theorem step_close (k : Cursor) : k.step ')' = ⟨k.depth - 1, true⟩ := rfl

@[simp] theorem step_symbol (k : Cursor) (op : BinaryOp) : k.step op.symbol = ⟨k.depth, false⟩ := by
  cases op <;> rfl

theorem step_padding {c : Char} (h : Literal.isPadding c = true) (k : Cursor) : k.step c = k := by
  rw [step, if_neg, if_neg, if_pos h]
  all_goals rintro rfl; exact absurd h (by decide)

end Cursor

/-! ## What a cursor meets -/

/-- What a text may have at a cursor, seen from depth `d` and with loose operators of `ops`. -/
structure Tidy (d : Int) (ops : List BinaryOp) (k : Cursor) (c : Char) : Prop where
  depth_le : d ≤ k.depth
  closing : c = ')' → d < k.depth ∧ k.ended = true
  loose : k = ⟨d, true⟩ → ∀ op : BinaryOp, c = op.symbol → op ∈ ops

/-- Every character of a text is tidy where the cursor meets it. -/
def TidyRun (d : Int) (ops : List BinaryOp) : Cursor → List Char → Prop
  | _, [] => True
  | k, c :: text => Tidy d ops k c ∧ TidyRun d ops (k.step c) text

theorem tidyRun_append {d : Int} {ops : List BinaryOp} {s t : List Char} {k : Cursor} :
    TidyRun d ops k (s ++ t) ↔ TidyRun d ops k s ∧ TidyRun d ops (k.run s) t := by
  induction s generalizing k with
  | nil => simp [TidyRun]
  | cons c s ih => simp [TidyRun, ih, and_assoc]

/-- A cursor runs over a text from one place to another, and the text is tidy. -/
structure Passes (d : Int) (ops : List BinaryOp) (k : Cursor) (text : List Char) (k' : Cursor) :
    Prop where
  run_eq : k.run text = k'
  tidyRun : TidyRun d ops k text

namespace Passes

variable {d : Int} {ops ops' : List BinaryOp} {k k' k'' : Cursor} {s t text : List Char}

theorem nil : Passes d ops k [] k := ⟨rfl, trivial⟩

theorem append (hs : Passes d ops k s k') (ht : Passes d ops k' t k'') :
    Passes d ops k (s ++ t) k'' := by
  obtain ⟨rfl, hs⟩ := hs
  exact ⟨by rw [Cursor.run_append, ht.run_eq], tidyRun_append.mpr ⟨hs, ht.tidyRun⟩⟩

theorem cons {c : Char} (hc : Tidy d ops k c) (ht : Passes d ops (k.step c) t k') :
    Passes d ops k (c :: t) k' := ⟨ht.run_eq, hc, ht.tidyRun⟩

theorem one {c : Char} (hc : Tidy d ops k c) : Passes d ops k [c] (k.step c) := cons hc nil

theorem mono (h : Passes d ops k text k') (hsub : ops ⊆ ops') : Passes d ops' k text k' := by
  obtain ⟨rfl, h⟩ := h
  refine ⟨rfl, ?_⟩
  induction text generalizing k with
  | nil => trivial
  | cons c text ih =>
    exact ⟨⟨h.1.depth_le, h.1.closing, fun hk op hop ↦ hsub (h.1.loose hk op hop)⟩, ih h.2⟩

/-- Seen from less deep, nothing in parentheses is loose. -/
theorem nested (h : Passes (d + 1) ops k text k') : Passes d ops' k text k' := by
  obtain ⟨rfl, h⟩ := h
  refine ⟨rfl, ?_⟩
  induction text generalizing k with
  | nil => trivial
  | cons c text ih =>
    have hdepth := h.1.depth_le
    refine ⟨⟨by omega, fun hc ↦ ⟨by omega, (h.1.closing hc).2⟩, ?_⟩, ih h.2⟩
    -- the cursor is never at depth `d`, where something could be loose
    rintro rfl
    exact absurd hdepth (Int.not_le.mpr (Int.lt_succ d))

/-! ## Reading off what holds inside -/

theorem tidy_at {c : Char} (h : Passes d ops k (s ++ c :: t) k') : Tidy d ops (k.run s) c :=
  (tidyRun_append.mp h.tidyRun).2.1

theorem mem_of_loose {op : BinaryOp} (h : Passes d ops k (s ++ op.symbol :: t) k')
    (hs : k.run s = ⟨d, true⟩) : op ∈ ops :=
  h.tidy_at.loose hs op rfl

theorem depth_le_run (h : Passes d ops k (s ++ t) k') (hk' : d ≤ k'.depth) :
    d ≤ (k.run s).depth := by
  cases t with
  | nil =>
    have hrun := h.run_eq
    rw [List.append_nil] at hrun
    rw [hrun]
    exact hk'
  | cons c t => exact h.tidy_at.depth_le

end Passes

/-! ## Single characters -/

theorem tidy_of_plain {d : Int} {ops : List BinaryOp} {k : Cursor} {c : Char} (hd : d ≤ k.depth)
    (hclose : c ≠ ')') (hop : BinaryOp.ofChar? c = none) : Tidy d ops k c := by
  refine ⟨hd, fun hc ↦ absurd hc hclose, ?_⟩
  rintro - op rfl
  rw [BinaryOp.ofChar?_symbol] at hop
  exact absurd hop (by simp)

theorem tidy_of_not_ended {d : Int} {ops : List BinaryOp} {k : Cursor} (hd : d ≤ k.depth)
    (hk : k.ended = false) (op : BinaryOp) : Tidy d ops k op.symbol := by
  refine ⟨hd, fun hc ↦ absurd hc (by cases op <;> decide), ?_⟩
  rintro rfl
  exact absurd hk (by simp)

theorem tidy_of_mem {d : Int} {ops : List BinaryOp} {k : Cursor} (hd : d ≤ k.depth) {op : BinaryOp}
    (hop : op ∈ ops) : Tidy d ops k op.symbol := by
  refine ⟨hd, fun hc ↦ absurd hc (by cases op <;> decide), ?_⟩
  rintro - op' hop'
  exact BinaryOp.symbol_injective hop' ▸ hop

/-! ## Classes of characters -/

/-- A class of characters with no parenthesis and no operator in it. -/
structure IsPlain (p : Char → Bool) : Prop where
  not_open : p '(' = false
  not_close : p ')' = false
  not_symbol : ∀ op : BinaryOp, p op.symbol = false

/-- A plain class each of whose characters can end an operand. -/
structure IsEnding (p : Char → Bool) : Prop extends IsPlain p where
  not_padding : ∀ c, p c = true → Literal.isPadding c = false
  ends : ∀ c, p c = true → Cursor.endsOperand c = true

section Classes

variable {d : Int} {ops : List BinaryOp} {p : Char → Bool}

theorem IsPlain.tidy (hp : IsPlain p) {c : Char} (hc : p c = true) {k : Cursor}
    (hd : d ≤ k.depth) : Tidy d ops k c := by
  refine tidy_of_plain hd ?_ ?_
  · rintro rfl
    exact absurd hc (by simp [hp.not_close])
  · rw [Option.eq_none_iff_forall_ne_some]
    intro op hop
    rw [BinaryOp.eq_symbol_of_ofChar? hop, hp.not_symbol op] at hc
    exact absurd hc (by simp)

theorem IsPlain.step_eq (hp : IsPlain p) {c : Char} (hc : p c = true) (k : Cursor) :
    k.step c = if Literal.isPadding c then k else ⟨k.depth, Cursor.endsOperand c⟩ := by
  rw [Cursor.step, if_neg, if_neg]
  · rintro rfl
    exact absurd hc (by simp [hp.not_close])
  · rintro rfl
    exact absurd hc (by simp [hp.not_open])

theorem IsPlain.exists_passes (hp : IsPlain p) {text : List Char} (h : ∀ c ∈ text, p c = true)
    (b : Bool) : ∃ b', Passes d ops ⟨d, b⟩ text ⟨d, b'⟩ := by
  induction text generalizing b with
  | nil => exact ⟨b, .nil⟩
  | cons c text ih =>
    have hc := h c List.mem_cons_self
    have hstep : ∃ b', (⟨d, b⟩ : Cursor).step c = ⟨d, b'⟩ := by
      rw [hp.step_eq hc]
      split
      · exact ⟨b, rfl⟩
      · exact ⟨Cursor.endsOperand c, rfl⟩
    obtain ⟨b', hb'⟩ := hstep
    obtain ⟨b'', htext⟩ := ih (fun c hc ↦ h c (List.mem_cons_of_mem _ hc)) b'
    exact ⟨b'', .cons (hp.tidy hc (Int.le_refl d)) (hb' ▸ htext)⟩

theorem IsEnding.passes (hp : IsEnding p) {text : List Char} (hne : text ≠ [])
    (h : ∀ c ∈ text, p c = true) (b : Bool) : Passes d ops ⟨d, b⟩ text ⟨d, true⟩ := by
  induction text generalizing b with
  | nil => exact absurd rfl hne
  | cons c text ih =>
    have hc := h c List.mem_cons_self
    have hstep : (⟨d, b⟩ : Cursor).step c = ⟨d, true⟩ := by
      rw [hp.step_eq hc, hp.not_padding c hc, hp.ends c hc]
      rfl
    refine .cons (hp.tidy hc (Int.le_refl d)) ?_
    rw [hstep]
    rcases eq_or_ne text [] with rfl | hne'
    · exact .nil
    · exact ih hne' (fun c hc ↦ h c (List.mem_cons_of_mem _ hc)) true

end Classes

theorem isPlain_isPadding : IsPlain Literal.isPadding :=
  ⟨by decide, by decide, fun op ↦ by cases op <;> decide⟩

theorem isPlain_isAlphanum : IsPlain Char.isAlphanum :=
  ⟨by decide, by decide, fun op ↦ by cases op <;> decide⟩

private theorem isEnding_isDigit : IsEnding Char.isDigit where
  not_open := by decide
  not_close := by decide
  not_symbol := fun op ↦ by cases op <;> decide
  not_padding := fun _ hc ↦ Literal.not_isPadding_of_isDigit hc
  ends := fun c hc ↦ by rw [Cursor.endsOperand, hc]; rfl

private theorem isEnding_isSuffix : IsEnding Numeral.isSuffix where
  not_open := by decide
  not_close := by decide
  not_symbol := fun op ↦ by cases op <;> decide
  not_padding := fun c hc ↦ by
    simp only [Numeral.isSuffix, Bool.or_eq_true, decide_eq_true_eq] at hc
    rcases hc with ((rfl | rfl) | rfl) | rfl <;> decide
  ends := fun c hc ↦ by simp [Cursor.endsOperand, hc]

/-- The digits of a mantissa and its point. -/
private def mantissaChar (digit : Char → Bool) (c : Char) : Bool := digit c || c = '.'

private theorem isPlain_hexMantissa : IsPlain (mantissaChar Text.isHexDigit) :=
  ⟨by decide, by decide, fun op ↦ by cases op <;> decide⟩

private theorem isEnding_decimalMantissa : IsEnding (mantissaChar Char.isDigit) where
  not_open := by decide
  not_close := by decide
  not_symbol := fun op ↦ by cases op <;> decide
  not_padding := fun c hc ↦ by
    rw [mantissaChar, Bool.or_eq_true, decide_eq_true_eq] at hc
    rcases hc with hc | rfl
    · exact Literal.not_isPadding_of_isDigit hc
    · decide
  ends := fun c hc ↦ by
    rw [mantissaChar, Bool.or_eq_true, decide_eq_true_eq] at hc
    rcases hc with hc | rfl
    · rw [Cursor.endsOperand, hc]
      rfl
    · decide

end Grammar

namespace Numeral

theorem IsMantissa.ne_nil {digit : Char → Bool} {m : List Char} (h : IsMantissa digit m) :
    m ≠ [] := by
  cases h with
  | whole hne _ => exact hne
  | pointed => simp

end Numeral

namespace Grammar

/-! ## Literals

A sign stands where no operand has ended, and the sign of an exponent after the mark of it, which no
operand ends with; so a literal has no loose operator. -/

section Literals

variable {d : Int} {text : List Char}

theorem passes_of_isPad (h : Literal.IsPad text) (b : Bool) : Passes d [] ⟨d, b⟩ text ⟨d, b⟩ := by
  induction text with
  | nil => exact .nil
  | cons c text ih =>
    have hc := h c List.mem_cons_self
    refine .cons (isPlain_isPadding.tidy hc (Int.le_refl d)) ?_
    rw [Cursor.step_padding hc]
    exact ih fun c hc ↦ h c (List.mem_cons_of_mem _ hc)

theorem passes_of_isSign (h : Numeral.IsSign text) :
    Passes d [] ⟨d, false⟩ text ⟨d, false⟩ := by
  rcases h with rfl | rfl | rfl
  · exact .nil
  · exact .one (tidy_of_not_ended (Int.le_refl d) rfl .add)
  · exact .one (tidy_of_not_ended (Int.le_refl d) rfl .sub)

theorem passes_of_isExponent (h : Numeral.IsExponent text) :
    Passes d [] ⟨d, false⟩ text ⟨d, true⟩ := by
  obtain ⟨sign, digits, hsign, hdigits, rfl⟩ := h
  exact (passes_of_isSign hsign).append (isEnding_isDigit.passes hdigits.1 hdigits.2 false)

private theorem passes_marked {mark : Char} {x : List Char} (hx : Numeral.IsExponent x) (b : Bool)
    (hmark : (mark = 'e' ∨ mark = 'E') ∨ (mark = 'p' ∨ mark = 'P')) :
    Passes d [] ⟨d, b⟩ (mark :: x) ⟨d, true⟩ := by
  have hstep : (⟨d, b⟩ : Cursor).step mark = ⟨d, false⟩ := by
    rcases hmark with (rfl | rfl) | rfl | rfl <;> rfl
  refine .cons (tidy_of_plain (Int.le_refl d) ?_ ?_) (hstep ▸ passes_of_isExponent hx)
  · rcases hmark with (rfl | rfl) | rfl | rfl <;> decide
  · rcases hmark with (rfl | rfl) | rfl | rfl <;> decide

theorem passes_of_isNumber (h : Numeral.IsNumber text) :
    Passes d [] ⟨d, false⟩ text ⟨d, true⟩ := by
  cases h with
  | decimal hm => exact isEnding_decimalMantissa.passes hm.ne_nil hm.forall_mem false
  | scientific hm hmark hx =>
    exact (isEnding_decimalMantissa.passes hm.ne_nil hm.forall_mem false).append
      (passes_marked hx true (Or.inl hmark))
  | @hexadecimal m x base mark hbase hm hmark hx =>
    -- hexadecimal digits need not end an operand, but no exponent mark does either
    have hzero : ∃ b, Passes d [] ⟨d, false⟩ ['0', base] ⟨d, b⟩ := by
      rcases hbase with rfl | rfl
      · exact isPlain_isAlphanum.exists_passes (List.all_eq_true.mp (by decide)) false
      · exact isPlain_isAlphanum.exists_passes (List.all_eq_true.mp (by decide)) false
    obtain ⟨b₀, hzero⟩ := hzero
    obtain ⟨b, hmantissa⟩ := isPlain_hexMantissa.exists_passes hm.forall_mem b₀
    exact (hzero.append hmantissa).append (passes_marked hx b (Or.inr hmark))

theorem passes_of_isNumeral (h : Numeral.IsNumeral text) :
    Passes d [] ⟨d, false⟩ text ⟨d, true⟩ := by
  cases h with
  | nan =>
    obtain ⟨b, h⟩ : ∃ b, Passes d [] ⟨d, false⟩ ['N', 'a', 'N'] ⟨d, b⟩ :=
      isPlain_isAlphanum.exists_passes (List.all_eq_true.mp (by decide)) false
    exact ⟨rfl, h.tidyRun⟩
  | infinity =>
    obtain ⟨b, h⟩ : ∃ b, Passes d [] ⟨d, false⟩
        ['I', 'n', 'f', 'i', 'n', 'i', 't', 'y'] ⟨d, b⟩ :=
      isPlain_isAlphanum.exists_passes (List.all_eq_true.mp (by decide)) false
    exact ⟨rfl, h.tidyRun⟩
  | number h => exact passes_of_isNumber h
  | @suffixed text c h hc =>
    exact (passes_of_isNumber h).append
      (isEnding_isSuffix.passes (by simp) (by simpa using hc) true)

/-- **A literal is one operand.** It has no loose operator, and an operand has ended after it. -/
theorem passes_of_isLiteralText (h : Literal.IsLiteralText text) :
    Passes d [] ⟨d, false⟩ text ⟨d, true⟩ := by
  obtain ⟨pad, sign, body, pad', hpad, hsign, hbody, hpad', rfl⟩ := h
  exact (passes_of_isPad hpad false).append <| (passes_of_isSign hsign).append <|
    (passes_of_isNumeral hbody).append (passes_of_isPad hpad' true)

end Literals

end Grammar

end CurveCalc
