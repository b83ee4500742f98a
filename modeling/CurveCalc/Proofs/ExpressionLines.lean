import CurveCalc.Proofs.Commands

/-!
# Lines that are expressions

A line is cut into a command by its first word and its last `@`, long before anything is read, and
by other rules than the reader's: the cut looks past all Unicode white space, while the reader drops
the space alone and takes the control characters for padding of literals. The two agree where it
matters. Padding aside, no expression starts with the letter of a command word
(`Reads.exists_start`), though `table` and `d` are spelled with characters that expressions have;
and none has an `@` in it. So what is accepted as an expression is never taken for anything else
(`ofLine_eq_display_of_parse`).
-/

namespace CurveCalc

open Literal (IsPad isPadding)

/-! ## How an expression starts -/

namespace Grammar

/-- The characters that an expression can start with, padding aside. -/
def startsExpression (c : Char) : Bool :=
  Diagnosis.followsSign c || ['x', '(', 'l', '+', '-'].contains c

variable {g : Grammar} {level : Level} {text : List Char} {e : Expr}

theorem dropWhile_isPadding_append {pad : List Char} (hpad : IsPad pad) {c : Char}
    (hc : isPadding c = false) (rest : List Char) :
    (pad ++ c :: rest).dropWhile isPadding = c :: rest := by
  rw [List.dropWhile_append_of_pos hpad, List.dropWhile_cons_of_neg (by simp [hc])]

theorem not_isPadding_of_followsSign {c : Char} (h : Diagnosis.followsSign c = true) :
    isPadding c = false := by
  simp only [Diagnosis.followsSign, Bool.or_eq_true, decide_eq_true_eq] at h
  rcases h with ((hdigit | rfl) | rfl) | rfl
  · exact Literal.not_isPadding_of_isDigit hdigit
  all_goals decide

theorem exists_start_of_isLiteralText (h : Literal.IsLiteralText text) :
    ∃ c rest, text.dropWhile isPadding = c :: rest ∧ startsExpression c = true := by
  obtain ⟨pad, sign, body, pad', hpad, hsign, hbody, -, rfl⟩ := h
  obtain ⟨d, rest, rfl, hd⟩ := hbody.exists_head
  rcases hsign with rfl | rfl | rfl
  · exact ⟨d, _, dropWhile_isPadding_append hpad (not_isPadding_of_followsSign hd) _,
      by simp [startsExpression, hd]⟩
  · exact ⟨'+', _, dropWhile_isPadding_append hpad (by decide) _, by decide⟩
  · exact ⟨'-', _, dropWhile_isPadding_append hpad (by decide) _, by decide⟩

/-- **What is read starts with a number, a sign, `x`, `log` or a parenthesis**, after padding. -/
theorem Reads.exists_start (h : Reads g level text e) :
    ∃ c rest, text.dropWhile isPadding = c :: rest ∧ startsExpression c = true := by
  induction h with
  | @split _ op left right _ _ _ _ _ ihl _ =>
    obtain ⟨c, rest, hleft, hc⟩ := ihl
    refine ⟨c, rest ++ op.symbol :: right, ?_, hc⟩
    rw [List.dropWhile_append, hleft]
    rfl
  | fall _ ih | base _ ih => exact ih
  | log => exact ⟨'l', _, List.dropWhile_cons_of_neg (by decide), by decide⟩
  | paren => exact ⟨'(', _, List.dropWhile_cons_of_neg (by decide), by decide⟩
  | literal hv => exact exists_start_of_isLiteralText (Literal.isLiteralText_of_readLiteral? hv)
  | var => exact ⟨'x', [], by decide, by decide⟩

end Grammar

/-! ## What the commands are cut off by -/

/-- White space that an expression can have in it is padding. -/
theorem isPadding_of_isBlank {c : Char} (hblank : Text.isBlank c = true)
    (hknown : Diagnosis.isKnown c = true) : isPadding c = true := by
  have hascii : c.toNat ≤ 127 := UInt32.le_iff_toNat_le.mp (Diagnosis.val_le_of_isKnown hknown)
  have hwide : ∀ n ∈ Text.wideBlanks, 127 < n := by decide
  have hle : c.toNat ≤ 32 := by
    simp only [Text.isBlank, Bool.or_eq_true, Bool.and_eq_true, decide_eq_true_eq,
      beq_iff_eq] at hblank
    rcases hblank with (((hcontrol | hspace) | hnext) | hfixed) | hmem
    · omega
    · omega
    · omega
    · omega
    · have := hwide _ (List.contains_iff_mem.mp hmem)
      omega
  exact decide_eq_true (UInt32.le_iff_toNat_le.mpr hle)

section

variable {o : ReadOptions} {line : List Char} {e : Expr}

/-- Spaces do not hide the first letter of a line from the reader, nor does other white space. -/
theorem startsExpression_of_dropBlanks {c : Char} {rest : List Char} (h : parse o line = .ok e)
    (hline : Text.dropBlanks line = c :: rest) (hc : isPadding c = false) :
    Grammar.startsExpression c = true := by
  have hread := reads_of_parse h
  obtain ⟨d, rest', hstart, hd⟩ := hread.exists_start
  have hsplit := List.takeWhile_append_dropWhile (p := Text.isBlank) (l := line)
  rw [← Text.dropBlanks, hline] at hsplit
  have hspace : c ≠ ' ' := by
    rintro rfl
    exact absurd hc (by decide)
  have htext : Grammar.dropSpaces line =
      Grammar.dropSpaces (line.takeWhile Text.isBlank) ++ c :: Grammar.dropSpaces rest := by
    conv_lhs => rw [← hsplit]
    rw [Grammar.dropSpaces, List.filter_append, List.filter_cons_of_pos (by simpa using hspace)]
    rfl
  -- the white space in front is padding, since it is in a text that is read
  have hpad : IsPad (Grammar.dropSpaces (line.takeWhile Text.isBlank)) := by
    intro b hb
    have hblank : Text.isBlank b = true :=
      List.all_eq_true.mp List.all_takeWhile b (List.mem_of_mem_filter hb)
    refine isPadding_of_isBlank hblank (hread.known b ?_)
    rw [htext]
    exact List.mem_append_left _ hb
  rw [htext, Grammar.dropWhile_isPadding_append hpad hc] at hstart
  obtain ⟨rfl, -⟩ := List.cons.inj hstart
  exact hd

theorem not_startsWithWord_of_parse (h : parse o line = .ok e) : ¬Command.StartsWithWord line := by
  rintro (⟨rest, hword⟩ | ⟨rest, hword⟩)
  · exact absurd (startsExpression_of_dropBlanks h hword.symm (by decide)) (by decide)
  · exact absurd (startsExpression_of_dropBlanks h hword.symm (by decide)) (by decide)

theorem at_not_mem_of_parse (h : parse o line = .ok e) : '@' ∉ line := by
  intro hmem
  have hknown := (reads_of_parse h).known '@' (List.mem_filter.mpr ⟨hmem, by decide⟩)
  exact absurd hknown (by decide)

/-- **A line that is an expression is the command that shows it**, with any options of the
reader. -/
theorem ofLine_eq_display (h : parse o line = .ok e) : Command.ofLine line = .display line :=
  Command.ofLine_eq_display_iff.mpr ⟨not_startsWithWord_of_parse h, at_not_mem_of_parse h, rfl⟩

end

/-- **Commands never capture an expression**: a line that is accepted as an expression is the
command that shows it, and its output is the tree that was read, in both its forms. -/
theorem ofLine_eq_display_of_parse {line : List Char} {e : Expr} (h : parse {} line = .ok e) :
    Command.ofLine line = .display line ∧
      (Command.ofLine line).run = .ok (String.ofList (e.outline 0) ++ "y = " ++ e.toText) := by
  have hline := ofLine_eq_display h
  refine ⟨hline, ?_⟩
  rw [hline, Command.run_display h, Command.treeText, show "y = " = "y" ++ " = " from rfl,
    ← String.append_assoc]

/-- A tab, a control character and a space before a product of a signed number. -/
theorem ofLine_eq_display_of_parse_padded :
    ∃ e, parse {} ['\t', '\x01', ' ', '-', '2', '*', 'x'] = .ok e ∧
      Command.ofLine ['\t', '\x01', ' ', '-', '2', '*', 'x'] =
        .display ['\t', '\x01', ' ', '-', '2', '*', 'x'] ∧
      (Command.ofLine ['\t', '\x01', ' ', '-', '2', '*', 'x']).run =
        .ok (String.ofList (e.outline 0) ++ "y = " ++ e.toText) := by
  have htwo : Grammar.Reads .canonical .primary ['\t', '\x01', '-', '2'] (.literal _) :=
    .literal (v := Literal.value ⟨true, .decimal ['2'] [] 0⟩) rfl
  have hproduct := Grammar.Reads.split (c := .product) (List.mem_cons_self : BinaryOp.mul ∈ _)
    (htwo.climb _ (Nat.zero_le _)) (Grammar.Reads.var.climb _ (Nat.zero_le _))
  obtain ⟨e, he⟩ : ∃ e, parse {} ['\t', '\x01', ' ', '-', '2', '*', 'x'] = .ok e :=
    exists_parse_of_reads rfl (.fall hproduct)
  obtain ⟨hline, hrun⟩ := ofLine_eq_display_of_parse he
  exact ⟨e, he, hline, hrun⟩

end CurveCalc
