import CurveCalc.Proofs.OperatorRows
import CurveCalc.Proofs.PostOrder
import CurveCalc.Proofs.Reentry

/-!
# The canonical text

A tree may need parentheses that it does not have, and writing it puts them in. A tree that the
canonical grammar has read needs none at an operator: the level of an operand in the grammar is just
the precedence that the written form asks of it, so every operand binds tightly enough where it
stands (`Reads.grouped`). What is left are the parentheses of the tree itself and those around the
arguments of logarithms that do not bring their own. The text `logx` is read, and is written
`log(x)`.

So the text of a tree that was read is a normal form. Reading it again adds the parentheses around
those arguments to the tree and nothing else, and writing that tree changes nothing any more.
-/

namespace CurveCalc

open Grammar

namespace Expr

/-! ## Operands that need no parentheses -/

/-- An expression in which no operand of an operator is written in parentheses. -/
def Grouped : Expr → Prop
  | .literal _ | .var => True
  | .paren e | .log e | .danglingPow e | .logWith e _ => e.Grouped
  | .binary op a b =>
    op.wrapsLeft a.precedence = false ∧ op.wrapsRight b.precedence = false ∧ a.Grouped ∧ b.Grouped

/-- The expression with parentheses around the argument of each logarithm that does not bring its
own. -/
def withLogParens : Expr → Expr
  | .literal v => .literal v
  | .var => .var
  | .paren e => .paren e.withLogParens
  | .binary op a b => .binary op a.withLogParens b.withLogParens
  | .log a => .log (parenIf (!a.isParen) a.withLogParens)
  | .danglingPow a => .danglingPow a.withLogParens
  | .logWith a b => .logWith (parenIf (!a.isParen) a.withLogParens) b

/-- The expression on one line without parentheses around operands of operators, whether they need
them or not. -/
def flatText : Expr → List Char
  | .literal v => NumberStyle.literal.write v
  | .var => ['x']
  | .paren e => enclosed e.flatText
  | .binary op a b => a.flatText ++ op.symbol :: b.flatText
  | .log a | .logWith a _ => Operator.log.symbol ++ enclosedIf (!a.isParen) a.flatText
  | .danglingPow a => a.flatText ++ [BinaryOp.pow.symbol]

variable {e : Expr}

theorem Grouped.parenthesised_eq (h : e.Grouped) : e.parenthesised = e.withLogParens := by
  induction e with
  | literal | var => rfl
  | paren a ih | log a ih | danglingPow a ih | logWith a _ ih _ =>
    rw [parenthesised, ih h, withLogParens]
  | binary op a b iha ihb =>
    obtain ⟨hl, hr, ha, hb⟩ := h
    rw [parenthesised, hl, hr, iha ha, ihb hb]
    rfl

theorem Grouped.written_eq (h : e.Grouped) : e.written = e.flatText := by
  induction e with
  | literal | var => rfl
  | paren a ih | log a ih | danglingPow a ih | logWith a _ ih _ => rw [written, ih h, flatText]
  | binary op a b iha ihb =>
    obtain ⟨hl, hr, ha, hb⟩ := h
    rw [written, hl, hr, iha ha, ihb hb]
    rfl

/-! ## Precedences of what is read -/

/-- Literals, variables and parentheses are read at a level of their own, but no operand is asked to
bind more tightly than a logarithm does. -/
theorem height_level_precedence (e : Expr) :
    e.precedence.level.height = max e.level.height Level.base.height := by
  cases e with
  | binary op _ _ => cases op <;> rfl
  | literal | var | paren | log | danglingPow | logWith => rfl

end Expr

namespace Grammar

variable {level : Level} {text : List Char} {e : Expr}

theorem Reads.height_precedence_le {g : Grammar} (h : Reads g level text e)
    (hlevel : Level.base.height ≤ level.height) :
    e.precedence.level.height ≤ level.height := by
  rw [e.height_level_precedence]
  exact max_le h.height_level_le hlevel

theorem height_base_le_operandLevels (c : Chain) :
    Level.base.height ≤ (Grammar.canonical.operandLevels c).1.height ∧
      Level.base.height ≤ (Grammar.canonical.operandLevels c).2.height := by
  cases c <;> decide

/-- **What the canonical grammar reads needs no more parentheses at its operators.** -/
theorem Reads.grouped (h : Reads .canonical level text e) : e.Grouped := by
  induction h with
  | @split c op _ _ _ _ hop hl hr iha ihb =>
    obtain rfl := BinaryOp.chain_eq_of_mem hop
    obtain ⟨hlow, hlow'⟩ := height_base_le_operandLevels op.chain
    exact ⟨BinaryOp.wrapsLeft_eq_false_iff.mpr (hl.height_precedence_le hlow),
      BinaryOp.wrapsRight_eq_false_iff.mpr (hr.height_precedence_le hlow'), iha, ihb⟩
  | fall _ ih | base _ ih | log _ ih | paren _ ih => exact ih
  | literal | var => trivial

end Grammar

namespace Expr

variable {e : Expr}

/-! ## Counting parentheses -/

/-- Whether the root is a logarithm whose argument does not bring its own parentheses. -/
def isBareLog : Expr → Bool
  | .log a => !a.isParen
  | _ => false

@[simp] theorem isBareLog_log (a : Expr) : (log a).isBareLog = !a.isParen := rfl

section Count

variable {c : Char} (hc : c = '(' ∨ c = ')')

include hc

theorem count_enclosed (text : List Char) : (enclosed text).count c = text.count c + 1 := by
  rcases hc with rfl | rfl <;> simp [enclosed]

theorem count_enclosedIf (wrap : Bool) (text : List Char) :
    (enclosedIf wrap text).count c = text.count c + if wrap then 1 else 0 := by
  cases wrap with
  | false => rfl
  | true => exact count_enclosed hc text

theorem count_write_literal (v : Float) : (NumberStyle.literal.write v).count c = 0 := by
  have hpattern := Literal.isLiteralText_of_readLiteral? (readLiteral?_write v)
  refine List.count_eq_zero.mpr fun hmem ↦ ?_
  have hnot := hpattern.covered covers_not_paren c hmem
  rcases hc with rfl | rfl <;> simp at hnot

theorem symbol_ne_paren (op : BinaryOp) : op.symbol ≠ c := by
  rcases hc with rfl | rfl <;> cases op <;> decide

theorem count_flatText (h : e.Complete) :
    e.flatText.count c = e.nodes.countP isParen + e.nodes.countP isBareLog := by
  induction e with
  | literal v => exact count_write_literal hc v
  | var => rcases hc with rfl | rfl <;> rfl
  | paren a ih =>
    rw [flatText, count_enclosed hc, ih h]
    simp [nodes, isParen, isBareLog, Nat.add_right_comm]
  | binary op a b iha ihb =>
    rw [flatText, List.count_append, List.count_cons_of_ne (symbol_ne_paren hc op), iha h.1,
      ihb h.2]
    simp [nodes, isParen, isBareLog, Nat.add_add_add_comm]
  | log a ih =>
    -- parentheses that the argument brings are those of its own node
    have hsymbol : Operator.log.symbol.count c = 0 := by rcases hc with rfl | rfl <;> rfl
    have hroot : (log a).isParen = false := rfl
    rw [flatText, List.count_append, hsymbol, Nat.zero_add, count_enclosedIf hc, ih h]
    simp [nodes, hroot, Nat.add_assoc]
  | danglingPow a _ => exact h.elim
  | logWith a b _ _ => exact h.elim

end Count

/-! ## Normal forms -/

theorem withLogParens_eq_self_iff (h : e.Complete) :
    e.withLogParens = e ↔ ∀ a, log a ∈ e.nodes → a.isParen = true := by
  induction e with
  | literal | var => simp [withLogParens, nodes]
  | paren a ih => simp [withLogParens, nodes, ih h]
  | binary op a b iha ihb => simp [withLogParens, nodes, iha h.1, ihb h.2, or_imp, forall_and]
  | log a ih =>
    have hargument : parenIf (!a.isParen) a.withLogParens = a ↔
        a.withLogParens = a ∧ a.isParen = true := by
      cases a with
      | paren a => exact (and_iff_left rfl).symm
      | literal | var | binary | log | danglingPow | logWith => simp [parenIf, isParen]
    simp [withLogParens, nodes, hargument, ih h, or_imp, forall_and]
  | danglingPow a _ => exact h.elim
  | logWith a b _ _ => exact h.elim

end Expr

/-- The text of what is read, if the text can be read. -/
def normalized (input : List Char) : Except ParseError (List Char) :=
  (parse {} input).map Expr.written

open CurveCalc.Expr

theorem parse_written_of_parse {input : List Char} {t : Expr} (h : parse {} input = .ok t) :
    parse {} t.written = .ok t.withLogParens := by
  rw [parse_written_eq (complete_of_parse h), (reads_of_parse h).grouped.parenthesised_eq]

/-- **The written form of what was read is a normal form.** Its only parentheses are those of the
tree and a pair around each argument of a logarithm that does not bring its own. It is read as the
tree with those pairs added, hence as the tree itself exactly if there are none to add, and writing
what it is read as gives it back. -/
theorem written_normalizes {input : List Char} {t : Expr} (h : parse {} input = .ok t) :
    t.written = t.flatText ∧
      (∀ c, c = '(' ∨ c = ')' →
        t.written.count c = t.nodes.countP isParen + t.nodes.countP isBareLog) ∧
      parse {} t.written = .ok t.withLogParens ∧
      (parse {} t.written = .ok t ↔ ∀ a, log a ∈ t.nodes → a.isParen = true) ∧
      normalized input = .ok t.written ∧ normalized t.written = .ok t.written := by
  have hcomplete := complete_of_parse h
  have hgrouped := (reads_of_parse h).grouped
  have hread := parse_written_of_parse h
  refine ⟨hgrouped.written_eq, fun c hc ↦ ?_, hread, ?_, ?_, ?_⟩
  · rw [hgrouped.written_eq, count_flatText hc hcomplete]
  · rw [hread, Except.ok.injEq, withLogParens_eq_self_iff hcomplete]
  · rw [normalized, h]
    rfl
  · rw [normalized, hread, ← hgrouped.parenthesised_eq]
    exact congrArg Except.ok t.written_parenthesised

/-- The text `logx*(x-x)` brings one pair of parentheses, and the argument of the logarithm gets
another. -/
theorem written_normalizes_log :
    parse {} ['l', 'o', 'g', 'x', '*', '(', 'x', '-', 'x', ')'] =
        .ok (.binary .mul (.log .var) (.paren (.binary .sub .var .var))) ∧
      normalized ['l', 'o', 'g', 'x', '*', '(', 'x', '-', 'x', ')'] =
        .ok ['l', 'o', 'g', '(', 'x', ')', '*', '(', 'x', '-', 'x', ')'] ∧
      parse {} ['l', 'o', 'g', '(', 'x', ')', '*', '(', 'x', '-', 'x', ')'] =
        .ok (.binary .mul (.log (.paren .var)) (.paren (.binary .sub .var .var))) := by
  have hread : parse {} ['l', 'o', 'g', 'x', '*', '(', 'x', '-', 'x', ')'] =
      .ok (.binary .mul (.log .var) (.paren (.binary .sub .var .var))) := by cbv
  obtain ⟨-, -, hagain, -, hnormalized, -⟩ := written_normalizes hread
  exact ⟨hread, hnormalized, hagain⟩

end CurveCalc
