import CurveCalc.Expr.Written
import CurveCalc.Proofs.Derivation
import CurveCalc.Proofs.NumberText

/-!
# Expressions read back

An expression that is written on one line and read again comes back with the parentheses that
writing it took, and with nothing else changed: `Expr.parenthesised` says where they are. Two
tables have to agree for that, the precedences that the written form goes by and the operand levels
of the canonical grammar: `wrapsLeft_eq_false_iff` and `wrapsRight_eq_false_iff` say that they do.
Everything else is the reading relation, built up along the tree.
-/

namespace CurveCalc

open Grammar

/-! ## The tree with its parentheses -/

namespace Expr

/-- An expression in parentheses if `wrap` holds. -/
def parenIf (wrap : Bool) (e : Expr) : Expr := if wrap then .paren e else e

/-- The expression with parentheses around each operand that is written in them, and around the
argument of each logarithm that does not bring its own. -/
def parenthesised : Expr → Expr
  | .literal v => .literal v
  | .var => .var
  | .paren e => .paren e.parenthesised
  | .binary op a b =>
    .binary op (parenIf (op.wrapsLeft a.precedence) a.parenthesised)
      (parenIf (op.wrapsRight b.precedence) b.parenthesised)
  | .log a => .log (parenIf (!a.isParen) a.parenthesised)
  | .danglingPow a => .danglingPow a.parenthesised
  | .logWith a b => .logWith (parenIf (!a.isParen) a.parenthesised) b

@[simp] theorem precedence_parenthesised (e : Expr) :
    e.parenthesised.precedence = e.precedence := by
  cases e <;> rfl

@[simp] theorem isParen_parenthesised (e : Expr) : e.parenthesised.isParen = e.isParen := by
  cases e <;> rfl

/-- What has its parentheses is not put in a second pair. -/
theorem enclosedIf_parenIf (wraps : Expr → Bool) {a a' : Expr} (hparen : wraps (.paren a') = false)
    (hsame : wraps a' = wraps a) (hwritten : a'.written = a.written) :
    enclosedIf (wraps (parenIf (wraps a) a')) (parenIf (wraps a) a').written =
      enclosedIf (wraps a) a.written := by
  rcases hwrap : wraps a with - | -
  · rw [parenIf, if_neg (by decide), hsame, hwrap, hwritten]
  · rw [parenIf, if_pos rfl, hparen, written, hwritten]
    rfl

/-- **The parentheses are the ones in the text.** -/
theorem written_parenthesised (e : Expr) : e.parenthesised.written = e.written := by
  have harg : ∀ a : Expr, a.parenthesised.written = a.written →
      enclosedIf (!(parenIf (!a.isParen) a.parenthesised).isParen)
        (parenIf (!a.isParen) a.parenthesised).written = enclosedIf (!a.isParen) a.written :=
    fun a ↦ enclosedIf_parenIf (fun e ↦ !e.isParen) rfl (by simp)
  induction e with
  | literal v => rfl
  | var => rfl
  | paren e ih => rw [parenthesised, written, written, ih]
  | binary op a b iha ihb =>
    have hl := enclosedIf_parenIf (fun e ↦ op.wrapsLeft e.precedence)
      (by cases op <;> rfl) (by simp) iha
    have hr := enclosedIf_parenIf (fun e ↦ op.wrapsRight e.precedence)
      (by cases op <;> rfl) (by simp) ihb
    rw [parenthesised, written, written, hl, hr]
  | log a ih => rw [parenthesised, written, written, harg a ih]
  | danglingPow a ih => rw [parenthesised, written, written, ih]
  | logWith a b ih _ => rw [parenthesised, written, written, harg a ih]

end Expr

/-! ## Precedences and levels -/

/-- The lowest level that reads what binds like this. -/
def Precedence.level : Precedence → Level
  | .term => .chain .sum
  | .factor => .chain .product
  | .exponent => .chain .power
  | .atom => .base

namespace BinaryOp

theorem level_precedence (op : BinaryOp) : op.precedence.level = .chain op.chain := by
  cases op <;> rfl

theorem wrapsLeft_eq_false_iff {op : BinaryOp} {p : Precedence} :
    op.wrapsLeft p = false ↔
      p.level.height ≤ (Grammar.canonical.operandLevels op.chain).1.height := by
  cases op <;> cases p <;> decide

theorem wrapsRight_eq_false_iff {op : BinaryOp} {p : Precedence} :
    op.wrapsRight p = false ↔
      p.level.height ≤ (Grammar.canonical.operandLevels op.chain).2.height := by
  cases op <;> cases p <;> decide

end BinaryOp

/-! ## Reading what was written -/

namespace Grammar

theorem Reads.enclosed {g : Grammar} {p : Precedence} {text : List Char} {e : Expr}
    (h : Reads g p.level text e) : Reads g .primary (Expr.enclosed text) (.paren e) :=
  .paren (h.climb _ (Level.height_le _))

theorem Reads.enclosedIf {g : Grammar} {level : Level} {p : Precedence} {text : List Char}
    {e : Expr} {wrap : Bool} (h : Reads g p.level text e)
    (hbare : wrap = false → p.level.height ≤ level.height) :
    Reads g level (Expr.enclosedIf wrap text) (Expr.parenIf wrap e) := by
  cases wrap with
  | false => exact h.climb level (hbare rfl)
  | true => exact h.enclosed.climb level (Nat.zero_le _)

theorem Reads.primary_of_paren {g : Grammar} {text : List Char} {e : Expr}
    (h : Reads g .base text (.paren e)) : Reads g .primary text (.paren e) := by
  cases h with
  | base h => exact h

end Grammar

namespace Expr

/-- **A complete expression is read at the level of its precedence.** -/
theorem reads_written {e : Expr} (h : e.Complete) :
    Reads .canonical e.precedence.level e.written e.parenthesised := by
  induction e with
  | literal v => exact .base (.literal (readLiteral?_write v))
  | var => exact .base .var
  | paren e ih => exact .base (ih h).enclosed
  | binary op a b iha ihb =>
    rw [show (Expr.binary op a b).precedence = op.precedence from rfl, op.level_precedence]
    exact .split op.mem_operators_chain ((iha h.1).enclosedIf BinaryOp.wrapsLeft_eq_false_iff.mp)
      ((ihb h.2).enclosedIf BinaryOp.wrapsRight_eq_false_iff.mp)
  | log a ih =>
    -- parentheses that the argument brings are read by the primary itself
    have harg : Reads .canonical .primary (enclosedIf (!a.isParen) a.written)
        (parenIf (!a.isParen) a.parenthesised) := by
      cases a with
      | paren a => exact (ih h).primary_of_paren
      | _ => exact (ih h).enclosed
    exact .log harg
  | danglingPow a _ => exact h.elim
  | logWith a b _ _ => exact h.elim

theorem space_not_mem_enclosedIf (wrap : Bool) {text : List Char} (h : ' ' ∉ text) :
    ' ' ∉ enclosedIf wrap text := by
  cases wrap with
  | false => exact h
  | true => simpa [enclosedIf, enclosed] using h

theorem space_not_mem_written (e : Expr) : ' ' ∉ e.written := by
  induction e with
  | literal v =>
    intro hmem
    exact absurd (NumberStyle.isPadding_of_mem_write v ' ' hmem) (by decide)
  | var => decide
  | paren e ih => exact space_not_mem_enclosedIf true ih
  | binary op a b iha ihb =>
    rw [written, List.mem_append, List.mem_cons, not_or, not_or]
    refine ⟨space_not_mem_enclosedIf _ iha, ?_, space_not_mem_enclosedIf _ ihb⟩
    cases op <;> decide
  | log a ih | logWith a _ ih _ =>
    rw [written, List.mem_append, not_or]
    exact ⟨by decide, space_not_mem_enclosedIf _ ih⟩
  | danglingPow a ih =>
    rw [written, List.mem_append, not_or]
    exact ⟨ih, by decide⟩

end Expr

/-- **What is written is read back**: the default reader accepts it, the tree it returns is the one
with its parentheses, and writing that tree gives the same text again. -/
theorem parse_written {e : Expr} (h : e.Complete) :
    parse {} e.written = .ok e.parenthesised ∧ e.parenthesised.written = e.written := by
  refine ⟨parse_canonical_eq_ok_iff_reads.mpr ?_, e.written_parenthesised⟩
  rw [dropSpaces_of_not_mem e.space_not_mem_written]
  exact (Expr.reads_written h).climb _ (Level.height_le _)

/-- Both the power in the base and the power in the logarithm are put in parentheses, and the minus
sign in front is that of a zero. -/
theorem parse_written_power :
    (Expr.log (.binary .pow
        (.binary .pow (.literal (Binary64.signed true 0)) .var) .var)).Complete ∧
      parse {} "log((-0.0^x)^x)".toList = .ok (.log (.paren (.binary .pow
        (.paren (.binary .pow (.literal (Binary64.signed true 0)) .var)) .var))) ∧
      (Expr.log (.paren (.binary .pow
        (.paren (.binary .pow (.literal (Binary64.signed true 0)) .var)) .var))).written =
          "log((-0.0^x)^x)".toList := by
  have h : (Expr.log (.binary .pow (.binary .pow (.literal (Binary64.signed true 0)) .var)
    .var)).Complete := ⟨⟨trivial, trivial⟩, trivial⟩
  exact ⟨h, parse_written h⟩

end CurveCalc
