import CurveCalc.Expr.Basic
import CurveCalc.Grammar.Options

/-!
# How deep an expression is nested

Reading enters a level inside another: an operand inside its chain, the level below inside the one
that falls through to it, what is in parentheses inside a primary. `Expr.nesting` counts this on the
tree. It is the depth of the innermost level on the way to a node, not of all levels that a search
enters before it finds the way. A limit permits a tree where it permits that depth
(`permits_nesting_binary` for the operands of a node).
-/

namespace CurveCalc

open Grammar

/-! ## The level of a node -/

namespace BinaryOp

/-- The chain that an operator belongs to. -/
def chain : BinaryOp → Chain
  | .add | .sub => .sum
  | .mul | .div => .product
  | .pow => .power

theorem mem_operators_chain (op : BinaryOp) : op ∈ op.chain.operators := by
  cases op <;> decide

theorem chain_eq_of_mem {op : BinaryOp} {c : Chain} (h : op ∈ c.operators) : op.chain = c := by
  cases c <;> cases op <;> revert h <;> decide

end BinaryOp

namespace Expr

/-- The level at which the root is made; those above fall through to it. -/
def level : Expr → Level
  | .literal _ | .var | .paren _ => .primary
  | .log _ | .logWith _ _ => .base
  | .binary op _ _ => .chain op.chain
  | .danglingPow _ => .chain .power

/-! ## Nesting -/

/-- How many levels deep the innermost level is when an expression is read from the given one. -/
def nesting (g : Grammar) : Expr → Level → Nat
  | .literal _, start | .var, start => start.height
  | .paren e, start => start.height + 1 + e.nesting g (.chain .sum)
  | .log e, start | .logWith e _, start =>
    start.height - Level.base.height + 1 + e.nesting g .primary
  | .binary op a b, start =>
    start.height - (Level.chain op.chain).height + 1 +
      max (a.nesting g (g.operandLevels op.chain).1) (b.nesting g (g.operandLevels op.chain).2)
  | .danglingPow e, start =>
    start.height - (Level.chain .power).height + 1 + e.nesting g (g.operandLevels .power).1

/-- A level that falls through counts once. -/
theorem nesting_fall (g : Grammar) {e : Expr} {lower : Level} (he : e.level.height ≤ lower.height)
    {upper : Level} (hupper : upper.height = lower.height + 1) :
    e.nesting g upper = 1 + e.nesting g lower := by
  cases e <;> simp only [nesting, level] at he ⊢ <;> omega

theorem nesting_binary (g : Grammar) {op : BinaryOp} {c : Chain} (hop : op ∈ c.operators)
    (a b : Expr) :
    (binary op a b).nesting g (.chain c) =
      1 + max (a.nesting g (g.operandLevels c).1) (b.nesting g (g.operandLevels c).2) := by
  obtain rfl := BinaryOp.chain_eq_of_mem hop
  simp only [nesting, Nat.sub_self, Nat.zero_add]

@[simp] theorem nesting_paren (g : Grammar) (e : Expr) :
    (paren e).nesting g .primary = 1 + e.nesting g (.chain .sum) := by
  simp only [nesting, Level.height, Nat.zero_add]

@[simp] theorem nesting_log (g : Grammar) (e : Expr) :
    (log e).nesting g .base = 1 + e.nesting g .primary := by
  simp only [nesting, Nat.sub_self, Nat.zero_add]

end Expr

/-! ## What a limit permits -/

namespace Grammar

theorem permits_of_unlimited {o : ReadOptions} (ho : o.maxDepth = none) (depth : Nat) :
    o.permits depth = true := by
  rw [ReadOptions.permits, ho]

theorem permits_of_le {o : ReadOptions} {m n : Nat} (h : o.permits n = true) (hle : m ≤ n) :
    o.permits m = true := by
  rcases o with ⟨g, _ | limit⟩
  · rfl
  · rw [ReadOptions.permits, decide_eq_true_eq] at h ⊢
    exact Nat.le_trans hle h

theorem permits_of_add {o : ReadOptions} {m n : Nat} (h : o.permits (m + n) = true) :
    o.permits m = true :=
  permits_of_le h (Nat.le_add_right m n)

theorem permits_max {o : ReadOptions} {m n : Nat} :
    o.permits (max m n) = true ↔ o.permits m = true ∧ o.permits n = true := by
  constructor
  · intro h
    exact ⟨permits_of_le h (Nat.le_max_left m n), permits_of_le h (Nat.le_max_right m n)⟩
  · rintro ⟨hm, hn⟩
    rcases Nat.le_total m n with hle | hle
    · rwa [Nat.max_eq_right hle]
    · rwa [Nat.max_eq_left hle]

theorem permits_nesting_binary {o : ReadOptions} {c : Chain} {op : BinaryOp}
    (hop : op ∈ c.operators) {a b : Expr} {depth : Nat} :
    o.permits (depth + (Expr.binary op a b).nesting o.grammar (.chain c)) = true ↔
      o.permits (depth + 1 + a.nesting o.grammar (o.grammar.operandLevels c).1) = true ∧
        o.permits (depth + 1 + b.nesting o.grammar (o.grammar.operandLevels c).2) = true := by
  rw [Expr.nesting_binary o.grammar hop, ← Nat.add_assoc, ← Nat.add_max_add_left, permits_max]

end Grammar

end CurveCalc
