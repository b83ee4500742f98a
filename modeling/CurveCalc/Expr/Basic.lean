import CurveCalc.Operator

/-!
# Expressions

The tree of an expression in the single variable `x`. Two shapes of node are never read from a text
but may be built by hand: a power whose exponent is missing, and a logarithm with a second operand
that nothing uses. `Expr.Complete` says that a tree has neither.
-/

namespace CurveCalc

/-- An expression in `x`. -/
inductive Expr where
  /-- A number. -/
  | literal (value : Float)
  /-- The variable `x`. -/
  | var
  /-- An expression in parentheses; they matter only when it is printed. -/
  | paren (inner : Expr)
  /-- Two operands joined by an operator. -/
  | binary (op : BinaryOp) (lhs rhs : Expr)
  /-- The natural logarithm. -/
  | log (arg : Expr)
  /-- A power without an exponent. -/
  | danglingPow (base : Expr)
  /-- A logarithm with a spare second operand. -/
  | logWith (arg spare : Expr)
deriving DecidableEq

/-- An operation that a tree does not have the operand for. -/
inductive Inconsistency where
  /-- An operator other than the logarithm was applied to one operand. -/
  | missingOperand (op : BinaryOp)
  /-- The exponent of a node was asked for that has none. -/
  | noExponent (op : Operator)
deriving DecidableEq, Repr

def Inconsistency.message : Inconsistency → String
  | .missingOperand op =>
    "internal inconsistency: `" ++ String.singleton op.symbol ++
      "` applied without a right-hand operand"
  | .noExponent op =>
    "internal inconsistency: `" ++ String.ofList op.symbol ++ "` node has no exponent"

namespace Expr

/-- A tree in which every power has an exponent and no logarithm has a second operand. -/
def Complete : Expr → Prop
  | .literal _ | .var => True
  | .paren e | .log e => e.Complete
  | .binary _ a b => a.Complete ∧ b.Complete
  | .danglingPow _ | .logWith _ _ => False

def size : Expr → Nat
  | .literal _ | .var => 1
  | .paren e | .log e | .danglingPow e => e.size + 1
  | .binary _ a b | .logWith a b => a.size + b.size + 1

/-- The operator at the root. -/
def rootOperator? : Expr → Option Operator
  | .literal _ | .var | .paren _ => none
  | .binary op _ _ => some (.binary op)
  | .danglingPow _ => some (.binary .pow)
  | .log _ | .logWith _ _ => some .log

/-- How tightly the whole expression binds when printed. -/
def precedence (e : Expr) : Precedence :=
  match e.rootOperator? with
  | some op => op.precedence
  | none => .atom

def isParen : Expr → Bool
  | .paren _ => true
  | _ => false

/-- What is left when the parentheses around the whole expression are taken off. -/
def unwrapped : Expr → Expr
  | .paren e => e.unwrapped
  | e => e

/-- The exponent of the power at the root; none if the root is neither a power nor a logarithm. -/
def exponent : Expr → Except Inconsistency (Option Expr)
  | .binary .pow _ b => .ok (some b)
  | .danglingPow _ => .error (.noExponent (.binary .pow))
  | .log _ | .logWith _ _ => .error (.noExponent .log)
  | _ => .ok none

/-- The same shape with numbers that compare equal: `0` agrees with `-0`, and NaN with nothing. -/
def agrees : Expr → Expr → Bool
  | .literal v, .literal w => v == w
  | .var, .var => true
  | .paren a, .paren b => a.agrees b
  | .binary op a b, .binary op' a' b' => decide (op = op') && a.agrees a' && b.agrees b'
  | .log a, .log b => a.agrees b
  | .danglingPow a, .danglingPow b => a.agrees b
  | .logWith a b, .logWith a' b' => a.agrees a' && b.agrees b'
  | _, _ => false

end Expr

end CurveCalc
