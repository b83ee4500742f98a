import CurveCalc.Expr.Basic

/-!
# Evaluation

The value of an expression at a point, in any arithmetic: what its literals stand for, and what its
operators do. The calculator evaluates in doubles, where an operation outside its domain gives an
infinity or NaN and is no error; the only errors are those of incomplete trees.
-/

namespace CurveCalc

/-- Numbers to evaluate expressions in. -/
structure Arithmetic (α : Type) where
  /-- The number that a literal stands for. -/
  literal : Float → α
  /-- The result of an operator on its two operands. -/
  binary : BinaryOp → α → α → α
  /-- The natural logarithm. -/
  log : α → α

namespace Arithmetic

def doubleBinary : BinaryOp → Float → Float → Float
  | .add, a, b => a + b
  | .sub, a, b => a - b
  | .mul, a, b => a * b
  | .div, a, b => a / b
  | .pow, a, b => Float.pow a b

def double : Arithmetic Float where
  literal := id
  binary := doubleBinary
  log := Float.log

end Arithmetic

/-- The result of an operator on operands that are already evaluated. A logarithm pays no attention
to its second operand; all others need one. -/
def Operator.apply {α : Type} (A : Arithmetic α) (lhs : α) (rhs? : Option α) :
    Operator → Except Inconsistency α
  | .log => .ok (A.log lhs)
  | .binary op =>
    match rhs? with
    | some rhs => .ok (A.binary op lhs rhs)
    | none => .error (.missingOperand op)

namespace Expr

/-- The value of an expression at `x`. Every operand is evaluated, spare ones too. -/
def evalIn {α : Type} (A : Arithmetic α) (x : α) : Expr → Except Inconsistency α
  | .literal v => .ok (A.literal v)
  | .var => .ok x
  | .paren e => e.evalIn A x
  | .binary op a b => do
    let lhs ← a.evalIn A x
    let rhs ← b.evalIn A x
    (Operator.binary op).apply A lhs (some rhs)
  | .log a => do
    let arg ← a.evalIn A x
    Operator.log.apply A arg none
  | .danglingPow a => do
    let base ← a.evalIn A x
    (Operator.binary .pow).apply A base none
  | .logWith a b => do
    let spare ← b.evalIn A x
    let arg ← a.evalIn A x
    Operator.log.apply A arg (some spare)

/-- The value of an expression at `x`, in doubles. -/
def eval (e : Expr) (x : Float) : Except Inconsistency Float := e.evalIn Arithmetic.double x

end Expr

end CurveCalc
