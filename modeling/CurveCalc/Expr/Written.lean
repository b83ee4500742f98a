import CurveCalc.Expr.Basic
import CurveCalc.Number.Style

/-!
# The written form of an expression

`Expr.written` is the expression on one line. An operand goes in parentheses when it binds less
tightly than its place requires, so the text groups as the tree does. The argument of a logarithm is
always in parentheses, but not in a second pair if it brings its own.

`Expr.outline` is the tree as indented text: one line per shown node, in pre-order.
-/

namespace CurveCalc

namespace Expr

/-! ## On one line -/

def enclosed (text : List Char) : List Char := '(' :: text ++ [')']

/-- A text in parentheses if `wrap` holds. -/
def enclosedIf (wrap : Bool) (text : List Char) : List Char :=
  if wrap then enclosed text else text

/-- The expression on one line. -/
def written : Expr → List Char
  | .literal v => NumberStyle.literal.write v
  | .var => ['x']
  | .paren e => enclosed e.written
  | .binary op a b =>
    enclosedIf (op.wrapsLeft a.precedence) a.written ++
      op.symbol :: enclosedIf (op.wrapsRight b.precedence) b.written
  | .log a | .logWith a _ => Operator.log.symbol ++ enclosedIf (!a.isParen) a.written
  | .danglingPow a => a.written ++ [BinaryOp.pow.symbol]

def toText (e : Expr) : String := String.ofList e.written

/-! ## As a tree -/

def outlineLine (indent : Nat) (text : List Char) : List Char :=
  List.replicate indent '\t' ++ text ++ ['\n']

/-- The tree as indented text, its root at the given number of tabs. A missing or spare operand is
not shown. -/
def outline (indent : Nat) : Expr → List Char
  | .literal v => outlineLine indent (NumberStyle.literal.write v)
  | .var => outlineLine indent ['x']
  | .paren e => outlineLine indent ['(', ')'] ++ e.outline (indent + 1)
  | .binary op a b =>
    outlineLine indent [op.symbol] ++ a.outline (indent + 1) ++ b.outline (indent + 1)
  | .log a | .logWith a _ => outlineLine indent Operator.log.symbol ++ a.outline (indent + 1)
  | .danglingPow a => outlineLine indent [BinaryOp.pow.symbol] ++ a.outline (indent + 1)

end Expr

end CurveCalc
