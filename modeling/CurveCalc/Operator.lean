/-!
# Operators

The binary operators, the natural logarithm, and how each binds: its precedence when printed, and
the side on which a chain of it is grouped.
-/

namespace CurveCalc

/-- An operator written between its two operands. -/
inductive BinaryOp where
  | add
  | sub
  | mul
  | div
  | pow
deriving DecidableEq, Repr

/-- How tightly an expression binds when printed, loosest first. -/
inductive Precedence where
  /-- Sums and differences. -/
  | term
  /-- Products and quotients. -/
  | factor
  /-- Powers. -/
  | exponent
  /-- What never needs parentheses: literals, the variable, parenthesised expressions, `log(..)`. -/
  | atom
deriving DecidableEq, Repr

/-- The place of a precedence in the order from loosest to tightest. -/
def Precedence.tightness : Precedence → Nat
  | .term => 0
  | .factor => 1
  | .exponent => 2
  | .atom => 3

/-- The side on which `a op b op c` is grouped. -/
inductive Associativity where
  | left
  | right
deriving DecidableEq, Repr

namespace BinaryOp

def symbol : BinaryOp → Char
  | .add => '+'
  | .sub => '-'
  | .mul => '*'
  | .div => '/'
  | .pow => '^'

def ofChar? (c : Char) : Option BinaryOp :=
  if c = '+' then some .add
  else if c = '-' then some .sub
  else if c = '*' then some .mul
  else if c = '/' then some .div
  else if c = '^' then some .pow
  else none

@[simp] theorem ofChar?_symbol (op : BinaryOp) : ofChar? op.symbol = some op := by
  cases op <;> decide

theorem eq_symbol_of_ofChar? {c : Char} {op : BinaryOp} (h : ofChar? c = some op) :
    c = op.symbol := by
  simp only [ofChar?] at h
  repeat' split at h
  all_goals simp_all [symbol]
  all_goals subst h; rfl

def precedence : BinaryOp → Precedence
  | .add | .sub => .term
  | .mul | .div => .factor
  | .pow => .exponent

/-- Powers group to the right, all others to the left. -/
def associativity : BinaryOp → Associativity
  | .pow => .right
  | .add | .sub | .mul | .div => .left

/-- Whether a left operand of this precedence has to be put in parentheses. -/
def wrapsLeft (op : BinaryOp) (p : Precedence) : Bool :=
  match op.associativity with
  | .left => decide (p.tightness < op.precedence.tightness)
  | .right => decide (p.tightness ≤ op.precedence.tightness)

/-- Whether a right operand of this precedence has to be put in parentheses. -/
def wrapsRight (op : BinaryOp) (p : Precedence) : Bool :=
  match op.associativity with
  | .left => decide (p.tightness ≤ op.precedence.tightness)
  | .right => decide (p.tightness < op.precedence.tightness)

end BinaryOp

inductive Operator where
  | binary (op : BinaryOp)
  /-- The natural logarithm. -/
  | log
deriving DecidableEq, Repr

namespace Operator

def symbol : Operator → List Char
  | .binary op => [op.symbol]
  | .log => ['l', 'o', 'g']

def precedence : Operator → Precedence
  | .binary op => op.precedence
  | .log => .atom

/-- The side on which a chain is grouped; a logarithm counts as left. -/
def associativity : Operator → Associativity
  | .binary op => op.associativity
  | .log => .left

end Operator

end CurveCalc
