import CurveCalc.Operator

/-!
# Grammars and their options

The levels of the expression grammar, from sums down to single operands. A *chain* level joins two
operands by one of its operators; a `Grammar` says at which level each of them is read. In the
canonical grammar these are the usual ones,

```text
A -> A+M | A-M | M
M -> M*E | M/E | E
E -> B^E | B
B -> P | log P
P -> (A) | L | x
```

where `L` is a number literal. The legacy grammar keeps the levels and differs only in the operands:
a sum joins a product and a power, products and powers join two sums. Expressions saved with it keep
their meaning.
-/

namespace CurveCalc

namespace Grammar

/-- The levels that join operands. -/
inductive Chain where
  | sum
  | product
  | power
deriving DecidableEq, Repr

/-- A level of the grammar. -/
inductive Level where
  | chain (chain : Chain)
  /-- A primary, or the logarithm of one. -/
  | base
  /-- A parenthesised expression, a literal, or the variable. -/
  | primary
deriving DecidableEq, Repr

def Chain.operators : Chain → List BinaryOp
  | .sum => [.add, .sub]
  | .product => [.mul, .div]
  | .power => [.pow]

/-- The level that a chain level falls through to. -/
def Chain.below : Chain → Level
  | .sum => .chain .product
  | .product => .chain .power
  | .power => .base

def Level.height : Level → Nat
  | .chain .sum => 4
  | .chain .product => 3
  | .chain .power => 2
  | .base => 1
  | .primary => 0

theorem Level.height_le (l : Level) : l.height ≤ 4 := by
  cases l with
  | chain c => cases c <;> decide
  | base => decide
  | primary => decide

theorem Chain.height_below (c : Chain) : c.below.height < (Level.chain c).height := by
  cases c <;> decide

end Grammar

/-- The rule for the operands of each operator. -/
inductive Grammar where
  | canonical
  | legacy
deriving DecidableEq, Repr

/-- The levels at which the operands left and right of a chain's operator are read. -/
def Grammar.operandLevels : Grammar → Grammar.Chain → Grammar.Level × Grammar.Level
  | .canonical, .sum => (.chain .sum, .chain .product)
  | .canonical, .product => (.chain .product, .chain .power)
  | .canonical, .power => (.base, .chain .power)
  | .legacy, .sum => (.chain .product, .chain .power)
  | .legacy, .product => (.chain .sum, .chain .sum)
  | .legacy, .power => (.chain .sum, .chain .sum)

/-- How a text is read. -/
structure ReadOptions where
  grammar : Grammar := .canonical
  /-- The deepest nesting of levels at which a reading is still tried; none means no limit. -/
  maxDepth : Option Nat := none
deriving DecidableEq, Repr

/-- Whether a level may be entered at a depth. -/
def ReadOptions.permits (o : ReadOptions) (depth : Nat) : Bool :=
  match o.maxDepth with
  | none => true
  | some limit => decide (depth ≤ limit)

end CurveCalc
