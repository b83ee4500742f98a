import CurveCalc.Deriving.Scan

/-!
# Phrases

Expressions, types and patterns stand in each other, and so do blocks and modules. Their readers are
written over the readers of what stands inside them, a `Phrases`, so that none of them calls itself:
each takes a token or opens a group before it asks for a phrase inside, and the readers for one more
level of nesting are those for the levels below with one more step.
-/

namespace CurveCalc

namespace Deriving

/-- What an expression looks like to the tokens after it. -/
inductive Shape where
  | plain
  /-- A range, with an upper bound or without. -/
  | range (bounded : Bool)
  | comparison
  /-- A loop, a block or a choice, which ends with its own braces. -/
  | block
  /-- A macro call in braces. -/
  | bracedCall
deriving DecidableEq, Repr

namespace Shape

def isRange : Shape → Bool
  | .range _ => true
  | _ => false

/-- Whether an expression is a statement by itself, with no semicolon. -/
def isStatement : Shape → Bool
  | .block | .bracedCall => true
  | _ => false

end Shape

/-- The readers of the phrases that stand in others. -/
structure Phrases where
  /-- An operand with the operators in front of it and what is behind it. In the head of a loop or a
  choice no braces can follow a name, which `braces` says. -/
  operand : (braces : Bool) → Scan Shape
  /-- The operators that bind at least as strongly as `strength` and their right operands, after
  what has been read. -/
  operators : (braces : Bool) → (strength : Nat) → Shape → Scan Shape
  /-- A type; `plus` if it may be a sum of bounds. The result says whether it is a single name, to
  which something can be assigned. -/
  type : (plus : Bool) → Scan Bool
  /-- A bound of a type: a lifetime or a trait. -/
  bound : Scan Unit
  /-- A pattern without alternatives. -/
  pattern : Scan Unit
  /-- A block in braces. -/
  block : Scan Unit
  /-- An expression at the start of a statement. What ends with its own braces is one by itself,
  unless a member or a question mark is behind it. -/
  statement : Scan Shape
  /-- The items of a module, in braces. -/
  items : Scan Unit
  /-- What is brought in of the same path, in braces; `rooted` if it can start at the root. -/
  imports : (rooted : Bool) → Scan Unit

namespace Phrases

/-- The phrases in a row without any trees. -/
def empty : Phrases where
  operand _ := .fail (.unexpected none)
  operators _ _ _ := .fail (.unexpected none)
  type _ := .fail (.unexpected none)
  bound := .fail (.unexpected none)
  pattern := .fail (.unexpected none)
  block := .fail (.unexpected none)
  statement := .fail (.unexpected none)
  items := .fail (.unexpected none)
  imports _ := .fail (.unexpected none)

variable (p : Phrases)

def expression (braces : Bool) : Scan Shape := do
  p.operators braces 0 (← p.operand braces)

/-- An expression, where its shape does not matter. -/
def anyExpression : Scan Unit := discard (p.expression true)

end Phrases

end Deriving

end CurveCalc
