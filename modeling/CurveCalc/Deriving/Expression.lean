import CurveCalc.Deriving.Operand

/-!
# Expressions

Operators between operands bind by strength. The right operand of an operator takes in what binds
stronger; an assignment takes in further assignments. Comparisons do not compare comparisons, and a
range with an upper bound is no left operand.
-/

namespace CurveCalc

namespace Deriving

/-! ## Operators between operands -/

/-- An operator between two operands, and how strongly it binds. -/
structure Infix where
  text : String
  strength : Nat

namespace Strength

def assignment : Nat := 1

def range : Nat := 2

def comparison : Nat := 5

def conversion : Nat := 12

end Strength

/-- The operators between operands, longer ones first. -/
def Infix.all : List Infix :=
  [⟨"<<=", 1⟩, ⟨">>=", 1⟩, ⟨"+=", 1⟩, ⟨"-=", 1⟩, ⟨"*=", 1⟩, ⟨"/=", 1⟩, ⟨"%=", 1⟩, ⟨"^=", 1⟩,
    ⟨"&=", 1⟩, ⟨"|=", 1⟩, ⟨"||", 3⟩, ⟨"&&", 4⟩, ⟨"==", 5⟩, ⟨"!=", 5⟩, ⟨"<=", 5⟩, ⟨">=", 5⟩,
    ⟨"<<", 9⟩, ⟨">>", 9⟩, ⟨"<", 5⟩, ⟨">", 5⟩, ⟨"|", 6⟩, ⟨"^", 7⟩, ⟨"&", 8⟩, ⟨"+", 10⟩, ⟨"-", 10⟩,
    ⟨"*", 11⟩, ⟨"/", 11⟩, ⟨"%", 11⟩]

/-- The operator that a row of trees starts with. -/
def Infix.at? (trees : List Tree) : Option Infix :=
  Infix.all.find? fun i ↦ Tree.beginsMark i.text trees

/-- How strongly what a row of trees starts with binds to the operand before it. -/
def strengthAt (trees : List Tree) : Nat :=
  match Infix.at? trees with
  | some i => i.strength
  | none =>
    if Tree.beginsEquals trees then Strength.assignment
    else if Tree.beginsMark ".." trees then Strength.range
    else if Tree.beginsWord "as" trees then Strength.conversion
    else 0

namespace Phrases

variable (p : Phrases)

def rightOperand (braces : Bool) (strength : Nat) : Scan Unit := do
  let shape ← p.operand braces
  discard <| Scan.iterate (fun shape ↦ do
    let next := strengthAt (← Scan.ahead)
    if strength < next || next = strength && strength = Strength.assignment then
      return (← p.operators braces next shape, true)
    else return (shape, false)) shape

/-- The end of a range after its points, if it has one; the result says whether it has. -/
def upperBound (braces : Bool) (closed : Bool) : Scan Bool := do
  let trees ← Scan.ahead
  if !closed && (Tree.endsRange braces trees || Tree.beginsMark "=>" trees) then return false
  else
    p.rightOperand braces Strength.range
    return true

def rangeFrom (braces : Bool) : Scan Shape := do
  let closed := Tree.beginsMark "..=" (← Scan.ahead)
  Scan.rangeMark
  return .range (← p.upperBound braces closed)

/-- Refuses what cannot be behind a conversion. -/
def nothingBehind : Scan Unit := do
  let trees ← Scan.ahead
  let after := trees.drop 1
  if Tree.beginsAccess trees then
    if Tree.beginsWord "await" after then Scan.fail (.castFollowedBy (backquoted ".await"))
    else if Tree.beginsIdentifier after
        && (Tree.beginsGroup .parenthesis (after.drop 1)
          || Tree.beginsMark "::" (after.drop 1)) then
      Scan.fail (.castFollowedBy "a method call")
    else Scan.fail (.castFollowedBy "a field access")
  else if Tree.beginsMark "?" trees then Scan.fail (.castFollowedBy (backquoted "?"))
  else if Tree.beginsGroup .bracket trees then Scan.fail (.castFollowedBy "indexing")
  else if Tree.beginsGroup .parenthesis trees then Scan.fail (.castFollowedBy "a function call")

/-- One operator after what has been read, if one comes that binds strongly enough, and its right
operand. -/
def operator (braces : Bool) (strength : Nat) (left : Shape) : Scan (Shape × Bool) := do
  let trees ← Scan.ahead
  if left = .range true then return (left, false)
  match Infix.at? trees with
  | some i =>
    if i.strength < strength || i.strength = Strength.assignment && left.isRange then
      return (left, false)
    else if i.strength = Strength.comparison && left = .comparison then
      Scan.fail .chainedComparison
    else
      Scan.mark i.text
      p.rightOperand braces i.strength
      return (if i.strength = Strength.comparison then .comparison else .plain, true)
  | none =>
    if strength ≤ Strength.assignment && Tree.beginsEquals trees && !left.isRange then
      Scan.mark "="
      p.rightOperand braces Strength.assignment
      return (.plain, true)
    else if strength ≤ Strength.range && Tree.beginsMark ".." trees then
      return (← p.rangeFrom braces, true)
    else if strength ≤ Strength.conversion && Tree.beginsWord "as" trees then
      Scan.word "as"
      discard (p.type false)
      nothingBehind
      return (.plain, true)
    else return (left, false)

/-- The reader of operators for one more level of nesting. -/
def nextOperators (braces : Bool) (strength : Nat) : Shape → Scan Shape :=
  Scan.iterate (p.operator braces strength)

/-! ## Operands -/

/-- An operand without operators in front of it or anything behind. -/
def atom (braces : Bool) : Scan Shape := do
  let trees ← Scan.ahead
  if Tree.beginsLiteral trees then
    Scan.literal
    return .plain
  else if Tree.beginsAsync trees then
    Scan.word "async"
    discard (Scan.wordIf "move")
    p.block
    return .plain
  else if Tree.beginsBlock trees then
    p.blockExpression
    return .block
  else if Tree.beginsClosure trees then
    p.closure braces
    return .plain
  else if Tree.beginsPath trees || Tree.beginsWord "try" trees then p.pathExpression braces
  else if Tree.beginsGroup .parenthesis trees then
    Scan.inside .parenthesis p.listed
    return .plain
  else if Tree.beginsGroup .bracket trees then
    Scan.inside .bracket p.elements
    return .plain
  else if Tree.beginsWord "break" trees then
    p.breaking braces
    return .plain
  else if ← Scan.wordIf "continue" then
    Scan.lifetimeIf
    return .plain
  else if Tree.beginsAnyWord ["return", "yield", "become"] trees then
    Scan.next
    p.leavingValue true
    return .plain
  else if Tree.beginsWord "let" trees then
    p.matching braces Strength.comparison
    return .plain
  else if Tree.beginsMark ".." trees then p.rangeFrom braces
  else if ← Scan.wordIf "_" then return .plain
  else Scan.due [.expression]

/-- A reference, after its mark: to a place that can change perhaps, or the bare address of one. -/
def reference (braces : Bool) : Scan Unit := do
  let trees ← Scan.ahead
  if Tree.beginsWord "raw" trees && Tree.beginsAnyWord ["mut", "const"] (trees.drop 1) then
    Scan.next
    Scan.next
  else discard (Scan.wordIf "mut")
  discard (p.operand braces)

/-- The reader of an operand for one more level of nesting. -/
def nextOperand (braces : Bool) : Scan Shape := do
  discard p.attributes
  let trees ← Scan.ahead
  if ← Scan.markIf "&" then
    p.reference braces
    return .plain
  else if Tree.beginsAnyMark ["*", "!", "-"] trees then
    Scan.next
    discard (p.operand braces)
    return .plain
  else p.behind (← p.atom braces)

end Phrases

end Deriving

end CurveCalc
