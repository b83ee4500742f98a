import CurveCalc.Deriving.Expression
import CurveCalc.Deriving.Item

/-!
# Statements

A block holds `let` statements, expressions, macro calls and items. An expression that does not end
with its own braces needs a semicolon unless it is the last. With statements the readers for one more
level of nesting are complete, and with them those that declarations of the language are read by.
-/

namespace CurveCalc

namespace Deriving

namespace Tree

/-- The trees from the `!` of a macro call on that a row of trees starts with. -/
def afterCallee? (trees : List Tree) : Option (List Tree) :=
  let named := if beginsMark "::" trees then trees.drop 2 else trees
  let rest := afterNames named
  if beginsName named && beginsMark "!" rest then some rest else none

/-- Whether a row of trees starts with a macro call that gives a name to something. -/
def beginsNamingCall (trees : List Tree) : Bool :=
  (afterCallee? trees).any fun rest ↦
    beginsIdentifier (rest.drop 1) || beginsWord "try" (rest.drop 1)

/-- Whether a row of trees starts with a macro call in braces that is a statement. -/
def beginsBracedCall (trees : List Tree) : Bool :=
  (afterCallee? trees).any fun rest ↦
    let behind := rest.drop 2
    beginsGroup .brace (rest.drop 1) && !beginsAccess behind && !beginsMark "?" behind

/-- Whether what is after the word `const` makes an expression of it: a block or a closure. -/
def beginsConstantBlock (trees : List Tree) : Bool :=
  beginsGroup .brace trees || beginsAnyWord ["static", "move"] trees || beginsMark "|" trees
    || beginsWord "async" trees && !beginsAnyWord ["unsafe", "extern", "fn"] (trees.drop 1)

/-- Whether a row of trees starts with an item that is declared by a word of its own. -/
def beginsItem (trees : List Tree) : Bool :=
  let rest := trees.drop 1
  beginsAnyWord ["pub", "extern", "use", "fn", "mod", "type", "struct", "enum", "trait", "impl",
      "macro"] trees
    || beginsWord "crate" trees && !beginsMark "::" rest
    || beginsWord "static" trees && (beginsWord "mut" rest || beginsIdentifier rest)
    || beginsWord "const" trees && !beginsConstantBlock rest
    || beginsWord "unsafe" trees && !beginsGroup .brace rest
    || beginsWord "async" trees && beginsAnyWord ["unsafe", "extern", "fn"] rest
    || beginsWord "union" trees && beginsIdentifier rest
    || beginsWord "auto" trees && beginsWord "trait" rest
    || beginsWord "default" trees && beginsAnyWord ["unsafe", "impl"] rest
    || beginsNamingCall trees

end Tree

namespace Phrases

variable (p : Phrases)

/-! ## Blocks -/

def letStatement : Scan Unit := do
  Scan.word "let"
  p.pattern
  if ← Scan.markIf ":" then discard (p.type true)
  if ← Scan.markIf "=" then
    p.anyExpression
    if ← Scan.wordIf "else" then p.block
  Scan.mark ";"

/-- A statement; the result says whether another can follow it. -/
def oneStatement : Scan Bool := do
  discard p.attributes
  let trees ← Scan.ahead
  if Tree.beginsBracedCall trees then
    discard Scan.plainPath
    Scan.mark "!"
    discard Scan.anyGroup
    discard (Scan.markIf ";")
    return true
  else if Tree.beginsWord "let" trees then
    p.letStatement
    return true
  else if Tree.beginsItem trees then
    p.item
    return true
  else
    let shape ← p.statement
    let ended ← Scan.markIf ";"
    return ended || shape.isStatement

def statements : Scan Unit := do
  p.innerAttributes
  Scan.iterate (fun _ ↦ do
    if ← Scan.atEnd then return ((), false)
    if ← Scan.markIf ";" then return ((), true)
    let separate ← p.oneStatement
    if separate || (← Scan.atEnd) then return ((), true)
    else Scan.fail (.unexpected (some ";"))) ()

/-- The reader of a statement's expression for one more level of nesting. -/
def nextStatement : Scan Shape := do
  discard p.attributes
  if Tree.beginsBlock (← Scan.ahead) then
    let shape ← p.atom true
    let trees ← Scan.ahead
    if Tree.beginsAccess trees || Tree.beginsMark "?" trees then
      p.operators true 0 (← p.behind shape)
    else return shape
  else p.expression true

/-! ## All levels of nesting -/

/-- The readers for one more level of nesting. -/
def next : Phrases where
  operand := p.nextOperand
  operators := p.nextOperators
  type := p.nextType
  bound := p.nextBound
  pattern := p.nextPattern
  block := Scan.inside .brace p.statements
  statement := p.nextStatement
  items := p.nextItems
  imports := p.nextImports

/-- The readers for a number of levels of nesting. -/
def nested : Nat → Phrases
  | 0 => empty
  | n + 1 => (nested n).next

/-- The readers for the phrases in a row of trees. A phrase inside another comes after a token or in
a group of it, save the first operand of a statement and the lifetime that is a type: so there are
at most two levels for a token, and two for what has none. -/
def of (trees : List Tree) : Phrases := nested (2 * Tree.listSize trees + 2)

/-- The readers of a declaration and of the expressions in its attributes. -/
def readers : Readers where
  attributes := p.attributes
  item := p.structItem
  expression := Scan.writing p.anyExpression

end Phrases

end Deriving

end CurveCalc
