import CurveCalc.Deriving.Pattern

/-!
# Operands

An operand is an atom with operators in front of it, and behind it the calls, members, indices and
question marks that apply to it. A number with a point behind the point of a member is two members.
-/

namespace CurveCalc

namespace Deriving

namespace Tree

/-- Whether a row of trees starts with the lifetimes that a closure holds for. -/
def beginsClosureLifetimes (trees : List Tree) : Bool :=
  beginsWord "for" trees && beginsMark "<" (trees.drop 1)
    && (beginsLifetime (trees.drop 2) || beginsMark ">" (trees.drop 2))

def beginsClosure (trees : List Tree) : Bool :=
  beginsMark "|" trees || beginsAnyWord ["move", "static"] trees || beginsClosureLifetimes trees
    || beginsWord "const" trees && !beginsGroup .brace (trees.drop 1)
    || beginsWord "async" trees
      && (beginsMark "|" (trees.drop 1) || beginsWord "move" (trees.drop 1))

/-- Whether a row of trees starts with a block that runs later. -/
def beginsAsync (trees : List Tree) : Bool :=
  beginsWord "async" trees
    && (beginsGroup .brace (trees.drop 1)
      || beginsWord "move" (trees.drop 1) && beginsGroup .brace (trees.drop 2))

/-- Whether a row of trees starts with something that ends with its own braces: a choice, a loop, or
a block, perhaps with a label. -/
def beginsBlock (trees : List Tree) : Bool :=
  beginsAnyWord ["if", "while", "loop", "match"] trees
    || beginsWord "for" trees && !beginsClosureLifetimes trees
    || beginsAnyWord ["try", "unsafe", "const"] trees && beginsGroup .brace (trees.drop 1)
    || beginsGroup .brace trees || beginsLifetime trees

/-- Whether a row of trees starts with something that can be an expression. -/
def beginsExpression (trees : List Tree) : Bool :=
  beginsSomeWord trees || beginsLiteral trees || beginsLifetime trees || beginsBang trees
    || beginsGroup .parenthesis trees || beginsGroup .bracket trees || beginsGroup .brace trees
    || beginsMark "-" trees && !beginsAnyMark ["-=", "->"] trees
    || beginsMark "*" trees && !beginsMark "*=" trees
    || beginsMark "|" trees && !beginsMark "|=" trees
    || beginsMark "&" trees && !beginsMark "&=" trees
    || beginsMark "<" trees && !beginsAnyMark ["<=", "<<="] trees
    || beginsAnyMark ["..", "::", "#"] trees

/-- Whether a range without an upper bound ends where this row of trees starts. -/
def endsRange (braces : Bool) (trees : List Tree) : Bool :=
  trees.isEmpty || beginsAccess trees || !braces && beginsGroup .brace trees
    || beginsAnyMark [",", ";", "?", "=", "+", "/", "%", "^", ">", "<=", "!=", "-=", "*=", "&=",
      "|=", "<<="] trees
    || beginsWord "as" trees

end Tree

/-- The texts between the points of a text. -/
def pointParts : List Char → List (List Char)
  | [] => [[]]
  | c :: rest =>
    match c, pointParts rest with
    | '.', parts => [] :: parts
    | _, part :: parts => (c :: part) :: parts
    | _, [] => [[c]]

namespace Phrases

variable (p : Phrases)

/-! ## Calls and members -/

/-- Expressions in parentheses with commas between them. -/
def callArguments : Scan Unit := Scan.inside .parenthesis (Scan.separated p.anyExpression)

/-- The members that a float names by their places; one more member is still to come if the text
ends in its point, which the result says. -/
def placedMembers (text : List Char) : Scan Bool := do
  let isOpen := text.getLast? = some '.'
  let parts := pointParts (if isOpen then text.dropLast else text)
  let places ← Scan.ofExcept (parts.mapM Figure.index)
  let trees := (places.map fun place ↦ [Tree.literal place]).intersperse [.mark ['.'] false]
  Scan.take 1 (trees.flatten ++ if isOpen then [.mark ['.'] false] else [])
  return isOpen

/-- A member after its point: a field, or a method with its arguments. -/
def access : Scan Unit := do
  if ← Scan.wordIf "await" then return ()
  let named ← member
  let generic := named && Tree.beginsMark "::" (← Scan.ahead)
  if generic then
    Scan.mark "::"
    Scan.mark "<"
    Scan.untilAngle p.typeArgument
  if generic || named && Tree.beginsGroup .parenthesis (← Scan.ahead) then p.callArguments

/-- What is behind an operand: calls, indices, members and question marks. -/
def behind : Shape → Scan Shape :=
  Scan.iterate fun shape ↦ do
    let trees ← Scan.ahead
    if Tree.beginsGroup .parenthesis trees then
      p.callArguments
      return (.plain, true)
    else if Tree.beginsAccess trees && !shape.isRange then
      Scan.mark "."
      match ← Scan.ahead with
      | .literal text :: _ =>
        if Figure.isFloat text then
          if ← placedMembers text then p.access
        else p.access
      | .mark ['-'] _ :: .literal text :: _ =>
        if Figure.isFloat text then
          Scan.fail (Figure.signedFault (text.takeWhile (· ≠ '.')))
        else p.access
      | _ => p.access
      return (.plain, true)
    else if Tree.beginsGroup .bracket trees then
      Scan.inside .bracket p.anyExpression
      return (.plain, true)
    else if Tree.beginsMark "?" trees && !shape.isRange then
      Scan.mark "?"
      return (.plain, true)
    else return (shape, false)

/-! ## Atoms -/

/-- What is in the parentheses of a pair or of an expression. -/
def listed : Scan Unit := Scan.separated p.anyExpression

/-- What is in the brackets of an array: its elements, or one of them and their number. -/
def elements : Scan Unit := do
  if ← Scan.atEnd then return ()
  p.anyExpression
  if ← Scan.atEnd then return ()
  if ← Scan.markIf ";" then p.anyExpression
  else if ← Scan.markIf "," then p.listed
  else Scan.due [.token ",", .token ";"]

/-- A field of a value in braces: its name, and its value unless that has the same name. -/
def fieldValue : Scan Unit := do
  discard p.attributes
  let named ← member
  let trees ← Scan.ahead
  if !named || Tree.beginsMark ":" trees && !Tree.beginsMark "::" trees then
    Scan.mark ":"
    p.anyExpression

/-- What is in the braces of a value: its fields, and the value that has the others. -/
def fieldValues : Scan Unit :=
  Scan.iterate (fun _ ↦ do
    if ← Scan.atEnd then return ((), false)
    if ← Scan.markIf ".." then
      if !(← Scan.atEnd) then p.anyExpression
      return ((), false)
    p.fieldValue
    if ← Scan.atEnd then return ((), false)
    Scan.mark ","
    return ((), true)) ()

/-- An expression that starts with a path: a macro call, a value in braces, or the path. -/
def pathExpression (braces : Bool) : Scan Shape := do
  let shape ← p.qualifiedPath false
  let trees ← Scan.ahead
  if shape.plain && !shape.qualified && Tree.beginsBang trees then
    Scan.mark "!"
    let d ← Scan.anyGroup
    return if d = .brace then .bracedCall else .plain
  else if braces && Tree.beginsGroup .brace trees then
    Scan.inside .brace p.fieldValues
    return .plain
  else return .plain

def closureParameter : Scan Unit := do
  discard p.attributes
  p.pattern
  if ← Scan.markIf ":" then discard (p.type true)

def closure (braces : Bool) : Scan Unit := do
  p.boundLifetimes
  for word in ["const", "static", "async", "move"] do
    discard (Scan.wordIf word)
  Scan.mark "|"
  Scan.iterate (fun _ ↦ do
    if Tree.beginsMark "|" (← Scan.ahead) then return ((), false)
    p.closureParameter
    if Tree.beginsMark "|" (← Scan.ahead) then return ((), false)
    Scan.mark ","
    return ((), true)) ()
  Scan.mark "|"
  if ← Scan.markIf "->" then
    discard (p.type true)
    p.block
  else discard (p.expression braces)

/-- The value after a word that leaves a block, if one is given. -/
def leavingValue (braces : Bool) : Scan Unit := do
  let trees ← Scan.ahead
  if Tree.beginsExpression trees && (braces || !Tree.beginsGroup .brace trees) then
    discard (p.expression braces)

/-- A word that leaves a loop, its label, and the value of the loop. -/
def breaking (braces : Bool) : Scan Unit := do
  Scan.word "break"
  let trees ← Scan.ahead
  if Tree.beginsLifetime trees && Tree.beginsMark ":" (trees.drop 2) then
    discard (p.expression braces)
    Scan.fail .bareLoop
  else
    Scan.lifetimeIf
    p.leavingValue braces

/-- A condition that matches a value against a pattern. -/
def matching (braces : Bool) (comparison : Nat) : Scan Unit := do
  Scan.word "let"
  p.alternatives
  Scan.mark "="
  discard (p.operators braces comparison (← p.operand braces))

def choice : Scan Unit :=
  Scan.iterate (fun _ ↦ do
    Scan.word "if"
    discard (p.expression false)
    p.block
    if ← Scan.wordIf "else" then
      let trees ← Scan.ahead
      if Tree.beginsWord "if" trees then return ((), true)
      else if Tree.beginsGroup .brace trees then p.block
      else Scan.due [.token "if", .group .brace]
    return ((), false)) ()

/-- A case of a choice by patterns. A comma ends it, unless braces do or it is the last. -/
def case : Scan Unit := do
  discard p.attributes
  p.alternatives
  if ← Scan.wordIf "if" then p.anyExpression
  Scan.mark "=>"
  let shape ← p.statement
  if shape = .block || (← Scan.atEnd) then discard (Scan.markIf ",")
  else Scan.mark ","

def cases : Scan Unit := do
  Scan.word "match"
  discard (p.expression false)
  Scan.inside .brace do
    p.innerAttributes
    Scan.untilEnd p.case

/-- A loop, or a block: what a label can stand before. -/
def labelled : Scan Unit := do
  let trees ← Scan.ahead
  if ← Scan.wordIf "while" then
    discard (p.expression false)
    p.block
  else if ← Scan.wordIf "for" then
    p.alternatives
    Scan.word "in"
    discard (p.expression false)
    p.block
  else if ← Scan.wordIf "loop" then p.block
  else if Tree.beginsGroup .brace trees then p.block
  else Scan.due [.loopOrBlock]

/-- Something that ends with its own braces. -/
def blockExpression : Scan Unit := do
  let trees ← Scan.ahead
  if Tree.beginsWord "if" trees then p.choice
  else if Tree.beginsWord "match" trees then p.cases
  else if Tree.beginsAnyWord ["try", "unsafe", "const"] trees then
    Scan.next
    p.block
  else if Tree.beginsLifetime trees then
    Scan.lifetime
    Scan.mark ":"
    p.labelled
  else p.labelled

end Phrases

end Deriving

end CurveCalc
