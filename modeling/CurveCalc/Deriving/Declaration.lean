import CurveCalc.Deriving.Types

/-!
# Declarations

A declaration is outer attributes, an optional visibility, `struct`, a name, optional generics, and
a body: a semicolon, named fields in braces, or types in parentheses. Of generics and types only the
extent matters.
-/

namespace CurveCalc

namespace Deriving

/-- Whether the parentheses after `pub` say where the thing is visible and hold nothing else, so
that they are not its type. -/
def isScope : List Tree → Bool
  | [.word w] => ["crate", "self", "super"].contains (String.ofList w)
  | _ => false

namespace Phrases

variable (p : Phrases)

/-! ## Fields -/

/-- The visibility of something, if one is given. -/
def visibility : Scan Unit := do
  if ← Scan.wordIf "pub" then
    match ← Scan.ahead with
    | .group .parenthesis content :: _ =>
      if isScope content then Scan.next
      else if Tree.beginsWord "in" content then
        Scan.inside .parenthesis do
          Scan.word "in"
          discard Scan.plainPath
    | _ => return ()

def namedField : Scan (List Char) := do
  discard p.attributes
  visibility
  let name ← if Tree.beginsWord "_" (← Scan.ahead) then Scan.someWord else Scan.identifier
  Scan.mark ":"
  discard (p.type true)
  return name

def unnamedField : Scan Unit := do
  discard p.attributes
  visibility
  discard (p.type true)

def namedFields : Scan Fields :=
  .named <$> Scan.inside .brace
    (Scan.separatedFrom (fun names ↦ return names ++ [← p.namedField]) [])

/-! ## Generics -/

/-- A parameter of a declaration: a lifetime with its bounds, a type with its bounds and what it is
if not given, or a constant. -/
def parameter : Scan Unit := do
  discard p.attributes
  let trees ← Scan.ahead
  if Tree.beginsLifetime trees then
    Scan.lifetime
    if ← Scan.markIf ":" then Scan.sumUntil (Tree.beginsAnyMark [",", ">"]) Scan.lifetime
  else if Tree.beginsIdentifier trees || Tree.beginsWord "_" trees then
    Scan.next
    if ← Scan.markIf ":" then Scan.sumUntil (Tree.beginsAnyMark [",", ">", "="]) p.bound
    if ← Scan.markIf "=" then discard (p.type true)
  else if ← Scan.wordIf "const" then
    discard Scan.identifier
    Scan.mark ":"
    discard (p.type true)
    if ← Scan.markIf "=" then p.constant
  else Scan.due [.lifetime, .identifier, .token "const"]

/-- The parameters of a declaration, if it has some. -/
def generics : Scan Unit := do
  if ← Scan.markIf "<" then Scan.untilAngle p.parameter

/-- Whether the bounds of a condition end where this row of trees starts. -/
def endsCondition (trees : List Tree) : Bool :=
  trees.isEmpty || Tree.beginsGroup .brace trees || Tree.beginsAnyMark [",", ";", "="] trees
    || Tree.beginsMark ":" trees && !Tree.beginsMark "::" trees

/-- A condition on a lifetime or on a type. -/
def condition : Scan Unit := do
  let trees ← Scan.ahead
  if Tree.beginsLifetime trees && Tree.beginsMark ":" (trees.drop 2) then
    Scan.lifetime
    Scan.mark ":"
    Scan.sumUntil endsCondition Scan.lifetime
  else
    p.boundLifetimes
    discard (p.type true)
    Scan.mark ":"
    Scan.sumUntil endsCondition p.bound

def conditions : Scan Unit := do
  Scan.word "where"
  Scan.iterate (fun _ ↦ do
    if endsCondition (← Scan.ahead) then return ((), false)
    p.condition
    return ((), ← Scan.markIf ",")) ()

/-! ## The whole declaration -/

/-- The body of a declaration, with the conditions before it or after it. -/
def body : Scan Fields := do
  let trees ← Scan.ahead
  let conditional := Tree.beginsWord "where" trees
  if conditional then p.conditions
  let trees ← Scan.ahead
  if !conditional && Tree.beginsGroup .parenthesis trees then
    Scan.inside .parenthesis (Scan.separated p.unnamedField)
    let conditional := Tree.beginsWord "where" (← Scan.ahead)
    if conditional then p.conditions
    if ← Scan.markIf ";" then return .unnamed
    else Scan.due (if conditional then [.token ";"] else [.token "where", .token ";"])
  else if Tree.beginsGroup .brace trees then p.namedFields
  else if ← Scan.markIf ";" then return .unit
  else
    let choices := [.group .brace, .token ";"]
    Scan.due (if conditional then choices
      else [.token "where", .group .parenthesis] ++ choices)

/-- The name of a declaration, its parameters and its fields. -/
def named : Scan (List Char × Fields) := do
  Scan.word "struct"
  let name ← Scan.identifier
  p.generics
  return (name, ← p.body)

def structItem : Scan (List Char × Fields) := do
  visibility
  p.named

end Phrases

end Deriving

end CurveCalc
