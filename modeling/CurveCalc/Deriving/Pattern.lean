import CurveCalc.Deriving.Figure
import CurveCalc.Deriving.Types

/-!
# Patterns

What stands before the `=` of a `let`, before the `=>` of a choice, and between the bars of a
closure. A closure's parameter is a pattern without alternatives, since a bar ends the parameters.
-/

namespace CurveCalc

namespace Deriving

namespace Tree

/-- Whether a row of trees starts with a bar between alternatives. -/
def beginsAlternative (trees : List Tree) : Bool :=
  beginsMark "|" trees && !beginsAnyMark ["||", "|="] trees

/-- Whether a range without an upper bound ends where this row of trees starts. -/
def endsPatternRange (trees : List Tree) : Bool :=
  trees.isEmpty || beginsAnyMark ["|", "=", ",", ";"] trees
    || beginsMark ":" trees && !beginsMark "::" trees || beginsWord "if" trees

/-- Whether a row of trees starts with a name that more of a pattern follows: a longer path, a macro
call, fields, or the end of a range. -/
def beginsLongName (trees : List Tree) : Bool :=
  let rest := trees.drop 1
  beginsIdentifier trees
      && (beginsAnyMark ["::", "!", ".."] rest || beginsGroup .brace rest
        || beginsGroup .parenthesis rest)
    || beginsWord "self" trees && beginsMark "::" rest
    || beginsAnyMark ["::", "<"] trees || beginsAnyWord ["Self", "super", "crate"] trees

end Tree

/-- The things of which one is due where a pattern is. -/
def patternChoices : List Expected :=
  [.identifier, .token "::", .token "<", .token "_", .literal, .token "const", .token "ref",
    .token "mut", .token "&", .group .parenthesis, .group .bracket, .token ".."]

/-- The things of which one is due where the bound of a range is. -/
def rangeBoundChoices : List Expected :=
  [.literal, .identifier, .token "::", .token "<", .token "self", .token "Self", .token "super",
    .token "crate", .token "const"]

namespace Scan

def rangeMark : Scan Unit := do
  if ← markIf "..=" then return ()
  else if Tree.beginsMark ".." (← ahead) && !Tree.beginsMark "..." (← ahead) then mark ".."
  else fail (.expected [.token "..", .token "..="])

end Scan

namespace Phrases

variable (p : Phrases)

/-- Patterns with bars between them; one more bar may come first. -/
def alternatives : Scan Unit := do
  discard (Scan.markIf "|")
  p.pattern
  Scan.iterate (fun _ ↦ do
    if Tree.beginsAlternative (← Scan.ahead) then
      Scan.mark "|"
      p.pattern
      return ((), true)
    else return ((), false)) ()

/-- The bound of a range in a pattern, if it has one there; the result says whether it has. -/
def rangeBound : Scan Bool := do
  let trees ← Scan.ahead
  if Tree.endsPatternRange trees then return false
  if Tree.beginsLiteral trees then Scan.literal
  else if Tree.beginsPath trees then discard (p.qualifiedPath false)
  else if ← Scan.wordIf "const" then p.block
  else Scan.due rangeBoundChoices
  return true

/-- The end of a range in a pattern, if one comes next. -/
def rangeEnd : Scan Unit := do
  if Tree.beginsMark ".." (← Scan.ahead) then
    Scan.rangeMark
    discard p.rangeBound

/-- The name or the place of a field; the result says whether it is a name. A place is written as a
decimal number, whatever its base is in the text. -/
def member : Scan Bool := do
  match ← Scan.ahead with
  | .word w :: _ =>
    if isKeyword w then Scan.due [.identifier, .integer]
    else
      Scan.next
      return true
  | .literal t :: _ =>
    if Figure.isInteger t then
      let place ← Scan.ofExcept (Figure.index t)
      Scan.take 1 [.literal place]
      return false
    else Scan.due [.identifier, .integer]
  | .mark ['-'] _ :: .literal t :: _ =>
    if Figure.isInteger t then Scan.fail (Figure.signedFault t)
    else Scan.due [.identifier, .integer]
  | _ => Scan.due [.identifier, .integer]

/-- A field of a pattern in braces: a name alone, or a name and a pattern. -/
def fieldPattern : Scan Unit := do
  discard p.attributes
  if ← Scan.markIf ".." then return ()
  let bound := Tree.beginsAnyWord ["box", "ref", "mut"] (← Scan.ahead)
  discard (Scan.wordIf "box")
  discard (Scan.wordIf "ref")
  discard (Scan.wordIf "mut")
  if bound then discard Scan.identifier
  else
    let named ← member
    if !named || Tree.beginsMark ":" (← Scan.ahead) then
      Scan.mark ":"
      p.alternatives

def pathPattern : Scan Unit := do
  let shape ← p.qualifiedPath false
  let trees ← Scan.ahead
  if shape.plain && !shape.qualified && Tree.beginsBang trees then
    Scan.mark "!"
    discard Scan.anyGroup
  else if Tree.beginsGroup .brace trees then
    Scan.inside .brace (Scan.separated p.fieldPattern)
  else if Tree.beginsGroup .parenthesis trees then
    Scan.inside .parenthesis (Scan.separated p.alternatives)
  else p.rangeEnd

/-- A name that takes a value, perhaps with a pattern that the value has to match. -/
def binding : Scan Unit := do
  discard (Scan.wordIf "ref")
  discard (Scan.wordIf "mut")
  if !(← Scan.wordIf "self") then discard Scan.identifier
  if ← Scan.markIf "@" then p.pattern

/-- The reader of a pattern for one more level of nesting. -/
def nextPattern : Scan Unit := do
  let trees ← Scan.ahead
  if Tree.beginsLongName trees then p.pathPattern
  else if ← Scan.wordIf "_" then return ()
  else if ← Scan.wordIf "box" then p.pattern
  else if Tree.beginsMark "-" trees || Tree.beginsLiteral trees
      || Tree.beginsWord "const" trees then
    discard p.rangeBound
    p.rangeEnd
  else if Tree.beginsAnyWord ["ref", "mut", "self"] trees || Tree.beginsIdentifier trees then
    p.binding
  else if ← Scan.markIf "&" then
    discard (Scan.wordIf "mut")
    p.pattern
  else if Tree.beginsGroup .parenthesis trees then
    Scan.inside .parenthesis (Scan.separated p.alternatives)
  else if Tree.beginsGroup .bracket trees then
    Scan.inside .bracket (Scan.separated p.alternatives)
  else if Tree.beginsMark ".." trees && !Tree.beginsMark "..." trees then
    Scan.rangeMark
    let bounded ← p.rangeBound
    if !bounded && Tree.beginsMark "..=" trees then Scan.due [.upperBound]
  else Scan.due patternChoices

end Phrases

end Deriving

end CurveCalc
