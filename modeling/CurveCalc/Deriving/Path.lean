import CurveCalc.Deriving.Phrase
import CurveCalc.Deriving.Readers

/-!
# Plain paths and attributes

Names with `::` between them and nothing else, as macros and attributes are called by, and the
attributes themselves.
-/

namespace CurveCalc

namespace Deriving

/-! ## Plain paths -/

def pathKeywords : List String := ["super", "self", "Self", "crate"]

namespace Tree

/-- Whether a row of trees starts with a name of a path. -/
def beginsName (trees : List Tree) : Bool :=
  beginsIdentifier trees || beginsAnyWord pathKeywords trees

def beginsPath (trees : List Tree) : Bool :=
  beginsName trees || beginsMark "::" trees || beginsMark "<" trees

/-- The trees after the names of a path that a row of trees starts with, and the `::` between
them. -/
def afterNames : List Tree → List Tree
  | .word w :: .mark [':'] true :: .mark [':'] joint :: rest =>
    if beginsName [.word w] then afterNames rest
    else .word w :: .mark [':'] true :: .mark [':'] joint :: rest
  | trees => if beginsName trees then trees.drop 1 else trees

end Tree

namespace Scan

/-- A path without type arguments: the words of it, after an empty one if it starts with `::`. -/
def plainPath : Scan (List (List Char)) := do
  let absolute ← markIf "::"
  if !Tree.beginsName (← ahead) then discard identifier
  iterate (fun names ↦ do
    if !Tree.beginsName (← ahead) then due [.segment]
    let names := names ++ [← someWord]
    return (names, ← markIf "::")) (if absolute then [[]] else [])

end Scan

/-! ## Attributes -/

namespace Phrases

variable (p : Phrases)

/-- What follows the path of an attribute: a group, a value, or nothing. -/
def attachment : Scan Attachment := do
  match ← Scan.ahead with
  | .group _ trees :: _ =>
    Scan.next
    return .arguments trees
  | trees =>
    if Tree.beginsMark "=" trees then
      Scan.mark "="
      p.anyExpression
      return .value
    else return .bare

def attributeContent : Scan Attribute := do
  let path ← if ← Scan.wordIf "unsafe" then pure ["unsafe".toList] else Scan.plainPath
  return ⟨path, ← p.attachment⟩

def attributes : Scan (List Attribute) :=
  Scan.iterate (fun read ↦ do
    if ← Scan.markIf "#" then
      let a ← Scan.inside .bracket p.attributeContent
      return (read ++ [a], true)
    else return (read, false)) []

/-- The attributes inside the braces that they are about. -/
def innerAttributes : Scan Unit :=
  Scan.iterate (fun _ ↦ do
    let trees ← Scan.ahead
    if Tree.beginsMark "#" trees && Tree.beginsMark "!" (trees.drop 1) then
      Scan.mark "#"
      Scan.mark "!"
      discard (Scan.inside .bracket p.attributeContent)
      return ((), true)
    else return ((), false)) ()

end Phrases

end Deriving

end CurveCalc
