import CurveCalc.Deriving.Readers

/-!
# The arguments of the attribute

The `error` attribute holds pairs `tag = expression`, separated by commas, with one more comma
allowed at the end. Of the pairs with one tag the last counts.
-/

namespace CurveCalc

namespace Deriving

inductive Tag where
  | message
  | labels
  | help
deriving DecidableEq, Repr

def Tag.ofWord? (word : List Char) : Option Tag :=
  if word = ['m', 'e', 's', 's', 'a', 'g', 'e'] then some .message
  else if word = ['l', 'a', 'b', 'e', 'l', 's'] then some .labels
  else if word = ['h', 'e', 'l', 'p'] then some .help
  else none

/-- The expressions given for the tags. -/
structure Arguments where
  message? : Option (List Tree) := none
  labels? : Option (List Tree) := none
  help? : Option (List Tree) := none

namespace Arguments

/-- The arguments with one of them set, in place of what was given for its tag before. -/
def set (a : Arguments) (expression : List Tree) : Tag → Arguments
  | .message => { a with message? := some expression }
  | .labels => { a with labels? := some expression }
  | .help => { a with help? := some expression }

/-- The arguments that pairs give, the later ones counting. -/
def ofPairs (pairs : List (Tag × List Tree)) : Arguments :=
  pairs.foldl (fun a pair ↦ a.set pair.2 pair.1) {}

/-- A pair: its tag, and its expression as it is written. -/
def pair (r : Readers) : Scan (Tag × List Tree) := do
  let word ← Scan.identifier
  Scan.mark "="
  match Tag.ofWord? word with
  | none => Scan.fail (.unknownTag word)
  | some tag => return (tag, ← r.expression)

/-- Pairs with commas between them, up to one that no comma follows. -/
def pairs (r : Readers) : Scan (List (Tag × List Tree)) :=
  Scan.iterate (fun read ↦ do
    if ← Scan.atEnd then return (read, false)
    let read := read ++ [← pair r]
    return (read, ← Scan.markIf ",")) []

/-- The arguments that a row of trees gives. -/
def read (r : Readers) (trees : List Tree) : Except Fault Arguments :=
  (Scan.whole (pairs r) trees).map ofPairs

end Arguments

end Deriving

end CurveCalc
