import CurveCalc.Deriving.Scan

/-!
# What a declaration is read with

A method is derived from a declaration with attributes and from expressions in one of these. How
attributes, structures and expressions look is a matter of the language and not of the derivation,
which is given the readers for them and runs them over rows of trees.
-/

namespace CurveCalc

namespace Deriving

/-- What follows the path of an attribute. -/
inductive Attachment where
  | bare
  | arguments (trees : List Tree)
  | value

structure Attribute where
  /-- The words of the path; those of a path that starts with `::` come after an empty word. -/
  path : List (List Char)
  attachment : Attachment

/-- Whether the path of an attribute is the word `error`. -/
def Attribute.isError (a : Attribute) : Bool := a.path = [['e', 'r', 'r', 'o', 'r']]

/-- The fields of a declaration, of which only names matter. -/
inductive Fields where
  | named (names : List (List Char))
  | unnamed
  | unit
deriving DecidableEq, Repr

structure Declaration where
  attributes : List Attribute
  name : List Char
  fields : Fields

/-- The readers that a derivation is given. -/
structure Readers where
  /-- The attributes in front of a structure. -/
  attributes : Scan (List Attribute)
  /-- A structure after its attributes: its name and its fields. -/
  item : Scan (List Char × Fields)
  /-- An expression, as it is written. -/
  expression : Scan (List Tree)

def Readers.declaration (r : Readers) : Scan Declaration := do
  let attributes ← r.attributes
  let (name, fields) ← r.item
  return ⟨attributes, name, fields⟩

end Deriving

end CurveCalc
