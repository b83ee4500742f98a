import CurveCalc.Deriving.Arguments

/-!
# Targets

A declaration with an `error` attribute is the target of a derivation, with the message, the labels
and the help given there. The first `error` attribute counts; message and labels have to be in it.
-/

namespace CurveCalc

namespace Deriving

/-- What a method is derived from. -/
structure Target where
  name : List Char
  fields : Fields
  message : List Tree
  labels : List Tree
  help? : Option (List Tree)

namespace Target

variable (r : Readers)

def argumentsOf (a : Attribute) : Except Fault Arguments :=
  match a.attachment with
  | .arguments trees => Arguments.read r trees
  | .bare => .error .noArguments
  | .value => .error .valueForArguments

/-- The arguments of the first `error` attribute; none are given where there is no such
attribute. -/
def firstArguments : List Attribute → Except Fault Arguments
  | [] => .ok {}
  | a :: rest => if a.isError then argumentsOf r a else firstArguments rest

def ofDeclaration (d : Declaration) : Except Fault Target :=
  match firstArguments r d.attributes with
  | .error f => .error f
  | .ok arguments =>
    match arguments.message?, arguments.labels? with
    | some message, some labels => .ok ⟨d.name, d.fields, message, labels, arguments.help?⟩
    | _, _ => .error .missingTags

/-- The target in a row of trees. Nothing may come after the declaration, but what is wrong within
it is reported first. -/
def ofTrees (trees : List Tree) : Except Fault Target :=
  Scan.whole (do Scan.ofExcept (ofDeclaration r (← r.declaration))) trees

end Target

end Deriving

end CurveCalc
