import CurveCalc.Deriving.Lexer
import CurveCalc.Deriving.Statement
import CurveCalc.Deriving.Target

/-!
# The derived method

The method that is derived for a target builds a report from its message, labels and help, with the
fields of the structure in scope. There is no way to bring fields without names into scope, and the
method of such a structure has an error for the compiler in that place. It is given as tokens, on
one line.
-/

namespace CurveCalc

namespace Deriving

namespace Target

/-! ## The method -/

/-- The error that the compiler meets in the method of a structure whose fields have no names. -/
def tupleError : String :=
  "compile_error ! (\"`ErrorKind` cannot be derived for tuple structs\") ;"

/-- Brings the named fields into scope. -/
def fieldBinding (t : Target) : Option String :=
  match t.fields with
  | .named names =>
    let inner := " , ".intercalate (names.map String.ofList)
    some ("let " ++ String.ofList t.name ++ " \x7b " ++
      (if names.isEmpty then "" else inner ++ " ") ++ "\x7d = self ;")
  | .unnamed => some tupleError
  | .unit => none

def helpStatement (t : Target) : Option String :=
  t.help?.map fun help ↦ "builder . set_help (" ++ tokensText help ++ ") ;"

def signature : String :=
  "fn build_report < 'a > (& self , src_id : & 'a str , " ++
    "spans : & [std :: ops :: Range < usize >] ,) " ++
    "-> ariadne :: Report < (& 'a str , std :: ops :: Range < usize >) >"

/-- Makes the label of a span; an empty one is left without a message. -/
def labelClosure : String :=
  "| (label_str , span) | \x7b " ++
    "let mut label = ariadne :: Label :: new ((src_id , span . clone ())) " ++
    ". with_color (graphx_error :: EXPR) ; " ++
    "if ! label_str . is_empty () \x7b label = label . with_message (label_str) ; \x7d label \x7d"

/-- Starts the report with its message and labels. -/
def builderStatement (t : Target) : String :=
  "let mut builder = " ++
    "ariadne :: Report :: build (ariadne :: ReportKind :: Error , src_id , start) " ++
    ". with_message (" ++ tokensText t.message ++ ") . with_labels (" ++ tokensText t.labels ++
    " . into_iter () . zip (spans . iter ()) . map (" ++ labelClosure ++
    ") . collect :: < Vec < _ >> ()) ;"

def statements (t : Target) : List String :=
  ["# [allow (unused_variables)]"] ++ t.fieldBinding.toList ++
    ["let start = spans . first () . map_or (0 , | span | span . start) ;", t.builderStatement] ++
    t.helpStatement.toList ++ ["builder . finish ()"]

/-- The tokens of the method. -/
def method (t : Target) : String :=
  signature ++ " \x7b " ++ " ".intercalate t.statements ++ " \x7d"

/-- The method derived for the declaration in a row of trees. -/
def derive (r : Readers) (trees : List Tree) : Except Fault String := (ofTrees r trees).map method

/-! ## From a text -/

/-- The target in a text, by the readers for the language. -/
def ofText (text : List Char) : Except Fault Target :=
  match Tree.ofText? text with
  | none => .error .notTokens
  | some trees => ofTrees (Phrases.of trees).readers trees

end Target

end Deriving

end CurveCalc
