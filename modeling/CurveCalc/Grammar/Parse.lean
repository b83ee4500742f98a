import CurveCalc.Grammar.Diagnosis
import CurveCalc.Grammar.Reader

/-!
# From text to expression

`parse` drops the spaces of a text, reads what is left as a whole, and where that fails says why.
Only the space itself is dropped; other white space can still pad a literal.
-/

namespace CurveCalc

/-- A text that could not be read. -/
structure ParseError where
  /-- The text without its spaces; the diagnosis points into it. -/
  text : List Char
  diagnosis : Diagnosis
deriving DecidableEq, Repr

def ParseError.message (e : ParseError) : String :=
  "cannot parse expression: " ++ String.ofList e.text

namespace Grammar

def dropSpaces (text : List Char) : List Char := text.filter (· ≠ ' ')

/-- The result of a reading of a text without spaces. The depth limit counts as a reason only if it
cut the reading off. -/
def Reading.result (o : ReadOptions) (text : List Char) (r : Reading) : Except ParseError Expr :=
  match r.tree? with
  | some e => .ok e
  | none =>
    .error ⟨text, Diagnosis.ofText text (if r.limited then o.maxDepth else none)⟩

end Grammar

/-- The expression that a text stands for. -/
def parse (o : ReadOptions) (input : List Char) : Except ParseError Expr :=
  let text := Grammar.dropSpaces input
  (Grammar.readWhole o text).result o text

end CurveCalc
