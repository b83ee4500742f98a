/-!
# What can be wrong with an input

A `Problem` is the reason why a text is refused. Its wording has three parts, a message, a label for
the place in the text, and help; in label and help, pieces that are themselves expressions are set
apart, so that a report can colour them.
-/

namespace CurveCalc

/-- A piece of wording: plain words, or an expression quoted in them. -/
inductive Piece where
  | words (text : String)
  | quoted (text : String)
deriving DecidableEq, Repr

/-- Why an input is refused. -/
inductive Problem where
  /-- There is nothing to read. -/
  | nothing
  /-- A character that no expression has. -/
  | unexpected (c : Char)
  /-- A parenthesis without a partner. -/
  | unpaired (opening : Bool)
  /-- Parentheses with nothing between them. -/
  | emptyParens
  /-- An operator at the end. -/
  | trailingOperator
  /-- An operator at the start that is not the sign of a number. -/
  | leadingOperator
  /-- The depth limit ended the reading. -/
  | tooDeep (limit : Nat)
  /-- No other reason was found. -/
  | unreadable
  /-- The point to evaluate at is not a number. -/
  | badPoint
deriving DecidableEq, Repr

namespace Problem

def message : Problem → String
  | .nothing => "empty expression"
  | .unexpected c => "unexpected character `" ++ String.singleton c ++ "`"
  | .unpaired _ => "unclosed parenthesis"
  | .emptyParens => "missing expression inside parenthesis"
  | .trailingOperator => "missing right-hand side of operator"
  | .leadingOperator => "missing left-hand side of operator"
  | .tooDeep _ => "expression is nested too deeply"
  | .unreadable => "invalid expression"
  | .badPoint => "invalid evaluation point"

/-- What stands at the place of a problem; nothing where the headline says it all. -/
def label : Problem → List Piece
  | .nothing | .tooDeep _ => []
  | .unexpected _ => [.words "this character"]
  | .unpaired _ => [.words "this parenthesis"]
  | .emptyParens => [.words "add an ", .quoted "expression", .words " here"]
  | .trailingOperator =>
    [.words "this operator needs an ", .quoted "expression", .words " after it"]
  | .leadingOperator =>
    [.words "this operator needs an ", .quoted "expression", .words " before it"]
  | .unreadable => [.words "I could not understand this expression"]
  | .badPoint => [.words "expected a number here"]

/-- Advice on a problem, for those that have some. -/
def help? : Problem → Option (List Piece)
  | .nothing =>
    some [.words "try an ", .quoted "expression", .words " such as ", .quoted "x^2 + 1"]
  | .unexpected _ => some [.words "the only variable is ", .quoted "x"]
  | .unpaired true => some [.words "add a closing parenthesis `)` somewhere after this"]
  | .unpaired false => some [.words "add an opening parenthesis `(` somewhere before this"]
  | .leadingOperator =>
    some [.words "a leading `+` or `-` is only allowed as the sign of a number"]
  | .tooDeep limit =>
    some [.words "the parser gives up after ", .quoted (Nat.repr limit), .words " nested levels"]
  | .unreadable =>
    some [.words "operators are ", .quoted "+ - * / ^", .words "; functions are ",
      .quoted "log(..)"]
  | .badPoint => some [.words "write the point as a literal, such as `@ 2` or `@ -0.5`"]
  | .emptyParens | .trailingOperator => none

end Problem

end CurveCalc
