/-!
# Token trees

The text of a declaration, as words, literals, punctuation marks and delimited groups of these.
Tokens are written with one space between them. A mark that is joined to what follows is written
right before it: so are the marks of source that is kept as it was, and the quote of a lifetime.
-/

namespace CurveCalc

namespace Deriving

/-- The brackets around a group. -/
inductive Delimiter where
  | parenthesis
  | bracket
  | brace
deriving DecidableEq, Repr

namespace Delimiter

def opening : Delimiter → Char
  | .parenthesis => '('
  | .bracket => '['
  | .brace => '\x7b'

def closing : Delimiter → Char
  | .parenthesis => ')'
  | .bracket => ']'
  | .brace => '\x7d'

/-- The group with the given text between its brackets; braces keep a distance from it. -/
def around (d : Delimiter) (text : List Char) : List Char :=
  match d with
  | .brace => if text = [] then [d.opening, ' ', d.closing]
    else d.opening :: ' ' :: text ++ [' ', d.closing]
  | _ => d.opening :: text ++ [d.closing]

end Delimiter

/-- A token, or a group of tokens in brackets. -/
inductive Tree where
  /-- An identifier or a keyword. -/
  | word (text : List Char)
  /-- A string, character or number. -/
  | literal (text : List Char)
  /-- Punctuation; `joint` if what follows belongs to it. -/
  | mark (text : List Char) (joint : Bool)
  | group (delimiter : Delimiter) (trees : List Tree)

namespace Tree

/-! ## Text -/

/-- What stands between a token and the next. -/
def gap : Tree → List Char
  | .mark _ true => []
  | _ => [' ']

mutual

def text : Tree → List Char
  | .word t | .literal t | .mark t _ => t
  | .group d trees => d.around (listText trees)

def listText : List Tree → List Char
  | [] => []
  | t :: rest => if rest.isEmpty then t.text else t.text ++ t.gap ++ listText rest

end

/-! ## Size -/

mutual

/-- The number of tokens in a tree; a group counts as one more than what is in it. -/
def size : Tree → Nat
  | .word _ | .literal _ | .mark _ _ => 1
  | .group _ trees => listSize trees + 1

/-- The number of tokens in a row of trees. -/
def listSize : List Tree → Nat
  | [] => 0
  | t :: rest => t.size + listSize rest

end

end Tree

def tokensText (trees : List Tree) : String := String.ofList (Tree.listText trees)

end Deriving

end CurveCalc
