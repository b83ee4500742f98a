import CurveCalc.Deriving.Figure
import CurveCalc.Deriving.Quoted
import CurveCalc.Deriving.Token

/-!
# From text to token trees

Each lexeme is recognised from its first character and told by how many characters after that it
takes, so that scanning a text always moves forward. Comments are skipped, save documentation
comments, which are attributes. A punctuation mark is one character; whether another mark follows
with nothing between is kept, since marks that touch can be one token.
-/

namespace CurveCalc

namespace Deriving

/-- A piece of a text: a token that is complete by itself, or one side of a pair of brackets. -/
inductive Lexeme where
  | leaf (tree : Tree)
  | opens (delimiter : Delimiter)
  | closes (delimiter : Delimiter)

namespace Lexeme

/-! ## Characters -/

/-- White space between tokens; marks of direction count as such. -/
def isGap (c : Char) : Bool := Text.isBlank c || c = '\u200e' || c = '\u200f'

def markChars : List Char :=
  ['~', '!', '@', '#', '$', '%', '^', '&', '*', '-', '=', '+', '|', ';', ':', ',', '<', '.', '>',
    '/', '?', '\x27']

/-- The delimiter that a character opens or closes. -/
def bracket? (c : Char) : Option Lexeme :=
  if c = '(' then some (.opens .parenthesis)
  else if c = ')' then some (.closes .parenthesis)
  else if c = '[' then some (.opens .bracket)
  else if c = ']' then some (.closes .bracket)
  else if c = '\x7b' then some (.opens .brace)
  else if c = '\x7d' then some (.closes .brace)
  else none

/-! ## Comments -/

/-- Whether a text has a carriage return that ends no line. -/
def hasLoneReturn : List Char → Bool
  | [] => false
  | c :: rest => c = '\r' && rest.head? ≠ some '\n' || hasLoneReturn rest

/-- The attribute that a documentation comment is; `marks` are in front of its brackets. -/
def documentation? (marks body : List Char) : Option (List Lexeme) :=
  if hasLoneReturn body then none
  else
    some (marks.map (fun c ↦ .leaf (.mark [c] false)) ++
      [.opens .bracket, .leaf (.word ['d', 'o', 'c']), .leaf (.mark ['='] false),
        .leaf (.literal (Quoted.encode body)), .closes .bracket])

/-- What a comment with this text is. Comments that start with `again` document what comes next and
those that start with `!` what they stand in; a row of `again`, which the end of the comment can be
part of, is decoration. -/
def comment? (again : Char) (body ending : List Char) : Option (List Lexeme) :=
  match body with
  | [] => some []
  | '!' :: text => documentation? ['#', '!'] text
  | c :: text =>
    if c = again ∧ (text ++ ending).head? ≠ some again then documentation? ['#'] text else some []

def restOfLine : List Char → List Char
  | [] => []
  | c :: rest =>
    if c = '\n' ∨ c = '\r' ∧ rest.head? = some '\n' then [] else c :: restOfLine rest

/-- The length of what is left of a block comment at a depth of nesting. -/
def commentLength? (depth : Nat) : List Char → Option Nat
  | '*' :: '/' :: rest =>
    match depth with
    | 0 => some 2
    | outer + 1 => (commentLength? outer rest).map (· + 2)
  | '/' :: '*' :: rest => (commentLength? (depth + 1) rest).map (· + 2)
  | _ :: rest => (commentLength? depth rest).map (· + 1)
  | [] => none

/-- A comment to the end of the line, after its two slashes. -/
def lineComment? (rest : List Char) : Option (List Lexeme × Nat) :=
  let body := restOfLine rest
  (comment? '/' body []).map fun lexemes ↦ (lexemes, body.length)

def blockComment? (rest : List Char) : Option (List Lexeme × Nat) :=
  match commentLength? 0 rest with
  | none => none
  | some n => (comment? '*' (rest.take (n - 2)) ['*', '/']).map fun lexemes ↦ (lexemes, n)

/-! ## Words and marks -/

/-- The words that mean the same whether or not they are marked as identifiers, so that they cannot
be marked. -/
def unmarkable : List String := ["_", "super", "self", "Self", "crate"]

/-- The length of the word at the front of a text, with the mark in front of an identifier that
would be a keyword without it. -/
def wordLength? : List Char → Option Nat
  | 'r' :: '#' :: rest =>
    let n := Text.wordLength rest
    if n = 0 ∨ unmarkable.contains (String.ofList (rest.take n)) then none else some (n + 2)
  | text =>
    let n := Text.wordLength text
    if n = 0 then none else some n

/-- Whether a text starts with the name of a lifetime. It has no quote behind it, nor a hash that
is not part of it. -/
def beginsLifetimeName (text : List Char) : Bool :=
  match wordLength? text with
  | none => false
  | some n =>
    match text.drop n with
    | '\x27' :: _ => false
    | '#' :: _ => ['r', '#'].isPrefixOf text
    | _ => true

/-- Whether a mark follows with nothing between; a comment is none. -/
def marksFollow : List Char → Bool
  | '/' :: '/' :: _ | '/' :: '*' :: _ => false
  | c :: _ => markChars.contains c
  | [] => false

/-- A mark. A quote is the start of a lifetime and belongs to its name. -/
def mark? (c : Char) (rest : List Char) : Option Lexeme :=
  if c = '\x27' then
    if beginsLifetimeName rest then some (.leaf (.mark [c] true)) else none
  else if markChars.contains c then some (.leaf (.mark [c] (marksFollow rest)))
  else none

/-! ## One lexeme -/

/-- What comes after a parenthesis where the two stand for a literal that was lost. -/
def lostLiteral : List Char := "/*ERROR*/)".toList

/-- The token that starts with a character, and how many characters after it belong to it. -/
def token? (c : Char) (rest : List Char) : Option (Lexeme × Nat) :=
  let text := c :: rest
  match (Quoted.length? text).or (Figure.length? text), mark? c rest with
  | some n, _ => some (.leaf (.literal (text.take n)), n - 1)
  | none, some lexeme => some (lexeme, 0)
  | none, none =>
    if Quoted.isOpened text then none
    else (wordLength? text).map fun n ↦ (.leaf (.word (text.take n)), n - 1)

/-- The lexemes that start with a character, and how many characters after it they take. -/
def start? (c : Char) (rest : List Char) : Option (List Lexeme × Nat) :=
  if isGap c then some ([], 0)
  else if c = '(' ∧ lostLiteral.isPrefixOf rest then
    some ([.leaf (.literal (c :: lostLiteral))], lostLiteral.length)
  else
    match c, rest with
    | '/', '/' :: body => (lineComment? body).map fun r ↦ (r.1, r.2 + 1)
    | '/', '*' :: body => (blockComment? body).map fun r ↦ (r.1, r.2 + 1)
    | _, _ =>
      match bracket? c with
      | some lexeme => some ([lexeme], 0)
      | none => (token? c rest).map fun r ↦ ([r.1], r.2)

def all? : List Char → Option (List Lexeme)
  | [] => some []
  | c :: rest =>
    match start? c rest with
    | none => none
    | some (lexemes, n) => (all? (rest.drop n)).map (lexemes ++ ·)
termination_by text => text.length
decreasing_by
  simp only [List.length_drop, List.length_cons]
  omega

/-! ## Trees -/

/-- Groups lexemes by their brackets. `outer` holds the groups that are open, innermost first, each
with the tokens before it, and `current` the tokens of the innermost, all of them last first. -/
def group? (outer : List (Delimiter × List Tree)) (current : List Tree) :
    List Lexeme → Option (List Tree)
  | [] =>
    match outer with
    | [] => some current.reverse
    | _ :: _ => none
  | .leaf t :: rest => group? outer (t :: current) rest
  | .opens d :: rest => group? ((d, current) :: outer) [] rest
  | .closes d :: rest =>
    match outer with
    | [] => none
    | (d', before) :: outer =>
      if d = d' then
        group? outer (.group d current.reverse :: before) rest
      else none

end Lexeme

/-- A text without the byte order mark that may stand in front of it. -/
def withoutByteOrderMark : List Char → List Char
  | '\ufeff' :: rest => rest
  | text => text

def Tree.ofText? (text : List Char) : Option (List Tree) :=
  (Lexeme.all? (withoutByteOrderMark text)).bind (Lexeme.group? [] [])

end Deriving

end CurveCalc
