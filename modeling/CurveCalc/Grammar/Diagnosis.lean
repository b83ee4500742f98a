import CurveCalc.Grammar.Problem
import CurveCalc.Number.Literal
import CurveCalc.Operator
import CurveCalc.Text.Offset

/-!
# Why a text is not an expression

`Diagnosis.ofText` looks at a text that no level of the grammar could read, and picks the most
specific reason and its place. It never decides what is accepted. The reasons are tried in a fixed
order: nothing at all, a character foreign to expressions, parentheses that do not pair up, an empty
pair, an operator at the end, an operator at the start, the depth limit, and last that nothing
better is known.
-/

namespace CurveCalc

/-- A problem and its place, in bytes. -/
structure Diagnosis where
  problem : Problem
  span : Text.Span
deriving DecidableEq, Repr

namespace Diagnosis

open Text (byteLength)

/-! ## The tests -/

/-- The characters other than digits that expressions are written with. -/
def alphabet : List Char :=
  ['+', '-', '*', '/', '^', '(', ')', '.', 'x', 'X', 'p', 'P', 'l', 'o', 'g', 'N', 'a', 'I', 'i',
    'n', 'f', 't', 'y', 'd', 'D']

/-- Whether some expression has this character, as an operator, a parenthesis, the variable, or in a
literal or `log`. -/
def isKnown (c : Char) : Bool :=
  Literal.isPadding c || Text.isHexDigit c || alphabet.contains c

def isOperator (c : Char) : Bool := (BinaryOp.ofChar? c).isSome

/-- The first character that no expression has, and its offset. -/
def firstUnknown? (offset : Nat) : List Char → Option (Nat × Char)
  | [] => none
  | c :: cs => if isKnown c then firstUnknown? (offset + c.utf8Size) cs else some (offset, c)

/-- Pairs up parentheses. The result is the offsets of those still open, last one first, or as an
error the offset of a closing one that has no partner. -/
def pairUp (offset : Nat) (opened : List Nat) : List Char → Except Nat (List Nat)
  | [] => .ok opened
  | c :: cs =>
    if c = '(' then pairUp (offset + c.utf8Size) (offset :: opened) cs
    else if c = ')' then
      match opened with
      | [] => .error offset
      | _ :: rest => pairUp (offset + c.utf8Size) rest cs
    else pairUp (offset + c.utf8Size) opened cs

/-- The offset of the first pair of parentheses with nothing between them. -/
def firstEmptyPair? (offset : Nat) : List Char → Option Nat
  | [] => none
  | '(' :: ')' :: _ => some offset
  | c :: cs => firstEmptyPair? (offset + c.utf8Size) cs

def endsInOperator (text : List Char) : Bool :=
  match text.getLast? with
  | some c => isOperator c
  | none => false

/-- Whether a character can follow the sign of a number. -/
def followsSign (c : Char) : Bool := c.isDigit || c = '.' || c = 'N' || c = 'I'

/-- Whether a text starts with an operator that is not the sign of a number. -/
def startsWithOperator : List Char → Bool
  | [] => false
  | c :: rest =>
    let isSign := (c = '+' || c = '-') &&
      match rest with
      | [] => false
      | d :: _ => followsSign d
    isOperator c && !isSign

/-! ## The order of the tests -/

/-- The diagnosis of a text whose characters are all known and whose parentheses pair up; `limit?`
is the depth limit, if it cut the reading off. -/
def ofPaired (text : List Char) (limit? : Option Nat) : Diagnosis :=
  let length := byteLength text
  match firstEmptyPair? 0 text with
  | some i => ⟨.emptyParens, i, i + 2⟩
  | none =>
    if endsInOperator text then ⟨.trailingOperator, length - 1, length⟩
    else if startsWithOperator text then ⟨.leadingOperator, 0, 1⟩
    else
      match limit? with
      | some limit => ⟨.tooDeep limit, 0, length⟩
      | none => ⟨.unreadable, 0, length⟩

/-- The diagnosis of a text without spaces that could not be read; `limit?` is the depth limit, if
it cut the reading off. -/
def ofText (text : List Char) (limit? : Option Nat) : Diagnosis :=
  if text = [] then ⟨.nothing, 0, 0⟩
  else
    match firstUnknown? 0 text with
    | some (i, c) => ⟨.unexpected c, i, i + 1⟩
    | none =>
      match pairUp 0 [] text with
      | .error i => ⟨.unpaired false, i, i + 1⟩
      | .ok (i :: _) => ⟨.unpaired true, i, i + 1⟩
      | .ok [] => ofPaired text limit?

end Diagnosis

end CurveCalc
