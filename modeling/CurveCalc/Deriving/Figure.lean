import CurveCalc.Deriving.Fault
import CurveCalc.Text.Digit
import CurveCalc.Text.Word

/-!
# Numbers of a declaration

A number is a float, with a point or an exponent, or else an integer of base two, eight, ten or
sixteen; a word right behind it, which names a type, belongs to it. `Figure.length?` recognises the
number at the front of a text, and `Figure.index` reads one as the place of a member.
-/

namespace CurveCalc

namespace Deriving

namespace Figure

/-! ## Floats -/

/-- A character that can stand among decimal digits. -/
def isDigitPart (c : Char) : Bool := c.isDigit || c = '_'

/-- The length of an exponent, its letter and its sign included; zero where there is none. -/
def exponentLength : List Char → Nat
  | [] => 0
  | c :: rest =>
    let pads := (rest.takeWhile (· = '_')).length
    let sign := match rest.drop pads with
      | '+' :: _ | '-' :: _ => 1
      | _ => 0
    let digits := (rest.drop (pads + sign)).takeWhile isDigitPart
    if (c = 'e' ∨ c = 'E') ∧ digits.any Char.isDigit then 1 + pads + sign + digits.length else 0

/-- The length of the float at the front of a text. A point belongs to it unless another point or a
word comes next. -/
def floatLength? (text : List Char) : Option Nat :=
  if text.head?.any Char.isDigit then
    let whole := (text.takeWhile isDigitPart).length
    match text.drop whole with
    | '.' :: after =>
      if after.head?.any fun c ↦ c = '.' || Text.isWordStart c then none
      else
        let mantissa := whole + 1 + (after.takeWhile isDigitPart).length
        some (mantissa + exponentLength (text.drop mantissa))
    | rest => if exponentLength rest = 0 then none else some (whole + exponentLength rest)
  else none

/-! ## Integers -/

/-- The base of an integer, and the length of the mark in front that says so. -/
def base : List Char → Nat × Nat
  | '0' :: 'x' :: _ => (16, 2)
  | '0' :: 'o' :: _ => (8, 2)
  | '0' :: 'b' :: _ => (2, 2)
  | _ => (10, 0)

/-- The digits after the mark of the base, with the underscores among them. A decimal digit is one
of them even where the base has no such digit. -/
def integerDigits (text : List Char) : List Char :=
  let (base, mark) := base text
  (text.drop mark).takeWhile fun c ↦
    isDigitPart c || Text.isHexDigit c && Text.hexDigitValue c < base

/-- The length of the integer at the front of a text. Its base has to have all its digits, and a
decimal integer starts with one. -/
def integerLength? (text : List Char) : Option Nat :=
  let (base, mark) := base text
  let part := integerDigits text
  let digits := part.filter (· ≠ '_')
  if digits ≠ [] ∧ digits.all (fun c ↦ Text.hexDigitValue c < base) ∧
      (base = 10 → part.head? ≠ some '_') then
    some (mark + part.length)
  else none

/-- The value of an integer, whatever is behind it. -/
def integerValue (text : List Char) : Nat :=
  ((integerDigits text).filter (· ≠ '_')).foldl
    (fun n c ↦ (base text).1 * n + Text.hexDigitValue c) 0

/-! ## Numbers -/

/-- The length of a number and the word right behind it, given that of the number. What comes then
cannot be one more character of a word. -/
def worded? (text : List Char) (n : Nat) : Option Nat :=
  let length := n + Text.wordLength (text.drop n)
  if (text.drop length).head?.any Text.isWordPart then none else some length

/-- The length of the number at the front of a text. -/
def length? (text : List Char) : Option Nat :=
  ((floatLength? text).bind (worded? text)).or ((integerLength? text).bind (worded? text))

def isFloat (text : List Char) : Bool := ((floatLength? text).bind (worded? text)).isSome

def isInteger (text : List Char) : Bool := (length? text).isSome && !isFloat text

/-! ## Places of members -/

/-- The place of a member, as a decimal number without a sign that fits in 32 bits. -/
def index (text : List Char) : Except Fault (List Char) :=
  if length? text ≠ some text.length then .error .notTokens
  else if isFloat text then .error (.expected [.integerLiteral])
  else if integerLength? text ≠ some text.length then .error (.expected [.unsuffixedInteger])
  else if integerValue text < 4294967296 then .ok (Nat.toDigits 10 (integerValue text))
  else .error .indexTooLarge

/-- What is wrong with a number that has a minus in front as the place of a member. -/
def signedFault (text : List Char) : Fault :=
  match index text with
  | .ok _ | .error .indexTooLarge => .signedIndex
  | .error f => f

end Figure

end Deriving

end CurveCalc
