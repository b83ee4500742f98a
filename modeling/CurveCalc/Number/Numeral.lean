import CurveCalc.Text.Digit

/-!
# Numerals

A numeral is `NaN`, `Infinity`, a decimal number (`13`, `13.`, `.25`, `2.5E-4`) or a hexadecimal
number with a binary exponent (`0x1.8p1`, `0XAp-2`); the two kinds of number may end in one of the
letters `f F d D`, which means nothing. `Numeral.read?` recognises which of these a text is.
-/

namespace CurveCalc

/-- The form of a numeral. Digits are kept as they are written; the exponent is the written one. -/
inductive Numeral where
  | nan
  | infinity
  | decimal (whole fraction : List Char) (exponent : Int)
  | hexadecimal (whole fraction : List Char) (exponent : Int)
deriving DecidableEq, Repr

namespace Numeral

/-- Digits, and nothing else, as a number; there has to be one. -/
def natural? (text : List Char) : Option Nat :=
  if text ≠ [] ∧ text.all Char.isDigit = true then some (Nat.ofDigitChars 10 text 0) else none

/-- Digits with an optional sign in front, as an integer. -/
def integer? : List Char → Option Int
  | '-' :: digits => (natural? digits).map fun n ↦ -(n : Int)
  | '+' :: digits => (natural? digits).map fun n ↦ (n : Int)
  | digits => (natural? digits).map fun n ↦ (n : Int)

/-- The digits in front of a text, those after a point that follows them, and the rest. -/
def mantissa (digit : Char → Bool) (text : List Char) : List Char × List Char × List Char :=
  let whole := text.takeWhile digit
  match text.dropWhile digit with
  | '.' :: rest => (whole, rest.takeWhile digit, rest.dropWhile digit)
  | rest => (whole, [], rest)

/-- The form of a decimal numeral without a suffix. -/
def decimal? (text : List Char) : Option Numeral :=
  let (whole, fraction, rest) := mantissa Char.isDigit text
  if whole = [] ∧ fraction = [] then none
  else
    match rest with
    | [] => some (.decimal whole fraction 0)
    | c :: exponent =>
      if c = 'e' ∨ c = 'E' then (integer? exponent).map (.decimal whole fraction) else none

/-- The form of the part of a hexadecimal numeral after `0x`, without a suffix. -/
def hexadecimal? (text : List Char) : Option Numeral :=
  let (whole, fraction, rest) := mantissa Text.isHexDigit text
  if whole = [] ∧ fraction = [] then none
  else
    match rest with
    | [] => none
    | c :: exponent =>
      if c = 'p' ∨ c = 'P' then (integer? exponent).map (.hexadecimal whole fraction) else none

/-- The form of a numeral that is a number, without a suffix. -/
def number? : List Char → Option Numeral
  | '0' :: 'x' :: text => hexadecimal? text
  | '0' :: 'X' :: text => hexadecimal? text
  | text => decimal? text

/-- A letter that may end a number. -/
def isSuffix (c : Char) : Bool := c = 'f' || c = 'F' || c = 'd' || c = 'D'

/-- A text without one suffix letter at its end. -/
def dropSuffix (text : List Char) : List Char :=
  match text.getLast? with
  | some c => if isSuffix c then text.dropLast else text
  | none => text

/-- The form of a numeral that makes up the whole text. -/
def read? (text : List Char) : Option Numeral :=
  if text = ['N', 'a', 'N'] then some .nan
  else if text = ['I', 'n', 'f', 'i', 'n', 'i', 't', 'y'] then some .infinity
  else number? (dropSuffix text)

end Numeral

end CurveCalc
