import CurveCalc.Number.Decimal
import CurveCalc.Number.Hexadecimal
import CurveCalc.Number.Numeral

/-!
# Number literals

A literal is an optional sign and a numeral, with characters up to the space allowed around it.
`Literal.read?` recognises the form of a text, and `Literal.value` gives the double that a form
stands for. Decimal numerals are rounded once, exactly.
-/

namespace CurveCalc

namespace Numeral

def decimalMagnitude (whole fraction : List Char) (exponent : Int) : Nat :=
  Decimal.magnitude ⟨Nat.ofDigitChars 10 (whole ++ fraction) 0, exponent - fraction.length⟩

/-- The magnitude of the double that a numeral stands for; `NaN` has none. -/
def magnitude? : Numeral → Option Nat
  | .nan => none
  | .infinity => some Binary64.infinityMagnitude
  | .decimal whole fraction exponent => some (decimalMagnitude whole fraction exponent)
  | .hexadecimal whole fraction exponent => some (Hexadecimal.magnitude whole fraction exponent)

end Numeral

/-- The form of a literal. -/
structure Literal where
  /-- Whether a minus sign stands in front. -/
  negative : Bool
  numeral : Numeral
deriving DecidableEq, Repr

namespace Literal

/-- A character that may stand around a literal: the space and the control characters below it. -/
def isPadding (c : Char) : Bool := decide (c ≤ ' ')

/-- A text without the padding around it. -/
def dropPadding (text : List Char) : List Char :=
  ((text.dropWhile isPadding).reverse.dropWhile isPadding).reverse

/-- The form of a literal without padding. -/
def readBare? : List Char → Option Literal
  | '-' :: text => (Numeral.read? text).map (⟨true, ·⟩)
  | '+' :: text => (Numeral.read? text).map (⟨false, ·⟩)
  | text => (Numeral.read? text).map (⟨false, ·⟩)

/-- The form of the literal that makes up the whole text, if it is one. -/
def read? (text : List Char) : Option Literal := readBare? (dropPadding text)

/-- The double that a literal stands for. -/
def value (l : Literal) : Float :=
  match l.numeral.magnitude? with
  | some magnitude => Binary64.signed l.negative magnitude
  | none => Binary64.nan

end Literal

def isLiteral (text : List Char) : Bool := (Literal.read? text).isSome

/-- The double of the literal that makes up the whole text, if it is one. -/
def readLiteral? (text : List Char) : Option Float := (Literal.read? text).map Literal.value

end CurveCalc
