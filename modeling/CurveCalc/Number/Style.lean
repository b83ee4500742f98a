import CurveCalc.Number.Decimal

/-!
# The text of a double

Every number is written with its shortest decimal. A `NumberStyle` holds what else there is to
decide: which orders of magnitude are written positionally, whether a whole number keeps `.0`, and
what NaN and infinity are called. The library writes numbers in three styles.

* `literal`: in expressions. What it writes is a literal of the expression grammar.
* `record`: in the record of sampling options.
* `plain`: in what commands print; never an exponent.
-/

namespace CurveCalc

/-- What the text of a number leaves open once its digits are known. -/
structure NumberStyle where
  /-- The name of what is not a number. -/
  nan : List Char
  /-- The name of infinity. -/
  infinity : List Char
  /-- Whether a number whose first digit stands at this power of ten is written without an
  exponent. -/
  positional : Int → Bool
  /-- Whether a whole number written positionally ends in `.0`. -/
  keepsPoint : Bool

namespace NumberStyle

/-- Positional from `1e-4` to below `1e16`, an exponent outside, and always a point or an
exponent. -/
def literal : NumberStyle where
  nan := ['N', 'a', 'N']
  infinity := ['I', 'n', 'f', 'i', 'n', 'i', 't', 'y']
  positional k := decide (-4 ≤ k) && decide (k < 16)
  keepsPoint := true

/-- As a literal, but with the short name of infinity. -/
def record : NumberStyle := { literal with infinity := ['i', 'n', 'f'] }

/-- All digits are written out, and a whole number is written as an integer. -/
def plain : NumberStyle where
  nan := ['N', 'a', 'N']
  infinity := ['i', 'n', 'f']
  positional _ := true
  keepsPoint := false

def integerText : Int → List Char
  | .ofNat n => Nat.toDigits 10 n
  | .negSucc n => '-' :: Nat.toDigits 10 (n + 1)

/-- The part of a number after its whole digits. -/
def fractionText (s : NumberStyle) (digits : List Char) : List Char :=
  if digits = [] then if s.keepsPoint then ['.', '0'] else [] else '.' :: digits

/-- Digits written out, the first of them at the power of ten `order`. -/
def positionalText (s : NumberStyle) (digits : List Char) (order : Int) : List Char :=
  if 0 ≤ order then
    let width := order.toNat + 1
    digits.take width ++ List.replicate (width - digits.length) '0' ++
      s.fractionText (digits.drop width)
  else '0' :: '.' :: List.replicate ((-order).toNat - 1) '0' ++ digits

/-- Digits with a point after the first and the power of ten of the first as exponent. -/
def exponentText (digits : List Char) (order : Int) : List Char :=
  let rest := digits.drop 1
  digits.take 1 ++ (if rest = [] then [] else '.' :: rest) ++ 'e' :: integerText order

def decimalText (s : NumberStyle) (d : Decimal) : List Char :=
  let digits := Nat.toDigits 10 d.coefficient
  let order := d.exponent + digits.length - 1
  if s.positional order then s.positionalText digits order else exponentText digits order

def magnitudeText (s : NumberStyle) (magnitude : Nat) : List Char :=
  if magnitude = 0 then '0' :: s.fractionText [] else s.decimalText (Decimal.shortest magnitude)

/-- A text with a minus sign in front if the number is negative. -/
def signed (negative : Bool) (text : List Char) : List Char :=
  if negative then '-' :: text else text

/-- The text of a double. NaN has no sign; zero has one. -/
def write (s : NumberStyle) (v : Float) : List Char :=
  match Binary64.shape v with
  | .nan => s.nan
  | .infinite negative => signed negative s.infinity
  | .finite negative magnitude => signed negative (s.magnitudeText magnitude)

end NumberStyle

end CurveCalc
