import CurveCalc.Number.Binary64
import CurveCalc.Text.Digit

/-!
# The value of hexadecimal digits

Hexadecimal digits are gathered in a double one by one, each step rounded; once the value has
reached `2 ^ 60`, the digits after it only move the exponent. The gathered value is then scaled by a
power of two in two halves.
-/

namespace CurveCalc

namespace Hexadecimal

/-- Digits gathered so far: the magnitude of their value, and how many more came after that was
full. -/
structure Gathered where
  magnitude : Nat
  dropped : Nat

/-- The magnitude of `2 ^ 60`, from which on further digits are below the precision of a double. -/
def fullMagnitude : Nat := Binary64.nearestMagnitude (Nat.pow 2 60) 1

/-- Takes one more hexadecimal digit: sixteen times the value and the digit, each step rounded. -/
def Gathered.push (g : Gathered) (c : Char) : Gathered :=
  if g.magnitude < fullMagnitude then
    let shifted := Binary64.mulMagnitudes g.magnitude (Binary64.nearestMagnitude 16 1)
    let digit := Binary64.nearestMagnitude (Text.hexDigitValue c) 1
    ⟨Binary64.addMagnitudes shifted digit, g.dropped⟩
  else ⟨g.magnitude, g.dropped + 1⟩

/-- All digits of a mantissa, gathered from left to right. -/
def gather (digits : List Char) : Gathered := digits.foldl Gathered.push ⟨0, 0⟩

/-- An integer brought into the range of a signed word of 32 bits. -/
def capped (n : Int) : Int :=
  if n < -2147483648 then -2147483648 else if 2147483647 < n then 2147483647 else n

/-- The magnitude of two to an integer power: infinite above the exponents of finite doubles, and
zero below those of the reciprocals of finite powers. -/
def twoPowMagnitude (k : Int) : Nat :=
  if 1023 < k then Binary64.infinityMagnitude
  else if k < -1023 then 0
  else Binary64.nearestMagnitude (Nat.pow 2 k.toNat) (Nat.pow 2 (-k).toNat)

/-- A gathered mantissa scaled by `2 ^ shift`. The scale is applied in two halves, so that a large
mantissa with a very negative exponent does not overflow on the way. -/
def scaled (magnitude : Nat) (shift : Int) : Nat :=
  let half := shift.tdiv 2
  Binary64.mulMagnitudes (Binary64.mulMagnitudes magnitude (twoPowMagnitude half))
    (twoPowMagnitude (shift - half))

/-- The magnitude of the digits before and after the point, scaled by a written exponent of two. -/
def magnitude (whole fraction : List Char) (exponent : Int) : Nat :=
  let g := gather (whole ++ fraction)
  if g.magnitude = 0 then 0
  else scaled g.magnitude (capped (capped exponent + 4 * g.dropped - 4 * fraction.length))

end Hexadecimal

end CurveCalc
