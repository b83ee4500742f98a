import CurveCalc.Number.Binary64

/-!
# Decimal numbers and the shortest one for a double

A `Decimal` is a natural number scaled by a power of ten. `Decimal.toFloat` rounds one to the
nearest double. `Decimal.shortest` goes the other way: of the decimals that read back to a given
magnitude it takes one with the fewest digits, and the nearest of those.

`shortest` tests each candidate by reading it, so what it returns reads back by construction; when
no candidate of at most seventeen digits does, it falls back on the exact decimal expansion.
-/

namespace CurveCalc

/-- The number `coefficient * 10 ^ exponent`. -/
structure Decimal where
  coefficient : Nat
  exponent : Int
deriving DecidableEq, Repr

namespace Decimal

/-! ## Reading -/

/-- An exponent past which a decimal is infinite as a double, or zero, whatever the exponent is:
the coefficient has at most `log2 coefficient + 1` digits. -/
def cappedExponent (d : Decimal) : Int :=
  let low : Int := -((d.coefficient.log2 : Int) + 401)
  if 400 < d.exponent then 400 else if d.exponent < low then low else d.exponent

def magnitude (d : Decimal) : Nat :=
  let e := d.cappedExponent
  Binary64.nearestMagnitude (d.coefficient * Nat.pow 10 e.toNat) (Nat.pow 10 (-e).toNat)

/-- The double nearest to a decimal, ties to even. -/
def toFloat (d : Decimal) : Float := Binary64.ofMagnitude d.magnitude

/-! ## Writing -/

/-- The number of decimal digits of a natural number. -/
def digitCount (n : Nat) : Nat := (Nat.toDigits 10 n).length

/-- The order of a positive quotient: the largest `k` with `10 ^ k ≤ num / den`. -/
def order (num den : Nat) : Int :=
  if den ≤ num then (digitCount (num / den) : Int) - 1
  else
    let d := digitCount (den / num)
    if den ≤ num * Nat.pow 10 (d - 1) then 1 - (d : Int) else -(d : Int)

/-- Of the two decimals with exponent `e` next to `num / den`, the one that reads as `target`; if
both do, the nearer, and the upper if they are equally near. -/
def neighbour? (target num den : Nat) (e : Int) : Option Decimal :=
  let scaledNum := num * Nat.pow 10 (-e).toNat
  let scaledDen := den * Nat.pow 10 e.toNat
  let lower : Decimal := ⟨scaledNum / scaledDen, e⟩
  let upper : Decimal := ⟨scaledNum / scaledDen + 1, e⟩
  if lower.magnitude = target then
    if upper.magnitude = target ∧ scaledDen ≤ 2 * (scaledNum % scaledDen) then some upper
    else some lower
  else if upper.magnitude = target then some upper
  else none

/-- The decimal expansion of a magnitude, to its last digit. -/
def exact (magnitude : Nat) : Decimal :=
  let m := Binary64.significand magnitude
  let e := Binary64.exponent magnitude
  if 0 ≤ e then ⟨m * Nat.pow 2 e.toNat, 0⟩ else ⟨m * Nat.pow 5 (-e).toNat, e⟩

/-- The same number without zeros at the end of its coefficient. -/
def trim (coefficient : Nat) (exponent : Int) : Decimal :=
  if coefficient = 0 then ⟨0, exponent⟩
  else if coefficient % 10 = 0 then trim (coefficient / 10) (exponent + 1)
  else ⟨coefficient, exponent⟩
termination_by coefficient
decreasing_by omega

/-- The first hit on the grids of one to seventeen digits. -/
def shortest? (magnitude : Nat) : Option Decimal :=
  let f := Binary64.fraction magnitude
  let k := order f.1 f.2
  (List.range 17).findSome? fun n : Nat ↦ neighbour? magnitude f.1 f.2 (k - (n : Int))

/-- The decimal that a finite nonzero magnitude is written with. -/
def shortest (magnitude : Nat) : Decimal :=
  let d := (shortest? magnitude).getD (exact magnitude)
  trim d.coefficient d.exponent

end Decimal

end CurveCalc
