/-!
# Binary64 numbers seen exactly

A finite double is a sign and a *magnitude*: its bit pattern without the sign bit, read as a natural
number. Magnitudes are in the order of the values they stand for, which are dyadic rationals
`significand k * 2 ^ exponent k`. This layer takes a `Float` apart that way and finds, by exact
arithmetic on natural numbers, the magnitude nearest to a quotient; reading and writing decimals
are both built on these two.
-/

namespace CurveCalc

namespace Binary64

/-! ## Taking a double apart -/

/-- The magnitude of infinity: finite magnitudes are below it, those of NaN above it. -/
def infinityMagnitude : Nat := 0x7FF0000000000000

def signBit : Nat := 0x8000000000000000

/-- The leading bit of a significand, which the bit pattern leaves out. -/
def leadingBit : Nat := 0x10000000000000

/-- What a double is: not a number, an infinity, or a sign and a finite magnitude. -/
inductive Shape where
  | nan
  | infinite (negative : Bool)
  | finite (negative : Bool) (magnitude : Nat)
deriving DecidableEq, Repr

/-- The shape of a double, from its bit pattern. -/
def shape (v : Float) : Shape :=
  let bits := v.toBits.toNat
  let negative := decide (signBit ≤ bits)
  let magnitude := bits % signBit
  if infinityMagnitude < magnitude then .nan
  else if magnitude = infinityMagnitude then .infinite negative
  else .finite negative magnitude

/-- The double of a sign and a magnitude, which may be that of infinity. -/
def signed (negative : Bool) (magnitude : Nat) : Float :=
  Float.ofBits (UInt64.ofNat (if negative then signBit + magnitude else magnitude))

/-- The double of a magnitude, without a sign. -/
def ofMagnitude (magnitude : Nat) : Float := signed false magnitude

def nan : Float := Float.ofBits 0x7FF8000000000000

/-- The integer part of a magnitude's value; the leading bit is there unless it is subnormal. -/
def significand (magnitude : Nat) : Nat :=
  if magnitude < leadingBit then magnitude else magnitude % leadingBit + leadingBit

/-- The power of two that the significand of a magnitude is scaled by. -/
def exponent (magnitude : Nat) : Int :=
  if magnitude < leadingBit then -1074 else (magnitude / leadingBit : Nat) - 1075

/-- The value of a magnitude as a quotient of natural numbers. -/
def fraction (magnitude : Nat) : Nat × Nat :=
  (significand magnitude * Nat.pow 2 (exponent magnitude).toNat,
    Nat.pow 2 (-exponent magnitude).toNat)

theorem fraction_snd_pos (magnitude : Nat) : 0 < (fraction magnitude).2 :=
  Nat.two_pow_pos _

/-! ## Rounding a quotient -/

/-- The integer nearest to `num / den`; a half goes to the even neighbour. -/
def roundHalfEven (num den : Nat) : Nat :=
  let q := num / den
  let twice := 2 * (num % den)
  if twice < den then q else if den < twice then q + 1 else q + q % 2

/-- The largest `l` with `2 ^ l ≤ num / den`, for positive `num` and `den`. -/
def floorLog2 (num den : Nat) : Int :=
  let l : Int := (num.log2 : Int) - (den.log2 : Int)
  if num * Nat.pow 2 (-l).toNat < den * Nat.pow 2 l.toNat then l - 1 else l

/-- The exponent at which a quotient is rounded: 53 significant bits, but no finer than the
subnormal grid. -/
def gridExponent (num den : Nat) : Int :=
  let e := floorLog2 num den - 52
  if e < -1074 then -1074 else e

/-- The magnitude nearest to `num / den`, ties to even; from half a unit past the largest finite
value on it is that of infinity. A carry out of the significand moves into the exponent by itself,
since both lie next to each other in the bit pattern. -/
def nearestMagnitude (num den : Nat) : Nat :=
  if num = 0 then 0
  else
    let e := gridExponent num den
    let m := roundHalfEven (num * Nat.pow 2 (-e).toNat) (den * Nat.pow 2 e.toNat)
    let k := (e + 1074).toNat * leadingBit + m
    if infinityMagnitude ≤ k then infinityMagnitude else k

/-- The double nearest to `num / den`, ties to even. -/
def nearest (num den : Nat) : Float := ofMagnitude (nearestMagnitude num den)

/-- The double nearest to a natural number. -/
def ofNat (n : Nat) : Float := nearest n 1

/-- The largest integer that is not above a double. What has no fraction because it is no number, or
infinite, stays as it is. -/
def floor (v : Float) : Float :=
  match shape v with
  | .nan => nan
  | .infinite negative => signed negative infinityMagnitude
  | .finite negative magnitude =>
    let (num, den) := fraction magnitude
    signed negative (nearestMagnitude (if negative then (num + den - 1) / den else num / den) 1)

/-! ## Exact operations, rounded once -/

/-- The magnitude nearest to a sum. -/
def addMagnitudes (a b : Nat) : Nat :=
  if a = infinityMagnitude ∨ b = infinityMagnitude then infinityMagnitude
  else
    let f := fraction a
    let g := fraction b
    nearestMagnitude (f.1 * g.2 + g.1 * f.2) (f.2 * g.2)

/-- The magnitude nearest to a product; nothing times infinity counts as nothing. -/
def mulMagnitudes (a b : Nat) : Nat :=
  if a = 0 ∨ b = 0 then 0
  else if a = infinityMagnitude ∨ b = infinityMagnitude then infinityMagnitude
  else
    let f := fraction a
    let g := fraction b
    nearestMagnitude (f.1 * g.1) (f.2 * g.2)

end Binary64

end CurveCalc
