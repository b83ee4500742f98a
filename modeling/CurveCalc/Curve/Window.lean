import CurveCalc.Evaluation
import CurveCalc.Number.Binary64

/-!
# The points of a curve

An expression is sampled over a window at equal steps. Each `x` is computed from its index, so that
rounding errors do not add up over many steps. Every point is kept, also where the value is infinite
or NaN, and it is for whoever draws the curve to deal with its gaps.
-/

namespace CurveCalc

structure Point where
  x : Float
  y : Float
deriving DecidableEq

namespace Point

def origin : Point := ⟨Binary64.ofNat 0, Binary64.ofNat 0⟩

/-- Whether a point can be drawn. -/
def isFinite (p : Point) : Bool := p.x.isFinite && p.y.isFinite

/-- Whether the coordinates of two points compare equal. -/
def agrees (p q : Point) : Bool := p.x == q.x && p.y == q.y

end Point

/-- A range of `x` and the distance of the values that are taken from it. -/
structure Window where
  min : Float
  max : Float
  delta : Float
deriving DecidableEq

namespace Window

/-- From -10 to 10 in steps of a hundredth. -/
def standard : Window where
  min := -Binary64.ofNat 10
  max := Binary64.ofNat 10
  delta := Binary64.nearest 1 100

/-- No window yields more points than this. -/
def maxPoints : Nat := 1000000

/-- The way between the ends in steps. -/
def ratio (w : Window) : Float := (w.max - w.min) / w.delta

/-- How many whole steps fit between the ends. -/
def steps (w : Window) : Float := Binary64.floor w.ratio

/-- Whether a window yields points at all: its ends are in order, its step moves forward, and it
does not need too many points. -/
def isValid (w : Window) : Bool :=
  w.delta.isFinite && decide (Binary64.ofNat 0 < w.delta) && w.min.isFinite && w.max.isFinite &&
    decide (w.min ≤ w.max) && decide (w.steps < Binary64.ofNat maxPoints)

/-- The steps of a valid window as a natural number. -/
def wholeSteps (w : Window) : Nat := w.steps.toUInt64.toNat

/-- The `x` that is reached after some steps. -/
def xAt (w : Window) (i : Nat) : Float := w.min + i.toUInt64.toFloat * w.delta

/-- The values of `x` in a valid window, up to the first that rounding takes past its end. -/
def xs (w : Window) : List Float :=
  ((List.range (w.wholeSteps + 1)).map w.xAt).takeWhile fun x ↦ decide (x ≤ w.max)

end Window

namespace Expr

/-- The points of an expression at the given values of `x`. -/
def pointsAt (e : Expr) (xs : List Float) : Except Inconsistency (List Point) :=
  xs.mapM fun x ↦ do
    let y ← e.eval x
    return ⟨x, y⟩

/-- The points of an expression over a window; none if the window is not valid. -/
def sample (e : Expr) (w : Window) : Except Inconsistency (List Point) :=
  if w.isValid then e.pointsAt w.xs else .ok []

end Expr

end CurveCalc
