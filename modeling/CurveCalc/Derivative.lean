import CurveCalc.Expr.Basic
import CurveCalc.Number.Binary64

/-!
# Derivatives

The derivative of an expression with respect to `x`, as a new expression. Nothing is simplified.

```text
c            0
x            1
(g)          (g')
g + h        g' + h'
g - h        g' - h'
g * h        g' * h + g * h'
g / h        g' / h - g * h' / h ^ 2
log(g)       g' / g
c ^ h        log(c) * c ^ h * h'
g ^ c        c * g ^ (c - 1) * g'
g ^ h        g ^ h * (h' * g + g' * h / g)
```

Here `c` is a literal node. If both sides of a power are literals, the rule for a literal base
applies. The rule for a general power is the true derivative only where `h'` is zero.
-/

namespace CurveCalc

namespace Expr

/-- The literal of a natural number. -/
def number (n : Nat) : Expr := .literal (Binary64.ofNat n)

/-- The derivative of `g * h`. -/
def productRule (g h g' h' : Expr) : Expr :=
  .binary .add (.binary .mul g' h) (.binary .mul g h')

/-- The derivative of `g / h`, as two fractions. -/
def quotientRule (g h g' h' : Expr) : Expr :=
  .binary .sub (.binary .div g' h)
    (.binary .div (.binary .mul g h') (.binary .pow h (number 2)))

/-- The derivative of `log(g)`. -/
def logRule (g g' : Expr) : Expr := .binary .div g' g

/-- The derivative of `c ^ h`. -/
def literalBaseRule (c : Float) (h h' : Expr) : Expr :=
  .binary .mul (.binary .mul (.log (.literal c)) (.binary .pow (.literal c) h)) h'

/-- The derivative of `g ^ c`. -/
def literalExponentRule (g : Expr) (c : Float) (g' : Expr) : Expr :=
  .binary .mul
    (.binary .mul (.literal c) (.binary .pow g (.binary .sub (.literal c) (number 1)))) g'

/-- The derivative of `g ^ h` where neither side is a literal. -/
def powerRule (g h g' h' : Expr) : Expr :=
  .binary .mul (.binary .pow g h)
    (.binary .add (.binary .mul h' g) (.binary .div (.binary .mul g' h) g))

/-- The derivative. A power without an exponent has none; the spare operand of a logarithm is left
out. -/
def derivative : Expr → Except Inconsistency Expr
  | .literal _ => .ok (number 0)
  | .var => .ok (number 1)
  | .paren g => do
    let g' ← g.derivative
    return .paren g'
  | .binary .add g h => do
    let g' ← g.derivative
    let h' ← h.derivative
    return .binary .add g' h'
  | .binary .sub g h => do
    let g' ← g.derivative
    let h' ← h.derivative
    return .binary .sub g' h'
  | .binary .mul g h => do
    let g' ← g.derivative
    let h' ← h.derivative
    return productRule g h g' h'
  | .binary .div g h => do
    let g' ← g.derivative
    let h' ← h.derivative
    return quotientRule g h g' h'
  | .binary .pow (.literal c) h => do
    let h' ← h.derivative
    return literalBaseRule c h h'
  | .binary .pow g (.literal c) => do
    let g' ← g.derivative
    return literalExponentRule g c g'
  | .binary .pow g h => do
    let g' ← g.derivative
    let h' ← h.derivative
    return powerRule g h g' h'
  | .log g | .logWith g _ => do
    let g' ← g.derivative
    return logRule g g'
  | .danglingPow _ => .error (.noExponent (.binary .pow))

end Expr

end CurveCalc
