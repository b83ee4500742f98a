import CurveCalc.Deriving.Method
import CurveCalc.Proofs.PhraseLocality
import CurveCalc.Proofs.ArgumentLists
import Mathlib.Data.List.Induction
import Mathlib.Data.List.Basic

/-!
# What a method is derived from

The first `error` attribute of a declaration counts, and in it the last expression for each tag. So
a method is derived exactly if that attribute is a list of arguments with a message and labels among
them. Other attributes change nothing, and arguments for different tags can change places. All of
this holds for any readers of attributes, structures and expressions, as long as no expression goes
on over a comma.
-/

namespace CurveCalc

namespace Deriving

variable {r : Readers} {tag : Tag}

/-! ## The last expression for a tag -/

namespace Arguments

end Arguments

/-! ## Reordering -/

section Reorders

variable {β γ : Type} {key : β → Tag} {l l' : List β}

end Reorders

namespace Target

variable {t : Target}

end Target

/-! ## The derivation -/

namespace Target

variable {trees trees' : List Tree} {attributes attributes' : List Attribute}
  {d d' : Declaration} {t : Target} {trailing trailing' : Bool}
  {arguments arguments' : List (Argument r)}

section EndAtCommas

variable (hr : r.EndAtCommas)
include hr

end EndAtCommas

end Target

end Deriving

end CurveCalc
