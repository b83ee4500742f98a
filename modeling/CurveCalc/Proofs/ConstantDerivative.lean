import CurveCalc.Proofs.Commands
import CurveCalc.Proofs.DoubleArithmetic
import CurveCalc.Proofs.RealDerivative

/-!
# Derivatives of constants

In an expression without the variable every rule of differentiation multiplies a zero by something
or divides it by something. In doubles that is a zero again unless the factor is not finite, or the
divisor is zero or not a number, and then it is NaN, which all that is computed from it is. So the
derivative of a constant is zero or NaN and nothing else, and `Expr.RulesDefined` says which: it
goes through the nodes and asks for what the rule of each brings in. A finite value of the
expression is not enough for that.
-/

namespace CurveCalc

namespace Binary64

variable {v w : Float} {P Q : Prop}

/-! ## Zero or not a number -/

/-- One of the two zeros. -/
def IsZero (v : Float) : Prop := ∃ negative, v = signed negative 0

/-- A number that something can be divided by, infinities included. -/
def IsDivisor (v : Float) : Prop := ¬IsZero v ∧ v ≠ nan

/-- A double that is a zero if `P` holds and not a number otherwise. -/
structure ZeroIf (v : Float) (P : Prop) : Prop where
  isZero : P → IsZero v
  eq_nan : ¬P → v = nan

theorem isZero_ofNat_zero : IsZero (ofNat 0) := ⟨false, rfl⟩

theorem IsZero.hasRank (h : IsZero v) : HasRank v 0 := by
  obtain ⟨negative, rfl⟩ := h
  exact hasRank_zero negative

theorem HasRank.ne_nan {k : ℤ} (h : HasRank v k) : v ≠ nan := by
  rintro rfl
  have hle := (h.le_iff h).mpr le_rfl
  rw [le_iff_compare, unpack_nan] at hle
  exact absurd hle Bool.false_ne_true

theorem eq_nan_or_infinity (h : ¬IsFinite v) :
    v = nan ∨ ∃ negative, v = signed negative infinityMagnitude := by
  cases hshape : shape v with
  | nan => exact Or.inl (eq_of_shape_nan hshape)
  | infinite negative => exact Or.inr ⟨negative, eq_of_shape_infinite hshape⟩
  | finite negative magnitude => exact absurd ⟨negative, magnitude, hshape⟩ h

/-! ## Operations on what is zero or not a number -/

namespace ZeroIf

theorem congr (h : ZeroIf v P) (hQP : Q ↔ P) : ZeroIf v Q :=
  ⟨fun hQ ↦ h.isZero (hQP.mp hQ), fun hQ ↦ h.eq_nan fun hP ↦ hQ (hQP.mpr hP)⟩

theorem isZero_iff (h : ZeroIf v P) : IsZero v ↔ P := by
  refine ⟨fun hzero ↦ ?_, h.isZero⟩
  by_contra hP
  exact hzero.hasRank.ne_nan (h.eq_nan hP)

theorem isZero_or_eq_nan (h : ZeroIf v P) : IsZero v ∨ v = nan := by
  by_cases hP : P
  · exact Or.inl (h.isZero hP)
  · exact Or.inr (h.eq_nan hP)

/-- An operation that NaN passes through asks for its first operand to be a zero. -/
theorem guard (op : Float → Float) (hnan : op nan = nan) (h : ZeroIf v P)
    (hop : ∀ negative, ZeroIf (op (signed negative 0)) Q) : ZeroIf (op v) (P ∧ Q) := by
  by_cases hP : P
  · obtain ⟨negative, rfl⟩ := h.isZero hP
    exact (hop negative).congr (and_iff_right hP)
  · rw [h.eq_nan hP, hnan]
    exact ⟨fun hc ↦ absurd hc.1 hP, fun _ ↦ rfl⟩

theorem mul_right (h : ZeroIf v P) (w : Float) : ZeroIf (v * w) (P ∧ IsFinite w) := by
  refine guard (· * w) (nan_mul w) h fun negative ↦ ⟨fun hw ↦ ?_, fun hw ↦ ?_⟩
  · obtain ⟨negative', m, hshape⟩ := hw
    obtain ⟨rfl, hm⟩ := eq_of_shape_finite hshape
    exact ⟨_, zero_mul_signed negative negative' hm⟩
  · rcases eq_nan_or_infinity hw with rfl | ⟨negative', rfl⟩
    · exact mul_nan _
    · exact zero_mul_infinity negative negative'

theorem mul_left (h : ZeroIf w Q) (v : Float) : ZeroIf (v * w) (IsFinite v ∧ Q) := by
  rw [double_mul_comm]
  exact (h.mul_right v).congr and_comm

theorem div (h : ZeroIf v P) (w : Float) : ZeroIf (v / w) (P ∧ IsDivisor w) := by
  refine guard (· / w) (nan_div w) h fun negative ↦ ⟨fun hw ↦ ?_, fun hw ↦ ?_⟩
  · by_cases hfin : IsFinite w
    · obtain ⟨negative', m, hshape⟩ := hfin
      obtain ⟨rfl, hm⟩ := eq_of_shape_finite hshape
      have hpos : 0 < m := Nat.pos_of_ne_zero fun hzero ↦ hw.1 ⟨negative', by rw [hzero]⟩
      exact ⟨_, zero_div_signed negative negative' hpos hm⟩
    · obtain ⟨negative', rfl⟩ := (eq_nan_or_infinity hfin).resolve_left hw.2
      exact ⟨_, zero_div_infinity negative negative'⟩
  · by_cases hzero : IsZero w
    · obtain ⟨negative', rfl⟩ := hzero
      exact zero_div_zero negative negative'
    · obtain rfl : w = nan := by
        by_contra hnan
        exact hw ⟨hzero, hnan⟩
      exact div_nan _

theorem add (hv : ZeroIf v P) (hw : ZeroIf w Q) : ZeroIf (v + w) (P ∧ Q) := by
  refine guard (· + w) (nan_add w) hv fun negative ↦ ⟨fun hQ ↦ ?_, fun hQ ↦ ?_⟩
  · obtain ⟨negative', rfl⟩ := hw.isZero hQ
    exact ⟨_, zero_add_zero negative negative'⟩
  · rw [hw.eq_nan hQ]
    exact add_nan _

theorem sub (hv : ZeroIf v P) (hw : ZeroIf w Q) : ZeroIf (v - w) (P ∧ Q) := by
  refine guard (· - w) (nan_sub w) hv fun negative ↦ ⟨fun hQ ↦ ?_, fun hQ ↦ ?_⟩
  · obtain ⟨negative', rfl⟩ := hw.isZero hQ
    exact ⟨_, (sub_signed _ negative' (Nat.zero_le _)).trans (zero_add_zero negative _)⟩
  · rw [hw.eq_nan hQ]
    exact sub_nan _

end ZeroIf

end Binary64

/-! ## Expressions without the variable -/

namespace Expr

open Binary64

/-- An expression in which the variable does not occur. -/
def VariableFree : Expr → Prop
  | .literal _ => True
  | .var => False
  | .paren e | .log e | .danglingPow e => e.VariableFree
  | .binary _ a b | .logWith a b => a.VariableFree ∧ b.VariableFree

/-- The value of an expression in doubles, where a missing exponent is passed over. -/
def doubleValue (e : Expr) (x : Float) : Float := e.valueIn Arithmetic.double x

/-- Every rule that the derivative of a constant is built by has a value at `x`: what it multiplies
by is finite, and what it divides by is a divisor. -/
def RulesDefined (x : Float) : Expr → Prop
  | .literal _ | .var => True
  | .paren g => g.RulesDefined x
  | .binary .add g h | .binary .sub g h => g.RulesDefined x ∧ h.RulesDefined x
  | .binary .mul g h =>
    (g.RulesDefined x ∧ IsFinite (h.doubleValue x)) ∧ IsFinite (g.doubleValue x) ∧ h.RulesDefined x
  | .binary .div g h =>
    (g.RulesDefined x ∧ IsDivisor (h.doubleValue x)) ∧
      (IsFinite (g.doubleValue x) ∧ h.RulesDefined x) ∧
        IsDivisor (Float.pow (h.doubleValue x) (ofNat 2))
  | .binary .pow (.literal c) h =>
    IsFinite (Float.log c * Float.pow c (h.doubleValue x)) ∧ h.RulesDefined x
  | .binary .pow g (.literal c) =>
    IsFinite (c * Float.pow (g.doubleValue x) (c - ofNat 1)) ∧ g.RulesDefined x
  | .binary .pow g h =>
    IsFinite (Float.pow (g.doubleValue x) (h.doubleValue x)) ∧
      (h.RulesDefined x ∧ IsFinite (g.doubleValue x)) ∧
        (g.RulesDefined x ∧ IsFinite (h.doubleValue x)) ∧ IsDivisor (g.doubleValue x)
  | .log g | .logWith g _ => g.RulesDefined x ∧ IsDivisor (g.doubleValue x)
  | .danglingPow _ => False

/-- The derivative of a constant is a zero exactly if all its rules have a value, and else NaN. -/
theorem IsDerivative.zeroIf {f f' : Expr} (hd : IsDerivative f f') (hfree : f.VariableFree)
    (x : Float) : ZeroIf (f'.doubleValue x) (f.RulesDefined x) := by
  induction hd with
  | literal c => exact ⟨fun _ ↦ isZero_ofNat_zero, fun h ↦ absurd trivial h⟩
  | var => exact hfree.elim
  | paren _ ih => exact ih hfree
  | add _ _ ihg ihh => exact (ihg hfree.1).add (ihh hfree.2)
  | sub _ _ ihg ihh => exact (ihg hfree.1).sub (ihh hfree.2)
  | @product g h g' h' _ _ ihg ihh =>
    exact ((ihg hfree.1).mul_right (h.doubleValue x)).add ((ihh hfree.2).mul_left (g.doubleValue x))
  | @quotient g h g' h' _ _ ihg ihh =>
    exact ((ihg hfree.1).div (h.doubleValue x)).sub
      (((ihh hfree.2).mul_left (g.doubleValue x)).div (Float.pow (h.doubleValue x) (ofNat 2)))
  | @literalBase c h h' _ ih =>
    exact (ih hfree.2).mul_left (Float.log c * Float.pow c (h.doubleValue x))
  | @literalExponent c g g' hbase _ ih =>
    rw [RulesDefined]
    · exact (ih hfree.1).mul_left (c * Float.pow (g.doubleValue x) (c - ofNat 1))
    · exact hbase
  | @power g h g' h' hbase hexponent _ _ ihg ihh =>
    rw [RulesDefined]
    · exact (((ihh hfree.2).mul_right (g.doubleValue x)).add
        (((ihg hfree.1).mul_right (h.doubleValue x)).div (g.doubleValue x))).mul_left
          (Float.pow (g.doubleValue x) (h.doubleValue x))
    · exact hbase
    · exact hexponent
  | @log g g' _ ih => exact (ih hfree).div (g.doubleValue x)
  | @logWith g g' spare _ ih => exact (ih hfree.1).div (g.doubleValue x)

/-- **The derivative of a constant is zero or not a number.** It is never infinite, and it is a zero
exactly where all that the rules multiply by is finite and all that they divide by is a divisor. -/
theorem eval_derivative_of_variableFree {f : Expr} (hcomplete : f.Complete)
    (hfree : f.VariableFree) :
    ∃ d, f.derivative = .ok d ∧ ∀ x, ∃ v, d.eval x = .ok v ∧ (IsZero v ∨ v = nan) ∧
      (IsZero v ↔ f.RulesDefined x) := by
  obtain ⟨d, hd⟩ := exists_isDerivative hcomplete
  refine ⟨d, hd.derivative_eq, fun x ↦ ?_⟩
  have hvalue := hd.zeroIf hfree x
  exact ⟨_, eval_eq_ok (hd.complete hcomplete) x, hvalue.isZero_or_eq_nan, hvalue.isZero_iff⟩

/-- A product of constants: all that its rules multiply by is finite, so its derivative is a zero
everywhere. -/
theorem eval_derivative_of_variableFree_product :
    (binary .mul (binary .sub (number 1) (number 3)) (number 2)).Complete ∧
      (binary .mul (binary .sub (number 1) (number 3)) (number 2)).VariableFree ∧
      ∃ d, (binary .mul (binary .sub (number 1) (number 3)) (number 2)).derivative = .ok d ∧
        ∀ x, ∃ v, d.eval x = .ok v ∧ IsZero v := by
  have hcomplete : (binary .mul (binary .sub (number 1) (number 3)) (number 2)).Complete :=
    ⟨⟨trivial, trivial⟩, trivial⟩
  have hfree : (binary .mul (binary .sub (number 1) (number 3)) (number 2)).VariableFree :=
    ⟨⟨trivial, trivial⟩, trivial⟩
  obtain ⟨d, hd, hvalue⟩ := eval_derivative_of_variableFree hcomplete hfree
  refine ⟨hcomplete, hfree, d, hd, fun x ↦ ?_⟩
  obtain ⟨v, hv, -, hzero⟩ := hvalue x
  have hshape : shape (ofNat 1 - ofNat 3) = .finite true 0x4000000000000000 := by decide +kernel
  exact ⟨v, hv, hzero.mpr
    ⟨⟨⟨trivial, trivial⟩, isFinite_ofNat (by decide)⟩, ⟨_, _, hshape⟩, trivial⟩⟩

/-- A constant with a finite value need not have a zero as its derivative: `1 / (1 / 0)` is zero,
and the derivative of its divisor is not a number. -/
theorem not_forall_eval_derivative_isZero :
    ¬∀ f : Expr, f.Complete → f.VariableFree → (∀ x, ∃ v, f.eval x = .ok v ∧ IsFinite v) →
      ∃ d, f.derivative = .ok d ∧ ∀ x, ∃ v, d.eval x = .ok v ∧ IsZero v := by
  intro hall
  have hcomplete : (binary .div (number 1) (binary .div (number 1) (number 0))).Complete :=
    ⟨trivial, trivial, trivial⟩
  have hfree : (binary .div (number 1) (binary .div (number 1) (number 0))).VariableFree :=
    ⟨trivial, trivial, trivial⟩
  have hshape : shape (ofNat 1 / (ofNat 1 / ofNat 0)) = .finite false 0 := by decide +kernel
  obtain ⟨d, hd, hzero⟩ := hall _ hcomplete hfree fun x ↦
    ⟨_, eval_eq_ok hcomplete x, false, 0, hshape⟩
  have hrules := isDerivative_of_derivative hd
  obtain ⟨v, hv, hv0⟩ := hzero (ofNat 0)
  rw [eval_eq_ok (hrules.complete hcomplete)] at hv
  obtain rfl := Except.ok.inj hv
  -- the divisor of the divisor is zero
  obtain ⟨-, ⟨-, ⟨-, hdivisor⟩, -⟩, -⟩ := (hrules.zeroIf hfree (ofNat 0)).isZero_iff.mp hv0
  exact hdivisor.1 isZero_ofNat_zero

end Expr

end CurveCalc
