import CurveCalc.Derivative
import CurveCalc.Evaluation
import CurveCalc.Proofs.FloatBits
import CurveCalc.Proofs.Rounding
import Mathlib

/-!
# Expressions over the real numbers

The evaluator takes its arithmetic as an argument, so an expression can be read over the real
numbers as well as over doubles: a literal stands for the exact value of its double, and the
operators are those of `ℝ`. A complete expression has a value in every arithmetic; `Expr.valueIn` is
that value without the `Except`, and `Expr.realValue` is the function that an expression denotes.
-/

namespace CurveCalc

/-! ## The real number of a double -/

namespace Binary64

/-- A double that stands for a number. -/
def IsFinite (v : Float) : Prop := ∃ negative magnitude, shape v = .finite negative magnitude

/-- The real number that a double stands for. What is no number counts as zero. -/
noncomputable def toReal (v : Float) : ℝ :=
  match shape v with
  | .finite negative magnitude => if negative then -(value magnitude : ℝ) else (value magnitude : ℝ)
  | .infinite _ | .nan => 0

theorem shape_ofNat {n : ℕ} (h : n < 2 ^ 53) :
    ∃ magnitude, shape (ofNat n) = .finite false magnitude ∧ value magnitude = n := by
  obtain ⟨magnitude, hfin, hvalue⟩ := representable_natCast h
  have hnearest : nearestMagnitude n 1 = magnitude :=
    nearestMagnitude_of_value Nat.one_pos (by rw [hvalue, Nat.cast_one, div_one]) hfin
  refine ⟨magnitude, ?_, hvalue⟩
  rw [ofNat, nearest, hnearest]
  exact shape_signed hfin

theorem isFinite_ofNat {n : ℕ} (h : n < 2 ^ 53) : IsFinite (ofNat n) := by
  obtain ⟨magnitude, hshape, -⟩ := shape_ofNat h
  exact ⟨false, magnitude, hshape⟩

theorem toReal_ofNat {n : ℕ} (h : n < 2 ^ 53) : toReal (ofNat n) = n := by
  obtain ⟨magnitude, hshape, hvalue⟩ := shape_ofNat h
  rw [toReal, hshape]
  simp only [hvalue, Rat.cast_natCast]
  rfl

end Binary64

/-! ## Values of complete expressions -/

namespace Expr

/-- The value of an expression in an arithmetic, where a missing exponent is passed over. -/
def valueIn {α : Type} (A : Arithmetic α) (x : α) : Expr → α
  | .literal v => A.literal v
  | .var => x
  | .paren e | .danglingPow e => e.valueIn A x
  | .binary op a b => A.binary op (a.valueIn A x) (b.valueIn A x)
  | .log a | .logWith a _ => A.log (a.valueIn A x)

theorem evalIn_eq_ok {α : Type} (A : Arithmetic α) (x : α) {e : Expr} (h : e.Complete) :
    e.evalIn A x = .ok (e.valueIn A x) := by
  induction e with
  | literal v => rfl
  | var => rfl
  | paren e ih => exact ih h
  | binary op a b iha ihb =>
    rw [evalIn, iha h.1, ihb h.2]
    rfl
  | log a ih =>
    rw [evalIn, ih h]
    rfl
  | danglingPow a _ => exact h.elim
  | logWith a b _ _ => exact h.elim

end Expr

namespace Arithmetic

noncomputable def realBinary : BinaryOp → ℝ → ℝ → ℝ
  | .add, a, b => a + b
  | .sub, a, b => a - b
  | .mul, a, b => a * b
  | .div, a, b => a / b
  | .pow, a, b => a ^ b

noncomputable def real : Arithmetic ℝ where
  literal := Binary64.toReal
  binary := realBinary
  log := Real.log

end Arithmetic

namespace Expr

/-- The function that an expression denotes. -/
noncomputable def realValue (e : Expr) (x : ℝ) : ℝ := e.valueIn Arithmetic.real x

section RealValue

variable {v : Float} {a b : Expr} {x : ℝ}

@[simp] theorem realValue_literal : (literal v).realValue x = Binary64.toReal v := rfl

@[simp] theorem realValue_var : var.realValue x = x := rfl

@[simp] theorem realValue_paren : (paren a).realValue x = a.realValue x := rfl

@[simp] theorem realValue_add :
    (binary .add a b).realValue x = a.realValue x + b.realValue x := rfl

@[simp] theorem realValue_sub :
    (binary .sub a b).realValue x = a.realValue x - b.realValue x := rfl

@[simp] theorem realValue_mul :
    (binary .mul a b).realValue x = a.realValue x * b.realValue x := rfl

@[simp] theorem realValue_div :
    (binary .div a b).realValue x = a.realValue x / b.realValue x := rfl

@[simp] theorem realValue_pow :
    (binary .pow a b).realValue x = a.realValue x ^ b.realValue x := rfl

@[simp] theorem realValue_log : (log a).realValue x = Real.log (a.realValue x) := rfl

/-- The numbers that a derivative brings in are exact. -/
theorem realValue_number {n : ℕ} (h : n < 2 ^ 53) : (number n).realValue x = n :=
  Binary64.toReal_ofNat h

end RealValue

/-- An expression that can be read over the real numbers: all its literals are finite. -/
def FiniteLiterals : Expr → Prop
  | .literal v => Binary64.IsFinite v
  | .var => True
  | .paren e | .log e | .danglingPow e => e.FiniteLiterals
  | .binary _ a b | .logWith a b => a.FiniteLiterals ∧ b.FiniteLiterals

end Expr

end CurveCalc
