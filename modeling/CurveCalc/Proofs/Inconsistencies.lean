import CurveCalc.Expr.Walk
import CurveCalc.Proofs.Commands

/-!
# How far an inconsistent tree gets

Only one thing can be wrong with a tree: that a power in it has no exponent. How soon that shows
differs. Evaluation visits every operand, the spare ones of logarithms too, so it fails if such a
power stands anywhere in the tree (`Expr.Dangles`). Differentiation passes the spare operands over
and fails only if one stands outside them (`Expr.DanglesInUse`).

A derivative copies subtrees that were never differentiated, spare operands with them. But it brings
in no power without an exponent, so a tree that can be evaluated can be differentiated over and
over, and all that comes of it can be evaluated. Trees that are read have no such power at all,
which is why no line of input meets an inconsistency.
-/

namespace CurveCalc

/-! ## Computations that fail for one cause -/

/-- A computation that fails exactly if `P` holds, and for no other cause than the given one. -/
def FailsIff {ε α : Type} (r : Except ε α) (cause : ε) (P : Prop) : Prop :=
  ∀ e, r = .error e ↔ e = cause ∧ P

namespace FailsIff

variable {ε α β : Type} {r : Except ε α} {k : α → Except ε β} {cause : ε} {P Q : Prop}

theorem ok (a : α) : FailsIff (.ok a) cause False :=
  fun _ ↦ by simp

theorem error : FailsIff (.error cause : Except ε α) cause True :=
  fun _ ↦ by simp [eq_comm]

theorem congr (h : FailsIff r cause P) (hQP : Q ↔ P) : FailsIff r cause Q :=
  fun e ↦ (h e).trans (and_congr_right fun _ ↦ hQP.symm)

theorem exists_ok (h : FailsIff r cause P) (hP : ¬P) : ∃ a, r = .ok a := by
  cases hr : r with
  | ok a => exact ⟨a, rfl⟩
  | error e => exact absurd ((h e).mp hr).2 hP

theorem not_of_ok {a : α} (h : FailsIff (.ok a) cause P) : ¬P :=
  fun hP ↦ absurd ((h cause).mpr ⟨rfl, hP⟩) (by simp)

/-- The second step is taken only where the first succeeds, and fails whatever the first gave. -/
theorem bind (h : FailsIff r cause P) (hk : ∀ a, FailsIff (k a) cause Q) :
    FailsIff (r >>= k) cause (P ∨ Q) := by
  cases r with
  | error e =>
    obtain ⟨rfl, hP⟩ := (h e).mp rfl
    exact error.congr (iff_true_intro (Or.inl hP))
  | ok a => exact (hk a).congr (or_iff_right h.not_of_ok)

theorem map (h : FailsIff r cause P) (f : α → β) :
    FailsIff (r >>= fun a ↦ .ok (f a)) cause P :=
  (h.bind fun a ↦ ok (f a)).congr (or_iff_left not_false).symm

end FailsIff

namespace Expr

/-! ## Where powers without an exponent stand -/

/-- The operands that are not spare. -/
def usedOperands : Expr → List Expr
  | .logWith a _ => [a]
  | e => e.operands

/-- A node that is reached from the root by steps from a node to one of the given operands. -/
def Reaches (ops : Expr → List Expr) : Expr → Expr → Prop :=
  Relation.ReflTransGen fun e a ↦ a ∈ ops e

/-- A power without an exponent stands somewhere in the tree. -/
def Dangles (e : Expr) : Prop := ∃ base, Reaches operands e (.danglingPow base)

/-- A power without an exponent stands outside the spare operands of logarithms. -/
def DanglesInUse (e : Expr) : Prop := ∃ base, Reaches usedOperands e (.danglingPow base)

variable {e a b : Expr} {op : BinaryOp}

private theorem exists_reaches_iff {ops : Expr → List Expr} :
    (∃ base, Reaches ops e (.danglingPow base)) ↔
      (∃ base, e = .danglingPow base) ∨ ∃ a ∈ ops e, ∃ base, Reaches ops a (.danglingPow base) := by
  constructor
  · rintro ⟨base, h⟩
    obtain rfl | ⟨a, ha, hrest⟩ := h.cases_head
    · exact Or.inl ⟨base, rfl⟩
    · exact Or.inr ⟨a, ha, base, hrest⟩
  · rintro (⟨base, rfl⟩ | ⟨a, ha, base, hrest⟩)
    · exact ⟨base, .refl⟩
    · exact ⟨base, hrest.head ha⟩

section Dangles

theorem dangles_iff : e.Dangles ↔ (∃ base, e = .danglingPow base) ∨ ∃ a ∈ e.operands, a.Dangles :=
  exists_reaches_iff

@[simp] theorem not_dangles_literal (c : Float) : ¬(literal c).Dangles := by
  rw [dangles_iff]
  simp [operands]

@[simp] theorem not_dangles_var : ¬var.Dangles := by
  rw [dangles_iff]
  simp [operands]

@[simp] theorem dangles_paren : (paren a).Dangles ↔ a.Dangles := by
  rw [dangles_iff]
  simp [operands]

@[simp] theorem dangles_binary : (binary op a b).Dangles ↔ a.Dangles ∨ b.Dangles := by
  rw [dangles_iff]
  simp [operands]

@[simp] theorem dangles_log : (log a).Dangles ↔ a.Dangles := by
  rw [dangles_iff]
  simp [operands]

@[simp] theorem dangles_danglingPow : (danglingPow a).Dangles :=
  ⟨a, .refl⟩

@[simp] theorem dangles_logWith : (logWith a b).Dangles ↔ a.Dangles ∨ b.Dangles := by
  rw [dangles_iff]
  simp [operands]

end Dangles

section DanglesInUse

theorem danglesInUse_iff :
    e.DanglesInUse ↔ (∃ base, e = .danglingPow base) ∨ ∃ a ∈ e.usedOperands, a.DanglesInUse :=
  exists_reaches_iff

@[simp] theorem not_danglesInUse_literal (c : Float) : ¬(literal c).DanglesInUse := by
  rw [danglesInUse_iff]
  simp [usedOperands, operands]

@[simp] theorem not_danglesInUse_var : ¬var.DanglesInUse := by
  rw [danglesInUse_iff]
  simp [usedOperands, operands]

@[simp] theorem danglesInUse_paren : (paren a).DanglesInUse ↔ a.DanglesInUse := by
  rw [danglesInUse_iff]
  simp [usedOperands, operands]

@[simp] theorem danglesInUse_binary :
    (binary op a b).DanglesInUse ↔ a.DanglesInUse ∨ b.DanglesInUse := by
  rw [danglesInUse_iff]
  simp [usedOperands, operands]

@[simp] theorem danglesInUse_log : (log a).DanglesInUse ↔ a.DanglesInUse := by
  rw [danglesInUse_iff]
  simp [usedOperands, operands]

@[simp] theorem danglesInUse_danglingPow : (danglingPow a).DanglesInUse :=
  ⟨a, .refl⟩

@[simp] theorem danglesInUse_logWith : (logWith a b).DanglesInUse ↔ a.DanglesInUse := by
  rw [danglesInUse_iff]
  simp [usedOperands]

end DanglesInUse

theorem usedOperands_subset (e : Expr) : e.usedOperands ⊆ e.operands := by
  cases e <;> simp [usedOperands, operands]

theorem DanglesInUse.dangles (h : e.DanglesInUse) : e.Dangles := by
  obtain ⟨base, hbase⟩ := h
  exact ⟨base, Relation.ReflTransGen.mono (fun a _ hb ↦ a.usedOperands_subset hb) _ _ hbase⟩

theorem hereditary_not_dangles : Hereditary fun e ↦ ¬e.Dangles where
  number n _ := not_dangles_literal (Binary64.ofNat n)
  paren := by simp
  binary := by simp
  log := by simp
  logWith h := fun hg ↦ h (dangles_logWith.mpr (Or.inl hg))

theorem not_dangles_of_complete (h : e.Complete) : ¬e.Dangles := by
  induction e with
  | literal | var => simp
  | paren a ih | log a ih => simpa using ih h
  | binary op a b iha ihb => simpa using ⟨iha h.1, ihb h.2⟩
  | danglingPow | logWith => exact h.elim

/-! ## Evaluation -/

/-- **Evaluation fails on a power without an exponent, wherever it stands.** -/
theorem evalIn_failsIff {α : Type} (A : Arithmetic α) (x : α) (e : Expr) :
    FailsIff (e.evalIn A x) (.missingOperand .pow) e.Dangles := by
  induction e with
  | literal | var => exact (FailsIff.ok _).congr (by simp)
  | paren a ih => exact ih.congr (by simp)
  | binary op a b iha ihb => exact (iha.bind fun _ ↦ ihb.map _).congr (by simp)
  | log a ih => exact (ih.map _).congr (by simp)
  | danglingPow a ih => exact (ih.bind fun _ ↦ .error).congr (by simp)
  | logWith a b iha ihb =>
    -- the spare operand comes first
    exact (ihb.bind fun _ ↦ iha.map _).congr (by simp [or_comm])

/-! ## Differentiation -/

/-- **Differentiation fails on a power without an exponent that stands outside spare operands.** -/
theorem derivative_failsIff (e : Expr) :
    FailsIff e.derivative (.noExponent (.binary .pow)) e.DanglesInUse := by
  induction e using derivative.induct with
  | case1 c => exact (FailsIff.ok _).congr (by simp)
  | case2 => exact (FailsIff.ok _).congr (by simp)
  | case3 g ih => exact (ih.map _).congr (by simp)
  | case4 g h ihg ihh | case5 g h ihg ihh | case6 g h ihg ihh | case7 g h ihg ihh =>
    exact (ihg.bind fun _ ↦ ihh.map _).congr (by simp)
  | case8 c h ih => exact (ih.map _).congr (by simp)
  | case9 g c hbase ih =>
    rw [derivative]
    · exact (ih.map _).congr (by simp)
    · exact hbase
  | case10 g h hbase hexponent ihg ihh =>
    rw [derivative]
    · exact (ihg.bind fun _ ↦ ihh.map _).congr (by simp)
    · exact hbase
    · exact hexponent
  | case11 g ih => exact (ih.map _).congr (by simp)
  | case12 g spare ih => exact (ih.map _).congr (by simp)
  | case13 base => exact FailsIff.error.congr (by simp)

/-- The derivative of the derivative, and so on. -/
def iteratedDerivative (e : Expr) : Nat → Except Inconsistency Expr
  | 0 => .ok e
  | n + 1 => do
    let d ← e.iteratedDerivative n
    d.derivative

theorem exists_iteratedDerivative (h : ¬e.Dangles) (n : Nat) :
    ∃ d, e.iteratedDerivative n = .ok d ∧ ¬d.Dangles := by
  induction n with
  | zero => exact ⟨e, rfl, h⟩
  | succ n ih =>
    obtain ⟨d, hd, hnot⟩ := ih
    obtain ⟨d', hd'⟩ := d.derivative_failsIff.exists_ok fun hin ↦ hnot hin.dangles
    refine ⟨d', ?_, (isDerivative_of_derivative hd').inherits hereditary_not_dangles hnot⟩
    rw [iteratedDerivative, hd]
    exact hd'

end Expr

/-! ## Lines -/

theorem Command.run_ne_inconsistent (c : Command) (cause : Inconsistency) :
    c.run ≠ .error (.inconsistent cause) := by
  cases hparse : parse {} c.expression with
  | error error => simp [run_of_parse_error hparse]
  | ok e =>
    rcases run_of_parse_ok hparse with ⟨text, hrun⟩ | ⟨input, point, hrun⟩
    · simp [hrun]
    · simp [hrun]

open CurveCalc.Expr

/-- **How far inconsistencies reach.** Evaluation fails if and only if a power without an exponent
stands in the tree, differentiation if and only if one stands outside the spare operands of
logarithms. What can be evaluated at one point can be differentiated any number of times, and all
its derivatives can be evaluated everywhere. No text is read as a tree with such a power, and no
line meets an inconsistency. -/
theorem inconsistent_iff_dangles :
    (∀ (e : Expr) (x : Float) (cause : Inconsistency),
        e.eval x = .error cause ↔ cause = .missingOperand .pow ∧ e.Dangles) ∧
      (∀ (e : Expr) (cause : Inconsistency),
        e.derivative = .error cause ↔ cause = .noExponent (.binary .pow) ∧ e.DanglesInUse) ∧
      (∀ (e : Expr) (x y : Float), e.eval x = .ok y → ∀ n, ∃ d,
        e.iteratedDerivative n = .ok d ∧ ∀ x', ∃ y', d.eval x' = .ok y') ∧
      (∀ (o : ReadOptions) (input : List Char) (e : Expr),
        parse o input = .ok e → ¬e.Dangles) ∧
      ∀ (line : List Char) (cause : Inconsistency),
        (Command.ofLine line).run ≠ .error (.inconsistent cause) := by
  have heval : ∀ (e : Expr) (x : Float), FailsIff (e.eval x) (.missingOperand .pow) e.Dangles :=
    fun e x ↦ evalIn_failsIff Arithmetic.double x e
  refine ⟨heval, derivative_failsIff, fun e x y hxy n ↦ ?_, fun o input e hparse ↦ ?_,
    fun line ↦ (Command.ofLine line).run_ne_inconsistent⟩
  · have hnot : ¬e.Dangles := by
      have hfails := heval e x
      rw [hxy] at hfails
      exact hfails.not_of_ok
    obtain ⟨d, hd, hd'⟩ := exists_iteratedDerivative hnot n
    exact ⟨d, hd, fun x' ↦ (heval d x').exists_ok hd'⟩
  · exact not_dangles_of_complete (complete_of_parse hparse)

/-- A power without an exponent in the spare operand of a logarithm stops evaluation and not
differentiation. The square of `x` can be evaluated, so it has a third derivative that can be. -/
theorem inconsistent_iff_dangles_spare :
    (logWith var (danglingPow var)).eval (Binary64.ofNat 1) = .error (.missingOperand .pow) ∧
      (∀ cause, (logWith var (danglingPow var)).derivative ≠ .error cause) ∧
      (binary .pow var (number 2)).eval (Binary64.ofNat 1) =
        .ok (Float.pow (Binary64.ofNat 1) (Binary64.ofNat 2)) ∧
      (∃ d, (binary .pow var (number 2)).iteratedDerivative 3 = .ok d ∧
        ∀ x, ∃ y, d.eval x = .ok y) ∧
      parse ⟨.legacy, some 9⟩ ['(', 'x', ')'] = .ok (paren var) ∧ ¬(paren var).Dangles := by
  obtain ⟨heval, hderivative, hiterated, hparse, -⟩ := inconsistent_iff_dangles
  have hsquare : (binary .pow var (number 2)).eval (Binary64.ofNat 1) =
      .ok (Float.pow (Binary64.ofNat 1) (Binary64.ofNat 2)) := rfl
  have hread : parse ⟨.legacy, some 9⟩ ['(', 'x', ')'] = .ok (paren var) := by cbv
  refine ⟨(heval _ _ _).mpr ⟨rfl, by simp⟩, fun cause hcause ↦ ?_, hsquare,
    hiterated _ _ _ hsquare 3, hread, hparse _ _ _ hread⟩
  have hin := ((hderivative _ _).mp hcause).2
  simp at hin

end CurveCalc
