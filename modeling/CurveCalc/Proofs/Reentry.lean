import CurveCalc.Proofs.Commands
import CurveCalc.Proofs.Parentheses
import CurveCalc.Proofs.RoundTrip

/-!
# Expressions that are written and entered again

Writing an expression takes parentheses that the tree does not have, and the tree that is read back
has them. They do not count in evaluation. In differentiation parentheses do count where they stand
around a number in a power, since the rule for a power goes by whether its operands are literals.
But writing never puts any there: a literal binds more tightly than every operator, so it is wrapped
in no power, and parentheses around a number in a power that were there before stay where they are
(`parenIf_parenthesised_ne_literal`). So at every power the same rule applies before and after, and
the two derivatives differ in parentheses only.
-/

namespace CurveCalc

namespace Expr

variable {e f f' g g' : Expr}

/-! ## Parentheses that writing adds -/

@[simp] theorem bare_parenIf (wrap : Bool) (e : Expr) : (parenIf wrap e).bare = e.bare := by
  cases wrap <;> rfl

@[simp] theorem bare_parenthesised (e : Expr) : e.parenthesised.bare = e.bare := by
  induction e with
  | literal | var => rfl
  | paren e ih => exact ih
  | binary op a b iha ihb => simp [parenthesised, bare, iha, ihb]
  | log a ih | danglingPow a ih => simp [parenthesised, bare, ih]
  | logWith a b ih _ => simp [parenthesised, bare, ih]

theorem evalIn_eq_of_bare_eq {α : Type} (A : Arithmetic α) (x : α) (h : e.bare = f.bare) :
    e.evalIn A x = f.evalIn A x := by
  rw [← evalIn_bare, h, evalIn_bare]

/-- What is no literal does not become one. -/
theorem parenIf_parenthesised_ne_literal (wrap : Bool) (h : ∀ c, g ≠ literal c) (c : Float) :
    parenIf wrap g.parenthesised ≠ literal c := by
  cases wrap with
  | true => exact fun hc ↦ Expr.noConfusion hc
  | false =>
    cases g with
    | literal v => exact absurd rfl (h v)
    | var | paren | binary | log | danglingPow | logWith => exact fun hc ↦ Expr.noConfusion hc

/-! ## Derivatives -/

theorem IsDerivative.parenIf (h : IsDerivative g g') (wrap : Bool) :
    IsDerivative (parenIf wrap g) (parenIf wrap g') := by
  cases wrap with
  | true => exact .paren h
  | false => exact h

/-- **The parentheses that writing adds leave the derivative as it is**, parentheses aside. -/
theorem IsDerivative.exists_parenthesised (h : IsDerivative f f') :
    ∃ d, IsDerivative f.parenthesised d ∧ d.bare = f'.bare := by
  induction h with
  | literal c => exact ⟨_, .literal c, rfl⟩
  | var => exact ⟨_, .var, rfl⟩
  | paren _ ih =>
    obtain ⟨d, hd, hbare⟩ := ih
    exact ⟨_, .paren hd, hbare⟩
  | add _ _ ihg ihh =>
    obtain ⟨dg, hg, hgbare⟩ := ihg
    obtain ⟨dh, hh, hhbare⟩ := ihh
    exact ⟨_, .add (hg.parenIf _) (hh.parenIf _), by simp [bare, hgbare, hhbare]⟩
  | sub _ _ ihg ihh =>
    obtain ⟨dg, hg, hgbare⟩ := ihg
    obtain ⟨dh, hh, hhbare⟩ := ihh
    exact ⟨_, .sub (hg.parenIf _) (hh.parenIf _), by simp [bare, hgbare, hhbare]⟩
  | product _ _ ihg ihh =>
    obtain ⟨dg, hg, hgbare⟩ := ihg
    obtain ⟨dh, hh, hhbare⟩ := ihh
    exact ⟨_, .product (hg.parenIf _) (hh.parenIf _), by simp [productRule, bare, hgbare, hhbare]⟩
  | quotient _ _ ihg ihh =>
    obtain ⟨dg, hg, hgbare⟩ := ihg
    obtain ⟨dh, hh, hhbare⟩ := ihh
    exact ⟨_, .quotient (hg.parenIf _) (hh.parenIf _), by simp [quotientRule, bare, hgbare, hhbare]⟩
  | literalBase c _ ih =>
    obtain ⟨d, hd, hbare⟩ := ih
    exact ⟨_, .literalBase c (hd.parenIf _), by simp [literalBaseRule, bare, hbare]⟩
  -- parentheses do not make a literal of what was none, so the same rule applies to a power
  | literalExponent c hbase _ ih =>
    obtain ⟨d, hd, hbare⟩ := ih
    exact ⟨_, .literalExponent c (parenIf_parenthesised_ne_literal _ hbase) (hd.parenIf _),
      by simp [literalExponentRule, bare, hbare]⟩
  | power hbase hexponent _ _ ihg ihh =>
    obtain ⟨dg, hg, hgbare⟩ := ihg
    obtain ⟨dh, hh, hhbare⟩ := ihh
    exact ⟨_, .power (parenIf_parenthesised_ne_literal _ hbase)
      (parenIf_parenthesised_ne_literal _ hexponent) (hg.parenIf _) (hh.parenIf _),
      by simp [powerRule, bare, hgbare, hhbare]⟩
  | log _ ih =>
    obtain ⟨d, hd, hbare⟩ := ih
    exact ⟨_, .log (hd.parenIf _), by simp [logRule, bare, hbare]⟩
  | logWith spare _ ih =>
    obtain ⟨d, hd, hbare⟩ := ih
    exact ⟨_, .logWith spare (hd.parenIf _), by simp [logRule, bare, hbare]⟩

/-! ## Entering the text again -/

theorem parse_written_eq (h : e.Complete) : parse {} e.written = .ok e.parenthesised := by
  rw [parse_canonical_eq_ok_iff_reads, Grammar.dropSpaces_of_not_mem e.space_not_mem_written]
  exact (reads_written h).climb _ (Grammar.Level.height_le _)

/-- The text of the expression is read, as an expression that differs from it in parentheses only.
Both have derivatives, which differ in parentheses only. So neither the values nor those of the
derivative change. -/
def KeptByWriting (e : Expr) : Prop :=
  ∃ e' d d', parse {} e.written = .ok e' ∧ e.derivative = .ok d ∧ e'.derivative = .ok d' ∧
    e'.bare = e.bare ∧ d'.bare = d.bare ∧
    ∀ x, e'.eval x = e.eval x ∧ d'.eval x = d.eval x

theorem Complete.keptByWriting (h : e.Complete) : e.KeptByWriting := by
  obtain ⟨d, hd⟩ := exists_isDerivative h
  obtain ⟨d', hd', hbare⟩ := hd.exists_parenthesised
  exact ⟨_, d, d', parse_written_eq h, hd.derivative_eq, hd'.derivative_eq, bare_parenthesised e,
    hbare, fun x ↦ ⟨evalIn_eq_of_bare_eq _ x (bare_parenthesised e),
      evalIn_eq_of_bare_eq _ x hbare⟩⟩

/-- **Writing an expression and entering it again keeps it and its derivative**, and so all their
values: for every complete expression, and for whatever any grammar reads, the legacy grammar among
them. -/
theorem forall_keptByWriting :
    (∀ e : Expr, e.Complete → e.KeptByWriting) ∧
      ∀ (o : ReadOptions) (input : List Char) (e : Expr),
        parse o input = .ok e → e.KeptByWriting :=
  ⟨fun _ ↦ Complete.keptByWriting, fun _ _ _ h ↦ (complete_of_parse h).keptByWriting⟩

/-- The base of `(2) ^ x` is kept from becoming a literal. To the legacy grammar `x - x * x` is a
product, which is written with parentheses. -/
theorem forall_keptByWriting_power :
    (binary .pow (paren (number 2)) var).Complete ∧
      (binary .pow (paren (number 2)) var).KeptByWriting ∧
      parse ⟨.legacy, none⟩ ['x', '-', 'x', '*', 'x'] =
        .ok (binary .mul (binary .sub var var) var) ∧
      (binary .mul (binary .sub var var) var).written = ['(', 'x', '-', 'x', ')', '*', 'x'] ∧
      (binary .mul (binary .sub var var) var).KeptByWriting := by
  have hcomplete : (binary .pow (paren (number 2)) var).Complete := ⟨trivial, trivial⟩
  have hread : parse ⟨.legacy, none⟩ ['x', '-', 'x', '*', 'x'] =
      .ok (binary .mul (binary .sub var var) var) := by cbv
  exact ⟨hcomplete, forall_keptByWriting.1 _ hcomplete, hread, rfl,
    forall_keptByWriting.2 _ _ _ hread⟩

end Expr

end CurveCalc
