import CurveCalc.Proofs.RealDerivative

/-!
# Parentheses in evaluation and in differentiation

`Expr.bare` is an expression without its parentheses. They do not count in evaluation: in every
arithmetic an expression and its bare form have the same value. In differentiation they count at one
place. The rule for a power is chosen by the shape of base and exponent, and a number in parentheses
is not a literal node, so `2 ^ x` falls under the rule for a literal base and `(2) ^ x` under the
general one, which gives another function. `PlainPowers` rules such powers out, and that is exactly
when the bare form of the derivative is the derivative of the bare form.
-/

namespace CurveCalc

namespace Expr

/-! ## Bare expressions -/

/-- The expression without its parentheses. -/
def bare : Expr → Expr
  | .literal v => .literal v
  | .var => .var
  | .paren e => e.bare
  | .binary op a b => .binary op a.bare b.bare
  | .log a => .log a.bare
  | .danglingPow a => .danglingPow a.bare
  | .logWith a b => .logWith a.bare b.bare

theorem Complete.bare {e : Expr} (h : e.Complete) : e.bare.Complete := by
  induction e with
  | literal v => trivial
  | var => trivial
  | paren e ih | log e ih => exact ih h
  | binary op a b iha ihb => exact ⟨iha h.1, ihb h.2⟩
  | danglingPow a _ => exact h.elim
  | logWith a b _ _ => exact h.elim

/-- **Parentheses do not count in evaluation**, in any arithmetic, and not for what goes wrong
either. -/
theorem evalIn_bare {α : Type} (A : Arithmetic α) (x : α) (e : Expr) :
    e.bare.evalIn A x = e.evalIn A x := by
  induction e with
  | literal v => rfl
  | var => rfl
  | paren e ih => exact ih
  | binary op a b iha ihb | logWith a b iha ihb => rw [bare, evalIn, iha, ihb, evalIn]
  | log a ih | danglingPow a ih => rw [bare, evalIn, ih, evalIn]

/-! ## Numbers in parentheses -/

def isLiteral : Expr → Bool
  | .literal _ => true
  | _ => false

/-- Whether an expression is a literal with at least one pair of parentheses around it. -/
def wrapsLiteral (e : Expr) : Bool := e.isParen && e.bare.isLiteral

/-- An expression in which no base of a power is a number in parentheses, and no exponent is one
unless the base is a literal. -/
def PlainPowers : Expr → Prop
  | .literal _ | .var => True
  | .paren e | .log e | .danglingPow e | .logWith e _ => e.PlainPowers
  | .binary .pow g h =>
    g.PlainPowers ∧ h.PlainPowers ∧ g.wrapsLiteral = false ∧
      (g.isLiteral = true ∨ h.wrapsLiteral = false)
  | .binary _ a b => a.PlainPowers ∧ b.PlainPowers

@[simp] theorem isLiteral_literal (c : Float) : (literal c).isLiteral = true := rfl

@[simp] theorem wrapsLiteral_literal (c : Float) : (literal c).wrapsLiteral = false := rfl

theorem isLiteral_eq_false_iff {e : Expr} : e.isLiteral = false ↔ ∀ c, e ≠ literal c := by
  cases e <;> simp [isLiteral]

/-- Only parentheses can keep an expression whose bare form is a literal from being one. -/
theorem wrapsLiteral_eq_false_iff {e : Expr} (h : ∀ c, e ≠ literal c) :
    e.wrapsLiteral = false ↔ ∀ c, e.bare ≠ literal c := by
  rw [← isLiteral_eq_false_iff]
  cases e with
  | literal c => exact absurd rfl (h c)
  | paren e => rfl
  | var | binary | log | danglingPow | logWith => simp [wrapsLiteral, isParen, bare, isLiteral]

theorem plainPowers_pow {g h : Expr} :
    (binary .pow g h).PlainPowers ↔ g.PlainPowers ∧ h.PlainPowers ∧ g.wrapsLiteral = false ∧
      (g.isLiteral = true ∨ h.wrapsLiteral = false) := Iff.rfl

/-! ## Derivatives of bare expressions -/

/-- The three rules for a power, and when each applies. -/
theorem isDerivative_pow_cases {g h d : Expr} (hd : IsDerivative (binary .pow g h) d) :
    (∃ c h', g = literal c ∧ IsDerivative h h' ∧ d = literalBaseRule c h h') ∨
      (∃ c g', h = literal c ∧ (∀ b, g ≠ literal b) ∧ IsDerivative g g' ∧
        d = literalExponentRule g c g') ∨
      ∃ g' h', (∀ b, g ≠ literal b) ∧ (∀ c, h ≠ literal c) ∧ IsDerivative g g' ∧
        IsDerivative h h' ∧ d = powerRule g h g' h' := by
  cases hd with
  | literalBase c hh => exact Or.inl ⟨c, _, rfl, hh, rfl⟩
  | literalExponent c hbase hg => exact Or.inr (Or.inl ⟨c, _, rfl, hbase, hg, rfl⟩)
  | power hbase hexponent hg hh =>
    exact Or.inr (Or.inr ⟨_, _, hbase, hexponent, hg, hh, rfl⟩)

theorem IsDerivative.bare_eq_iff {f f' d : Expr} (hf : IsDerivative f f')
    (hd : IsDerivative f.bare d) : f'.bare = d ↔ f.PlainPowers := by
  induction hf generalizing d with
  | literal c =>
    cases hd
    exact ⟨fun _ ↦ trivial, fun _ ↦ rfl⟩
  | var =>
    cases hd
    exact ⟨fun _ ↦ trivial, fun _ ↦ rfl⟩
  | paren _ ih => exact ih hd
  | add _ _ ihg ihh =>
    cases hd with
    | add hg hh => simp [bare, PlainPowers, ihg hg, ihh hh]
  | sub _ _ ihg ihh =>
    cases hd with
    | sub hg hh => simp [bare, PlainPowers, ihg hg, ihh hh]
  | product _ _ ihg ihh =>
    cases hd with
    | product hg hh => simp [productRule, bare, PlainPowers, ihg hg, ihh hh]
  | quotient _ _ ihg ihh =>
    cases hd with
    | quotient hg hh => simp [quotientRule, number, bare, PlainPowers, ihg hg, ihh hh]
  | log _ ih =>
    cases hd with
    | log hg => simp [logRule, bare, PlainPowers, ih hg]
  | logWith spare _ ih =>
    cases hd with
    | logWith _ hg => simp [logRule, bare, PlainPowers, ih hg]
  -- at a power, either the same rule applies to both, or the results differ at the root
  | literalBase c _ ih =>
    rw [plainPowers_pow]
    obtain ⟨_, h', hc, hh, rfl⟩ | ⟨_, _, _, hbase, _⟩ | ⟨_, _, hbase, _⟩ :=
      isDerivative_pow_cases hd
    · obtain rfl := Expr.literal.inj hc
      simp [literalBaseRule, bare, PlainPowers, ih hh]
    · exact absurd rfl (hbase c)
    · exact absurd rfl (hbase c)
  | literalExponent c hbase _ ih =>
    rw [plainPowers_pow, wrapsLiteral_eq_false_iff hbase]
    obtain ⟨b, _, hb, _, rfl⟩ | ⟨_, g', hc, hbare, hg, rfl⟩ | ⟨_, _, _, hexponent, _⟩ :=
      isDerivative_pow_cases hd
    · simp [literalExponentRule, literalBaseRule, bare, hb]
    · obtain rfl := Expr.literal.inj hc
      simp [literalExponentRule, number, bare, PlainPowers, hbare, ih hg]
    · exact absurd rfl (hexponent c)
  | power hbase hexponent _ _ ihg ihh =>
    rw [plainPowers_pow, wrapsLiteral_eq_false_iff hbase, wrapsLiteral_eq_false_iff hexponent,
      isLiteral_eq_false_iff.mpr hbase]
    obtain ⟨b, _, hb, _, rfl⟩ | ⟨c, _, hc, _, _, rfl⟩ | ⟨g', h', hbare, hbare', hg, hh, rfl⟩ :=
      isDerivative_pow_cases hd
    · simp [powerRule, literalBaseRule, bare, hb]
    · simp [powerRule, literalExponentRule, bare, hc]
    · simp [powerRule, bare, hbare, hbare', ihg hg, ihh hh, and_comm]

/-- **Parentheses count in differentiation only around numbers in powers.** A complete expression
and its bare form have derivatives, and these agree, parentheses aside, if and only if the powers
are plain. -/
theorem bare_derivative_eq_iff {f : Expr} (h : f.Complete) :
    ∃ f' d, f.derivative = .ok f' ∧ f.bare.derivative = .ok d ∧ (f'.bare = d ↔ f.PlainPowers) := by
  obtain ⟨f', hf⟩ := exists_isDerivative h
  obtain ⟨d, hd⟩ := exists_isDerivative h.bare
  exact ⟨f', d, hf.derivative_eq, hd.derivative_eq, hf.bare_eq_iff hd⟩

/-- The power of `(x)` with exponent `2` is plain: parentheses around what is no number do not
matter. -/
theorem bare_derivative_eq_iff_square :
    (binary .pow (paren var) (number 2)).Complete ∧
      ∃ f', (binary .pow (paren var) (number 2)).derivative = .ok f' ∧
        (binary .pow var (number 2)).derivative = .ok f'.bare := by
  have hcomplete : (binary .pow (paren var) (number 2)).Complete := ⟨trivial, trivial⟩
  obtain ⟨f', d, hf, hd, hiff⟩ := bare_derivative_eq_iff hcomplete
  refine ⟨hcomplete, f', hf, ?_⟩
  rw [hiff.mpr ⟨trivial, trivial, rfl, Or.inr rfl⟩]
  exact hd

/-- The derivative of `(2) ^ x` is not that of `2 ^ x` with parentheses in it. -/
theorem not_forall_bare_derivative :
    ¬∀ f : Expr, f.Complete → ∃ f', f.derivative = .ok f' ∧ f.bare.derivative = .ok f'.bare := by
  intro hall
  obtain ⟨f', hf, hd⟩ := hall (binary .pow (paren (number 2)) var) ⟨trivial, trivial⟩
  have hplain :=
    ((isDerivative_of_derivative hf).bare_eq_iff (isDerivative_of_derivative hd)).mp rfl
  exact absurd hplain.2.2.1 (by decide)

end Expr

end CurveCalc
