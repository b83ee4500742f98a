import CurveCalc.Proofs.RealValue

/-!
# The derivative is the derivative

Over the real numbers the tree that `Expr.derivative` builds has the value of the true derivative of
the function that the expression denotes, wherever the expression is *regular*. Each rule of
differentiation is first proved for the trees it is applied to; the theorem then follows the clauses
of `derivative`. The rules for powers are chosen by the shape of base and exponent, and so are the
conditions: a literal exponent that is a positive integer allows any base, and the general rule asks
for an exponent whose derivative vanishes at the point.
-/

namespace CurveCalc

namespace Expr

/-! ## The table of rules -/

/-- The table of rules as a relation: one constructor for each clause of `derivative`. -/
inductive IsDerivative : Expr → Expr → Prop
  | literal (c : Float) : IsDerivative (literal c) (number 0)
  | var : IsDerivative var (number 1)
  | paren {g g' : Expr} (hg : IsDerivative g g') : IsDerivative (paren g) (paren g')
  | add {g h g' h' : Expr} (hg : IsDerivative g g') (hh : IsDerivative h h') :
    IsDerivative (binary .add g h) (binary .add g' h')
  | sub {g h g' h' : Expr} (hg : IsDerivative g g') (hh : IsDerivative h h') :
    IsDerivative (binary .sub g h) (binary .sub g' h')
  | product {g h g' h' : Expr} (hg : IsDerivative g g') (hh : IsDerivative h h') :
    IsDerivative (binary .mul g h) (productRule g h g' h')
  | quotient {g h g' h' : Expr} (hg : IsDerivative g g') (hh : IsDerivative h h') :
    IsDerivative (binary .div g h) (quotientRule g h g' h')
  | literalBase (c : Float) {h h' : Expr} (hh : IsDerivative h h') :
    IsDerivative (binary .pow (literal c) h) (literalBaseRule c h h')
  | literalExponent (c : Float) {g g' : Expr} (hbase : ∀ b, g ≠ literal b)
    (hg : IsDerivative g g') :
    IsDerivative (binary .pow g (literal c)) (literalExponentRule g c g')
  | power {g h g' h' : Expr} (hbase : ∀ b, g ≠ literal b) (hexponent : ∀ c, h ≠ literal c)
    (hg : IsDerivative g g') (hh : IsDerivative h h') :
    IsDerivative (binary .pow g h) (powerRule g h g' h')
  | log {g g' : Expr} (hg : IsDerivative g g') : IsDerivative (log g) (logRule g g')
  | logWith {g g' : Expr} (spare : Expr) (hg : IsDerivative g g') :
    IsDerivative (logWith g spare) (logRule g g')

private theorem bind_eq_ok {ε α β : Type} {r : Except ε α} {k : α → Except ε β} {b : β} :
    (r >>= k) = .ok b ↔ ∃ a, r = .ok a ∧ k a = .ok b := by
  cases r with
  | error e => exact ⟨fun h ↦ absurd h (by simp [bind, Except.bind]), by rintro ⟨a, ⟨⟩, -⟩⟩
  | ok a =>
    constructor
    · intro h
      exact ⟨a, rfl, h⟩
    · rintro ⟨a', ha, h⟩
      obtain rfl := Except.ok.inj ha
      exact h

theorem IsDerivative.derivative_eq {f f' : Expr} (h : IsDerivative f f') :
    f.derivative = .ok f' := by
  induction h with
  | literal c => rfl
  | var => rfl
  | paren _ ih | log _ ih | logWith _ _ ih =>
    rw [derivative, ih]
    rfl
  | add _ _ ihg ihh | sub _ _ ihg ihh | product _ _ ihg ihh | quotient _ _ ihg ihh =>
    rw [derivative, ihg, ihh]
    rfl
  | literalBase c _ ih =>
    rw [derivative, ih]
    rfl
  | literalExponent c hbase _ ih =>
    rw [derivative, ih]
    · rfl
    · exact hbase
  | power hbase hexponent _ _ ihg ihh =>
    rw [derivative, ihg, ihh]
    · rfl
    · exact hbase
    · exact hexponent

theorem isDerivative_of_derivative {f f' : Expr} (h : f.derivative = .ok f') :
    IsDerivative f f' := by
  induction f using derivative.induct generalizing f' with
  | case1 c =>
    obtain rfl := Except.ok.inj h
    exact .literal c
  | case2 =>
    obtain rfl := Except.ok.inj h
    exact .var
  | case3 g ih =>
    obtain ⟨g', hg, h⟩ := bind_eq_ok.mp h
    obtain rfl := Except.ok.inj h
    exact .paren (ih hg)
  | case4 g h ihg ihh | case5 g h ihg ihh | case6 g h ihg ihh | case7 g h ihg ihh =>
    obtain ⟨g', hg, hrest⟩ := bind_eq_ok.mp h
    obtain ⟨h', hh, hrest⟩ := bind_eq_ok.mp hrest
    obtain rfl := Except.ok.inj hrest
    constructor
    · exact ihg hg
    · exact ihh hh
  | case8 c h ih =>
    obtain ⟨h', hh, hrest⟩ := bind_eq_ok.mp h
    obtain rfl := Except.ok.inj hrest
    exact .literalBase c (ih hh)
  | case9 g c hbase ih =>
    rw [derivative] at h
    · obtain ⟨g', hg, hrest⟩ := bind_eq_ok.mp h
      obtain rfl := Except.ok.inj hrest
      exact .literalExponent c hbase (ih hg)
    · exact hbase
  | case10 g h hbase hexponent ihg ihh =>
    rw [derivative] at h
    · obtain ⟨g', hg, hrest⟩ := bind_eq_ok.mp h
      obtain ⟨h', hh, hrest⟩ := bind_eq_ok.mp hrest
      obtain rfl := Except.ok.inj hrest
      exact .power hbase hexponent (ihg hg) (ihh hh)
    · exact hbase
    · exact hexponent
  | case11 g ih =>
    obtain ⟨g', hg, hrest⟩ := bind_eq_ok.mp h
    obtain rfl := Except.ok.inj hrest
    exact .log (ih hg)
  | case12 g spare ih =>
    obtain ⟨g', hg, hrest⟩ := bind_eq_ok.mp h
    obtain rfl := Except.ok.inj hrest
    exact .logWith spare (ih hg)
  | case13 => exact absurd h (by simp [derivative])

theorem derivative_eq_ok_iff {f f' : Expr} : f.derivative = .ok f' ↔ IsDerivative f f' :=
  ⟨isDerivative_of_derivative, IsDerivative.derivative_eq⟩

theorem exists_isDerivative {f : Expr} (h : f.Complete) : ∃ f', IsDerivative f f' := by
  induction f with
  | literal c => exact ⟨_, .literal c⟩
  | var => exact ⟨_, .var⟩
  | paren g ih =>
    obtain ⟨g', hg⟩ := ih h
    exact ⟨_, .paren hg⟩
  | binary op a b iha ihb =>
    obtain ⟨a', hg⟩ := iha h.1
    obtain ⟨b', hh⟩ := ihb h.2
    cases op with
    | add => exact ⟨_, .add hg hh⟩
    | sub => exact ⟨_, .sub hg hh⟩
    | mul => exact ⟨_, .product hg hh⟩
    | div => exact ⟨_, .quotient hg hh⟩
    | pow =>
      by_cases hbase : ∃ c, a = literal c
      · obtain ⟨c, rfl⟩ := hbase
        exact ⟨_, .literalBase c hh⟩
      · by_cases hexponent : ∃ c, b = literal c
        · obtain ⟨c, rfl⟩ := hexponent
          exact ⟨_, .literalExponent c (not_exists.mp hbase) hg⟩
        · exact ⟨_, .power (not_exists.mp hbase) (not_exists.mp hexponent) hg hh⟩
  | log g ih =>
    obtain ⟨g', hg⟩ := ih h
    exact ⟨_, .log hg⟩
  | danglingPow g _ => exact h.elim
  | logWith g spare _ _ => exact h.elim

/-! ## What derivatives inherit -/

/-- A property of trees that goes by their leaves: a node has it exactly if its operands have it,
and the numbers that the rules bring in have it. -/
structure Hereditary (P : Expr → Prop) : Prop where
  number : ∀ n < 3, P (number n)
  paren : ∀ {g : Expr}, P (paren g) ↔ P g
  binary : ∀ {op : BinaryOp} {g h : Expr}, P (binary op g h) ↔ P g ∧ P h
  log : ∀ {g : Expr}, P (log g) ↔ P g
  logWith : ∀ {g spare : Expr}, P (logWith g spare) → P g

/-- A derivative is put together from subtrees of the expression, their derivatives and numbers. -/
theorem IsDerivative.inherits {P : Expr → Prop} (hP : Hereditary P) {f f' : Expr}
    (hd : IsDerivative f f') (h : P f) : P f' := by
  induction hd with
  | literal c => exact hP.number 0 (by decide)
  | var => exact hP.number 1 (by decide)
  | paren _ ih => exact hP.paren.mpr (ih (hP.paren.mp h))
  | add _ _ ihg ihh | sub _ _ ihg ihh =>
    obtain ⟨hg, hh⟩ := hP.binary.mp h
    exact hP.binary.mpr ⟨ihg hg, ihh hh⟩
  | product _ _ ihg ihh =>
    obtain ⟨hg, hh⟩ := hP.binary.mp h
    simp only [productRule, hP.binary]
    exact ⟨⟨ihg hg, hh⟩, hg, ihh hh⟩
  | quotient _ _ ihg ihh =>
    obtain ⟨hg, hh⟩ := hP.binary.mp h
    simp only [quotientRule, hP.binary]
    exact ⟨⟨ihg hg, hh⟩, ⟨hg, ihh hh⟩, hh, hP.number 2 (by decide)⟩
  | literalBase c _ ih =>
    obtain ⟨hc, hh⟩ := hP.binary.mp h
    simp only [literalBaseRule, hP.binary, hP.log]
    exact ⟨⟨hc, hc, hh⟩, ih hh⟩
  | literalExponent c _ _ ih =>
    obtain ⟨hg, hc⟩ := hP.binary.mp h
    simp only [literalExponentRule, hP.binary]
    exact ⟨⟨hc, hg, hc, hP.number 1 (by decide)⟩, ih hg⟩
  | power _ _ _ _ ihg ihh =>
    obtain ⟨hg, hh⟩ := hP.binary.mp h
    simp only [powerRule, hP.binary]
    exact ⟨⟨hg, hh⟩, ⟨ihh hh, hg⟩, ⟨ihg hg, hh⟩, hg⟩
  | log _ ih =>
    have hg := hP.log.mp h
    exact hP.binary.mpr ⟨ih hg, hg⟩
  | logWith _ _ ih =>
    have hg := hP.logWith h
    exact hP.binary.mpr ⟨ih hg, hg⟩

theorem hereditary_complete : Hereditary Complete where
  number _ _ := trivial
  paren := Iff.rfl
  binary := Iff.rfl
  log := Iff.rfl
  logWith h := h.elim

theorem hereditary_finiteLiterals : Hereditary FiniteLiterals where
  number _ hn := Binary64.isFinite_ofNat (Nat.lt_trans hn (by decide))
  paren := Iff.rfl
  binary := Iff.rfl
  log := Iff.rfl
  logWith h := h.1

section Inherited

variable {f f' : Expr}

theorem IsDerivative.complete (hd : IsDerivative f f') (h : f.Complete) : f'.Complete :=
  hd.inherits hereditary_complete h

/-- The numbers that a derivative brings in are finite, so it can be read over the real numbers if
the expression can. -/
theorem IsDerivative.finiteLiterals (hd : IsDerivative f f') (h : f.FiniteLiterals) :
    f'.FiniteLiterals :=
  hd.inherits hereditary_finiteLiterals h

end Inherited

/-! ## Where an expression is regular -/

/-- An expression all of whose operations can be differentiated at a point by the rules. -/
def RegularAt (x : ℝ) : Expr → Prop
  | .literal _ | .var => True
  | .paren g | .danglingPow g => g.RegularAt x
  | .binary .add g h | .binary .sub g h | .binary .mul g h => g.RegularAt x ∧ h.RegularAt x
  | .binary .div g h => g.RegularAt x ∧ h.RegularAt x ∧ h.realValue x ≠ 0
  | .binary .pow (.literal c) h => h.RegularAt x ∧ 0 < Binary64.toReal c
  | .binary .pow g (.literal c) =>
    g.RegularAt x ∧ (0 < g.realValue x ∨ ∃ n : ℕ, 1 ≤ n ∧ Binary64.toReal c = n)
  | .binary .pow g h =>
    g.RegularAt x ∧ h.RegularAt x ∧ 0 < g.realValue x ∧
      ∃ h', h.derivative = .ok h' ∧ h'.realValue x = 0
  | .log g | .logWith g _ => g.RegularAt x ∧ 0 < g.realValue x

/-! ## The rules one by one -/

section Rules

variable {g h g' h' : Expr} {c : Float} {x : ℝ}

theorem hasDerivAt_productRule (hg : HasDerivAt g.realValue (g'.realValue x) x)
    (hh : HasDerivAt h.realValue (h'.realValue x) x) :
    HasDerivAt (binary .mul g h).realValue ((productRule g h g' h').realValue x) x :=
  hg.mul hh

theorem hasDerivAt_quotientRule (hg : HasDerivAt g.realValue (g'.realValue x) x)
    (hh : HasDerivAt h.realValue (h'.realValue x) x) (hne : h.realValue x ≠ 0) :
    HasDerivAt (binary .div g h).realValue ((quotientRule g h g' h').realValue x) x := by
  refine (hg.div hh hne).congr_deriv ?_
  have htwo : (number 2).realValue x = 2 := by
    rw [realValue_number (by norm_num), Nat.cast_two]
  simp only [quotientRule, realValue_sub, realValue_div, realValue_mul, realValue_pow, htwo,
    Real.rpow_two]
  field_simp

theorem hasDerivAt_logRule (hg : HasDerivAt g.realValue (g'.realValue x) x)
    (hpos : 0 < g.realValue x) :
    HasDerivAt (log g).realValue ((logRule g g').realValue x) x :=
  hg.log hpos.ne'

theorem hasDerivAt_literalBaseRule (hh : HasDerivAt h.realValue (h'.realValue x) x)
    (hpos : 0 < Binary64.toReal c) :
    HasDerivAt (binary .pow (literal c) h).realValue ((literalBaseRule c h h').realValue x) x := by
  have hbase := hasDerivAt_const x (Binary64.toReal c)
  -- the base is constant, so one of the two terms for a power vanishes
  refine (hbase.rpow hh hpos).congr_deriv ?_
  simp only [literalBaseRule, realValue_mul, realValue_log, realValue_pow, realValue_literal]
  ring

theorem hasDerivAt_literalExponentRule (hg : HasDerivAt g.realValue (g'.realValue x) x)
    (hc : 0 < g.realValue x ∨ ∃ n : ℕ, 1 ≤ n ∧ Binary64.toReal c = n) :
    HasDerivAt (binary .pow g (literal c)).realValue
      ((literalExponentRule g c g').realValue x) x := by
  have hrpow : g.realValue x ≠ 0 ∨ 1 ≤ Binary64.toReal c := by
    rcases hc with hpos | ⟨n, hn, hcn⟩
    · exact Or.inl hpos.ne'
    · right
      rw [hcn]
      exact_mod_cast hn
  refine (hg.rpow_const hrpow).congr_deriv ?_
  have hone : (number 1).realValue x = 1 := by
    rw [realValue_number (by norm_num), Nat.cast_one]
  simp only [literalExponentRule, realValue_mul, realValue_pow, realValue_sub, realValue_literal,
    hone]
  ring

theorem hasDerivAt_powerRule (hg : HasDerivAt g.realValue (g'.realValue x) x)
    (hh : HasDerivAt h.realValue (h'.realValue x) x) (hpos : 0 < g.realValue x)
    (hzero : h'.realValue x = 0) :
    HasDerivAt (binary .pow g h).realValue ((powerRule g h g' h').realValue x) x := by
  -- the rule has no logarithm of the base; with `h' = 0` there is none to miss
  refine (hg.rpow hh hpos).congr_deriv ?_
  simp only [powerRule, realValue_mul, realValue_pow, realValue_add, realValue_div, hzero,
    Real.rpow_sub_one hpos.ne']
  field_simp
  ring

end Rules

theorem IsDerivative.hasDerivAt {f f' : Expr} (hd : IsDerivative f f') {x : ℝ}
    (hreg : f.RegularAt x) : HasDerivAt f.realValue (f'.realValue x) x := by
  induction hd with
  | literal c =>
    have hzero : (number 0).realValue x = 0 := by
      rw [realValue_number (by norm_num), Nat.cast_zero]
    rw [hzero]
    exact hasDerivAt_const x (Binary64.toReal c)
  | var =>
    have hone : (number 1).realValue x = 1 := by
      rw [realValue_number (by norm_num), Nat.cast_one]
    rw [hone]
    exact hasDerivAt_id x
  | paren _ ih => exact ih hreg
  | add _ _ ihg ihh => exact (ihg hreg.1).add (ihh hreg.2)
  | sub _ _ ihg ihh => exact (ihg hreg.1).sub (ihh hreg.2)
  | product _ _ ihg ihh => exact hasDerivAt_productRule (ihg hreg.1) (ihh hreg.2)
  | quotient _ _ ihg ihh =>
    exact hasDerivAt_quotientRule (ihg hreg.1) (ihh hreg.2.1) hreg.2.2
  | literalBase c _ ih => exact hasDerivAt_literalBaseRule (ih hreg.1) hreg.2
  | literalExponent c hbase _ ih =>
    rw [RegularAt] at hreg
    · exact hasDerivAt_literalExponentRule (ih hreg.1) hreg.2
    · exact hbase
  | power hbase hexponent _ hh ihg ihh =>
    rw [RegularAt] at hreg
    · obtain ⟨hg, hh', hpos, h'', hderiv, hzero⟩ := hreg
      rw [hh.derivative_eq] at hderiv
      obtain rfl := Except.ok.inj hderiv
      exact hasDerivAt_powerRule (ihg hg) (ihh hh') hpos hzero
    · exact hbase
    · exact hexponent
  | log _ ih => exact hasDerivAt_logRule (ih hreg.1) hreg.2
  | logWith _ _ ih => exact hasDerivAt_logRule (ih hreg.1) hreg.2

/-- **The derivative tree is the derivative.** A complete expression with finite literals has a
derivative tree, and at a point where the expression is regular the value of that tree is the
derivative of the function that the expression denotes. -/
theorem hasDerivAt_derivative {f : Expr} (hcomplete : f.Complete) (hfinite : f.FiniteLiterals)
    {x : ℝ} (hreg : f.RegularAt x) :
    ∃ f', f.derivative = .ok f' ∧ f'.FiniteLiterals ∧
      f'.evalIn Arithmetic.real x = .ok (f'.realValue x) ∧
      (∀ t, f.evalIn Arithmetic.real t = .ok (f.realValue t)) ∧
      HasDerivAt f.realValue (f'.realValue x) x := by
  obtain ⟨f', hd⟩ := exists_isDerivative hcomplete
  exact ⟨f', hd.derivative_eq, hd.finiteLiterals hfinite,
    evalIn_eq_ok Arithmetic.real x (hd.complete hcomplete),
    fun t ↦ evalIn_eq_ok Arithmetic.real t hcomplete, hd.hasDerivAt hreg⟩

/-- The square of `x - 3` at `1`: the base is negative there, and the exponent a positive
integer. -/
theorem hasDerivAt_derivative_square :
    (binary .pow (binary .sub var (number 3)) (number 2)).Complete ∧
      (binary .pow (binary .sub var (number 3)) (number 2)).FiniteLiterals ∧
      (binary .pow (binary .sub var (number 3)) (number 2)).RegularAt 1 ∧
      HasDerivAt (binary .pow (binary .sub var (number 3)) (number 2)).realValue (-4) 1 := by
  have hnumber : ∀ n < 2 ^ 53, (number n).FiniteLiterals := fun _ hn ↦ Binary64.isFinite_ofNat hn
  have hcomplete : (binary .pow (binary .sub var (number 3)) (number 2)).Complete :=
    ⟨⟨trivial, trivial⟩, trivial⟩
  have hfinite : (binary .pow (binary .sub var (number 3)) (number 2)).FiniteLiterals :=
    ⟨⟨trivial, hnumber 3 (by decide)⟩, hnumber 2 (by decide)⟩
  have hreg : (binary .pow (binary .sub var (number 3)) (number 2)).RegularAt 1 :=
    ⟨⟨trivial, trivial⟩, Or.inr ⟨2, by decide, Binary64.toReal_ofNat (by norm_num)⟩⟩
  obtain ⟨f', hf', -, -, -, hd⟩ := hasDerivAt_derivative hcomplete hfinite hreg
  obtain rfl := Except.ok.inj hf'
  refine ⟨hcomplete, hfinite, hreg, hd.congr_deriv ?_⟩
  have hvalue : ∀ n < 2 ^ 53, Binary64.toReal (Binary64.ofNat n) = n := fun _ ↦
    Binary64.toReal_ofNat
  simp [literalExponentRule, number, hvalue]
  norm_num

end Expr

end CurveCalc
