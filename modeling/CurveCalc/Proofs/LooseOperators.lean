import CurveCalc.Proofs.Reads

/-!
# Where the loose operators of a text are

A text that a level reads is one run of the cursor, and its loose operators are those of the level
and of the levels below it. This is what stands in for a token stream: a cut at an operator of a
canonical sum or product is the *last* loose one of its kind, a cut at a power the *first*, so there
is never more than one cut at which both sides are read.
-/

namespace CurveCalc

/-- Of two places in a text, either they are the same one or one of them is further to the left. -/
theorem Text.cut_cases {c c' : Char} {left left' right right' : List Char}
    (htext : left ++ c :: right = left' ++ c' :: right') :
    (left = left' ∧ c = c' ∧ right = right') ∨
      (∃ mid, left' = left ++ c :: mid ∧ right = mid ++ c' :: right') ∨
        ∃ mid, left = left' ++ c' :: mid ∧ right' = mid ++ c :: right := by
  rcases List.append_eq_append_iff.mp htext with ⟨mid, rfl, hmid⟩ | ⟨mid, rfl, hmid⟩
  · cases mid with
    | nil =>
      obtain ⟨rfl, rfl⟩ := List.cons.inj hmid
      exact Or.inl ⟨(List.append_nil left).symm, rfl, rfl⟩
    | cons _ mid =>
      obtain ⟨rfl, rfl⟩ := List.cons.inj hmid
      exact Or.inr (Or.inl ⟨mid, rfl, rfl⟩)
  · cases mid with
    | nil =>
      obtain ⟨rfl, rfl⟩ := List.cons.inj hmid
      exact Or.inl ⟨List.append_nil left', rfl, rfl⟩
    | cons _ mid =>
      obtain ⟨rfl, rfl⟩ := List.cons.inj hmid
      exact Or.inr (Or.inr ⟨mid, rfl, rfl⟩)

namespace Grammar

/-! ## The operators a level can have -/

/-- The operators that can be loose in a text that a level reads. -/
def looseOperators (g : Grammar) : Level → List BinaryOp
  | .chain c =>
    match g, c with
    | .canonical, .power => [.pow]
    | .canonical, .product => [.mul, .div, .pow]
    | _, _ => [.add, .sub, .mul, .div, .pow]
  | .base | .primary => []

theorem operators_subset_loose (g : Grammar) (c : Chain) :
    c.operators ⊆ looseOperators g (.chain c) := by
  cases g <;> cases c <;> decide

theorem loose_left_subset (g : Grammar) (c : Chain) :
    looseOperators g (g.operandLevels c).1 ⊆ looseOperators g (.chain c) := by
  cases g <;> cases c <;> decide

theorem loose_right_subset (g : Grammar) (c : Chain) :
    looseOperators g (g.operandLevels c).2 ⊆ looseOperators g (.chain c) := by
  cases g <;> cases c <;> decide

theorem loose_below_subset (g : Grammar) (c : Chain) :
    looseOperators g c.below ⊆ looseOperators g (.chain c) := by
  cases g <;> cases c <;> decide

/-! ## The run over a text -/

/-- A cursor that stands before an operand of the level passes over the text to the end of one. -/
theorem Reads.passes {g : Grammar} {level : Level} {text : List Char} {e : Expr}
    (h : Reads g level text e) (d : Int) :
    Passes d (looseOperators g level) ⟨d, false⟩ text ⟨d, true⟩ := by
  induction h generalizing d with
  | @split c op left right a b hop _ _ ihl ihr =>
    have hmem := operators_subset_loose g c hop
    refine ((ihl d).mono (loose_left_subset g c)).append ?_
    refine .cons (tidy_of_mem (Int.le_refl d) hmem) ?_
    rw [Cursor.step_symbol]
    exact (ihr d).mono (loose_right_subset g c)
  | @fall c text e _ ih => exact (ih d).mono (loose_below_subset g c)
  | base _ ih => exact ih d
  | @log text e _ ih =>
    obtain ⟨b, hlog⟩ : ∃ b, Passes d [] ⟨d, false⟩ ['l', 'o', 'g'] ⟨d, b⟩ :=
      isPlain_isAlphanum.exists_passes (List.all_eq_true.mp (by decide)) false
    have hstart : Passes d [] ⟨d, false⟩ ['l', 'o', 'g'] ⟨d, false⟩ := ⟨rfl, hlog.tidyRun⟩
    exact hstart.append (ih d)
  | @paren text e _ ih =>
    -- inside, the cursor is one deeper, where no operator is loose seen from here
    have hinner : Passes d [] ⟨d + 1, false⟩ text ⟨d + 1, true⟩ := (ih (d + 1)).nested
    have hopen : Tidy d [] ⟨d, false⟩ '(' := tidy_of_plain (Int.le_refl d) (by decide) (by decide)
    have hclose : Passes d [] ⟨d + 1, true⟩ [')'] ⟨d, true⟩ := by
      refine ⟨by simp, ⟨?_, fun _ ↦ ⟨?_, rfl⟩, fun hk ↦ ?_⟩, trivial⟩
      · exact Int.le_of_lt (Int.lt_succ d)
      · exact Int.lt_succ d
      · have hdepth : d + 1 = d := congrArg Cursor.depth hk
        omega
    exact (hinner.append hclose).cons hopen
  | literal hv => exact passes_of_isLiteralText (Literal.isLiteralText_of_readLiteral? hv)
  | var => exact .one (tidy_of_plain (Int.le_refl d) (by decide) (by decide))

theorem Reads.mem_loose {g : Grammar} {level : Level} {left right : List Char} {op : BinaryOp}
    {e : Expr} (h : Reads g level (left ++ op.symbol :: right) e)
    (hleft : (⟨0, false⟩ : Cursor).run left = ⟨0, true⟩) : op ∈ looseOperators g level :=
  (h.passes 0).mem_of_loose hleft

theorem Reads.run_eq {g : Grammar} {level : Level} {text : List Char} {e : Expr}
    (h : Reads g level text e) : (⟨0, false⟩ : Cursor).run text = ⟨0, true⟩ :=
  (h.passes 0).run_eq

/-! ## Two operators of one text -/

theorem symbol_cases {op op' : BinaryOp} {left left' right right' : List Char}
    (htext : left ++ op.symbol :: right = left' ++ op'.symbol :: right') :
    (left = left' ∧ op = op' ∧ right = right') ∨
      (∃ mid, left' = left ++ op.symbol :: mid ∧ right = mid ++ op'.symbol :: right') ∨
        ∃ mid, left = left' ++ op'.symbol :: mid ∧ right' = mid ++ op.symbol :: right := by
  rcases Text.cut_cases htext with ⟨hleft, hsymbol, hright⟩ | hcut
  · exact Or.inl ⟨hleft, BinaryOp.symbol_injective hsymbol, hright⟩
  · exact Or.inr hcut

/-! ## Cuts of the canonical grammar -/

section Canonical

variable {c : Chain} {op op' : BinaryOp} {left left' mid right right' : List Char}
  {a a' b b' : Expr}

theorem not_mem_loose_below (hop : op ∈ c.operators) :
    op ∉ looseOperators .canonical c.below := by
  cases c <;> cases op <;> revert hop <;> decide

/-- To the right of a cut there is no other operator of a sum or product, and to the left of one
none of a power. -/
theorem not_mem_loose_operand (hop : op ∈ c.operators) (hop' : op' ∈ c.operators) :
    op ∉ looseOperators .canonical (Grammar.canonical.operandLevels c).1 ∨
      op' ∉ looseOperators .canonical (Grammar.canonical.operandLevels c).2 := by
  cases c <;> cases op <;> cases op' <;> revert hop hop' <;> decide

/-- No left side of a cut contains the cut that another left side ends at. -/
theorem not_reads_longer (hop : op ∈ c.operators) (hop' : op' ∈ c.operators)
    (hl : Reads .canonical (Grammar.canonical.operandLevels c).1 left a)
    (hl' : Reads .canonical (Grammar.canonical.operandLevels c).1 (left ++ op.symbol :: mid) a') :
    ¬Reads .canonical (Grammar.canonical.operandLevels c).2 (mid ++ op'.symbol :: right) b := by
  intro hr
  have hmid : (⟨0, false⟩ : Cursor).run mid = ⟨0, true⟩ := by
    have hrun := hl'.run_eq
    rwa [Cursor.run_append, hl.run_eq, Cursor.run_cons, Cursor.step_symbol] at hrun
  rcases not_mem_loose_operand hop hop' with hnot | hnot
  · exact hnot (hl'.mem_loose hl.run_eq)
  · exact hnot (hr.mem_loose hmid)

/-- **There is one cut at most.** -/
theorem cut_unique (hop : op ∈ c.operators) (hop' : op' ∈ c.operators)
    (hl : Reads .canonical (Grammar.canonical.operandLevels c).1 left a)
    (hr : Reads .canonical (Grammar.canonical.operandLevels c).2 right b)
    (hl' : Reads .canonical (Grammar.canonical.operandLevels c).1 left' a')
    (hr' : Reads .canonical (Grammar.canonical.operandLevels c).2 right' b')
    (htext : left ++ op.symbol :: right = left' ++ op'.symbol :: right') :
    left = left' ∧ op = op' ∧ right = right' := by
  rcases symbol_cases htext with hsame | ⟨mid, rfl, rfl⟩ | ⟨mid, rfl, rfl⟩
  · exact hsame
  · exact absurd hr (not_reads_longer hop hop' hl hl')
  · exact absurd hr' (not_reads_longer hop' hop hl' hl)

end Canonical

end Grammar

end CurveCalc
