import CurveCalc.Proofs.ScanLocality

/-!
# Expressions end at commas

The reader of expressions for the language is local: an expression that stops in front of a comma is
read the same whatever is behind the comma, and also if the row ends there. So the readers that a
text is read with are such as a derivation asks for (`Phrases.endAtCommas`). What is in brackets is
read for itself, so only tokens, and the types and patterns outside of brackets, have to be looked
through. The readers for one more level of nesting are local if those for the levels below are.
-/

namespace CurveCalc

namespace Deriving

open Scan

namespace Phrases

variable {p : Phrases} {k : ℕ}

/-- Readers of phrases that do not depend on what is behind them. -/
structure Local (p : Phrases) : Prop where
  operand (braces : Bool) : Scan.Local 0 (p.operand braces)
  operators (braces : Bool) (strength : ℕ) (shape : Shape) :
    Scan.Local 0 (p.operators braces strength shape)
  type (plus : Bool) : Scan.Local 0 (p.type plus)
  bound : Scan.Local 0 p.bound
  pattern : Scan.Local 0 p.pattern
  block : Scan.Local 0 p.block

/-! ## Lists -/

theorem local_attributes (p : Phrases) : Scan.Local k p.attributes :=
  .iterate (fun _ ↦ (local_markIf (by decide)).bind fun _ ↦
    .ite ((local_inside _ _).bind fun _ ↦ local_pure _) (local_pure _)) []

/-- A list in angle brackets ends at its closing one, so its items may leave what is behind them to
that. -/
theorem local_untilAngle {item : Scan Unit} (hitem : Scan.Local 1 item) :
    Scan.Local 0 (untilAngle item) := by
  have hangle : ∀ {row tail : List Tree}, Ends tail →
      Tree.beginsMark ">" (row ++ tail) = Tree.beginsMark ">" row := fun hends ↦
    Tree.beginsMark_append _ hends (by decide)
  refine Scan.Local.bind_consumes (.iterate (fun _ row ↦ ?_) ()) (fun _ ↦ local_mark ">")
    fun _ ↦ consumes_mark (by decide)
  refine .ahead (fun tail hends ↦ by simp only [hangle hends]) ?_
  refine .ite (fun _ ↦ local_pure _ row) fun _ ↦ .bind (hitem row) fun _ row ↦ ?_
  refine .ahead (fun tail hends ↦ by simp only [hangle hends]) ?_
  exact .ite (fun _ ↦ local_pure _ row) fun _ ↦ .bind (local_mark "," row) fun _ ↦ local_pure _

theorem local_sumUntil {stops : List Tree → Bool} {item : Scan Unit}
    (hstops : ∀ ⦃row tail : List Tree⦄,
      k ≤ row.length → Ends tail → stops (row ++ tail) = stops row)
    (hitem : Scan.Local k item) : Scan.Local k (sumUntil stops item) := by
  refine .iterate (fun _ row ↦ ?_) ()
  rcases Nat.lt_or_ge row.length k with hshort | hrow
  · exact localAt_of_length_lt hshort
  · refine .ahead (fun tail hends ↦ by simp only [hstops hrow hends]) ?_
    refine .ite (fun _ ↦ local_pure _ row) fun _ ↦ .bind (hitem row) fun _ ↦ ?_
    exact (local_markIf (by decide)).bind fun _ ↦ local_pure _

theorem local_rangeMark : Scan.Local k rangeMark := by
  refine (local_markIf (by decide)).bind fun _ ↦ .ite (local_pure _) fun row ↦ ?_
  refine .ahead (fun tail hends ↦ ?_) (.ahead (fun tail hends ↦ ?_) ?_)
  · simp (disch := decide) only [Tree.beginsMark_append _ hends]
  · simp (disch := decide) only [Tree.beginsMark_append _ hends]
  · exact .ite (fun _ ↦ local_mark ".." row) fun _ ↦ local_fail _ row

theorem local_member : Scan.Local k member := by
  refine fun row ↦ .ahead_two (fun _ _ ↦ rfl) (fun t _ _ ↦ ?_) (fun t t' _ ↦ ?_) ?_
  · cases t <;> simp
  · split <;> simp_all
  · split
    · exact .ite (fun _ ↦ local_due _ _) fun _ ↦ .bind (localAt_next (by simp)) fun _ ↦ local_pure _
    · exact .ite (fun _ ↦ .ofExcept_bind fun _ ↦
        .bind (localAt_take _ (by simp)) fun _ ↦ local_pure _) fun _ ↦ local_due _ _
    · exact .ite (fun _ ↦ local_fail _ _) fun _ ↦ local_due _ _
    · exact local_due _ _

theorem localAt_placedMembers (text : List Char) {row : List Tree} (hrow : 1 ≤ row.length) :
    LocalAt k (placedMembers text) row :=
  .ofExcept_bind fun _ ↦ .bind (localAt_take _ hrow) fun _ ↦ local_pure _

theorem local_nothingBehind : Scan.Local k nothingBehind := by
  refine fun row ↦ .ahead (fun tail hends ↦ ?_) ?_
  · rw [Tree.beginsAccess_append hends, Tree.beginsMark_append _ hends (by decide),
      Tree.beginsGroup_append hends, Tree.beginsGroup_append hends]
    refine ite_congr rfl (fun haccess ↦ ?_) fun _ ↦ rfl
    -- a point is ahead, so what is behind it is in front of the comma too
    cases row with
    | nil => exact absurd haccess (by decide)
    | cons tree row =>
      have hcall := Tree.beginsIdentifier_and_drop row hends
        ((Tree.localTest_beginsGroup (d := .parenthesis)).or
          (Tree.localTest_beginsMark "::" (by decide)))
      simp only [List.cons_append, List.drop_succ_cons, List.drop_zero,
        Tree.beginsWord_append hends]
      rw [hcall]
  · refine .ite (fun _ ↦ ?_) fun _ ↦ ?_
    · refine .ite (fun _ ↦ local_fail _ row) fun _ ↦ ?_
      exact .ite (fun _ ↦ local_fail _ row) fun _ ↦ local_fail _ row
    · refine .ite (fun _ ↦ local_fail _ row) fun _ ↦ ?_
      refine .ite (fun _ ↦ local_fail _ row) fun _ ↦ ?_
      exact .ite (fun _ ↦ local_fail _ row) fun _ ↦ local_pure _ row

/-! ## Types -/

theorem local_boundLifetimes (p : Phrases) : Scan.Local k p.boundLifetimes := by
  have hlifetimes : Scan.Local 0 (untilAngle do
      discard p.attributes
      lifetime) :=
    local_untilAngle ((local_attributes p).discard.bind fun _ ↦ local_lifetime)
  exact local_wordIf.bind fun _ ↦ .ite
    ((local_mark "<").bind fun _ ↦ hlifetimes.mono (Nat.zero_le k)) (local_pure _)

theorem endsArgument_append {row tail : List Tree} (hrow : 1 ≤ row.length) (hends : Ends tail) :
    Tree.beginsAnyMark [",", ">"] (row ++ tail) = Tree.beginsAnyMark [",", ">"] row := by
  obtain ⟨t, row, rfl⟩ := List.exists_cons_of_length_pos hrow
  have hmarks : ∀ row' : List Tree, Tree.beginsAnyMark [",", ">"] row' =
      (Tree.beginsMark "," row' || (Tree.beginsMark ">" row' || false)) := fun _ ↦ rfl
  rw [hmarks, hmarks, Tree.beginsMark_append ">" hends (by decide), List.cons_append,
    Tree.beginsMark_comma t (row ++ tail), Tree.beginsMark_comma t row]

theorem beginsTurbofish_append {row tail : List Tree} (hends : Ends tail) :
    (Tree.beginsMark "::" (row ++ tail) && Tree.beginsMark "<" ((row ++ tail).drop 2)) =
      (Tree.beginsMark "::" row && Tree.beginsMark "<" (row.drop 2)) :=
  Tree.beginsMark_and_drop _ _ _ hends (by decide) (by decide)
    (Tree.localTest_beginsMark _ (by decide))

theorem beginsSegment_append {row tail : List Tree} (hends : Ends tail) :
    (Tree.beginsMark "::" (row ++ tail) &&
        !Tree.beginsGroup .parenthesis ((row ++ tail).drop 2)) =
      (Tree.beginsMark "::" row && !Tree.beginsGroup .parenthesis (row.drop 2)) :=
  Tree.beginsMark_and_drop _ _ _ hends (by decide) (by decide) Tree.localTest_beginsGroup.not

namespace Local

variable (hp : p.Local)
include hp

theorem constant : Scan.Local 0 p.constant := fun row ↦
  .ahead (fun tail hends ↦ by simp only [Tree.beginsGroup_append hends])
    (.ite (fun _ ↦ hp.block row) fun _ ↦ local_literal row)

theorem resultType (plus : Bool) : Scan.Local 0 (p.resultType plus) :=
  (local_markIf (by decide)).bind fun _ ↦ .ite (hp.type plus).discard (local_pure _)

theorem signature : Scan.Local 0 p.signature :=
  (local_inside _ _).bind fun _ ↦ hp.resultType false

/-- A type argument may stop at a comma, but what is behind the row is not its to see. -/
theorem typeArgument : Scan.Local 1 p.typeArgument := by
  have hconstant := hp.constant.mono (Nat.zero_le 1)
  have htype := (hp.type true).mono (Nat.zero_le 1)
  have hbound := hp.bound.mono (Nat.zero_le 1)
  intro row
  refine .ahead (fun tail hends ↦ ?_) ?_
  · rw [Tree.beginsLifetime_and_drop _ hends (Tree.localTest_beginsMark _ (by decide)).not]
    simp only [Tree.beginsLiteral_append hends, Tree.beginsGroup_append hends]
  refine .ite (fun _ ↦ local_lifetime row) fun _ ↦ .ite (fun _ ↦ hconstant row) fun _ ↦ ?_
  refine .bind (htype row) fun _ ↦ .ite ?_ (local_pure _)
  refine (local_markIf (by decide)).bind fun _ ↦ .ite (fun row ↦ ?_) ?_
  · -- what is assigned to the name
    refine .ahead (fun tail hends ↦ ?_) (.ite (fun _ ↦ hconstant row) fun _ ↦ htype.discard row)
    simp only [Tree.beginsLiteral_append hends, Tree.beginsGroup_append hends]
  · -- what the name is bounded by
    refine (local_markIf (by decide)).bind fun _ ↦ .ite ?_ (local_pure _)
    exact local_sumUntil (fun _ _ ↦ endsArgument_append) hbound

theorem typeArguments : Scan.Local 0 (untilAngle p.typeArgument) :=
  local_untilAngle hp.typeArgument

theorem segment (inType : Bool) : Scan.Local 0 (p.segment inType) := by
  intro row
  refine .ahead (fun tail hends ↦ by simp only [Tree.beginsAnyWord_append hends]) ?_
  refine .ite (fun _ ↦ .bind (local_someWord.discard row) fun _ ↦ local_pure _) fun _ ↦ ?_
  refine .ahead (fun tail hends ↦ by simp only [Tree.beginsWord_append hends]) ?_
  refine .ite (fun _ ↦ .bind (local_someWord.discard row) fun _ row ↦ ?_)
    fun _ ↦ .bind (local_identifier.discard row) fun _ row ↦ ?_
  -- the type arguments behind the name
  all_goals
    refine .ahead (fun tail hends ↦ ?_) (.ite (fun _ ↦ ?_) fun _ ↦ local_pure _ row)
    · rw [beginsTurbofish_append hends]
      simp (disch := decide) only [Tree.beginsMark_append _ hends, Tree.beginsAnyMark_append hends]
    · exact .bind ((local_markIf (by decide)).discard row) fun _ ↦ (local_mark "<").bind fun _ ↦
        hp.typeArguments.bind fun _ ↦ local_pure _

theorem segments (inType : Bool) (shape : PathShape) : Scan.Local 0 (p.segments inType shape) := by
  refine .iterate (fun shape row ↦ .ahead (fun tail hends ↦ ?_) ?_) shape
  · simp only [beginsSegment_append hends]
  · refine .ite (fun _ ↦ .bind (local_mark "::" row) fun _ ↦ ?_) fun _ ↦ local_pure _ row
    exact (hp.segment inType).bind fun _ ↦ local_pure _

theorem path (inType : Bool) : Scan.Local 0 (p.path inType) :=
  (local_markIf (by decide)).bind fun _ ↦ (hp.segment inType).bind fun _ ↦ hp.segments inType _

theorem qualifiedPath (inType : Bool) : Scan.Local 0 (p.qualifiedPath inType) := by
  refine (local_markIf (by decide)).bind fun _ ↦ .ite ((hp.type true).discard.bind fun _ ↦
    local_wordIf.bind fun _ ↦ .ite ((hp.path true).discard.bind fun _ ↦ ?_) ?_) (hp.path inType)
  all_goals
    exact (local_mark ">").bind fun _ ↦ (local_mark "::").bind fun _ ↦
      (hp.segment inType).bind fun _ ↦ .iterate (fun _ ↦ (local_markIf (by decide)).bind fun _ ↦
        .ite ((hp.segment inType).bind fun _ ↦ local_pure _) (local_pure _)) _

/-! ### Bounds -/

theorem namedSignature : Scan.Local 0 p.namedSignature := by
  intro row
  refine .ahead (fun tail hends ↦ by simp (disch := decide) only [Tree.beginsMark_append _ hends])
    (.ite (fun h ↦ .bind (localAt_take _ (Tree.length_le_of_beginsMark h)) fun _ ↦ hp.signature)
      fun _ ↦ hp.signature row)

theorem trait : Scan.Local 0 p.trait := by
  refine (local_boundLifetimes p).bind fun _ ↦ (local_markIf (by decide)).bind fun _ ↦
    .ite ((local_boundLifetimes p).bind fun _ ↦ ?_) ?_
  all_goals
    exact (hp.path true).bind fun _ row ↦
      .ahead (fun tail hends ↦ by simp only [Tree.beginsSignature_append hends])
        (.ite (fun _ ↦ hp.namedSignature row) fun _ ↦ local_pure _ row)

theorem nextBound : Scan.Local 0 p.nextBound := fun row ↦
  .ahead (fun tail hends ↦ by
      simp only [Tree.beginsLifetime_append hends, Tree.beginsGroup_append hends])
    (.ite (fun _ ↦ local_lifetime row) fun _ ↦
      .ite (fun _ ↦ local_inside _ _ row) fun _ ↦ hp.trait row)

theorem moreBounds : Scan.Local 0 p.moreBounds :=
  (local_markIf (by decide)).bind fun _ ↦ .ite
    (local_sumUntil (fun _ _ _ hends ↦ by rw [Tree.beginsBound_append hends]) hp.bound)
    (local_pure _)

theorem bounds (plus : Bool) : Scan.Local 0 (p.bounds plus) :=
  hp.bound.bind fun _ ↦ .ite hp.moreBounds (local_pure _)

/-! ### The types themselves -/

theorem functionType : Scan.Local 0 p.functionType :=
  local_wordIf.discard.bind fun _ ↦ local_conventionIf.bind fun _ ↦ local_word.bind fun _ ↦
    (local_inside _ _).bind fun _ ↦ hp.resultType false

theorem pathType (plus holds : Bool) : Scan.Local 0 (p.pathType plus holds) := by
  refine (hp.qualifiedPath true).bind fun _ ↦ Scan.Local.bind (.iterate (fun _ row ↦ ?_) _)
    fun shape row ↦ .ahead (fun tail hends ↦ ?_) ?_
  · -- the parameters of a function, and names behind them
    refine .ahead (fun tail hends ↦ by simp only [Tree.beginsSignature_append hends]) ?_
    refine .ite (fun _ ↦ .bind (hp.namedSignature row) fun _ ↦ ?_) fun _ ↦ local_pure _ row
    exact (hp.segments true _).bind fun _ ↦ local_pure _
  · simp (disch := decide) only [Tree.beginsBang_append hends, Tree.beginsMark_append _ hends]
  · refine .ite (fun _ ↦ local_pure _ row) fun _ ↦ .ite (fun _ ↦ ?_) fun _ ↦ .ite (fun _ ↦ ?_)
      fun _ ↦ local_pure _ row
    · exact .bind (local_mark "!" row) fun _ ↦ local_anyGroup.discard.bind fun _ ↦ local_pure _
    · exact .bind (hp.moreBounds row) fun _ ↦ local_pure _

theorem nextType (plus : Bool) : Scan.Local 0 (p.nextType plus) := by
  have hpointer : Scan.Local 0 (do
      discard (p.type false)
      return false) := (hp.type false).discard.bind fun _ ↦ local_pure _
  have hbounds : Scan.Local 0 (do
      p.bounds plus
      return false) := (hp.bounds plus).bind fun _ ↦ local_pure _
  refine fun row ↦ .ahead (fun tail hends ↦ by simp only [Tree.beginsWord_append hends]) ?_
  refine .bind (local_boundLifetimes p row) fun _ row ↦ .ahead (fun tail hends ↦ ?_) ?_
  · rw [Tree.beginsIdentifier_append hends, Tree.beginsAnyWord_append hends,
      Tree.beginsAnyWord_append hends, Tree.beginsGroup_append hends, Tree.beginsGroup_append hends,
      Tree.beginsPath_append hends, Tree.beginsMark_append "!" hends (by decide),
      Tree.beginsMark_append "=" hends (by decide), Tree.beginsLifetime_append hends]
  -- one step for each kind of type, in the order in which they are tried
  refine .ite (fun _ ↦ local_due _ row) fun _ ↦ ?_
  refine .ite (fun _ ↦ .bind (local_inside _ _ row) fun _ ↦
    .ite (hp.moreBounds.bind fun _ ↦ local_pure _) (local_pure _)) fun _ ↦ ?_
  refine .ite (fun _ ↦ .bind (hp.functionType row) fun _ ↦ local_pure _) fun _ ↦ ?_
  refine .ite (fun _ ↦ hp.pathType plus _ row) fun _ ↦ ?_
  refine .bind (local_wordIf row) fun _ ↦
    .ite ((local_markIf (by decide)).discard.bind fun _ ↦ hbounds) ?_
  refine .ite ((local_inside _ _).bind fun _ ↦ local_pure _) ?_
  refine (local_markIf (by decide)).bind fun _ ↦ .ite (fun row ↦ ?_) ?_
  · refine .ahead (fun tail hends ↦ by simp only [Tree.beginsAnyWord_append hends]) ?_
    refine .ite (fun h ↦ .bind (localAt_next ?_) fun _ ↦ hpointer) fun _ ↦
      .bind (local_due _ row) fun _ ↦ hpointer
    rintro rfl
    exact absurd h (by decide)
  refine (local_markIf (by decide)).bind fun _ ↦
    .ite (local_lifetimeIf.bind fun _ ↦ local_wordIf.discard.bind fun _ ↦ hpointer) ?_
  refine .ite ((local_mark "!").bind fun _ ↦ local_pure _) ?_
  refine local_wordIf.bind fun _ ↦ .ite hbounds ?_
  exact local_wordIf.bind fun _ ↦ .ite (local_pure _) (.ite hbounds (local_due _))

/-! ## Patterns -/

theorem alternatives : Scan.Local 0 p.alternatives := by
  refine (local_markIf (by decide)).discard.bind fun _ ↦ hp.pattern.bind fun _ ↦
    .iterate (fun _ row ↦ ?_) ()
  refine .ahead (fun tail hends ↦ by simp only [Tree.beginsAlternative_append hends]) ?_
  refine .ite (fun _ ↦ .bind (local_mark "|" row) fun _ ↦ ?_) fun _ ↦ local_pure _ row
  exact hp.pattern.bind fun _ ↦ local_pure _

theorem rangeBound : Scan.Local 0 p.rangeBound := by
  refine fun row ↦ .ahead (fun tail hends ↦ ?_) (.ite (fun _ ↦ local_pure _ row) fun _ ↦ ?_)
  · simp only [Tree.endsPatternRange_append hends, Tree.beginsLiteral_append hends,
      Tree.beginsPath_append hends]
  · refine .ite (fun _ ↦ .bind (local_literal row) fun _ ↦ local_pure _) fun _ ↦ ?_
    refine .ite (fun _ ↦ .bind ((hp.qualifiedPath false).discard row) fun _ ↦ local_pure _)
      fun _ ↦ ?_
    exact .bind (local_wordIf row) fun _ ↦ .ite (hp.block.bind fun _ ↦ local_pure _)
      ((local_due _).bind fun _ ↦ local_pure _)

theorem rangeEnd : Scan.Local 0 p.rangeEnd := fun row ↦
  .ahead (fun tail hends ↦ by simp (disch := decide) only [Tree.beginsMark_append _ hends])
    (.ite (fun _ ↦ .bind (local_rangeMark row) fun _ ↦ hp.rangeBound.discard) fun _ ↦
      local_pure _ row)

theorem pathPattern : Scan.Local 0 p.pathPattern := by
  refine (hp.qualifiedPath false).bind fun _ row ↦ .ahead (fun tail hends ↦ ?_) ?_
  · simp only [Tree.beginsBang_append hends, Tree.beginsGroup_append hends]
  · refine .ite (fun _ ↦ .bind (local_mark "!" row) fun _ ↦ local_anyGroup.discard) fun _ ↦ ?_
    refine .ite (fun _ ↦ local_inside _ _ row) fun _ ↦ ?_
    exact .ite (fun _ ↦ local_inside _ _ row) fun _ ↦ hp.rangeEnd row

theorem binding : Scan.Local 0 p.binding := by
  have hinner : Scan.Local 0 (do if ← Scan.markIf "@" then p.pattern) :=
    (local_markIf (by decide)).bind fun _ ↦ .ite hp.pattern (local_pure _)
  refine local_wordIf.discard.bind fun _ ↦ local_wordIf.discard.bind fun _ ↦ ?_
  exact local_wordIf.bind fun _ ↦
    .ite (local_identifier.discard.bind fun _ ↦ hinner) hinner

theorem nextPattern : Scan.Local 0 p.nextPattern := by
  refine fun row ↦ .ahead (fun tail hends ↦ ?_) (.ite (fun _ ↦ hp.pathPattern row) fun _ ↦ ?_)
  · rw [Tree.beginsLongName_append hends, Tree.beginsMark_append "-" hends (by decide),
      Tree.beginsLiteral_append hends, Tree.beginsWord_append hends,
      Tree.beginsAnyWord_append hends, Tree.beginsIdentifier_append hends,
      Tree.beginsGroup_append hends, Tree.beginsGroup_append hends,
      Tree.beginsMark_append ".." hends (by decide),
      Tree.beginsMark_append "..." hends (by decide),
      Tree.beginsMark_append "..=" hends (by decide)]
  -- one step for each kind of pattern, in the order in which they are tried
  refine .bind (local_wordIf row) fun _ ↦ .ite (local_pure _) ?_
  refine local_wordIf.bind fun _ ↦ .ite hp.pattern ?_
  refine .ite (hp.rangeBound.discard.bind fun _ ↦ hp.rangeEnd) (.ite hp.binding ?_)
  refine (local_markIf (by decide)).bind fun _ ↦
    .ite (local_wordIf.discard.bind fun _ ↦ hp.pattern) ?_
  refine .ite (local_inside _ _) (.ite (local_inside _ _) ?_)
  refine .ite (local_rangeMark.bind fun _ ↦ hp.rangeBound.bind fun _ ↦ ?_) (local_due _)
  exact .ite (local_due _) (local_pure _)

/-! ## Operands -/

theorem expression (braces : Bool) : Scan.Local 0 (p.expression braces) :=
  (hp.operand braces).bind fun _ ↦ hp.operators braces 0 _

theorem access : Scan.Local 0 p.access := by
  have hcall : ∀ (generic named : Bool), Scan.Local 0 (do
      if generic || named && Tree.beginsGroup .parenthesis (← Scan.ahead) then
        p.callArguments) := by
    intro generic named row
    refine .ahead (fun tail hends ↦ by simp only [Tree.beginsGroup_append hends]) ?_
    exact .ite (fun _ ↦ local_inside _ _ row) fun _ ↦ local_pure _ row
  refine local_wordIf.bind fun _ ↦ .ite (local_pure _) (local_member.bind fun named row ↦ ?_)
  refine .ahead (fun tail hends ↦ ?_) (.ite (fun _ ↦ .bind (local_mark "::" row) fun _ ↦ ?_)
    fun _ ↦ hcall _ named row)
  · simp (disch := decide) only [Tree.beginsMark_append _ hends]
  · exact (local_mark "<").bind fun _ ↦ hp.typeArguments.bind fun _ ↦ hcall _ named

theorem behind (shape : Shape) : Scan.Local 0 (p.behind shape) := by
  have haccess := hp.access.bind fun _ : Unit ↦ local_pure (Shape.plain, true)
  refine .iterate (fun _ row ↦ .ahead (fun tail hends ↦ ?_) ?_) shape
  · simp (disch := decide) only [Tree.beginsGroup_append hends, Tree.beginsAccess_append hends,
      Tree.beginsMark_append _ hends]
  refine .ite (fun _ ↦ .bind (local_inside _ _ row) fun _ ↦ local_pure _) fun _ ↦
    .ite (fun _ ↦ .bind (local_mark "." row) fun _ row ↦ ?_) fun _ ↦ ?_
  · -- what a member looks like can be seen in the next two trees
    refine .ahead_two (fun _ _ ↦ rfl) (fun t _ _ ↦ ?_) (fun t t' _ ↦ ?_) ?_
    · cases t <;> simp
    · split <;> simp_all
    · split
      · exact .ite (fun _ ↦ .bind (localAt_placedMembers _ (by simp)) fun _ ↦
          .ite haccess (local_pure _)) fun _ ↦ haccess _
      · exact .ite (fun _ ↦ .bind (local_fail _ _) fun _ ↦ local_pure _) fun _ ↦ haccess _
      · exact haccess _
  · refine .ite (fun _ ↦ .bind (local_inside _ _ row) fun _ ↦ local_pure _) fun _ ↦ ?_
    exact .ite (fun _ ↦ .bind (local_mark "?" row) fun _ ↦ local_pure _) fun _ ↦ local_pure _ row

theorem pathExpression (braces : Bool) : Scan.Local 0 (p.pathExpression braces) := by
  refine (hp.qualifiedPath false).bind fun _ row ↦ .ahead (fun tail hends ↦ ?_) ?_
  · simp only [Tree.beginsBang_append hends, Tree.beginsGroup_append hends]
  · refine .ite (fun _ ↦ .bind (local_mark "!" row) fun _ ↦ ?_) fun _ ↦ .ite (fun _ ↦ ?_)
      fun _ ↦ local_pure _ row
    · exact local_anyGroup.bind fun _ ↦ local_pure _
    · exact .bind (local_inside _ _ row) fun _ ↦ local_pure _

theorem closureParameter : Scan.Local 0 p.closureParameter :=
  (local_attributes p).discard.bind fun _ ↦ hp.pattern.bind fun _ ↦
    (local_markIf (by decide)).bind fun _ ↦ .ite (hp.type true).discard (local_pure _)

/-- The commas between the parameters of a closure are in front of a bar. -/
theorem closure (braces : Bool) : Scan.Local 0 (p.closure braces) := by
  have hbar : ∀ {row tail : List Tree}, Ends tail →
      Tree.beginsMark "|" (row ++ tail) = Tree.beginsMark "|" row := fun hends ↦
    Tree.beginsMark_append _ hends (by decide)
  refine (local_boundLifetimes p).bind fun _ ↦ ?_
  refine (local_forIn (fun _ _ ↦ local_wordIf.discard.bind fun _ ↦ local_pure _) _ _).bind
    fun _ ↦ ?_
  refine (local_mark "|").bind fun _ ↦ Scan.Local.bind_consumes (.iterate (fun _ row ↦ ?_) ())
    (fun _ ↦ (local_mark "|").bind fun _ ↦ ?_) fun _ ↦ (consumes_mark (by decide)).bind
  · -- a parameter, unless the second bar is ahead
    refine .ahead (fun tail hends ↦ by simp only [hbar hends]) ?_
    refine .ite (fun _ ↦ local_pure _ row) fun _ ↦
      .bind (hp.closureParameter.mono (Nat.zero_le 1) row) fun _ row ↦ ?_
    refine .ahead (fun tail hends ↦ by simp only [hbar hends]) ?_
    exact .ite (fun _ ↦ local_pure _ row) fun _ ↦ .bind (local_mark "," row) fun _ ↦ local_pure _
  · -- the result
    refine (local_markIf (by decide)).bind fun _ ↦ .ite ?_ (hp.expression braces).discard
    exact (hp.type true).discard.bind fun _ ↦ hp.block

theorem leavingValue (braces : Bool) : Scan.Local 0 (p.leavingValue braces) := fun row ↦
  .ahead (fun tail hends ↦ by
      simp only [Tree.beginsExpression_append hends, Tree.beginsGroup_append hends])
    (.ite (fun _ ↦ (hp.expression braces).discard row) fun _ ↦ local_pure _ row)

theorem breaking (braces : Bool) : Scan.Local 0 (p.breaking braces) := by
  refine local_word.bind fun _ row ↦ .ahead (fun tail hends ↦ ?_) (.ite (fun _ ↦ ?_) fun _ ↦ ?_)
  · rw [Tree.beginsLifetime_and_drop _ hends (Tree.localTest_beginsMark _ (by decide))]
  · exact .bind ((hp.expression braces).discard row) fun _ ↦ local_fail _
  · exact .bind (local_lifetimeIf row) fun _ ↦ hp.leavingValue braces

theorem matching (braces : Bool) (comparison : ℕ) : Scan.Local 0 (p.matching braces comparison) :=
  local_word.bind fun _ ↦ hp.alternatives.bind fun _ ↦ (local_mark "=").bind fun _ ↦
    (hp.operand braces).bind fun _ ↦ (hp.operators braces comparison _).discard

/-! ### What ends with its own braces -/

theorem choice : Scan.Local 0 p.choice := by
  refine .iterate (fun _ ↦ local_word.bind fun _ ↦ (hp.expression false).discard.bind fun _ ↦ ?_) ()
  refine hp.block.bind fun _ ↦ local_wordIf.bind fun _ ↦ .ite (fun row ↦ ?_) (local_pure _)
  refine .ahead (fun tail hends ↦ ?_) (.ite (fun _ ↦ local_pure _ row) fun _ ↦ ?_)
  · simp only [Tree.beginsWord_append hends, Tree.beginsGroup_append hends]
  · exact .ite (fun _ ↦ .bind (hp.block row) fun _ ↦ local_pure _) fun _ ↦
      .bind (local_due _ row) fun _ ↦ local_pure _

theorem cases : Scan.Local 0 p.cases :=
  local_word.bind fun _ ↦ (hp.expression false).discard.bind fun _ ↦ local_inside _ _

theorem labelled : Scan.Local 0 p.labelled := by
  have hbody := (hp.expression false).discard.bind fun _ : PUnit ↦ hp.block
  refine fun row ↦ .ahead (fun tail hends ↦ by rw [Tree.beginsGroup_append hends]) ?_
  refine .bind (local_wordIf row) fun _ ↦ .ite hbody ?_
  refine local_wordIf.bind fun _ ↦
    .ite (hp.alternatives.bind fun _ ↦ local_word.bind fun _ ↦ hbody) ?_
  exact local_wordIf.bind fun _ ↦ .ite hp.block (.ite hp.block (local_due _))

theorem blockExpression : Scan.Local 0 p.blockExpression := by
  refine fun row ↦ .ahead (fun tail hends ↦ ?_) (.ite (fun _ ↦ hp.choice row) fun _ ↦ ?_)
  · simp only [Tree.beginsWord_append hends, Tree.beginsAnyWord_append hends,
      Tree.beginsLifetime_append hends]
  · refine .ite (fun _ ↦ hp.cases row) fun _ ↦ .ite (fun h ↦ ?_) fun _ ↦ .ite (fun _ ↦ ?_)
      fun _ ↦ hp.labelled row
    · refine .bind (localAt_next ?_) fun _ ↦ hp.block
      rintro rfl
      exact absurd h (by decide)
    · exact .bind (local_lifetime row) fun _ ↦ (local_mark ":").bind fun _ ↦ hp.labelled

/-! ## Expressions -/

theorem rightOperand (braces : Bool) (strength : ℕ) :
    Scan.Local 0 (p.rightOperand braces strength) := by
  refine (hp.operand braces).bind fun _ ↦ Scan.Local.discard (.iterate (fun _ row ↦ ?_) _)
  refine .ahead (fun tail hends ↦ by simp only [strengthAt_append hends]) ?_
  exact .ite (fun _ ↦ .bind (hp.operators braces _ _ row) fun _ ↦ local_pure _) fun _ ↦
    local_pure _ row

theorem upperBound (braces closed : Bool) : Scan.Local 0 (p.upperBound braces closed) := fun row ↦
  .ahead (fun tail hends ↦ by
      simp (disch := decide) only [Tree.endsRange_append braces hends,
        Tree.beginsMark_append _ hends])
    (.ite (fun _ ↦ local_pure _ row) fun _ ↦
      .bind (hp.rightOperand braces Strength.range row) fun _ ↦ local_pure _)

theorem rangeFrom (braces : Bool) : Scan.Local 0 (p.rangeFrom braces) := fun row ↦
  .ahead (fun tail hends ↦ by simp (disch := decide) only [Tree.beginsMark_append _ hends])
    (.bind (local_rangeMark row) fun _ ↦ (hp.upperBound braces _).bind fun _ ↦ local_pure _)

theorem operator (braces : Bool) (strength : ℕ) (left : Shape) :
    Scan.Local 0 (p.operator braces strength left) := by
  refine fun row ↦ .ahead (fun tail hends ↦ ?_) (.ite (fun _ ↦ local_pure _ row) fun _ ↦ ?_)
  · simp (disch := decide) only [Infix.at?_append hends, Tree.beginsEquals_append hends,
      Tree.beginsMark_append _ hends, Tree.beginsWord_append hends]
  · split
    · refine .ite (fun _ ↦ local_pure _ row) fun _ ↦ .ite (fun _ ↦ local_fail _ row) fun _ ↦ ?_
      exact .bind (local_mark _ row) fun _ ↦ (hp.rightOperand braces _).bind fun _ ↦ local_pure _
    · refine .ite (fun _ ↦ ?_) fun _ ↦ .ite (fun _ ↦ ?_) fun _ ↦ .ite (fun _ ↦ ?_)
        fun _ ↦ local_pure _ row
      · exact .bind (local_mark "=" row) fun _ ↦
          (hp.rightOperand braces _).bind fun _ ↦ local_pure _
      · exact .bind (hp.rangeFrom braces row) fun _ ↦ local_pure _
      · exact .bind (local_word row) fun _ ↦ (hp.type false).discard.bind fun _ ↦
          local_nothingBehind.bind fun _ ↦ local_pure _

theorem atom (braces : Bool) : Scan.Local 0 (p.atom braces) := by
  have hplain : ∀ {scan : Scan Unit} {row : List Tree}, LocalAt 0 scan row →
      LocalAt 0 (do scan; return Shape.plain) row := fun h ↦ h.bind fun _ ↦ local_pure _
  refine fun row ↦ .ahead (fun tail hends ↦ ?_) ?_
  · rw [Tree.beginsLiteral_append hends, Tree.beginsAsync_append hends,
      Tree.beginsBlock_append hends, Tree.beginsClosure_append hends,
      Tree.beginsPath_append hends, Tree.beginsWord_append hends,
      Tree.beginsGroup_append hends, Tree.beginsGroup_append hends, Tree.beginsWord_append hends,
      Tree.beginsAnyWord_append hends, Tree.beginsWord_append hends,
      Tree.beginsMark_append _ hends (by decide)]
  -- one step for each kind of operand, in the order in which they are tried
  refine .ite (fun _ ↦ hplain (local_literal row)) fun _ ↦ ?_
  refine .ite (fun _ ↦ .bind (local_word row) fun _ ↦ local_wordIf.discard.bind fun _ ↦
    fun row ↦ hplain (hp.block row)) fun _ ↦ ?_
  refine .ite (fun _ ↦ .bind (hp.blockExpression row) fun _ ↦ local_pure _) fun _ ↦ ?_
  refine .ite (fun _ ↦ hplain (hp.closure braces row)) fun _ ↦ ?_
  refine .ite (fun _ ↦ hp.pathExpression braces row) fun _ ↦ ?_
  refine .ite (fun _ ↦ hplain (local_inside _ _ row)) fun _ ↦ ?_
  refine .ite (fun _ ↦ hplain (local_inside _ _ row)) fun _ ↦ ?_
  refine .ite (fun _ ↦ hplain (hp.breaking braces row)) fun _ ↦ ?_
  refine .wordIf_bind
    (fun row ↦ .ite (fun _ ↦ hplain (local_lifetimeIf row)) fun h ↦ absurd rfl h)
    (.ite (fun h ↦ absurd h Bool.false_ne_true) fun _ ↦ ?_)
  refine .ite (fun h ↦ .bind (localAt_next ?_) fun _ row ↦ hplain (hp.leavingValue true row))
    fun _ ↦ ?_
  · rintro rfl
    exact absurd h (by decide)
  refine .ite (fun _ ↦ hplain (hp.matching braces _ row)) fun _ ↦ ?_
  refine .ite (fun _ ↦ hp.rangeFrom braces row) fun _ ↦ ?_
  exact .bind (local_wordIf row) fun _ ↦ .ite (local_pure _) (local_due _)

theorem reference (braces : Bool) : Scan.Local 0 (p.reference braces) := by
  have hoperand := (hp.operand braces).discard
  intro row
  refine .ahead (fun tail hends ↦ ?_) (.ite (fun h ↦ ?_) fun _ ↦ ?_)
  · rw [Tree.beginsWord_and_drop _ _ hends fun _ _ ↦ Tree.beginsAnyWord_append]
  · obtain ⟨-, hword⟩ := Bool.and_eq_true_iff.mp h
    cases row with
    | nil => exact absurd hword (by decide)
    | cons tree row =>
      refine .next_bind (.bind (localAt_next ?_) fun _ ↦ hoperand)
      rintro rfl
      change Tree.beginsAnyWord ["mut", "const"] [] = true at hword
      exact absurd hword (by decide)
  · exact .bind (local_wordIf.discard row) fun _ ↦ hoperand

theorem nextOperand (braces : Bool) : Scan.Local 0 (p.nextOperand braces) := by
  refine (local_attributes p).discard.bind fun _ row ↦ .ahead (fun tail hends ↦ ?_) ?_
  · simp (disch := decide) only [Tree.beginsAnyMark_append hends]
  refine .markIf_bind (by decide) (fun row ↦ .ite (fun _ ↦ ?_) fun h ↦ absurd rfl h)
    (.ite (fun h ↦ absurd h Bool.false_ne_true) fun _ ↦ .ite (fun h ↦ ?_) fun _ ↦ ?_)
  · exact .bind (hp.reference braces row) fun _ ↦ local_pure _
  · refine .bind (localAt_next ?_) fun _ ↦ (hp.operand braces).discard.bind fun _ ↦ local_pure _
    rintro rfl
    exact absurd h (by decide)
  · exact .bind (hp.atom braces row) fun _ ↦ hp.behind _

theorem next : p.next.Local where
  operand := hp.nextOperand
  operators braces strength := .iterate (hp.operator braces strength)
  type := hp.nextType
  bound := hp.nextBound
  pattern := hp.nextPattern
  block := local_inside _ _

end Local

end Phrases

end Deriving

end CurveCalc
