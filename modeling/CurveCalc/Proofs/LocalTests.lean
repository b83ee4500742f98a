import CurveCalc.Deriving.Statement
import CurveCalc.Proofs.Takes
import Mathlib.Data.List.Find
import Mathlib.Tactic.Common

/-!
# Tests that do not look behind a comma

A reader of declarations decides by what is ahead: by the next tree, or by the next two or three. In
an argument of an attribute there can be a comma behind it, or nothing. No test that an expression,
a type or a pattern is read by looks past that comma, or tells it from the end of the row
(`LocalTest`).
-/

namespace CurveCalc

namespace Deriving

namespace Ends

variable {γ : Type*} {f : List Tree → γ} {tail : List Tree}

/-- What depends on the next tree alone, and takes a comma for the end, does not see what is
behind. -/
theorem append_of_one (hends : Ends tail) (row : List Tree)
    (hcomma : ∀ joint rest, f (.mark [','] joint :: rest) = f [])
    (hone : ∀ t rest, f (t :: rest) = f [t]) : f (row ++ tail) = f row := by
  cases row with
  | nil =>
    cases hends with
    | nil => rfl
    | comma joint rest => exact hcomma joint rest
  | cons t row => rw [List.cons_append, hone, hone t row]

theorem append_of_two (hends : Ends tail) (row : List Tree)
    (hcomma : ∀ joint rest, f (.mark [','] joint :: rest) = f [])
    (hbehind : ∀ t joint rest, f (t :: .mark [','] joint :: rest) = f [t])
    (htwo : ∀ t t' rest, f (t :: t' :: rest) = f [t, t']) : f (row ++ tail) = f row := by
  match row with
  | [] =>
    cases hends with
    | nil => rfl
    | comma joint rest => exact hcomma joint rest
  | [t] =>
    cases hends with
    | nil => rfl
    | comma joint rest => exact hbehind t joint rest
  | t :: t' :: row => rw [List.cons_append, List.cons_append, htwo, htwo t t' row]

end Ends

/-! ## Tests -/

/-- A test of a row that does not see what can be behind an expression. -/
def LocalTest (test : List Tree → Bool) : Prop :=
  ∀ ⦃row tail : List Tree⦄, Ends tail → test (row ++ tail) = test row

namespace LocalTest

variable {test test' : List Tree → Bool}

theorem not (h : LocalTest test) : LocalTest fun row ↦ !test row :=
  fun _ _ hends ↦ congrArg Bool.not (h hends)

theorem or (h : LocalTest test) (h' : LocalTest test') :
    LocalTest fun row ↦ test row || test' row :=
  fun _ _ hends ↦ congrArg₂ Bool.or (h hends) (h' hends)

/-- A second test may look behind some trees if the first one finds that many. -/
theorem and_drop {n : ℕ} (h : LocalTest test) (hlength : ∀ row, test row = true → n ≤ row.length)
    (h' : LocalTest test') : LocalTest fun row ↦ test row && test' (row.drop n) := by
  intro row tail hends
  beta_reduce
  rw [h hends]
  cases hrow : test row with
  | false => rfl
  | true => rw [List.drop_append_of_le_length (hlength row hrow), h' hends]

end LocalTest

namespace Tree

variable {row tail : List Tree} {text : String} {texts : List String} {d : Delimiter}

theorem beginsMarks_singleton (c : Char) (t : Tree) (row : List Tree) :
    beginsMarks [c] (t :: row) = beginsMarks [c] [t] := by
  match t with
  | .mark [] _ | .mark [_] _ | .mark (_ :: _ :: _) _ | .word _ | .literal _ | .group _ _ => rfl

theorem beginsMarks_cons_congr {c : Char} {cs : List Char} {t : Tree} {row row' : List Tree}
    (h : beginsMarks cs row = beginsMarks cs row') :
    beginsMarks (c :: cs) (t :: row) = beginsMarks (c :: cs) (t :: row') := by
  cases cs with
  | nil => rw [beginsMarks_singleton, beginsMarks_singleton c t row']
  | cons c' cs =>
    match t with
    | .mark [d] joint => simp only [beginsMarks, h]
    | .mark [] _ | .mark (_ :: _ :: _) _ | .word _ | .literal _ | .group _ _ => rfl

theorem localTest_beginsMarks {cs : List Char} (hcs : ',' ∉ cs) : LocalTest (beginsMarks cs) := by
  intro row tail hends
  induction cs generalizing row with
  | nil => rfl
  | cons c cs ih =>
    obtain ⟨hc, hcs⟩ := not_or.mp (mt List.mem_cons.mpr hcs)
    cases row with
    | nil => cases hends <;> cases cs <;> simp [beginsMarks, Ne.symm hc]
    | cons t row => exact beginsMarks_cons_congr (@ih hcs row)

theorem beginsMark_append (text : String) (hends : Ends tail) (htext : ',' ∉ text.toList) :
    beginsMark text (row ++ tail) = beginsMark text row :=
  localTest_beginsMarks htext hends

theorem beginsAnyMark_append (hends : Ends tail) (htexts : ∀ text ∈ texts, ',' ∉ text.toList) :
    beginsAnyMark texts (row ++ tail) = beginsAnyMark texts row := by
  induction texts with
  | nil => rfl
  | cons text texts ih =>
    rw [List.forall_mem_cons] at htexts
    simp only [beginsAnyMark, List.any_cons, beginsMark_append text hends htexts.1]
    exact congrArg _ (ih htexts.2)

theorem beginsWord_append (hends : Ends tail) :
    beginsWord text (row ++ tail) = beginsWord text row :=
  hends.append_of_one row (fun _ _ ↦ rfl) fun t _ ↦ by cases t <;> rfl

theorem beginsAnyWord_append (hends : Ends tail) :
    beginsAnyWord texts (row ++ tail) = beginsAnyWord texts row := by
  simp only [beginsAnyWord, beginsWord_append hends]

theorem beginsIdentifier_append (hends : Ends tail) :
    beginsIdentifier (row ++ tail) = beginsIdentifier row :=
  hends.append_of_one row (fun _ _ ↦ rfl) fun t _ ↦ by cases t <;> rfl

theorem beginsSomeWord_append (hends : Ends tail) :
    beginsSomeWord (row ++ tail) = beginsSomeWord row :=
  hends.append_of_one row (fun _ _ ↦ rfl) fun t _ ↦ by cases t <;> rfl

theorem beginsGroup_append (hends : Ends tail) :
    beginsGroup d (row ++ tail) = beginsGroup d row :=
  hends.append_of_one row (fun _ _ ↦ rfl) fun t _ ↦ by cases t <;> rfl

theorem beginsLifetime_append (hends : Ends tail) :
    beginsLifetime (row ++ tail) = beginsLifetime row :=
  hends.append_of_two row (fun _ _ ↦ rfl) (fun t _ _ ↦ by simp [beginsLifetime]) fun t t' _ ↦ by
    simp only [beginsLifetime]
    split <;> simp_all

theorem beginsNegative_append (hends : Ends tail) :
    beginsNegative (row ++ tail) = beginsNegative row :=
  hends.append_of_two row (fun _ _ ↦ rfl) (fun t _ _ ↦ by simp [beginsNegative]) fun t t' _ ↦ by
    simp only [beginsNegative]
    split <;> simp_all

theorem beginsLiteral_append (hends : Ends tail) :
    beginsLiteral (row ++ tail) = beginsLiteral row := by
  have hother : ∀ row : List Tree,
      (beginsAnyWord ["true", "false"] (row ++ tail) || beginsNegative (row ++ tail)) =
        (beginsAnyWord ["true", "false"] row || beginsNegative row) := fun row ↦ by
    rw [beginsAnyWord_append hends, beginsNegative_append hends]
  cases row with
  | nil => cases hends <;> rfl
  | cons t row =>
    cases t with
    | literal => rfl
    | word w => exact hother (.word w :: row)
    | mark name joint => exact hother (.mark name joint :: row)
    | group d content => exact hother (.group d content :: row)

theorem beginsString_append (hends : Ends tail) :
    beginsString (row ++ tail) = beginsString row :=
  hends.append_of_one row (fun _ _ ↦ rfl) fun t _ ↦ by
    match t with
    | .literal [] | .literal (_ :: _) | .word _ | .mark _ _ | .group _ _ => rfl

theorem beginsAccess_append (hends : Ends tail) :
    beginsAccess (row ++ tail) = beginsAccess row := by
  simp (disch := decide) only [beginsAccess, beginsMark_append _ hends]

theorem beginsBang_append (hends : Ends tail) : beginsBang (row ++ tail) = beginsBang row := by
  simp (disch := decide) only [beginsBang, beginsMark_append _ hends]

theorem beginsEquals_append (hends : Ends tail) :
    beginsEquals (row ++ tail) = beginsEquals row := by
  simp (disch := decide) only [beginsEquals, beginsMark_append _ hends]

theorem beginsName_append (hends : Ends tail) : beginsName (row ++ tail) = beginsName row := by
  simp only [beginsName, beginsIdentifier_append hends, beginsAnyWord_append hends]

theorem beginsPath_append (hends : Ends tail) : beginsPath (row ++ tail) = beginsPath row := by
  simp (disch := decide) only [beginsPath, beginsName_append hends, beginsMark_append _ hends]

/-! ### Tests that look behind some trees -/

theorem length_le_of_beginsMarks {cs : List Char} (h : beginsMarks cs row = true) :
    cs.length ≤ row.length := by
  fun_induction beginsMarks cs row with
  | case1 => exact Nat.zero_le _
  | case2 => simp
  | case3 c more d joint rest _ ih =>
    simp only [Bool.and_eq_true] at h
    simpa using ih h.2
  | case4 => exact absurd h Bool.false_ne_true

/-- A mark that is in a row is in front of whatever is behind the row. -/
theorem beginsMarks_append_of_le {cs : List Char} (h : cs.length ≤ row.length) (tail : List Tree) :
    beginsMarks cs (row ++ tail) = beginsMarks cs row := by
  induction cs generalizing row with
  | nil => rfl
  | cons c cs ih =>
    cases row with
    | nil => exact absurd h (by simp)
    | cons t row => exact beginsMarks_cons_congr (@ih row (Nat.le_of_succ_le_succ h))

theorem length_le_of_beginsMark (h : beginsMark text row = true) : text.length ≤ row.length := by
  rw [← String.length_toList]
  exact length_le_of_beginsMarks h

theorem length_le_of_beginsWord (h : beginsWord text row = true) : 1 ≤ row.length := by
  cases row with
  | nil => exact absurd h Bool.false_ne_true
  | cons => simp

theorem length_le_of_beginsIdentifier (h : beginsIdentifier row = true) : 1 ≤ row.length := by
  cases row with
  | nil => exact absurd h Bool.false_ne_true
  | cons => simp

theorem length_le_of_beginsLifetime (h : beginsLifetime row = true) : 2 ≤ row.length := by
  unfold beginsLifetime at h
  split at h
  · simp
  · exact absurd h Bool.false_ne_true

theorem localTest_beginsMark (text : String) (htext : ',' ∉ text.toList) :
    LocalTest (beginsMark text) :=
  fun _ _ hends ↦ beginsMark_append text hends htext

theorem localTest_beginsGroup : LocalTest (beginsGroup d) := fun _ _ ↦ beginsGroup_append

theorem localTest_beginsWord : LocalTest (beginsWord text) := fun _ _ ↦ beginsWord_append

theorem localTest_beginsLifetime : LocalTest beginsLifetime := fun _ _ ↦ beginsLifetime_append

theorem beginsWord_and_drop (text : String) (row : List Tree) {test : List Tree → Bool}
    (hends : Ends tail) (h : LocalTest test) :
    (beginsWord text (row ++ tail) && test ((row ++ tail).drop 1)) =
      (beginsWord text row && test (row.drop 1)) :=
  localTest_beginsWord.and_drop (fun _ ↦ length_le_of_beginsWord) h hends

theorem beginsIdentifier_and_drop (row : List Tree) {test : List Tree → Bool} (hends : Ends tail)
    (h : LocalTest test) :
    (beginsIdentifier (row ++ tail) && test ((row ++ tail).drop 1)) =
      (beginsIdentifier row && test (row.drop 1)) :=
  LocalTest.and_drop (fun _ _ ↦ beginsIdentifier_append) (fun _ ↦ length_le_of_beginsIdentifier) h
    hends

theorem beginsMark_and_drop (text : String) (row : List Tree) (n : ℕ) {test : List Tree → Bool}
    (hends : Ends tail) (hn : n ≤ text.length) (htext : ',' ∉ text.toList) (h : LocalTest test) :
    (beginsMark text (row ++ tail) && test ((row ++ tail).drop n)) =
      (beginsMark text row && test (row.drop n)) :=
  (localTest_beginsMark text htext).and_drop
    (fun _ hmark ↦ hn.trans (length_le_of_beginsMark hmark)) h hends

theorem beginsLifetime_and_drop (row : List Tree) {test : List Tree → Bool} (hends : Ends tail)
    (h : LocalTest test) :
    (beginsLifetime (row ++ tail) && test ((row ++ tail).drop 2)) =
      (beginsLifetime row && test (row.drop 2)) :=
  localTest_beginsLifetime.and_drop (fun _ ↦ length_le_of_beginsLifetime) h hends

theorem beginsClosureLifetimes_append (hends : Ends tail) :
    beginsClosureLifetimes (row ++ tail) = beginsClosureLifetimes row := by
  have hopen : LocalTest fun row ↦ beginsWord "for" row && beginsMark "<" (row.drop 1) :=
    fun _ _ hends ↦ beginsWord_and_drop _ _ hends (localTest_beginsMark _ (by decide))
  refine hopen.and_drop (n := 2) (fun row h ↦ ?_)
    (localTest_beginsLifetime.or (localTest_beginsMark _ (by decide))) hends
  obtain ⟨-, hmark⟩ := Bool.and_eq_true_iff.mp h
  have hlength := length_le_of_beginsMark hmark
  have hone : "<".length = 1 := rfl
  rw [List.length_drop] at hlength
  omega

theorem beginsClosure_append (hends : Ends tail) :
    beginsClosure (row ++ tail) = beginsClosure row := by
  rw [beginsClosure, beginsWord_and_drop _ _ hends localTest_beginsGroup.not,
    beginsWord_and_drop _ _ hends ((localTest_beginsMark _ (by decide)).or localTest_beginsWord)]
  simp (disch := decide) only [beginsMark_append _ hends, beginsAnyWord_append hends,
    beginsClosureLifetimes_append hends]
  rfl

theorem beginsAsync_append (hends : Ends tail) : beginsAsync (row ++ tail) = beginsAsync row := by
  have hbrace : LocalTest fun row ↦
      beginsGroup .brace row || beginsWord "move" row && beginsGroup .brace (row.drop 1) :=
    localTest_beginsGroup.or fun _ _ hends ↦ beginsWord_and_drop _ _ hends localTest_beginsGroup
  have h := beginsWord_and_drop "async" row hends hbrace
  simpa only [beginsAsync, List.drop_drop, Nat.reduceAdd] using h

theorem beginsBlock_append (hends : Ends tail) : beginsBlock (row ++ tail) = beginsBlock row := by
  have hword : LocalTest fun row ↦
      beginsAnyWord ["try", "unsafe", "const"] row && beginsGroup .brace (row.drop 1) := by
    refine LocalTest.and_drop (fun _ _ ↦ beginsAnyWord_append) (fun row h ↦ ?_)
      localTest_beginsGroup
    obtain ⟨text, -, htext⟩ := List.any_eq_true.mp h
    exact length_le_of_beginsWord htext
  have hwords := @hword row tail hends
  beta_reduce at hwords
  rw [beginsBlock, hwords]
  simp only [beginsAnyWord_append hends, beginsWord_append hends, beginsGroup_append hends,
    beginsClosureLifetimes_append hends, beginsLifetime_append hends]
  rfl

theorem beginsExpression_append (hends : Ends tail) :
    beginsExpression (row ++ tail) = beginsExpression row := by
  simp (disch := decide) only [beginsExpression, beginsSomeWord_append hends,
    beginsLiteral_append hends, beginsLifetime_append hends, beginsBang_append hends,
    beginsGroup_append hends, beginsMark_append _ hends, beginsAnyMark_append hends]

theorem beginsSignature_append (hends : Ends tail) :
    Phrases.beginsSignature (row ++ tail) = Phrases.beginsSignature row := by
  have h := beginsMark_and_drop "::" row 2 hends (by decide) (by decide)
    (localTest_beginsGroup (d := .parenthesis))
  exact congrArg₂ Bool.or (beginsGroup_append hends) h

theorem beginsBound_append (hends : Ends tail) :
    Phrases.beginsBound (row ++ tail) = Phrases.beginsBound row := by
  simp (disch := decide) only [Phrases.beginsBound, beginsSomeWord_append hends,
    beginsAnyMark_append hends, beginsLifetime_append hends, beginsGroup_append hends]

theorem beginsAlternative_append (hends : Ends tail) :
    beginsAlternative (row ++ tail) = beginsAlternative row := by
  simp (disch := decide) only [beginsAlternative, beginsMark_append _ hends,
    beginsAnyMark_append hends]

theorem beginsLongName_append (hends : Ends tail) :
    beginsLongName (row ++ tail) = beginsLongName row := by
  have hbehind : LocalTest fun row ↦ beginsAnyMark ["::", "!", ".."] row ||
      beginsGroup .brace row || beginsGroup .parenthesis row :=
    LocalTest.or (.or (fun _ _ hends ↦ beginsAnyMark_append hends (by decide))
      localTest_beginsGroup) localTest_beginsGroup
  have hrest := beginsIdentifier_and_drop row hends hbehind
  beta_reduce at hrest
  rw [beginsLongName, hrest, beginsWord_and_drop _ _ hends (localTest_beginsMark _ (by decide))]
  simp (disch := decide) only [beginsAnyMark_append hends, beginsAnyWord_append hends]
  rfl

/-! ### Tests for an end -/

theorem beginsMark_comma (t : Tree) (row : List Tree) :
    beginsMark "," (t :: row) = beginsMark "," [t] :=
  beginsMarks_singleton ',' t row

theorem endsRange_append (braces : Bool) (hends : Ends tail) :
    endsRange braces (row ++ tail) = endsRange braces row := by
  cases row with
  | nil =>
    cases hends with
    | nil => rfl
    | comma joint rest => simp [endsRange, beginsAnyMark, beginsMark, beginsMarks]
  | cons t row =>
    have hothers : ∀ row' : List Tree, beginsAnyMark [",", ";", "?", "=", "+", "/", "%", "^", ">",
        "<=", "!=", "-=", "*=", "&=", "|=", "<<="] row' =
          (beginsMark "," row' || beginsAnyMark [";", "?", "=", "+", "/", "%", "^", ">",
            "<=", "!=", "-=", "*=", "&=", "|=", "<<="] row') :=
      fun _ ↦ List.any_cons
    simp only [endsRange, hothers]
    simp (disch := decide) only [beginsAccess_append hends, beginsGroup_append hends,
      beginsAnyMark_append hends, beginsWord_append hends]
    rw [List.cons_append, beginsMark_comma, beginsMark_comma t row]
    rfl

theorem endsPatternRange_append (hends : Ends tail) :
    endsPatternRange (row ++ tail) = endsPatternRange row := by
  cases row with
  | nil =>
    cases hends with
    | nil => rfl
    | comma joint rest => simp [endsPatternRange, beginsAnyMark, beginsMark, beginsMarks]
  | cons t row =>
    have hothers : ∀ row' : List Tree, beginsAnyMark ["|", "=", ",", ";"] row' =
        (beginsMark "|" row' || (beginsMark "=" row' || (beginsMark "," row' ||
          beginsAnyMark [";"] row'))) := fun _ ↦ rfl
    simp only [endsPatternRange, hothers]
    simp (disch := decide) only [beginsMark_append _ hends, beginsAnyMark_append hends,
      beginsWord_append hends]
    rw [List.cons_append, beginsMark_comma, beginsMark_comma t row]
    rfl

end Tree

/-! ### Operators -/

variable {row tail : List Tree}

theorem Infix.at?_append (hends : Ends tail) : Infix.at? (row ++ tail) = Infix.at? row := by
  have hall : ∀ i ∈ Infix.all, ',' ∉ i.text.toList := by decide
  exact List.find?_congr fun i hi ↦ Tree.beginsMark_append _ hends (hall i hi)

theorem strengthAt_append (hends : Ends tail) : strengthAt (row ++ tail) = strengthAt row := by
  simp (disch := decide) only [strengthAt, Infix.at?_append hends, Tree.beginsEquals_append hends,
    Tree.beginsMark_append _ hends, Tree.beginsWord_append hends]

end Deriving

end CurveCalc
