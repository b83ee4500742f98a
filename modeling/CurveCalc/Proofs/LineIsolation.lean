import CurveCalc.Proofs.Commands
import CurveCalc.Session

/-!
# Lines of a session

A session is meant to answer each of its lines on its own: whatever is wrong with one of them is
reported, and the next is run. The answers to lines are shown here to be independent of each other,
and exactly one kind of line to break the session off: a line whose command finds nothing but spaces
where it looks for its expression, such as `d ` or `@ 3`. The reader refuses that as it refuses any
other text, but its error is about a text with no characters, and over such a text no report can be
made.
-/

namespace CurveCalc

namespace Report

/-- Over a text without characters no report can be made, and over any other text there is one. -/
structure Writer.NeedsText (w : Writer) : Prop where
  exists_of_ne_nil : ∀ source {text} d, text ≠ [] → ∃ report, w source text d = .ok report
  nil : ∀ source d, ∃ failure, w source [] d = .error failure

theorem needsText_render : Writer.NeedsText render where
  exists_of_ne_nil _ _ _ h := ⟨_, if_neg h⟩
  nil _ _ := ⟨.noLine, if_pos rfl⟩

end Report

/-! ## Lines without an expression -/

namespace Grammar

theorem dropSpaces_eq_nil_iff {text : List Char} :
    dropSpaces text = [] ↔ ∃ n, text = List.replicate n ' ' := by
  rw [dropSpaces, List.filter_eq_nil_iff]
  constructor
  · intro h
    refine ⟨text.length, List.eq_replicate_iff.mpr ⟨rfl, fun c hc ↦ ?_⟩⟩
    simpa using h c hc
  · rintro ⟨n, rfl⟩ c hc
    simpa using List.eq_of_mem_replicate hc

end Grammar

theorem Text.dropBlanks_spaces_append (n : Nat) (text : List Char) :
    dropBlanks (List.replicate n ' ' ++ text) = dropBlanks text := by
  refine List.dropWhile_append_of_pos fun c hc ↦ ?_
  rw [List.eq_of_mem_replicate hc]
  decide

theorem Command.startsWithWord_spaces_append (n : Nat) (text : List Char) :
    StartsWithWord (List.replicate n ' ' ++ text) ↔ StartsWithWord text := by
  rw [StartsWithWord, Text.dropBlanks_spaces_append, StartsWithWord]

namespace Session

variable {line : List Char}

/-- Something other than spaces stands where the command of the line looks for its expression. -/
def HasExpression (line : List Char) : Prop :=
  Grammar.dropSpaces (Command.ofLine line).expression ≠ []

instance : DecidablePred HasExpression := fun line ↦
  inferInstanceAs (Decidable (Grammar.dropSpaces (Command.ofLine line).expression ≠ []))

/-- The lines without an expression: a word with spaces after it, an `@` with spaces before it, or
nothing but spaces. -/
theorem not_hasExpression_iff :
    ¬HasExpression line ↔ ∃ n,
      Text.dropBlanks line = ['t', 'a', 'b', 'l', 'e', ' '] ++ List.replicate n ' ' ∨
        Text.dropBlanks line = ['d', ' '] ++ List.replicate n ' ' ∨
        (∃ point, '@' ∉ point ∧ line = List.replicate n ' ' ++ '@' :: point) ∨
        line = List.replicate n ' ' := by
  rw [HasExpression, not_not, Grammar.dropSpaces_eq_nil_iff]
  refine exists_congr fun n ↦ ?_
  constructor
  · intro h
    cases hline : Command.ofLine line <;> rw [hline] at h <;> obtain rfl := h
    case tabulate => exact Or.inl (Command.ofLine_eq_tabulate_iff.mp hline)
    case differentiate => exact Or.inr (Or.inl (Command.ofLine_eq_differentiate_iff.mp hline))
    case evaluate point =>
      obtain ⟨-, hsplit, hpoint⟩ := Command.ofLine_eq_evaluate_iff.mp hline
      exact Or.inr (Or.inr (Or.inl ⟨point, hpoint, hsplit⟩))
    case display =>
      obtain ⟨-, -, hinput⟩ := Command.ofLine_eq_display_iff.mp hline
      exact Or.inr (Or.inr (Or.inr hinput.symm))
  · rintro (h | h | ⟨point, hpoint, rfl⟩ | rfl)
    · rw [Command.ofLine_eq_tabulate_iff.mpr h, Command.expression]
    · rw [Command.ofLine_eq_differentiate_iff.mpr h, Command.expression]
    · have hword : ¬Command.StartsWithWord (List.replicate n ' ' ++ '@' :: point) := by
        rw [Command.startsWithWord_spaces_append, Command.StartsWithWord, Text.dropBlanks,
          List.dropWhile_cons_of_neg (by decide)]
        simp
      rw [Command.ofLine_eq_evaluate_iff.mpr ⟨hword, rfl, hpoint⟩, Command.expression]
    · have hword : ¬Command.StartsWithWord (List.replicate n ' ') := by
        rw [← List.append_nil (List.replicate n ' '), Command.startsWithWord_spaces_append]
        rintro (h | h) <;> exact absurd h (by decide)
      have hat : '@' ∉ List.replicate n ' ' := fun h ↦
        absurd (List.eq_of_mem_replicate h) (by decide)
      rw [Command.ofLine_eq_display_iff.mpr ⟨hword, hat, rfl⟩, Command.expression]

/-! ## The answer to a line -/

/-- The output of a line whose command succeeds. -/
def output? (line : List Char) : Option String :=
  (Command.ofLine line).run.toOption.map (· ++ "\n")

namespace Console

variable {c : Console}

/-- The report on a line that is answered with one. -/
def report? (c : Console) (line : List Char) : Option String :=
  match c.respond line with
  | .report text => some text
  | .output _ | .crash => none

theorem respond_of_run_ok {text : String} (h : (Command.ofLine line).run = .ok text) :
    c.respond line = .output (text ++ "\n") := by
  rw [respond, h]

theorem respond_cases (h : c.respond line ≠ .crash) :
    (∃ text, (Command.ofLine line).run = .ok text ∧ c.respond line = .output (text ++ "\n")) ∨
      ∃ error report, (Command.ofLine line).run = .error error ∧
        c.respond line = .report report := by
  cases hrun : (Command.ofLine line).run with
  | ok text => exact Or.inl ⟨text, rfl, respond_of_run_ok hrun⟩
  | error error =>
    right
    cases hanswer : c.respond line with
    | report report => exact ⟨error, report, rfl, rfl⟩
    | crash => exact absurd hanswer h
    | output text =>
      rw [respond, hrun] at hanswer
      dsimp only at hanswer
      split at hanswer
      · exact absurd hanswer (by simp)
      · split at hanswer <;> exact absurd hanswer (by simp)

section NeedsText

variable (hc : c.report.NeedsText)
include hc

theorem exists_respond_of_run_error {error : CommandError} {text : List Char} {d : Diagnosis}
    (h : (Command.ofLine line).run = .error error) (hd : error.diagnosis? = some (text, d))
    (htext : text ≠ []) : ∃ report, c.respond line = .report report := by
  obtain ⟨report, hreport⟩ := hc.exists_of_ne_nil sourceName d htext
  refine ⟨report, ?_⟩
  simp only [respond, h, hd, hreport]

theorem respond_ne_crash (h : HasExpression line) : c.respond line ≠ .crash := by
  cases hparse : parse {} (Command.ofLine line).expression with
  | error error =>
    have htext : error.text ≠ [] := by
      rw [text_of_parse_error hparse]
      exact h
    obtain ⟨report, hreport⟩ :=
      exists_respond_of_run_error hc (Command.run_of_parse_error hparse) rfl htext
    simp [hreport]
  | ok e =>
    rcases Command.run_of_parse_ok hparse with ⟨text, hrun⟩ | ⟨input, point, hrun⟩
    · simp [respond_of_run_ok hrun]
    · -- the report is about the whole line, and that has the `@` in it
      obtain ⟨report, hreport⟩ := exists_respond_of_run_error hc hrun rfl (by simp)
      simp [hreport]

theorem respond_of_not_hasExpression (h : ¬HasExpression line) : c.respond line = .crash := by
  have hspaces : Grammar.dropSpaces (Command.ofLine line).expression = [] := not_not.mp h
  obtain ⟨error, hparse⟩ := exists_parse_error_of_dropSpaces (o := {}) hspaces
  have htext := text_of_parse_error hparse
  rw [hspaces] at htext
  obtain ⟨failure, hfailure⟩ := hc.nil sourceName error.diagnosis
  simp only [respond, Command.run_of_parse_error hparse, CommandError.diagnosis?, htext, hfailure]

/-- **The lines that break a session off.** -/
theorem respond_eq_crash_iff : c.respond line = .crash ↔ ¬HasExpression line :=
  ⟨fun hcrash h ↦ respond_ne_crash hc h hcrash, respond_of_not_hasExpression hc⟩

end NeedsText

/-! ## Runs -/

/-- One step of a run: the answer to a line stands in front of all that comes after. -/
theorem afterResponse_eq (h : c.respond line ≠ .crash) (rest : Transcript) :
    rest.afterResponse (c.respond line) =
      ⟨(output? line).getD "" ++ rest.output, (c.report? line).getD "" ++ rest.reports,
        rest.crashed⟩ := by
  rcases respond_cases h with ⟨text, hrun, hanswer⟩ | ⟨error, report, hrun, hanswer⟩
  · simp [output?, report?, hrun, hanswer, Transcript.afterResponse, Transcript.afterOutput,
      Except.toOption]
  · simp [output?, report?, hrun, hanswer, Transcript.afterResponse, Transcript.afterReport,
      Except.toOption]

end Console

theorem join_filterMap_cons {α : Type} (f : α → Option String) (a : α) (as : List α) :
    String.join ((a :: as).filterMap f) = (f a).getD "" ++ String.join (as.filterMap f) := by
  cases hfa : f a with
  | none => rw [List.filterMap_cons_none hfa, Option.getD_none, String.empty_append]
  | some text => rw [List.filterMap_cons_some hfa, String.join_cons, Option.getD_some]

/-- The lines before the first that has no expression. -/
def answered (lines : List (List Char)) : List (List Char) :=
  lines.takeWhile fun line ↦ decide (HasExpression line)

theorem answered_cons_of_hasExpression (h : HasExpression line) (lines : List (List Char)) :
    answered (line :: lines) = line :: answered lines :=
  List.takeWhile_cons_of_pos (decide_eq_true h)

theorem answered_cons_of_not_hasExpression (h : ¬HasExpression line) (lines : List (List Char)) :
    answered (line :: lines) = [] :=
  List.takeWhile_cons_of_neg (by rwa [decide_eq_true_eq])

theorem answered_eq_self {lines : List (List Char)} (h : ∀ line ∈ lines, HasExpression line) :
    answered lines = lines := by
  rw [answered, List.takeWhile_eq_self_iff]
  exact fun line hline ↦ decide_eq_true (h line hline)

namespace Console

variable {c : Console}

/-- A run answers the lines before the first that has no expression, and breaks off at that. -/
theorem runLines_eq (hc : c.report.NeedsText) (lines : List (List Char)) :
    c.runLines lines =
      ⟨String.join ((answered lines).filterMap output?),
        String.join ((answered lines).filterMap c.report?),
        decide (¬∀ line ∈ lines, HasExpression line)⟩ := by
  induction lines with
  | nil => rfl
  | cons line lines ih =>
    rw [runLines]
    by_cases h : HasExpression line
    · rw [afterResponse_eq (respond_ne_crash hc h), ih, answered_cons_of_hasExpression h,
        join_filterMap_cons, join_filterMap_cons]
      simp [h]
    · rw [respond_of_not_hasExpression hc h, answered_cons_of_not_hasExpression h]
      simp [h, Transcript.afterResponse, Transcript.broken]

/-! ## Piped input -/

section Piped

variable {input : List UInt8} {text : List Char}

theorem piped_eq_runLines (h : decode? input = some text) :
    c.piped input = c.runLines (commandLines text) := by
  rw [piped, h]

theorem exitCode_piped (hc : c.report.NeedsText) (h : decode? input = some text) :
    (c.piped input).exitCode =
      if ∀ line ∈ commandLines text, HasExpression line then 0 else 101 := by
  rw [piped_eq_runLines h, runLines_eq hc, Transcript.exitCode]
  by_cases hall : ∀ line ∈ commandLines text, HasExpression line
  · rw [if_pos hall, decide_eq_false (not_not.mpr hall)]
    rfl
  · rw [if_neg hall, decide_eq_true hall]
    rfl

/-- **Where the lines of a session are isolated.** Piped text is answered line by line, each line on
its own, up to the first that is not blank and yet has no expression; there the session breaks off.
So lines are isolated, and the session ends well, exactly if there is no such line. -/
theorem piped_isolated_iff (hc : c.report.NeedsText) (h : decode? input = some text) :
    (c.piped input).output =
        String.join ((answered (commandLines text)).filterMap output?) ∧
      (c.piped input).reports =
        String.join ((answered (commandLines text)).filterMap c.report?) ∧
      (c.piped input).exitCode =
        (if ∀ line ∈ commandLines text, HasExpression line then 0 else 101) ∧
      ((c.piped input).exitCode = 0 ∧
          (c.piped input).output = String.join ((commandLines text).filterMap output?) ↔
        ∀ line ∈ commandLines text, HasExpression line) := by
  have hrun : c.piped input = _ := (piped_eq_runLines h).trans (runLines_eq hc _)
  refine ⟨by rw [hrun], by rw [hrun], exitCode_piped hc h, ?_⟩
  rw [exitCode_piped hc h]
  constructor
  · rintro ⟨hzero, -⟩
    by_contra hall
    rw [if_neg hall] at hzero
    exact absurd hzero (by decide)
  · intro hall
    rw [if_pos hall, hrun, answered_eq_self hall]
    exact ⟨rfl, rfl⟩

end Piped

/-- The line `x+` is reported, and the line `x` after it is run. -/
theorem piped_isolated_iff_loose_operator :
    console.report.NeedsText ∧ decode? [120, 43, 10, 120] = some ['x', '+', '\n', 'x'] ∧
      (∀ line ∈ commandLines ['x', '+', '\n', 'x'], HasExpression line) ∧
      (Session.piped [120, 43, 10, 120]).exitCode = 0 ∧
      (Session.piped [120, 43, 10, 120]).output = "x\ny = x\n" := by
  have hc : console.report.NeedsText := Report.needsText_render
  have hdecode : decode? [120, 43, 10, 120] = some ['x', '+', '\n', 'x'] := by decide
  have hall : ∀ line ∈ commandLines ['x', '+', '\n', 'x'], HasExpression line := by decide
  obtain ⟨-, -, -, hiff⟩ := piped_isolated_iff hc hdecode
  obtain ⟨hcode, houtput⟩ := hiff.mpr hall
  refine ⟨hc, hdecode, hall, hcode, houtput.trans ?_⟩
  decide +kernel

end Console

/-- The line `d ` is not blank, and has no expression: the line `x` after it is not run. -/
theorem not_forall_piped_isolated :
    ¬∀ (input : List UInt8) (text : List Char), decode? input = some text →
      (piped input).exitCode = 0 ∧
        (piped input).output = String.join ((commandLines text).filterMap output?) := by
  intro h
  have hdecode : decode? [100, 32, 10, 120] = some ['d', ' ', '\n', 'x'] := by decide
  obtain ⟨hcode, -⟩ := h _ _ hdecode
  rw [piped, Console.exitCode_piped Report.needsText_render hdecode, if_neg (by decide)] at hcode
  exact absurd hcode (by decide)

end Session

end CurveCalc
