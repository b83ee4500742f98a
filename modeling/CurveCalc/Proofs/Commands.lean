import CurveCalc.Command
import CurveCalc.Proofs.RealDerivative
import CurveCalc.Proofs.WellShaped

/-!
# Commands

Which command a line is, and how it can fail. The first is settled by four equivalences, one for
each command (`Command.ofLine_eq_display_iff` and its siblings).

A command reads one expression, and after that all its work is on that tree and the trees derived
from it. Trees that are read are complete, derivatives of complete trees are complete, and a
complete tree has a value in doubles at every point; so once the expression is read, nothing is left
to fail but the point of an evaluation. `Command.run_of_parse_error` and `Command.run_of_parse_ok`
say this for all four commands at once.

The place of a point that is no literal is counted in bytes. An expression is ASCII, so its start is
the right one in characters too; its end is, exactly if the point is ASCII as well
(`Command.badPoint_stop_eq_length_iff`).
-/

namespace CurveCalc

/-! ## Splitting a line -/

namespace Command

theorem after?_eq_some_iff {head text rest : List Char} :
    after? head text = some rest ↔ text = head ++ rest := by
  fun_induction after? head text with
  | case1 text => simp
  | case2 h hs => simp
  | case3 h hs cs ih => simp [ih]
  | case4 h hs c cs hne =>
    simp only [reduceCtorEq, List.cons_append, List.cons.injEq, false_iff, not_and]
    intro hc
    exact absurd hc.symm hne

theorem after?_eq_none_iff {head text : List Char} : after? head text = none ↔ ¬head <+: text := by
  rw [Option.eq_none_iff_forall_ne_some]
  constructor
  · rintro h ⟨rest, hrest⟩
    exact h rest (after?_eq_some_iff.mpr hrest.symm)
  · intro h rest hrest
    exact h ⟨rest, (after?_eq_some_iff.mp hrest).symm⟩

theorem splitAtLast?_eq_none_iff {mark : Char} {text : List Char} :
    splitAtLast? mark text = none ↔ mark ∉ text := by
  fun_induction splitAtLast? mark text with
  | case1 => simp
  | case2 c cs before after h ih => simp_all
  | case3 cs h ih => simp
  | case4 c cs h hne ih => simp_all [eq_comm]

theorem splitAtLast?_eq_some_iff {mark : Char} {text before after : List Char} :
    splitAtLast? mark text = some (before, after) ↔
      text = before ++ mark :: after ∧ mark ∉ after := by
  constructor
  · intro h
    fun_induction splitAtLast? mark text generalizing before with
    | case1 => simp at h
    | case2 c cs before' after' hcs ih =>
      obtain ⟨rfl, rfl⟩ := Prod.mk.inj (Option.some.inj h)
      obtain ⟨rfl, hafter⟩ := ih hcs
      exact ⟨rfl, hafter⟩
    | case3 cs hcs ih =>
      obtain ⟨rfl, rfl⟩ := Prod.mk.inj (Option.some.inj h)
      exact ⟨rfl, splitAtLast?_eq_none_iff.mp hcs⟩
    | case4 c cs hcs hne ih => simp at h
  · rintro ⟨rfl, hafter⟩
    induction before with
    | nil =>
      rw [List.nil_append, splitAtLast?, splitAtLast?_eq_none_iff.mpr hafter]
      exact if_pos rfl
    | cons c before ih => rw [List.cons_append, splitAtLast?, ih]

variable {line input point : List Char}

theorem ofLine_eq_tabulate_iff :
    ofLine line = .tabulate input ↔
      Text.dropBlanks line = ['t', 'a', 'b', 'l', 'e', ' '] ++ input := by
  rw [← after?_eq_some_iff, ofLine]
  cases after? ['t', 'a', 'b', 'l', 'e', ' '] (Text.dropBlanks line) with
  | some input' => simp
  | none =>
    cases after? ['d', ' '] (Text.dropBlanks line) with
    | some input' => simp
    | none => cases splitAtLast? '@' line <;> simp

theorem ofLine_eq_differentiate_iff :
    ofLine line = .differentiate input ↔ Text.dropBlanks line = ['d', ' '] ++ input := by
  rw [← after?_eq_some_iff, ofLine]
  cases htable : after? ['t', 'a', 'b', 'l', 'e', ' '] (Text.dropBlanks line) with
  | some input' =>
    -- no text starts in both ways
    rw [after?_eq_some_iff.mp htable]
    simp [after?]
  | none =>
    cases after? ['d', ' '] (Text.dropBlanks line) with
    | some input' => simp
    | none => cases splitAtLast? '@' line <;> simp

/-- The command of a line starts with a word, `table` or `d`. -/
def StartsWithWord (line : List Char) : Prop :=
  ['t', 'a', 'b', 'l', 'e', ' '] <+: Text.dropBlanks line ∨ ['d', ' '] <+: Text.dropBlanks line

theorem ofLine_of_not_startsWithWord (h : ¬StartsWithWord line) :
    ofLine line =
      (splitAtLast? '@' line).elim (.display line) fun cut ↦ .evaluate cut.1 cut.2 := by
  obtain ⟨htable, hd⟩ := not_or.mp h
  rw [ofLine, after?_eq_none_iff.mpr htable, after?_eq_none_iff.mpr hd]
  cases splitAtLast? '@' line with
  | none => rfl
  | some cut => rfl

theorem not_startsWithWord_of_ofLine (htable : ∀ input, ofLine line ≠ .tabulate input)
    (hd : ∀ input, ofLine line ≠ .differentiate input) : ¬StartsWithWord line := by
  rintro (⟨input, h⟩ | ⟨input, h⟩)
  · exact htable input (ofLine_eq_tabulate_iff.mpr h.symm)
  · exact hd input (ofLine_eq_differentiate_iff.mpr h.symm)

/-- A line without a word in front is told apart by its last `@` alone. -/
theorem ofLine_eq_iff {c : Command} (htable : ∀ input, c ≠ .tabulate input)
    (hd : ∀ input, c ≠ .differentiate input) :
    ofLine line = c ↔ ¬StartsWithWord line ∧
      (splitAtLast? '@' line).elim (.display line) (fun cut ↦ .evaluate cut.1 cut.2) = c := by
  constructor
  · rintro rfl
    have hword := not_startsWithWord_of_ofLine htable hd
    exact ⟨hword, (ofLine_of_not_startsWithWord hword).symm⟩
  · rintro ⟨hword, hcommand⟩
    rw [ofLine_of_not_startsWithWord hword, hcommand]

theorem ofLine_eq_evaluate_iff :
    ofLine line = .evaluate input point ↔
      ¬StartsWithWord line ∧ line = input ++ '@' :: point ∧ '@' ∉ point := by
  rw [← splitAtLast?_eq_some_iff, ofLine_eq_iff (by simp) (by simp)]
  cases splitAtLast? '@' line with
  | some cut => simp [Prod.ext_iff]
  | none => simp

theorem ofLine_eq_display_iff :
    ofLine line = .display input ↔ ¬StartsWithWord line ∧ '@' ∉ line ∧ input = line := by
  rw [← splitAtLast?_eq_none_iff, ofLine_eq_iff (by simp) (by simp)]
  cases splitAtLast? '@' line with
  | some cut => simp
  | none => simp [eq_comm]

end Command

/-! ## Trees that are read -/

namespace Grammar

/-- What is read is complete: no text stands for a power without an exponent, or for a logarithm
with a spare operand. -/
theorem Reads.complete {g : Grammar} {level : Level} {text : List Char} {e : Expr}
    (h : Reads g level text e) : e.Complete := by
  induction h with
  | split _ _ _ iha ihb => exact ⟨iha, ihb⟩
  | fall _ ih | base _ ih | log _ ih | paren _ ih => exact ih
  | literal | var => trivial

end Grammar

theorem complete_of_parse {o : ReadOptions} {input : List Char} {e : Expr}
    (h : parse o input = .ok e) : e.Complete :=
  (reads_of_parse h).complete

theorem text_of_parse_error {o : ReadOptions} {input : List Char} {error : ParseError}
    (h : parse o input = .error error) : error.text = Grammar.dropSpaces input := by
  rw [parse, Grammar.Reading.result] at h
  split at h
  · exact absurd h (by simp)
  · rw [← Except.error.inj h]

theorem exists_parse_error_of_dropSpaces {o : ReadOptions} {input : List Char}
    (h : Grammar.dropSpaces input = []) : ∃ error, parse o input = .error error := by
  cases hparse : parse o input with
  | ok e => exact absurd h (reads_of_parse hparse).ne_nil
  | error error => exact ⟨error, rfl⟩

/-! ## Complete trees -/

namespace Expr

variable {e : Expr}

theorem eval_eq_ok (h : e.Complete) (x : Float) :
    e.eval x = .ok (e.valueIn Arithmetic.double x) :=
  evalIn_eq_ok Arithmetic.double x h

theorem exists_derivative_complete (h : e.Complete) :
    ∃ d, e.derivative = .ok d ∧ d.Complete := by
  obtain ⟨d, hd⟩ := exists_isDerivative h
  exact ⟨d, hd.derivative_eq, hd.complete h⟩

theorem pointsAt_eq_ok {f : Float → Float} (h : ∀ x, e.eval x = .ok (f x)) (xs : List Float) :
    e.pointsAt xs = .ok (xs.map fun x ↦ ⟨x, f x⟩) := by
  have hpoint : (fun x ↦ do let y ← e.eval x; return (⟨x, y⟩ : Point)) =
      fun x ↦ (pure ⟨x, f x⟩ : Except Inconsistency Point) := by
    funext x
    rw [h x]
    rfl
  rw [pointsAt, hpoint, List.mapM_pure]
  rfl

theorem exists_sample_of_complete (h : e.Complete) (w : Window) :
    ∃ points, e.sample w = .ok points := by
  rw [sample]
  split
  · exact ⟨_, pointsAt_eq_ok (eval_eq_ok h) w.xs⟩
  · exact ⟨[], rfl⟩

end Expr

/-! ## The steps of a command -/

namespace Logged

variable {ε ε' α β : Type} {wrap : ε → ε'} {a : Logged (Except ε α)} {f : α → Logged (Except ε' β)}

theorem value_andThenOk_of_ok {v : α} (h : a.value = .ok v) :
    (a.andThenOk wrap f).value = (f v).value := by
  rw [andThenOk, andThen, h]

theorem value_andThenOk_of_error {error : ε} (h : a.value = .error error) :
    (a.andThenOk wrap f).value = .error (wrap error) := by
  rw [andThenOk, andThen, h]
  rfl

end Logged

namespace Command

/-- The text that a command reads its expression from. -/
def expression : Command → List Char
  | .display input | .differentiate input | .evaluate input _ | .tabulate input => input

theorem value_read_of_ok {input : List Char} {e : Expr} (h : parse {} input = .ok e) :
    (read input).value = .ok e :=
  Logged.value_andThenOk_of_ok h

theorem value_read_of_error {input : List Char} {error : ParseError}
    (h : parse {} input = .error error) : (read input).value = .error (.parse error) :=
  Logged.value_andThenOk_of_error h

theorem run_of_parse_error {c : Command} {error : ParseError}
    (h : parse {} c.expression = .error error) : c.run = .error (.parse error) := by
  cases c <;> exact Logged.value_andThenOk_of_error (value_read_of_error h)

section Read

/-! What a command answers once its expression is read. -/

variable {input point : List Char} {e d : Expr}

theorem run_display (h : parse {} input = .ok e) :
    (display input).run = .ok (treeText "y" e) :=
  Logged.value_andThenOk_of_ok (value_read_of_ok h)

theorem run_differentiate (h : parse {} input = .ok e) (hd : e.derivative = .ok d) :
    (differentiate input).run = .ok (treeText "y'" d) := by
  rw [← Expr.value_derivativeLogged] at hd
  rw [run, runLogged, Logged.value_andThenOk_of_ok (value_read_of_ok h),
    Logged.value_andThenOk_of_ok hd]
  rfl

theorem run_evaluate_of_no_point (h : parse {} input = .ok e) (hpoint : readLiteral? point = none) :
    (evaluate input point).run =
      .error (.badPoint (input ++ '@' :: point) (pointSpan input point)) := by
  rw [run, runLogged, Logged.value_andThenOk_of_ok (value_read_of_ok h), hpoint]
  rfl

theorem run_evaluate {x : Float} (h : parse {} input = .ok e) (hpoint : readLiteral? point = some x)
    (hd : e.derivative = .ok d) : (evaluate input point).run = valuesAt e d x := by
  rw [← Expr.value_derivativeLogged] at hd
  rw [run, runLogged, Logged.value_andThenOk_of_ok (value_read_of_ok h), hpoint]
  exact Logged.value_andThenOk_of_ok hd

theorem run_tabulate {points slopes : List Point} (h : parse {} input = .ok e)
    (hd : e.derivative = .ok d) (hpoints : e.sample tableWindow = .ok points)
    (hslopes : d.sample tableWindow = .ok slopes) :
    (tabulate input).run = .ok (tableText points slopes) := by
  rw [← Expr.value_derivativeLogged] at hd
  rw [← Expr.value_sampleLogged] at hpoints hslopes
  rw [run, runLogged, Logged.value_andThenOk_of_ok (value_read_of_ok h),
    Logged.value_andThenOk_of_ok hd, Logged.value_andThenOk_of_ok hpoints,
    Logged.value_andThenOk_of_ok hslopes]
  rfl

end Read

theorem exists_valuesAt {e d : Expr} (he : e.Complete) (hd : d.Complete) (x : Float) :
    ∃ text, valuesAt e d x = .ok text := by
  rw [valuesAt, Expr.eval_eq_ok he, Expr.eval_eq_ok hd]
  exact ⟨_, rfl⟩

/-- Where the expression can be read, a command has output or its point is no literal. -/
theorem run_of_parse_ok {c : Command} {e : Expr} (h : parse {} c.expression = .ok e) :
    (∃ text, c.run = .ok text) ∨
      ∃ input point,
        c.run = .error (.badPoint (input ++ '@' :: point) (pointSpan input point)) := by
  have he := complete_of_parse h
  obtain ⟨d, hd, hcomplete⟩ := Expr.exists_derivative_complete he
  cases c with
  | display input =>
    left
    exact ⟨_, run_display h⟩
  | differentiate input =>
    left
    exact ⟨_, run_differentiate h hd⟩
  | evaluate input point =>
    cases hpoint : readLiteral? point with
    | none =>
      right
      exact ⟨input, point, run_evaluate_of_no_point h hpoint⟩
    | some x =>
      left
      obtain ⟨text, htext⟩ := exists_valuesAt he hcomplete x
      exact ⟨text, (run_evaluate h hpoint hd).trans htext⟩
  | tabulate input =>
    left
    obtain ⟨points, hpoints⟩ := Expr.exists_sample_of_complete he tableWindow
    obtain ⟨slopes, hslopes⟩ := Expr.exists_sample_of_complete hcomplete tableWindow
    exact ⟨_, run_tabulate h hd hpoints hslopes⟩

end Command

/-! ## The place of a point -/

theorem isAscii_of_parse {o : ReadOptions} {input : List Char} {e : Expr}
    (h : parse o input = .ok e) : Text.IsAscii input := by
  have hknown := (reads_of_parse h).known
  intro c hc
  by_cases hspace : c = ' '
  · rw [hspace]
    decide
  · have hmem : c ∈ Grammar.dropSpaces input := List.mem_filter.mpr ⟨hc, by simpa using hspace⟩
    exact Diagnosis.val_le_of_isKnown (hknown c hmem)

namespace Command

variable {line input point : List Char} {e : Expr}

/-- **Where the place of a bad point is right in characters**: it starts after the last `@`, and it
ends with the line exactly if the point is ASCII. -/
theorem badPoint_stop_eq_length_iff (hline : ofLine line = .evaluate input point)
    (hparse : parse {} input = .ok e) (hpoint : readLiteral? point = none) :
    ∃ span, (ofLine line).run = .error (.badPoint line span) ∧
      line = input ++ '@' :: point ∧ '@' ∉ point ∧ span.start = (input ++ ['@']).length ∧
        span.stop = Text.byteLength line ∧ (span.stop = line.length ↔ Text.IsAscii point) := by
  obtain ⟨-, rfl, hlast⟩ := ofLine_eq_evaluate_iff.mp hline
  have hinput := Text.byteLength_eq_length_iff.mpr (isAscii_of_parse hparse)
  refine ⟨pointSpan input point, ?_, rfl, hlast, ?_, ?_, ?_⟩
  · rw [hline, run_evaluate_of_no_point hparse hpoint]
  · rw [pointSpan, hinput, List.length_append, List.length_singleton]
  · rw [pointSpan, Text.byteLength_append, Text.byteLength_cons]
    exact Nat.add_assoc _ 1 _
  · rw [← Text.byteLength_eq_length_iff, pointSpan, hinput, List.length_append, List.length_cons]
    simp only
    omega

/-- A letter where a point should be. -/
theorem badPoint_stop_eq_length_iff_letter :
    ∃ span, (ofLine "x @ y".toList).run = .error (.badPoint "x @ y".toList span) ∧
      span.start = 3 ∧ span.stop = 5 := by
  obtain ⟨e, he⟩ : ∃ e, parse {} "x ".toList = .ok e :=
    exists_parse_of_reads rfl (.of_primary .var)
  have hline : ofLine "x @ y".toList = .evaluate "x ".toList " y".toList := by decide
  obtain ⟨span, hrun, -, -, hstart, hstop, -⟩ := badPoint_stop_eq_length_iff hline he (by decide)
  exact ⟨span, hrun, hstart, hstop⟩

/-- **The place of a bad point does not end with every line**: an accented letter is one character
in two bytes. -/
theorem not_forall_badPoint_stop_eq_length :
    ¬∀ (line input point : List Char) (e : Expr), ofLine line = .evaluate input point →
      parse {} input = .ok e → readLiteral? point = none →
        ∃ span, (ofLine line).run = .error (.badPoint line span) ∧
          span.start = (input ++ ['@']).length ∧ span.stop = line.length := by
  intro h
  obtain ⟨e, he⟩ : ∃ e, parse {} "x ".toList = .ok e :=
    exists_parse_of_reads rfl (.of_primary .var)
  have hline : ofLine "x @ é".toList = .evaluate "x ".toList " é".toList := by decide
  have hpoint : readLiteral? " é".toList = none := by decide
  obtain ⟨span, hrun, -, hstop⟩ := h _ _ _ e hline he hpoint
  rw [hline, run_evaluate_of_no_point he hpoint] at hrun
  obtain ⟨-, rfl⟩ := CommandError.badPoint.inj (Except.error.inj hrun)
  exact absurd hstop (by decide)

end Command

end CurveCalc
