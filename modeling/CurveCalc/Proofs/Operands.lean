import CurveCalc.Expr.Written
import CurveCalc.Proofs.ChainSearch

/-!
# Single operands

A text that the base level of some grammar reads is a single operand: a literal, the variable, what
stands in parentheses, the logarithm of one of these. Whatever operators it has inside, none of them
is loose, so no cut of it is read at any level of either grammar, and without a limit every level
from the base up reads it as the base level does (`readAt_operand_eq`). Two operands with an
operator between them are cut there and nowhere else (`eq_cut_of_operands`), and so they are read as
that operator on their two trees (`readAt_joined`).

The searches of the two grammars differ in the levels of operands and in which cut comes first; for
single operands neither matters.
-/

namespace CurveCalc

namespace Grammar

variable {o : ReadOptions} {g : Grammar} {c : Chain} {level : Level} {depth : Nat}
  {text left right : List Char} {op : BinaryOp} {a b e : Expr}

/-! ## One operand -/

theorem Reads.operand_cut_fails (h : Reads g .base text e) (c : Chain) (depth : Nat) :
    ∀ s ∈ splits c.operators text, (cutReading o c depth s).tree? = none := by
  intro s hs
  rw [Option.eq_none_iff_forall_ne_some]
  intro e' hcut
  exact absurd (h.mem_loose_of_cut hs hcut) (by simp [looseOperators])

/-- **Every level reads an operand as the base level does.** -/
theorem readAt_operand_eq (ho : o.maxDepth = none) (h : Reads g .base text e) (upper : Level)
    (hle : Level.base.height ≤ upper.height) (depth depth' : Nat) :
    (readAt o upper depth text).tree? = (readAt o .base depth' text).tree? :=
  readAt_eq_of_cuts_fail ho (Nat.le_refl _) (fun c depth _ ↦ h.operand_cut_fails c depth) upper hle
    depth depth'

theorem readAt_enclosed (ho : o.maxDepth = none) (h : Reads g (.chain .sum) text e) (upper : Level)
    (depth depth' : Nat) :
    (readAt o upper depth (Expr.enclosed text)).tree? =
      (readAt o (.chain .sum) depth' text).tree?.map .paren := by
  have hread : Reads g .primary (Expr.enclosed text) (.paren e) := .paren h
  have hprimary : ∀ depth, (readAt o .primary depth (Expr.enclosed text)).tree? =
      (readAt o (.chain .sum) depth' text).tree?.map .paren := by
    intro depth
    rw [Expr.enclosed, readAt_primary_parens (permits_of_unlimited ho depth),
      readAt_eq_of_unlimited ho (depth + 1) depth']
  have hbase : (readAt o .base depth (Expr.enclosed text)).tree? =
      (readAt o (.chain .sum) depth' text).tree?.map .paren := by
    rw [readAt_base (permits_of_unlimited ho depth), Reading.tree?_orElse, hprimary]
    exact Option.or_none
  cases upper with
  | primary => exact hprimary depth
  | base => exact hbase
  | chain c =>
    rw [readAt_operand_eq ho (.base hread) (.chain c) (by cases c <;> decide) depth depth, hbase]

theorem readAt_log_enclosed (ho : o.maxDepth = none) (h : Reads g (.chain .sum) text e)
    (upper : Level) (hle : Level.base.height ≤ upper.height) (depth depth' : Nat) :
    (readAt o upper depth (Operator.log.symbol ++ Expr.enclosed text)).tree? =
      (readAt o (.chain .sum) depth' text).tree?.map fun e ↦ .log (.paren e) := by
  have hread : Reads g .base (Operator.log.symbol ++ Expr.enclosed text) (.log (.paren e)) :=
    .log (.paren h)
  have hlog := readAt_base_log (permits_of_unlimited ho depth) (Expr.enclosed text)
  rw [readAt_enclosed ho h _ _ depth', Option.map_map] at hlog
  exact (readAt_operand_eq ho hread upper hle depth depth).trans hlog

/-! ## Two operands -/

/-- Between two operands there is one place where a cut can be read. -/
theorem eq_cut_of_operands {g' : Grammar} (hl : Reads g .base left a) (hr : Reads g' .base right b)
    {s : Split} (hs : s ∈ splits c.operators (left ++ op.symbol :: right))
    (hcut : (cutReading o c depth s).tree? = some e) : s = ⟨left, op, right⟩ := by
  obtain ⟨a', b', ha', -, -⟩ := exists_of_tree?_ofSplit hcut
  have hrun : (⟨0, false⟩ : Cursor).run s.left = ⟨0, true⟩ := (reads_of_readAt ha').run_eq
  obtain ⟨sleft, sop, sright⟩ := s
  rcases symbol_cases (text_of_mem_splits hs) with
    ⟨rfl, rfl, rfl⟩ | ⟨mid, rfl, -⟩ | ⟨mid, hleft, rfl⟩
  · rfl
  · -- the cut is further to the left, inside the first operand
    exact absurd (hl.mem_loose hrun) (by simp [looseOperators])
  · -- the cut is further to the right, inside the second
    obtain rfl : sleft = left ++ op.symbol :: mid := hleft
    rw [Cursor.run_append, hl.run_eq, Cursor.run_cons, Cursor.step_symbol] at hrun
    exact absurd (hr.mem_loose hrun) (by simp [looseOperators])

private theorem height_base_le_operands (g : Grammar) (c : Chain) :
    Level.base.height ≤ (g.operandLevels c).1.height ∧
      Level.base.height ≤ (g.operandLevels c).2.height := by
  cases g <;> cases c <;> decide

/-- **Two operands with an operator between them are read as that operator on their trees**, at the
chain of the operator and above. -/
theorem readAt_joined (ho : o.maxDepth = none) {depthl depthr : Nat}
    (hl : (readAt o .base depthl left).tree? = some a)
    (hr : (readAt o .base depthr right).tree? = some b) (op : BinaryOp) (upper : Level)
    (hle : (Level.chain op.chain).height ≤ upper.height) (depth : Nat) :
    (readAt o upper depth (left ++ op.symbol :: right)).tree? = some (.binary op a b) := by
  have hreadl := reads_of_readAt hl
  have hreadr := reads_of_readAt hr
  have hother : ∀ c depth, (Level.chain op.chain).height < (Level.chain c).height →
      ∀ s ∈ splits c.operators (left ++ op.symbol :: right),
        (cutReading o c depth s).tree? = none := by
    intro c depth hlt s hs
    rw [Option.eq_none_iff_forall_ne_some]
    intro e hcut
    have hop := op_mem_of_mem_splitsFrom hs
    rw [eq_cut_of_operands hreadl hreadr hs hcut] at hop
    rw [BinaryOp.chain_eq_of_mem hop] at hlt
    exact absurd hlt (Nat.lt_irrefl _)
  rw [readAt_eq_of_cuts_fail ho (by cases op <;> decide) hother upper hle depth depth]
  obtain ⟨hbasel, hbaser⟩ := height_base_le_operands o.grammar op.chain
  refine (readAt_chain_eq_some_iff (permits_of_unlimited ho depth)).mpr
    (Or.inl ⟨⟨left, op, right⟩, ?_, ?_⟩)
  · refine triesCut_of_fails (mem_splits op.mem_operators_chain left right) fun s hs hlength ↦ ?_
    rw [Option.eq_none_iff_forall_ne_some]
    intro e hcut
    rw [eq_cut_of_operands hreadl hreadr hs hcut] at hlength
    exact absurd hlength (Nat.lt_irrefl _)
  · refine cutReading_eq_some ?_ ?_
    · rw [readAt_operand_eq ho hreadl _ hbasel (depth + 1) depthl, hl]
    · rw [readAt_operand_eq ho hreadr _ hbaser (depth + 1) depthr, hr]

/-! ## Whole texts -/

/-- Without a limit, whatever is accepted is read as a sum. -/
theorem readWhole_of_unlimited (ho : o.maxDepth = none) :
    (readWhole o text).tree? = (readAt o (.chain .sum) 0 text).tree? := by
  rw [readWhole, Reading.tree?_orElse]
  cases hprimary : (readAt o .primary 0 text).tree? with
  | none => exact Option.or_none
  | some e =>
    obtain ⟨e', he'⟩ := exists_readAt_of_reads (o := o) (.of_primary (reads_of_readAt hprimary))
      (permits_of_unlimited ho (0 + _))
    rw [he', Option.some_or]

theorem dropSpaces_append (s t : List Char) : dropSpaces (s ++ t) = dropSpaces s ++ dropSpaces t :=
  List.filter_append s t

theorem dropSpaces_enclosed (text : List Char) :
    dropSpaces (Expr.enclosed text) = Expr.enclosed (dropSpaces text) := by
  simp [dropSpaces, Expr.enclosed]

theorem dropSpaces_symbol (op : BinaryOp) (text : List Char) :
    dropSpaces (op.symbol :: text) = op.symbol :: dropSpaces text := by
  cases op <;> rfl

end Grammar

open Grammar

theorem parse_eq_ok_iff_readAt {o : ReadOptions} (ho : o.maxDepth = none) {input : List Char}
    {e : Expr} :
    parse o input = .ok e ↔ (readAt o (.chain .sum) 0 (dropSpaces input)).tree? = some e := by
  rw [parse, Reading.result_eq_ok_iff, readWhole_of_unlimited ho]

/-- **Texts in parentheses compose**, in both grammars: what is accepted is accepted in parentheses,
as the argument of a logarithm, and on either side of any operator, each time with the tree that it
has on its own. -/
theorem parse_enclosed {g : Grammar} {s t : List Char} {a b : Expr}
    (hs : parse ⟨g, none⟩ s = .ok a) (ht : parse ⟨g, none⟩ t = .ok b) :
    parse ⟨g, none⟩ (Expr.enclosed s) = .ok (.paren a) ∧
      parse ⟨g, none⟩ (Operator.log.symbol ++ Expr.enclosed s) = .ok (.log (.paren a)) ∧
      ∀ op : BinaryOp, parse ⟨g, none⟩ (Expr.enclosed s ++ op.symbol :: Expr.enclosed t) =
        .ok (.binary op (.paren a) (.paren b)) := by
  have hreads := reads_of_parse hs
  have hreadt := reads_of_parse ht
  rw [parse_eq_ok_iff_readAt rfl] at hs ht
  simp only [parse_eq_ok_iff_readAt, dropSpaces_append, dropSpaces_enclosed, dropSpaces_symbol]
  refine ⟨?_, ?_, fun op ↦ ?_⟩
  · rw [readAt_enclosed rfl hreads _ 0 0, hs, Option.map_some]
  · rw [show dropSpaces Operator.log.symbol = Operator.log.symbol from rfl,
      readAt_log_enclosed rfl hreads _ (by decide) 0 0, hs, Option.map_some]
  · have hleft : (readAt ⟨g, none⟩ .base 0 (Expr.enclosed (dropSpaces s))).tree? =
        some (.paren a) := by
      rw [readAt_enclosed rfl hreads _ 0 0, hs, Option.map_some]
    have hright : (readAt ⟨g, none⟩ .base 0 (Expr.enclosed (dropSpaces t))).tree? =
        some (.paren b) := by
      rw [readAt_enclosed rfl hreadt _ 0 0, ht, Option.map_some]
    exact readAt_joined rfl hleft hright op _ (Level.height_le _) 0

/-- In parentheses the legacy grammar regroups the difference as it does outside, and the last
parenthesis is not taken for the partner of the first. -/
theorem parse_enclosed_regrouped :
    parse ⟨.legacy, none⟩ "x-x*x".toList = .ok (.binary .mul (.binary .sub .var .var) .var) ∧
      parse ⟨.legacy, none⟩ "(x)^(x)".toList = .ok (.binary .pow (.paren .var) (.paren .var)) ∧
      parse ⟨.legacy, none⟩ "(x-x*x)-((x)^(x))".toList =
        .ok (.binary .sub (.paren (.binary .mul (.binary .sub .var .var) .var))
          (.paren (.binary .pow (.paren .var) (.paren .var)))) := by
  have hs : parse ⟨.legacy, none⟩ "x-x*x".toList =
      .ok (.binary .mul (.binary .sub .var .var) .var) := by
    decide +kernel
  have ht : parse ⟨.legacy, none⟩ "(x)^(x)".toList =
      .ok (.binary .pow (.paren .var) (.paren .var)) := by
    decide +kernel
  obtain ⟨-, -, hjoined⟩ := parse_enclosed hs ht
  exact ⟨hs, ht, hjoined .sub⟩

end CurveCalc
