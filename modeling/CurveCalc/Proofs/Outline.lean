import CurveCalc.Expr.Written
import CurveCalc.Proofs.Cursor
import CurveCalc.Proofs.Lines
import CurveCalc.Proofs.NumberText
import CurveCalc.Proofs.PostOrder

/-!
# The tree text determines the tree

The text of a tree has no brackets. It has one line for each node, a node before its operands, and
the number of tabs in front of a line is the depth of the node; `Expr.preOrder` lists the nodes with
their places, and the length of a path is a depth.

## Why nothing else is needed

A line says what its node is (`Head.text_injective`), and in a complete tree this says how many
operands there are. So the text of a tree cannot be continued to that of another one: what follows
the first line is the text of the operands, one after the other, and where each of them ends is
known from its own first line (`outline_append_inj`). The tabs are not used for that, they repeat
what the heads say already.
-/

namespace CurveCalc

namespace Expr

/-! ## What a line says -/

/-- What a node is, apart from its operands. -/
inductive Head where
  | number (value : Float)
  | var
  | parens
  | operator (op : BinaryOp)
  | log

def Head.text : Head → List Char
  | .number v => NumberStyle.literal.write v
  | .var => ['x']
  | .parens => ['(', ')']
  | .operator op => [op.symbol]
  | .log => Operator.log.symbol

def head : Expr → Head
  | .literal v => .number v
  | .var => .var
  | .paren _ => .parens
  | .binary op _ _ => .operator op
  | .log _ | .logWith _ _ => .log
  | .danglingPow _ => .operator .pow

namespace Head

/-- Only the line of a number is read as a number. -/
theorem eq_number {h : Head} {v : Float} (heq : h.text = NumberStyle.literal.write v) :
    h = .number v := by
  have hread := readLiteral?_write v
  rw [← heq] at hread
  cases h with
  | number w =>
    rw [text, readLiteral?_write, Option.some.injEq] at hread
    rw [hread]
  | var | parens | log =>
    rw [show readLiteral? _ = none from rfl] at hread
    exact absurd hread (by simp)
  | operator op =>
    cases op <;> rw [show readLiteral? _ = none from rfl] at hread <;> exact absurd hread (by simp)

theorem text_injective : Function.Injective text := by
  intro h h' heq
  cases h with
  | number v => exact (eq_number heq.symm).symm
  | operator op =>
    cases h' with
    | number v => exact eq_number heq
    | operator op' => rw [BinaryOp.symbol_injective (List.cons.inj heq).1]
    | var | parens | log => cases op <;> exact absurd heq (by decide)
  | var | parens | log =>
    cases h' with
    | number v => exact eq_number heq
    | operator op => cases op <;> exact absurd heq (by decide)
    | var | parens | log => first | rfl | exact absurd heq (by decide)

theorem not_isPadding (h : Head) : ∀ c ∈ h.text, Literal.isPadding c = false := by
  cases h with
  | number v => exact NumberStyle.isPadding_of_mem_write v
  | var | parens | log => exact Literal.not_isPadding_of_all (by decide)
  | operator op => cases op <;> exact Literal.not_isPadding_of_all (by decide)

theorem lineFeed_notMem (h : Head) : '\n' ∉ h.text := fun hmem ↦
  absurd (h.not_isPadding _ hmem) (by decide)

end Head

/-! ## Lines in pre-order -/

/-- The nodes of a tree that stands at a path, each before its operands. -/
def preOrderFrom (path : List Nat) (e : Expr) : List Place :=
  ⟨path, e⟩ ::
    match e with
    | .literal _ | .var => []
    | .paren a | .log a | .danglingPow a => a.preOrderFrom (0 :: path)
    | .binary _ a b | .logWith a b => a.preOrderFrom (0 :: path) ++ b.preOrderFrom (1 :: path)

/-- The nodes of a tree at their places, each before its operands. -/
def preOrder (e : Expr) : List Place := e.preOrderFrom []

/-- The line of a node: its head behind the tabs that are given and one more for each step from the
root. -/
def Place.line (indent : Nat) (p : Place) : List Char :=
  List.replicate (indent + p.path.length) '\t' ++ p.expr.head.text

variable {e e' : Expr}

theorem preOrderFrom_perm (path : List Nat) (e : Expr) :
    (e.preOrderFrom path).Perm (e.placesFrom path) := by
  induction e generalizing path with
  | literal | var => exact .refl _
  | paren a ih | log a ih | danglingPow a ih =>
    rw [preOrderFrom, placesFrom]
    exact ((ih _).cons _).trans (List.perm_append_singleton _ _).symm
  | binary _ a b iha ihb | logWith a b iha ihb =>
    rw [preOrderFrom, placesFrom]
    exact (((iha _).append (ihb _)).cons _).trans (List.perm_append_singleton _ _).symm

theorem preOrder_perm_places (e : Expr) : e.preOrder.Perm e.places := by
  rw [places_eq_placesFrom]
  exact preOrderFrom_perm [] e

theorem outline_eq_flatMap_preOrderFrom (h : e.Complete) (n : Nat) (path : List Nat) :
    e.outline (n + path.length) =
      (e.preOrderFrom path).flatMap fun p ↦ p.line n ++ ['\n'] := by
  induction e generalizing path with
  | literal | var =>
    simp [outline, outlineLine, preOrderFrom, Place.line, head, Head.text]
  | paren a ih | log a ih =>
    have ha := ih h (0 :: path)
    rw [List.length_cons, ← Nat.add_assoc] at ha
    simp [outline, outlineLine, preOrderFrom, Place.line, head, Head.text, ha]
  | binary op a b iha ihb =>
    have ha := iha h.1 (0 :: path)
    have hb := ihb h.2 (1 :: path)
    rw [List.length_cons, ← Nat.add_assoc] at ha hb
    simp [outline, outlineLine, preOrderFrom, Place.line, head, Head.text, ha, hb]
  | danglingPow | logWith => exact h.elim


/-! ## Reading the tree off its text -/

variable {n : Nat}

/-- The first line of a text is told from what follows. -/
theorem outlineLine_append_inj {h h' : Head} {rest rest' : List Char}
    (heq : outlineLine n h.text ++ rest = outlineLine n h'.text ++ rest') :
    h = h' ∧ rest = rest' := by
  simp only [outlineLine, List.append_assoc, List.append_cancel_left_eq, List.singleton_append]
    at heq
  -- the end of the line stands where the head ends, as it does not occur in a head
  rcases List.append_eq_append_iff.mp heq with
    ⟨_ | ⟨c, mid⟩, htext, hmid⟩ | ⟨_ | ⟨c, mid⟩, htext, hmid⟩
  · rw [List.append_nil] at htext
    exact ⟨Head.text_injective htext.symm, (List.cons.inj hmid).2⟩
  · obtain ⟨rfl, -⟩ := List.cons.inj hmid
    exact absurd (htext ▸ by simp) h'.lineFeed_notMem
  · rw [List.append_nil] at htext
    exact ⟨Head.text_injective htext, (List.cons.inj hmid).2.symm⟩
  · obtain ⟨rfl, -⟩ := List.cons.inj hmid
    exact absurd (htext ▸ by simp) h.lineFeed_notMem

theorem outline_eq_line_append (h : e.Complete) (n : Nat) :
    e.outline n = outlineLine n e.head.text ++ e.operands.flatMap (outline (n + 1)) := by
  cases e with
  | literal | var | paren | log | binary => simp [outline, head, Head.text, operands]
  | danglingPow | logWith => exact h.elim

theorem operands_of_outline_append (h : e.Complete) (h' : e'.Complete) {rest rest' : List Char}
    (heq : e.outline n ++ rest = e'.outline n ++ rest') :
    e.head = e'.head ∧ e.operands.flatMap (outline (n + 1)) ++ rest =
      e'.operands.flatMap (outline (n + 1)) ++ rest' := by
  rw [outline_eq_line_append h, outline_eq_line_append h', List.append_assoc,
    List.append_assoc] at heq
  exact outlineLine_append_inj heq

/-- **A tree is read off the front of a text.** Complete trees whose texts start alike are the same
tree, and what follows them is the same. -/
theorem outline_append_inj (h : e.Complete) (h' : e'.Complete) {rest rest' : List Char}
    (heq : e.outline n ++ rest = e'.outline n ++ rest') : e = e' ∧ rest = rest' := by
  induction e generalizing e' n rest rest' with
  | literal v =>
    obtain ⟨hhead, hrest⟩ := operands_of_outline_append h h' heq
    cases e' with
    | literal w => exact ⟨by rw [Head.number.inj hhead], hrest⟩
    | var | paren | binary | log | danglingPow | logWith => exact absurd hhead (by simp [head])
  | var =>
    obtain ⟨hhead, hrest⟩ := operands_of_outline_append h h' heq
    cases e' with
    | var => exact ⟨rfl, hrest⟩
    | literal | paren | binary | log | danglingPow | logWith => exact absurd hhead (by simp [head])
  | paren a ih =>
    obtain ⟨hhead, hrest⟩ := operands_of_outline_append h h' heq
    cases e' with
    | paren a' =>
      simp only [operands, List.flatMap_singleton] at hrest
      obtain ⟨rfl, hafter⟩ := ih h (show a'.Complete from h') hrest
      exact ⟨rfl, hafter⟩
    | literal | var | binary | log | danglingPow | logWith => exact absurd hhead (by simp [head])
  | binary op a b iha ihb =>
    obtain ⟨hhead, hrest⟩ := operands_of_outline_append h h' heq
    cases e' with
    | binary op' a' b' =>
      simp only [operands, List.flatMap_cons, List.flatMap_nil, List.append_nil,
        List.append_assoc] at hrest
      obtain ⟨ha', hb'⟩ := h'
      obtain ⟨rfl, hright⟩ := iha h.1 ha' hrest
      obtain ⟨rfl, hafter⟩ := ihb h.2 hb' hright
      exact ⟨by rw [Head.operator.inj hhead], hafter⟩
    | literal | var | paren | log | logWith => exact absurd hhead (by simp [head])
    | danglingPow => exact h'.elim
  | log a ih =>
    obtain ⟨hhead, hrest⟩ := operands_of_outline_append h h' heq
    cases e' with
    | log a' =>
      simp only [operands, List.flatMap_singleton] at hrest
      obtain ⟨rfl, hafter⟩ := ih h (show a'.Complete from h') hrest
      exact ⟨rfl, hafter⟩
    | literal | var | paren | binary | danglingPow => exact absurd hhead (by simp [head])
    | logWith => exact h'.elim
  | danglingPow | logWith => exact h.elim

theorem lines_outline (h : e.Complete) (n : Nat) :
    Text.lines (e.outline n) = e.preOrder.map (Place.line n) := by
  have hplain : ∀ p ∈ e.preOrder, ∀ c ∈ p.line n, c ≠ '\n' ∧ c ≠ '\r' := by
    intro p _ c hc
    rcases List.mem_append.mp hc with hc | hc
    · rw [List.eq_of_mem_replicate hc]
      decide
    · have hpadding := p.expr.head.not_isPadding c hc
      constructor
      · rintro rfl
        exact absurd hpadding (by decide)
      · rintro rfl
        exact absurd hpadding (by decide)
  rw [← Text.lines_flatMap hplain, preOrder, ← outline_eq_flatMap_preOrderFrom h n []]
  rfl

theorem Place.line_add (n k : Nat) (p : Place) :
    p.line (n + k) = List.replicate k '\t' ++ p.line n := by
  rw [line, line, ← List.append_assoc, List.replicate_append_replicate, Nat.add_right_comm,
    Nat.add_comm k]

/-- **The tree text determines the tree.** No other complete tree has the same text behind the same
number of tabs. The text has one line for each node that a walk visits, and the lines are those of
the nodes in pre-order, with a tab for each step from the root. More tabs in front of the tree are
tabs in front of every line. -/
theorem outline_determines (h : e.Complete) (n : Nat) :
    (∀ e' : Expr, e'.Complete → e.outline n = e'.outline n → e = e') ∧
      (Text.lines (e.outline n)).length = e.nodeCount ∧
      Text.lines (e.outline n) = e.preOrder.map (Place.line n) ∧
      e.preOrder.Perm e.places ∧
      ∀ k, e.outline (n + k) =
        (Text.lines (e.outline n)).flatMap fun line ↦ List.replicate k '\t' ++ line ++ ['\n'] := by
  have hperm := e.preOrder_perm_places
  refine ⟨fun e' h' heq ↦ ?_, ?_, lines_outline h n, hperm, fun k ↦ ?_⟩
  · have happend : e.outline n ++ [] = e'.outline n ++ [] := by rw [heq]
    exact (outline_append_inj h h' happend).1
  · rw [lines_outline h n, List.length_map, hperm.length_eq]
    rfl
  · have htext := outline_eq_flatMap_preOrderFrom h (n + k) []
    simp only [Place.line_add] at htext
    rw [lines_outline h n, List.flatMap_map]
    exact htext

/-- The base of the power is the negative zero, and not the positive one. -/
theorem outline_determines_power :
    (Expr.binary .pow (.literal (Binary64.signed true 0)) (.log (.paren .var))).Complete ∧
      Text.lines (outline 1
        (.binary .pow (.literal (Binary64.signed true 0)) (.log (.paren .var)))) =
        ["\t^".toList, "\t\t-0.0".toList, "\t\tlog".toList, "\t\t\t()".toList,
          "\t\t\t\tx".toList] ∧
      outline 1 (.binary .pow (.literal (Binary64.signed true 0)) (.log (.paren .var))) ≠
        outline 1 (.binary .pow (.literal (Binary64.signed false 0)) (.log (.paren .var))) := by
  have h : (Expr.binary .pow (.literal (Binary64.signed true 0)) (.log (.paren .var))).Complete :=
    ⟨trivial, trivial⟩
  obtain ⟨hinj, -, hlines, -⟩ := outline_determines h 1
  have h' : (Expr.binary .pow (.literal (Binary64.signed false 0)) (.log (.paren .var))).Complete :=
    ⟨trivial, trivial⟩
  refine ⟨h, hlines.trans (by cbv), fun heq ↦ ?_⟩
  exact absurd (hinj _ h' heq) (by decide)

end Expr

end CurveCalc
