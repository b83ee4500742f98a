import CurveCalc.Proofs.Derivation
import CurveCalc.Proofs.LiteralPattern

/-!
# The operators of each pair of parentheses

The binary operators of a text fall into *rows*: one row for the text itself, one for each pair of
parentheses in it, each with the operators that stand directly in there, from left to right.
`operatorRows` takes them off a text in one pass, with a stack of the rows that are still open. Like
the cursor it counts an operator only where an operand has just ended, so a sign is none.

On an expression the same rows are the operators that hold its nodes together, up to the next
parentheses: `Expr.row` and `Expr.innerRows`. Whatever is read has the rows of its tree
(`Reads.operatorRows_eq`), so what is said of the rows of a text can be proved on the tree.
-/

namespace CurveCalc

open Grammar

/-! ## Rows of an expression -/

namespace Expr

/-- The operators of an expression outside all of its parentheses, from left to right. -/
def row : Expr → List BinaryOp
  | .literal _ | .var | .paren _ => []
  | .binary op a b => a.row ++ op :: b.row
  | .log a | .logWith a _ => a.row
  | .danglingPow a => a.row ++ [.pow]

/-- The rows of all pairs of parentheses of an expression, in the order in which they close. -/
def innerRows : Expr → List (List BinaryOp)
  | .literal _ | .var => []
  | .paren e => e.innerRows ++ [e.row]
  | .binary _ a b => a.innerRows ++ b.innerRows
  | .log a | .logWith a _ | .danglingPow a => a.innerRows

end Expr

namespace Grammar

/-! ## Rows of a text -/

/-- The operators met so far in a text. -/
structure Tally where
  /-- Whether an operand has just ended. -/
  ended : Bool
  /-- The operators of the innermost open parentheses, or of the text itself if none are open. -/
  row : List BinaryOp
  /-- The rows around it, innermost first. -/
  outer : List (List BinaryOp)
  /-- The rows of the parentheses that have closed. -/
  closed : List (List BinaryOp)
deriving DecidableEq, Repr

namespace Tally

def empty : Tally := ⟨false, [], [], []⟩

/-- The tally after one more character. -/
def step (k : Tally) (c : Char) : Tally :=
  if c = '(' then ⟨false, [], k.row :: k.outer, k.closed⟩
  else if c = ')' then ⟨true, k.outer.headD [], k.outer.tail, k.closed ++ [k.row]⟩
  else if Literal.isPadding c then k
  else
    { k with
      ended := Cursor.endsOperand c
      row := if k.ended then k.row ++ (BinaryOp.ofChar? c).toList else k.row }

/-- The tally after a text. -/
def run (k : Tally) (text : List Char) : Tally := text.foldl step k

@[simp] theorem run_nil (k : Tally) : k.run [] = k := rfl

@[simp] theorem run_cons (k : Tally) (c : Char) (text : List Char) :
    k.run (c :: text) = (k.step c).run text := rfl

@[simp] theorem run_append (k : Tally) (s t : List Char) : k.run (s ++ t) = (k.run s).run t :=
  List.foldl_append

theorem step_open (k : Tally) : k.step '(' = ⟨false, [], k.row :: k.outer, k.closed⟩ := rfl

theorem step_close (k : Tally) :
    k.step ')' = ⟨true, k.outer.headD [], k.outer.tail, k.closed ++ [k.row]⟩ := rfl

theorem step_symbol {k : Tally} (hk : k.ended = true) (op : BinaryOp) :
    k.step op.symbol = { k with ended := false, row := k.row ++ [op] } := by
  rw [step, hk, BinaryOp.ofChar?_symbol]
  cases op <;> rfl

end Tally

/-- The rows of a text: its own first, then those of its parentheses. -/
def operatorRows (text : List Char) : List (List BinaryOp) :=
  let k := Tally.empty.run text
  k.row :: k.closed

example : operatorRows "(x-1)*x^-2+log(3)".toList = [[.mul, .pow, .add], [.sub], []] := by decide

/-! ## What is read has the rows of its tree -/

theorem not_paren_of_class {p : Char → Bool} (hopen : p '(' = false) (hclose : p ')' = false)
    {c : Char} (hc : p c = true) : (c ≠ '(' && c ≠ ')') = true := by
  rw [Bool.and_eq_true, decide_eq_true_eq, decide_eq_true_eq]
  constructor
  · rintro rfl
    exact absurd (hopen.symm.trans hc) (by decide)
  · rintro rfl
    exact absurd (hclose.symm.trans hc) (by decide)

theorem covers_not_paren : Literal.Covers fun c ↦ c ≠ '(' && c ≠ ')' where
  padding _ hc := not_paren_of_class (by decide) (by decide) hc
  hexDigit _ hc := not_paren_of_class (by decide) (by decide) hc
  marks := by decide

/-- Where the cursor meets no loose operator and no parenthesis, the tally follows it and leaves the
rows as they are. -/
theorem Tally.step_of_tidy {k : Tally} {d : Int} {c : Char} (h : Tidy d [] ⟨d, k.ended⟩ c)
    (hc : (c ≠ '(' && c ≠ ')') = true) :
    ∃ b, (⟨d, k.ended⟩ : Cursor).step c = ⟨d, b⟩ ∧ k.step c = { k with ended := b } := by
  rw [Bool.and_eq_true, decide_eq_true_eq, decide_eq_true_eq] at hc
  -- where an operand has ended there is no operator to count
  have hrow : (if k.ended then k.row ++ (BinaryOp.ofChar? c).toList else k.row) = k.row := by
    split
    · next hended =>
      have hnone : BinaryOp.ofChar? c = none := by
        rw [Option.eq_none_iff_forall_ne_some]
        intro op hop
        have hmem := h.loose (by rw [hended]) op (BinaryOp.eq_symbol_of_ofChar? hop)
        exact absurd hmem (by simp)
      rw [hnone, Option.toList_none, List.append_nil]
    · rfl
  rw [Tally.step, if_neg hc.1, if_neg hc.2, Cursor.step, if_neg hc.1, if_neg hc.2, hrow]
  split
  · exact ⟨_, rfl, rfl⟩
  · exact ⟨_, rfl, rfl⟩

theorem Tally.run_of_tidyRun {text : List Char} {k : Tally} {d : Int}
    (h : TidyRun d [] ⟨d, k.ended⟩ text) (hparen : ∀ c ∈ text, (c ≠ '(' && c ≠ ')') = true) :
    k.run text = { k with ended := ((⟨d, k.ended⟩ : Cursor).run text).ended } := by
  induction text generalizing k with
  | nil => rfl
  | cons c text ih =>
    obtain ⟨hc, hrest⟩ := List.forall_mem_cons.mp hparen
    obtain ⟨b, hcursor, hstep⟩ := Tally.step_of_tidy h.1 hc
    have htext := h.2
    rw [hcursor] at htext
    rw [Tally.run_cons, Cursor.run_cons, hcursor, hstep]
    exact ih htext hrest

/-- **What is read adds the row of its tree to the row that is open**, and the rows of its
parentheses to those that have closed. -/
theorem Reads.run_tally {g : Grammar} {level : Level} {text : List Char} {e : Expr}
    (h : Reads g level text e) {k : Tally} (hk : k.ended = false) :
    k.run text = ⟨true, k.row ++ e.row, k.outer, k.closed ++ e.innerRows⟩ := by
  induction h generalizing k with
  | @split c op left right a b _ _ _ ihl ihr =>
    rw [Tally.run_append, ihl hk, Tally.run_cons, Tally.step_symbol rfl, ihr rfl]
    simp only [Expr.row, Expr.innerRows, List.append_assoc, List.cons_append, List.nil_append]
  | fall _ ih => exact ih hk
  | base _ ih => exact ih hk
  | @log text e _ ih =>
    have hlog : k.run ['l', 'o', 'g'] = k := by
      obtain ⟨ended, row, outer, closed⟩ := k
      obtain rfl : ended = false := hk
      rfl
    show (k.run ['l', 'o', 'g']).run text = _
    rw [hlog, ih hk]
    rfl
  | @paren text e _ ih =>
    show (k.step '(').run (text ++ [')']) = _
    rw [Tally.run_append, Tally.step_open, ih rfl, Tally.run_cons, Tally.run_nil, Tally.step_close]
    simp [Expr.row, Expr.innerRows]
  | literal hv =>
    have hpattern := Literal.isLiteralText_of_readLiteral? hv
    have hpasses := passes_of_isLiteralText (d := 0) hpattern
    rw [← hk] at hpasses
    rw [Tally.run_of_tidyRun hpasses.tidyRun (hpattern.covered covers_not_paren), hpasses.run_eq]
    simp [Expr.row, Expr.innerRows]
  | var =>
    rw [Tally.run_cons, Tally.run_nil, Tally.step, hk]
    simp [Expr.row, Expr.innerRows, Literal.isPadding]
    decide

/-- **What is read has the rows of its tree**, whatever the grammar. -/
theorem Reads.operatorRows_eq {g : Grammar} {level : Level} {text : List Char} {e : Expr}
    (h : Reads g level text e) : operatorRows text = e.row :: e.innerRows := by
  rw [operatorRows, h.run_tally rfl]
  rfl

end Grammar

/-! ## The operators of a row -/

namespace BinaryOp

/-- The height of the chain that an operator belongs to. -/
def height (op : BinaryOp) : Nat := (Level.chain op.chain).height

theorem height_eq_of_mem {op : BinaryOp} {c : Chain} (h : op ∈ c.operators) :
    op.height = (Level.chain c).height := by
  rw [height, chain_eq_of_mem h]

theorem two_le_height (op : BinaryOp) : 2 ≤ op.height := by
  cases op <;> decide

end BinaryOp

namespace Grammar

section Canonical

variable {level : Level} {text : List Char} {e : Expr}

theorem Reads.mem_loose_of_mem_row (h : Reads .canonical level text e) :
    ∀ op ∈ e.row, op ∈ looseOperators .canonical level := by
  induction h with
  | @split c op left right a b hop _ _ ihl ihr =>
    refine List.forall_mem_append.mpr ⟨fun op' hop' ↦ ?_, List.forall_mem_cons.mpr ⟨?_, ?_⟩⟩
    · exact loose_left_subset .canonical c (ihl op' hop')
    · exact operators_subset_loose .canonical c hop
    · exact fun op' hop' ↦ loose_right_subset .canonical c (ihr op' hop')
  | @fall c _ _ _ ih => exact fun op hop ↦ loose_below_subset .canonical c (ih op hop)
  | base _ ih => exact ih
  | log _ ih => exact ih
  | paren | literal | var => exact fun _ hop ↦ absurd hop (by simp [Expr.row])

theorem Reads.at_level {g : Grammar} (h : Reads g level text e) : Reads g e.level text e := by
  induction h with
  | split hop hl hr _ _ =>
    rw [Expr.level, BinaryOp.chain_eq_of_mem hop]
    exact .split hop hl hr
  | fall _ ih => exact ih
  | base _ ih => exact ih
  | log h => exact .log h
  | paren h => exact .paren h
  | literal hv => exact .literal hv
  | var => exact .var

/-- The operators that can be loose at a canonical level belong to no chain above it. -/
theorem mem_loose_iff_height_le {op : BinaryOp} :
    op ∈ looseOperators .canonical level ↔ op.height ≤ level.height := by
  cases op <;> rcases level with (_ | _ | _) | _ | _ <;> decide

/-- **The highest operator of a row is the one at the root.** The operators of a row are not above a
level if and only if the root is not. -/
theorem Reads.forall_row_le_iff (h : Reads .canonical level text e) {n : Nat}
    (hn : Level.base.height ≤ n) : (∀ op ∈ e.row, op.height ≤ n) ↔ e.level.height ≤ n := by
  constructor
  · intro hall
    cases e with
    | literal | var | paren => exact Nat.zero_le n
    | log | logWith => exact hn
    | binary op a b => exact hall op (by simp [Expr.row])
    | danglingPow a => exact hall .pow (by simp [Expr.row])
  · intro hle op hop
    exact Nat.le_trans (mem_loose_iff_height_le.mp (h.at_level.mem_loose_of_mem_row op hop)) hle

end Canonical

end Grammar

end CurveCalc
