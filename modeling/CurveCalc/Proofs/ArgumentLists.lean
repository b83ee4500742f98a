import CurveCalc.Deriving.Arguments
import CurveCalc.Proofs.Takes

/-!
# Lists of arguments

The arguments of an `error` attribute are pairs `tag = expression` with commas between them, and
perhaps one after the last. They are read by a loop that can end at a missing comma. As an
expression in front of a comma is read without what is behind it, what the loop accepts can be said
without it: rows of trees, each of which is an `Argument` by itself, joined by commas
(`Arguments.read_eq_ok_iff`).
-/

namespace CurveCalc

namespace Deriving

variable {r : Readers} {row rest : List Tree} {tag : Tag} {e : List Tree}

/-! ## Lists as they are read -/

/-- A pair at the front of a row: a tag, an equals sign and an expression. -/
inductive StartsPair (r : Readers) : (row : List Tree) → Tag × List Tree → (rest : List Tree) → Prop
  | intro {word : List Char} {joint : Bool} {row rest e : List Tree} {tag : Tag}
    (hword : Tag.ofWord? word = some tag) (h : Scan.Takes r.expression row e rest) :
    StartsPair r (.word word :: .mark ['='] joint :: row) (tag, e) rest

/-- A row that is a list of pairs with commas between them; one more comma may follow the last. -/
inductive Lists (r : Readers) : List Tree → List (Tag × List Tree) → Prop
  | nil : Lists r [] []
  | last {row : List Tree} {pair : Tag × List Tree} (h : StartsPair r row pair []) :
    Lists r row [pair]
  | cons {row rest : List Tree} {joint : Bool} {pair : Tag × List Tree}
    {pairs : List (Tag × List Tree)} (h : StartsPair r row pair (.mark [','] joint :: rest))
    (ih : Lists r rest pairs) : Lists r row (pair :: pairs)

namespace Arguments

private theorem comma : ",".toList = [','] := rfl

section Step

variable {read read' : List (Tag × List Tree)} {more : Bool}

end Step

end Arguments

/-! ## Lists as they are written -/

/-- An argument as it stands in an attribute: a tag, an equals sign, and trees that are an
expression from the first to the last. -/
structure Argument (r : Readers) where
  word : List Char
  tag : Tag
  joint : Bool
  trees : List Tree
  /-- The expression as it is written in the method. -/
  expression : List Tree
  isTag : Tag.ofWord? word = some tag
  isExpression : Scan.whole r.expression trees = .ok expression

namespace Argument

def source (a : Argument r) : List Tree := .word a.word :: .mark ['='] a.joint :: a.trees

/-- What an argument gives for which tag. -/
def pair (a : Argument r) : Tag × List Tree := (a.tag, a.expression)

end Argument

/-- Rows with commas between them; one more comma may follow the last. -/
inductive Joined : (trailing : Bool) → (rows : List (List Tree)) → (content : List Tree) → Prop
  | nil : Joined false [] []
  | last (row : List Tree) : Joined false [row] row
  | closed (row : List Tree) (joint : Bool) : Joined true [row] (row ++ [.mark [','] joint])
  | cons {trailing : Bool} (row : List Tree) (joint : Bool) {rows : List (List Tree)}
    {content : List Tree} (hrows : rows ≠ []) (h : Joined trailing rows content) :
    Joined trailing (row :: rows) (row ++ .mark [','] joint :: content)

/-- An expression is taken off a row if it is one by itself and an end is behind it. -/
theorem takes_expression_iff (hr : r.EndAtCommas) (hends : Ends rest) :
    Scan.Takes r.expression row e rest ↔
      ∃ trees, row = trees ++ rest ∧ Scan.whole r.expression trees = .ok e := by
  simp only [Scan.whole_eq_ok_iff]
  constructor
  · intro h
    obtain ⟨trees, rfl⟩ := h.suffix
    have halone := hr hends .nil h
    rw [List.append_nil] at halone
    exact ⟨trees, rfl, halone⟩
  · rintro ⟨trees, rfl, h⟩
    rw [← List.append_nil trees] at h
    exact hr .nil hends h

theorem startsPair_iff (hr : r.EndAtCommas) (hends : Ends rest)
    {x : Tag × List Tree} :
    StartsPair r row x rest ↔ ∃ a : Argument r, row = a.source ++ rest ∧ a.pair = x := by
  constructor
  · rintro ⟨hword, h⟩
    obtain ⟨trees, rfl, he⟩ := (takes_expression_iff hr hends).mp h
    exact ⟨⟨_, _, _, trees, _, hword, he⟩, rfl, rfl⟩
  · rintro ⟨a, rfl, rfl⟩
    exact .intro a.isTag ((takes_expression_iff hr hends).mpr ⟨a.trees, rfl, a.isExpression⟩)

theorem Lists.exists_joined (hr : r.EndAtCommas) {pairs : List (Tag × List Tree)}
    (h : Lists r row pairs) : ∃ trailing, ∃ arguments : List (Argument r),
      Joined trailing (arguments.map Argument.source) row ∧
      arguments.map Argument.pair = pairs := by
  induction h with
  | nil => exact ⟨false, [], .nil, rfl⟩
  | @last row x hpair =>
    obtain ⟨a, rfl, rfl⟩ := (startsPair_iff hr .nil).mp hpair
    rw [List.append_nil]
    exact ⟨false, [a], .last a.source, rfl⟩
  | @cons row rest joint x pairs hpair hpairs ih =>
    obtain ⟨a, rfl, rfl⟩ := (startsPair_iff hr (.comma joint rest)).mp hpair
    obtain ⟨trailing, arguments, hjoined, rfl⟩ := ih
    -- a comma with nothing behind it is the one more that may follow the last pair
    cases arguments with
    | nil =>
      cases hjoined
      exact ⟨true, [a], .closed a.source joint, rfl⟩
    | cons a' arguments =>
      exact ⟨trailing, a :: a' :: arguments,
        .cons a.source joint (List.cons_ne_nil _ _) hjoined, rfl⟩

end Deriving

end CurveCalc
