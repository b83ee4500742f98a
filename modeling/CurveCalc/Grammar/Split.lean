import CurveCalc.Operator

/-!
# Splits of a text

A text is cut in two at an operator. `splits` lists the cuts at the operators of a level from left
to right; each has the text back when its sides are joined, and so both sides are shorter than it.
-/

namespace CurveCalc

namespace Grammar

/-- A text cut in two at an operator. -/
structure Split where
  left : List Char
  op : BinaryOp
  right : List Char
deriving DecidableEq, Repr

def Split.text (s : Split) : List Char := s.left ++ s.op.symbol :: s.right

/-- The cuts of `before.reverse ++ text` at the given operators of `text`, from left to right. -/
def splitsFrom (ops : List BinaryOp) (before : List Char) : List Char → List Split
  | [] => []
  | c :: cs =>
    match BinaryOp.ofChar? c with
    | some op =>
      if op ∈ ops then ⟨before.reverse, op, cs⟩ :: splitsFrom ops (c :: before) cs
      else splitsFrom ops (c :: before) cs
    | none => splitsFrom ops (c :: before) cs

/-- All cuts of a text at one of the given operators, from left to right. -/
def splits (ops : List BinaryOp) (text : List Char) : List Split := splitsFrom ops [] text

theorem text_of_mem_splitsFrom {ops : List BinaryOp} {before text : List Char} {s : Split}
    (h : s ∈ splitsFrom ops before text) : s.text = before.reverse ++ text := by
  induction text generalizing before with
  | nil => simp [splitsFrom] at h
  | cons c cs ih =>
    simp only [splitsFrom] at h
    split at h
    · rename_i op hop
      split at h
      · rcases List.mem_cons.1 h with rfl | h
        · rw [BinaryOp.eq_symbol_of_ofChar? hop]
          rfl
        · rw [ih h]
          simp
      · rw [ih h]
        simp
    · rw [ih h]
      simp

theorem text_of_mem_splits {ops : List BinaryOp} {text : List Char} {s : Split}
    (h : s ∈ splits ops text) : s.text = text := by
  simpa using text_of_mem_splitsFrom h

theorem length_left_lt {ops : List BinaryOp} {text : List Char} {s : Split}
    (h : s ∈ splits ops text) : s.left.length < text.length := by
  rw [← text_of_mem_splits h, Split.text]
  simp

theorem length_right_lt {ops : List BinaryOp} {text : List Char} {s : Split}
    (h : s ∈ splits ops text) : s.right.length < text.length := by
  rw [← text_of_mem_splits h, Split.text]
  simp only [List.length_append, List.length_cons]
  omega

end Grammar

end CurveCalc
