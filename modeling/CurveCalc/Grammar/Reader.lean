import CurveCalc.Grammar.Options
import CurveCalc.Grammar.Reading
import CurveCalc.Number.Literal

/-!
# Reading an expression

There is no token stream: each level of the grammar is a function on a stretch of the text, and a
chain level tries every place where one of its operators stands, from left to right. The first place
at which both sides are read gives the node; if there is none, the level below reads the whole
stretch.

A split leaves less text on either side, parentheses and `log` take some off, and all else goes one
level down on the same text; so five times the length of the text and the height of the level
together decrease. `readAt_chain`, `readAt_base` and `readAt_primary` say what each level does.
-/

namespace CurveCalc

namespace Grammar

/-! ## The forms below the chains -/

/-- The text between a parenthesis at the start and one at the end. Whether the two belong together
is not looked at. -/
def inside? : List Char → Option (List Char)
  | '(' :: rest => if rest.getLast? = some ')' then some rest.dropLast else none
  | _ => none

theorem length_lt_of_inside? {text inner : List Char} (h : inside? text = some inner) :
    inner.length < text.length := by
  unfold inside? at h
  split at h
  · split at h
    · obtain rfl := Option.some.inj h
      simp only [List.length_dropLast, List.length_cons]
      omega
    · simp at h
  · simp at h

def afterLog? : List Char → Option (List Char)
  | 'l' :: 'o' :: 'g' :: rest => some rest
  | _ => none

theorem length_lt_of_afterLog? {text rest : List Char} (h : afterLog? text = some rest) :
    rest.length < text.length := by
  unfold afterLog? at h
  split at h
  · obtain rfl := Option.some.inj h
    simp only [List.length_cons]
    omega
  · simp at h

/-- A literal or the variable. -/
def leaf? (text : List Char) : Option Expr :=
  match readLiteral? text with
  | some v => some (.literal v)
  | none => if text = ['x'] then some .var else none

/-! ## Levels -/

/-- Reads the whole of a text at a level, at a depth of nesting. -/
def readAt (o : ReadOptions) (level : Level) (depth : Nat) (text : List Char) : Reading :=
  if o.permits depth then
    match level with
    | .chain chain =>
      let (l, r) := o.grammar.operandLevels chain
      (Reading.first (fun s : { s // s ∈ splits chain.operators text } ↦
          Reading.ofSplit s.1 (readAt o l (depth + 1) s.1.left)
            fun _ ↦ readAt o r (depth + 1) s.1.right)
        (splits chain.operators text).attach).orElse
        fun _ ↦ readAt o chain.below (depth + 1) text
    | .base =>
      (readAt o .primary (depth + 1) text).orElse fun _ ↦
        match _arg : afterLog? text with
        | some arg => (readAt o .primary (depth + 1) arg).map .log
        | none => .ofOption none
    | .primary =>
      match _inner : inside? text with
      | some inner => (readAt o (.chain .sum) (depth + 1) inner).map .paren
      | none => .ofOption (leaf? text)
  else .closed
termination_by 5 * text.length + level.height
decreasing_by
  -- one character less outweighs any level
  · have := length_left_lt s.2
    have := l.height_le
    omega
  · have := length_right_lt s.2
    have := r.height_le
    omega
  · have := chain.height_below
    omega
  · simp [Level.height]
  · have := length_lt_of_afterLog? _arg
    simp only [Level.height]
    omega
  · have := length_lt_of_inside? _inner
    simp only [Level.height]
    omega

/-! ## The levels one by one -/

theorem readAt_of_not_permits {o : ReadOptions} {depth : Nat} (h : o.permits depth = false)
    (level : Level) (text : List Char) : readAt o level depth text = .closed := by
  rw [readAt.eq_def]
  simp [h]

theorem readAt_chain {o : ReadOptions} {depth : Nat} (h : o.permits depth = true) (chain : Chain)
    (text : List Char) :
    readAt o (.chain chain) depth text =
      (Reading.first (fun s ↦
          Reading.ofSplit s (readAt o (o.grammar.operandLevels chain).1 (depth + 1) s.left)
            fun _ ↦ readAt o (o.grammar.operandLevels chain).2 (depth + 1) s.right)
        (splits chain.operators text)).orElse
        fun _ ↦ readAt o chain.below (depth + 1) text := by
  conv => lhs; rw [readAt.eq_def]
  simp only [h, if_true]
  congr 1
  conv =>
    rhs
    rw [← List.attach_map_subtype_val (splits chain.operators text), Reading.first_map]

theorem readAt_base {o : ReadOptions} {depth : Nat} (h : o.permits depth = true)
    (text : List Char) :
    readAt o .base depth text =
      (readAt o .primary (depth + 1) text).orElse fun _ ↦
        match afterLog? text with
        | some arg => (readAt o .primary (depth + 1) arg).map .log
        | none => .ofOption none := by
  conv => lhs; rw [readAt.eq_def]
  simp only [h, if_true]
  congr 1
  funext _
  split <;> simp_all

theorem readAt_primary {o : ReadOptions} {depth : Nat} (h : o.permits depth = true)
    (text : List Char) :
    readAt o .primary depth text =
      match inside? text with
      | some inner => (readAt o (.chain .sum) (depth + 1) inner).map .paren
      | none => .ofOption (leaf? text) := by
  conv => lhs; rw [readAt.eq_def]
  simp only [h, if_true]
  split <;> simp_all

/-- Reads a whole text: as a sum, or where that fails, as a primary. -/
def readWhole (o : ReadOptions) (text : List Char) : Reading :=
  (readAt o (.chain .sum) 0 text).orElse fun _ ↦ readAt o .primary 0 text

end Grammar

end CurveCalc
