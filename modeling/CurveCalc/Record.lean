import CurveCalc.Curve.Window
import CurveCalc.Derivative
import CurveCalc.Expr.Written
import CurveCalc.Grammar.Parse

/-!
# Records of what was done

Reading, differentiating and sampling can leave records behind: which splits were tried, what a text
was read as, what a derivative came out as, how many points were taken. A `Logged` value is a result
together with the records that led to it, in order.
-/

namespace CurveCalc

/-- One thing that was done on the way to a result. -/
inductive Record where
  /-- A split of a text was tried. -/
  | tried (split : Grammar.Split)
  /-- A text without spaces was read. -/
  | parsed (text : List Char) (e : Expr)
  /-- A text was refused. -/
  | refused (error : ParseError)
  /-- An expression was differentiated. -/
  | differentiated (e derivative : Expr)
  /-- Points of an expression were taken. -/
  | sampled (count : Nat) (e : Expr)
  /-- A window was not valid. -/
  | notSampled (e : Expr) (window : Window)

namespace Record

/-- How much detail a record goes into. -/
inductive Detail where
  /-- Results. -/
  | result
  /-- Single attempts. -/
  | attempt
deriving DecidableEq, Repr

/-- The part of the work that a record is about. -/
inductive Topic where
  | reading
  | differentiation
  | sampling
deriving DecidableEq, Repr

def detail : Record → Detail
  | .tried _ => .attempt
  | _ => .result

def topic : Record → Topic
  | .tried _ | .parsed _ _ | .refused _ => .reading
  | .differentiated _ _ => .differentiation
  | .sampled _ _ | .notSampled _ _ => .sampling

def numberText (v : Float) : String := String.ofList (NumberStyle.record.write v)

def windowText (w : Window) : String :=
  "SampleOptions \x7b min_x: " ++ numberText w.min ++ ", max_x: " ++ numberText w.max ++
    ", delta_x: " ++ numberText w.delta ++ " \x7d"

/-- A text in the quotes that records use. -/
def quoted (text : List Char) : String := "`" ++ String.ofList text ++ "`"

def text : Record → String
  | .tried s =>
    "trying " ++ quoted [s.op.symbol] ++ " at " ++ Nat.repr (Text.byteLength s.left) ++ " in " ++
      quoted s.text
  | .parsed text e => "parsed " ++ quoted text ++ " as " ++ quoted e.written
  | .refused error => error.message
  | .differentiated e d => "d/dx " ++ e.toText ++ " = " ++ d.toText
  | .sampled count e => "sampled " ++ Nat.repr count ++ " points of " ++ quoted e.written
  | .notSampled e w =>
    "not sampling " ++ quoted e.written ++ " with invalid options " ++ windowText w

end Record

structure Logged (α : Type) where
  value : α
  records : List Record

namespace Logged

/-- A result that left no record. -/
def pure {α : Type} (a : α) : Logged α := ⟨a, []⟩

/-- Goes on with the value of a result; the records of both follow each other. -/
def andThen {α β : Type} (a : Logged α) (f : α → Logged β) : Logged β :=
  let b := f a.value
  ⟨b.value, a.records ++ b.records⟩

/-- Goes on with a result that is not an error. -/
def andThenOk {ε ε' α β : Type} (wrap : ε → ε') (a : Logged (Except ε α))
    (f : α → Logged (Except ε' β)) : Logged (Except ε' β) :=
  a.andThen fun
    | .ok v => f v
    | .error e => .pure (.error (wrap e))

end Logged

/-- Reads a text and records how. -/
def parseLogged (o : ReadOptions) (input : List Char) : Logged (Except ParseError Expr) :=
  let text := Grammar.dropSpaces input
  let reading := Grammar.readWhole o text
  let result := reading.result o text
  let last : Record :=
    match result with
    | .ok e => .parsed text e
    | .error error => .refused error
  ⟨result, reading.tried.toList.map .tried ++ [last]⟩

@[simp] theorem value_parseLogged (o : ReadOptions) (input : List Char) :
    (parseLogged o input).value = parse o input := rfl

namespace Expr

/-- Differentiates an expression and records the derivative. -/
def derivativeLogged (e : Expr) : Logged (Except Inconsistency Expr) :=
  match e.derivative with
  | .ok d => ⟨.ok d, [.differentiated e d]⟩
  | .error i => .pure (.error i)

@[simp] theorem value_derivativeLogged (e : Expr) : e.derivativeLogged.value = e.derivative := by
  unfold derivativeLogged
  split <;> simp_all [Logged.pure]

/-- Samples an expression and records how many points there are. -/
def sampleLogged (e : Expr) (w : Window) : Logged (Except Inconsistency (List Point)) :=
  if w.isValid then
    match e.pointsAt w.xs with
    | .ok points => ⟨.ok points, [.sampled points.length e]⟩
    | .error i => .pure (.error i)
  else ⟨.ok [], [.notSampled e w]⟩

@[simp] theorem value_sampleLogged (e : Expr) (w : Window) :
    (e.sampleLogged w).value = e.sample w := by
  unfold sampleLogged sample
  split
  · split <;> simp_all [Logged.pure]
  · rfl

end Expr

end CurveCalc
