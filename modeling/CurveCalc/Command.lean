import CurveCalc.Record
import CurveCalc.Text.Blank

/-!
# Commands

A line of input is a command. `d ` and `table ` in front, after white space, ask for a derivative or
a table of values; otherwise the last `@` of the line sets an expression apart from the point to
evaluate it at; and a line with none of these is an expression to show.
-/

namespace CurveCalc

/-- What a line asks for. -/
inductive Command where
  /-- The tree and the written form of an expression. -/
  | display (input : List Char)
  /-- The tree and the written form of a derivative. -/
  | differentiate (input : List Char)
  /-- The values of an expression and its derivative at a point. -/
  | evaluate (input point : List Char)
  /-- The values of an expression and its derivative from -10 to 10. -/
  | tabulate (input : List Char)
deriving DecidableEq, Repr

/-- Why a command gave no output. -/
inductive CommandError where
  | parse (error : ParseError)
  /-- The text after the last `@` of a line is not a literal. -/
  | badPoint (line : List Char) (span : Text.Span)
  | inconsistent (cause : Inconsistency)
deriving DecidableEq, Repr

namespace Command

/-! ## Splitting a line -/

/-- The text after `head`, if it starts with that. -/
def after? : List Char → List Char → Option (List Char)
  | [], text => some text
  | _ :: _, [] => none
  | h :: hs, c :: cs => if h = c then after? hs cs else none

/-- The text before and after the last occurrence of a character. -/
def splitAtLast? (mark : Char) : List Char → Option (List Char × List Char)
  | [] => none
  | c :: cs =>
    match splitAtLast? mark cs with
    | some (before, after) => some (c :: before, after)
    | none => if c = mark then some ([], cs) else none

/-- The command that a line is. -/
def ofLine (line : List Char) : Command :=
  let trimmed := Text.dropBlanks line
  match after? ['t', 'a', 'b', 'l', 'e', ' '] trimmed with
  | some input => .tabulate input
  | none =>
    match after? ['d', ' '] trimmed with
    | some input => .differentiate input
    | none =>
      match splitAtLast? '@' line with
      | some (input, point) => .evaluate input point
      | none => .display line

/-! ## Running -/

def numberText (v : Float) : String := String.ofList (NumberStyle.plain.write v)

/-- A tree, and under it the equation with its written form on the right. -/
def treeText (name : String) (e : Expr) : String :=
  String.ofList (e.outline 0) ++ name ++ " = " ++ e.toText

def valuesText (x y slope : Float) : String :=
  "f(" ++ numberText x ++ ") = " ++ numberText y ++ "\nf'(" ++ numberText x ++ ") = " ++
    numberText slope

/-- A table of points and slopes, under its heading. -/
def tableText (points slopes : List Point) : String :=
  (points.zip slopes).foldl
    (fun text row ↦ text ++ "\n" ++ numberText row.1.x ++ "\t" ++ numberText row.1.y ++ "\t" ++
      numberText row.2.y)
    "x\tf(x)\tf'(x)"

def tableWindow : Window := { Window.standard with delta := Binary64.ofNat 1 }

/-- The values of an expression and a derivative at a point, as output. -/
def valuesAt (e d : Expr) (x : Float) : Except CommandError String :=
  match e.eval x, d.eval x with
  | .ok y, .ok slope => .ok (valuesText x y slope)
  | .error i, _ => .error (.inconsistent i)
  | _, .error i => .error (.inconsistent i)

/-- The place of a point in the line it ends; the offset is that of the text after the `@`. -/
def pointSpan (input point : List Char) : Text.Span :=
  let start := Text.byteLength input + 1
  ⟨start, start + Text.byteLength point⟩

/-- Reads an expression as commands do. -/
def read (input : List Char) : Logged (Except CommandError Expr) :=
  (parseLogged {} input).andThenOk .parse fun e ↦ .pure (.ok e)

/-- Runs a command, with records of what was done. -/
def runLogged : Command → Logged (Except CommandError String)
  | .display input =>
    (read input).andThenOk id fun e ↦ .pure (.ok (treeText "y" e))
  | .differentiate input =>
    (read input).andThenOk id fun e ↦
      e.derivativeLogged.andThenOk .inconsistent fun d ↦ .pure (.ok (treeText "y'" d))
  | .evaluate input point =>
    (read input).andThenOk id fun e ↦
      match readLiteral? point with
      | none => .pure (.error (.badPoint (input ++ '@' :: point) (pointSpan input point)))
      | some x =>
        e.derivativeLogged.andThenOk .inconsistent fun d ↦ .pure (valuesAt e d x)
  | .tabulate input =>
    (read input).andThenOk id fun e ↦
      e.derivativeLogged.andThenOk .inconsistent fun d ↦
        (e.sampleLogged tableWindow).andThenOk .inconsistent fun points ↦
          (d.sampleLogged tableWindow).andThenOk .inconsistent fun slopes ↦
            .pure (.ok (tableText points slopes))

/-- The output of a command. -/
def run (c : Command) : Except CommandError String := c.runLogged.value

end Command

end CurveCalc
