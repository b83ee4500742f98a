import CurveCalc.Grammar.Diagnosis
import CurveCalc.Text.Blank

/-!
# Reports

A report shows a diagnosis on a terminal: its message, the line it is about with the place of the
problem in colour, a pointer under that place with the label at its end, and the help if there is
some. Colours are ANSI escape sequences.

A report needs a line to point into. Over an empty text there is none, and instead of a report there
is a failure. `render` is one `Writer` of reports among others.
-/

namespace CurveCalc

/-- Why a report could not be made. -/
inductive ReportFailure where
  /-- The text has no characters, so the place of the problem is on no line. -/
  | noLine
deriving DecidableEq, Repr

def ReportFailure.message : ReportFailure → String
  | .noLine => "index out of bounds: the len is 0 but the index is 0"

namespace Report

/-! ## Colours -/

inductive Ink where
  | heading
  | frame
  | gutter
  | source
  | expression
  | note
deriving DecidableEq, Repr

/-- The colour as a parameter of the escape sequence. -/
def Ink.code : Ink → String
  | .heading => "31"
  | .frame => "38;5;246"
  | .gutter => "38;5;240"
  | .source => "38;5;249"
  | .expression => "38;2;52;235;152"
  | .note => "38;5;115"

def paint (ink : Ink) (text : String) : String := "\x1b[" ++ ink.code ++ "m" ++ text ++ "\x1b[0m"

/-- A piece of wording; quoted expressions are in colour. -/
def pieceText : Piece → String
  | .words text => text
  | .quoted text => paint .expression text

def wordingText (pieces : List Piece) : String := String.join (pieces.map pieceText)

/-! ## The rows under the source line -/

/-- The column at which the pointer leaves the span. -/
def stem (span : Text.Span) : Nat := (span.start + span.stop) / 2

def covers (span : Text.Span) (column : Nat) : Bool :=
  decide (span.start ≤ column) && decide (column < span.stop)

/-- A character of the source line in its column. White space is shown as a space. -/
def sourceCell (span : Text.Span) (column : Nat) (c : Char) : String :=
  paint (if covers span column then .expression else .source)
    (String.singleton (if Text.isBlank c then ' ' else c))

/-- The source line, each character on its own. -/
def sourceRow (span : Text.Span) (line : List Char) : String :=
  String.join ((Text.dropTrailingBlanks line).mapIdx (sourceCell span))

/-- A column of the row that underlines the span. -/
def underlineCell (span : Text.Span) (labelled : Bool) (column : Nat) : String :=
  if labelled = true ∧ column = stem span then
    paint .expression (if covers span column then "┬" else "│")
  else if covers span column then paint .expression "─"
  else " "

/-- A column of the row that leads from the stem to the label. -/
def pointerCell (span : Text.Span) (labelled : Bool) (column : Nat) : String :=
  if labelled = true ∧ stem span ≤ column then
    paint .expression (if column = stem span then "╰" else "─")
  else " "

/-- A row of cells, two columns wider than the text up to the end of the span. -/
def row (span : Text.Span) (cell : Nat → String) : String :=
  String.join ((List.range (span.stop + 2)).map cell)

/-! ## The whole report -/

/-- The start of a line beside the frame. -/
def margin : String := " " ++ paint .gutter "  │" ++ " "

def helpLines : Option (List Piece) → List String
  | none => []
  | some help => [margin, margin ++ paint .note "Help" ++ ": " ++ wordingText help]

/-- The lines of a report about a line of the named source. -/
def lines (source : String) (line : List Char) (d : Diagnosis) : List String :=
  let labelled := !d.problem.label.isEmpty
  [paint .heading "Error:" ++ " " ++ d.problem.message,
    "   " ++ paint .frame "╭" ++ paint .frame "─" ++ paint .frame "[" ++ source ++ ":1:" ++
      Nat.repr (d.span.start + 1) ++ paint .frame "]",
    "   " ++ paint .frame "│",
    " " ++ paint .frame "1 │" ++ " " ++ sourceRow d.span line,
    margin ++ row d.span (underlineCell d.span labelled),
    margin ++ row d.span (pointerCell d.span labelled) ++ " " ++ wordingText d.problem.label] ++
  helpLines d.problem.help? ++ [paint .frame "───╯"]

/-- What makes the report of a diagnosis about a text from a named source. -/
abbrev Writer : Type :=
  (source : String) → (text : List Char) → Diagnosis → Except ReportFailure String

/-- The report of a diagnosis about a line of the named source. -/
def render (source : String) (line : List Char) (d : Diagnosis) : Except ReportFailure String :=
  if line = [] then .error .noLine
  else .ok (String.join ((lines source line d).map (· ++ "\n")))

end Report

end CurveCalc
