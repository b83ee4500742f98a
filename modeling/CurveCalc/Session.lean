import CurveCalc.Command
import CurveCalc.Report
import CurveCalc.Text.Line

/-!
# Sessions

A session runs the lines of its input as commands, one after the other; blank lines are skipped.
Output goes to one channel, reports to another, and after a report the session goes on. It breaks
off only when a report cannot be made.

Input comes in two ways. A piped session is given all of it and has to be UTF-8 as a whole. A
terminal session reads one line at a time after a prompt, and ends at the first line that is not
UTF-8.

What makes the reports and what takes lines off a terminal is the console of a session; that of the
program is `Report.render` and `Text.terminal`.
-/

namespace CurveCalc

namespace CommandError

/-- The text that the report of an error points into, and the diagnosis. None for a tree that is
inconsistent, which no text is read as. -/
def diagnosis? : CommandError → Option (List Char × Diagnosis)
  | .parse error => some (error.text, error.diagnosis)
  | .badPoint line span => some (line, ⟨.badPoint, span⟩)
  | .inconsistent _ => none

end CommandError

namespace Session

/-- What a line of input is answered with. -/
inductive Response where
  | output (text : String)
  | report (text : String)
  | crash
deriving DecidableEq, Repr

def sourceName : String := "input"

/-- What a session has written, and how it ended. -/
structure Transcript where
  output : String
  reports : String
  /-- Whether a line broke the session off. -/
  crashed : Bool
deriving DecidableEq, Repr

namespace Transcript

/-- A session that ends having written nothing. -/
def done : Transcript := ⟨"", "", false⟩

/-- A session that breaks off. -/
def broken : Transcript := ⟨"", "", true⟩

def afterOutput (text : String) (t : Transcript) : Transcript :=
  { t with output := text ++ t.output }

def afterReport (text : String) (t : Transcript) : Transcript :=
  { t with reports := text ++ t.reports }

/-- A transcript after the answer to one line; a crash leaves nothing after it. -/
def afterResponse (r : Response) (rest : Transcript) : Transcript :=
  match r with
  | .output text => rest.afterOutput text
  | .report text => rest.afterReport text
  | .crash => broken

end Transcript

/-- The status that a process with this transcript ends with. -/
def Transcript.exitCode (t : Transcript) : UInt32 := if t.crashed then 101 else 0

/-- What is reported of input that is not UTF-8. -/
def invalidInput : String := "stream did not contain valid UTF-8\n"

/-- The text that bytes are the UTF-8 form of. -/
def decode? (bytes : List UInt8) : Option (List Char) :=
  (String.fromUTF8? ⟨bytes.toArray⟩).map String.toList

def commandLines (text : List Char) : List (List Char) :=
  (Text.lines text).filter fun line ↦ !Text.isBlankLine line

def prompt : String := "y = "

/-- What makes the reports of a session, and what reads its lines at a terminal. -/
structure Console where
  report : Report.Writer
  reader : Text.LineReader

namespace Console

variable (c : Console)

/-- The answer to a line. -/
def respond (line : List Char) : Response :=
  match (Command.ofLine line).run with
  | .ok text => .output (text ++ "\n")
  | .error error =>
    match error.diagnosis? with
    | none => .crash
    | some (text, d) =>
      match c.report sourceName text d with
      | .ok report => .report report
      | .error _ => .crash

/-! ## Piped input -/

/-- Runs lines one after the other. -/
def runLines : List (List Char) → Transcript
  | [] => .done
  | line :: rest => .afterResponse (c.respond line) (runLines rest)

/-- The session of piped input. -/
def piped (input : List UInt8) : Transcript :=
  match decode? input with
  | some text => c.runLines (commandLines text)
  | none => Transcript.done.afterReport invalidInput

/-! ## A terminal -/

/-- Runs lines of bytes one after the other, with a prompt before each and one before the end of
input. -/
def runTyped : List (List UInt8) → Transcript
  | [] => Transcript.done.afterOutput prompt
  | line :: rest =>
    Transcript.afterOutput prompt <|
      match decode? line with
      | none => Transcript.done.afterReport invalidInput
      | some text =>
        if Text.isBlankLine text then runTyped rest
        else .afterResponse (c.respond text) (runTyped rest)

/-- The session of input typed at a terminal. -/
def typed (input : List UInt8) : Transcript := c.runTyped (c.reader.lines input)

end Console

/-! ## The sessions of the program -/

def console : Console := ⟨Report.render, Text.terminal⟩

def piped (input : List UInt8) : Transcript := console.piped input

def typed (input : List UInt8) : Transcript := console.typed input

end Session

end CurveCalc
