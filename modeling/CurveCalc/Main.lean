import CurveCalc.Session

/-!
# The command line

`main` runs a session over standard input: piped if it is not a terminal, and with a prompt before
each line if it is.
-/

namespace CurveCalc

namespace CommandLine

/-- Everything up to the end of input. -/
partial def readAll (input : IO.FS.Stream) (gathered : ByteArray) : IO ByteArray := do
  let chunk ← input.read 65536
  if chunk.isEmpty then return gathered else readAll input (gathered ++ chunk)

/-- The bytes up to the next line feed, or up to the end of input. -/
partial def readTyped (input : IO.FS.Stream) (gathered : ByteArray) : IO ByteArray := do
  let chunk ← input.read 1
  let gathered := gathered ++ chunk
  if chunk.isEmpty || chunk.toList.contains Text.lineFeed then return gathered
  else readTyped input gathered

/-- A session at a terminal; the result is its exit code. -/
partial def converse (input output reports : IO.FS.Stream) : IO UInt32 := do
  output.putStr Session.prompt
  output.flush
  let bytes ← readTyped input ByteArray.empty
  match Text.readLine? bytes.toList with
  | none => return Session.Transcript.done.exitCode
  | some (line, _) =>
    match Session.decode? line with
    | none =>
      reports.putStr Session.invalidInput
      return Session.Transcript.done.exitCode
    | some text =>
      if Text.isBlankLine text then converse input output reports
      else
        match Session.console.respond text with
        | .output text =>
          output.putStr text
          converse input output reports
        | .report text =>
          reports.putStr text
          converse input output reports
        | .crash => return Session.Transcript.broken.exitCode

/-- Runs a session over the standard streams. -/
def run : IO UInt32 := do
  let input ← IO.getStdin
  let output ← IO.getStdout
  let reports ← IO.getStderr
  if ← input.isTty then converse input output reports
  else
    let bytes ← readAll input ByteArray.empty
    let transcript := Session.piped bytes.toList
    output.putStr transcript.output
    reports.putStr transcript.reports
    return transcript.exitCode

end CommandLine

end CurveCalc

/-- The calculator as a program. -/
def main : IO UInt32 := CurveCalc.CommandLine.run
