/-!
# Lines

A text is cut into lines in two ways. `lines` takes a whole text apart: a line ends at a line feed,
a carriage return right before that line feed belongs to the ending, and what follows the last line
feed is a line of its own unless it is empty. `readLine?` takes one line of bytes off the front of
what is still unread, by the same rule.
-/

namespace CurveCalc

namespace Text

/-- Puts a character in front of the first line; a text that had no line gets one. -/
def extendFirst (c : Char) : List (List Char) → List (List Char)
  | [] => [[c]]
  | line :: rest => (c :: line) :: rest

/-- The lines of a text, without their endings. -/
def lines : List Char → List (List Char)
  | [] => []
  | '\r' :: '\n' :: rest => [] :: lines rest
  | '\n' :: rest => [] :: lines rest
  | c :: rest => extendFirst c (lines rest)

def lineFeed : UInt8 := 10

def carriageReturn : UInt8 := 13

/-- A line of bytes without a carriage return at its end. -/
def dropReturn (line : List UInt8) : List UInt8 :=
  if line.getLast? = some carriageReturn then line.dropLast else line

/-- The next line of the unread bytes and what is unread after it; none at the end of input. The
ending is cut off only where the line feed is there. -/
def readLine? : List UInt8 → Option (List UInt8 × List UInt8)
  | [] => none
  | b :: bs =>
    let line := (b :: bs).takeWhile (· != lineFeed)
    match (b :: bs).dropWhile (· != lineFeed) with
    | [] => some (line, [])
    | _ :: rest => some (dropReturn line, rest)

theorem readLine?_shorter {bytes line rest : List UInt8} (h : readLine? bytes = some (line, rest)) :
    rest.length < bytes.length := by
  cases bytes with
  | nil => exact absurd h (by simp [readLine?])
  | cons b bs =>
    have hlength : ((b :: bs).dropWhile (· != lineFeed)).length ≤ (b :: bs).length :=
      (List.dropWhile_sublist _).length_le
    dsimp only [readLine?] at h
    cases hrest : (b :: bs).dropWhile (· != lineFeed) with
    | nil =>
      rw [hrest] at h
      obtain ⟨-, rfl⟩ := Prod.mk.inj (Option.some.inj h)
      exact Nat.succ_pos _
    | cons x tail =>
      rw [hrest] at h hlength
      obtain ⟨-, rfl⟩ := Prod.mk.inj (Option.some.inj h)
      exact hlength

/-- A reader that takes lines of bytes off the front of what is still unread. -/
structure LineReader where
  /-- The next line of the unread bytes and what is unread after it; none at the end of input. -/
  next? : List UInt8 → Option (List UInt8 × List UInt8)
  shorter : ∀ {bytes line rest}, next? bytes = some (line, rest) → rest.length < bytes.length

/-- All lines of the unread bytes, read one after the other. -/
def LineReader.lines (r : LineReader) (bytes : List UInt8) : List (List UInt8) :=
  match _read : r.next? bytes with
  | none => []
  | some (line, rest) => line :: r.lines rest
termination_by bytes.length
decreasing_by exact r.shorter _read

/-- Lines typed at a terminal. -/
def terminal : LineReader := ⟨readLine?, readLine?_shorter⟩

end Text

end CurveCalc
