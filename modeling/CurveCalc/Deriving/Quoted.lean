import CurveCalc.Text.Blank
import CurveCalc.Text.Digit
import CurveCalc.Text.Word

/-!
# Quoted literals

Strings, raw strings and characters, of text, of bytes or of text that a zero ends. A literal is
recognised by its length; `Quoted.length?` is that of the one at the front of a text, with the word
that is written right behind it. `Quoted.encode` goes the other way and writes a text as a string.
-/

namespace CurveCalc

namespace Deriving

/-- What a quoted literal is made of. -/
inductive Quoted where
  | text
  | bytes
  /-- Text with a zero after it, which has none in it. -/
  | terminated
deriving DecidableEq, Repr

namespace Quoted

/-! ## Characters -/

/-- Whether a character stands for itself before some text. A carriage return does only as the
first half of a line end. -/
def admits (q : Quoted) (c : Char) (rest : List Char) : Bool :=
  if c = '\r' then rest.head? = some '\n'
  else
    match q with
    | .text => true
    | .bytes => c.toNat < 128
    | .terminated => c ≠ '\x00'

/-- The number that two hexadecimal digits give. -/
def pairValue (high low : Char) : Nat := 16 * Text.hexDigitValue high + Text.hexDigitValue low

/-- Whether a number of two hexadecimal digits can stand in a literal. -/
def admitsPair (q : Quoted) (n : Nat) : Bool :=
  match q with
  | .text => n < 128
  | .bytes => true
  | .terminated => n ≠ 0

/-- The code point in the braces that a text starts with, and their length. It has at most six
digits, and underscores after the first. -/
def codePoint? : List Char → Option (Nat × Nat)
  | '\x7b' :: rest =>
    let inner := rest.takeWhile fun c ↦ Text.isHexDigit c || c = '_'
    let digits := inner.filter (· ≠ '_')
    let value := digits.foldl (fun n c ↦ 16 * n + Text.hexDigitValue c) 0
    if inner.head?.any Text.isHexDigit ∧ digits.length ≤ 6 ∧ value.isValidChar ∧
        (rest.drop inner.length).head? = some '\x7d' then
      some (value, inner.length + 2)
    else none
  | _ => none

/-- The length of what a backslash brings into a literal, without the backslash. -/
def escapeLength? (q : Quoted) : List Char → Option Nat
  | 'x' :: high :: low :: _ =>
    if Text.isHexDigit high ∧ Text.isHexDigit low ∧ q.admitsPair (pairValue high low) then some 3
    else none
  | 'u' :: rest =>
    match codePoint? rest with
    | none => none
    | some (value, n) =>
      if q = .bytes ∨ q = .terminated ∧ value = 0 then none else some (n + 1)
  | '0' :: _ => if q = .terminated then none else some 1
  | c :: _ => if ['n', 'r', 't', '\\', '\x27', '\x22'].contains c then some 1 else none
  | [] => none

/-! ## Strings -/

/-- The length of what is left of a string, its closing quote included; the first `skip` characters
belong to an escape. A backslash at the end of a line is no escape of its own. -/
def stringLength? (q : Quoted) (skip : Nat) : List Char → Option Nat
  | [] => none
  | c :: rest =>
    match skip with
    | skip + 1 => (stringLength? q skip rest).map (· + 1)
    | 0 =>
      if c = '\x22' then some 1
      else if c = '\\' then
        let escape :=
          if rest.head? = some '\n' ∨ rest.head? = some '\r' then some 0 else q.escapeLength? rest
        match escape with
        | none => none
        | some n => (stringLength? q n rest).map (· + 1)
      else if q.admits c rest then (stringLength? q 0 rest).map (· + 1)
      else none

/-- The length of what is left of a raw string with the given number of hashes. -/
def rawLength? (q : Quoted) (hashes : Nat) : List Char → Option Nat
  | [] => none
  | c :: rest =>
    if c = '\x22' ∧ rest.take hashes = List.replicate hashes '#' then some (hashes + 1)
    else if q.admits c rest then (rawLength? q hashes rest).map (· + 1)
    else none

/-- The length of what follows the `r` of a raw string. It has at most 255 hashes. -/
def hashedLength? (q : Quoted) (text : List Char) : Option Nat :=
  let hashes := (text.takeWhile (· = '#')).length
  match text.drop hashes with
  | '\x22' :: rest =>
    if hashes ≤ 255 then (q.rawLength? hashes rest).map (· + hashes + 1) else none
  | _ => none

/-! ## Characters in quotes -/

/-- The length of what is left of a character in quotes, its closing quote included. Any character
stands for itself, another quote too. -/
def characterLength? (q : Quoted) : List Char → Option Nat
  | [] => none
  | c :: rest =>
    let length :=
      if c = '\\' then (q.escapeLength? rest).map (· + 1)
      else if q = .bytes ∧ 128 ≤ c.toNat then none
      else some 1
    match length with
    | none => none
    | some n => if ((c :: rest).drop n).head? = some '\x27' then some (n + 1) else none

/-! ## Literals -/

/-- The length of a literal at the front of a text, up to its closing quote and hashes. -/
def bareLength? : List Char → Option Nat
  | '\x22' :: rest => (stringLength? .text 0 rest).map (· + 1)
  | '\x27' :: rest => (characterLength? .text rest).map (· + 1)
  | 'r' :: rest => (hashedLength? .text rest).map (· + 1)
  | 'b' :: '\x22' :: rest => (stringLength? .bytes 0 rest).map (· + 2)
  | 'b' :: '\x27' :: rest => (characterLength? .bytes rest).map (· + 2)
  | 'b' :: 'r' :: rest => (hashedLength? .bytes rest).map (· + 2)
  | 'c' :: '\x22' :: rest => (stringLength? .terminated 0 rest).map (· + 2)
  | 'c' :: 'r' :: rest => (hashedLength? .terminated rest).map (· + 2)
  | _ => none

/-- The length of a literal at the front of a text. -/
def length? (text : List Char) : Option Nat :=
  (bareLength? text).map fun n ↦ n + Text.wordLength (text.drop n)

/-- What a quoted literal starts with where a word could start too. -/
def openings : List String :=
  ["r\x22", "r#\x22", "r##", "b\x22", "b\x27", "br\x22", "br#", "c\x22", "cr\x22", "cr#"]

/-- Whether a text starts as only a quoted literal does. -/
def isOpened (text : List Char) : Bool :=
  openings.any fun opening ↦ opening.toList.isPrefixOf text

/-! ## Writing -/

/-- Runs of code points that a written string does not show as they are: combining accents, joiners,
marks of direction and what is for private use. -/
def hiddenRuns : Text.Runs :=
  [(0x00AD, 0x00AD), (0x0300, 0x036F), (0x0483, 0x0489), (0x200B, 0x200F), (0x202A, 0x202E),
    (0x2060, 0x206F), (0x20D0, 0x20F0), (0xE000, 0xF8FF), (0xFE00, 0xFE0F), (0xFE20, 0xFE2F),
    (0xFEFF, 0xFEFF), (0xFFF0, 0xFFFB), (0xFFFE, 0xFFFF), (0xE0000, 0x10FFFF)]

/-- Whether a written string does not show a character as it is. Of white space it shows the space
alone. -/
def isHidden (c : Char) : Bool :=
  decide (c.toNat < 0x20) || (0x7F ≤ c.toNat && c.toNat < 0xA0) || (c ≠ ' ' && Text.isBlank c) ||
    hiddenRuns.holds c.toNat

/-- A character of a string before some text. A zero has its long form where a digit follows. -/
def encodeChar (c : Char) (rest : List Char) : List Char :=
  if c = '\x00' then
    if rest.head?.any fun d ↦ decide ('0' ≤ d) && decide (d ≤ '7') then ['\\', 'x', '0', '0']
    else ['\\', '0']
  else if c = '\t' then ['\\', 't']
  else if c = '\r' then ['\\', 'r']
  else if c = '\n' then ['\\', 'n']
  else if c = '\\' ∨ c = '\x22' then ['\\', c]
  else if isHidden c then ['\\', 'u', '\x7b'] ++ Nat.toDigits 16 c.toNat ++ ['\x7d']
  else [c]

/-- The characters of a string between its quotes. -/
def encodeAll : List Char → List Char
  | [] => []
  | c :: rest => encodeChar c rest ++ encodeAll rest

def encode (text : List Char) : List Char := '\x22' :: encodeAll text ++ ['\x22']

end Quoted

end Deriving

end CurveCalc
