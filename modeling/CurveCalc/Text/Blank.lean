/-!
# White space

The characters that Unicode calls `White_Space`, and the two things that the commands ask of them:
a text without its leading white space, and whether a whole line is blank.
-/

namespace CurveCalc

namespace Text

/-- The code points outside Latin-1 that are white space, in order. -/
def wideBlanks : List Nat :=
  [0x1680, 0x2000, 0x2001, 0x2002, 0x2003, 0x2004, 0x2005, 0x2006, 0x2007, 0x2008, 0x2009,
    0x200A, 0x2028, 0x2029, 0x202F, 0x205F, 0x3000]

/-- White space: the tab to the carriage return, the space, the next-line control, the no-break
space, and the wide blanks. -/
def isBlank (c : Char) : Bool :=
  (0x09 ≤ c.toNat && c.toNat ≤ 0x0D) || c.toNat == 0x20 || c.toNat == 0x85 || c.toNat == 0xA0 ||
    wideBlanks.contains c.toNat

/-- The text from its first character that is not white space on. -/
def dropBlanks (text : List Char) : List Char := text.dropWhile isBlank

/-- The text up to its last character that is not white space. -/
def dropTrailingBlanks (text : List Char) : List Char := (text.reverse.dropWhile isBlank).reverse

/-- A line that holds white space only. -/
def isBlankLine (line : List Char) : Bool := line.all isBlank

end Text

end CurveCalc
