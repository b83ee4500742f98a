/-!
# Byte offsets

Positions in a text are counted in the bytes of its UTF-8 form. A text of ASCII characters has as
many bytes as characters.
-/

namespace CurveCalc

namespace Text

/-- The number of bytes of the UTF-8 form of a text. -/
def byteLength : List Char → Nat
  | [] => 0
  | c :: cs => c.utf8Size + byteLength cs

@[simp] theorem byteLength_nil : byteLength [] = 0 := rfl

@[simp] theorem byteLength_cons (c : Char) (cs : List Char) :
    byteLength (c :: cs) = c.utf8Size + byteLength cs := rfl

@[simp] theorem byteLength_append (s t : List Char) :
    byteLength (s ++ t) = byteLength s + byteLength t := by
  induction s with
  | nil => simp
  | cons c cs ih => simp [ih, Nat.add_assoc]

theorem length_le_byteLength (s : List Char) : s.length ≤ byteLength s := by
  induction s with
  | nil => simp
  | cons c cs ih =>
    have := c.utf8Size_pos
    simp only [List.length_cons, byteLength_cons]
    omega

def IsAscii (s : List Char) : Prop := ∀ c ∈ s, c.val ≤ 127

/-- **Bytes are characters in a text of ASCII, and in no other.** -/
theorem byteLength_eq_length_iff {s : List Char} : byteLength s = s.length ↔ IsAscii s := by
  rw [IsAscii]
  induction s with
  | nil => simp
  | cons c cs ih =>
    have hpos := c.utf8Size_pos
    have hle := length_le_byteLength cs
    rw [List.forall_mem_cons, ← ih, ← Char.utf8Size_eq_one_iff, byteLength_cons, List.length_cons]
    omega

/-- A half-open range of byte offsets. -/
structure Span where
  /-- The offset of the first byte. -/
  start : Nat
  /-- The offset after the last byte. -/
  stop : Nat
deriving DecidableEq, Repr

end Text

end CurveCalc
