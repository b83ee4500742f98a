/-!
# Hexadecimal digits

The digits of base sixteen, with letters of either case, and their values.
-/

namespace CurveCalc

namespace Text

def isHexDigit (c : Char) : Bool :=
  c.isDigit || (decide ('a' ≤ c) && decide (c ≤ 'f')) || (decide ('A' ≤ c) && decide (c ≤ 'F'))

def hexDigitValue (c : Char) : Nat :=
  if c.isDigit then c.toNat - '0'.toNat
  else if decide ('a' ≤ c) then c.toNat - 'a'.toNat + 10
  else c.toNat - 'A'.toNat + 10

theorem hexDigitValue_lt {c : Char} (h : isHexDigit c = true) : hexDigitValue c < 16 := by
  have hn : ∀ d : Char, d.toNat = d.val.toNat := fun _ ↦ rfl
  simp only [isHexDigit, Char.isDigit, Bool.or_eq_true, Bool.and_eq_true, decide_eq_true_eq,
    Char.le_def, ge_iff_le, UInt32.le_iff_toNat_le] at h
  simp only [hexDigitValue, Char.isDigit, Bool.and_eq_true, decide_eq_true_eq, ge_iff_le,
    Char.le_def, UInt32.le_iff_toNat_le, hn]
  have h0 : '0'.val.toNat = 48 := rfl
  have h9 : '9'.val.toNat = 57 := rfl
  have ha : 'a'.val.toNat = 97 := rfl
  have hf : 'f'.val.toNat = 102 := rfl
  have hA : 'A'.val.toNat = 65 := rfl
  have hF : 'F'.val.toNat = 70 := rfl
  have h0' : (48 : UInt32).toNat = 48 := rfl
  have h9' : (57 : UInt32).toNat = 57 := rfl
  split
  · omega
  · split <;> omega

end Text

end CurveCalc
