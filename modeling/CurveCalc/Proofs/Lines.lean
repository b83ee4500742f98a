import CurveCalc.Text.Line
import Mathlib

/-!
# Cutting lines off

A text is cut at its first line feed, and so are the bytes of a text that is read line by line. What
stands before it is a line, up to one carriage return at its end, and what stands behind it is cut
in the same way (`Text.lines_append_lineFeed`, `Text.LineReader.EndsAtLineFeeds`). A text without a
line feed is a line as it is, unless it is empty.
-/

namespace CurveCalc

namespace Text

/-! ## The lines of a text -/

variable {c : Char} {line rest text : List Char}

/-- Every text is a line, or a line with a line feed and a text behind it. -/
theorem line_induction {motive : List Char → Prop} (last : ∀ line, '\n' ∉ line → motive line)
    (more : ∀ line rest, '\n' ∉ line → motive rest → motive (line ++ '\n' :: rest)) :
    ∀ text, motive text := by
  intro text
  by_cases h : '\n' ∈ text
  · obtain ⟨line, rest, htext, hline⟩ := List.eq_append_cons_of_mem h
    rw [htext]
    exact more line rest hline (line_induction last more rest)
  · exact last text h
termination_by text => text.length
decreasing_by
  rw [htext, List.length_append, List.length_cons]
  omega

/-- A line of characters without a carriage return at its end. -/
def withoutReturn (line : List Char) : List Char :=
  if line.getLast? = some '\r' then line.dropLast else line

theorem withoutReturn_cons_cons (c d : Char) (line : List Char) :
    withoutReturn (c :: d :: line) = c :: withoutReturn (d :: line) := by
  rw [withoutReturn, withoutReturn, List.getLast?_cons_cons, List.dropLast_cons_cons, apply_ite
    (c :: ·)]

theorem withoutReturn_of_notMem (h : '\r' ∉ line) : withoutReturn line = line :=
  if_neg fun hlast ↦ h (List.mem_of_getLast? hlast)

theorem lines_cons (hc : c ≠ '\n') (hreturn : c = '\r' → text.head? ≠ some '\n') :
    lines (c :: text) = extendFirst c (lines text) := by
  rw [lines.eq_def]
  split
  · next heq => exact absurd heq (by simp)
  · next heq =>
    obtain ⟨rfl, rfl⟩ := List.cons.inj heq
    exact absurd rfl (hreturn rfl)
  · next heq => exact absurd (List.cons.inj heq).1 hc
  · next heq =>
    obtain ⟨rfl, rfl⟩ := List.cons.inj heq
    rfl

theorem lines_append_lineFeed (h : '\n' ∉ line) (rest : List Char) :
    lines (line ++ '\n' :: rest) = withoutReturn line :: lines rest := by
  induction line with
  | nil => simp [lines, withoutReturn]
  | cons c line ih =>
    have hc : c ≠ '\n' := (List.ne_of_not_mem_cons h).symm
    have hline : '\n' ∉ line := List.not_mem_of_not_mem_cons h
    -- only the last character of the line can be a carriage return that is dropped
    cases line with
    | nil =>
      by_cases hreturn : c = '\r'
      · subst hreturn
        simp [lines, withoutReturn]
      · rw [List.singleton_append, lines_cons hc (absurd · hreturn)]
        simp [lines, withoutReturn, extendFirst, hreturn]
    | cons d line =>
      have hd : d ≠ '\n' := (List.ne_of_not_mem_cons hline).symm
      rw [List.cons_append, lines_cons hc (fun _ ↦ by simpa using hd), ih hline,
        extendFirst, withoutReturn_cons_cons]

theorem lines_of_notMem (h : '\n' ∉ line) (hne : line ≠ []) : lines line = [line] := by
  induction line with
  | nil => exact absurd rfl hne
  | cons c line ih =>
    have hline : '\n' ∉ line := List.not_mem_of_not_mem_cons h
    have hhead : line.head? ≠ some '\n' := fun hhead ↦ hline (List.mem_of_head? hhead)
    rw [lines_cons (List.ne_of_not_mem_cons h).symm fun _ ↦ hhead]
    cases line with
    | nil => rfl
    | cons d line => rw [ih hline (by simp), extendFirst]

theorem lines_flatMap {α : Type} {f : α → List Char} {as : List α}
    (h : ∀ a ∈ as, ∀ c ∈ f a, c ≠ '\n' ∧ c ≠ '\r') :
    lines (as.flatMap fun a ↦ f a ++ ['\n']) = as.map f := by
  induction as with
  | nil => rw [List.flatMap_nil, lines, List.map_nil]
  | cons a as ih =>
    obtain ⟨ha, has⟩ := List.forall_mem_cons.mp h
    have hfeed : '\n' ∉ f a := fun hmem ↦ (ha _ hmem).1 rfl
    have hreturn : '\r' ∉ f a := fun hmem ↦ (ha _ hmem).2 rfl
    rw [List.flatMap_cons, List.append_assoc, List.singleton_append,
      lines_append_lineFeed hfeed, withoutReturn_of_notMem hreturn, ih has, List.map_cons]

/-! ## Lines of bytes -/

section Bytes

variable {bytes : List UInt8}

theorem ne_lineFeed_of_mem (h : lineFeed ∉ bytes) : ∀ b ∈ bytes, (b != lineFeed) = true := by
  intro b hb
  rw [bne_iff_ne]
  exact fun heq ↦ h (heq ▸ hb)

theorem readLine?_append_lineFeed (h : lineFeed ∉ bytes) (rest : List UInt8) :
    readLine? (bytes ++ lineFeed :: rest) = some (dropReturn bytes, rest) := by
  rw [readLine?.eq_def]
  split
  · next hnil => exact absurd hnil (by simp)
  · next b bs heq =>
    have hall := ne_lineFeed_of_mem h
    rw [← heq, List.takeWhile_append_of_pos hall, List.dropWhile_append_of_pos hall]
    simp

theorem readLine?_of_notMem (h : lineFeed ∉ bytes) (hne : bytes ≠ []) :
    readLine? bytes = some (bytes, []) := by
  rw [readLine?.eq_def]
  split
  · exact absurd rfl hne
  · next b bs =>
    have hall := ne_lineFeed_of_mem h
    simp only [List.takeWhile_eq_self_iff.mpr hall, List.dropWhile_eq_nil_iff.mpr hall]

/-- Each line ends with the next line feed or with the input, and is read without a line feed at its
end and a carriage return right before that. -/
structure LineReader.EndsAtLineFeeds (r : LineReader) : Prop where
  nil : r.next? [] = none
  append_lineFeed : ∀ {bytes}, lineFeed ∉ bytes → ∀ rest,
    r.next? (bytes ++ lineFeed :: rest) = some (dropReturn bytes, rest)
  last : ∀ {bytes}, lineFeed ∉ bytes → bytes ≠ [] → r.next? bytes = some (bytes, [])

theorem endsAtLineFeeds_terminal : terminal.EndsAtLineFeeds where
  nil := rfl
  append_lineFeed := readLine?_append_lineFeed
  last := readLine?_of_notMem

variable {r : LineReader}

theorem LineReader.lines_of_none (h : r.next? bytes = none) : r.lines bytes = [] := by
  rw [lines]
  split
  · rfl
  · next heq => exact absurd (h.symm.trans heq) (by simp)

theorem LineReader.lines_of_some {line rest : List UInt8} (h : r.next? bytes = some (line, rest)) :
    r.lines bytes = line :: r.lines rest := by
  rw [lines]
  split
  · next hnone => exact absurd (hnone.symm.trans h) (by simp)
  · next heq =>
    obtain ⟨rfl, rfl⟩ := Prod.mk.inj (Option.some.inj (heq.symm.trans h))
    rfl

end Bytes

end Text

end CurveCalc
