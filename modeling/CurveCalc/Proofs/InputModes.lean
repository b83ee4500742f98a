import CurveCalc.Proofs.DiagnosisPlaces
import CurveCalc.Proofs.LineIsolation
import CurveCalc.Proofs.Lines

/-!
# The two ways of input

Piped text is decoded as a whole and then cut into lines of characters; typed text is cut into lines
of bytes, and each of them is decoded on its own. The two agree because no byte of a character
outside ASCII is a line feed or a carriage return: reading the bytes of a text line by line gives
the bytes of its lines (`Text.LineReader.EndsAtLineFeeds.lines_utf8`).

So both sessions go through the same lines, and what they have in common is said by one account of a
session (`Account.marked`), with a mark that stands in front of each line that is read and at the
end of input: the prompt for a terminal, nothing for piped input.
-/

namespace CurveCalc

open Diagnosis (utf8)

namespace Text

variable {c : Char} {line : List Char}

/-! ## The bytes of a line -/

theorem utf8_append (s t : List Char) : utf8 (s ++ t) = utf8 s ++ utf8 t := List.flatMap_append

theorem utf8_singleton (c : Char) : utf8 [c] = String.utf8EncodeChar c := List.append_nil _

theorem utf8_ne_nil (h : line ≠ []) : utf8 line ≠ [] := by
  obtain ⟨c, rest, rfl⟩ := List.exists_cons_of_ne_nil h
  exact List.append_ne_nil_of_left_ne_nil String.utf8EncodeChar_ne_nil _

/-- The one character with a byte below 128 in it is that byte. -/
theorem toNat_eq_of_mem_utf8EncodeChar {b : UInt8} (hb : b.toNat < 128)
    (h : b ∈ String.utf8EncodeChar c) : c.val.toNat = b.toNat := by
  -- the bytes of the longer forms all have the highest bit
  have hhigh : ∀ n : Nat, n < 256 → b = UInt8.ofNat n → n < 128 := by
    intro n hn heq
    rwa [heq, UInt8.toNat_ofNat', Nat.mod_eq_of_lt hn] at hb
  rw [String.utf8EncodeChar] at h
  split at h
  · next hsingle =>
    rw [List.mem_singleton.mp h, UInt8.toNat_ofNat']
    exact (Nat.mod_eq_of_lt (by omega)).symm
  · exfalso
    split at h
    · simp only [List.mem_cons, List.not_mem_nil, or_false] at h
      rcases h with heq | heq <;> have := hhigh _ (by omega) heq <;> omega
    · split at h
      · simp only [List.mem_cons, List.not_mem_nil, or_false] at h
        rcases h with heq | heq | heq <;> have := hhigh _ (by omega) heq <;> omega
      · simp only [List.mem_cons, List.not_mem_nil, or_false] at h
        rcases h with heq | heq | heq | heq <;> have := hhigh _ (by omega) heq <;> omega

theorem eq_of_mem_utf8EncodeChar {c d : Char} (hd : d.val.toNat < 128)
    (h : UInt8.ofNat d.val.toNat ∈ String.utf8EncodeChar c) : c = d := by
  have hbyte : (UInt8.ofNat d.val.toNat).toNat = d.val.toNat := by
    rw [UInt8.toNat_ofNat', Nat.mod_eq_of_lt (by omega)]
  have hval := toNat_eq_of_mem_utf8EncodeChar (hbyte.symm ▸ hd) h
  exact Char.ext (UInt32.toNat_inj.mp (hval.trans hbyte))

theorem lineFeed_notMem_utf8 (h : '\n' ∉ line) : lineFeed ∉ utf8 line := by
  rw [utf8, List.mem_flatMap]
  rintro ⟨c, hc, hmem⟩
  exact h (eq_of_mem_utf8EncodeChar (d := '\n') (by decide) hmem ▸ hc)

theorem dropReturn_utf8 (line : List Char) :
    dropReturn (utf8 line) = utf8 (withoutReturn line) := by
  rcases List.eq_nil_or_concat line with rfl | ⟨front, c, rfl⟩
  · rfl
  · rw [List.concat_eq_append, withoutReturn, List.getLast?_concat, List.dropLast_concat]
    by_cases hc : c = '\r'
    · have hbytes : utf8 (front ++ [c]) = utf8 front ++ [carriageReturn] := by
        rw [utf8_append, hc]
        rfl
      rw [hbytes, dropReturn, List.getLast?_concat, if_pos rfl, List.dropLast_concat, hc,
        if_pos rfl]
    · have hlast : (utf8 (front ++ [c])).getLast? ≠ some carriageReturn := by
        rw [utf8_append, utf8_singleton, List.getLast?_append,
          List.getLast?_eq_getLast_of_ne_nil String.utf8EncodeChar_ne_nil, Option.some_or]
        intro hlast
        have hmem : carriageReturn ∈ String.utf8EncodeChar c :=
          Option.some.inj hlast ▸ List.getLast_mem _
        exact hc (eq_of_mem_utf8EncodeChar (d := '\r') (by decide) hmem)
      rw [dropReturn, if_neg hlast, if_neg fun h ↦ hc (Option.some.inj h)]

/-- **Cutting and encoding commute**: line by line, the bytes of a text are the bytes of its
lines. -/
theorem LineReader.EndsAtLineFeeds.lines_utf8 {r : LineReader} (hr : r.EndsAtLineFeeds)
    (text : List Char) : r.lines (utf8 text) = (Text.lines text).map utf8 := by
  induction text using line_induction with
  | last line h =>
    cases line with
    | nil => exact r.lines_of_none hr.nil
    | cons c line =>
      rw [r.lines_of_some (hr.last (lineFeed_notMem_utf8 h) (utf8_ne_nil (by simp))),
        r.lines_of_none hr.nil, lines_of_notMem h (by simp), List.map_singleton]
  | more line rest h ih =>
    have hbytes : utf8 (line ++ '\n' :: rest) = utf8 line ++ lineFeed :: utf8 rest := by
      rw [utf8_append]
      rfl
    rw [hbytes, r.lines_of_some (hr.append_lineFeed (lineFeed_notMem_utf8 h) _), ih,
      lines_append_lineFeed h, List.map_cons, dropReturn_utf8]

end Text

namespace Session

/-! ## Encoded text -/

theorem utf8Encode_eq (text : List Char) : text.utf8Encode = ⟨(utf8 text).toArray⟩ :=
  ByteArray.ext List.data_toByteArray

/-- **The bytes of a text are decoded to it**, and no other bytes are. -/
theorem decode?_eq_some_iff {bytes : List UInt8} {text : List Char} :
    decode? bytes = some text ↔ bytes = utf8 text := by
  rw [decode?, String.fromUTF8?, Option.map_eq_some_iff]
  constructor
  · rintro ⟨s, hs, rfl⟩
    split at hs
    · obtain rfl := Option.some.inj hs
      have hbytes := congrArg String.toByteArray (@String.ofList_toList (String.fromUTF8 _ ‹_›))
      rw [String.toByteArray_ofList, utf8Encode_eq] at hbytes
      exact (congrArg (fun b : ByteArray ↦ b.data.toList) hbytes).symm
    · exact absurd hs (by simp)
  · rintro rfl
    have hvalid : (⟨(utf8 text).toArray⟩ : ByteArray).IsValidUTF8 :=
      ⟨text, (utf8Encode_eq text).symm⟩
    refine ⟨String.ofList text, ?_, String.toList_ofList⟩
    rw [dif_pos hvalid, Option.some.injEq, ← String.toByteArray_inj, String.toByteArray_ofList,
      utf8Encode_eq]
    rfl

/-! ## Sessions that keep account -/

/-- What a session did: the lines that it handed over to be run, in order, and what it wrote. -/
structure Account where
  handed : List (List Char)
  transcript : Transcript

variable {c : Console}

namespace Account

/-- A line is handed over, and unless its answer is a crash, the rest of the session follows. -/
def afterLine (c : Console) (line : List Char) (rest : Account) : Account :=
  ⟨line :: if c.respond line = .crash then [] else rest.handed,
    rest.transcript.afterResponse (c.respond line)⟩

/-- Some output in front of the rest of a session. -/
def afterOutput (text : String) (rest : Account) : Account :=
  { rest with transcript := rest.transcript.afterOutput text }

/-- `runLines`, keeping account. -/
def ofLines (c : Console) : List (List Char) → Account
  | [] => ⟨[], .done⟩
  | line :: rest => (ofLines c rest).afterLine c line

/-- `piped`, keeping account. -/
def ofPiped (c : Console) (input : List UInt8) : Account :=
  match decode? input with
  | some text => ofLines c (commandLines text)
  | none => ⟨[], Transcript.done.afterReport invalidInput⟩

/-- `runTyped`, keeping account. -/
def ofTypedLines (c : Console) : List (List UInt8) → Account
  | [] => afterOutput prompt ⟨[], .done⟩
  | line :: rest =>
    afterOutput prompt <|
      match decode? line with
      | none => ⟨[], Transcript.done.afterReport invalidInput⟩
      | some text =>
        if Text.isBlankLine text then ofTypedLines c rest
        else (ofTypedLines c rest).afterLine c text

/-- `typed`, keeping account. -/
def ofTyped (c : Console) (input : List UInt8) : Account := ofTypedLines c (c.reader.lines input)

theorem transcript_ofLines (lines : List (List Char)) :
    (ofLines c lines).transcript = c.runLines lines := by
  induction lines with
  | nil => rfl
  | cons line lines ih => rw [ofLines, Console.runLines, afterLine, ih]

theorem transcript_ofPiped (input : List UInt8) : (ofPiped c input).transcript = c.piped input := by
  cases h : decode? input with
  | none => simp only [ofPiped, Console.piped, h]
  | some text => simp only [ofPiped, Console.piped, h, transcript_ofLines]

theorem transcript_ofTypedLines (lines : List (List UInt8)) :
    (ofTypedLines c lines).transcript = c.runTyped lines := by
  induction lines with
  | nil => rfl
  | cons line lines ih =>
    cases h : decode? line with
    | none => simp only [ofTypedLines, Console.runTyped, afterOutput, h]
    | some text =>
      simp only [ofTypedLines, Console.runTyped, afterOutput, h]
      split
      · rw [ih]
      · rw [afterLine, ih]

theorem transcript_ofTyped (input : List UInt8) : (ofTyped c input).transcript = c.typed input :=
  transcript_ofTypedLines _

end Account

/-! ## The lines that are read -/

/-- A line that breaks a session off. Blank lines are not run, and so they do not. -/
def Console.breaksOff (c : Console) (line : List Char) : Bool :=
  !Text.isBlankLine line && c.respond line = .crash

/-- The lines up to the first that breaks the session off, with that one. -/
def Console.reached (c : Console) : List (List Char) → List (List Char)
  | [] => []
  | line :: rest => line :: if c.breaksOff line then [] else c.reached rest

/-- The output of a line that is read. -/
def outputOf (line : List Char) : String :=
  if Text.isBlankLine line then "" else (output? line).getD ""

/-- What is reported on a line that is read. -/
def Console.reportOf (c : Console) (line : List Char) : String :=
  if Text.isBlankLine line then "" else (c.report? line).getD ""

/-- The account of a session that goes through lines, with a mark in front of each that is read and
at the end of input. -/
def Account.marked (c : Console) (mark : String) (lines : List (List Char)) : Account where
  handed := (c.reached lines).filter fun line ↦ !Text.isBlankLine line
  transcript :=
    { output := String.join ((c.reached lines).map fun line ↦ mark ++ outputOf line) ++
        if (c.reached lines).any c.breaksOff then "" else mark
      reports := String.join ((c.reached lines).map c.reportOf)
      crashed := (c.reached lines).any c.breaksOff }

variable {mark : String} {line : List Char} {lines : List (List Char)}

theorem not_breaksOff_of_isBlankLine (h : Text.isBlankLine line = true) :
    c.breaksOff line = false := by
  rw [Console.breaksOff, h]
  rfl

theorem breaksOff_eq_decide (h : Text.isBlankLine line = false) :
    c.breaksOff line = decide (c.respond line = .crash) := by
  rw [Console.breaksOff, h]
  rfl

theorem reached_cons_of_breaksOff (h : c.breaksOff line = true) (lines : List (List Char)) :
    c.reached (line :: lines) = [line] := by
  rw [Console.reached, if_pos h]

theorem reached_cons_of_goesOn (h : c.breaksOff line = false) (lines : List (List Char)) :
    c.reached (line :: lines) = line :: c.reached lines := by
  rw [Console.reached, if_neg (Bool.eq_false_iff.mp h)]

theorem output?_of_crash (h : c.respond line = .crash) : output? line = none := by
  rw [output?]
  cases hrun : (Command.ofLine line).run with
  | error error => rfl
  | ok text => exact absurd (h.symm.trans (Console.respond_of_run_ok hrun)) (by simp)

theorem report?_of_crash (h : c.respond line = .crash) : c.report? line = none := by
  rw [Console.report?, h]

namespace Account

theorem afterLine_of_crash (h : c.respond line = .crash) (rest : Account) :
    rest.afterLine c line = ⟨[line], .broken⟩ := by
  rw [afterLine, h]
  rfl

theorem afterLine_of_goesOn (h : c.respond line ≠ .crash) (rest : Account) :
    rest.afterLine c line =
      ⟨line :: rest.handed, (output? line).getD "" ++ rest.transcript.output,
        (c.report? line).getD "" ++ rest.transcript.reports, rest.transcript.crashed⟩ := by
  rw [afterLine, if_neg h, Console.afterResponse_eq h]

theorem marked_nil (mark : String) : marked c mark [] = afterOutput mark ⟨[], .done⟩ := by
  simp [marked, Console.reached, afterOutput, Transcript.afterOutput, Transcript.done]

/-- One step of a session: a blank line is passed by, and any other is handed over. -/
theorem marked_cons (mark : String) (line : List Char) (lines : List (List Char)) :
    marked c mark (line :: lines) = afterOutput mark
      (if Text.isBlankLine line then marked c mark lines
        else (marked c mark lines).afterLine c line) := by
  cases hblank : Text.isBlankLine line with
  | true =>
    have hgoes : c.breaksOff line = false := not_breaksOff_of_isBlankLine hblank
    simp [marked, reached_cons_of_goesOn hgoes, afterOutput, Transcript.afterOutput, outputOf,
      Console.reportOf, hblank, hgoes, String.append_assoc]
  | false =>
    by_cases hcrash : c.respond line = .crash
    · have hbreaks : c.breaksOff line = true := by
        rw [breaksOff_eq_decide hblank, decide_eq_true hcrash]
      rw [if_neg Bool.false_ne_true, afterLine_of_crash hcrash]
      simp [marked, reached_cons_of_breaksOff hbreaks, afterOutput, Transcript.afterOutput,
        Transcript.broken, outputOf, Console.reportOf, hblank, hbreaks, output?_of_crash hcrash,
        report?_of_crash hcrash]
    · have hgoes : c.breaksOff line = false := by
        rw [breaksOff_eq_decide hblank, decide_eq_false hcrash]
      rw [if_neg Bool.false_ne_true, afterLine_of_goesOn hcrash]
      simp [marked, reached_cons_of_goesOn hgoes, afterOutput, Transcript.afterOutput, outputOf,
        Console.reportOf, hblank, hgoes, String.append_assoc]

theorem afterOutput_empty (a : Account) : a.afterOutput "" = a := by
  simp [afterOutput, Transcript.afterOutput]

/-- **A piped session has no marks.** -/
theorem ofLines_eq_marked (lines : List (List Char)) :
    ofLines c (lines.filter fun line ↦ !Text.isBlankLine line) = marked c "" lines := by
  induction lines with
  | nil => rw [marked_nil, afterOutput_empty]; rfl
  | cons line lines ih =>
    rw [marked_cons, afterOutput_empty]
    cases hblank : Text.isBlankLine line with
    | true => rw [List.filter_cons_of_neg (by simp [hblank]), if_pos rfl, ih]
    | false =>
      rw [List.filter_cons_of_pos (by simp [hblank]), if_neg Bool.false_ne_true, ofLines, ih]

/-- **A typed session is marked with prompts.** -/
theorem ofTypedLines_eq_marked (lines : List (List Char)) :
    ofTypedLines c (lines.map utf8) = marked c prompt lines := by
  induction lines with
  | nil => rw [marked_nil]; rfl
  | cons line lines ih =>
    rw [marked_cons, List.map_cons, ofTypedLines, decode?_eq_some_iff.mpr rfl, ih]

end Account

/-! ## Agreement -/

section Agreement

variable {input : List UInt8} {text : List Char}

theorem Account.ofPiped_eq_marked (h : decode? input = some text) :
    ofPiped c input = marked c "" (Text.lines text) := by
  simp only [ofPiped, h, commandLines, ofLines_eq_marked]

theorem Account.ofTyped_eq_marked (hc : c.reader.EndsAtLineFeeds) (h : decode? input = some text) :
    ofTyped c input = marked c prompt (Text.lines text) := by
  rw [ofTyped, decode?_eq_some_iff.mp h, hc.lines_utf8, ofTypedLines_eq_marked]

/-- **Piped and typed text are run alike**: both sessions hand over the same lines, report the same,
and break off at the same line if they do. Typed text is answered with the output of the piped text,
with one prompt in front of what each line that is read puts out, be it blank or not, and one at the
end of input if that is reached. -/
theorem Console.typed_agrees_with_piped (hc : c.reader.EndsAtLineFeeds)
    (h : decode? input = some text) :
    (Account.ofTyped c input).transcript = c.typed input ∧
      (Account.ofPiped c input).transcript = c.piped input ∧
      (Account.ofTyped c input).handed = (Account.ofPiped c input).handed ∧
      (Account.ofPiped c input).handed =
        (c.reached (Text.lines text)).filter (fun line ↦ !Text.isBlankLine line) ∧
      (c.typed input).reports = (c.piped input).reports ∧
      (c.typed input).crashed = (c.piped input).crashed ∧
      (c.piped input).output = String.join ((c.reached (Text.lines text)).map outputOf) ∧
      (c.typed input).output =
        String.join ((c.reached (Text.lines text)).map fun line ↦ prompt ++ outputOf line) ++
          if (c.piped input).crashed then "" else prompt := by
  have htyped := Account.ofTyped_eq_marked hc h
  have hpiped : Account.ofPiped c input = _ := Account.ofPiped_eq_marked h
  rw [← Account.transcript_ofTyped, ← Account.transcript_ofPiped, htyped, hpiped]
  refine ⟨rfl, rfl, rfl, rfl, rfl, rfl, ?_, rfl⟩
  simp [Account.marked]

end Agreement

/-- A line that ends in `\r\n`, a blank line, a line that is reported and one that breaks the
session off; the last line is not read. -/
theorem Console.typed_agrees_with_piped_crash :
    console.reader.EndsAtLineFeeds ∧
      decode? [120, 13, 10, 10, 195, 169, 10, 100, 32, 10, 120] = some "x\r\n\né\nd \nx".toList ∧
      (Account.ofTyped console [120, 13, 10, 10, 195, 169, 10, 100, 32, 10, 120]).handed =
        [['x'], ['é'], ['d', ' ']] ∧
      (Session.typed [120, 13, 10, 10, 195, 169, 10, 100, 32, 10, 120]).output =
        "y = x\ny = x\ny = y = y = " := by
  have hc : console.reader.EndsAtLineFeeds := Text.endsAtLineFeeds_terminal
  have hdecode : decode? [120, 13, 10, 10, 195, 169, 10, 100, 32, 10, 120] =
      some "x\r\n\né\nd \nx".toList := by
    decide +kernel
  obtain ⟨-, -, htyped, hpiped, -, -, -, houtput⟩ := typed_agrees_with_piped hc hdecode
  refine ⟨hc, hdecode, htyped.trans (hpiped.trans ?_), houtput.trans ?_⟩
  · decide +kernel
  · decide +kernel

end Session

end CurveCalc
