import CurveCalc.Proofs.Matching
import CurveCalc.Proofs.WellShaped
import Mathlib

/-!
# Which problem a diagnosis names, and where

`Describes` says what the diagnosis of a text is without the functions that find it, with places in
characters. The functions count in bytes. But known characters are ASCII, nothing else stands before
the first foreign character, and all other tests are made on texts without foreign characters; so
each place is the same in bytes and in characters, whatever else the text has in it, and the bytes
at the ends of a text are its characters where they are looked at
(`Diagnosis.ofText_eq_iff_describes`).
-/

namespace CurveCalc

namespace Diagnosis

open Matching
open Text (byteLength IsAscii)

/-! ## What a diagnosis says -/

def AllKnown (text : List Char) : Prop := ∀ c ∈ text, isKnown c = true

/-- An operator before some text is the sign of a number. -/
def IsSignOf (op : BinaryOp) (rest : List Char) : Prop :=
  (op = .add ∨ op = .sub) ∧ ∃ c rest', rest = c :: rest' ∧
    (c.isDigit = true ∨ c = '.' ∨ c = 'N' ∨ c = 'I')

/-- What the diagnosis of a text says. Places are counted in characters. -/
inductive Describes (text : List Char) (limit? : Option ℕ) : Diagnosis → Prop
  | nothing (htext : text = []) : Describes text limit? ⟨.nothing, 0, 0⟩
  /-- The first character that is not known. -/
  | unexpected {before after : List Char} {c : Char} (htext : text = before ++ c :: after)
    (hbefore : AllKnown before) (hc : isKnown c = false) :
    Describes text limit? ⟨.unexpected c, before.length, before.length + 1⟩
  /-- The last character of the shortest prefix that closes more than it opens. -/
  | closing {before after : List Char} (hknown : AllKnown text)
    (htext : text = before ++ ')' :: after) (hover : Overclosed (before ++ [')']))
    (hshortest : ∀ s, s <+: text → Overclosed s → before.length < s.length) :
    Describes text limit? ⟨.unpaired false, before.length, before.length + 1⟩
  /-- The last parenthesis that no other one matches. -/
  | opening {before after : List Char} (hknown : AllKnown text) (hnever : NeverOvercloses text)
    (hmore : text.count ')' < text.count '(') (htext : text = before ++ '(' :: after)
    (hunmatched : Unmatched text before.length)
    (hlast : ∀ i, Unmatched text i → i ≤ before.length) :
    Describes text limit? ⟨.unpaired true, before.length, before.length + 1⟩
  /-- The first pair with nothing in it. -/
  | emptyParens {before after : List Char} (hknown : AllKnown text) (hbalanced : Balanced text)
    (htext : text = before ++ '(' :: ')' :: after)
    (hfirst : ∀ s t, text = s ++ '(' :: ')' :: t → before.length ≤ s.length) :
    Describes text limit? ⟨.emptyParens, before.length, before.length + 2⟩
  | trailingOperator {before : List Char} {op : BinaryOp} (hknown : AllKnown text)
    (hbalanced : Balanced text) (hpair : ∀ s t, text ≠ s ++ '(' :: ')' :: t)
    (htext : text = before ++ [op.symbol]) :
    Describes text limit? ⟨.trailingOperator, before.length, before.length + 1⟩
  | leadingOperator {op : BinaryOp} {rest : List Char} (hknown : AllKnown text)
    (hbalanced : Balanced text) (hpair : ∀ s t, text ≠ s ++ '(' :: ')' :: t)
    (hend : ∀ (s : List Char) (op' : BinaryOp), text ≠ s ++ [op'.symbol])
    (htext : text = op.symbol :: rest) (hsign : ¬IsSignOf op rest) :
    Describes text limit? ⟨.leadingOperator, 0, 1⟩
  | tooDeep {limit : ℕ} (hshape : WellShaped text) (hlimit : limit? = some limit) :
    Describes text limit? ⟨.tooDeep limit, 0, text.length⟩
  | unreadable (hshape : WellShaped text) (hlimit : limit? = none) :
    Describes text limit? ⟨.unreadable, 0, text.length⟩

/-- The characters that a problem of a text is about. -/
def named (text : List Char) : Problem → List Char
  | .nothing | .badPoint => []
  | .unexpected c => [c]
  | .unpaired false => [')']
  | .unpaired true => ['(']
  | .emptyParens => ['(', ')']
  | .trailingOperator => text.getLast?.toList
  | .leadingOperator => text.head?.toList
  | .tooDeep _ | .unreadable => text

variable {text before after : List Char} {limit? : Option ℕ} {c : Char} {i : ℕ}

/-- **The place of a diagnosis is that of the characters it is about.** -/
theorem Describes.covers {d : Diagnosis} (h : Describes text limit? d) :
    ∃ before after, text = before ++ named text d.problem ++ after ∧
      d.span = ⟨before.length, (before ++ named text d.problem).length⟩ := by
  cases h with
  | nothing htext => exact ⟨[], [], by simp [htext, named], rfl⟩
  | unexpected htext | closing _ htext | opening _ _ _ htext | emptyParens _ _ htext =>
    exact ⟨_, _, by simpa [named] using htext, by simp [named]⟩
  | @trailingOperator before _ _ _ _ htext =>
    exact ⟨before, [], by simp [named, htext], by simp [named, htext]⟩
  | @leadingOperator _ rest _ _ _ _ htext =>
    exact ⟨[], rest, by simp [named, htext], by simp [named, htext]⟩
  | tooDeep | unreadable => exact ⟨[], [], by simp [named], rfl⟩

/-! ## Bytes and characters -/

theorem AllKnown.isAscii (h : AllKnown text) : IsAscii text :=
  fun c hc ↦ val_le_of_isKnown (h c hc)

theorem AllKnown.byteLength_eq (h : AllKnown text) : byteLength text = text.length :=
  Text.byteLength_eq_length_iff.mpr h.isAscii

theorem AllKnown.of_append (h : AllKnown (before ++ after)) : AllKnown before :=
  fun c hc ↦ h c (List.mem_append_left after hc)

/-! ## The tests -/

theorem firstUnknown?_append (hbefore : AllKnown before) (hc : isKnown c = false) (offset : ℕ) :
    firstUnknown? offset (before ++ c :: after) = some (offset + byteLength before, c) := by
  induction before generalizing offset with
  | nil => simp [firstUnknown?, hc]
  | cons d before ih =>
    obtain ⟨hd, hbefore⟩ := List.forall_mem_cons.mp hbefore
    rw [List.cons_append, firstUnknown?, if_pos hd, ih hbefore, Text.byteLength_cons, Nat.add_assoc]

theorem exists_of_not_allKnown (h : ¬AllKnown text) :
    ∃ before c after, text = before ++ c :: after ∧ AllKnown before ∧ isKnown c = false := by
  induction text with
  | nil => exact absurd (List.forall_mem_nil _) h
  | cons d text ih =>
    by_cases hd : isKnown d = true
    · obtain ⟨before, c, after, rfl, hbefore, hc⟩ := ih fun hall ↦
        h (List.forall_mem_cons.mpr ⟨hd, hall⟩)
      exact ⟨d :: before, c, after, rfl, List.forall_mem_cons.mpr ⟨hd, hbefore⟩, hc⟩
    · exact ⟨[], d, text, rfl, List.forall_mem_nil _, Bool.eq_false_of_not_eq_true hd⟩

theorem firstEmptyPair?_append
    (hfirst : ∀ s t, before ++ '(' :: ')' :: after = s ++ '(' :: ')' :: t →
      before.length ≤ s.length) (offset : ℕ) :
    firstEmptyPair? offset (before ++ '(' :: ')' :: after) =
      some (offset + byteLength before) := by
  induction before generalizing offset with
  | nil => rfl
  | cons d before ih =>
    rw [List.cons_append, firstEmptyPair?.eq_def]
    split
    · next heq => exact absurd heq (by simp)
    · next rest heq => exact absurd (hfirst [] rest heq) (by simp)
    · next d' rest _ heq =>
      obtain ⟨rfl, rfl⟩ := List.cons.inj heq
      rw [ih, Text.byteLength_cons, Nat.add_assoc]
      intro s t hst
      exact Nat.le_of_succ_le_succ (hfirst (d :: s) t (congrArg (d :: ·) hst))

theorem exists_first_pair (h : ¬∀ s t, text ≠ s ++ '(' :: ')' :: t) :
    ∃ before after, text = before ++ '(' :: ')' :: after ∧
      ∀ s t, text = s ++ '(' :: ')' :: t → before.length ≤ s.length := by
  classical
  push Not at h
  have hplace : ∃ n, ∃ s t, text = s ++ '(' :: ')' :: t ∧ s.length = n := by
    obtain ⟨s, t, hst⟩ := h
    exact ⟨_, s, t, hst, rfl⟩
  obtain ⟨before, after, htext, hlength⟩ := Nat.find_spec hplace
  refine ⟨before, after, htext, fun s t hst ↦ ?_⟩
  rw [hlength]
  exact Nat.find_min' hplace ⟨s, t, hst, rfl⟩

theorem endsInOperator_append (before : List Char) (op : BinaryOp) :
    endsInOperator (before ++ [op.symbol]) = true := by
  simp [endsInOperator, isOperator, BinaryOp.ofChar?_symbol]

theorem startsWithOperator_cons {op : BinaryOp} {rest : List Char} (h : ¬IsSignOf op rest) :
    startsWithOperator (op.symbol :: rest) = true := by
  by_contra hstart
  exact h (Grammar.Reads.first_is_sign (Bool.eq_false_of_not_eq_true hstart))

/-! ## The description fits one diagnosis -/

theorem exists_describes_of_balanced (hne : text ≠ []) (hknown : AllKnown text)
    (hbalanced : Balanced text) (limit? : Option ℕ) : ∃ d, Describes text limit? d := by
  by_cases hpair : ∀ s t, text ≠ s ++ '(' :: ')' :: t
  · by_cases hend : ∀ (s : List Char) (op : BinaryOp), text ≠ s ++ [op.symbol]
    · by_cases hstart : ∀ (op : BinaryOp) (rest : List Char), text = op.symbol :: rest →
        IsSignOf op rest
      · have hcount : ∀ s t, text = s ++ t → s.count ')' ≤ s.count '(' := by
          intro s t hst
          exact (hbalanced.never_overcloses.of_prefix ⟨t, hst.symm⟩).count_le
        have hshape : WellShaped text :=
          ⟨hne, hknown, hcount, hbalanced.count_eq.symm, hpair, hend, hstart⟩
        cases limit? with
        | some limit => exact ⟨_, .tooDeep hshape rfl⟩
        | none => exact ⟨_, .unreadable hshape rfl⟩
      · push Not at hstart
        obtain ⟨op, rest, htext, hsign⟩ := hstart
        exact ⟨_, .leadingOperator hknown hbalanced hpair hend htext hsign⟩
    · push Not at hend
      obtain ⟨before, op, htext⟩ := hend
      exact ⟨_, .trailingOperator hknown hbalanced hpair htext⟩
  · obtain ⟨before, after, htext, hfirst⟩ := exists_first_pair hpair
    exact ⟨_, .emptyParens hknown hbalanced htext hfirst⟩

theorem exists_describes_of_leaves {opened : List ℕ} (hknown : AllKnown text)
    (h : Leaves text (i :: opened)) (limit? : Option ℕ) : ∃ d, Describes text limit? d := by
  have hnever := h.neverOvercloses
  obtain ⟨before, after, rfl, -, hafter⟩ := h.exists_last
  have hbefore := (hnever.of_prefix (List.prefix_append before _)).count_le
  have hcount := hafter.count_eq
  have hmore : (before ++ '(' :: after).count ')' < (before ++ '(' :: after).count '(' := by
    simp
    omega
  exact ⟨_, .opening hknown hnever hmore rfl (unmatched_length hafter.never_overcloses)
    fun _ h ↦ h.le_length hafter⟩

/-- **Some case of the description applies to each text.** -/
theorem exists_describes (text : List Char) (limit? : Option ℕ) :
    ∃ d, Describes text limit? d := by
  by_cases hne : text = []
  · exact ⟨_, .nothing hne⟩
  by_cases hknown : AllKnown text
  · have houtcome := outcome_pairUp text
    generalize pairUp 0 [] text = result at houtcome
    cases houtcome with
    | @error before after htext hbefore =>
      refine ⟨_, .closing hknown htext hbefore.overclosed fun s hs hover ↦ ?_⟩
      -- a prefix that is no longer is one of the balanced text
      by_contra hle
      have hprefix := List.prefix_of_prefix_length_le hs ⟨_, htext.symm⟩ (Nat.not_lt.mp hle)
      exact hbefore.never_overcloses s hprefix hover
    | @ok opened hleaves =>
      cases opened with
      | nil => exact exists_describes_of_balanced hne hknown hleaves.balanced_of_nil limit?
      | cons i opened => exact exists_describes_of_leaves hknown hleaves limit?
  · obtain ⟨before, c, after, htext, hbefore, hc⟩ := exists_of_not_allKnown hknown
    exact ⟨_, .unexpected htext hbefore hc⟩

theorem ofText_of_allKnown (hne : text ≠ []) (hknown : AllKnown text) :
    ofText text limit? =
      match pairUp 0 [] text with
      | .error i => ⟨.unpaired false, i, i + 1⟩
      | .ok (i :: _) => ⟨.unpaired true, i, i + 1⟩
      | .ok [] => ofPaired text limit? := by
  rcases hpair : pairUp 0 [] text with i | ⟨_ | ⟨i, opened⟩⟩ <;>
    simp only [ofText, if_neg hne, firstUnknown?_eq_none hknown, hpair]

theorem ofText_of_balanced (hne : text ≠ []) (hknown : AllKnown text) (h : Balanced text) :
    ofText text limit? = ofPaired text limit? := by
  rw [ofText_of_allKnown hne hknown, pairUp_eq_nil h]

/-- **The diagnosis is what the description says.** -/
theorem Describes.ofText_eq {d : Diagnosis} (h : Describes text limit? d) :
    ofText text limit? = d := by
  cases h with
  | nothing htext => exact if_pos htext
  | unexpected htext hbefore hc =>
    subst htext
    rw [ofText, if_neg (by simp), firstUnknown?_append hbefore hc, Nat.zero_add,
      hbefore.byteLength_eq]
  | @closing before after hknown htext hover hshortest =>
    subst htext
    rw [ofText_of_allKnown (by simp) hknown,
      pairUp_eq_error (balanced_of_shortest hover hshortest), hknown.of_append.byteLength_eq]
  | @opening before after hknown hnever _ htext hunmatched hlast =>
    subst htext
    obtain ⟨-, opened, hpair⟩ := exists_pairUp_eq_cons hnever hunmatched hlast
    rw [ofText_of_allKnown (by simp) hknown, hpair, hknown.of_append.byteLength_eq]
  | @emptyParens before after hknown hbalanced htext hfirst =>
    subst htext
    simp only [ofText_of_balanced (by simp) hknown hbalanced, ofPaired,
      firstEmptyPair?_append hfirst, hknown.of_append.byteLength_eq, Nat.zero_add]
  | @trailingOperator before op hknown hbalanced hpair htext =>
    subst htext
    simp only [ofText_of_balanced (by simp) hknown hbalanced, ofPaired,
      firstEmptyPair?_eq_none hpair, endsInOperator_append, if_true, hknown.byteLength_eq]
    simp
  | @leadingOperator op rest hknown hbalanced hpair hend htext hsign =>
    subst htext
    simp only [ofText_of_balanced (by simp) hknown hbalanced, ofPaired,
      firstEmptyPair?_eq_none hpair, endsInOperator_eq_false hend, startsWithOperator_cons hsign]
    simp
  | tooDeep hshape hlimit | unreadable hshape hlimit =>
    simp only [hshape.ofText_eq, ofShaped, hlimit, AllKnown.byteLength_eq hshape.known]

theorem ofText_eq_iff {d : Diagnosis} : ofText text limit? = d ↔ Describes text limit? d := by
  constructor
  · rintro rfl
    obtain ⟨d, hd⟩ := exists_describes text limit?
    rwa [hd.ofText_eq]
  · exact Describes.ofText_eq

/-! ## Indices -/

def utf8 (text : List Char) : List UInt8 := text.flatMap String.utf8EncodeChar

/-- The character with the number of a byte. -/
def ofByte (b : UInt8) : Char := Char.ofNat b.toNat

/-- The byte at an index, as a character; nothing if the index is out of range. -/
def byteAt? (bytes : List UInt8) (i : ℕ) : Option Char := bytes[i]?.map ofByte

/-- The tests of the ends of a text, made on bytes that are looked up by index. There is no result
if an index is out of range, be it that of the byte before the end. -/
def endsByIndex? (bytes : List UInt8) (limit? : Option ℕ) : Option Diagnosis := do
  let last ← if bytes.length = 0 then none else some (bytes.length - 1)
  let final ← byteAt? bytes last
  if isOperator final then
    return ⟨.trailingOperator, last, last + 1⟩
  let first ← byteAt? bytes 0
  let isSign := (first = '+' || first = '-') && ((byteAt? bytes 1).map followsSign).getD false
  if isOperator first && !isSign then
    return ⟨.leadingOperator, 0, 1⟩
  match limit? with
  | some limit => return ⟨.tooDeep limit, 0, bytes.length⟩
  | none => return ⟨.unreadable, 0, bytes.length⟩

/-- The diagnosis of a text, made with its bytes where an index is used. -/
def byIndex? (text : List Char) (limit? : Option ℕ) : Option Diagnosis :=
  if text = [] then some ⟨.nothing, 0, 0⟩
  else
    match firstUnknown? 0 text with
    | some (i, c) => some ⟨.unexpected c, i, i + 1⟩
    | none =>
      match pairUp 0 [] text with
      | .error i => some ⟨.unpaired false, i, i + 1⟩
      | .ok (i :: _) => some ⟨.unpaired true, i, i + 1⟩
      | .ok [] =>
        match firstEmptyPair? 0 text with
        | some i => some ⟨.emptyParens, i, i + 2⟩
        | none => endsByIndex? (utf8 text) limit?

theorem ofByte_toUInt8 (h : c.val ≤ 127) : ofByte c.val.toUInt8 = c := by
  have hbyte : c.val.toUInt8.toNat = c.toNat := by
    have hle : c.val.toNat ≤ 127 := UInt32.le_iff_toNat_le.mp h
    rw [UInt32.toNat_toUInt8]
    exact Nat.mod_eq_of_lt (Nat.lt_of_le_of_lt hle (by norm_num))
  rw [ofByte, hbyte, Char.ofNat_toNat]

theorem utf8_of_isAscii (h : IsAscii text) : utf8 text = text.map fun c ↦ c.val.toUInt8 := by
  induction text with
  | nil => rfl
  | cons c text ih =>
    obtain ⟨hc, htext⟩ := List.forall_mem_cons.mp h
    rw [utf8, List.flatMap_cons, ← utf8, ih htext,
      String.utf8EncodeChar_eq_singleton (Char.utf8Size_eq_one_iff.mpr hc)]
    rfl

/-- **The bytes of an ASCII text are its characters.** -/
theorem byteAt?_utf8 (h : IsAscii text) (i : ℕ) : byteAt? (utf8 text) i = text[i]? := by
  rw [byteAt?, utf8_of_isAscii h, List.getElem?_map, Option.map_map]
  cases hc : text[i]? with
  | none => rfl
  | some c => exact congrArg some (ofByte_toUInt8 (h c (List.mem_of_getElem? hc)))

theorem endsByIndex?_utf8 (hne : text ≠ []) (h : IsAscii text)
    (hpair : firstEmptyPair? 0 text = none) :
    endsByIndex? (utf8 text) limit? = some (ofPaired text limit?) := by
  have hlength : (utf8 text).length = byteLength text := by
    rw [utf8_of_isAscii h, List.length_map, Text.byteLength_eq_length_iff.mpr h]
  have hlast : byteAt? (utf8 text) (byteLength text - 1) = text.getLast? := by
    rw [byteAt?_utf8 h, Text.byteLength_eq_length_iff.mpr h, List.getLast?_eq_getElem?]
  obtain ⟨first, rest, rfl⟩ := List.exists_cons_of_ne_nil hne
  have hpos : byteLength (first :: rest) ≠ 0 := by
    have hsize := first.utf8Size_pos
    rw [Text.byteLength_cons]
    omega
  have hstop : byteLength (first :: rest) - 1 + 1 = byteLength (first :: rest) := by omega
  have hfinal := List.getLast?_eq_some_getLast hne
  have hfirst : byteAt? (utf8 (first :: rest)) 0 = some first := byteAt?_utf8 h 0
  have hends : endsInOperator (first :: rest) = isOperator ((first :: rest).getLast hne) := by
    rw [endsInOperator, hfinal]
  have hstarts : startsWithOperator (first :: rest) = (isOperator first &&
      !((first = '+' || first = '-') &&
        ((byteAt? (utf8 (first :: rest)) 1).map followsSign).getD false)) := by
    rw [byteAt?_utf8 h]
    cases rest <;> rfl
  simp only [endsByIndex?, hlength, if_neg hpos, hlast, hfinal, hfirst, hstop, ofPaired, hpair,
    hends, hstarts, Option.bind_eq_bind, Option.bind_some]
  split
  · rfl
  · split
    · rfl
    · cases limit? <;> rfl

/-- **No index of the diagnosis is out of range**, whatever the text is. -/
theorem byIndex?_eq (text : List Char) (limit? : Option ℕ) :
    byIndex? text limit? = some (ofText text limit?) := by
  by_cases hne : text = []
  · rw [byIndex?, ofText, if_pos hne, if_pos hne]
  by_cases hknown : AllKnown text
  · rw [ofText_of_allKnown hne hknown, byIndex?, if_neg hne, firstUnknown?_eq_none hknown]
    rcases pairUp 0 [] text with i | ⟨_ | ⟨i, opened⟩⟩
    · rfl
    · cases hpair : firstEmptyPair? 0 text with
      | some i => simp only [ofPaired, hpair]
      | none =>
        rw [← endsByIndex?_utf8 hne hknown.isAscii hpair]
    · rfl
  · -- the bytes are not looked at
    obtain ⟨before, c, after, rfl, hbefore, hc⟩ := exists_of_not_allKnown hknown
    rw [byIndex?, ofText, if_neg hne, if_neg hne, firstUnknown?_append hbefore hc]

/-! ## The places of diagnoses -/

theorem ncard_unmatched_close (hafter : Balanced after) :
    {i | Unmatched (before ++ '(' :: after ++ [')']) i}.ncard + 1 =
      {i | Unmatched (before ++ '(' :: after) i}.ncard := by
  have hset : {i | Unmatched (before ++ '(' :: after ++ [')']) i} =
      {i | Unmatched (before ++ '(' :: after) i} \ {before.length} := by
    ext i
    exact unmatched_close_iff hafter
  have hfinite : {i | Unmatched (before ++ '(' :: after) i}.Finite :=
    (Set.finite_Iic before.length).subset fun _ h ↦ h.le_length hafter
  rw [hset]
  exact Set.ncard_sdiff_singleton_add_one (unmatched_length hafter.never_overcloses) hfinite

/-- **Each diagnosis is the one that the description gives.** Its place, in characters, is that of
the characters it is about; no index on the way to it is out of range; and behind an opening
parenthesis that it names the text is balanced, so that one more closing parenthesis leaves one
fewer unmatched. -/
theorem ofText_eq_iff_describes (text : List Char) (limit? : Option ℕ) :
    (∀ d, ofText text limit? = d ↔ Describes text limit? d) ∧
      (∃ before after,
        text = before ++ named text (ofText text limit?).problem ++ after ∧
          (ofText text limit?).span =
            ⟨before.length, (before ++ named text (ofText text limit?).problem).length⟩) ∧
      byIndex? text limit? = some (ofText text limit?) ∧
      ((ofText text limit?).problem = .unpaired true →
        ∃ before after, text = before ++ '(' :: after ∧
          (ofText text limit?).span = ⟨before.length, before.length + 1⟩ ∧ Balanced after ∧
            {i | Unmatched (text ++ [')']) i}.ncard + 1 = {i | Unmatched text i}.ncard) := by
  have hdescribes : Describes text limit? (ofText text limit?) := ofText_eq_iff.mp rfl
  refine ⟨fun d ↦ ofText_eq_iff, hdescribes.covers, byIndex?_eq text limit?, fun hproblem ↦ ?_⟩
  generalize ofText text limit? = d at *
  cases hdescribes with
  | @opening before after _ hnever _ htext hunmatched hlast =>
    subst htext
    obtain ⟨hafter, -⟩ := exists_pairUp_eq_cons hnever hunmatched hlast
    exact ⟨before, after, rfl, rfl, hafter, ncard_unmatched_close hafter⟩
  | _ => simp at hproblem

/-- The first of two opening parentheses has no partner here; and a letter of two bytes comes before
any parenthesis, wherever they are. -/
theorem ofText_eq_iff_describes_unclosed :
    (ofText "(x+(x)".toList none = ⟨.unpaired true, 0, 1⟩ ∧ Balanced "x+(x)".toList) ∧
      ofText "x)é(".toList (some 3) = ⟨.unexpected 'é', 2, 3⟩ := by
  have hdiagnosis : ofText "(x+(x)".toList none = ⟨.unpaired true, 0, 1⟩ := by decide
  obtain ⟨-, -, -, hopening⟩ := ofText_eq_iff_describes "(x+(x)".toList none
  obtain ⟨before, after, htext, hspan, hafter, -⟩ := hopening (by rw [hdiagnosis])
  refine ⟨⟨hdiagnosis, ?_⟩, ?_⟩
  · rw [hdiagnosis] at hspan
    obtain rfl : before = [] := List.eq_nil_of_length_eq_zero (Text.Span.mk.inj hspan).1.symm
    obtain ⟨-, rfl⟩ := List.cons.inj htext
    exact hafter
  · have hbefore : AllKnown ['x', ')'] := List.all_eq_true.mp (by decide)
    exact ((ofText_eq_iff_describes "x)é(".toList (some 3)).1 _).mpr
      (@Describes.unexpected _ _ ['x', ')'] ['('] 'é' rfl hbefore (by decide))

end Diagnosis

end CurveCalc
