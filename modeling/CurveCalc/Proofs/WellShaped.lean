import CurveCalc.Proofs.Matching

/-!
# The shape of accepted texts

The reader never counts parentheses and never looks at the characters of a text as a whole; the
diagnosis of a refused text does both. `WellShaped` says what the structural tests of the diagnosis
look for, without the functions that look for it. Whatever a grammar reads is well shaped, and of a
well-shaped text the diagnosis has nothing to say but that it is unreadable or too deep. So the two
descriptions of the language do not contradict each other, with either grammar and any limit.
-/

namespace CurveCalc

/-- What the structural tests of a diagnosis ask of a text. -/
structure WellShaped (text : List Char) : Prop where
  ne_nil : text ≠ []
  known : ∀ c ∈ text, Diagnosis.isKnown c = true
  /-- No prefix closes more parentheses than it opens. -/
  count_close_le : ∀ s t, text = s ++ t → s.count ')' ≤ s.count '('
  count_close_eq : text.count ')' = text.count '('
  no_empty_pair : ∀ s t, text ≠ s ++ '(' :: ')' :: t
  no_last_operator : ∀ (s : List Char) (op : BinaryOp), text ≠ s ++ [op.symbol]
  /-- An operator at the start is the sign of a number. -/
  first_is_sign : ∀ (op : BinaryOp) (rest : List Char), text = op.symbol :: rest →
    (op = .add ∨ op = .sub) ∧ ∃ c rest', rest = c :: rest' ∧
      (c.isDigit = true ∨ c = '.' ∨ c = 'N' ∨ c = 'I')

/-! ## The known characters -/

namespace Diagnosis

theorem covers_isKnown : Literal.Covers isKnown where
  padding c hc := by
    rw [isKnown, hc]
    rfl
  hexDigit c hc := by
    rw [isKnown, hc, Bool.or_true]
    rfl
  marks := by decide

/-- **The known characters are ASCII.** -/
theorem val_le_of_isKnown {c : Char} (h : isKnown c = true) : c.val ≤ 127 := by
  have hletters : ∀ d ∈ alphabet, d.val ≤ 127 := by simp [alphabet]
  simp only [isKnown, Literal.isPadding, Text.isHexDigit, Char.isDigit, Bool.or_eq_true,
    Bool.and_eq_true, decide_eq_true_eq] at h
  rcases h with (hpad | (hdigit | hlower) | hupper) | hmem
  · exact UInt32.le_trans hpad (by decide)
  · exact UInt32.le_trans hdigit.2 (by decide)
  · exact UInt32.le_trans hlower.2 (by decide)
  · exact UInt32.le_trans hupper.2 (by decide)
  · exact hletters c (List.contains_iff_mem.mp hmem)

theorem isKnown_symbol (op : BinaryOp) : isKnown op.symbol = true := by
  cases op <;> decide

end Diagnosis

open Diagnosis

/-! ## What is read is well shaped -/

namespace Grammar

theorem Cursor.depth_run (k : Cursor) (text : List Char) :
    (k.run text).depth = k.depth + text.count '(' - text.count ')' := by
  induction text generalizing k with
  | nil => simp
  | cons c text ih =>
    rw [Cursor.run_cons, ih, Cursor.step]
    by_cases hopen : c = '('
    · subst hopen
      simp
      omega
    · by_cases hclose : c = ')'
      · subst hclose
        simp
        omega
      · simp only [if_neg hopen, if_neg hclose, List.count_cons_of_ne hopen,
          List.count_cons_of_ne hclose]
        split <;> rfl

namespace Reads

variable {g : Grammar} {level : Level} {text : List Char} {e : Expr}

theorem ne_nil (h : Reads g level text e) : text ≠ [] := by
  rintro rfl
  exact absurd h.run_eq (by decide)

theorem known (h : Reads g level text e) : ∀ c ∈ text, isKnown c = true := by
  induction h with
  | split _ _ _ ihl ihr =>
    exact List.forall_mem_append.mpr ⟨ihl, List.forall_mem_cons.mpr ⟨isKnown_symbol _, ihr⟩⟩
  | fall _ ih => exact ih
  | base _ ih => exact ih
  | log _ ih =>
    have hlog : ∀ c ∈ ['l', 'o', 'g'], isKnown c = true := List.all_eq_true.mp (by decide)
    exact List.forall_mem_append.mpr ⟨hlog, ih⟩
  | paren _ ih =>
    refine List.forall_mem_append.mpr ⟨List.forall_mem_cons.mpr ⟨by decide, ih⟩, ?_⟩
    exact List.forall_mem_singleton.mpr (by decide)
  | literal hv => exact (Literal.isLiteralText_of_readLiteral? hv).covered covers_isKnown
  | var => exact List.forall_mem_singleton.mpr (by decide)

theorem startsWithOperator_append {s t : List Char} (hs : s ≠ [])
    (h : startsWithOperator s = false) : startsWithOperator (s ++ t) = false := by
  match s, hs with
  | [c], _ =>
    have hc : isOperator c = false := by simpa [startsWithOperator] using h
    simp [startsWithOperator, hc]
  | c :: d :: s, _ => exact h

theorem startsWithOperator_of_plain {p : Char → Bool} (hp : IsPlain p) {c : Char}
    {rest : List Char} (hc : p c = true) : startsWithOperator (c :: rest) = false := by
  have hplain : isOperator c = false := by
    rw [isOperator, Option.isSome_eq_false_iff, Option.isNone_iff_eq_none,
      Option.eq_none_iff_forall_ne_some]
    intro op hop
    rw [BinaryOp.eq_symbol_of_ofChar? hop, hp.not_symbol op] at hc
    exact absurd hc (by simp)
  simp [startsWithOperator, hplain]

theorem startsWithOperator_of_literal (h : Literal.IsLiteralText text) :
    startsWithOperator text = false := by
  obtain ⟨c, rest, rfl, hc⟩ := h.exists_head
  -- padding and numbers start with no operator, and what follows a sign makes it one
  rcases hc with hc | hc | ⟨hsign, d, rest', rfl, hd⟩
  · exact startsWithOperator_of_plain isPlain_isPadding hc
  · exact startsWithOperator_of_plain
      ⟨by decide, by decide, fun op ↦ by cases op <;> decide⟩ hc
  · rcases hsign with rfl | rfl <;> simp [startsWithOperator, hd]

theorem not_startsWithOperator (h : Reads g level text e) : startsWithOperator text = false := by
  induction h with
  | split _ hl _ ihl _ => exact startsWithOperator_append hl.ne_nil ihl
  | fall _ ih => exact ih
  | base _ ih => exact ih
  | log => rfl
  | paren => rfl
  | literal hv => exact startsWithOperator_of_literal (Literal.isLiteralText_of_readLiteral? hv)
  | var => rfl

theorem count_close_le {s t : List Char} (h : Reads g level (s ++ t) e) :
    s.count ')' ≤ s.count '(' := by
  have hdepth := (h.passes 0).depth_le_run (Int.le_refl 0)
  rw [Cursor.depth_run] at hdepth
  simp only at hdepth
  omega

theorem count_close_eq (h : Reads g level text e) : text.count ')' = text.count '(' := by
  have hdepth := congrArg Cursor.depth h.run_eq
  rw [Cursor.depth_run] at hdepth
  simp only at hdepth
  omega

/-- A closing parenthesis stands after an operand only, and none has ended at an opening one. -/
theorem no_empty_pair {s t : List Char} : ¬Reads g level (s ++ '(' :: ')' :: t) e := by
  intro h
  rw [List.append_cons] at h
  have hclosing := ((h.passes 0).tidy_at.closing rfl).2
  rw [Cursor.run_append] at hclosing
  exact absurd hclosing (by simp)

theorem no_last_operator {s : List Char} {op : BinaryOp} :
    ¬Reads g level (s ++ [op.symbol]) e := by
  intro h
  have hended := congrArg Cursor.ended h.run_eq
  rw [Cursor.run_append, Cursor.run_cons, Cursor.step_symbol] at hended
  exact absurd hended (by simp)

theorem first_is_sign {op : BinaryOp} {rest : List Char}
    (h : startsWithOperator (op.symbol :: rest) = false) :
    (op = .add ∨ op = .sub) ∧ ∃ c rest', rest = c :: rest' ∧
      (c.isDigit = true ∨ c = '.' ∨ c = 'N' ∨ c = 'I') := by
  have hop : isOperator op.symbol = true := by rw [isOperator, BinaryOp.ofChar?_symbol]; rfl
  simp only [startsWithOperator, hop, Bool.true_and, Bool.not_eq_false'] at h
  rw [Bool.and_eq_true] at h
  refine ⟨?_, ?_⟩
  · cases op <;> revert h <;> simp [BinaryOp.symbol]
  · cases rest with
    | nil => exact absurd h.2 (by simp)
    | cons c rest' =>
      refine ⟨c, rest', rfl, ?_⟩
      simpa [followsSign, or_assoc] using h.2

theorem wellShaped (h : Reads g level text e) : WellShaped text where
  ne_nil := h.ne_nil
  known := h.known
  count_close_le := by
    rintro s t rfl
    exact h.count_close_le
  count_close_eq := h.count_close_eq
  no_empty_pair := by
    rintro s t rfl
    exact no_empty_pair h
  no_last_operator := by
    rintro s op rfl
    exact no_last_operator h
  first_is_sign := by
    rintro op rest rfl
    exact first_is_sign h.not_startsWithOperator

end Reads

end Grammar

/-! ## The tests of the diagnosis -/

namespace Diagnosis

theorem firstUnknown?_eq_none {text : List Char} (h : ∀ c ∈ text, isKnown c = true)
    (offset : Nat) : firstUnknown? offset text = none := by
  induction text generalizing offset with
  | nil => rfl
  | cons c text ih =>
    rw [firstUnknown?, if_pos (h c List.mem_cons_self)]
    exact ih (fun c hc ↦ h c (List.mem_cons_of_mem _ hc)) _

theorem firstEmptyPair?_eq_none {text : List Char} (h : ∀ s t, text ≠ s ++ '(' :: ')' :: t)
    (offset : Nat) : firstEmptyPair? offset text = none := by
  induction text generalizing offset with
  | nil => rfl
  | cons c text ih =>
    rw [firstEmptyPair?.eq_def]
    split
    · rfl
    · next rest heq => exact absurd heq (h [] rest)
    · next c' cs _ heq =>
      obtain ⟨rfl, rfl⟩ := List.cons.inj heq
      exact ih (fun s t hst ↦ h (c :: s) t (by rw [hst]; rfl)) _

theorem endsInOperator_eq_false {text : List Char}
    (h : ∀ (s : List Char) (op : BinaryOp), text ≠ s ++ [op.symbol]) :
    endsInOperator text = false := by
  rw [endsInOperator]
  split
  · next c hc =>
    by_contra hop
    rw [Bool.not_eq_false, isOperator] at hop
    obtain ⟨op, hop⟩ := Option.isSome_iff_exists.mp hop
    refine h text.dropLast op ?_
    rw [← BinaryOp.eq_symbol_of_ofChar? hop, List.dropLast_append_getLast? c hc]
  · rfl

theorem startsWithOperator_eq_false {text : List Char}
    (h : ∀ (op : BinaryOp) (rest : List Char), text = op.symbol :: rest →
      (op = .add ∨ op = .sub) ∧ ∃ c rest', rest = c :: rest' ∧
        (c.isDigit = true ∨ c = '.' ∨ c = 'N' ∨ c = 'I')) :
    startsWithOperator text = false := by
  cases text with
  | nil => rfl
  | cons c rest =>
    cases hop : BinaryOp.ofChar? c with
    | none => simp [startsWithOperator, isOperator, hop]
    | some op =>
      obtain rfl := BinaryOp.eq_symbol_of_ofChar? hop
      obtain ⟨hsign, d, rest', rfl, hd⟩ := h op rest rfl
      have hfollows : followsSign d = true := by simpa [followsSign, or_assoc] using hd
      rcases hsign with rfl | rfl <;> simp [startsWithOperator, hfollows, BinaryOp.symbol]

/-- The diagnosis when no structural test applies. -/
def ofShaped (text : List Char) (limit? : Option Nat) : Diagnosis :=
  match limit? with
  | some limit => ⟨.tooDeep limit, 0, Text.byteLength text⟩
  | none => ⟨.unreadable, 0, Text.byteLength text⟩

end Diagnosis

theorem WellShaped.balanced {text : List Char} (h : WellShaped text) : Matching.Balanced text where
  never_overcloses := by
    rintro s ⟨t, hst⟩
    exact Nat.not_lt.mpr (h.count_close_le s t hst.symm)
  count_eq := h.count_close_eq.symm

theorem WellShaped.ofText_eq {text : List Char} (h : WellShaped text) (limit? : Option Nat) :
    Diagnosis.ofText text limit? = Diagnosis.ofShaped text limit? := by
  rw [Diagnosis.ofText, if_neg h.ne_nil, Diagnosis.firstUnknown?_eq_none h.known,
    Matching.pairUp_eq_nil h.balanced]
  simp only [Diagnosis.ofPaired, Diagnosis.firstEmptyPair?_eq_none h.no_empty_pair,
    Diagnosis.endsInOperator_eq_false h.no_last_operator,
    Diagnosis.startsWithOperator_eq_false h.first_is_sign]
  cases limit? <;> rfl

/-- **Accepted texts pass every structural test**, with either grammar and any limit. -/
theorem wellShaped_of_parse {o : ReadOptions} {input : List Char} {e : Expr}
    (h : parse o input = .ok e) :
    WellShaped (Grammar.dropSpaces input) ∧
      ∀ limit?, Diagnosis.ofText (Grammar.dropSpaces input) limit? =
        Diagnosis.ofShaped (Grammar.dropSpaces input) limit? := by
  have hshape := (reads_of_parse h).wellShaped
  exact ⟨hshape, hshape.ofText_eq⟩

/-- A legacy product of parentheses and a signed number, with spaces in it. -/
theorem wellShaped_of_parse_signed_product :
    ∃ e, parse ⟨.legacy, none⟩ ['(', 'x', ' ', ')', '*', ' ', '-', '2'] = .ok e ∧
      WellShaped ['(', 'x', ')', '*', '-', '2'] ∧
        Diagnosis.ofText ['(', 'x', ')', '*', '-', '2'] none = ⟨.unreadable, 0, 6⟩ := by
  have hx : Grammar.Reads .legacy (.chain .sum) ['(', 'x', ')'] (.paren .var) :=
    .of_primary (.paren (.of_primary .var))
  have htwo : Grammar.Reads .legacy (.chain .sum) ['-', '2'] (.literal _) :=
    .of_primary (.literal (v := Literal.value ⟨true, .decimal ['2'] [] 0⟩) rfl)
  have hproduct := Grammar.Reads.split (c := .product) (List.mem_cons_self : BinaryOp.mul ∈ _)
    hx htwo
  obtain ⟨e, he⟩ : ∃ e, parse ⟨.legacy, none⟩ ['(', 'x', ' ', ')', '*', ' ', '-', '2'] = .ok e :=
    exists_parse_of_reads rfl (.fall hproduct)
  obtain ⟨hshape, htests⟩ := wellShaped_of_parse he
  exact ⟨e, he, hshape, htests none⟩

end CurveCalc
