import CurveCalc.Proofs.LooseOperators

/-!
# Matching parentheses

The diagnosis pairs up parentheses with a stack: `Diagnosis.pairUp` keeps the places of those that
are open and takes one off at each closing parenthesis. What the stack holds can be said without it.
A text is balanced if no prefix of it closes more than it opens, and the whole closes as many; two
parentheses match if the text between them is balanced; and the stack holds the places of the
opening parentheses that no closing one matches (`Leaves`).

So pairing fails at a closing parenthesis behind a balanced text, which is where a prefix closes too
many for the first time (`pairUp_eq_error`). Otherwise the last unmatched parenthesis is on top of
the stack, and the text behind it is balanced (`exists_pairUp_eq_cons`).
-/

namespace CurveCalc

namespace Matching

open Text (byteLength)

/-! ## Counting -/

/-- More parentheses are closed than opened. -/
def Overclosed (text : List Char) : Prop := text.count '(' < text.count ')'

/-- No prefix closes more parentheses than it opens. -/
def NeverOvercloses (text : List Char) : Prop := ∀ s, s <+: text → ¬Overclosed s

/-- Parentheses pair up. -/
structure Balanced (text : List Char) : Prop where
  never_overcloses : NeverOvercloses text
  count_eq : text.count '(' = text.count ')'

/-- The place of an opening parenthesis that no closing one matches. -/
def Unmatched (text : List Char) (i : ℕ) : Prop :=
  ∃ before after, text = before ++ '(' :: after ∧ before.length = i ∧
    ∀ inner rest, after = inner ++ ')' :: rest → ¬Balanced inner

variable {s t text before after inner : List Char}

theorem NeverOvercloses.of_prefix (h : NeverOvercloses text) (hs : s <+: text) :
    NeverOvercloses s :=
  fun _ hp ↦ h _ (hp.trans hs)

theorem NeverOvercloses.count_le (h : NeverOvercloses text) : text.count ')' ≤ text.count '(' :=
  Nat.not_lt.mp (h text (List.prefix_refl text))

theorem NeverOvercloses.append (hs : NeverOvercloses s)
    (h : ∀ p, p <+: t → (s ++ p).count ')' ≤ (s ++ p).count '(') : NeverOvercloses (s ++ t) := by
  rintro p ⟨q, hq⟩
  rcases List.append_eq_append_iff.mp hq with ⟨mid, hmid, -⟩ | ⟨mid, rfl, rfl⟩
  · exact hs p ⟨mid, hmid.symm⟩
  · exact Nat.not_lt.mpr (h mid ⟨q, rfl⟩)

theorem NeverOvercloses.append_balanced (hs : NeverOvercloses s) (ht : Balanced t) :
    NeverOvercloses (s ++ t) := by
  refine hs.append fun p hp ↦ ?_
  have hcount := hs.count_le
  have hcount' := (ht.never_overcloses.of_prefix hp).count_le
  rw [List.count_append, List.count_append]
  omega

theorem NeverOvercloses.append_open (hs : NeverOvercloses s) (ht : NeverOvercloses t) :
    NeverOvercloses (s ++ '(' :: t) := by
  refine hs.append fun p hp ↦ ?_
  have hcount := hs.count_le
  rcases List.prefix_cons_iff.mp hp with rfl | ⟨q, rfl, hq⟩
  · simpa using hcount
  · have hcount' := (ht.of_prefix hq).count_le
    simp
    omega

theorem balanced_nil : Balanced [] where
  never_overcloses := by
    intro s hs
    rw [List.prefix_nil.mp hs]
    simp [Overclosed]
  count_eq := rfl

theorem Balanced.append (hs : Balanced s) (ht : Balanced t) : Balanced (s ++ t) where
  never_overcloses := hs.never_overcloses.append_balanced ht
  count_eq := by rw [List.count_append, List.count_append, hs.count_eq, ht.count_eq]

theorem balanced_singleton {c : Char} (hopen : c ≠ '(') (hclose : c ≠ ')') : Balanced [c] where
  never_overcloses := by
    refine balanced_nil.never_overcloses.append fun p hp ↦ ?_
    rcases List.prefix_cons_iff.mp hp with rfl | ⟨q, rfl, hq⟩
    · simp
    · simp [List.prefix_nil.mp hq, hclose]
  count_eq := by simp [hopen, hclose]

theorem Balanced.enclosed (h : Balanced t) : Balanced ('(' :: t ++ [')']) where
  never_overcloses := by
    have hopened := balanced_nil.never_overcloses.append_open h.never_overcloses
    refine hopened.append fun p hp ↦ ?_
    have hcount := h.count_eq
    rcases List.prefix_cons_iff.mp hp with rfl | ⟨q, rfl, hq⟩
    · simp
      omega
    · simp [List.prefix_nil.mp hq]
      omega
  count_eq := by
    have hcount := h.count_eq
    simp
    omega

theorem Balanced.overclosed (h : Balanced s) : Overclosed (s ++ [')']) := by
  have hcount := h.count_eq
  simp [Overclosed]
  omega

/-- What stands before the end of the shortest prefix that closes too much is balanced. -/
theorem balanced_of_shortest (hover : Overclosed (s ++ [')']))
    (hshortest : ∀ p, p <+: s ++ ')' :: t → Overclosed p → s.length < p.length) : Balanced s where
  never_overcloses := by
    intro p hp hclosed
    have hlength := hshortest p (hp.trans (List.prefix_append s _)) hclosed
    exact absurd hp.length_le (Nat.not_le.mpr hlength)
  count_eq := by
    have hself := mt (hshortest s (List.prefix_append s _)) (Nat.lt_irrefl _)
    simp [Overclosed] at hover hself
    omega

/-- An opening parenthesis that is left open, before text that never closes more than it opens, does
not stand in a balanced text. -/
theorem Balanced.not_neverOvercloses (h : Balanced (s ++ '(' :: t)) : ¬NeverOvercloses t := by
  intro ht
  have hcount := h.count_eq
  have hs := (h.never_overcloses.of_prefix (List.prefix_append s _)).count_le
  have ht := ht.count_le
  simp at hcount
  omega

/-! ## The stack -/

/-- The opening parentheses of a text that stay open, last one first, with balanced text behind each
and before the first. Places are byte offsets. -/
inductive Leaves : List Char → List ℕ → Prop
  | balanced {s : List Char} (h : Balanced s) : Leaves s []
  | opened {s t : List Char} {rest : List ℕ} (hs : Leaves s rest) (ht : Balanced t) :
    Leaves (s ++ '(' :: t) (byteLength s :: rest)

namespace Leaves

variable {opened : List ℕ} {i : ℕ}

theorem append (h : Leaves s opened) (ht : Balanced t) : Leaves (s ++ t) opened := by
  cases h with
  | balanced h => exact .balanced (h.append ht)
  | opened hs hu =>
    rw [List.append_assoc, List.cons_append]
    exact .opened hs (hu.append ht)

theorem close (h : Leaves s (i :: opened)) : Leaves (s ++ [')']) opened := by
  cases h with
  | opened hs ht =>
    rw [List.append_assoc]
    exact hs.append ht.enclosed

theorem neverOvercloses (h : Leaves s opened) : NeverOvercloses s := by
  induction h with
  | balanced h => exact h.never_overcloses
  | opened _ ht ih => exact ih.append_open ht.never_overcloses

theorem exists_last (h : Leaves s (i :: opened)) :
    ∃ before after, s = before ++ '(' :: after ∧ i = byteLength before ∧ Balanced after := by
  cases h with
  | opened _ ht => exact ⟨_, _, rfl, rfl, ht⟩

theorem balanced_of_nil (h : Leaves s []) : Balanced s := by
  cases h with
  | balanced h => exact h

end Leaves

/-- What becomes of pairing up the parentheses of a text: places that stay open, or the place of the
first closing parenthesis that is one too many. -/
inductive Outcome (text : List Char) : Except ℕ (List ℕ) → Prop
  | ok {opened : List ℕ} (h : Leaves text opened) : Outcome text (.ok opened)
  | error {before after : List Char} (htext : text = before ++ ')' :: after)
    (hbefore : Balanced before) : Outcome text (.error (byteLength before))

/-- **Pairing up goes on from what an earlier part of a text leaves.** -/
theorem outcome_pairUp_from {opened : List ℕ} (h : Leaves before opened) (text : List Char) :
    Outcome (before ++ text) (Diagnosis.pairUp (byteLength before) opened text) := by
  -- the part that is done grows by one character in each step
  induction text generalizing before opened with
  | nil =>
    rw [List.append_nil]
    exact .ok h
  | cons c text ih =>
    have hlength : byteLength before + c.utf8Size = byteLength (before ++ [c]) := by simp
    unfold Diagnosis.pairUp
    rw [List.append_cons, hlength]
    by_cases hopen : c = '('
    · rw [if_pos hopen]
      apply ih
      rw [hopen]
      exact .opened h balanced_nil
    · rw [if_neg hopen]
      by_cases hclose : c = ')'
      · rw [if_pos hclose, hclose]
        cases opened with
        | nil =>
          cases h with
          | balanced h =>
            rw [← List.append_cons]
            exact .error rfl h
        | cons i opened =>
          apply ih
          exact h.close
      · rw [if_neg hclose]
        apply ih
        exact h.append (balanced_singleton hopen hclose)

theorem outcome_pairUp (text : List Char) : Outcome text (Diagnosis.pairUp 0 [] text) :=
  outcome_pairUp_from (.balanced balanced_nil) text

/-! ## Unmatched parentheses -/

/-- **A text closes too much where a balanced part of it is followed by a closing parenthesis.** -/
theorem neverOvercloses_iff :
    NeverOvercloses text ↔ ∀ inner rest, text = inner ++ ')' :: rest → ¬Balanced inner := by
  constructor
  · rintro h inner rest rfl hinner
    exact h (inner ++ [')']) ⟨rest, by simp⟩ hinner.overclosed
  · intro h
    have houtcome := outcome_pairUp text
    generalize Diagnosis.pairUp 0 [] text = result at houtcome
    cases houtcome with
    | ok hleaves => exact hleaves.neverOvercloses
    | error htext hbefore => exact absurd hbefore (h _ _ htext)

theorem unmatched_iff {i : ℕ} :
    Unmatched text i ↔
      ∃ before after,
        text = before ++ '(' :: after ∧ before.length = i ∧ NeverOvercloses after := by
  simp only [Unmatched, neverOvercloses_iff]

theorem unmatched_length (h : NeverOvercloses after) :
    Unmatched (before ++ '(' :: after) before.length :=
  unmatched_iff.mpr ⟨before, after, rfl, rfl, h⟩

theorem Unmatched.le_length {j : ℕ} (h : Unmatched (before ++ '(' :: after) j)
    (hafter : Balanced after) : j ≤ before.length := by
  obtain ⟨before', after', htext, rfl, hnever⟩ := unmatched_iff.mp h
  rcases Text.cut_cases htext with ⟨rfl, -, -⟩ | ⟨mid, -, rfl⟩ | ⟨mid, rfl, -⟩
  · exact Nat.le_refl _
  · exact absurd hnever hafter.not_neverOvercloses
  · simp

/-- **One more closing parenthesis matches the last unmatched one** and no other. -/
theorem unmatched_close_iff {j : ℕ} (hafter : Balanced after) :
    Unmatched (before ++ '(' :: after ++ [')']) j ↔
      Unmatched (before ++ '(' :: after) j ∧ j ≠ before.length := by
  constructor
  · intro h
    rw [List.append_assoc, List.cons_append] at h
    obtain ⟨before', after', htext, rfl, hnever⟩ := unmatched_iff.mp h
    rcases Text.cut_cases htext with ⟨-, -, rfl⟩ | ⟨mid, -, hmid⟩ | ⟨mid, rfl, rfl⟩
    · exact absurd hafter.overclosed (hnever _ (List.prefix_refl _))
    · -- a parenthesis behind the last unmatched one is matched without the new one
      rcases List.eq_nil_or_concat after' with rfl | ⟨after', c, rfl⟩
      · exact absurd (congrArg List.getLast? hmid) (by simp)
      · rw [List.concat_eq_append] at hmid hnever
        rw [← List.cons_append, ← List.append_assoc] at hmid
        obtain ⟨rfl, -⟩ := List.append_inj' hmid rfl
        exact absurd (hnever.of_prefix (List.prefix_append _ _)) hafter.not_neverOvercloses
    · rw [← List.cons_append, ← List.append_assoc] at hnever
      refine ⟨unmatched_iff.mpr ⟨before', mid ++ '(' :: after, by simp, rfl, ?_⟩, by simp⟩
      exact hnever.of_prefix (List.prefix_append _ _)
  · rintro ⟨h, hne⟩
    obtain ⟨before', after', htext, rfl, hnever⟩ := unmatched_iff.mp h
    rcases Text.cut_cases htext with ⟨rfl, -, -⟩ | ⟨mid, -, rfl⟩ | ⟨mid, rfl, rfl⟩
    · exact absurd rfl hne
    · exact absurd hnever hafter.not_neverOvercloses
    · have hmid := hnever.of_prefix (List.prefix_append mid _)
      exact unmatched_iff.mpr ⟨before', mid ++ ('(' :: after ++ [')']), by simp, rfl,
        hmid.append_balanced hafter.enclosed⟩

/-! ## The outcome of pairing -/

theorem pairUp_eq_error (hbefore : Balanced before) (after : List Char) :
    Diagnosis.pairUp 0 [] (before ++ ')' :: after) = .error (byteLength before) := by
  have houtcome := outcome_pairUp (before ++ ')' :: after)
  generalize Diagnosis.pairUp 0 [] (before ++ ')' :: after) = result at houtcome
  have hlonger : ∀ s mid, Balanced s → ¬Balanced (s ++ ')' :: mid) := fun s mid hs h ↦
    h.never_overcloses (s ++ [')']) ⟨mid, by simp⟩ hs.overclosed
  cases houtcome with
  | ok h => exact absurd hbefore (neverOvercloses_iff.mp h.neverOvercloses _ _ rfl)
  | error htext hbefore' =>
    rcases Text.cut_cases htext with ⟨rfl, -, -⟩ | ⟨mid, rfl, -⟩ | ⟨mid, rfl, -⟩
    · rfl
    · exact absurd hbefore' (hlonger _ _ hbefore)
    · exact absurd hbefore (hlonger _ _ hbefore')

theorem pairUp_eq_nil (h : Balanced text) : Diagnosis.pairUp 0 [] text = .ok [] := by
  have houtcome := outcome_pairUp text
  generalize Diagnosis.pairUp 0 [] text = result at houtcome
  cases houtcome with
  | @ok opened hleaves =>
    cases opened with
    | nil => rfl
    | cons i opened =>
      obtain ⟨before, after, rfl, -, hafter⟩ := hleaves.exists_last
      exact absurd hafter.never_overcloses h.not_neverOvercloses
  | error htext hbefore =>
    exact absurd hbefore (neverOvercloses_iff.mp h.never_overcloses _ _ htext)

/-- If no prefix closes too much, the last unmatched parenthesis is on top of the stack, and the
text behind it is balanced. -/
theorem exists_pairUp_eq_cons (hnever : NeverOvercloses (before ++ '(' :: after))
    (hunmatched : Unmatched (before ++ '(' :: after) before.length)
    (hlast : ∀ i, Unmatched (before ++ '(' :: after) i → i ≤ before.length) :
    Balanced after ∧
      ∃ opened, Diagnosis.pairUp 0 [] (before ++ '(' :: after) =
        .ok (byteLength before :: opened) := by
  have houtcome := outcome_pairUp (before ++ '(' :: after)
  generalize Diagnosis.pairUp 0 [] (before ++ '(' :: after) = result at houtcome
  generalize htext : before ++ '(' :: after = text at *
  cases houtcome with
  | @ok opened hleaves =>
    cases opened with
    | nil =>
      obtain ⟨before', after', rfl, -, hafter⟩ := unmatched_iff.mp hunmatched
      exact absurd hafter hleaves.balanced_of_nil.not_neverOvercloses
    | cons i opened =>
      obtain ⟨before', after', rfl, rfl, hafter⟩ := hleaves.exists_last
      have hlength := Nat.le_antisymm (hunmatched.le_length hafter)
        (hlast _ (unmatched_length hafter.never_overcloses))
      obtain ⟨rfl, htail⟩ := List.append_inj htext hlength
      obtain ⟨-, rfl⟩ := List.cons.inj htail
      exact ⟨hafter, opened, rfl⟩
  | error htext' hbefore => exact absurd hbefore (neverOvercloses_iff.mp hnever _ _ htext')

end Matching

end CurveCalc
