import CurveCalc.Proofs.DepthLimit

/-!
# How deep a search goes

A search enters levels, and levels enter levels. `Enters o a b` says that the search at the entry
`a` goes on to the entry `b`: to the left side of a cut if all cuts before it failed, to the right
side if the left one is read as well, to the level below if all cuts failed, and so on. It is what
the reader does, no more and no less: a reading is cut off by the limit if and only if some entry of
its search is deeper than the limit permits (`limited_iff_exists_entry`).

What an entry can still reach is measured by `Entry.reach`, three levels for each character and the
height of the level. No step of the search makes the depth and the reach together larger
(`Enters.depth_add_reach_le`), so no search goes deeper than three times the length of the text and
four, and a limit that is not below that is no limit.
-/

namespace CurveCalc

namespace Grammar

open Relation (ReflTransGen)

/-! ## Entries -/

/-- A level that a search enters, how deep it is there, and the text that it is to read. -/
structure Entry where
  level : Level
  depth : Nat
  text : List Char

namespace Entry

/-- What comes of an entry. -/
def reading (o : ReadOptions) (a : Entry) : Reading := readAt o a.level a.depth a.text

/-- How many levels deeper a search can get from an entry. -/
def reach (a : Entry) : Nat := 3 * a.text.length + a.level.height

end Entry

/-- The left side of a cut that a chain tries. -/
def leftEntry (o : ReadOptions) (c : Chain) (depth : Nat) (s : Split) : Entry :=
  ⟨(o.grammar.operandLevels c).1, depth + 1, s.left⟩

/-- The right side of a cut that a chain tries. -/
def rightEntry (o : ReadOptions) (c : Chain) (depth : Nat) (s : Split) : Entry :=
  ⟨(o.grammar.operandLevels c).2, depth + 1, s.right⟩

/-- What comes of a cut. -/
def cutReading (o : ReadOptions) (c : Chain) (depth : Nat) (s : Split) : Reading :=
  Reading.ofSplit s ((leftEntry o c depth s).reading o) fun _ ↦ (rightEntry o c depth s).reading o

/-- A cut is tried once all cuts before it have failed. -/
def TriesCut (o : ReadOptions) (c : Chain) (depth : Nat) (text : List Char) (s : Split) : Prop :=
  ∃ before after, splits c.operators text = before ++ s :: after ∧
    ∀ s' ∈ before, (cutReading o c depth s').tree? = none

/-- One step of a search: the first entry is open, and the search goes on from it to the second. -/
inductive Enters (o : ReadOptions) : Entry → Entry → Prop
  | left {c : Chain} {depth : Nat} {text : List Char} {s : Split} (hopen : o.permits depth = true)
    (hcut : TriesCut o c depth text s) : Enters o ⟨.chain c, depth, text⟩ (leftEntry o c depth s)
  | right {c : Chain} {depth : Nat} {text : List Char} {s : Split} (hopen : o.permits depth = true)
    (hcut : TriesCut o c depth text s) (hleft : ((leftEntry o c depth s).reading o).tree? ≠ none) :
    Enters o ⟨.chain c, depth, text⟩ (rightEntry o c depth s)
  | below {c : Chain} {depth : Nat} {text : List Char} (hopen : o.permits depth = true)
    (hcuts : ∀ s ∈ splits c.operators text, (cutReading o c depth s).tree? = none) :
    Enters o ⟨.chain c, depth, text⟩ ⟨c.below, depth + 1, text⟩
  | primary {depth : Nat} {text : List Char} (hopen : o.permits depth = true) :
    Enters o ⟨.base, depth, text⟩ ⟨.primary, depth + 1, text⟩
  | argument {depth : Nat} {text arg : List Char} (hopen : o.permits depth = true)
    (hprimary : (readAt o .primary (depth + 1) text).tree? = none)
    (harg : afterLog? text = some arg) :
    Enters o ⟨.base, depth, text⟩ ⟨.primary, depth + 1, arg⟩
  | inner {depth : Nat} {text inner : List Char} (hopen : o.permits depth = true)
    (hinner : inside? text = some inner) :
    Enters o ⟨.primary, depth, text⟩ ⟨.chain .sum, depth + 1, inner⟩

variable {o : ReadOptions} {a b : Entry} {text : List Char}

/-! ## What one step does -/

theorem TriesCut.mem {c : Chain} {depth : Nat} {s : Split} (h : TriesCut o c depth text s) :
    s ∈ splits c.operators text := by
  obtain ⟨before, after, hsplits, -⟩ := h
  rw [hsplits]
  exact List.mem_append_right _ List.mem_cons_self

/-- A side of a cut may be read at a higher level than the chain, but by less than the three levels
that the operator between the sides makes room for. -/
private theorem height_operand_le (g : Grammar) (c : Chain) :
    (g.operandLevels c).1.height ≤ (Level.chain c).height + 2 ∧
      (g.operandLevels c).2.height ≤ (Level.chain c).height + 2 := by
  cases g <;> cases c <;> decide

/-- **One step goes one level deeper and does not extend the reach beyond that.** -/
theorem Enters.depth_add_reach_le (h : Enters o a b) :
    b.depth = a.depth + 1 ∧ b.depth + b.reach ≤ a.depth + a.reach := by
  cases h with
  | @left c depth text s _ hcut =>
    have hlength := length_left_lt hcut.mem
    have hheight := (height_operand_le o.grammar c).1
    refine ⟨rfl, ?_⟩
    simp only [leftEntry, Entry.reach]
    omega
  | @right c depth text s _ hcut _ =>
    have hlength := length_right_lt hcut.mem
    have hheight := (height_operand_le o.grammar c).2
    refine ⟨rfl, ?_⟩
    simp only [rightEntry, Entry.reach]
    omega
  | @below c depth text _ _ =>
    have hheight := c.height_below
    refine ⟨rfl, ?_⟩
    simp only [Entry.reach]
    omega
  | primary =>
    refine ⟨rfl, ?_⟩
    simp only [Entry.reach, Level.height]
    omega
  | argument _ _ harg =>
    have hlength := length_lt_of_afterLog? harg
    refine ⟨rfl, ?_⟩
    simp only [Entry.reach, Level.height]
    omega
  | @inner depth text inner _ hinner =>
    -- two parentheses make room for the four levels up to the sum and the step itself
    have hlength : text.length = inner.length + 2 := by
      rw [text_eq_of_inside? hinner]
      simp
    refine ⟨rfl, ?_⟩
    simp only [Entry.reach, Level.height]
    omega

/-- A search does not go on for ever: there is no infinite row of entries, each entered from the one
before it. -/
theorem wellFounded_enters (o : ReadOptions) : WellFounded fun b a ↦ Enters o a b := by
  refine Subrelation.wf (fun {b a} h ↦ ?_) (measure Entry.reach).wf
  have hstep := h.depth_add_reach_le
  show b.reach < a.reach
  omega

/-- A whole search gets no deeper than its first entry can reach. -/
theorem depth_add_reach_le_of_enters (h : ReflTransGen (Enters o) a b) :
    b.depth + b.reach ≤ a.depth + a.reach := by
  induction h with
  | refl => exact Nat.le_refl _
  | tail _ hstep ih => exact Nat.le_trans hstep.depth_add_reach_le.2 ih

/-! ## The entries of a search and the limit -/

namespace Reading

theorem limited_orElse {r : Reading} {next : Unit → Reading} :
    (r.orElse next).limited = true ↔
      r.limited = true ∨ r.tree? = none ∧ (next ()).limited = true := by
  rw [orElse]
  cases r.tree? with
  | some e => simp
  | none => simp [Bool.or_eq_true]

theorem limited_ofSplit {s : Split} {left : Reading} {right : Unit → Reading} :
    (ofSplit s left right).limited = true ↔
      left.limited = true ∨ left.tree? ≠ none ∧ (right ()).limited = true := by
  rw [ofSplit]
  cases left.tree? with
  | some e => simp [Bool.or_eq_true]
  | none => simp

theorem limited_first {α : Type} {f : α → Reading} {as : List α} :
    (first f as).limited = true ↔
      ∃ before x after, as = before ++ x :: after ∧ (∀ y ∈ before, (f y).tree? = none) ∧
        (f x).limited = true := by
  induction as with
  | nil => simp [first, ofOption]
  | cons x as ih =>
    rw [first, limited_orElse, ih]
    constructor
    · rintro (hx | ⟨hx, before, y, after, rfl, hbefore, hy⟩)
      · exact ⟨[], x, as, rfl, by simp, hx⟩
      · exact ⟨x :: before, y, after, rfl, List.forall_mem_cons.mpr ⟨hx, hbefore⟩, hy⟩
    · rintro ⟨before, y, after, has, hbefore, hy⟩
      cases before with
      | nil =>
        obtain ⟨rfl, -⟩ := List.cons.inj has
        exact Or.inl hy
      | cons z before =>
        obtain ⟨rfl, rfl⟩ := List.cons.inj has
        obtain ⟨hz, hbefore⟩ := List.forall_mem_cons.mp hbefore
        exact Or.inr ⟨hz, before, y, after, rfl, hbefore, hy⟩

end Reading

theorem limited_cutReading {c : Chain} {depth : Nat} {s : Split} :
    (cutReading o c depth s).limited = true ↔
      ((leftEntry o c depth s).reading o).limited = true ∨
        ((leftEntry o c depth s).reading o).tree? ≠ none ∧
          ((rightEntry o c depth s).reading o).limited = true :=
  Reading.limited_ofSplit

theorem reading_chain {c : Chain} {depth : Nat} (hopen : o.permits depth = true) :
    (⟨.chain c, depth, text⟩ : Entry).reading o =
      (Reading.first (cutReading o c depth) (splits c.operators text)).orElse fun _ ↦
        (⟨c.below, depth + 1, text⟩ : Entry).reading o :=
  readAt_chain hopen c text

/-- The cuts of a chain are cut off if and only if one of those that are tried is. -/
theorem limited_first_cutReading {c : Chain} {depth : Nat} :
    (Reading.first (cutReading o c depth) (splits c.operators text)).limited = true ↔
      ∃ s, TriesCut o c depth text s ∧ (cutReading o c depth s).limited = true := by
  rw [Reading.limited_first]
  constructor
  · rintro ⟨before, s, after, hsplits, hbefore, hs⟩
    exact ⟨s, ⟨before, after, hsplits, hbefore⟩, hs⟩
  · rintro ⟨s, ⟨before, after, hsplits, hbefore⟩, hs⟩
    exact ⟨before, s, after, hsplits, hbefore, hs⟩

/-- An open entry is cut off if and only if one that it goes on to is. -/
theorem limited_iff_exists_enters (hopen : o.permits a.depth = true) :
    (a.reading o).limited = true ↔ ∃ b, Enters o a b ∧ (b.reading o).limited = true := by
  obtain ⟨level, depth, text⟩ := a
  cases level with
  | chain c =>
    rw [reading_chain hopen, Reading.limited_orElse, limited_first_cutReading, Reading.tree?_first,
      List.findSome?_eq_none_iff]
    constructor
    · rintro (⟨s, hcut, hs⟩ | ⟨hcuts, hbelow⟩)
      · rcases limited_cutReading.mp hs with hleft | ⟨hleft, hright⟩
        · exact ⟨_, .left hopen hcut, hleft⟩
        · exact ⟨_, .right hopen hcut hleft, hright⟩
      · exact ⟨_, .below hopen hcuts, hbelow⟩
    · rintro ⟨b, henters, hb⟩
      cases henters with
      | left _ hcut => exact Or.inl ⟨_, hcut, limited_cutReading.mpr (Or.inl hb)⟩
      | right _ hcut hleft => exact Or.inl ⟨_, hcut, limited_cutReading.mpr (Or.inr ⟨hleft, hb⟩)⟩
      | below _ hcuts => exact Or.inr ⟨hcuts, hb⟩
  | base =>
    rw [Entry.reading, readAt_base hopen, Reading.limited_orElse]
    constructor
    · rintro (hprimary | ⟨hprimary, harg⟩)
      · exact ⟨_, .primary hopen, hprimary⟩
      · split at harg
        · next arg heq => exact ⟨_, .argument hopen hprimary heq, harg⟩
        · exact absurd harg (by simp [Reading.ofOption])
    · rintro ⟨b, henters, hb⟩
      cases henters with
      | primary => exact Or.inl hb
      | argument _ hprimary harg =>
        rw [harg]
        exact Or.inr ⟨hprimary, hb⟩
  | primary =>
    rw [Entry.reading, readAt_primary hopen]
    constructor
    · intro h
      split at h
      · next inner hinner => exact ⟨_, .inner hopen hinner, h⟩
      · exact absurd h (by simp [Reading.ofOption])
    · rintro ⟨b, henters, hb⟩
      cases henters with
      | inner _ hinner =>
        rw [hinner]
        exact hb

theorem limited_of_not_permits (hclosed : o.permits a.depth = false) :
    (a.reading o).limited = true := by
  rw [Entry.reading, readAt_of_not_permits hclosed]
  rfl

/-- **A reading is cut off if and only if its search meets an entry that the limit closes.** -/
theorem limited_iff_exists_entry :
    (a.reading o).limited = true ↔
      ∃ b, ReflTransGen (Enters o) a b ∧ o.permits b.depth = false := by
  constructor
  · intro h
    induction a using (wellFounded_enters o).induction with
    | h a ih =>
      cases hopen : o.permits a.depth with
      | false => exact ⟨a, .refl, hopen⟩
      | true =>
        obtain ⟨b, henters, hb⟩ := (limited_iff_exists_enters hopen).mp h
        obtain ⟨c, hsearch, hc⟩ := ih b henters hb
        exact ⟨c, .head henters hsearch, hc⟩
  · rintro ⟨b, hsearch, hb⟩
    induction hsearch using ReflTransGen.head_induction_on with
    | refl => exact limited_of_not_permits hb
    | @head a c henters _ ih =>
      cases hopen : o.permits a.depth with
      | false => exact limited_of_not_permits hopen
      | true => exact (limited_iff_exists_enters hopen).mpr ⟨c, henters, ih⟩

/-! ## Whole texts -/

/-- The entries of the search for a whole text: those from the sum level on, and where that fails,
those from the primary level on. -/
def Entered (o : ReadOptions) (text : List Char) (b : Entry) : Prop :=
  ReflTransGen (Enters o) ⟨.chain .sum, 0, text⟩ b ∨
    (readAt o (.chain .sum) 0 text).tree? = none ∧ ReflTransGen (Enters o) ⟨.primary, 0, text⟩ b

theorem Entered.depth_le (h : Entered o text b) : b.depth ≤ 3 * text.length + 4 := by
  rcases h with hsum | ⟨-, hprimary⟩
  · have hreach := depth_add_reach_le_of_enters hsum
    simp only [Entry.reach, Level.height] at hreach
    omega
  · have hreach := depth_add_reach_le_of_enters hprimary
    simp only [Entry.reach, Level.height] at hreach
    omega

theorem limited_readWhole_iff :
    (readWhole o text).limited = true ↔ ∃ b, Entered o text b ∧ o.permits b.depth = false := by
  rw [readWhole, Reading.limited_orElse]
  have hsum := limited_iff_exists_entry (o := o) (a := ⟨.chain .sum, 0, text⟩)
  have hprimary := limited_iff_exists_entry (o := o) (a := ⟨.primary, 0, text⟩)
  rw [Entry.reading] at hsum hprimary
  rw [hsum, hprimary]
  constructor
  · rintro (⟨b, hsearch, hb⟩ | ⟨hnone, b, hsearch, hb⟩)
    · exact ⟨b, Or.inl hsearch, hb⟩
    · exact ⟨b, Or.inr ⟨hnone, hsearch⟩, hb⟩
  · rintro ⟨b, hsearch | ⟨hnone, hsearch⟩, hb⟩
    · exact Or.inl ⟨b, hsearch, hb⟩
    · exact Or.inr ⟨hnone, b, hsearch, hb⟩

theorem not_limited_of_le {g : Grammar} {d : Nat} (hd : 3 * text.length + 4 ≤ d) :
    (readWhole ⟨g, some d⟩ text).limited = false := by
  rw [Bool.eq_false_iff]
  intro hlimited
  obtain ⟨b, hentered, hclosed⟩ := limited_readWhole_iff.mp hlimited
  have hdepth := Nat.le_trans hentered.depth_le hd
  rw [ReadOptions.permits, decide_eq_false_iff_not] at hclosed
  exact hclosed hdepth

end Grammar

open Grammar

/-- **The depth of a search is bounded by the length of the text.** No level is entered deeper than
three times the number of bytes and four, whatever the grammar and the limit, and the entering comes
to an end. So a limit from there on changes nothing, neither the tree nor the error. -/
theorem entered_depth_le_and_parse_eq (g : Grammar) (input : List Char) :
    (∀ limit? b, Entered ⟨g, limit?⟩ (dropSpaces input) b →
        b.depth ≤ 3 * Text.byteLength (dropSpaces input) + 4) ∧
      (∀ limit?, WellFounded fun b a ↦ Enters ⟨g, limit?⟩ a b) ∧
      ∀ d, 3 * Text.byteLength (dropSpaces input) + 4 ≤ d →
        parse ⟨g, some d⟩ input = parse ⟨g, none⟩ input := by
  have hbytes := Text.length_le_byteLength (dropSpaces input)
  refine ⟨fun limit? b hentered ↦ ?_, fun limit? ↦ wellFounded_enters _, fun d hd ↦ ?_⟩
  · have hdepth := hentered.depth_le
    omega
  · have hlimited : (readWhole ⟨g, some d⟩ (dropSpaces input)).limited = false :=
      not_limited_of_le (by omega)
    have hsame := readWhole_eq_of_not_limited (loosens_unlimited g (some d)) hlimited
    rw [parse, parse, hsame]
    cases htree : (readWhole ⟨g, some d⟩ (dropSpaces input)).tree? with
    | some e => simp [Reading.result, htree]
    | none => simp [Reading.result, htree, hlimited]

/-- The bound is reached: at the depth `7` the legacy grammar looks for a primary to the left of the
operator of `^`. -/
theorem entered_depth_le_and_parse_eq_power :
    ∃ b, Entered ⟨.legacy, none⟩ (dropSpaces ['^']) b ∧ b.depth = 7 ∧
      b.depth ≤ 3 * Text.byteLength (dropSpaces ['^']) + 4 ∧
      3 * Text.byteLength (dropSpaces ['^']) + 4 ≤ 7 ∧
      parse ⟨.legacy, some 7⟩ ['^'] = parse ⟨.legacy, none⟩ ['^'] := by
  have hfall : ∀ (c : Chain) (depth : Nat) (text : List Char), splits c.operators text = [] →
      Enters ⟨.legacy, none⟩ ⟨.chain c, depth, text⟩ ⟨c.below, depth + 1, text⟩ := by
    intro c depth text hsplits
    refine .below rfl fun s hs ↦ ?_
    rw [hsplits] at hs
    exact absurd hs (by simp)
  have hleft : Enters ⟨.legacy, none⟩ ⟨.chain .power, 2, ['^']⟩ ⟨.chain .sum, 3, []⟩ :=
    .left (s := ⟨[], .pow, []⟩) rfl ⟨[], [], rfl, by simp⟩
  have hentered : Entered ⟨.legacy, none⟩ (dropSpaces ['^']) ⟨.primary, 7, []⟩ := by
    refine Or.inl ?_
    refine .head (hfall .sum 0 _ rfl) <| .head (hfall .product 1 _ rfl) <| .head hleft ?_
    refine .head (hfall .sum 3 _ rfl) <| .head (hfall .product 4 _ rfl) ?_
    exact .head (hfall .power 5 _ rfl) <| .single (.primary rfl)
  obtain ⟨hdepth, -, hsame⟩ := entered_depth_le_and_parse_eq .legacy ['^']
  exact ⟨_, hentered, rfl, hdepth none _ hentered, by decide, hsame 7 (by decide)⟩

end CurveCalc
