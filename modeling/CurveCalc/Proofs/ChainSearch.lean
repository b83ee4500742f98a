import CurveCalc.Proofs.OperatorRows
import CurveCalc.Proofs.SearchDepth

/-!
# The search of a chain

A chain tries its cuts from left to right and takes the first that is read; if none is, it reads
what the level below reads (`tree?_readAt_chain`). So to find out what a level reads it is enough to
know which cuts are not read, and those are known from the loose operators: no cut of a chain above
the root of a tree is read (`Reads.cut_fails`), and none inside a left operand that is below the
chain (`Reads.cut_left_fails`).

Without a limit to the depth, levels that have no cut to read can be passed by
(`readAt_eq_of_cuts_fail`).
-/

namespace CurveCalc

namespace Grammar

variable {o : ReadOptions} {c : Chain} {level : Level} {depth : Nat} {text : List Char} {s : Split}
  {e : Expr}

/-! ## The order of the cuts -/

theorem length_le_of_mem_splitsFrom {ops : List BinaryOp} {before text : List Char} {s : Split}
    (h : s ∈ splitsFrom ops before text) : before.length ≤ s.left.length := by
  induction text generalizing before with
  | nil => exact absurd h (by simp [splitsFrom])
  | cons c text ih =>
    have hrest : s ∈ splitsFrom ops (c :: before) text → before.length ≤ s.left.length :=
      fun h ↦ Nat.le_trans (Nat.le_succ _) (ih h)
    rw [splitsFrom] at h
    split at h
    · split at h
      · rcases List.mem_cons.mp h with rfl | h
        · exact Nat.le_of_eq (List.length_reverse).symm
        · exact hrest h
      · exact hrest h
    · exact hrest h

theorem pairwise_splitsFrom (ops : List BinaryOp) (before text : List Char) :
    (splitsFrom ops before text).Pairwise fun s s' ↦ s.left.length < s'.left.length := by
  induction text generalizing before with
  | nil => exact .nil
  | cons c text ih =>
    rw [splitsFrom]
    split
    · split
      · refine List.pairwise_cons.mpr ⟨fun s hs ↦ ?_, ih _⟩
        have hlength := length_le_of_mem_splitsFrom hs
        rw [List.length_cons] at hlength
        rw [List.length_reverse]
        omega
      · exact ih _
    · exact ih _

theorem TriesCut.fails_of_lt (h : TriesCut o c depth text s) {s' : Split}
    (hs' : s' ∈ splits c.operators text) (hlt : s'.left.length < s.left.length) :
    (cutReading o c depth s').tree? = none := by
  obtain ⟨before, after, hsplits, hbefore⟩ := h
  have hpairwise := pairwise_splitsFrom c.operators [] text
  rw [← splits, hsplits, List.pairwise_append, List.pairwise_cons] at hpairwise
  rw [hsplits] at hs'
  rcases List.mem_append.mp hs' with hs' | hs'
  · exact hbefore s' hs'
  · rcases List.mem_cons.mp hs' with rfl | hs'
    · exact absurd hlt (Nat.lt_irrefl _)
    · have hgt := hpairwise.2.1.1 s' hs'
      omega

theorem triesCut_of_fails (hs : s ∈ splits c.operators text)
    (hfails : ∀ s' ∈ splits c.operators text, s'.left.length < s.left.length →
      (cutReading o c depth s').tree? = none) : TriesCut o c depth text s := by
  obtain ⟨before, after, hsplits⟩ := List.append_of_mem hs
  have hpairwise := pairwise_splitsFrom c.operators [] text
  rw [← splits, hsplits, List.pairwise_append] at hpairwise
  refine ⟨before, after, hsplits, fun s' hs' ↦ hfails s' ?_ ?_⟩
  · rw [hsplits]
    exact List.mem_append_left _ hs'
  · exact hpairwise.2.2 s' hs' s List.mem_cons_self

/-! ## What a chain reads -/

/-- What an open chain reads: the first cut that is read, or else what the level below reads. -/
theorem tree?_readAt_chain (hopen : o.permits depth = true) :
    (readAt o (.chain c) depth text).tree? =
      ((splits c.operators text).findSome? fun s ↦ (cutReading o c depth s).tree?).or
        (readAt o c.below (depth + 1) text).tree? := by
  have hchain : readAt o (.chain c) depth text =
      (Reading.first (cutReading o c depth) (splits c.operators text)).orElse fun _ ↦
        readAt o c.below (depth + 1) text := reading_chain hopen
  rw [hchain, Reading.tree?_orElse, Reading.tree?_first]

/-- **The cut that an open chain takes**, or if there is none, what the level below reads. -/
theorem readAt_chain_eq_some_iff (hopen : o.permits depth = true) :
    (readAt o (.chain c) depth text).tree? = some e ↔
      (∃ s, TriesCut o c depth text s ∧ (cutReading o c depth s).tree? = some e) ∨
        (∀ s ∈ splits c.operators text, (cutReading o c depth s).tree? = none) ∧
          (readAt o c.below (depth + 1) text).tree? = some e := by
  rw [tree?_readAt_chain hopen, Option.or_eq_some_iff, List.findSome?_eq_some_iff,
    List.findSome?_eq_none_iff]
  refine or_congr ?_ Iff.rfl
  constructor
  · rintro ⟨before, s, after, hsplits, hs, hbefore⟩
    exact ⟨s, ⟨before, after, hsplits, hbefore⟩, hs⟩
  · rintro ⟨s, ⟨before, after, hsplits, hbefore⟩, hs⟩
    exact ⟨before, s, after, hsplits, hs, hbefore⟩

theorem readAt_chain_of_cuts_fail (hopen : o.permits depth = true)
    (hfails : ∀ s ∈ splits c.operators text, (cutReading o c depth s).tree? = none) :
    (readAt o (.chain c) depth text).tree? = (readAt o c.below (depth + 1) text).tree? := by
  rw [tree?_readAt_chain hopen, List.findSome?_eq_none_iff.mpr hfails, Option.none_or]

/-! ## Below the chains -/

theorem readAt_primary_parens (hopen : o.permits depth = true) (text : List Char) :
    (readAt o .primary depth ('(' :: text ++ [')'])).tree? =
      (readAt o (.chain .sum) (depth + 1) text).tree?.map .paren := by
  rw [readAt_primary hopen, inside?_parens]
  exact Reading.tree?_map _ _

theorem readAt_base_log (hopen : o.permits depth = true) (text : List Char) :
    (readAt o .base depth ('l' :: 'o' :: 'g' :: text)).tree? =
      (readAt o .primary (depth + 1) text).tree?.map .log := by
  -- the whole of it is no primary
  have hnone : (readAt o .primary (depth + 1) ('l' :: 'o' :: 'g' :: text)).tree? = none := by
    rw [Option.eq_none_iff_forall_ne_some]
    exact fun e' hread ↦ Derivation.not_reads_primary rfl (reads_of_readAt hread)
  rw [readAt_base hopen, Reading.tree?_orElse, hnone, Option.none_or]
  exact Reading.tree?_map _ _

/-! ## Cuts that are read, and others -/

theorem Reads.mem_loose_of_cut {g : Grammar} {e' : Expr}
    (h : Reads g level text e) (hs : s ∈ splits c.operators text)
    (hcut : (cutReading o c depth s).tree? = some e') : s.op ∈ looseOperators g level := by
  obtain ⟨a, b, ha, hb, rfl⟩ := exists_of_tree?_ofSplit hcut
  rw [← text_of_mem_splits hs, Split.text] at h
  exact h.mem_loose (reads_of_readAt ha).run_eq

theorem cutReading_eq_some {a b : Expr}
    (hl : (readAt o (o.grammar.operandLevels c).1 (depth + 1) s.left).tree? = some a)
    (hr : (readAt o (o.grammar.operandLevels c).2 (depth + 1) s.right).tree? = some b) :
    (cutReading o c depth s).tree? = some (.binary s.op a b) := by
  rw [cutReading, Reading.tree?_ofSplit]
  simp only [Entry.reading, leftEntry, rightEntry]
  rw [hl, Option.bind_some, hr, Option.map_some]

theorem exists_cutReading (ho : o.maxDepth = none) {left right : List Char} {a b : Expr}
    (hl : Reads o.grammar (o.grammar.operandLevels c).1 left a)
    (hr : Reads o.grammar (o.grammar.operandLevels c).2 right b) (depth : Nat) (op : BinaryOp) :
    ∃ e, (cutReading o c depth ⟨left, op, right⟩).tree? = some e := by
  obtain ⟨a', ha⟩ := exists_readAt_of_reads hl (permits_of_unlimited ho (depth + 1 + _))
  obtain ⟨b', hb⟩ := exists_readAt_of_reads hr (permits_of_unlimited ho (depth + 1 + _))
  exact ⟨_, cutReading_eq_some ha hb⟩

/-- A cut at an operator that can be loose at a level is made by no chain above it. -/
theorem height_le_of_mem_loose (hs : s ∈ splits c.operators text)
    (h : s.op ∈ looseOperators .canonical level) : (Level.chain c).height ≤ level.height := by
  rw [← BinaryOp.height_eq_of_mem (op_mem_of_mem_splitsFrom hs)]
  exact mem_loose_iff_height_le.mp h

theorem Reads.cut_fails (h : Reads .canonical e.level text e)
    (hlt : e.level.height < (Level.chain c).height) (hs : s ∈ splits c.operators text) :
    (cutReading o c depth s).tree? = none := by
  rw [Option.eq_none_iff_forall_ne_some]
  intro e' hcut
  exact Nat.not_le.mpr hlt (height_le_of_mem_loose hs (h.mem_loose_of_cut hs hcut))

/-- No cut further to the left than that of a node is read, if the left operand is below the chain:
it would have to be made at a loose operator of that operand. -/
theorem Reads.cut_left_fails {a : Expr} {op : BinaryOp} {left right : List Char}
    (h : Reads .canonical a.level left a) (hlt : a.level.height < (Level.chain c).height)
    (hs : s ∈ splits c.operators (left ++ op.symbol :: right))
    (hlength : s.left.length < left.length) : (cutReading o c depth s).tree? = none := by
  rw [Option.eq_none_iff_forall_ne_some]
  intro e' hcut
  obtain ⟨mid, rfl⟩ : ∃ mid, left = s.left ++ s.op.symbol :: mid := by
    rcases symbol_cases (text_of_mem_splits hs) with ⟨hmid, -⟩ | ⟨mid, hmid, -⟩ | ⟨mid, hmid, -⟩
    · rw [hmid] at hlength
      exact absurd hlength (Nat.lt_irrefl _)
    · exact ⟨mid, hmid⟩
    · rw [hmid, List.length_append] at hlength
      omega
  obtain ⟨b, b', hb, -, -⟩ := exists_of_tree?_ofSplit hcut
  have hloose := h.mem_loose (reads_of_readAt hb).run_eq
  exact Nat.not_le.mpr hlt (height_le_of_mem_loose hs hloose)

/-! ## Without a limit -/

theorem Reading.first_eq_of_forall {α : Type} {f f' : α → Reading} {as : List α}
    (h : ∀ a ∈ as, f a = f' a) : first f as = first f' as := by
  induction as with
  | nil => rfl
  | cons a as ih =>
    obtain ⟨ha, has⟩ := List.forall_mem_cons.mp h
    rw [first, first, ha, ih has]

theorem readAt_eq_of_unlimited (ho : o.maxDepth = none) (depth depth' : Nat) :
    readAt o level depth text = readAt o level depth' text := by
  induction level, text using level_induction generalizing depth depth' with
  | chain c text ihsplit ihbelow =>
    rw [readAt_chain (permits_of_unlimited ho depth), readAt_chain (permits_of_unlimited ho depth'),
      ihbelow (depth + 1) (depth' + 1)]
    congr 1
    refine Reading.first_eq_of_forall fun s hs ↦ ?_
    rw [(ihsplit s hs _).1 (depth + 1) (depth' + 1), (ihsplit s hs _).2 (depth + 1) (depth' + 1)]
  | base text ihprimary iharg =>
    rw [readAt_base (permits_of_unlimited ho depth), readAt_base (permits_of_unlimited ho depth'),
      ihprimary (depth + 1) (depth' + 1)]
    congr 1
    cases harg : afterLog? text with
    | none => rfl
    | some arg => exact funext fun _ ↦ congrArg (Reading.map Expr.log) (iharg arg harg _ _)
  | primary text ihinner =>
    rw [readAt_primary (permits_of_unlimited ho depth),
      readAt_primary (permits_of_unlimited ho depth')]
    cases hinner : inside? text with
    | none => rfl
    | some inner => exact congrArg (Reading.map Expr.paren) (ihinner inner hinner _ _)

/-- Without a limit, a level reads what a level below it reads if no chain between the two, the
upper one included, has a cut that is read. -/
theorem readAt_eq_of_cuts_fail (ho : o.maxDepth = none) {lower : Level}
    (hbase : Level.base.height ≤ lower.height)
    (hfails : ∀ c depth, lower.height < (Level.chain c).height →
      ∀ s ∈ splits c.operators text, (cutReading o c depth s).tree? = none)
    (upper : Level) (hle : lower.height ≤ upper.height) (depth depth' : Nat) :
    (readAt o upper depth text).tree? = (readAt o lower depth' text).tree? := by
  rcases Nat.lt_or_eq_of_le hle with hlt | heq
  · match upper with
    | .chain c =>
      have hbelow : lower.height ≤ c.below.height := by
        rw [c.height_eq] at hlt
        omega
      rw [readAt_chain_of_cuts_fail (permits_of_unlimited ho depth) (hfails c depth hlt)]
      exact readAt_eq_of_cuts_fail ho hbase hfails c.below hbelow _ _
    | .base => exact absurd hlt (Nat.not_lt.mpr hbase)
    | .primary => exact absurd hlt (Nat.not_lt_zero _)
  · rw [Level.height_injective heq, readAt_eq_of_unlimited ho depth depth']
termination_by upper.height
decreasing_by exact c.height_below

/-! ## From the root to the levels above and back -/

theorem exists_readAt_level {level : Level} {depth : Nat}
    (h : (readAt o level depth text).tree? = some e) :
    ∃ depth', (readAt o e.level depth' text).tree? = some e := by
  have hopen := permits_of_readAt h
  match level with
  | .chain c =>
    rcases (readAt_chain_eq_some_iff hopen).mp h with ⟨s, htries, hcut⟩ | ⟨-, hbelow⟩
    · obtain ⟨a, b, -, -, rfl⟩ := exists_of_tree?_ofSplit hcut
      refine ⟨depth, ?_⟩
      rw [Expr.level, BinaryOp.chain_eq_of_mem (op_mem_of_mem_splitsFrom htries.mem)]
      exact h
    · exact exists_readAt_level hbelow
  | .base =>
    have hbase := h
    rw [readAt_base hopen, Reading.tree?_orElse, Option.or_eq_some_iff] at h
    rcases h with hprimary | ⟨-, harg⟩
    · exact exists_readAt_level hprimary
    · split at harg
      · obtain ⟨a, -, rfl⟩ := Option.map_eq_some_iff.mp harg
        exact ⟨depth, hbase⟩
      · exact absurd harg (by simp)
  | .primary =>
    have hle := (reads_of_readAt h).height_level_le
    have hlevel : e.level = .primary := Level.height_injective (Nat.le_zero.mp hle)
    rw [hlevel]
    exact ⟨depth, h⟩
termination_by level.height
decreasing_by
  · exact c.height_below
  · exact Nat.zero_lt_one

/-- What is found at the level of its root is found at every level above, where no cut is read. -/
theorem Reads.readAt_climb (ho : o.maxDepth = none) (h : Reads .canonical e.level text e)
    (hroot : ∀ depth, (readAt o e.level depth text).tree? = some e) (upper : Level)
    (hle : e.level.height ≤ upper.height) (depth : Nat) :
    (readAt o upper depth text).tree? = some e := by
  have hfails : ∀ c depth, e.level.height < (Level.chain c).height →
      ∀ s ∈ splits c.operators text, (cutReading o c depth s).tree? = none :=
    fun _ _ hlt _ hs ↦ h.cut_fails hlt hs
  rcases Nat.eq_zero_or_pos e.level.height with hzero | hpos
  · -- the base level tries a primary before anything else
    have hprimary : e.level = .primary := Level.height_injective hzero
    rw [hprimary] at hroot
    have hbase : (readAt o .base depth text).tree? = some e := by
      rw [readAt_base (permits_of_unlimited ho depth), Reading.tree?_orElse, hroot, Option.some_or]
    cases upper with
    | primary => exact hroot depth
    | base => exact hbase
    | chain c =>
      have hheight : Level.base.height ≤ (Level.chain c).height := by cases c <;> decide
      refine (readAt_eq_of_cuts_fail ho (Nat.le_refl _) (fun c depth hlt ↦ ?_) _ hheight _ _).trans
        hbase
      exact hfails c depth (hzero ▸ Nat.zero_lt_of_lt hlt)
  · exact (readAt_eq_of_cuts_fail ho hpos hfails upper hle depth depth).trans (hroot depth)

end Grammar

end CurveCalc
