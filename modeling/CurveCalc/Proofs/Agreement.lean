import CurveCalc.Proofs.ChainSearch

/-!
# Where the grammars agree

The legacy grammar may refuse a text that the canonical one accepts, or group it in another way. It
does neither if and only if every row of operators is *settled*: at most one operator of a sum, at
most one of a product, and that of the product in front if there are both. On the tree this says
that no left operand is a chain of the same level or above, and no right operand is a sum or product
(`Expr.Alike`).

If the tree is so, the legacy search finds it: below each chain the left operand has no loose
operator that an earlier cut could be made at (`readAt_of_alike`). If it is not, the search finds
something else: a chain of products is cut at its first operator and not at its last, and the rest
the legacy grammar does not read at all (`alike_of_readAt`).
-/

namespace CurveCalc

open Grammar

/-! ## Settled rows -/

/-- A row of operators that both grammars group alike. -/
structure IsSettled (row : List BinaryOp) : Prop where
  sums_le : row.countP (fun op ↦ op.chain = .sum) ≤ 1
  products_le : row.countP (fun op ↦ op.chain = .product) ≤ 1
  /-- No operator of a sum has one of a product behind it. -/
  product_first : row.Pairwise fun op op' ↦ op.chain = .sum → op'.chain ≠ .product

instance (row : List BinaryOp) : Decidable (IsSettled row) :=
  decidable_of_iff (row.countP (fun op ↦ op.chain = .sum) ≤ 1 ∧
      row.countP (fun op ↦ op.chain = .product) ≤ 1 ∧
      row.Pairwise fun op op' ↦ op.chain = .sum → op'.chain ≠ .product)
    ⟨fun ⟨hs, hp, hf⟩ ↦ ⟨hs, hp, hf⟩, fun h ↦ ⟨h.sums_le, h.products_le, h.product_first⟩⟩

namespace BinaryOp

/-- What holds of two operators in a settled row, the first in front: powers aside they climb. -/
def Climbs (op op' : BinaryOp) : Prop := op.height ≤ 2 ∨ op'.height ≤ 2 ∨ op.height < op'.height

theorem climbs_iff {op op' : BinaryOp} :
    op.Climbs op' ↔ (op.chain = .sum → op'.chain ≠ .sum) ∧
      (op.chain = .product → op'.chain ≠ .product) ∧ (op.chain = .sum → op'.chain ≠ .product) := by
  unfold Climbs
  cases op <;> cases op' <;> decide

end BinaryOp

theorem countP_le_one_iff {α : Type} (p : α → Prop) [DecidablePred p] (as : List α) :
    as.countP (fun a ↦ p a) ≤ 1 ↔ as.Pairwise fun a b ↦ p a → ¬p b := by
  induction as with
  | nil => simp
  | cons a as ih =>
    rw [List.pairwise_cons, ← ih, List.countP_cons]
    by_cases ha : p a
    · have hzero : as.countP (fun b ↦ p b) = 0 ↔ ∀ b ∈ as, ¬p b := by
        simp [List.countP_eq_zero]
      simp only [ha, decide_true, if_true, forall_const, ← hzero]
      omega
    · simp [ha]

theorem isSettled_iff_pairwise {row : List BinaryOp} :
    IsSettled row ↔ row.Pairwise BinaryOp.Climbs := by
  have hiff : row.Pairwise BinaryOp.Climbs ↔
      row.Pairwise (fun op op' ↦ op.chain = .sum → ¬op'.chain = .sum) ∧
        row.Pairwise (fun op op' ↦ op.chain = .product → ¬op'.chain = .product) ∧
        row.Pairwise fun op op' ↦ op.chain = .sum → op'.chain ≠ .product := by
    rw [← List.pairwise_and_iff, ← List.pairwise_and_iff]
    exact List.Pairwise.iff fun _ _ ↦ BinaryOp.climbs_iff
  rw [hiff, ← countP_le_one_iff, ← countP_le_one_iff]
  constructor
  · intro h
    exact ⟨h.sums_le, h.products_le, h.product_first⟩
  · rintro ⟨hsums, hproducts, hfirst⟩
    exact ⟨hsums, hproducts, hfirst⟩

/-! ## Trees with settled rows -/

namespace Expr

/-- Whether both grammars group an expression alike: every left operand is below the chain that
joins it, and every right operand is a power or below. -/
def Alike : Expr → Prop
  | .literal _ | .var => True
  | .paren e | .log e | .logWith e _ | .danglingPow e => e.Alike
  | .binary op a b =>
    a.level.height < op.height ∧ b.level.height ≤ (Level.chain .power).height ∧ a.Alike ∧ b.Alike

end Expr

namespace Grammar

section Tables

/-- A canonical left operand is not above the chain that joins it, and a power has a single operand
on its left. -/
private theorem height_left_canonical (c : Chain) :
    1 ≤ (Grammar.canonical.operandLevels c).1.height ∧
      (Grammar.canonical.operandLevels c).1.height ≤ (Level.chain c).height ∧
      ((Level.chain c).height ≤ 2 → (Grammar.canonical.operandLevels c).1.height ≤ 1) := by
  cases c <;> decide

private theorem height_right_canonical (c : Chain) :
    1 ≤ (Grammar.canonical.operandLevels c).2.height ∧
      ((Grammar.canonical.operandLevels c).2.height < (Level.chain c).height ∨
        (Grammar.canonical.operandLevels c).2.height ≤ 2) := by
  cases c <;> decide

end Tables

section Rows

variable {c : Chain} {op : BinaryOp} {level : Level} {left right text : List Char} {a b e : Expr}

theorem isSettled_row_binary (hop : op ∈ c.operators)
    (hl : Reads .canonical (Grammar.canonical.operandLevels c).1 left a)
    (hr : Reads .canonical (Grammar.canonical.operandLevels c).2 right b) :
    IsSettled (Expr.binary op a b).row ↔ a.level.height < op.height ∧
      b.level.height ≤ (Level.chain .power).height ∧ IsSettled a.row ∧ IsSettled b.row := by
  have hheight := BinaryOp.height_eq_of_mem hop
  have htwo := op.two_le_height
  obtain ⟨hleft, hleftc, hpower⟩ := height_left_canonical c
  obtain ⟨hright, hrightc⟩ := height_right_canonical c
  have hbase : Level.base.height = 1 := rfl
  have hchain : (Level.chain .power).height = 2 := rfl
  -- what the rows of the operands can have at all
  have hla := (hl.forall_row_le_iff hleft).mpr hl.height_level_le
  have hrb := (hr.forall_row_le_iff hright).mpr hr.height_level_le
  have ha : a.level.height < op.height ↔ ∀ x ∈ a.row, x.height ≤ op.height - 1 := by
    rw [hl.forall_row_le_iff (by omega)]
    omega
  have hb : b.level.height ≤ (Level.chain .power).height ↔ ∀ y ∈ b.row, y.height ≤ 2 :=
    (hr.forall_row_le_iff (by omega)).symm
  rw [ha, hb, Expr.row]
  simp only [isSettled_iff_pairwise, List.pairwise_append, List.pairwise_cons, List.forall_mem_cons]
  constructor
  · rintro ⟨hpa, ⟨hopb, hpb⟩, hcross⟩
    refine ⟨fun x hx ↦ ?_, fun y hy ↦ ?_, hpa, hpb⟩
    · have hclimbs := (hcross x hx).1
      have hxa := hla x hx
      have hxtwo := x.two_le_height
      rw [BinaryOp.Climbs] at hclimbs
      omega
    · have hclimbs := hopb y hy
      have hyb := hrb y hy
      rw [BinaryOp.Climbs] at hclimbs
      omega
  · rintro ⟨hxa, hyb, hpa, hpb⟩
    refine ⟨hpa, ⟨fun y hy ↦ Or.inr (Or.inl (hyb y hy)), hpb⟩, fun x hx ↦ ⟨?_, fun y hy ↦ ?_⟩⟩
    · have hlt := hxa x hx
      exact Or.inr (Or.inr (by omega))
    · exact Or.inr (Or.inl (hyb y hy))

theorem isSettled_nil : IsSettled [] := by decide

/-- **The rows of a text are settled if and only if its tree is grouped alike.** -/
theorem Reads.alike_iff (h : Reads .canonical level text e) :
    e.Alike ↔ IsSettled e.row ∧ ∀ row ∈ e.innerRows, IsSettled row := by
  induction h with
  | @split c op left right a b hop hl hr iha ihb =>
    rw [isSettled_row_binary hop hl hr, Expr.Alike, iha, ihb, Expr.innerRows,
      List.forall_mem_append]
    constructor
    · rintro ⟨hlt, hle, ⟨hrowa, hina⟩, hrowb, hinb⟩
      exact ⟨⟨hlt, hle, hrowa, hrowb⟩, hina, hinb⟩
    · rintro ⟨⟨hlt, hle, hrowa, hrowb⟩, hina, hinb⟩
      exact ⟨hlt, hle, ⟨hrowa, hina⟩, hrowb, hinb⟩
  | fall _ ih => exact ih
  | base _ ih => exact ih
  | log _ ih => exact ih
  | @paren text e _ ih =>
    rw [Expr.Alike, ih, Expr.row, Expr.innerRows, List.forall_mem_append, List.forall_mem_singleton]
    constructor
    · rintro ⟨hrow, hin⟩
      exact ⟨isSettled_nil, hin, hrow⟩
    · rintro ⟨-, hin, hrow⟩
      exact ⟨hrow, hin⟩
  | literal | var => exact ⟨fun _ ↦ ⟨isSettled_nil, by simp [Expr.innerRows]⟩, fun _ ↦ trivial⟩

end Rows

/-! ## Where the trees are alike -/

section Tables

private theorem height_le_legacy {c : Chain} {m n : Nat} (hm : m < (Level.chain c).height)
    (hn : n ≤ (Level.chain .power).height) :
    m ≤ (Grammar.legacy.operandLevels c).1.height ∧
      n ≤ (Grammar.legacy.operandLevels c).2.height := by
  have hpower : (Level.chain .power).height = 2 := rfl
  cases c <;> simp only [Grammar.operandLevels, Level.height] at hm hn ⊢ <;> omega

end Tables

/-- **The legacy search finds a tree that both grammars group alike.** -/
theorem Reads.readAt_of_alike {level : Level} {text : List Char} {e : Expr}
    (h : Reads .canonical level text e) (halike : e.Alike) (upper : Level)
    (hle : e.level.height ≤ upper.height) (depth : Nat) :
    (readAt ⟨.legacy, none⟩ upper depth text).tree? = some e := by
  induction h generalizing upper depth with
  | @split c op left right a b hop hl hr ihl ihr =>
    obtain ⟨hlt, hright, ha, hb⟩ := halike
    have hheight := BinaryOp.height_eq_of_mem hop
    rw [hheight] at hlt
    obtain ⟨hla, hrb⟩ := height_le_legacy hlt hright
    refine (Reads.split hop hl hr).at_level.readAt_climb rfl (fun depth ↦ ?_) upper hle depth
    rw [Expr.level, BinaryOp.chain_eq_of_mem hop]
    refine (readAt_chain_eq_some_iff rfl).mpr (Or.inl ⟨⟨left, op, right⟩, ?_, ?_⟩)
    · refine triesCut_of_fails (mem_splits hop left right) fun s hs hlength ↦ ?_
      exact hl.at_level.cut_left_fails hlt hs hlength
    · exact cutReading_eq_some (ihl ha _ hla (depth + 1)) (ihr hb _ hrb (depth + 1))
  | fall _ ih => exact ih halike upper hle depth
  | base _ ih => exact ih halike upper hle depth
  | @log text e h ih =>
    refine (Reads.log h).at_level.readAt_climb rfl (fun depth ↦ ?_) upper hle depth
    rw [Expr.level, readAt_base_log rfl, ih halike _ h.height_level_le, Option.map_some]
  | @paren text e h ih =>
    refine (Reads.paren h).at_level.readAt_climb rfl (fun depth ↦ ?_) upper hle depth
    rw [Expr.level, readAt_primary_parens rfl, ih halike _ (Level.height_le _), Option.map_some]
  | @literal text v hv =>
    refine (Reads.literal hv).readAt_climb rfl (fun depth ↦ ?_) upper hle depth
    rw [Expr.level, readAt_primary rfl,
      inside?_of_isLiteralText (Literal.isLiteralText_of_readLiteral? hv)]
    simp [leaf?, hv]
  | var =>
    refine Reads.var.readAt_climb rfl (fun depth ↦ ?_) upper hle depth
    rw [Expr.level, readAt_primary rfl]
    rfl

/-! ## Where they are not -/

theorem Reads.exists_cut {g : Grammar} {level : Level} {text : List Char} {op : BinaryOp}
    {a b : Expr} (h : Reads g level text (.binary op a b)) :
    ∃ left right, text = left ++ op.symbol :: right ∧
      Reads g (g.operandLevels op.chain).1 left a ∧
      Reads g (g.operandLevels op.chain).2 right b := by
  have hlevel := h.at_level
  rw [Expr.level] at hlevel
  cases hlevel with
  | split hop hl hr => exact ⟨_, _, rfl, hl, hr⟩
  | fall hbelow => exact absurd hbelow.height_level_le (Nat.not_le.mpr op.chain.height_below)

/-- The legacy search never cuts a chain of products at its last operator: the first comes before,
and all that is behind it is read. -/
theorem not_reads_product_left {depth : Nat} {text : List Char} {s : Split} {p q b : Expr}
    {op : BinaryOp} (htries : TriesCut ⟨.legacy, none⟩ .product depth text s)
    (hop : op.chain = .product) (hright : Reads .legacy (.chain .sum) s.right b) :
    ¬Reads .legacy (.chain .sum) s.left (.binary op p q) := by
  intro hleft
  obtain ⟨left, mid, htext, hp, hq⟩ := hleft.exists_cut
  rw [hop] at hp hq
  have hmem := op_mem_of_mem_splitsFrom htries.mem
  have hsplit : (⟨left, op, mid ++ s.op.symbol :: s.right⟩ : Split) ∈
      splits Chain.product.operators text := by
    rw [← text_of_mem_splits htries.mem, Split.text, htext, List.append_assoc, List.cons_append]
    exact mem_splits (hop ▸ op.mem_operators_chain) _ _
  have hlength : left.length < s.left.length := by
    rw [htext, List.length_append, List.length_cons]
    omega
  have hfails := htries.fails_of_lt hsplit hlength
  have hrest := (Reads.split (g := .legacy) hmem hq hright).climb (.chain .sum) (Level.height_le _)
  obtain ⟨e, he⟩ := exists_cutReading (o := ⟨.legacy, none⟩) rfl hp hrest depth op
  rw [hfails] at he
  exact absurd he (by simp)

/-- The operands of a node that the legacy search finds, the left one below its chain. For sums that
is a matter of the legacy levels, for powers of the canonical ones, and for products of the
search. -/
private theorem height_operands_of_cut {c : Chain} {depth : Nat} {text left right : List Char}
    {s : Split} {a b : Expr} (htries : TriesCut ⟨.legacy, none⟩ c depth text s)
    (hl : Reads .canonical (Grammar.canonical.operandLevels c).1 left a)
    (hr : Reads .canonical (Grammar.canonical.operandLevels c).2 right b)
    (hl' : Reads .legacy (Grammar.legacy.operandLevels c).1 s.left a)
    (hr' : Reads .legacy (Grammar.legacy.operandLevels c).2 s.right b) :
    a.level.height < (Level.chain c).height ∧ b.level.height ≤ (Level.chain .power).height := by
  cases c with
  | sum => exact ⟨Nat.lt_succ_of_le hl'.height_level_le, hr'.height_level_le⟩
  | product =>
    refine ⟨Nat.lt_of_le_of_ne hl.height_level_le fun heq ↦ ?_, hr.height_level_le⟩
    have hlevel : a.level = .chain .product := Level.height_injective heq
    cases a with
    | binary op p q =>
      have hop : op.chain = .product := by simpa [Expr.level] using hlevel
      exact not_reads_product_left htries hop hr' hl'
    | literal | var | paren | log | logWith | danglingPow =>
      exact absurd hlevel (by simp [Expr.level])
  | power => exact ⟨Nat.lt_succ_of_le hl.height_level_le, hr.height_level_le⟩

/-- **What the legacy search finds of a canonical tree is grouped alike.** -/
theorem Reads.alike_of_readAt {level level' : Level} {text text' : List Char} {e : Expr}
    {depth : Nat} (h : Reads .canonical level text e)
    (hread : (readAt ⟨.legacy, none⟩ level' depth text').tree? = some e) : e.Alike := by
  induction h generalizing level' depth text' with
  | @split c op left right a b hop hl hr ihl ihr =>
    obtain ⟨depth', hroot⟩ := exists_readAt_level hread
    rw [Expr.level, BinaryOp.chain_eq_of_mem hop] at hroot
    rcases (readAt_chain_eq_some_iff rfl).mp hroot with ⟨s, htries, hcut⟩ | ⟨-, hbelow⟩
    · obtain ⟨a', b', ha, hb, heq⟩ := exists_of_tree?_ofSplit hcut
      obtain ⟨-, rfl, rfl⟩ := Expr.binary.inj heq
      obtain ⟨hlt, hle⟩ :=
        height_operands_of_cut htries hl hr (reads_of_readAt ha) (reads_of_readAt hb)
      rw [← BinaryOp.height_eq_of_mem hop] at hlt
      exact ⟨hlt, hle, ihl ha, ihr hb⟩
    · have hle := (reads_of_readAt hbelow).height_level_le
      rw [Expr.level, BinaryOp.chain_eq_of_mem hop, c.height_eq] at hle
      exact absurd hle (Nat.not_succ_le_self _)
  | fall _ ih => exact ih hread
  | base _ ih => exact ih hread
  | @log text e _ ih =>
    obtain ⟨depth', hroot⟩ := exists_readAt_level hread
    rw [Expr.level, readAt_base rfl, Reading.tree?_orElse, Option.or_eq_some_iff] at hroot
    rcases hroot with hprimary | ⟨-, harg⟩
    · exact absurd (reads_of_readAt hprimary).height_level_le (Nat.not_succ_le_zero 0)
    · split at harg
      · obtain ⟨a, ha, heq⟩ := Option.map_eq_some_iff.mp harg
        obtain rfl := Expr.log.inj heq
        exact ih ha
      · exact absurd harg (by simp)
  | @paren text e _ ih =>
    obtain ⟨depth', hroot⟩ := exists_readAt_level hread
    rw [Expr.level, readAt_primary rfl] at hroot
    split at hroot
    · obtain ⟨a, ha, heq⟩ := Option.map_eq_some_iff.mp hroot
      obtain rfl := Expr.paren.inj heq
      exact ih ha
    · exact absurd (reads_of_leaf? (g := .legacy) hroot).2 (by simp)
  | literal | var => trivial

end Grammar

/-- **The grammars agree exactly on settled rows.** Of a text that the canonical grammar accepts,
the legacy grammar returns the same tree if and only if the operators of the text itself and those
of each pair of parentheses in it are a settled row. -/
theorem parse_legacy_eq_iff_rows {input : List Char} {e : Expr}
    (h : parse ⟨.canonical, none⟩ input = .ok e) :
    parse ⟨.legacy, none⟩ input = .ok e ↔
      ∀ row ∈ operatorRows (dropSpaces input), IsSettled row := by
  have hread := reads_of_parse h
  rw [hread.operatorRows_eq, List.forall_mem_cons, ← hread.alike_iff]
  constructor
  · intro hlegacy
    have hwhole := Reading.result_eq_ok_iff.mp hlegacy
    rw [readWhole, Reading.tree?_orElse, Option.or_eq_some_iff] at hwhole
    rcases hwhole with hsum | ⟨-, hprimary⟩
    · exact hread.alike_of_readAt hsum
    · exact hread.alike_of_readAt hprimary
  · intro halike
    refine Reading.result_eq_ok_iff.mpr ?_
    rw [readWhole, Reading.tree?_orElse, hread.readAt_of_alike halike _ (Level.height_le _),
      Option.some_or]

/-- All rows of `x^-1*(x-x)-x` are settled: the minus sign of the number is in none, and the
difference in parentheses has a row of its own. The one row of `x-x*x` is not settled. -/
theorem parse_legacy_eq_iff_rows_signed :
    (∃ e, parse ⟨.canonical, none⟩ "x^-1*(x-x)-x".toList = .ok e ∧
        parse ⟨.legacy, none⟩ "x^-1*(x-x)-x".toList = .ok e) ∧
      ∃ e, parse ⟨.canonical, none⟩ "x-x*x".toList = .ok e ∧
        parse ⟨.legacy, none⟩ "x-x*x".toList ≠ .ok e := by
  have hsettled : parse ⟨.canonical, none⟩ "x^-1*(x-x)-x".toList = .ok (.binary .sub
      (.binary .mul
        (.binary .pow .var (.literal (Literal.value ⟨true, .decimal ['1'] [] 0⟩)))
        (.paren (.binary .sub .var .var))) .var) := by
    decide +kernel
  have hunsettled : parse ⟨.canonical, none⟩ "x-x*x".toList =
      .ok (.binary .sub .var (.binary .mul .var .var)) := by
    decide +kernel
  have hrows := (parse_legacy_eq_iff_rows hsettled).mpr (by decide +kernel)
  refine ⟨⟨_, hsettled, hrows⟩, _, hunsettled, fun hlegacy ↦ ?_⟩
  exact absurd ((parse_legacy_eq_iff_rows hunsettled).mp hlegacy) (by decide +kernel)

end CurveCalc
