import CurveCalc.Grammar.Parse
import CurveCalc.Proofs.Cursor
import CurveCalc.Proofs.Nesting

/-!
# What the levels read

`Reads g level text e` is the grammar without the search: a level reads a text as a tree if *some*
cut of it works, no matter which is tried first, and there is no limit to the depth. The reader
finds nothing that is not read in this sense or is nested too deeply (`reads_of_readAt`,
`permits_nesting_of_readAt`), and it refuses nothing that is read and not nested too deeply
(`exists_readAt_of_reads`); this much holds of both grammars. Which tree it finds is another
question, as a text may be read in more than one way.
-/

namespace CurveCalc

namespace Grammar

/-! ## The relation -/

/-- The texts that a level of a grammar reads, and the trees that it reads them as. -/
inductive Reads (g : Grammar) : Level → List Char → Expr → Prop
  | split {c : Chain} {op : BinaryOp} {left right : List Char} {a b : Expr}
    (hop : op ∈ c.operators) (hl : Reads g (g.operandLevels c).1 left a)
    (hr : Reads g (g.operandLevels c).2 right b) :
    Reads g (.chain c) (left ++ op.symbol :: right) (.binary op a b)
  | fall {c : Chain} {text : List Char} {e : Expr} (h : Reads g c.below text e) :
    Reads g (.chain c) text e
  | base {text : List Char} {e : Expr} (h : Reads g .primary text e) : Reads g .base text e
  | log {text : List Char} {e : Expr} (h : Reads g .primary text e) :
    Reads g .base ('l' :: 'o' :: 'g' :: text) (.log e)
  | paren {text : List Char} {e : Expr} (h : Reads g (.chain .sum) text e) :
    Reads g .primary ('(' :: text ++ [')']) (.paren e)
  | literal {text : List Char} {v : Float} (h : readLiteral? text = some v) :
    Reads g .primary text (.literal v)
  | var : Reads g .primary ['x'] .var

theorem Chain.height_eq (c : Chain) : (Level.chain c).height = c.below.height + 1 := by
  cases c <;> rfl

theorem Reads.height_level_le {g : Grammar} {level : Level} {text : List Char} {e : Expr}
    (h : Reads g level text e) : e.level.height ≤ level.height := by
  induction h with
  | split hop _ _ _ _ => exact Nat.le_of_eq (by rw [Expr.level, BinaryOp.chain_eq_of_mem hop])
  | @fall c _ _ _ ih => exact Nat.le_trans ih (Nat.le_of_lt c.height_below)
  | base _ ih => exact Nat.le_trans ih (Nat.zero_le _)
  | log | paren | literal | var => exact Nat.le_refl _

theorem Reads.nesting_fall {g : Grammar} {c : Chain} {text : List Char} {e : Expr}
    (h : Reads g c.below text e) : e.nesting g (.chain c) = 1 + e.nesting g c.below :=
  e.nesting_fall g h.height_level_le c.height_eq

theorem Reads.nesting_base {g : Grammar} {text : List Char} {e : Expr}
    (h : Reads g .primary text e) : e.nesting g .base = 1 + e.nesting g .primary :=
  e.nesting_fall g h.height_level_le rfl

/-! ## The search -/

/-- Induction along the calls of the reader: the operands of every cut, the level below, the text
after `log`, the text inside parentheses. -/
theorem level_induction {motive : Level → List Char → Prop}
    (chain : ∀ (c : Chain) (text : List Char),
      (∀ s ∈ splits c.operators text, ∀ level, motive level s.left ∧ motive level s.right) →
      motive c.below text → motive (.chain c) text)
    (base : ∀ text, motive .primary text →
      (∀ arg, afterLog? text = some arg → motive .primary arg) → motive .base text)
    (primary : ∀ text, (∀ inner, inside? text = some inner → motive (.chain .sum) inner) →
      motive .primary text) :
    ∀ (level : Level) (text : List Char), motive level text
  | .chain c, text =>
    chain c text
      (fun s _hs level ↦ ⟨level_induction chain base primary level s.left,
        level_induction chain base primary level s.right⟩)
      (level_induction chain base primary c.below text)
  | .base, text =>
    base text (level_induction chain base primary .primary text)
      fun arg _harg ↦ level_induction chain base primary .primary arg
  | .primary, text =>
    primary text fun inner _hinner ↦ level_induction chain base primary (.chain .sum) inner
termination_by level text => 5 * text.length + level.height
decreasing_by
  · have := length_left_lt _hs
    have := level.height_le
    omega
  · have := length_right_lt _hs
    have := level.height_le
    omega
  · have := c.height_below
    omega
  · simp [Level.height]
  · have := length_lt_of_afterLog? _harg
    simp only [Level.height]
    omega
  · have := length_lt_of_inside? _hinner
    simp only [Level.height]
    omega

theorem mem_splitsFrom {ops : List BinaryOp} {op : BinaryOp} (hop : op ∈ ops)
    (before left right : List Char) :
    ⟨before.reverse ++ left, op, right⟩ ∈ splitsFrom ops before (left ++ op.symbol :: right) := by
  induction left generalizing before with
  | nil => simp [splitsFrom, hop]
  | cons c left ih =>
    have hrest := ih (c :: before)
    rw [List.reverse_cons, List.append_assoc] at hrest
    rw [List.cons_append, splitsFrom]
    split
    · split
      · exact List.mem_cons_of_mem _ hrest
      · exact hrest
    · exact hrest

theorem mem_splits {ops : List BinaryOp} {op : BinaryOp} (hop : op ∈ ops)
    (left right : List Char) : ⟨left, op, right⟩ ∈ splits ops (left ++ op.symbol :: right) :=
  mem_splitsFrom hop [] left right

theorem op_mem_of_mem_splitsFrom {ops : List BinaryOp} {before text : List Char} {s : Split}
    (h : s ∈ splitsFrom ops before text) : s.op ∈ ops := by
  induction text generalizing before with
  | nil => exact absurd h (by simp [splitsFrom])
  | cons c text ih =>
    rw [splitsFrom] at h
    split at h
    · split at h
      · next hop =>
        rcases List.mem_cons.mp h with rfl | h
        · exact hop
        · exact ih h
      · exact ih h
    · exact ih h

/-! ## Soundness -/

theorem text_eq_of_inside? {text inner : List Char} (h : inside? text = some inner) :
    text = '(' :: inner ++ [')'] := by
  rw [inside?.eq_def] at h
  split at h
  · next rest =>
    split at h
    · next hlast =>
      obtain rfl := Option.some.inj h
      rw [List.cons_append, List.dropLast_append_getLast? ')' hlast]
    · exact absurd h (by simp)
  · exact absurd h (by simp)

theorem text_eq_of_afterLog? {text arg : List Char} (h : afterLog? text = some arg) :
    text = 'l' :: 'o' :: 'g' :: arg := by
  rw [afterLog?.eq_def] at h
  split at h
  · rw [Option.some.inj h]
  · exact absurd h (by simp)

theorem reads_of_leaf? {g : Grammar} {text : List Char} {e : Expr} (h : leaf? text = some e) :
    Reads g .primary text e ∧ e.nesting g .primary = 0 := by
  rw [leaf?] at h
  split at h
  · next v hv =>
    obtain rfl := Option.some.inj h
    exact ⟨.literal hv, rfl⟩
  · split at h
    · next hx =>
      obtain rfl := Option.some.inj h
      rw [hx]
      exact ⟨.var, rfl⟩
    · exact absurd h (by simp)

theorem permits_of_readAt {o : ReadOptions} {level : Level} {text : List Char} {depth : Nat}
    {e : Expr} (h : (readAt o level depth text).tree? = some e) : o.permits depth = true := by
  by_contra hd
  rw [readAt_of_not_permits (Bool.eq_false_iff.mpr hd)] at h
  exact absurd h (by simp)

theorem exists_of_tree?_ofSplit {s : Split} {left : Reading} {right : Unit → Reading} {e : Expr}
    (h : (Reading.ofSplit s left right).tree? = some e) :
    ∃ a b, left.tree? = some a ∧ (right ()).tree? = some b ∧ e = .binary s.op a b := by
  rw [Reading.tree?_ofSplit] at h
  obtain ⟨a, ha, hmap⟩ := Option.bind_eq_some_iff.mp h
  obtain ⟨b, hb, rfl⟩ := Option.map_eq_some_iff.mp hmap
  exact ⟨a, b, ha, hb, rfl⟩

private theorem reads_and_permits_of_readAt {o : ReadOptions} {level : Level} {text : List Char}
    {depth : Nat} {e : Expr} (h : (readAt o level depth text).tree? = some e) :
    Reads o.grammar level text e ∧ o.permits (depth + e.nesting o.grammar level) = true := by
  -- along the calls of the reader, so the hypotheses cover both sides of every cut
  induction level, text using level_induction generalizing depth e with
  | chain c text ihsplit ihbelow =>
    have hd := permits_of_readAt h
    rw [readAt_chain hd, Reading.tree?_orElse, Option.or_eq_some_iff, Reading.tree?_first] at h
    rcases h with h | ⟨-, h⟩
    · obtain ⟨s, hs, h⟩ := List.exists_of_findSome?_eq_some h
      obtain ⟨a, b, ha, hb, rfl⟩ := exists_of_tree?_ofSplit h
      obtain ⟨hreada, hfita⟩ := (ihsplit s hs _).1 ha
      obtain ⟨hreadb, hfitb⟩ := (ihsplit s hs _).2 hb
      have hop := op_mem_of_mem_splitsFrom hs
      rw [← text_of_mem_splits hs, permits_nesting_binary hop]
      exact ⟨.split hop hreada hreadb, hfita, hfitb⟩
    · obtain ⟨hread, hfit⟩ := ihbelow h
      rw [hread.nesting_fall, ← Nat.add_assoc]
      exact ⟨.fall hread, hfit⟩
  | base text ihprimary iharg =>
    have hd := permits_of_readAt h
    rw [readAt_base hd, Reading.tree?_orElse, Option.or_eq_some_iff] at h
    rcases h with h | ⟨-, h⟩
    · obtain ⟨hread, hfit⟩ := ihprimary h
      rw [hread.nesting_base, ← Nat.add_assoc]
      exact ⟨.base hread, hfit⟩
    · split at h
      · next arg harg =>
        obtain ⟨e', he', rfl⟩ := Option.map_eq_some_iff.mp h
        obtain ⟨hread, hfit⟩ := iharg arg harg he'
        rw [text_eq_of_afterLog? harg, Expr.nesting_log, ← Nat.add_assoc]
        exact ⟨.log hread, hfit⟩
      · exact absurd h (by simp)
  | primary text ihinner =>
    have hd := permits_of_readAt h
    rw [readAt_primary hd] at h
    split at h
    · next inner hinner =>
      obtain ⟨e', he', rfl⟩ := Option.map_eq_some_iff.mp h
      obtain ⟨hread, hfit⟩ := ihinner inner hinner he'
      rw [text_eq_of_inside? hinner, Expr.nesting_paren, ← Nat.add_assoc]
      exact ⟨.paren hread, hfit⟩
    · obtain ⟨hread, hleaf⟩ := reads_of_leaf? h
      rw [hleaf]
      exact ⟨hread, hd⟩

/-- **Soundness**, whatever the depth and the limit. -/
theorem reads_of_readAt {o : ReadOptions} {level : Level} {text : List Char} {depth : Nat}
    {e : Expr} (h : (readAt o level depth text).tree? = some e) :
    Reads o.grammar level text e :=
  (reads_and_permits_of_readAt h).1

theorem permits_nesting_of_readAt {o : ReadOptions} {level : Level} {text : List Char} {depth : Nat}
    {e : Expr} (h : (readAt o level depth text).tree? = some e) :
    o.permits (depth + e.nesting o.grammar level) = true :=
  (reads_and_permits_of_readAt h).2

/-! ## Completeness -/

theorem inside?_parens (text : List Char) : inside? ('(' :: text ++ [')']) = some text := by
  simp [inside?]

theorem inside?_of_isLiteralText {text : List Char} (h : Literal.IsLiteralText text) :
    inside? text = none := by
  rw [inside?.eq_def]
  split
  · exact absurd rfl (h.head_ne (by decide))
  · rfl

theorem exists_findSome? {α β : Type} {f : α → Option β} {as : List α} {a : α} (ha : a ∈ as)
    {b : β} (hb : f a = some b) : ∃ b', as.findSome? f = some b' := by
  rw [← Option.isSome_iff_exists, List.findSome?_isSome_iff]
  exact ⟨a, ha, by rw [hb]; rfl⟩

/-- **Completeness**: what is read and not nested too deeply is not refused. -/
theorem exists_readAt_of_reads {o : ReadOptions} {level : Level} {text : List Char} {e : Expr}
    (h : Reads o.grammar level text e) {depth : Nat}
    (hfit : o.permits (depth + e.nesting o.grammar level) = true) :
    ∃ e', (readAt o level depth text).tree? = some e' := by
  induction h generalizing depth with
  | @split c op left right a b hop _ _ ihl ihr =>
    have hd := permits_of_add hfit
    obtain ⟨hfita, hfitb⟩ := (permits_nesting_binary hop).mp hfit
    obtain ⟨a', ha'⟩ := ihl hfita
    obtain ⟨b', hb'⟩ := ihr hfitb
    obtain ⟨e', he'⟩ := exists_findSome? (b := Expr.binary op a' b') (mem_splits hop left right)
      (f := fun s ↦ (Reading.ofSplit s
        (readAt o (o.grammar.operandLevels c).1 (depth + 1) s.left)
        fun _ ↦ readAt o (o.grammar.operandLevels c).2 (depth + 1) s.right).tree?)
      (by rw [Reading.tree?_ofSplit, ha', Option.bind_some, hb', Option.map_some])
    refine ⟨e', ?_⟩
    rw [readAt_chain hd, Reading.tree?_orElse, Reading.tree?_first, he', Option.some_or]
  | @fall c text e hread ih =>
    have hd := permits_of_add hfit
    rw [hread.nesting_fall, ← Nat.add_assoc] at hfit
    obtain ⟨e', he'⟩ := ih hfit
    rw [readAt_chain hd, Reading.tree?_orElse, he']
    -- some cut may work as well; then its tree is found instead
    cases (Reading.first _ _).tree? with
    | none => exact ⟨e', rfl⟩
    | some e'' => exact ⟨e'', rfl⟩
  | base hread ih =>
    have hd := permits_of_add hfit
    rw [hread.nesting_base, ← Nat.add_assoc] at hfit
    obtain ⟨e', he'⟩ := ih hfit
    exact ⟨e', by rw [readAt_base hd, Reading.tree?_orElse, he', Option.some_or]⟩
  | @log text e _ ih =>
    have hd := permits_of_add hfit
    rw [Expr.nesting_log, ← Nat.add_assoc] at hfit
    obtain ⟨e', he'⟩ := ih hfit
    rw [readAt_base hd, Reading.tree?_orElse]
    cases (readAt o .primary (depth + 1) _).tree? with
    | none => exact ⟨.log e', by simp [afterLog?, he']⟩
    | some e'' => exact ⟨e'', rfl⟩
  | @paren text e _ ih =>
    have hd := permits_of_add hfit
    rw [Expr.nesting_paren, ← Nat.add_assoc] at hfit
    obtain ⟨e', he'⟩ := ih hfit
    refine ⟨.paren e', ?_⟩
    rw [readAt_primary hd, inside?_parens]
    simp [he']
  | @literal text v hv =>
    refine ⟨.literal v, ?_⟩
    rw [readAt_primary (permits_of_add hfit),
      inside?_of_isLiteralText (Literal.isLiteralText_of_readLiteral? hv)]
    simp [leaf?, hv]
  | var =>
    refine ⟨.var, ?_⟩
    rw [readAt_primary (permits_of_add hfit)]
    rfl

/-! ## Whole texts -/

theorem Level.height_injective : Function.Injective Level.height := by
  intro level level' h
  rcases level with (_ | _ | _) | _ | _ <;> rcases level' with (_ | _ | _) | _ | _ <;>
    first | rfl | exact absurd h (by decide)

theorem Reads.climb {g : Grammar} {level : Level} {text : List Char} {e : Expr}
    (h : Reads g level text e) (upper : Level) (hle : level.height ≤ upper.height) :
    Reads g upper text e := by
  rcases Nat.lt_or_eq_of_le hle with hlt | heq
  -- down one level from the upper end, until the two meet
  · match upper with
    | .chain c =>
      rw [c.height_eq] at hlt
      exact .fall (h.climb c.below (Nat.le_of_lt_succ hlt))
    | .base => exact .base (h.climb .primary (Nat.le_of_lt_succ hlt))
    | .primary => exact absurd hlt (Nat.not_lt_zero _)
  · rwa [Level.height_injective heq] at h
termination_by upper.height
decreasing_by
  · exact c.height_below
  · exact Nat.zero_lt_one

theorem Reads.of_primary {g : Grammar} {text : List Char} {e : Expr}
    (h : Reads g .primary text e) : Reads g (.chain .sum) text e :=
  h.climb _ (Nat.zero_le _)

theorem reads_of_readWhole {o : ReadOptions} {text : List Char} {e : Expr}
    (h : (readWhole o text).tree? = some e) : Reads o.grammar (.chain .sum) text e := by
  rw [readWhole, Reading.tree?_orElse, Option.or_eq_some_iff] at h
  rcases h with h | ⟨-, h⟩
  · exact reads_of_readAt h
  · exact .of_primary (reads_of_readAt h)

theorem exists_readWhole_of_reads {o : ReadOptions} (ho : o.maxDepth = none) {text : List Char}
    {e : Expr} (h : Reads o.grammar (.chain .sum) text e) :
    ∃ e', (readWhole o text).tree? = some e' := by
  obtain ⟨e', he'⟩ := exists_readAt_of_reads h (permits_of_unlimited ho _)
  exact ⟨e', by rw [readWhole, Reading.tree?_orElse, he', Option.some_or]⟩

theorem Reading.result_eq_ok_iff {o : ReadOptions} {text : List Char} {r : Reading} {e : Expr} :
    r.result o text = .ok e ↔ r.tree? = some e := by
  rw [Reading.result]
  split
  · next e' he' => rw [he', Except.ok.injEq, Option.some.injEq]
  · next hnone => simp [hnone]

theorem dropSpaces_of_not_mem {text : List Char} (h : ' ' ∉ text) : dropSpaces text = text := by
  rw [dropSpaces, List.filter_eq_self]
  intro c hc
  rw [decide_eq_true_eq]
  rintro rfl
  exact h hc

end Grammar

theorem reads_of_parse {o : ReadOptions} {input : List Char} {e : Expr}
    (h : parse o input = .ok e) :
    Grammar.Reads o.grammar (.chain .sum) (Grammar.dropSpaces input) e :=
  Grammar.reads_of_readWhole (Grammar.Reading.result_eq_ok_iff.mp h)

theorem exists_parse_of_reads {o : ReadOptions} (ho : o.maxDepth = none) {input : List Char}
    {e : Expr} (h : Grammar.Reads o.grammar (.chain .sum) (Grammar.dropSpaces input) e) :
    ∃ e', parse o input = .ok e' := by
  obtain ⟨e', he'⟩ := Grammar.exists_readWhole_of_reads ho h
  exact ⟨e', Grammar.Reading.result_eq_ok_iff.mpr he'⟩

end CurveCalc
