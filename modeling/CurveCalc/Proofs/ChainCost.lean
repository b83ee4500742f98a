import CurveCalc.Proofs.ChainedSums
import CurveCalc.Proofs.NumberText
import CurveCalc.Record

/-!
# The cost of a chain

A sum or product of simple operands is read by trying its cuts from left to right. At each cut but
the last, the left side is a chain that is read, with all the cuts that this takes, and the right
side is a chain that the level below cannot read. So the cut fails, and the next one reads the same
left side once more as part of its own. The cuts tried on a chain are therefore those between its
operands, each followed by the cuts tried on its left side (`attemptsAt_chained`), and one operand
more doubles them (`length_attemptsAt_concat`).

The right sides cost nothing: the levels below a chain have no operator to cut them at
(`readAt_of_no_operator`).
-/

namespace CurveCalc

theorem readLiteral?_of_isDigits {text : List Char} (h : Numeral.IsDigits text) :
    readLiteral? text = some (Decimal.toFloat ⟨Nat.ofDigitChars 10 text 0, 0⟩) := by
  have hfigure : ∀ c ∈ text, NumberStyle.IsFigure c := fun c hc ↦ Or.inl (h.2 c hc)
  have hread := Numeral.read?_of_decimal? hfigure (Numeral.decimal?_whole h)
  have hbare := Literal.dropPadding_of_forall fun c hc ↦
    NumberStyle.isPadding_of_isFigure (hfigure c hc)
  rw [readLiteral?, Literal.read?, hbare, show text = NumberStyle.signed false text from rfl,
    Literal.readBare?_signed false hread, Option.map_some, Literal.value]
  simp only [Numeral.magnitude?, Numeral.decimalMagnitude, List.append_nil]
  rfl

namespace Grammar

/-! ## Simple operands -/

/-- An operand without any operator in it: the variable, or a number in decimal digits. -/
inductive SimpleOperand where
  | var
  | number (digits : List Char) (isDigits : Numeral.IsDigits digits)

namespace SimpleOperand

def text : SimpleOperand → List Char
  | .var => ['x']
  | .number digits _ => digits

/-- The tree of an operand; a number is rounded to the nearest double. -/
def tree : SimpleOperand → Expr
  | .var => .var
  | .number digits _ => .literal (Decimal.toFloat ⟨Nat.ofDigitChars 10 digits 0, 0⟩)

theorem leaf?_text (a : SimpleOperand) : leaf? a.text = some a.tree := by
  cases a with
  | var => rfl
  | number digits h => simp only [leaf?, text, readLiteral?_of_isDigits h, tree]

theorem reads_text (g : Grammar) (a : SimpleOperand) : Reads g .primary a.text a.tree :=
  (reads_of_leaf? a.leaf?_text).1

theorem reads_level (a : SimpleOperand) (c : Chain) : Reads .canonical (.chain c) a.text a.tree :=
  (a.reads_text .canonical).climb _ (Nat.zero_le _)

theorem forall_mem_text (a : SimpleOperand) : ∀ c ∈ a.text, c.isDigit = true ∨ c = 'x' := by
  cases a with
  | var => exact List.forall_mem_singleton.mpr (Or.inr rfl)
  | number digits h => exact fun c hc ↦ Or.inl (h.2 c hc)

theorem symbol_notMem_text (a : SimpleOperand) (op : BinaryOp) : op.symbol ∉ a.text := by
  intro h
  have hsymbol := a.forall_mem_text _ h
  cases op <;> exact absurd hsymbol (by decide)

theorem exists_head (a : SimpleOperand) :
    ∃ c text, a.text = c :: text ∧ (c.isDigit = true ∨ c = 'x') := by
  have hne : a.text ≠ [] := by
    cases a with
    | var => exact List.cons_ne_nil _ _
    | number digits h => exact h.1
  obtain ⟨c, text, htext⟩ := List.exists_cons_of_ne_nil hne
  exact ⟨c, text, htext, a.forall_mem_text c (htext ▸ List.mem_cons_self)⟩

end SimpleOperand

/-! ## Chains of simple operands -/

def chained (left : List Char) (rest : List (BinaryOp × SimpleOperand)) : List Char :=
  joined left (rest.map fun p ↦ (p.1, p.2.text))

/-- The cuts of a chain at the operators of `rest`, from left to right. -/
def cuts (left : List Char) : List (BinaryOp × SimpleOperand) → List Split
  | [] => []
  | (op, b) :: rest =>
    ⟨left, op, chained b.text rest⟩ :: cuts (left ++ op.symbol :: b.text) rest

variable {c : Chain} {op : BinaryOp} {left right text : List Char} {a b : SimpleOperand}
  {rest : List (BinaryOp × SimpleOperand)} {e : Expr}

@[simp] theorem chained_nil (left : List Char) : chained left [] = left := by
  simp [chained, joined]

theorem chained_cons (left : List Char) (op : BinaryOp) (b : SimpleOperand)
    (rest : List (BinaryOp × SimpleOperand)) :
    chained left ((op, b) :: rest) = chained (left ++ op.symbol :: b.text) rest :=
  joined_cons _ _ _ _

theorem chained_cons_eq_append (left : List Char) (op : BinaryOp) (b : SimpleOperand)
    (rest : List (BinaryOp × SimpleOperand)) :
    chained left ((op, b) :: rest) = left ++ op.symbol :: chained b.text rest := by
  simp [chained, joined]

theorem mem_chained_iff {c : Char} :
    c ∈ chained left rest ↔ c ∈ left ∨ ∃ p ∈ rest, c = p.1.symbol ∨ c ∈ p.2.text := by
  simp [chained, joined]

theorem exists_mem_of_symbol_mem (h : op.symbol ∈ chained a.text rest) : ∃ p ∈ rest, p.1 = op := by
  rcases mem_chained_iff.mp h with h | ⟨p, hp, h | h⟩
  · exact absurd h (a.symbol_notMem_text op)
  · exact ⟨p, hp, (BinaryOp.symbol_injective h).symm⟩
  · exact absurd h (p.2.symbol_notMem_text op)

theorem space_notMem_chained (a : SimpleOperand) (rest : List (BinaryOp × SimpleOperand)) :
    ' ' ∉ chained a.text rest := by
  have hoperand : ∀ a : SimpleOperand, ' ' ∉ a.text := fun a h ↦
    absurd (a.forall_mem_text _ h) (by decide)
  rw [mem_chained_iff]
  rintro (h | ⟨p, -, h | h⟩)
  · exact hoperand a h
  · exact absurd h (by cases p.1 <;> decide)
  · exact hoperand p.2 h

/-! ### Its cuts -/

theorem splitsFrom_append {ops : List BinaryOp} (h : ∀ op ∈ ops, op.symbol ∉ left)
    (before right : List Char) :
    splitsFrom ops before (left ++ right) = splitsFrom ops (left.reverse ++ before) right := by
  induction left generalizing before with
  | nil => rfl
  | cons c left ih =>
    have hrest := ih (fun op hop hmem ↦ h op hop (List.mem_cons_of_mem _ hmem)) (c :: before)
    rw [List.reverse_cons, List.append_assoc, List.singleton_append, ← hrest, List.cons_append,
      splitsFrom]
    split
    · next op hop =>
      split
      · next hmem =>
        exact absurd (BinaryOp.eq_symbol_of_ofChar? hop ▸ List.mem_cons_self) (h op hmem)
      · rfl
    · rfl

theorem splitsFrom_symbol {ops : List BinaryOp} (hop : op ∈ ops) (before right : List Char) :
    splitsFrom ops before (op.symbol :: right) =
      ⟨before.reverse, op, right⟩ :: splitsFrom ops (op.symbol :: before) right := by
  rw [splitsFrom, BinaryOp.ofChar?_symbol]
  exact if_pos hop

theorem splitsFrom_chained {ops : List BinaryOp} (hops : ∀ p ∈ rest, p.1 ∈ ops)
    (before : List Char) (a : SimpleOperand) :
    splitsFrom ops before (chained a.text rest) = cuts (before.reverse ++ a.text) rest := by
  have hquiet : ∀ a : SimpleOperand, ∀ op ∈ ops, op.symbol ∉ a.text :=
    fun a op _ ↦ a.symbol_notMem_text op
  induction rest generalizing before a with
  | nil =>
    rw [chained_nil, ← List.append_nil a.text, splitsFrom_append (hquiet a)]
    rfl
  | cons p rest ih =>
    obtain ⟨op, b⟩ := p
    obtain ⟨hop, hrest⟩ := List.forall_mem_cons.mp hops
    rw [chained_cons_eq_append, splitsFrom_append (hquiet a), splitsFrom_symbol hop, ih hrest, cuts]
    simp

theorem splits_chained {ops : List BinaryOp} (hops : ∀ p ∈ rest, p.1 ∈ ops) (a : SimpleOperand) :
    splits ops (chained a.text rest) = cuts a.text rest :=
  splitsFrom_chained hops [] a

theorem splits_eq_nil {ops : List BinaryOp} (h : ∀ op ∈ ops, op.symbol ∉ text) :
    splits ops text = [] := by
  rw [splits, ← List.append_nil text, splitsFrom_append h]
  rfl

/-! ## Levels without an operator -/

section Quiet

variable {o : ReadOptions}

theorem readAt_chain_of_no_cut (ho : o.maxDepth = none) (h : splits c.operators text = [])
    (depth : Nat) : readAt o (.chain c) depth text = readAt o c.below (depth + 1) text := by
  rw [readAt_chain (permits_of_unlimited ho depth), h]
  rfl

theorem readAt_base_of_bare (ho : o.maxDepth = none) (hinside : inside? text = none)
    (hlog : afterLog? text = none) (depth : Nat) :
    readAt o .base depth text = .ofOption (leaf? text) := by
  rw [readAt_base (permits_of_unlimited ho depth), readAt_primary (permits_of_unlimited ho _),
    hinside, hlog]
  cases leaf? text <;> rfl

/-- **Without an operator, nothing is tried**: a text that has none of those of a level and the
levels below is read as a leaf there, or not at all. -/
theorem readAt_of_no_operator (ho : o.maxDepth = none) (hinside : inside? text = none)
    (hlog : afterLog? text = none) (level : Level) (hbase : Level.base.height ≤ level.height)
    (hquiet : ∀ op ∈ looseOperators .canonical level, op.symbol ∉ text) (depth : Nat) :
    readAt o level depth text = .ofOption (leaf? text) := by
  match level with
  | .chain c =>
    have hbelow : Level.base.height ≤ c.below.height := by cases c <;> decide
    rw [readAt_chain_of_no_cut ho
      (splits_eq_nil fun op hop ↦ hquiet op (operators_subset_loose .canonical c hop))]
    exact readAt_of_no_operator ho hinside hlog c.below hbelow
      (fun op hop ↦ hquiet op (loose_below_subset .canonical c hop)) _
  | .base => exact readAt_base_of_bare ho hinside hlog depth
  | .primary => exact absurd hbase (by decide)
termination_by level.height
decreasing_by exact c.height_below

end Quiet

theorem chained_bare (a : SimpleOperand) (rest : List (BinaryOp × SimpleOperand)) :
    inside? (chained a.text rest) = none ∧ afterLog? (chained a.text rest) = none := by
  obtain ⟨c, text, htext, hc⟩ := a.exists_head
  rw [htext, chained, joined, List.cons_append, inside?.eq_def, afterLog?.eq_def]
  constructor
  · split
    · next heq =>
      obtain ⟨rfl, -⟩ := List.cons.inj heq
      exact absurd hc (by decide)
    · rfl
  · split
    · next heq =>
      obtain ⟨rfl, -⟩ := List.cons.inj heq
      exact absurd hc (by decide)
    · rfl

theorem leaf?_chained (a : SimpleOperand) (p : BinaryOp × SimpleOperand)
    (rest : List (BinaryOp × SimpleOperand)) : leaf? (chained a.text (p :: rest)) = none := by
  rw [Option.eq_none_iff_forall_ne_some]
  intro e he
  have hread := (reads_of_leaf? (g := .canonical) he).1
  rw [chained_cons_eq_append] at hread
  exact absurd (hread.mem_loose (a.reads_text .canonical).run_eq) (by simp [looseOperators])

/-- The level below a chain tries nothing on its operands or on a chain of them. -/
theorem readAt_below_chained (hops : ∀ p ∈ rest, p.1 ∈ c.operators) (depth : Nat)
    (a : SimpleOperand) :
    readAt ⟨.canonical, none⟩ c.below depth (chained a.text rest) =
      .ofOption (leaf? (chained a.text rest)) := by
  obtain ⟨hinside, hlog⟩ := chained_bare a rest
  refine readAt_of_no_operator rfl hinside hlog c.below (by cases c <;> decide)
    (fun op hop hmem ↦ ?_) depth
  obtain ⟨p, hp, rfl⟩ := exists_mem_of_symbol_mem hmem
  exact not_mem_loose_below (hops p hp) hop

/-! ## The cuts that are tried -/

/-- The cuts that the canonical grammar tries when a chain level reads a text, in order. -/
def attemptsAt (c : Chain) (text : List Char) : List Split :=
  (readAt ⟨.canonical, none⟩ (.chain c) 0 text).tried.toList

namespace Reading

theorem toList_tried_orElse {r : Reading} {next : Unit → Reading}
    (h : r.tree? = none ∨ (next ()).tried.toList = []) :
    (r.orElse next).tried.toList = r.tried.toList ++ (next ()).tried.toList := by
  rw [orElse]
  cases hr : r.tree? with
  | none => exact Trail.toList_append _ _
  | some e =>
    rcases h with h | h
    · exact absurd (h.symm.trans hr) (by simp)
    · rw [h, List.append_nil]

theorem toList_tried_ofSplit {s : Split} {left : Reading} {right : Unit → Reading}
    (h : left.tree? = some e) :
    (ofSplit s left right).tried.toList =
      s :: (left.tried.toList ++ (right ()).tried.toList) := by
  simp [ofSplit, h]

end Reading

/-- The tree of a chain that is grouped to the left. -/
def chainTree (e : Expr) (rest : List (BinaryOp × SimpleOperand)) : Expr :=
  rest.foldl (fun e p ↦ .binary p.1 e p.2.tree) e

/-- In the canonical grammar sums and products group to the left. -/
theorem operandLevels_of_ne_power (hc : c ≠ .power) :
    Grammar.canonical.operandLevels c = (.chain c, c.below) := by
  cases c with
  | sum | product => rfl
  | power => exact absurd rfl hc

theorem Reads.append_chain (hc : c ≠ .power) (h : Reads .canonical (.chain c) left e)
    (hops : ∀ p ∈ rest, p.1 ∈ c.operators) :
    Reads .canonical (.chain c) (chained left rest) (chainTree e rest) := by
  induction rest generalizing left e with
  | nil => rwa [chained_nil]
  | cons p rest ih =>
    obtain ⟨op, b⟩ := p
    obtain ⟨hop, hrest⟩ := List.forall_mem_cons.mp hops
    rw [chained_cons]
    refine ih (.split hop ?_ ?_) hrest
    · rwa [operandLevels_of_ne_power hc]
    · rw [operandLevels_of_ne_power hc]
      exact (b.reads_text _).climb _ (Nat.zero_le _)

theorem cutReading_eq_ofSplit (hc : c ≠ .power) (depth : Nat) (s : Split) :
    cutReading ⟨.canonical, none⟩ c depth s =
      Reading.ofSplit s (readAt ⟨.canonical, none⟩ (.chain c) 0 s.left) fun _ ↦
        readAt ⟨.canonical, none⟩ c.below 0 s.right := by
  simp only [cutReading, Entry.reading, leftEntry, rightEntry, operandLevels_of_ne_power hc]
  rw [readAt_eq_of_unlimited rfl (depth + 1) 0]
  congr 1
  exact funext fun _ ↦ readAt_eq_of_unlimited rfl _ _

/-- A cut behind a text that is read: its left side is read again, and its right side is not read
unless it is the last operand. -/
theorem attempts_of_cut (hc : c ≠ .power) (h : Reads .canonical (.chain c) left e)
    (hops : ∀ p ∈ rest, p.1 ∈ c.operators) (op : BinaryOp) (b : SimpleOperand) (depth : Nat) :
    (cutReading ⟨.canonical, none⟩ c depth ⟨left, op, chained b.text rest⟩).tried.toList =
        ⟨left, op, chained b.text rest⟩ :: attemptsAt c left ∧
      (rest ≠ [] →
        (cutReading ⟨.canonical, none⟩ c depth ⟨left, op, chained b.text rest⟩).tree? = none) := by
  obtain ⟨e', hleft⟩ :=
    exists_readAt_of_reads (o := ⟨.canonical, none⟩) h (permits_of_unlimited rfl (0 + _))
  rw [cutReading_eq_ofSplit hc, Reading.toList_tried_ofSplit hleft, Reading.tree?_ofSplit, hleft]
  simp only [readAt_below_chained hops]
  refine ⟨by rw [Reading.ofOption, Trail.toList_none, List.append_nil, attemptsAt], fun hne ↦ ?_⟩
  obtain ⟨p, rest, rfl⟩ := List.exists_cons_of_ne_nil hne
  rw [leaf?_chained]
  rfl

/-- The search tries all cuts of a chain, as all but the last fail. -/
theorem toList_tried_first_cuts (hc : c ≠ .power) (h : Reads .canonical (.chain c) left e)
    (hops : ∀ p ∈ rest, p.1 ∈ c.operators) (depth : Nat) :
    (Reading.first (cutReading ⟨.canonical, none⟩ c depth) (cuts left rest)).tried.toList =
      (cuts left rest).flatMap fun s ↦ s :: attemptsAt c s.left := by
  -- on the operators still to come; the text before them takes in one operand at each cut
  induction rest generalizing left e with
  | nil => rfl
  | cons p rest ih =>
    obtain ⟨op, b⟩ := p
    obtain ⟨hop, hrest⟩ := List.forall_mem_cons.mp hops
    obtain ⟨htried, hfails⟩ := attempts_of_cut hc h hrest op b depth
    have hnext :
        Reads .canonical (.chain c) (left ++ op.symbol :: b.text) (.binary op e b.tree) := by
      have hread : Reads .canonical (.chain c) (chained left [(op, b)]) (chainTree e [(op, b)]) :=
        h.append_chain hc (List.forall_mem_singleton.mpr hop)
      rwa [chained_cons, chained_nil] at hread
    rw [cuts, Reading.first, Reading.toList_tried_orElse, htried, ih hnext hrest,
      List.flatMap_cons]
    cases rest with
    | nil => exact Or.inr rfl
    | cons q rest => exact Or.inl (hfails (List.cons_ne_nil q rest))

/-- **The cuts tried on a chain** are its own from left to right, each followed by those tried on
its left side. -/
theorem attemptsAt_chained (hc : c ≠ .power) (hops : ∀ p ∈ rest, p.1 ∈ c.operators)
    (a : SimpleOperand) :
    attemptsAt c (chained a.text rest) =
      (cuts a.text rest).flatMap fun s ↦ s :: attemptsAt c s.left := by
  have hbelow := readAt_below_chained hops (0 + 1) a
  have hchain : readAt ⟨.canonical, none⟩ (.chain c) 0 (chained a.text rest) =
      (Reading.first (cutReading ⟨.canonical, none⟩ c 0)
        (splits c.operators (chained a.text rest))).orElse fun _ ↦
          readAt ⟨.canonical, none⟩ c.below (0 + 1) (chained a.text rest) :=
    reading_chain (permits_of_unlimited rfl 0)
  rw [attemptsAt, hchain, splits_chained hops, hbelow,
    Reading.toList_tried_orElse (Or.inr rfl), toList_tried_first_cuts hc (a.reads_level c) hops]
  exact List.append_nil _

/-! ## Counting -/

theorem map_left_cuts_concat (left : List Char) (rest : List (BinaryOp × SimpleOperand))
    (p : BinaryOp × SimpleOperand) :
    (cuts left (rest ++ [p])).map Split.left =
      (cuts left rest).map Split.left ++ [chained left rest] := by
  induction rest generalizing left with
  | nil => rw [chained_nil]; rfl
  | cons q rest ih =>
    obtain ⟨op, b⟩ := q
    rw [List.cons_append, cuts, List.map_cons, ih, cuts, List.map_cons, chained_cons,
      List.cons_append]

theorem length_attemptsAt_chained (hc : c ≠ .power) (hops : ∀ p ∈ rest, p.1 ∈ c.operators)
    (a : SimpleOperand) :
    (attemptsAt c (chained a.text rest)).length =
      (((cuts a.text rest).map Split.left).map fun text ↦ (attemptsAt c text).length + 1).sum := by
  rw [attemptsAt_chained hc hops, List.length_flatMap, List.map_map]
  rfl

/-- **One operand more doubles the cuts**: those of the chain before it are all tried once more. -/
theorem length_attemptsAt_concat (hc : c ≠ .power) {p : BinaryOp × SimpleOperand}
    (hops : ∀ q ∈ rest ++ [p], q.1 ∈ c.operators) (a : SimpleOperand) :
    (attemptsAt c (chained a.text (rest ++ [p]))).length =
      2 * (attemptsAt c (chained a.text rest)).length + 1 := by
  have hrest : ∀ q ∈ rest, q.1 ∈ c.operators := fun q hq ↦ hops q (List.mem_append_left _ hq)
  rw [length_attemptsAt_chained hc hops, map_left_cuts_concat, List.map_append, List.sum_append,
    ← length_attemptsAt_chained hc hrest, List.map_singleton, List.sum_singleton]
  omega

/-- The count of the cuts tried, by induction on the operands from the last one down. -/
theorem length_attemptsAt (hc : c ≠ .power) (hops : ∀ p ∈ rest, p.1 ∈ c.operators)
    (a : SimpleOperand) :
    (attemptsAt c (chained a.text rest)).length = 2 ^ rest.length - 1 := by
  induction rest using List.reverseRecOn with
  | nil =>
    rw [length_attemptsAt_chained hc hops]
    rfl
  | append_singleton rest p ih =>
    have hpos : 0 < 2 ^ rest.length := Nat.two_pow_pos _
    rw [length_attemptsAt_concat hc hops, ih fun q hq ↦ hops q (List.mem_append_left _ hq),
      List.length_append, List.length_singleton, Nat.pow_succ]
    omega

/-! ## Whole texts -/

theorem exists_front_of_mem_cuts {s : Split} (h : s ∈ cuts left rest) :
    ∃ front, s.left = chained left front ∧ ∀ p ∈ front, p ∈ rest := by
  induction rest generalizing left with
  | nil => exact absurd h (by simp [cuts])
  | cons p rest ih =>
    obtain ⟨op, b⟩ := p
    rcases List.mem_cons.mp h with rfl | h
    · exact ⟨[], (chained_nil left).symm, by simp⟩
    · obtain ⟨front, hleft, hfront⟩ := ih h
      refine ⟨(op, b) :: front, by rw [hleft, chained_cons], ?_⟩
      exact List.forall_mem_cons.mpr
        ⟨List.mem_cons_self, fun p hp ↦ List.mem_cons_of_mem _ (hfront p hp)⟩

/-- A product has no cut of a sum, and so the sum level tries what the product level does. -/
theorem attemptsAt_sum_eq (hc : c ≠ .power) (hops : ∀ p ∈ rest, p.1 ∈ c.operators)
    (a : SimpleOperand) :
    attemptsAt .sum (chained a.text rest) = attemptsAt c (chained a.text rest) := by
  cases c with
  | sum => rfl
  | power => exact absurd rfl hc
  | product =>
    have hnil : splits Chain.sum.operators (chained a.text rest) = [] := by
      refine splits_eq_nil fun op hop hmem ↦ ?_
      obtain ⟨p, hp, rfl⟩ := exists_mem_of_symbol_mem hmem
      have hchain : Chain.sum = .product :=
        (BinaryOp.chain_eq_of_mem hop).symm.trans (BinaryOp.chain_eq_of_mem (hops p hp))
      exact absurd hchain (by decide)
    rw [attemptsAt, readAt_chain_of_no_cut rfl hnil, attemptsAt]
    exact congrArg (fun r : Reading ↦ r.tried.toList) (readAt_eq_of_unlimited rfl _ _)

theorem reads_chained (hc : c ≠ .power) (hops : ∀ p ∈ rest, p.1 ∈ c.operators)
    (a : SimpleOperand) :
    Reads .canonical (.chain .sum) (chained a.text rest) (chainTree a.tree rest) :=
  ((a.reads_level c).append_chain hc hops).climb _ (Level.height_le _)

end Grammar

open Grammar

variable {c : Chain} {rest : List (BinaryOp × SimpleOperand)}

/-- The records of cuts that a canonical parse without a limit leaves behind. -/
def attempts (text : List Char) : List Record :=
  (parseLogged ⟨.canonical, none⟩ text).records.filter fun r ↦ r.detail = .attempt

theorem attempts_eq (text : List Char) :
    attempts text =
      (readWhole ⟨.canonical, none⟩ (dropSpaces text)).tried.toList.map Record.tried := by
  have htried : ∀ tried : List Split,
      (tried.map Record.tried).filter (fun r ↦ r.detail = .attempt) = tried.map Record.tried := by
    intro tried
    rw [List.filter_eq_self, List.forall_mem_map]
    exact fun s _ ↦ decide_eq_true rfl
  rw [attempts, parseLogged, List.filter_append, htried, List.filter_cons_of_neg, List.filter_nil,
    List.append_nil]
  split <;> simp [Record.detail]

theorem attempts_chained (hc : c ≠ .power) (hops : ∀ p ∈ rest, p.1 ∈ c.operators)
    (a : SimpleOperand) :
    attempts (chained a.text rest) = (attemptsAt c (chained a.text rest)).map Record.tried := by
  obtain ⟨e, he⟩ := exists_readAt_of_reads (o := ⟨.canonical, none⟩) (reads_chained hc hops a)
    (permits_of_unlimited rfl (0 + _))
  rw [attempts_eq, dropSpaces_of_not_mem (space_notMem_chained a rest), ← attemptsAt_sum_eq hc hops,
    readWhole, Reading.orElse, he]
  rfl

/-- **The cost of a chain**: parsing `n` simple operands that are joined by `n - 1` operators of
sums, or of products, leaves `2 ^ (n - 1) - 1` records of cuts. They are those of the cuts of the
chain from left to right, each followed by all the records that parsing its left side alone leaves.
The result is the tree that is grouped to the left. -/
theorem attempts_of_chain (hc : c = .sum ∨ c = .product) (a : SimpleOperand)
    (hops : ∀ p ∈ rest, p.1 ∈ c.operators) :
    (attempts (chained a.text rest)).length = 2 ^ rest.length - 1 ∧
      attempts (chained a.text rest) =
        (splits c.operators (chained a.text rest)).flatMap
          (fun s ↦ Record.tried s :: attempts s.left) ∧
      (parseLogged ⟨.canonical, none⟩ (chained a.text rest)).value =
        .ok (rest.foldl (fun e p ↦ .binary p.1 e p.2.tree) a.tree) := by
  have hpower : c ≠ .power := by rcases hc with rfl | rfl <;> decide
  refine ⟨?_, ?_, ?_⟩
  · rw [attempts_chained hpower hops, List.length_map, length_attemptsAt hpower hops]
  · rw [attempts_chained hpower hops, attemptsAt_chained hpower hops, splits_chained hops,
      List.map_flatMap]
    refine List.flatMap_congr fun s hs ↦ ?_
    obtain ⟨front, hleft, hfront⟩ := exists_front_of_mem_cuts hs
    rw [hleft, attempts_chained hpower fun p hp ↦ hops p (hfront p hp), List.map_cons]
  · rw [value_parseLogged, parse_canonical_eq_ok_iff_reads,
      dropSpaces_of_not_mem (space_notMem_chained a rest)]
    exact reads_chained hpower hops a

/-- `x-10+x` is cut at its first operator, at its second, and in its left side at the first again.
-/
theorem attempts_of_chain_difference :
    (attempts "x-10+x".toList).length = 3 ∧
      (parseLogged ⟨.canonical, none⟩ "x-10+x".toList).value =
        .ok (.binary .add (.binary .sub .var (.literal (Decimal.toFloat ⟨10, 0⟩))) .var) := by
  have hten : Numeral.IsDigits ['1', '0'] := ⟨by decide, List.all_eq_true.mp (by decide)⟩
  have hops : ∀ p ∈ [(BinaryOp.sub, SimpleOperand.number ['1', '0'] hten), (.add, .var)],
      p.1 ∈ Chain.sum.operators :=
    List.forall_mem_cons.mpr ⟨List.mem_cons_of_mem _ List.mem_cons_self,
      List.forall_mem_singleton.mpr List.mem_cons_self⟩
  have htext : chained SimpleOperand.var.text
      [(.sub, .number ['1', '0'] hten), (.add, .var)] = "x-10+x".toList := rfl
  obtain ⟨hlength, -, hvalue⟩ := attempts_of_chain (Or.inl rfl) .var hops
  rw [htext] at hlength hvalue
  exact ⟨hlength, hvalue⟩

end CurveCalc
