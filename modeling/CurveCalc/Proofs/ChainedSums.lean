import CurveCalc.Proofs.Operands

/-!
# Chained sums

The legacy grammar reads a product on the left of the operator of a sum and a power on the right of
it. If there are no operators but those of sums outside all parentheses, nothing at these levels can
hold one of them: a product would have to be cut at an operator of a product first, and there is
none. So the row of a legacy tree that has only sums in it has one operator at most
(`Reads.row_of_sums`), and operands that are chained by more of them are read by no level, in
parentheses or not. The canonical grammar takes the chain from the left, one operand after the other
(`Reads.exists_joined`).
-/

namespace CurveCalc

namespace Grammar

/-! ## Texts joined by operators -/

/-- A first operand, and behind it each operator with its right operand. -/
def joined (first : List Char) (rest : List (BinaryOp × List Char)) : List Char :=
  first ++ rest.flatMap fun p ↦ p.1.symbol :: p.2

/-- What the base level of the legacy grammar reads a text as. -/
def operand? (text : List Char) : Option Expr :=
  (readAt ⟨.legacy, none⟩ .base 0 (dropSpaces text)).tree?

theorem exists_canonical_of_operand? {text : List Char} (h : (operand? text).isSome) :
    ∃ e, Reads .canonical .base (dropSpaces text) e := by
  obtain ⟨a, ha⟩ := Option.isSome_iff_exists.mp h
  obtain ⟨e, he, -⟩ := (reads_of_readAt ha).exists_canonical
  exact ⟨e, he⟩

theorem joined_cons (first text : List Char) (op : BinaryOp) (rest : List (BinaryOp × List Char)) :
    joined first ((op, text) :: rest) = joined (first ++ op.symbol :: text) rest := by
  simp [joined]

theorem dropSpaces_joined (first : List Char) (rest : List (BinaryOp × List Char)) :
    dropSpaces (joined first rest) =
      joined (dropSpaces first) (rest.map fun p ↦ (p.1, dropSpaces p.2)) := by
  induction rest generalizing first with
  | nil => simp [joined]
  | cons p rest ih =>
    rw [joined_cons, ih, dropSpaces_append, dropSpaces_symbol, List.map_cons, joined_cons]

variable {g : Grammar} {level : Level} {first text : List Char}
  {rest : List (BinaryOp × List Char)} {a e : Expr}

theorem Reads.exists_joined (ha : Reads .canonical (.chain .sum) first a)
    (hrest : ∀ p ∈ rest, p.1.chain = .sum ∧ ∃ b, Reads .canonical .base p.2 b) :
    ∃ e, Reads .canonical (.chain .sum) (joined first rest) e := by
  -- the operand in front takes in one after the other
  induction rest generalizing first a with
  | nil => exact ⟨a, by rwa [joined, List.flatMap_nil, List.append_nil]⟩
  | cons p rest ih =>
    obtain ⟨op, text⟩ := p
    obtain ⟨⟨hsum, b, hb⟩, hrest⟩ := List.forall_mem_cons.mp hrest
    have hop : op ∈ Chain.sum.operators := hsum ▸ op.mem_operators_chain
    rw [joined_cons]
    exact ih (.split hop ha (hb.climb _ (by decide))) hrest

/-! ## Rows of chained operands -/

theorem Reads.row_primary (h : Reads g .primary text e) : e.row = [] := by
  cases h <;> rfl

theorem Reads.row_base (h : Reads g .base text e) : e.row = [] := by
  cases h with
  | base h => exact h.row_primary
  | log h => exact h.row_primary

theorem Tally.row_run_rest {k : Tally} (hk : k.ended = true)
    (hrest : ∀ p ∈ rest, ∃ b, Reads g .base p.2 b) :
    (k.run (rest.flatMap fun p ↦ p.1.symbol :: p.2)).row = k.row ++ rest.map Prod.fst := by
  induction rest generalizing k with
  | nil => simp
  | cons p rest ih =>
    obtain ⟨⟨b, hb⟩, hrest⟩ := List.forall_mem_cons.mp hrest
    rw [List.flatMap_cons, List.cons_append, Tally.run_cons, Tally.step_symbol hk,
      Tally.run_append, hb.run_tally rfl, ih rfl hrest, hb.row_base]
    simp

/-- **A tree of joined operands holds together by the operators between them**, in whatever
grammar it is read. -/
theorem Reads.row_joined {g' : Grammar} (h : Reads g level (joined first rest) e)
    (hfirst : Reads g' .base first a) (hrest : ∀ p ∈ rest, ∃ b, Reads g' .base p.2 b) :
    e.row = rest.map Prod.fst := by
  have hrows := h.operatorRows_eq
  rw [operatorRows, List.cons.injEq, joined, Tally.run_append, hfirst.run_tally rfl,
    Tally.row_run_rest rfl hrest, hfirst.row_base] at hrows
  exact hrows.1.symm

/-! ## Rows of legacy sums -/

/-- Below the sums of the legacy grammar, a row without products and powers is empty; a sum joins
two such rows. -/
theorem Reads.row_of_sums (h : Reads .legacy level text e)
    (hsums : ∀ op ∈ e.row, op.chain = .sum) :
    e.row.length ≤ 1 ∧ (level ≠ .chain .sum → e.row = []) := by
  induction h with
  | @split c op left right a b hop _ _ iha ihb =>
    obtain ⟨hsumsa, hsum, hsumsb⟩ : (∀ op ∈ a.row, op.chain = .sum) ∧ op.chain = .sum ∧
        ∀ op ∈ b.row, op.chain = .sum := by
      rwa [Expr.row, List.forall_mem_append, List.forall_mem_cons] at hsums
    obtain rfl : c = .sum := (BinaryOp.chain_eq_of_mem hop).symm.trans hsum
    rw [Expr.row, (iha hsumsa).2 (by decide), (ihb hsumsb).2 (by decide)]
    exact ⟨Nat.le_refl 1, fun hlevel ↦ absurd rfl hlevel⟩
  | @fall c _ _ _ ih =>
    have hbelow : c.below ≠ .chain .sum := by cases c <;> decide
    rw [(ih hsums).2 hbelow]
    exact ⟨Nat.zero_le 1, fun _ ↦ rfl⟩
  | base _ ih =>
    rw [(ih hsums).2 (by decide)]
    exact ⟨Nat.zero_le 1, fun _ ↦ rfl⟩
  | log h =>
    rw [Expr.row, h.row_primary]
    exact ⟨Nat.zero_le 1, fun _ ↦ rfl⟩
  | paren | literal | var => exact ⟨Nat.zero_le 1, fun _ ↦ rfl⟩

/-- No legacy level reads operands that are chained by two operators of sums or more. -/
theorem not_reads_joined_sums {g' : Grammar} (hfirst : Reads g' .base first a)
    (hrest : ∀ p ∈ rest, p.1.chain = .sum ∧ ∃ b, Reads g' .base p.2 b)
    (htwo : 2 ≤ rest.length) : ¬Reads .legacy level (joined first rest) e := by
  intro h
  have hrow := h.row_joined hfirst fun p hp ↦ (hrest p hp).2
  have hsums : ∀ op ∈ e.row, op.chain = .sum := by
    rw [hrow, List.forall_mem_map]
    exact fun p hp ↦ (hrest p hp).1
  have hlength := (h.row_of_sums hsums).1
  rw [hrow, List.length_map] at hlength
  omega

/-! ## Parentheses around a text -/

theorem dropSpaces_iterate_enclosed (k : Nat) (text : List Char) :
    dropSpaces (Expr.enclosed^[k] text) = Expr.enclosed^[k] (dropSpaces text) :=
  (Function.Semiconj.iterate_right dropSpaces_enclosed k) text

theorem Reads.iterate_enclosed (h : Reads g (.chain .sum) text e) (k : Nat) :
    Reads g (.chain .sum) (Expr.enclosed^[k] text) (Expr.paren^[k] e) := by
  induction k with
  | zero => exact h
  | succ k ih =>
    rw [Function.iterate_succ_apply', Function.iterate_succ_apply']
    exact .of_primary (.paren ih)

theorem readAt_iterate_enclosed {o : ReadOptions} (ho : o.maxDepth = none)
    (h : Reads g (.chain .sum) text e) (k : Nat) :
    (readAt o (.chain .sum) 0 (Expr.enclosed^[k] text)).tree? =
      (readAt o (.chain .sum) 0 text).tree?.map Expr.paren^[k] := by
  induction k with
  | zero => exact Option.map_id.symm ▸ rfl
  | succ k ih =>
    rw [Function.iterate_succ_apply', readAt_enclosed ho (h.iterate_enclosed k) _ 0 0, ih,
      Option.map_map, Function.iterate_succ']

end Grammar

open Grammar

variable {first : List Char} {rest : List (BinaryOp × List Char)}

/-- **Sums cannot be chained in the legacy grammar**: two operands or more behind the first are
refused, in any number of parentheses. One is accepted, as the sum or difference of the two trees,
and the canonical grammar accepts any number. -/
theorem parse_joined_sums (hfirst : (operand? first).isSome)
    (hrest : ∀ p ∈ rest, p.1.chain = .sum ∧ (operand? p.2).isSome) :
    (2 ≤ rest.length → ∀ k, ∃ error,
        parse ⟨.legacy, none⟩ (Expr.enclosed^[k] (joined first rest)) = .error error) ∧
      (∀ op second a b, rest = [(op, second)] → operand? first = some a →
        operand? second = some b →
        parse ⟨.legacy, none⟩ (joined first rest) = .ok (.binary op a b)) ∧
      ∃ e, parse ⟨.canonical, none⟩ (joined first rest) = .ok e := by
  obtain ⟨a, hcanonical⟩ := exists_canonical_of_operand? hfirst
  have hspaced : ∀ p ∈ rest.map (fun p ↦ (p.1, dropSpaces p.2)),
      p.1.chain = .sum ∧ ∃ b, Reads .canonical .base p.2 b := by
    rw [List.forall_mem_map]
    intro p hp
    obtain ⟨hsum, hoperand⟩ := hrest p hp
    exact ⟨hsum, exists_canonical_of_operand? hoperand⟩
  obtain ⟨e, he⟩ := (hcanonical.climb (.chain .sum) (by decide)).exists_joined hspaced
  refine ⟨fun htwo k ↦ ?_, ?_, ?_⟩
  · cases hparse : parse ⟨.legacy, none⟩ (Expr.enclosed^[k] (joined first rest)) with
    | error error => exact ⟨error, rfl⟩
    | ok e' =>
      rw [parse_eq_ok_iff_readAt rfl, dropSpaces_iterate_enclosed, dropSpaces_joined,
        readAt_iterate_enclosed rfl he, Option.map_eq_some_iff] at hparse
      obtain ⟨e'', hread, -⟩ := hparse
      refine absurd (reads_of_readAt hread) (not_reads_joined_sums hcanonical hspaced ?_)
      rwa [List.length_map]
  · rintro op second a b rfl ha hb
    rw [parse_eq_ok_iff_readAt rfl, dropSpaces_joined, List.map_singleton, joined,
      List.flatMap_singleton]
    exact readAt_joined rfl ha hb op _ (Level.height_le _) 0
  · exact exists_parse_of_reads rfl (by rwa [dropSpaces_joined])

/-- A signed literal, a product in parentheses and a logarithm cannot be chained; the first two of
them can be joined. -/
theorem parse_joined_sums_signed :
    (∀ k, ∃ error,
        parse ⟨.legacy, none⟩ (Expr.enclosed^[k] "-1-(x*x)+log x".toList) = .error error) ∧
      (∃ e, parse ⟨.canonical, none⟩ "-1-(x*x)+log x".toList = .ok e) ∧
      parse ⟨.legacy, none⟩ "-1-(x*x)".toList =
        .ok (.binary .sub (.literal (Literal.value ⟨true, .decimal ['1'] [] 0⟩))
          (.paren (.binary .mul .var .var))) := by
  have hfirst : operand? "-1".toList =
      some (.literal (Literal.value ⟨true, .decimal ['1'] [] 0⟩)) := by
    decide +kernel
  have hsecond : operand? "(x*x)".toList = some (.paren (.binary .mul .var .var)) := by
    decide +kernel
  obtain ⟨hrefused, -, hcanonical⟩ := @parse_joined_sums "-1".toList
    [(.sub, "(x*x)".toList), (.add, "log x".toList)] (by rw [hfirst]; rfl) (by decide +kernel)
  obtain ⟨-, hjoined, -⟩ := @parse_joined_sums "-1".toList [(.sub, "(x*x)".toList)]
    (by rw [hfirst]; rfl) (by decide +kernel)
  exact ⟨hrefused (Nat.le_refl 2), hcanonical, hjoined .sub _ _ _ rfl hfirst hsecond⟩

end CurveCalc
