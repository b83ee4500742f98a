import CurveCalc.Proofs.LooseOperators

/-!
# Derivations of the canonical grammar

The grammar as it is written down,

```text
A -> A+M | A-M | M
M -> M*E | M/E | E
E -> B^E | B
B -> P | log P
P -> (A) | L | x
```

with a derivation as a value: `Derivation level text` has one constructor for each line of the table
and each way to read it. `Derivation.tree` is the expression that a derivation builds. No text has
two derivations, so the reader, which stops at the first cut that works, cannot stop at a wrong one.
-/

namespace CurveCalc

namespace Grammar

/-- A derivation of a text from a level of the canonical grammar. -/
inductive Derivation : Level → List Char → Type
  /-- `A -> A+M | A-M` -/
  | sum {text : List Char} (left : List Char) (op : BinaryOp) (right : List Char)
    (hop : op = .add ∨ op = .sub) (htext : text = left ++ op.symbol :: right)
    (a : Derivation (.chain .sum) left) (m : Derivation (.chain .product) right) :
    Derivation (.chain .sum) text
  /-- `A -> M` -/
  | ofProduct {text : List Char} (m : Derivation (.chain .product) text) :
    Derivation (.chain .sum) text
  /-- `M -> M*E | M/E` -/
  | product {text : List Char} (left : List Char) (op : BinaryOp) (right : List Char)
    (hop : op = .mul ∨ op = .div) (htext : text = left ++ op.symbol :: right)
    (m : Derivation (.chain .product) left) (e : Derivation (.chain .power) right) :
    Derivation (.chain .product) text
  /-- `M -> E` -/
  | ofPower {text : List Char} (e : Derivation (.chain .power) text) :
    Derivation (.chain .product) text
  /-- `E -> B^E` -/
  | power {text : List Char} (left right : List Char) (htext : text = left ++ '^' :: right)
    (b : Derivation .base left) (e : Derivation (.chain .power) right) :
    Derivation (.chain .power) text
  /-- `E -> B` -/
  | ofBase {text : List Char} (b : Derivation .base text) : Derivation (.chain .power) text
  /-- `B -> P` -/
  | ofPrimary {text : List Char} (p : Derivation .primary text) : Derivation .base text
  /-- `B -> log P` -/
  | log {text : List Char} (arg : List Char) (htext : text = 'l' :: 'o' :: 'g' :: arg)
    (p : Derivation .primary arg) : Derivation .base text
  /-- `P -> (A)` -/
  | paren {text : List Char} (inner : List Char) (htext : text = '(' :: inner ++ [')'])
    (a : Derivation (.chain .sum) inner) : Derivation .primary text
  /-- `P -> L` -/
  | literal {text : List Char} (v : Float) (hv : readLiteral? text = some v) :
    Derivation .primary text
  /-- `P -> x` -/
  | var {text : List Char} (htext : text = ['x']) : Derivation .primary text

theorem Chain.mem_sum {op : BinaryOp} : op ∈ Chain.sum.operators ↔ op = .add ∨ op = .sub := by
  simp [Chain.operators]

theorem Chain.mem_product {op : BinaryOp} :
    op ∈ Chain.product.operators ↔ op = .mul ∨ op = .div := by
  simp [Chain.operators]

theorem Chain.mem_power {op : BinaryOp} : op ∈ Chain.power.operators ↔ op = .pow := by
  simp [Chain.operators]

namespace Derivation

variable {level : Level} {text : List Char}

/-- The expression that a derivation builds, a node for each rule that has one. -/
def tree {level : Level} {text : List Char} : Derivation level text → Expr
  | .sum _ op _ _ _ a m => .binary op a.tree m.tree
  | .ofProduct m => m.tree
  | .product _ op _ _ _ m e => .binary op m.tree e.tree
  | .ofPower e => e.tree
  | .power _ _ _ b e => .binary .pow b.tree e.tree
  | .ofBase b => b.tree
  | .ofPrimary p => p.tree
  | .log _ _ p => .log p.tree
  | .paren _ _ a => .paren a.tree
  | .literal v _ => .literal v
  | .var _ => .var

/-! ## Derivations and the reading relation -/

theorem reads (d : Derivation level text) : Reads .canonical level text d.tree := by
  induction d with
  | sum left op right hop htext a m iha ihm =>
    subst htext
    exact .split (Chain.mem_sum.mpr hop) iha ihm
  | ofProduct m ih => exact .fall (c := .sum) ih
  | product left op right hop htext m e ihm ihe =>
    subst htext
    exact .split (Chain.mem_product.mpr hop) ihm ihe
  | ofPower e ih => exact .fall (c := .product) ih
  | power left right htext b e ihb ihe =>
    subst htext
    exact .split (Chain.mem_power.mpr rfl) ihb ihe
  | ofBase b ih => exact .fall (c := .power) ih
  | ofPrimary p ih => exact .base ih
  | log arg htext p ih =>
    subst htext
    exact .log ih
  | paren inner htext a ih =>
    subst htext
    exact .paren ih
  | literal v hv => exact .literal hv
  | var htext =>
    subst htext
    exact .var

theorem exists_of_reads {e : Expr} (h : Reads .canonical level text e) :
    ∃ d : Derivation level text, d.tree = e := by
  induction h with
  | @split c op left right a b hop _ _ ihl ihr =>
    obtain ⟨dl, rfl⟩ := ihl
    obtain ⟨dr, rfl⟩ := ihr
    cases c with
    | sum => exact ⟨.sum left op right (Chain.mem_sum.mp hop) rfl dl dr, rfl⟩
    | product => exact ⟨.product left op right (Chain.mem_product.mp hop) rfl dl dr, rfl⟩
    | power =>
      obtain rfl := Chain.mem_power.mp hop
      exact ⟨.power left right rfl dl dr, rfl⟩
  | @fall c text e _ ih =>
    obtain ⟨d, rfl⟩ := ih
    cases c with
    | sum => exact ⟨.ofProduct d, rfl⟩
    | product => exact ⟨.ofPower d, rfl⟩
    | power => exact ⟨.ofBase d, rfl⟩
  | base _ ih =>
    obtain ⟨d, rfl⟩ := ih
    exact ⟨.ofPrimary d, rfl⟩
  | log _ ih =>
    obtain ⟨d, rfl⟩ := ih
    exact ⟨.log _ rfl d, rfl⟩
  | paren _ ih =>
    obtain ⟨d, rfl⟩ := ih
    exact ⟨.paren _ rfl d, rfl⟩
  | @literal text v hv => exact ⟨.literal v hv, rfl⟩
  | var => exact ⟨.var rfl, rfl⟩

/-! ## No text has two -/

theorem not_reads_below {c : Chain} {op : BinaryOp} {left right : List Char} {a e : Expr}
    (hop : op ∈ c.operators) (hl : Reads .canonical (Grammar.canonical.operandLevels c).1 left a)
    (htext : text = left ++ op.symbol :: right) : ¬Reads .canonical c.below text e := by
  subst htext
  exact fun h ↦ not_mem_loose_below hop (h.mem_loose hl.run_eq)

private theorem not_head_of_literal {c : Char} {rest : List Char} {v : Float}
    (h : readLiteral? (c :: rest) = some v) (hc : Literal.isPadding c = false ∧
      Diagnosis.followsSign c = false ∧ c ≠ '+' ∧ c ≠ '-') : False :=
  (Literal.isLiteralText_of_readLiteral? h).head_ne hc rfl

theorem not_reads_primary {g : Grammar} {arg : List Char} {e : Expr}
    (htext : text = 'l' :: 'o' :: 'g' :: arg) : ¬Reads g .primary text e := by
  intro h
  cases h with
  | paren => exact absurd htext (by simp)
  | literal hv =>
    subst htext
    exact not_head_of_literal hv (by decide)
  | var => exact absurd htext (by simp)

/-- **The canonical grammar is unambiguous.** -/
theorem eq_of_text (d d' : Derivation level text) : d = d' := by
  -- two cuts of a text are one, and a text with a cut is not read one level down
  induction d with
  | sum left op right hop htext a m iha ihm =>
    have hmem := Chain.mem_sum.mpr hop
    cases d' with
    | sum left' op' right' hop' htext' a' m' =>
      have hmem' := Chain.mem_sum.mpr hop'
      obtain ⟨rfl, rfl, rfl⟩ := cut_unique hmem hmem' a.reads m.reads a'.reads m'.reads
        (htext.symm.trans htext')
      rw [iha a', ihm m']
    | ofProduct m' => exact absurd m'.reads (not_reads_below hmem a.reads htext)
  | ofProduct m ihm =>
    cases d' with
    | sum left' op' right' hop' htext' a' m' =>
      have hmem' := Chain.mem_sum.mpr hop'
      exact absurd m.reads (not_reads_below hmem' a'.reads htext')
    | ofProduct m' => rw [ihm m']
  | product left op right hop htext m e ihm ihe =>
    have hmem := Chain.mem_product.mpr hop
    cases d' with
    | product left' op' right' hop' htext' m' e' =>
      have hmem' := Chain.mem_product.mpr hop'
      obtain ⟨rfl, rfl, rfl⟩ := cut_unique hmem hmem' m.reads e.reads m'.reads e'.reads
        (htext.symm.trans htext')
      rw [ihm m', ihe e']
    | ofPower e' => exact absurd e'.reads (not_reads_below hmem m.reads htext)
  | ofPower e ihe =>
    cases d' with
    | product left' op' right' hop' htext' m' e' =>
      have hmem' := Chain.mem_product.mpr hop'
      exact absurd e.reads (not_reads_below hmem' m'.reads htext')
    | ofPower e' => rw [ihe e']
  | power left right htext b e ihb ihe =>
    have hmem := Chain.mem_power.mpr rfl
    cases d' with
    | power left' right' htext' b' e' =>
      obtain ⟨rfl, -, rfl⟩ := cut_unique hmem hmem b.reads e.reads b'.reads e'.reads
        (htext.symm.trans htext')
      rw [ihb b', ihe e']
    | ofBase b' => exact absurd b'.reads (not_reads_below hmem b.reads htext)
  | ofBase b ihb =>
    cases d' with
    | power left' right' htext' b' e' =>
      have hmem' := Chain.mem_power.mpr rfl
      exact absurd b.reads (not_reads_below hmem' b'.reads htext')
    | ofBase b' => rw [ihb b']
  | ofPrimary p ihp =>
    cases d' with
    | ofPrimary p' => rw [ihp p']
    | log arg' htext' p' => exact absurd p.reads (not_reads_primary htext')
  | log arg htext p ihp =>
    cases d' with
    | ofPrimary p' => exact absurd p'.reads (not_reads_primary htext)
    | log arg' htext' p' =>
      obtain ⟨-, htail⟩ := List.cons.inj (htext.symm.trans htext')
      obtain ⟨-, htail⟩ := List.cons.inj htail
      obtain ⟨-, rfl⟩ := List.cons.inj htail
      rw [ihp p']
  | paren inner htext a iha =>
    cases d' with
    | paren inner' htext' a' =>
      have hinner := List.append_cancel_right (List.cons.inj (htext.symm.trans htext')).2
      subst hinner
      rw [iha a']
    | literal v' hv' =>
      subst htext
      exact (not_head_of_literal hv' (by decide)).elim
    | var htext' => exact absurd (htext.symm.trans htext') (by simp)
  | literal v hv =>
    cases d' with
    | paren inner' htext' a' =>
      subst htext'
      exact (not_head_of_literal hv (by decide)).elim
    | literal v' hv' =>
      obtain rfl := Option.some.inj (hv.symm.trans hv')
      rfl
    | var htext' =>
      subst htext'
      exact (not_head_of_literal hv (by decide)).elim
  | var htext =>
    cases d' with
    | paren inner' htext' a' => exact absurd (htext.symm.trans htext') (by simp)
    | literal v' hv' =>
      subst htext
      exact (not_head_of_literal hv' (by decide)).elim
    | var => rfl

end Derivation

/-! ## What the reader finds -/

theorem Reads.unique {level : Level} {text : List Char} {e e' : Expr}
    (h : Reads .canonical level text e) (h' : Reads .canonical level text e') : e = e' := by
  obtain ⟨d, rfl⟩ := Derivation.exists_of_reads h
  obtain ⟨d', rfl⟩ := Derivation.exists_of_reads h'
  rw [d.eq_of_text d']

end Grammar

open Grammar

/-- Without a limit, the canonical reader accepts what the grammar reads, as that tree. -/
theorem parse_canonical_eq_ok_iff_reads {input : List Char} {e : Expr} :
    parse ⟨.canonical, none⟩ input = .ok e ↔
      Reads .canonical (.chain .sum) (dropSpaces input) e := by
  constructor
  · exact reads_of_parse
  · intro h
    obtain ⟨e', he'⟩ := exists_parse_of_reads (o := ⟨.canonical, none⟩) rfl h
    rw [he', (reads_of_parse he').unique h]

/-- **The canonical reader is exact.** It returns a tree if and only if the text has a derivation
that builds that tree, and no text has two derivations. -/
theorem parse_eq_ok_iff_derivation {text : List Char} (hspace : ' ' ∉ text) :
    (∀ e, parse ⟨.canonical, none⟩ text = .ok e ↔
      ∃ d : Derivation (.chain .sum) text, d.tree = e) ∧
      ∀ d d' : Derivation (.chain .sum) text, d = d' := by
  refine ⟨fun e ↦ ?_, Derivation.eq_of_text⟩
  rw [parse_canonical_eq_ok_iff_reads, dropSpaces_of_not_mem hspace]
  constructor
  · exact Derivation.exists_of_reads
  · rintro ⟨d, rfl⟩
    exact d.reads

/-- Of the two minus signs of `x--1`, the second is the sign of the number. -/
theorem parse_eq_ok_iff_derivation_signed :
    ' ' ∉ ['x', '-', '-', '1'] ∧
      parse ⟨.canonical, none⟩ ['x', '-', '-', '1'] =
        .ok (.binary .sub .var (.literal (Literal.value ⟨true, .decimal ['1'] [] 0⟩))) := by
  refine ⟨by decide, ((parse_eq_ok_iff_derivation (by decide)).1 _).mpr ⟨?_, ?_⟩⟩
  · exact .sum ['x'] .sub ['-', '1'] (Or.inr rfl) rfl
      (.ofProduct (.ofPower (.ofBase (.ofPrimary (.var rfl)))))
      (.ofPower (.ofBase (.ofPrimary (.literal (Literal.value ⟨true, .decimal ['1'] [] 0⟩) rfl))))
  · rfl

end CurveCalc
