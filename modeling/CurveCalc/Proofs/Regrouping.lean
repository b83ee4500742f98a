import CurveCalc.Proofs.Derivation

/-!
# One text, one row of tokens

A text can be read as different trees, by the legacy grammar and by the two grammars, but the trees
differ in how operators are grouped and in nothing else: read from left to right they have the same
`Expr.tokens` (`Reads.tokens_eq`). The proof goes by way of the canonical grammar, which groups any
row of operands and operators somehow (`Reads.join`) and any text in one way only. So every tree can
be regrouped into the canonical one, and the canonical one is the same for all.
-/

namespace CurveCalc

open Grammar

/-! ## Tokens -/

namespace Expr

/-- What an expression consists of when it is read from left to right. -/
inductive Token where
  | number (value : Float)
  | variable
  | operator (op : BinaryOp)
  | log
  | opening
  | closing
deriving DecidableEq

/-- The tokens of an expression. Only parentheses of its own count, not those that writing it would
take. -/
def tokens : Expr → List Token
  | .literal v => [.number v]
  | .var => [.variable]
  | .paren e => .opening :: e.tokens ++ [.closing]
  | .binary op a b => a.tokens ++ .operator op :: b.tokens
  | .log a | .logWith a _ => .log :: a.tokens
  | .danglingPow a => a.tokens ++ [.operator .pow]

end Expr

namespace Grammar

/-! ## Joining what is read -/

section Tables

variable {c : Chain} {op : BinaryOp}

/-- Where an operator goes that is added at the right of a chain: into the right operand, or if it
is one of the chain's own, behind the chain as a whole. -/
private theorem mem_loose_right_or (h : op ∈ looseOperators .canonical (.chain c)) :
    op ∈ looseOperators .canonical (Grammar.canonical.operandLevels c).2 ∨
      op ∈ c.operators ∧ (Grammar.canonical.operandLevels c).1 = .chain c := by
  cases c <;> cases op <;> revert h <;> decide

private theorem mem_loose_below_or (h : op ∈ looseOperators .canonical (.chain c)) :
    op ∈ looseOperators .canonical c.below ∨ op ∈ c.operators := by
  cases c <;> cases op <;> revert h <;> decide

private theorem height_below_le (c : Chain) :
    c.below.height ≤ (Grammar.canonical.operandLevels c).1.height := by
  cases c <;> decide

private theorem height_base_le (c : Chain) :
    Level.base.height ≤ (Grammar.canonical.operandLevels c).2.height := by
  cases c <;> decide

theorem mem_loose_sum (op : BinaryOp) : op ∈ looseOperators .canonical (.chain .sum) := by
  cases op <;> decide

end Tables

section Join

variable {level : Level} {op : BinaryOp} {left right : List Char} {a b : Expr}

/-- What a level reads can be extended by an operator that is loose there and one more operand. -/
theorem Reads.extend (ha : Reads .canonical level left a)
    (hop : op ∈ looseOperators .canonical level) (hb : Reads .canonical .base right b) :
    ∃ e, Reads .canonical level (left ++ op.symbol :: right) e ∧
      e.tokens = a.tokens ++ .operator op :: b.tokens := by
  induction ha with
  | @split c op' l r a' b' hop' hl hr _ ihr =>
    rcases mem_loose_right_or hop with hloose | ⟨hmem, hlevel⟩
    · obtain ⟨e, he, htokens⟩ := ihr hloose
      refine ⟨.binary op' a' e, ?_, ?_⟩
      · rw [List.append_assoc, List.cons_append]
        exact .split hop' hl he
      · simp [Expr.tokens, htokens]
    · have hwhole := Reads.split hop' hl hr
      rw [← hlevel] at hwhole
      exact ⟨_, .split hmem hwhole (hb.climb _ (height_base_le c)), rfl⟩
  | @fall c text e' h ih =>
    rcases mem_loose_below_or hop with hloose | hmem
    · obtain ⟨e, he, htokens⟩ := ih hloose
      exact ⟨e, .fall he, htokens⟩
    · exact ⟨_, .split hmem (h.climb _ (height_below_le c)) (hb.climb _ (height_base_le c)), rfl⟩
  | base | log | paren | literal | var => exact absurd hop (by simp [looseOperators])

/-- Any two texts that are read can be joined by any operator, with some grouping. -/
theorem Reads.join (ha : Reads .canonical (.chain .sum) left a) (op : BinaryOp)
    (hb : Reads .canonical level right b) :
    ∃ e, Reads .canonical (.chain .sum) (left ++ op.symbol :: right) e ∧
      e.tokens = a.tokens ++ .operator op :: b.tokens := by
  -- operand by operand, from the left
  induction hb generalizing left a op with
  | @split c op' l r a' b' _ _ _ ihl ihr =>
    obtain ⟨e, he, htokens⟩ := ihl ha op
    obtain ⟨e', he', htokens'⟩ := ihr he op'
    refine ⟨e', ?_, ?_⟩
    · rwa [List.append_assoc, List.cons_append] at he'
    · rw [htokens', htokens, List.append_assoc, List.cons_append, Expr.tokens]
  | fall _ ih => exact ih ha op
  | base _ ih => exact ih ha op
  | log h => exact ha.extend (mem_loose_sum op) (.log h)
  | paren h => exact ha.extend (mem_loose_sum op) (.base (.paren h))
  | literal hv => exact ha.extend (mem_loose_sum op) (.base (.literal hv))
  | var => exact ha.extend (mem_loose_sum op) (.base .var)

end Join

/-! ## Regrouping -/

/-- The canonical level for what a level of another grammar reads: single operands are read at their
own level, everything else as a sum. -/
def Level.regrouped : Level → Level
  | .chain _ => .chain .sum
  | .base => .base
  | .primary => .primary

theorem Level.regrouped_le (level : Level) : level.regrouped.height ≤ (Level.chain .sum).height :=
  Level.height_le _

/-- **What any grammar reads is read by the canonical one**, with the same tokens. -/
theorem Reads.exists_canonical {g : Grammar} {level : Level} {text : List Char} {e : Expr}
    (h : Reads g level text e) :
    ∃ e', Reads .canonical level.regrouped text e' ∧ e'.tokens = e.tokens := by
  induction h with
  | @split c op left right a b _ _ _ ihl ihr =>
    obtain ⟨a', ha, hatokens⟩ := ihl
    obtain ⟨b', hb, hbtokens⟩ := ihr
    obtain ⟨e, he, htokens⟩ := (ha.climb _ (Level.regrouped_le _)).join op hb
    refine ⟨e, he, ?_⟩
    rw [htokens, hatokens, hbtokens, Expr.tokens]
  | fall _ ih =>
    obtain ⟨e', he, htokens⟩ := ih
    exact ⟨e', he.climb _ (Level.regrouped_le _), htokens⟩
  | base _ ih =>
    obtain ⟨e', he, htokens⟩ := ih
    exact ⟨e', .base he, htokens⟩
  | log _ ih =>
    obtain ⟨e', he, htokens⟩ := ih
    exact ⟨.log e', .log he, by rw [Expr.tokens, htokens, Expr.tokens]⟩
  | paren _ ih =>
    obtain ⟨e', he, htokens⟩ := ih
    exact ⟨.paren e', .paren he, by rw [Expr.tokens, htokens, Expr.tokens]⟩
  | literal hv => exact ⟨_, .literal hv, rfl⟩
  | var => exact ⟨_, .var, rfl⟩

/-- **All readings of a text have the same tokens**, whatever the grammar and the level. -/
theorem Reads.tokens_eq {g g' : Grammar} {level level' : Level} {text : List Char} {e e' : Expr}
    (h : Reads g level text e) (h' : Reads g' level' text e') : e.tokens = e'.tokens := by
  obtain ⟨c, hc, htokens⟩ := h.exists_canonical
  obtain ⟨c', hc', htokens'⟩ := h'.exists_canonical
  have hsame : c = c' :=
    (hc.climb _ (Level.regrouped_le _)).unique (hc'.climb _ (Level.regrouped_le _))
  rw [← htokens, ← htokens', hsame]

end Grammar

end CurveCalc
