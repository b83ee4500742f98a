import CurveCalc.Proofs.Regrouping

/-!
# Tokens and the text they came from

A number has many spellings, every other token has one. `Spells tokens text` says that a text is the
spellings of the tokens in a row, with nothing between them. Whatever is read spells its tree
(`Reads.spells`), so no character of a text is lost or moved on the way into a tree. Together with
`Reads.tokens_eq` this compares the grammars: what the legacy grammar accepts the canonical one
accepts as well, and the two trees are groupings of one row of tokens that spells the text.
-/

namespace CurveCalc

open Grammar

namespace Expr

/-! ## Spellings -/

/-- The texts that a token can be written as. -/
inductive Token.Spells : Token → List Char → Prop
  | number {v : Float} {text : List Char} (h : readLiteral? text = some v) : Spells (.number v) text
  | variable : Spells .variable ['x']
  | operator (op : BinaryOp) : Spells (.operator op) [op.symbol]
  | log : Spells .log ['l', 'o', 'g']
  | opening : Spells .opening ['(']
  | closing : Spells .closing [')']

/-- The texts that a row of tokens can be written as. -/
inductive Spells : List Token → List Char → Prop
  | nil : Spells [] []
  | cons {token : Token} {tokens : List Token} {piece text : List Char}
    (hpiece : token.Spells piece) (h : Spells tokens text) :
    Spells (token :: tokens) (piece ++ text)

namespace Spells

variable {token : Token} {tokens tokens' : List Token} {piece text text' : List Char}

theorem single (h : token.Spells piece) : Spells [token] piece := by
  have hcons := Spells.cons h .nil
  rwa [List.append_nil] at hcons

theorem append (h : Spells tokens text) (h' : Spells tokens' text') :
    Spells (tokens ++ tokens') (text ++ text') := by
  induction h with
  | nil => exact h'
  | cons hpiece _ ih =>
    rw [List.cons_append, List.append_assoc]
    exact .cons hpiece ih

end Spells

end Expr

namespace Grammar

open CurveCalc.Expr

/-- **What is read is spelled by its tree**, whatever the grammar and the level. -/
theorem Reads.spells {g : Grammar} {level : Level} {text : List Char} {e : Expr}
    (h : Reads g level text e) : Spells e.tokens text := by
  induction h with
  | @split c op left right a b _ _ _ ihl ihr =>
    rw [Expr.tokens]
    exact ihl.append (.cons (.operator op) ihr)
  | fall _ ih => exact ih
  | base _ ih => exact ih
  | log _ ih => exact .cons .log ih
  | paren _ ih =>
    rw [Expr.tokens]
    show Spells _ (['('] ++ (_ ++ [')']))
    exact .cons .opening (ih.append (.single .closing))
  | literal hv => exact .single (.number hv)
  | var => exact .single .variable

end Grammar

open CurveCalc.Expr

/-- **The legacy grammar only regroups.** What it accepts the canonical grammar accepts too, with
the same tokens from left to right, and these spell the text without its spaces. -/
theorem parse_canonical_of_legacy {input : List Char} {e : Expr}
    (h : parse ⟨.legacy, none⟩ input = .ok e) :
    ∃ e', parse ⟨.canonical, none⟩ input = .ok e' ∧ e'.tokens = e.tokens ∧
      Spells e'.tokens (dropSpaces input) ∧ Spells e.tokens (dropSpaces input) := by
  have hread := reads_of_parse h
  obtain ⟨e', hcanonical, htokens⟩ := hread.exists_canonical
  exact ⟨e', parse_canonical_eq_ok_iff_reads.mpr hcanonical, htokens, hcanonical.spells,
    hread.spells⟩

/-- Without its spaces `x - -1 * x` is a product of a difference to the legacy grammar. The second
minus sign is part of the number, and not a token. -/
theorem parse_canonical_of_legacy_signed :
    ∃ v e', parse ⟨.legacy, none⟩ ['x', ' ', '-', ' ', '-', '1', ' ', '*', ' ', 'x'] =
        .ok (.binary .mul (.binary .sub .var (.literal v)) .var) ∧
      parse ⟨.canonical, none⟩ ['x', ' ', '-', ' ', '-', '1', ' ', '*', ' ', 'x'] = .ok e' ∧
      e'.tokens = [.variable, .operator .sub, .number v, .operator .mul, .variable] ∧
      Spells e'.tokens ['x', '-', '-', '1', '*', 'x'] := by
  have hlegacy : parse ⟨.legacy, none⟩ ['x', ' ', '-', ' ', '-', '1', ' ', '*', ' ', 'x'] =
      .ok (.binary .mul
        (.binary .sub .var (.literal (Literal.value ⟨true, .decimal ['1'] [] 0⟩))) .var) := by
    decide +kernel
  obtain ⟨e', hcanonical, htokens, hspells, -⟩ := parse_canonical_of_legacy hlegacy
  exact ⟨_, e', hlegacy, hcanonical, htokens, hspells⟩

end CurveCalc
