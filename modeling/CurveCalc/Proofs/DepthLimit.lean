import CurveCalc.Proofs.Regrouping
import CurveCalc.Proofs.WellShaped
import Mathlib

/-!
# What a depth limit does

A level that is nested too deeply is closed and reads nothing, and the search goes on as if it had
found nothing there: a limit can make it pass over a cut at which both sides are read and take a
later one. So a limit is compared with a larger one, or none, in three ways. What is read under a
limit is read under the larger one as *some* tree (`exists_readAt_of_loosens`). The tree found under
the larger limit is found under the smaller one as well if that permits its nesting
(`readAt_eq_of_permits`). And a reading that no closed level was met on is the same under both
(`readAt_eq_of_not_limited`).

In the canonical grammar there is only one tree to find, so there a limit does nothing but refuse.
In the legacy grammar it can regroup: the tree that is found first may be nested too deeply where
another one is not.
-/

namespace CurveCalc

namespace Grammar

/-! ## Looser limits -/

/-- The same grammar under a limit that closes no level which is open under the first. -/
structure Loosens (o o' : ReadOptions) : Prop where
  grammar_eq : o'.grammar = o.grammar
  permits : ∀ depth, o.permits depth = true → o'.permits depth = true

theorem loosens_of_le (g : Grammar) {d d' : Nat} (h : d ≤ d') :
    Loosens ⟨g, some d⟩ ⟨g, some d'⟩ := by
  refine ⟨rfl, fun depth hdepth ↦ ?_⟩
  rw [ReadOptions.permits, decide_eq_true_eq] at hdepth ⊢
  exact Nat.le_trans hdepth h

theorem loosens_unlimited (g : Grammar) (limit? : Option Nat) :
    Loosens ⟨g, limit?⟩ ⟨g, none⟩ :=
  ⟨rfl, fun _ _ ↦ rfl⟩

variable {o o' : ReadOptions} {level : Level} {text : List Char} {depth : Nat} {e : Expr}

theorem exists_readAt_of_loosens (h : Loosens o o')
    (hread : (readAt o level depth text).tree? = some e) :
    ∃ e', (readAt o' level depth text).tree? = some e' := by
  have hreads := reads_of_readAt hread
  have hfit := h.permits _ (permits_nesting_of_readAt hread)
  rw [← h.grammar_eq] at hreads hfit
  exact exists_readAt_of_reads hreads hfit

theorem readAt_eq_none_of_loosens (h : Loosens o o')
    (hnone : (readAt o' level depth text).tree? = none) :
    (readAt o level depth text).tree? = none := by
  rw [Option.eq_none_iff_forall_ne_some]
  intro e hread
  obtain ⟨e', he'⟩ := exists_readAt_of_loosens h hread
  rw [hnone] at he'
  exact absurd he' (by simp)

/-! ## The tree under the looser limit -/

private theorem ofSplit_eq_none_of_loosens (h : Loosens o o') {l r : Level} {s : Split}
    (hnone : (Reading.ofSplit s (readAt o' l depth s.left)
      fun _ ↦ readAt o' r depth s.right).tree? = none) :
    (Reading.ofSplit s (readAt o l depth s.left)
      fun _ ↦ readAt o r depth s.right).tree? = none := by
  rw [Option.eq_none_iff_forall_ne_some]
  intro e hsplit
  obtain ⟨a, b, ha, hb, rfl⟩ := exists_of_tree?_ofSplit hsplit
  obtain ⟨a', ha'⟩ := exists_readAt_of_loosens h ha
  obtain ⟨b', hb'⟩ := exists_readAt_of_loosens h hb
  rw [Reading.tree?_ofSplit, ha', Option.bind_some, hb'] at hnone
  exact absurd hnone (by simp)

section FirstResult

variable {α β : Type} {b : β}

/-- Of two attempts, the second is made only where the first fails; so the first must not succeed
where it did not. -/
private theorem or_eq_some_of_imp {x x' y y' : Option β} (hnone : x' = none → x = none)
    (hx : x' = some b → x = some b) (hy : y' = some b → y = some b) (h : x'.or y' = some b) :
    x.or y = some b := by
  rcases Option.or_eq_some_iff.mp h with hx' | ⟨hx', hy'⟩
  · rw [hx hx', Option.some_or]
  · rw [hnone hx', Option.none_or, hy hy']

private theorem findSome?_eq_some_of_imp {f f' : α → Option β} {as : List α}
    (hnone : ∀ a ∈ as, f' a = none → f a = none) (hsome : ∀ a ∈ as, f' a = some b → f a = some b)
    (h : as.findSome? f' = some b) : as.findSome? f = some b := by
  rw [List.findSome?_eq_some_iff] at h ⊢
  obtain ⟨before, a, after, rfl, ha, hbefore⟩ := h
  refine ⟨before, a, after, rfl, hsome a (by simp) ha, fun x hx ↦ ?_⟩
  exact hnone x (List.mem_append_left _ hx) (hbefore x hx)

end FirstResult

/-- **A limit that permits the nesting of the tree does not change it.** -/
theorem readAt_eq_of_permits (h : Loosens o o')
    (hread : (readAt o' level depth text).tree? = some e)
    (hfit : o.permits (depth + e.nesting o.grammar level) = true) :
    (readAt o level depth text).tree? = some e := by
  induction level, text using level_induction generalizing depth e with
  | chain c text ihsplit ihbelow =>
    have hd := permits_of_add hfit
    rw [readAt_chain (h.permits depth hd), Reading.tree?_orElse, Reading.tree?_first,
      h.grammar_eq] at hread
    rw [readAt_chain hd, Reading.tree?_orElse, Reading.tree?_first]
    refine or_eq_some_of_imp ?_ ?_ ?_ hread
    · -- a cut that fails under the looser limit fails under this one
      simp only [List.findSome?_eq_none_iff]
      exact fun hnone s hs ↦ ofSplit_eq_none_of_loosens h (hnone s hs)
    · refine findSome?_eq_some_of_imp (fun s _ ↦ ofSplit_eq_none_of_loosens h) fun s hs hsplit ↦ ?_
      obtain ⟨a, b, ha, hb, rfl⟩ := exists_of_tree?_ofSplit hsplit
      obtain ⟨hfita, hfitb⟩ := (permits_nesting_binary (op_mem_of_mem_splitsFrom hs)).mp hfit
      rw [Reading.tree?_ofSplit, (ihsplit s hs _).1 ha hfita, Option.bind_some,
        (ihsplit s hs _).2 hb hfitb, Option.map_some]
    · intro hbelow
      have hreads := reads_of_readAt hbelow
      rw [h.grammar_eq] at hreads
      rw [hreads.nesting_fall, ← Nat.add_assoc] at hfit
      exact ihbelow hbelow hfit
  | base text ihprimary iharg =>
    have hd := permits_of_add hfit
    rw [readAt_base (h.permits depth hd), Reading.tree?_orElse] at hread
    rw [readAt_base hd, Reading.tree?_orElse]
    refine or_eq_some_of_imp (readAt_eq_none_of_loosens h) ?_ ?_ hread
    · intro hprimary
      have hreads := reads_of_readAt hprimary
      rw [h.grammar_eq] at hreads
      rw [hreads.nesting_base, ← Nat.add_assoc] at hfit
      exact ihprimary hprimary hfit
    · cases harg : afterLog? text with
      | none => exact id
      | some arg =>
        intro hlog
        obtain ⟨e', he', rfl⟩ := Option.map_eq_some_iff.mp hlog
        rw [Expr.nesting_log, ← Nat.add_assoc] at hfit
        rw [Reading.tree?_map, iharg arg harg he' hfit, Option.map_some]
  | primary text ihinner =>
    have hd := permits_of_add hfit
    rw [readAt_primary (h.permits depth hd)] at hread
    rw [readAt_primary hd]
    cases hinner : inside? text with
    | none =>
      rw [hinner] at hread
      exact hread
    | some inner =>
      rw [hinner] at hread
      obtain ⟨e', he', rfl⟩ := Option.map_eq_some_iff.mp hread
      rw [Expr.nesting_paren, ← Nat.add_assoc] at hfit
      rw [Reading.tree?_map, ihinner inner hinner he' hfit, Option.map_some]

/-! ## Readings that the limit leaves alone -/

namespace Reading

@[simp] theorem limited_closed : closed.limited = true := rfl

theorem orElse_congr {r r' : Reading} {next next' : Unit → Reading}
    (hr : r.limited = false → r' = r) (hnext : (next ()).limited = false → next' () = next ())
    (h : (r.orElse next).limited = false) : r'.orElse next' = r.orElse next := by
  rw [orElse] at h
  cases ht : r.tree? with
  | some e =>
    rw [ht] at h
    rw [hr h, orElse, orElse, ht]
  | none =>
    rw [ht, Bool.or_eq_false_iff] at h
    rw [hr h.1, orElse, orElse, ht, hnext h.2]

theorem ofSplit_congr {s : Split} {left left' : Reading} {right right' : Unit → Reading}
    (hleft : left.limited = false → left' = left)
    (hright : (right ()).limited = false → right' () = right ())
    (h : (ofSplit s left right).limited = false) :
    ofSplit s left' right' = ofSplit s left right := by
  rw [ofSplit] at h
  cases ht : left.tree? with
  | none =>
    rw [ht] at h
    rw [hleft h, ofSplit, ofSplit, ht]
  | some a =>
    rw [ht, Bool.or_eq_false_iff] at h
    rw [hleft h.1, ofSplit, ofSplit, ht, hright h.2]

theorem first_congr {α : Type} {f f' : α → Reading} {as : List α}
    (hf : ∀ a ∈ as, (f a).limited = false → f' a = f a) (h : (first f as).limited = false) :
    first f' as = first f as := by
  induction as with
  | nil => rfl
  | cons a as ih =>
    rw [first] at h
    rw [first, first]
    exact orElse_congr (hf a List.mem_cons_self)
      (ih fun a ha ↦ hf a (List.mem_cons_of_mem _ ha)) h

end Reading

theorem permits_of_not_limited (h : (readAt o level depth text).limited = false) :
    o.permits depth = true := by
  by_contra hd
  rw [readAt_of_not_permits (Bool.eq_false_iff.mpr hd)] at h
  exact absurd h (by simp)

/-- **A reading that met no closed level is the same under any looser limit**, down to the trail of
what was tried. -/
theorem readAt_eq_of_not_limited (h : Loosens o o')
    (hlimited : (readAt o level depth text).limited = false) :
    readAt o' level depth text = readAt o level depth text := by
  induction level, text using level_induction generalizing depth with
  | chain c text ihsplit ihbelow =>
    have hd := permits_of_not_limited hlimited
    rw [readAt_chain hd] at hlimited
    rw [readAt_chain hd, readAt_chain (h.permits depth hd), h.grammar_eq]
    refine Reading.orElse_congr (Reading.first_congr fun s hs ↦ ?_) ihbelow hlimited
    exact Reading.ofSplit_congr (ihsplit s hs _).1 (ihsplit s hs _).2
  | base text ihprimary iharg =>
    have hd := permits_of_not_limited hlimited
    rw [readAt_base hd] at hlimited
    rw [readAt_base hd, readAt_base (h.permits depth hd)]
    refine Reading.orElse_congr ihprimary ?_ hlimited
    cases harg : afterLog? text with
    | none => exact fun _ ↦ rfl
    | some arg =>
      intro hlog
      exact congrArg (Reading.map Expr.log) (iharg arg harg hlog)
  | primary text ihinner =>
    have hd := permits_of_not_limited hlimited
    rw [readAt_primary hd] at hlimited
    rw [readAt_primary hd, readAt_primary (h.permits depth hd)]
    cases hinner : inside? text with
    | none => rfl
    | some inner =>
      rw [hinner] at hlimited
      exact congrArg (Reading.map Expr.paren) (ihinner inner hinner hlimited)

/-! ## Whole texts -/

theorem exists_readWhole_of_loosens (h : Loosens o o') (hread : (readWhole o text).tree? = some e) :
    ∃ e', (readWhole o' text).tree? = some e' := by
  rw [readWhole, Reading.tree?_orElse, Option.or_eq_some_iff] at hread
  rw [readWhole, Reading.tree?_orElse]
  rcases hread with hread | ⟨-, hread⟩
  · obtain ⟨e', he'⟩ := exists_readAt_of_loosens h hread
    exact ⟨e', by rw [he', Option.some_or]⟩
  · -- read as a primary only, maybe; under the looser limit possibly as a sum
    obtain ⟨e', he'⟩ := exists_readAt_of_loosens h hread
    rw [he']
    cases (readAt o' (.chain .sum) 0 text).tree? with
    | none => exact ⟨e', rfl⟩
    | some e'' => exact ⟨e'', rfl⟩

theorem readWhole_eq_of_not_limited (h : Loosens o o')
    (hlimited : (readWhole o text).limited = false) : readWhole o' text = readWhole o text :=
  Reading.orElse_congr (readAt_eq_of_not_limited h) (readAt_eq_of_not_limited h) hlimited

/-- Without a limit whatever is read at all is read as a sum, so the tree found there is the one to
look at. -/
theorem readWhole_eq_of_permits (h : Loosens o o') (ho' : o'.maxDepth = none)
    (hread : (readWhole o' text).tree? = some e)
    (hfit : o.permits (e.nesting o.grammar (.chain .sum)) = true) :
    (readWhole o text).tree? = some e := by
  obtain ⟨e', hsum⟩ : ∃ e', (readAt o' (.chain .sum) 0 text).tree? = some e' :=
    exists_readAt_of_reads (reads_of_readWhole hread) (permits_of_unlimited ho' _)
  rw [readWhole, Reading.tree?_orElse, hsum, Option.some_or] at hread
  obtain rfl := Option.some.inj hread
  rw [← Nat.zero_add (Expr.nesting _ _ _)] at hfit
  rw [readWhole, Reading.tree?_orElse, readAt_eq_of_permits h hsum hfit, Option.some_or]

theorem permits_nesting_of_readWhole (hread : (readWhole o text).tree? = some e) :
    e.level = .primary ∨ o.permits (e.nesting o.grammar (.chain .sum)) = true := by
  rw [readWhole, Reading.tree?_orElse, Option.or_eq_some_iff] at hread
  rcases hread with hsum | ⟨-, hprimary⟩
  · have hfit := permits_nesting_of_readAt hsum
    rw [Nat.zero_add] at hfit
    exact Or.inr hfit
  · exact Or.inl (Level.height_injective
      (Nat.le_zero.mp (reads_of_readAt hprimary).height_level_le))

theorem Reading.result_eq_error_iff {r : Reading} {error : ParseError} :
    r.result o text = .error error ↔ r.tree? = none ∧
      error = ⟨text, Diagnosis.ofText text (if r.limited then o.maxDepth else none)⟩ := by
  rw [Reading.result]
  split
  · next e he => simp [he]
  · next hnone =>
    rw [Except.error.injEq, eq_comm (b := error)]
    exact (and_iff_right hnone).symm

end Grammar

open Grammar

variable {input : List Char} {e : Expr}

theorem exists_parse_of_loosens {o o' : ReadOptions} (h : Loosens o o')
    (hparse : parse o input = .ok e) : ∃ e', parse o' input = .ok e' := by
  obtain ⟨e', he'⟩ := exists_readWhole_of_loosens h (Reading.result_eq_ok_iff.mp hparse)
  exact ⟨e', Reading.result_eq_ok_iff.mpr he'⟩

theorem parse_canonical_eq_of_loosens {o o' : ReadOptions} (h : Loosens o o')
    (hg : o.grammar = .canonical) (hparse : parse o input = .ok e) : parse o' input = .ok e := by
  obtain ⟨e', he'⟩ := exists_parse_of_loosens h hparse
  have hread := reads_of_parse hparse
  have hread' := reads_of_parse he'
  rw [h.grammar_eq, hg] at hread'
  rw [hg] at hread
  rw [he', hread'.unique hread]

/-- A text that is accepted without a limit is refused under one for no other reason than that it is
nested too deeply. -/
theorem error_eq_of_exists_parse {g : Grammar} {d : Nat} {error : ParseError}
    (hparse : parse ⟨g, none⟩ input = .ok e) (herror : parse ⟨g, some d⟩ input = .error error) :
    error = ⟨dropSpaces input, ⟨.tooDeep d, 0, Text.byteLength (dropSpaces input)⟩⟩ := by
  obtain ⟨hnone, rfl⟩ := Reading.result_eq_error_iff.mp herror
  -- had no level been closed, the limited reading would be the unlimited one, which has a tree
  have hlimited : (readWhole ⟨g, some d⟩ (dropSpaces input)).limited = true := by
    by_contra hlimited
    have hsame := readWhole_eq_of_not_limited (loosens_unlimited g (some d))
      (Bool.eq_false_iff.mpr hlimited)
    rw [← hsame, Reading.result_eq_ok_iff.mp hparse] at hnone
    exact absurd hnone (by simp)
  rw [if_pos hlimited, (reads_of_parse hparse).wellShaped.ofText_eq]
  rfl

/-- **In the canonical grammar a limit does nothing but refuse.** What is accepted under a limit is
accepted as the same tree under a larger one, and without one. -/
theorem parse_canonical_of_le {d d' : Nat} (hle : d ≤ d')
    (h : parse ⟨.canonical, some d⟩ input = .ok e) :
    parse ⟨.canonical, some d'⟩ input = .ok e ∧ parse ⟨.canonical, none⟩ input = .ok e :=
  ⟨parse_canonical_eq_of_loosens (loosens_of_le .canonical hle) rfl h,
    parse_canonical_eq_of_loosens (loosens_unlimited .canonical (some d)) rfl h⟩

/-- With limit `5` the parentheses of `(x)` are read as a primary only: as a sum, the variable would
be at depth `9`. -/
theorem parse_canonical_of_le_primary :
    5 ≤ 9 ∧ parse ⟨.canonical, some 5⟩ ['(', 'x', ')'] = .ok (.paren .var) ∧
      parse ⟨.canonical, some 9⟩ ['(', 'x', ')'] = .ok (.paren .var) ∧
      parse ⟨.canonical, none⟩ ['(', 'x', ')'] = .ok (.paren .var) := by
  have hle : 5 ≤ 9 := by decide
  have hparse : parse ⟨.canonical, some 5⟩ ['(', 'x', ')'] = .ok (.paren .var) := by cbv
  exact ⟨hle, hparse, parse_canonical_of_le hle hparse⟩

/-- **What a larger limit does, in either grammar.** A text that is accepted under a limit is
accepted under a larger one and without one; and if it is accepted without one but not under a
limit, then the error is that it is nested too deeply, with the whole text as its place. -/
theorem parse_of_le_and_error_eq_tooDeep {g : Grammar} {d d' : Nat} (hle : d ≤ d') :
    ((∃ e, parse ⟨g, some d⟩ input = .ok e) →
        (∃ e, parse ⟨g, some d'⟩ input = .ok e) ∧ ∃ e, parse ⟨g, none⟩ input = .ok e) ∧
      ∀ error, (∃ e, parse ⟨g, none⟩ input = .ok e) → parse ⟨g, some d⟩ input = .error error →
        error = ⟨dropSpaces input, ⟨.tooDeep d, 0, Text.byteLength (dropSpaces input)⟩⟩ := by
  refine ⟨?_, ?_⟩
  · rintro ⟨e, hparse⟩
    exact ⟨exists_parse_of_loosens (loosens_of_le g hle) hparse,
      exists_parse_of_loosens (loosens_unlimited g (some d)) hparse⟩
  · rintro error ⟨e, hparse⟩ herror
    exact error_eq_of_exists_parse hparse herror

/-- `( (x))` needs more than two levels. -/
theorem parse_of_le_and_error_eq_tooDeep_parens :
    2 ≤ 64 ∧ (∃ e, parse ⟨.legacy, none⟩ ['(', ' ', '(', 'x', ')', ')'] = .ok e) ∧
      parse ⟨.legacy, some 2⟩ ['(', ' ', '(', 'x', ')', ')'] =
        .error ⟨['(', '(', 'x', ')', ')'], ⟨.tooDeep 2, 0, 5⟩⟩ := by
  have hle : 2 ≤ 64 := by decide
  have hparse : ∃ e, parse ⟨.legacy, none⟩ ['(', ' ', '(', 'x', ')', ')'] = .ok e :=
    ⟨.paren (.paren .var), by cbv⟩
  have hnone : (readWhole ⟨.legacy, some 2⟩
      (dropSpaces ['(', ' ', '(', 'x', ')', ')'])).tree? = none := by cbv
  refine ⟨hle, hparse, ?_⟩
  cases hlimited : parse ⟨.legacy, some 2⟩ ['(', ' ', '(', 'x', ')', ')'] with
  | ok e => exact absurd (Reading.result_eq_ok_iff.mp hlimited) (by rw [hnone]; simp)
  | error error =>
    rw [(parse_of_le_and_error_eq_tooDeep hle).2 error hparse hlimited]
    rfl

/-! ## Regrouping under a limit -/

private theorem parse_quotient_of_eleven :
    parse ⟨.legacy, some 11⟩ ['x', '/', 'x', '*', '(', 'x', ')'] =
      .ok (.binary .mul (.binary .div .var .var) (.paren .var)) := by
  cbv

/-- **A limit on the legacy grammar can regroup and nothing else.** What is accepted under a limit
is accepted without one, with the same tokens from left to right. It is the same tree if the limit
permits the nesting of the tree that is found without one; and only if it does, unless that tree is
a primary, which may be read at the top as well. -/
theorem parse_legacy_tokens_eq {d : Nat} (h : parse ⟨.legacy, some d⟩ input = .ok e) :
    ∃ e', parse ⟨.legacy, none⟩ input = .ok e' ∧ e'.tokens = e.tokens ∧
      (e'.nesting .legacy (.chain .sum) ≤ d → e' = e) ∧
      (e' = e → e'.level = .primary ∨ e'.nesting .legacy (.chain .sum) ≤ d) := by
  have hloosens := loosens_unlimited .legacy (some d)
  obtain ⟨e', he'⟩ := exists_parse_of_loosens hloosens h
  have hread := Reading.result_eq_ok_iff.mp h
  refine ⟨e', he', (reads_of_parse he').tokens_eq (reads_of_parse h), fun hnesting ↦ ?_, ?_⟩
  · have hsame := readWhole_eq_of_permits hloosens rfl (Reading.result_eq_ok_iff.mp he')
      (decide_eq_true hnesting)
    rw [hread] at hsame
    exact (Option.some.inj hsame).symm
  · rintro rfl
    exact (permits_nesting_of_readWhole hread).imp_right of_decide_eq_true

/-- The tree of `x/x*(x)` is nested thirteen levels deep. -/
theorem parse_legacy_tokens_eq_quotient :
    parse ⟨.legacy, some 11⟩ ['x', '/', 'x', '*', '(', 'x', ')'] =
        .ok (.binary .mul (.binary .div .var .var) (.paren .var)) ∧
      ∃ e', parse ⟨.legacy, none⟩ ['x', '/', 'x', '*', '(', 'x', ')'] = .ok e' ∧
        e'.tokens = [.variable, .operator .div, .variable, .operator .mul, .opening, .variable,
          .closing] := by
  obtain ⟨e', he', htokens, -⟩ := parse_legacy_tokens_eq parse_quotient_of_eleven
  exact ⟨parse_quotient_of_eleven, e', he', htokens⟩

/-- A limit on the legacy grammar can change the tree: `x/x*(x)` is `(x/x)*(x)` with limit `11` and
`x/(x*(x))` without one. -/
theorem not_forall_parse_legacy_eq :
    ¬∀ (input : List Char) (d : Nat) (e : Expr), parse ⟨.legacy, some d⟩ input = .ok e →
      parse ⟨.legacy, none⟩ input = .ok e := by
  intro hall
  have hfull : parse ⟨.legacy, none⟩ ['x', '/', 'x', '*', '(', 'x', ')'] =
      .ok (.binary .div .var (.binary .mul .var (.paren .var))) := by cbv
  have hsame := hall _ _ _ parse_quotient_of_eleven
  rw [hfull] at hsame
  exact absurd hsame (by simp)

end CurveCalc
