import CurveCalc.Deriving.Readers
import Mathlib.Logic.Basic
import Mathlib.Tactic.Common

/-!
# What a scan takes

A scan that succeeds takes trees off the front of a row for a value, and leaves a rest
(`Scan.Takes`). What a scan takes that is put together from others follows from what those take, one
lemma for each way to put them together, so what a reader accepts can be said without its steps.
Trees left over in a group make a reader of a whole row fail, so they are not left here.
-/

namespace CurveCalc

namespace Deriving

namespace Scan

variable {α β σ : Type} {row rest : List Tree}

/-! ## All that a scan gives -/

/-- What a scan makes of a row: a value, how that is written, a group that was not read to its end,
and a rest. -/
def Gives (scan : Scan α) (row : List Tree) (a : α) (written : List Tree)
    (unread : Option Delimiter) (rest : List Tree) : Prop :=
  ∃ t, scan row = .ok t ∧ t.value = a ∧ t.written = written ∧ t.unread = unread ∧ t.rest = rest

section Gives

variable {scan : Scan α} {next : α → Scan β} {a a' : α} {b : β} {written : List Tree}
  {unread : Option Delimiter}

theorem Gives.suffix (h : Gives scan row a written unread rest) : rest <:+ row := by
  obtain ⟨t, -, -, -, -, rfl⟩ := h
  exact t.isSuffix

theorem gives_pure : Gives (pure a : Scan α) row a' written unread rest ↔
    a' = a ∧ written = [] ∧ unread = none ∧ rest = row := by
  constructor
  · rintro ⟨t, ht, rfl, rfl, rfl, rfl⟩
    obtain rfl := Except.ok.inj ht
    exact ⟨rfl, rfl, rfl, rfl⟩
  · rintro ⟨rfl, rfl, rfl, rfl⟩
    exact ⟨_, rfl, rfl, rfl, rfl, rfl⟩

theorem bind_eq (row : List Tree) : (scan >>= next) row = match scan row with
    | .error f => .error f
    | .ok t => (next t.value t.rest).map t.andThen := rfl

/-- **One scan after another** gives what they give, one after the other. -/
theorem gives_bind : Gives (scan >>= next) row b written unread rest ↔
    ∃ a w u mid w' u', Gives scan row a w u mid ∧ Gives (next a) mid b w' u' rest ∧
      written = w ++ w' ∧ unread = u.or u' := by
  constructor
  · rintro ⟨t, ht, rfl, rfl, rfl, rfl⟩
    rw [bind_eq] at ht
    cases hscan : scan row with
    | error f =>
      rw [hscan] at ht
      exact absurd ht (by simp)
    | ok t₁ =>
      rw [hscan] at ht
      simp only at ht
      cases hnext : next t₁.value t₁.rest with
      | error f =>
        rw [hnext] at ht
        exact absurd ht (by simp [Except.map])
      | ok t₂ =>
        rw [hnext] at ht
        obtain rfl := Except.ok.inj ht
        exact ⟨_, _, _, _, _, _, ⟨t₁, hscan, rfl, rfl, rfl, rfl⟩, ⟨t₂, hnext, rfl, rfl, rfl, rfl⟩,
          rfl, rfl⟩
  · rintro ⟨_, _, _, _, _, _, ⟨t₁, hscan, rfl, rfl, rfl, rfl⟩, ⟨t₂, hnext, rfl, rfl, rfl, rfl⟩,
      rfl, rfl⟩
    refine ⟨t₁.andThen t₂, ?_, rfl, rfl, rfl, rfl⟩
    rw [bind_eq, hscan]
    simp only [hnext]
    rfl

theorem gives_ahead {trees : List Tree} : Gives ahead row trees written unread rest ↔
    trees = row ∧ written = [] ∧ unread = none ∧ rest = row :=
  gives_pure

theorem not_gives_fail {f : Fault} : ¬Gives (fail f : Scan α) row a written unread rest := by
  rintro ⟨t, ht, -⟩
  exact absurd ht (by simp [fail])

theorem not_gives_due {choices : List Expected} :
    ¬Gives (due choices : Scan α) row a written unread rest :=
  not_gives_fail

theorem gives_ahead_bind {next : List Tree → Scan β} :
    Gives (ahead >>= next) row b written unread rest ↔
      Gives (next row) row b written unread rest := by
  rw [gives_bind]
  constructor
  · rintro ⟨trees, w, u, mid, w', u', hahead, h, rfl, rfl⟩
    obtain ⟨rfl, rfl, rfl, rfl⟩ := gives_ahead.mp hahead
    exact h
  · intro h
    exact ⟨row, [], none, row, written, unread, gives_ahead.mpr ⟨rfl, rfl, rfl, rfl⟩, h, rfl, rfl⟩

theorem gives_take {n : ℕ} {w : List Tree} {u : Unit} : Gives (take n w) row u written unread rest ↔
    written = w ∧ unread = none ∧ rest = row.drop n := by
  constructor
  · rintro ⟨t, ht, -, rfl, rfl, rfl⟩
    obtain rfl := Except.ok.inj ht
    exact ⟨rfl, rfl, rfl⟩
  · rintro ⟨rfl, rfl, rfl⟩
    exact ⟨_, rfl, rfl, rfl, rfl, rfl⟩

theorem gives_inside {d : Delimiter} : Gives (inside d scan) row a written unread rest ↔
    ∃ content w u mid, row = .group d content :: rest ∧ Gives scan content a w u mid ∧
      written = [.group d w] ∧ unread = u.or (if mid.isEmpty then none else some d) := by
  constructor
  · rintro ⟨t, ht, rfl, rfl, rfl, rfl⟩
    match row with
    | .group d' content :: row =>
      rw [inside] at ht
      split at ht
      · next hd =>
        obtain rfl := hd
        cases hscan : scan content with
        | error f =>
          rw [hscan] at ht
          exact absurd ht (by simp [Except.map])
        | ok t' =>
          rw [hscan] at ht
          obtain rfl := Except.ok.inj ht
          exact ⟨content, _, _, _, rfl, ⟨t', hscan, rfl, rfl, rfl, rfl⟩, rfl, rfl⟩
      · exact absurd ht (by simp)
    | [] | .word _ :: _ | .literal _ :: _ | .mark _ _ :: _ => exact absurd ht (by simp [inside])
  · rintro ⟨content, _, _, _, rfl, ⟨t, ht, rfl, rfl, rfl, rfl⟩, rfl, rfl⟩
    rw [Gives, inside, if_pos rfl, ht]
    exact ⟨_, rfl, rfl, rfl, rfl, rfl⟩

end Gives

section Iterate

variable {step : σ → Scan (σ × Bool)} {s s' : σ} {written : List Tree} {unread : Option Delimiter}

theorem iterate_eq (row : List Tree) : iterate step s row = match step s row with
    | .error f => .error f
    | .ok t =>
      if t.value.2 = true ∧ t.rest.length < row.length then
        (iterate step t.value.1 t.rest).map t.andThen
      else .ok (t.map Prod.fst) := by
  rw [iterate, iterateOn]
  cases step s row with
  | error f => rfl
  | ok t =>
    by_cases hmore : t.value.2 = true ∧ t.rest.length < row.length
    · exact (dif_pos hmore).trans (if_pos hmore).symm
    · exact (dif_neg hmore).trans (if_neg hmore).symm

/-- **A loop** gives what its step gives, again and again while that says so and takes something. -/
theorem gives_iterate : Gives (iterate step s) row s' written unread rest ↔
    ∃ s₁ more w u mid, Gives (step s) row (s₁, more) w u mid ∧
      if more = true ∧ mid.length < row.length then
        ∃ w' u', Gives (iterate step s₁) mid s' w' u' rest ∧ written = w ++ w' ∧ unread = u.or u'
      else s' = s₁ ∧ written = w ∧ unread = u ∧ rest = mid := by
  constructor
  · rintro ⟨t, ht, rfl, rfl, rfl, rfl⟩
    rw [iterate_eq] at ht
    cases hstep : step s row with
    | error f =>
      rw [hstep] at ht
      exact absurd ht (by simp)
    | ok t₁ =>
      rw [hstep] at ht
      simp only at ht
      refine ⟨_, _, _, _, _, ⟨t₁, hstep, rfl, rfl, rfl, rfl⟩, ?_⟩
      split at ht
      · next hmore =>
        cases hloop : iterate step t₁.value.1 t₁.rest with
        | error f =>
          rw [hloop] at ht
          exact absurd ht (by simp [Except.map])
        | ok t₂ =>
          rw [hloop] at ht
          obtain rfl := Except.ok.inj ht
          rw [if_pos hmore]
          exact ⟨_, _, ⟨t₂, hloop, rfl, rfl, rfl, rfl⟩, rfl, rfl⟩
      · next hmore =>
        obtain rfl := Except.ok.inj ht
        rw [if_neg hmore]
        exact ⟨rfl, rfl, rfl, rfl⟩
  · rintro ⟨s₁, more, _, _, _, ⟨t₁, hstep, hvalue, rfl, rfl, rfl⟩, h⟩
    obtain ⟨rfl, rfl⟩ := Prod.mk.inj hvalue
    split at h
    · next hmore =>
      obtain ⟨_, _, ⟨t₂, hloop, rfl, rfl, rfl, rfl⟩, rfl, rfl⟩ := h
      refine ⟨t₁.andThen t₂, ?_, rfl, rfl, rfl, rfl⟩
      rw [iterate_eq, hstep]
      simp only [hmore, and_self, if_true, hloop]
      rfl
    · next hmore =>
      obtain ⟨rfl, rfl, rfl, rfl⟩ := h
      refine ⟨t₁.map Prod.fst, ?_, rfl, rfl, rfl, rfl⟩
      rw [iterate_eq, hstep]
      simp only [hmore, if_false]

end Iterate

/-! ## What a scan takes -/

/-- A scan takes a value off a row of trees, reads all groups to their ends, and leaves a rest. -/
def Takes (scan : Scan α) (row : List Tree) (a : α) (rest : List Tree) : Prop :=
  ∃ written, Gives scan row a written none rest

section Takes

variable {scan : Scan α} {next : α → Scan β} {a a' : α} {b : β}

theorem Takes.suffix (h : Takes scan row a rest) : rest <:+ row := by
  obtain ⟨_, h⟩ := h
  exact h.suffix

/-- **A whole row is read if the scan leaves nothing of it.** -/
theorem whole_eq_ok_iff : whole scan row = .ok a ↔ Takes scan row a [] := by
  rw [whole, Takes]
  simp only [Gives]
  cases scan row with
  | error f => simp
  | ok t =>
    cases hunread : t.unread with
    | some d => simp [hunread]
    | none =>
      simp only [Except.ok.injEq, exists_eq_left', hunread, true_and]
      split
      · next hrest => simp [List.isEmpty_iff.mp hrest]
      · next hrest => simp [List.isEmpty_iff] at hrest ⊢; exact fun _ ↦ hrest

end Takes

/-! ## Loops -/

section Mark

variable {c : Char} {text : String} {b : Bool} {u : Unit}

end Mark

end Scan

/-! ## The end of an expression -/

/-- What can be behind an expression in a list: nothing, or a comma and anything. -/
inductive Ends : List Tree → Prop
  | nil : Ends []
  | comma (joint : Bool) (rest : List Tree) : Ends (.mark [','] joint :: rest)

/-- No expression goes on over a comma: one that ends at an end of the row ends there whatever is
behind it, be that nothing or a comma and anything. In the language commas are part of an expression
only in brackets and in lists of types or parameters, which have ends of their own. -/
def Readers.EndAtCommas (r : Readers) : Prop :=
  ∀ ⦃row e tail tail' : List Tree⦄, Ends tail → Ends tail' →
    Scan.Takes r.expression (row ++ tail) e tail → Scan.Takes r.expression (row ++ tail') e tail'

end Deriving

end CurveCalc
