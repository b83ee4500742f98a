import CurveCalc.Proofs.LocalTests
import CurveCalc.Proofs.Takes

/-!
# Reading up to a comma

A scan that stops in front of a comma has not seen what comes after it: with anything else behind
the comma, or with nothing at all in its place, it takes the same trees and gives the same value
(`Scan.Local`). Every way to put scans together keeps this, so a reader is local if the tokens and
the tests that it is made of are.

Inside angle brackets and between the bars of a closure there are commas that do not end anything. A
scan for what is in there may stop at a comma and fail at the end of the row; it is local as long as
something is left of the row in front of the comma, and what comes after it takes that.
-/

namespace CurveCalc

namespace Deriving

namespace Scan

variable {α β σ : Type} {scan : Scan α} {next : α → Scan β} {row : List Tree} {k : ℕ}

/-- On a row with something behind it a scan that leaves at least `k` trees of the row does not
depend on what that is. -/
def LocalAt (k : ℕ) (scan : Scan α) (row : List Tree) : Prop :=
  ∀ ⦃tail tail' left : List Tree⦄ ⦃a : α⦄ ⦃written : List Tree⦄ ⦃unread : Option Delimiter⦄,
    Ends tail → Ends tail' → k ≤ left.length →
      Gives scan (row ++ tail) a written unread (left ++ tail) →
        Gives scan (row ++ tail') a written unread (left ++ tail')

/-- A scan that does not depend on what is behind the trees that it takes and the `k` after them. -/
def Local (k : ℕ) (scan : Scan α) : Prop := ∀ row, LocalAt k scan row

/-- A scan that takes something. -/
def Consumes (scan : Scan α) : Prop :=
  ∀ ⦃row rest : List Tree⦄ ⦃a : α⦄ ⦃written : List Tree⦄ ⦃unread : Option Delimiter⦄,
    Gives scan row a written unread rest → rest.length < row.length

/-! ## Scans put together -/

theorem LocalAt.mono {k' : ℕ} (h : LocalAt k scan row) (hk : k ≤ k') : LocalAt k' scan row :=
  fun _ _ _ _ _ _ hends hends' hleft ↦ h hends hends' (hk.trans hleft)

theorem Local.mono {k' : ℕ} (h : Local k scan) (hk : k ≤ k') : Local k' scan :=
  fun row ↦ (h row).mono hk

theorem localAt_of_length_lt (hrow : row.length < k) : LocalAt k scan row := by
  intro tail tail' left a written unread hends hends' hleft h
  have hlength := h.suffix.length_le
  simp only [List.length_append] at hlength
  omega

theorem local_pure (a : α) : Local k (pure a) := by
  intro row tail tail' left a' written unread hends hends' hleft h
  obtain ⟨rfl, rfl, rfl, hrest⟩ := gives_pure.mp h
  obtain rfl := List.append_cancel_right hrest
  exact gives_pure.mpr ⟨rfl, rfl, rfl, rfl⟩

theorem local_fail (f : Fault) : Local k (fail f : Scan α) :=
  fun _ _ _ _ _ _ _ _ _ _ h ↦ absurd h not_gives_fail

theorem local_due (choices : List Expected) : Local k (due choices : Scan α) :=
  fun _ _ _ _ _ _ _ _ _ _ h ↦ absurd h not_gives_due

/-- What a scan leaves in front of the rest is local if what it gives so far says where that is. -/
theorem LocalAt.bind_of {k' : ℕ} (h : LocalAt k' scan row)
    (hnext : ∀ ⦃a left tail w u⦄, Ends tail → Gives scan (row ++ tail) a w u (left ++ tail) →
      LocalAt k (next a) left)
    (hleave : ∀ ⦃a mid b w u rest⦄, Gives (next a) mid b w u rest →
      rest.length + k' ≤ mid.length + k) :
    LocalAt k (scan >>= next) row := by
  intro tail tail' left b written unread hends hends' hleft hgives
  obtain ⟨a, w, u, mid, w', u', hscan, hrest, rfl, rfl⟩ := gives_bind.mp hgives
  obtain ⟨front, hfront⟩ := hrest.suffix
  obtain rfl : mid = (front ++ left) ++ tail := by rw [← hfront, List.append_assoc]
  have hleave' := hleave hrest
  simp only [List.length_append] at hleave'
  have hleft' : k' ≤ (front ++ left).length := by
    rw [List.length_append]
    omega
  exact gives_bind.mpr ⟨a, w, u, _, w', u', h hends hends' hleft' hscan,
    hnext hends hscan hends hends' hleft hrest, rfl, rfl⟩

theorem LocalAt.bind (h : LocalAt k scan row) (hnext : ∀ a, Local k (next a)) :
    LocalAt k (scan >>= next) row :=
  h.bind_of (fun a left _ _ _ _ _ ↦ hnext a left) fun _ _ _ _ _ _ hrest ↦
    Nat.add_le_add_right hrest.suffix.length_le k

theorem Local.bind (h : Local k scan) (hnext : ∀ a, Local k (next a)) : Local k (scan >>= next) :=
  fun row ↦ (h row).bind hnext

/-- Before a scan that takes something one more tree is left. -/
theorem Local.bind_consumes (h : Local (k + 1) scan) (hnext : ∀ a, Local k (next a))
    (hconsumes : ∀ a, Consumes (next a)) : Local k (scan >>= next) :=
  fun row ↦ (h row).bind_of (fun a left _ _ _ _ _ ↦ hnext a left) fun a _ _ _ _ _ hrest ↦ by
    have hlt := hconsumes a hrest
    omega

theorem Local.discard (h : Local k scan) : Local k (discard scan) :=
  h.bind fun _ ↦ local_pure ()

theorem LocalAt.ahead {next : List Tree → Scan β}
    (hnext : ∀ tail, Ends tail → next (row ++ tail) = next row) (h : LocalAt k (next row) row) :
    LocalAt k (ahead >>= next) row := by
  intro tail tail' left b written unread hends hends' hleft hscan
  rw [gives_ahead_bind, hnext tail hends] at hscan
  rw [gives_ahead_bind, hnext tail' hends']
  exact h hends hends' hleft hscan

theorem LocalAt.ahead_one {next : List Tree → Scan β}
    (hcomma : ∀ joint rest, next (.mark [','] joint :: rest) = next [])
    (hone : ∀ t rest, next (t :: rest) = next [t]) (h : LocalAt k (next row) row) :
    LocalAt k (Scan.ahead >>= next) row :=
  .ahead (fun _ hends ↦ hends.append_of_one row hcomma hone) h

theorem LocalAt.ahead_two {next : List Tree → Scan β}
    (hcomma : ∀ joint rest, next (.mark [','] joint :: rest) = next [])
    (hbehind : ∀ t joint rest, next (t :: .mark [','] joint :: rest) = next [t])
    (htwo : ∀ t t' rest, next (t :: t' :: rest) = next [t, t']) (h : LocalAt k (next row) row) :
    LocalAt k (Scan.ahead >>= next) row :=
  .ahead (fun _ hends ↦ hends.append_of_two row hcomma hbehind htwo) h

theorem LocalAt.ofExcept_bind {result : Except Fault α} (h : ∀ a, LocalAt k (next a) row) :
    LocalAt k (ofExcept result >>= next) row := by
  intro tail tail' left b written unread hends hends' hleft hgives
  obtain ⟨a, _, _, _, w, u, ⟨t, ht, rfl, rfl, rfl, rfl⟩, hnext, rfl, rfl⟩ := gives_bind.mp hgives
  cases result with
  | error f => exact absurd ht (by simp [ofExcept, Except.map])
  | ok a =>
    obtain rfl := Except.ok.inj ht
    exact gives_bind.mpr ⟨a, [], none, _, w, u, ⟨_, rfl, rfl, rfl, rfl, rfl⟩,
      h a hends hends' hleft hnext, rfl, rfl⟩

theorem LocalAt.ite {c : Prop} [Decidable c] {scan scan' : Scan α} (h : c → LocalAt k scan row)
    (h' : ¬c → LocalAt k scan' row) : LocalAt k (if c then scan else scan') row := by
  split
  · next hc => exact h hc
  · next hc => exact h' hc

theorem Local.ite {c : Prop} [Decidable c] {scan scan' : Scan α} (h : Local k scan)
    (h' : Local k scan') : Local k (if c then scan else scan') := by
  split
  · exact h
  · exact h'

theorem local_forIn {γ : Type} {f : γ → σ → Scan (ForInStep σ)} (h : ∀ c s, Local k (f c s))
    (l : List γ) (s : σ) : Local k (forIn l s f) := by
  induction l generalizing s with
  | nil => exact local_pure s
  | cons c l ih =>
    rw [List.forIn_cons]
    refine (h c s).bind fun step ↦ ?_
    cases step with
    | done s' => exact local_pure s'
    | yield s' => exact ih s'

/-- **A loop is local if its step is.** -/
theorem Local.iterate {step : σ → Scan (σ × Bool)} (h : ∀ s, Local k (step s)) (s : σ) :
    Local k (iterate step s) := by
  intro row
  -- on the length of the row, which a turn that is not the last makes shorter
  induction hn : row.length using Nat.strongRecOn generalizing row s with
  | _ n ih =>
    subst hn
    intro tail tail' left s' written unread hends hends' hleft hgives
    obtain ⟨s₁, more, w, u, mid, hstep, hloop⟩ := gives_iterate.mp hgives
    refine gives_iterate.mpr ?_
    split at hloop
    · next hmore =>
      obtain ⟨w', u', hloop, rfl, rfl⟩ := hloop
      obtain ⟨front, hfront⟩ := hloop.suffix
      obtain rfl : mid = (front ++ left) ++ tail := by rw [← hfront, List.append_assoc]
      obtain ⟨rfl, hshort⟩ := hmore
      simp only [List.length_append] at hshort
      refine ⟨s₁, true, w, u, (front ++ left) ++ tail',
        h s row hends hends' (hleft.trans (by simp)) hstep, ?_⟩
      rw [if_pos ⟨rfl, by simp only [List.length_append]; omega⟩]
      exact ⟨w', u',
        ih _ (by simp only [List.length_append]; omega) s₁ _ rfl hends hends' hleft hloop, rfl, rfl⟩
    · next hmore =>
      obtain ⟨rfl, rfl, rfl, rfl⟩ := hloop
      refine ⟨s', more, written, unread, left ++ tail', h s row hends hends' hleft hstep, ?_⟩
      rw [if_neg (by simpa using hmore)]
      exact ⟨rfl, rfl, rfl, rfl⟩

/-- What is in a group is not behind anything. -/
theorem local_inside (d : Delimiter) (scan : Scan α) : Local k (inside d scan) := by
  intro row tail tail' left a written unread hends hends' hleft hgives
  obtain ⟨content, w, u, mid, hrow, hscan, rfl, rfl⟩ := gives_inside.mp hgives
  cases row with
  | nil => cases hends <;> exact absurd hrow (by simp)
  | cons tree row =>
    obtain ⟨rfl, hrest⟩ := List.cons.inj hrow
    obtain rfl := List.append_cancel_right hrest
    exact gives_inside.mpr ⟨content, w, u, mid, rfl, hscan, rfl, rfl⟩

/-! ## Tokens -/

theorem localAt_take {n : ℕ} (written : List Tree) (hn : n ≤ row.length) :
    LocalAt k (take n written) row := by
  intro tail tail' left a w u hends hends' hleft hgives
  obtain ⟨rfl, rfl, hrest⟩ := gives_take.mp hgives
  rw [List.drop_append_of_le_length hn] at hrest
  obtain rfl := List.append_cancel_right hrest
  exact gives_take.mpr ⟨rfl, rfl, (List.drop_append_of_le_length hn).symm⟩

theorem localAt_next (hrow : row ≠ []) : LocalAt k Scan.next row := by
  obtain ⟨tree, more, rfl⟩ := List.exists_cons_of_ne_nil hrow
  refine LocalAt.ahead (fun tail _ ↦ ?_) ?_
  · cases tree <;> rfl
  · split <;> exact localAt_take _ (by simp)

theorem LocalAt.next_bind {next : Unit → Scan β} {tree : Tree} (h : LocalAt k (next ()) row) :
    LocalAt k (Scan.next >>= next) (tree :: row) := by
  refine (localAt_next (List.cons_ne_nil tree row)).bind_of (fun u left tail _ _ _ hgives ↦ ?_)
    fun _ _ _ _ _ _ hnext ↦ Nat.add_le_add_right hnext.suffix.length_le k
  have hleft : left = row := by
    rw [Scan.next, gives_ahead_bind] at hgives
    split at hgives <;>
      exact List.append_cancel_right (gives_take.mp hgives).2.2
  rwa [hleft]

theorem localAt_takeMark {text : String} (h : text.length ≤ row.length) :
    LocalAt k (takeMark text) row :=
  localAt_take _ h

theorem local_mark (text : String) : Local k (mark text) := by
  intro row tail tail' left a written unread hends hends' hleft hgives
  rw [mark, gives_ahead_bind] at hgives ⊢
  split at hgives
  · next hmark =>
    obtain ⟨-, -, hrest⟩ := gives_take.mp hgives
    have hlength := congrArg List.length hrest
    have hle := Tree.length_le_of_beginsMark hmark
    rw [List.length_drop, List.length_append, List.length_append] at hlength
    rw [List.length_append] at hle
    have hrow : text.length ≤ row.length := by omega
    have hcs : text.toList.length ≤ row.length := String.length_toList ▸ hrow
    rw [Tree.beginsMark, Tree.beginsMarks_append_of_le hcs] at hmark ⊢
    rw [if_pos hmark]
    exact localAt_takeMark hrow hends hends' hleft hgives
  · exact absurd hgives not_gives_fail

theorem Consumes.bind (h : Consumes scan) : Consumes (scan >>= next) := by
  intro row rest b written unread hgives
  obtain ⟨a, w, u, mid, w', u', hscan, hrest, -, -⟩ := gives_bind.mp hgives
  exact hrest.suffix.length_le.trans_lt (h hscan)

theorem consumes_mark {text : String} (htext : 0 < text.length) : Consumes (mark text) := by
  intro row rest a written unread hgives
  rw [mark, gives_ahead_bind] at hgives
  split at hgives
  · next hmark =>
    obtain ⟨-, -, rfl⟩ := gives_take.mp hgives
    have hle := Tree.length_le_of_beginsMark hmark
    rw [List.length_drop]
    omega
  · exact absurd hgives not_gives_fail

section Optional

variable {text : String}

theorem local_markIf (htext : ',' ∉ text.toList) : Local k (markIf text) := fun row ↦
  .ahead (fun tail hends ↦ by simp only [Tree.beginsMark_append _ hends htext])
    (.ite (fun h ↦ .bind (localAt_takeMark (Tree.length_le_of_beginsMark h)) fun _ ↦ local_pure _)
      fun _ ↦ local_pure _ row)

theorem local_word : Local k (word text) := fun row ↦
  .ahead (fun tail hends ↦ by simp only [Tree.beginsWord_append hends])
    (.ite (fun h ↦ localAt_next (List.ne_nil_of_length_pos (Tree.length_le_of_beginsWord h)))
      fun _ ↦ local_due _ row)

theorem local_wordIf : Local k (wordIf text) := fun row ↦
  .ahead (fun tail hends ↦ by simp only [Tree.beginsWord_append hends])
    (.ite
      (fun h ↦ .bind
        (localAt_next (List.ne_nil_of_length_pos (Tree.length_le_of_beginsWord h)))
        fun _ ↦ local_pure _)
      fun _ ↦ local_pure _ row)

variable {rest written : List Tree} {unread : Option Delimiter}

/-- Nothing is taken if an optional token is not there. -/
theorem rest_eq_of_optional {test : List Tree → Bool} {token : Scan Unit}
    (h : Gives
      (ahead >>= fun trees ↦ if test trees then token >>= fun _ ↦ pure true else pure false)
      row false written unread rest) : rest = row := by
  rw [gives_ahead_bind] at h
  split at h
  · obtain ⟨_, _, _, _, _, _, -, h, -⟩ := gives_bind.mp h
    exact absurd (gives_pure.mp h).1 Bool.false_ne_true
  · exact (gives_pure.mp h).2.2.2

theorem LocalAt.optional_bind {optional : Scan Bool} {next : Bool → Scan β}
    (hoptional : LocalAt k optional row)
    (hrest : ∀ {row rest w u}, Gives optional row false w u rest → rest = row)
    (h : Local k (next true)) (h' : LocalAt k (next false) row) :
    LocalAt k (optional >>= next) row := by
  refine hoptional.bind_of (fun b left tail w u _ hgives ↦ ?_) fun _ _ _ _ _ _ hnext ↦
    Nat.add_le_add_right hnext.suffix.length_le k
  cases b with
  | true => exact h left
  | false =>
    obtain rfl := List.append_cancel_right (hrest hgives)
    exact h'

end Optional

theorem LocalAt.markIf_bind {text : String} {next : Bool → Scan β} (htext : ',' ∉ text.toList)
    (h : Local k (next true)) (h' : LocalAt k (next false) row) :
    LocalAt k (markIf text >>= next) row :=
  (local_markIf htext row).optional_bind rest_eq_of_optional h h'

theorem LocalAt.wordIf_bind {text : String} {next : Bool → Scan β}
    (h : Local k (next true)) (h' : LocalAt k (next false) row) :
    LocalAt k (wordIf text >>= next) row :=
  (local_wordIf row).optional_bind rest_eq_of_optional h h'

/-! ### Tokens of one kind -/

theorem local_someWord : Local k someWord := by
  refine fun row ↦ .ahead_one (fun _ _ ↦ rfl) (fun t _ ↦ by cases t <;> rfl) ?_
  split
  · exact .bind (localAt_next (by simp)) fun _ ↦ local_pure _
  · exact local_due _ row

theorem local_identifier : Local k identifier := by
  refine fun row ↦ .ahead_one (fun _ _ ↦ rfl) (fun t _ ↦ by cases t <;> rfl) ?_
  split
  · refine .ite (fun _ ↦ local_fail _ _) fun _ ↦ ?_
    exact .bind (localAt_next (by simp)) fun _ ↦ local_pure _
  · exact local_due _ row

theorem local_anyGroup : Local k anyGroup := by
  refine fun row ↦ .ahead_one (fun _ _ ↦ rfl) (fun t _ ↦ by cases t <;> rfl) ?_
  split
  · exact .bind (localAt_next (by simp)) fun _ ↦ local_pure _
  · exact local_due _ row

theorem local_lifetime : Local k lifetime := by
  refine fun row ↦ .ahead_two (fun _ _ ↦ rfl) (fun t _ _ ↦ by simp) (fun t t' _ ↦ ?_) ?_
  · split <;> simp_all
  · split
    · exact localAt_take _ (by simp)
    · exact local_due _ row

theorem local_lifetimeIf : Local k lifetimeIf := fun row ↦
  .ahead (fun tail hends ↦ by simp only [Tree.beginsLifetime_append hends])
    (.ite (fun _ ↦ local_lifetime row) fun _ ↦ local_pure _ row)

theorem ne_nil_of_beginsLiteral (h : Tree.beginsLiteral row = true) : row ≠ [] := by
  rintro rfl
  exact absurd h (by decide)

theorem local_literal : Local k literal := by
  intro row
  refine .ahead (fun tail hends ↦ ?_) ?_
  · match row with
    | [] => cases hends <;> rfl
    | [t] =>
      have h : Tree.beginsLiteral ([t] ++ tail) = Tree.beginsLiteral [t] :=
        Tree.beginsLiteral_append hends
      cases hends with
      | nil => rfl
      | comma joint rest =>
        simp only [List.cons_append, List.nil_append] at h ⊢
        simp [h]
    | t :: t' :: row =>
      have h : Tree.beginsLiteral (t :: t' :: row ++ tail) = Tree.beginsLiteral (t :: t' :: row) :=
        Tree.beginsLiteral_append hends
      simp only [List.cons_append] at h ⊢
      split <;> simp_all
  · split
    · exact localAt_take _ (by simp)
    · exact .ite (fun h ↦ localAt_next (ne_nil_of_beginsLiteral h)) fun _ ↦ local_due _ _

theorem local_conventionIf : Local k conventionIf :=
  local_wordIf.bind fun _ ↦ .ite (fun row ↦
    .ahead (fun tail hends ↦ by simp only [Tree.beginsString_append hends])
      (.ite (fun _ ↦ local_literal row) fun _ ↦ local_pure _ row)) (local_pure _)

end Scan

end Deriving

end CurveCalc
