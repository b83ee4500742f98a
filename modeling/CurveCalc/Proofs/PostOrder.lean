import CurveCalc.Expr.Walk
import Mathlib.Data.List.Nodup

/-!
# The walk is the recursive post order

`Expr.placesFrom` lists the nodes of a tree by recursion: those of the left operand, those of the
right operand, the node itself. A walk gets the same list out of one stack and the place of the node
it visited last.

## What the place of the last node decides

A node comes to the top of the stack twice, once before its operands and once after them, and only
the node visited last tells the two apart. The first time that node lies `Outside` the subtree: it
is to the left of it, or there is none. The second time it is the last operand. So a subtree on top
of the stack is visited as a whole, whatever lies below it (`Walk.Ends.push`), and the induction
over the tree needs nothing else.

Nodes are told apart by their places and not by their shape, which is what makes this true of trees
with equal subtrees. `Expr.at?` finds the subtree at an address, and the places of a walk are
exactly the addresses that lead somewhere, each of them once.
-/

namespace CurveCalc

namespace Expr

/-! ## Subtrees by their addresses -/

/-- The subtree at an address: which operand to take at each step, first step first. -/
def at? (e : Expr) : List Nat → Option Expr
  | [] => some e
  | i :: address => e.operands[i]?.bind fun a ↦ a.at? address

theorem at?_cons (e : Expr) (i : Nat) (address : List Nat) :
    e.at? (i :: address) = e.operands[i]?.bind fun a ↦ a.at? address := rfl

/-! ## The recursive order -/

/-- The nodes of a tree that stands at a path: those of its operands from left to right, then the
node itself. -/
def placesFrom (path : List Nat) (e : Expr) : List Place :=
  (match e with
    | .literal _ | .var => []
    | .paren a | .log a | .danglingPow a => a.placesFrom (0 :: path)
    | .binary _ a b | .logWith a b => a.placesFrom (0 :: path) ++ b.placesFrom (1 :: path)) ++
  [⟨path, e⟩]

/-- The nodes of a tree without their places. -/
def nodes (e : Expr) : List Expr :=
  (match e with
    | .literal _ | .var => []
    | .paren a | .log a | .danglingPow a => a.nodes
    | .binary _ a b | .logWith a b => a.nodes ++ b.nodes) ++
  [e]

theorem map_expr_placesFrom (path : List Nat) (e : Expr) :
    (e.placesFrom path).map Place.expr = e.nodes := by
  induction e generalizing path with
  | literal | var => rfl
  | paren a ih | log a ih | danglingPow a ih => simp [placesFrom, nodes, ih]
  | binary _ a b iha ihb | logWith a b iha ihb => simp [placesFrom, nodes, iha, ihb]

theorem length_nodes (e : Expr) : e.nodes.length = e.size := by
  induction e with
  | literal | var => rfl
  | paren a ih | log a ih | danglingPow a ih => simp [nodes, size, ih]
  | binary _ a b iha ihb | logWith a b iha ihb => simp [nodes, size, iha, ihb, Nat.add_assoc]

section Operands

variable {Q : Nat → Expr → Prop} {a b : Expr}

private theorem exists_operand_one :
    (∃ i c, [a][i]? = some c ∧ Q i c) ↔ Q 0 a := by
  constructor
  · rintro ⟨_ | i, c, hc, hQ⟩
    · obtain rfl := Option.some.inj hc
      exact hQ
    · exact absurd hc (by simp)
  · intro h
    exact ⟨0, a, rfl, h⟩

private theorem exists_operand_two :
    (∃ i c, [a, b][i]? = some c ∧ Q i c) ↔ Q 0 a ∨ Q 1 b := by
  constructor
  · rintro ⟨_ | _ | i, c, hc, hQ⟩
    · obtain rfl := Option.some.inj hc
      exact Or.inl hQ
    · obtain rfl := Option.some.inj hc
      exact Or.inr hQ
    · exact absurd hc (by simp)
  · rintro (h | h)
    · exact ⟨0, a, rfl, h⟩
    · exact ⟨1, b, rfl, h⟩

end Operands

/-- The place of a node is its address, written from its far end. -/
def StandsAt (e n : Expr) (path place : List Nat) : Prop :=
  ∃ address, place = address.reverse ++ path ∧ e.at? address = some n

theorem standsAt_iff {e n : Expr} {path place : List Nat} :
    StandsAt e n path place ↔ (place = path ∧ n = e) ∨
      ∃ i a, e.operands[i]? = some a ∧ StandsAt a n (i :: path) place := by
  constructor
  · rintro ⟨_ | ⟨i, address⟩, rfl, h⟩
    · exact Or.inl ⟨rfl, (Option.some.inj h).symm⟩
    · obtain ⟨a, ha, hrest⟩ := Option.bind_eq_some_iff.mp h
      exact Or.inr ⟨i, a, ha, address, by simp, hrest⟩
  · rintro (⟨rfl, rfl⟩ | ⟨i, a, ha, address, rfl, hrest⟩)
    · exact ⟨[], rfl, rfl⟩
    · exact ⟨i :: address, by simp, by rw [at?_cons, ha]; exact hrest⟩

/-- **The places of a tree are its addresses.** -/
theorem mem_placesFrom_iff {e n : Expr} {path place : List Nat} :
    ⟨place, n⟩ ∈ e.placesFrom path ↔ StandsAt e n path place := by
  rw [standsAt_iff]
  induction e generalizing path with
  | literal v => simp [placesFrom, operands]
  | var => simp [placesFrom, operands]
  | paren a ih | log a ih | danglingPow a ih =>
    rw [operands, exists_operand_one, placesFrom, List.mem_append, ih, ← standsAt_iff, or_comm]
    simp
  | binary _ a b iha ihb | logWith a b iha ihb =>
    rw [operands, exists_operand_two, placesFrom, List.mem_append, List.mem_append, iha, ihb,
      ← standsAt_iff, ← standsAt_iff, or_comm]
    simp

/-! ## Places do not overlap -/

theorem suffix_of_mem_placesFrom {e : Expr} {path : List Nat} {p : Place}
    (h : p ∈ e.placesFrom path) : path <:+ p.path := by
  obtain ⟨address, hplace, -⟩ := mem_placesFrom_iff.mp h
  exact ⟨address.reverse, hplace.symm⟩

theorem path_notMem_placesFrom (path : List Nat) (i : Nat) (a : Expr) :
    path ∉ (a.placesFrom (i :: path)).map Place.path := by
  intro hmem
  obtain ⟨p, hp, hpath⟩ := List.mem_map.mp hmem
  have hlength := (suffix_of_mem_placesFrom hp).length_le
  rw [hpath, List.length_cons] at hlength
  omega

theorem disjoint_placesFrom (path : List Nat) (a b : Expr) :
    ((a.placesFrom (0 :: path)).map Place.path).Disjoint
      ((b.placesFrom (1 :: path)).map Place.path) := by
  intro place ha hb
  obtain ⟨p, hp, rfl⟩ := List.mem_map.mp ha
  obtain ⟨q, hq, hpath⟩ := List.mem_map.mp hb
  have hsuffix := suffix_of_mem_placesFrom hq
  rw [hpath] at hsuffix
  have hcons :=
    List.suffix_of_suffix_length_le hsuffix (suffix_of_mem_placesFrom hp) (Nat.le_refl _)
  exact absurd (List.cons.inj (hcons.eq_of_length rfl)).1 (by decide)

/-- **No place comes twice.** -/
theorem nodup_path_placesFrom (path : List Nat) (e : Expr) :
    ((e.placesFrom path).map Place.path).Nodup := by
  induction e generalizing path with
  | literal | var => simp [placesFrom]
  | paren a ih | log a ih | danglingPow a ih =>
    rw [placesFrom, List.map_append, List.map_singleton, ← List.concat_eq_append,
      List.nodup_concat]
    exact ⟨path_notMem_placesFrom path 0 a, ih _⟩
  | binary _ a b iha ihb | logWith a b iha ihb =>
    rw [placesFrom, List.map_append, List.map_singleton, ← List.concat_eq_append,
      List.nodup_concat, List.map_append, List.mem_append, not_or]
    exact ⟨⟨path_notMem_placesFrom path 0 a, path_notMem_placesFrom path 1 b⟩,
      (iha _).append (ihb _) (disjoint_placesFrom path a b)⟩

/-! ## Walks that end -/

/-- How many turns a walk spends on a tree: one for a leaf, two for any other node. -/
def turns : Expr → Nat
  | .literal _ | .var => 1
  | .paren a | .log a | .danglingPow a => a.turns + 2
  | .binary _ a b | .logWith a b => a.turns + b.turns + 2

theorem turns_le (e : Expr) : e.turns ≤ 2 * e.size := by
  induction e with
  | literal | var => exact Nat.le_succ 1
  | paren a ih | log a ih | danglingPow a ih =>
    rw [turns, size]
    omega
  | binary _ a b iha ihb | logWith a b iha ihb =>
    rw [turns, size]
    omega

namespace Walk

/-- The node visited last, if there is one, is not in the subtree at a path. -/
def Outside (path : List Nat) (last? : Option (List Nat)) : Prop :=
  ∀ place, last? = some place → ¬path <:+ place

/-- A walk that ends after a number of turns, and the places that it visits on the way. -/
inductive Ends : Walk → Nat → List Place → Prop
  | finished {w : Walk} (h : w.turn = .finished) : Ends w 0 []
  | visited {w w' : Walk} {p : Place} {n : Nat} {ps : List Place} (h : w.turn = .visited p w')
    (hrest : Ends w' n ps) : Ends w (n + 1) (p :: ps)
  | descended {w w' : Walk} {n : Nat} {ps : List Place} (h : w.turn = .descended w')
    (hrest : Ends w' n ps) : Ends w (n + 1) ps

variable {w : Walk} {p : Place} {rest : List Place} {path : List Nat} {last? : Option (List Nat)}
  {n : Nat} {ps : List Place}

theorem Outside.operand (h : Outside path last?) (i : Nat) : Outside (i :: path) last? :=
  fun place hlast hsuffix ↦ h place hlast ((List.suffix_cons i path).trans hsuffix)

theorem outside_start (path : List Nat) : Outside path none :=
  fun _ hlast ↦ absurd hlast (by simp)

/-- When the left operand has just been visited, the walk has not been inside the right one. -/
theorem outside_right (path : List Nat) : Outside (1 :: path) (some (0 :: path)) := by
  intro place hlast hsuffix
  obtain rfl := Option.some.inj hlast
  exact absurd (List.cons.inj (hsuffix.eq_of_length rfl)).1 (by decide)

/-- A node is not due while the walk has not been inside its subtree. -/
theorem isDue_of_outside {e : Expr} (h : Outside path last?) (he : e.operands ≠ []) :
    isDue ⟨path, e⟩ last? = false := by
  rw [isDue]
  split
  · next hnone =>
    rw [List.getLast?_eq_none_iff, Place.operands, List.mapIdx_eq_nil_iff] at hnone
    exact absurd hnone he
  · next operand hoperand =>
    obtain ⟨i, a, -, rfl⟩ := List.mem_mapIdx.mp (List.mem_of_getLast? hoperand)
    rw [decide_eq_false_iff_not]
    exact fun hlast ↦ h _ hlast (List.suffix_cons i path)

namespace Ends

/-- Turns beyond the last change nothing. -/
theorem run_eq (h : Ends w n ps) {m : Nat} (hle : n ≤ m) : run m w = ps := by
  induction h generalizing m with
  | finished h =>
    cases m with
    | zero => rfl
    | succ m => rw [run, h]
  | visited h _ ih =>
    obtain ⟨m, rfl⟩ := Nat.exists_eq_succ_of_ne_zero (Nat.ne_zero_of_lt hle)
    rw [run, h]
    exact congrArg _ (ih (Nat.le_of_succ_le_succ hle))
  | descended h _ ih =>
    obtain ⟨m, rfl⟩ := Nat.exists_eq_succ_of_ne_zero (Nat.ne_zero_of_lt hle)
    rw [run, h]
    exact ih (Nat.le_of_succ_le_succ hle)

theorem visit (hdue : isDue p last? = true) (h : Ends ⟨rest, some p.path⟩ n ps) :
    Ends ⟨p :: rest, last?⟩ (n + 1) (p :: ps) :=
  .visited (if_pos hdue) h

theorem descend (hdue : isDue p last? = false)
    (h : Ends ⟨p.operands ++ p :: rest, last?⟩ n ps) : Ends ⟨p :: rest, last?⟩ (n + 1) ps :=
  .descended (if_neg (by rw [hdue]; exact Bool.false_ne_true)) h

/-- **A subtree on top of the stack is visited as a whole**, and then the walk goes on with what was
below it. -/
theorem push {e : Expr} (h : Ends ⟨rest, some path⟩ n ps) (hout : Outside path last?) :
    Ends ⟨⟨path, e⟩ :: rest, last?⟩ (e.turns + n) (e.placesFrom path ++ ps) := by
  induction e generalizing path rest last? n ps with
  | literal v =>
    rw [turns, Nat.add_comm]
    exact h.visit rfl
  | var =>
    rw [turns, Nat.add_comm]
    exact h.visit rfl
  | paren a ih | log a ih | danglingPow a ih =>
    rw [turns, placesFrom, List.append_assoc, show a.turns + 2 + n = a.turns + (n + 1) + 1 by omega]
    refine descend (isDue_of_outside hout (by simp [operands])) ?_
    exact ih (h.visit (by simp [isDue, Place.operands, operands])) (hout.operand 0)
  | binary _ a b iha ihb | logWith a b iha ihb =>
    rw [turns, placesFrom, List.append_assoc, List.append_assoc,
      show a.turns + b.turns + 2 + n = a.turns + (b.turns + (n + 1)) + 1 by omega]
    refine descend (isDue_of_outside hout (by simp [operands])) ?_
    -- the right operand is visited after the left one, and then the node is due
    refine iha (ihb ?_ (outside_right path)) (hout.operand 0)
    exact h.visit (by simp [isDue, Place.operands, operands])

end Ends

theorem ends_start (e : Expr) : (start e).Ends e.turns (e.placesFrom []) := by
  have hdone : Ends ⟨[], some []⟩ 0 [] := .finished rfl
  have h := hdone.push (e := e) (outside_start [])
  rwa [Nat.add_zero, List.append_nil] at h

end Walk

/-! ## All nodes -/

theorem places_eq_placesFrom (e : Expr) : e.places = e.placesFrom [] :=
  (Walk.ends_start e).run_eq e.turns_le

theorem postOrder_eq_nodes (e : Expr) : e.postOrder = e.nodes := by
  rw [postOrder, places_eq_placesFrom, map_expr_placesFrom]

theorem nodeCount_eq_size (e : Expr) : e.nodeCount = e.size := by
  rw [nodeCount, ← List.length_map (f := Place.expr), ← postOrder, postOrder_eq_nodes, length_nodes]

/-- **A walk is the recursive post order.** It ends, after at most two turns for each node, and it
has visited the nodes of the left operand of each node, then those of the right one, then the node
itself. Each address of the tree comes once, with the subtree that is found there, and so the number
of nodes visited is that of the tree. -/
theorem walk_eq_postOrder (e : Expr) :
    (Walk.start e).Ends e.turns e.places ∧ e.turns ≤ 2 * e.size ∧
      e.places = e.placesFrom [] ∧ e.postOrder = e.nodes ∧
      (e.places.map Place.path).Nodup ∧
      (∀ (address : List Nat) (n : Expr),
        ⟨address.reverse, n⟩ ∈ e.places ↔ e.at? address = some n) ∧
      e.nodeCount = e.size := by
  have hplaces := e.places_eq_placesFrom
  refine ⟨?_, e.turns_le, hplaces, e.postOrder_eq_nodes, ?_, fun address n ↦ ?_,
    e.nodeCount_eq_size⟩
  · rw [hplaces]
    exact Walk.ends_start e
  · rw [hplaces]
    exact nodup_path_placesFrom [] e
  · rw [hplaces, mem_placesFrom_iff, StandsAt]
    simp [List.reverse_inj]

/-- Equal subtrees are different nodes. -/
example : (binary .mul var var).places = [⟨[0], var⟩, ⟨[1], var⟩, ⟨[], binary .mul var var⟩] := rfl

end Expr

end CurveCalc
