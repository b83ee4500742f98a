import CurveCalc.Expr.Basic
import CurveCalc.Grammar.Split
import CurveCalc.Trail

/-!
# Readings

What comes of reading a stretch of text: its tree, and beside it whether the depth limit cut the
reading off somewhere, and the trail of all splits that were tried, in order. The operations say how
the readings of parts make up the reading of the whole; seen through `tree?` they are those of
optional values.
-/

namespace CurveCalc

namespace Grammar

/-- The outcome of reading a stretch of text at a level. -/
structure Reading where
  /-- The tree, if the level matched. -/
  tree? : Option Expr
  /-- Whether some level was not entered because of the depth limit. -/
  limited : Bool
  /-- The splits tried on the way, in order. -/
  tried : Trail Split

namespace Reading

/-- A reading that tried nothing. -/
def ofOption (tree? : Option Expr) : Reading := ⟨tree?, false, .none⟩

/-- The reading of a level that the depth limit closes. -/
def closed : Reading := ⟨none, true, .none⟩

/-- The same reading with its tree put into a node. -/
def map (f : Expr → Expr) (r : Reading) : Reading := { r with tree? := r.tree?.map f }

/-- The first reading, or where it has no tree, the second after it. -/
def orElse (r : Reading) (next : Unit → Reading) : Reading :=
  match r.tree? with
  | some _ => r
  | none =>
    let r' := next ()
    ⟨r'.tree?, r.limited || r'.limited, r.tried ++ r'.tried⟩

/-- The reading of a split: its left side, and if that has a tree, its right side. -/
def ofSplit (s : Split) (left : Reading) (right : Unit → Reading) : Reading :=
  match left.tree? with
  | none => ⟨none, left.limited, .one s ++ left.tried⟩
  | some a =>
    let right := right ()
    ⟨right.tree?.map (.binary s.op a), left.limited || right.limited,
      .one s ++ left.tried ++ right.tried⟩

/-- The first reading with a tree among those of the elements of a list. -/
def first {α : Type} (f : α → Reading) : List α → Reading
  | [] => ofOption none
  | a :: as => (f a).orElse fun _ ↦ first f as

/-! ## The tree of a reading -/

@[simp] theorem tree?_ofOption (t : Option Expr) : (ofOption t).tree? = t := rfl

@[simp] theorem tree?_closed : closed.tree? = none := rfl

@[simp] theorem tree?_map (f : Expr → Expr) (r : Reading) : (r.map f).tree? = r.tree?.map f := rfl

@[simp] theorem tree?_orElse (r : Reading) (next : Unit → Reading) :
    (r.orElse next).tree? = r.tree?.or (next ()).tree? := by
  unfold orElse
  split <;> simp_all

@[simp] theorem tree?_ofSplit (s : Split) (left : Reading) (right : Unit → Reading) :
    (ofSplit s left right).tree? =
      left.tree?.bind fun a ↦ (right ()).tree?.map (.binary s.op a) := by
  unfold ofSplit
  split <;> simp_all

@[simp] theorem tree?_first {α : Type} (f : α → Reading) (as : List α) :
    (first f as).tree? = as.findSome? fun a ↦ (f a).tree? := by
  induction as with
  | nil => rfl
  | cons a as ih =>
    rw [first, tree?_orElse, ih, List.findSome?_cons]
    cases (f a).tree? <;> rfl

theorem first_map {α β : Type} (f : β → Reading) (g : α → β) (as : List α) :
    first f (as.map g) = first (fun a ↦ f (g a)) as := by
  induction as with
  | nil => rfl
  | cons a as ih => rw [List.map_cons, first, first, ih]

end Reading

end Grammar

end CurveCalc
