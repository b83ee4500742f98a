/-!
# Trails

A `Trail` is a list that is joined in constant time: what happened on the way to a result, gathered
from the pieces of a computation in the order they ran. `toList` gives the list itself.
-/

namespace CurveCalc

/-- A list built by joining pieces. -/
inductive Trail (α : Type) where
  | none
  | one (a : α)
  | both (first second : Trail α)

namespace Trail

variable {α β : Type}

/-- The elements in front of those of a given list. -/
def prepend : Trail α → List α → List α
  | .none, rest => rest
  | .one a, rest => a :: rest
  | .both s t, rest => s.prepend (t.prepend rest)

def toList (t : Trail α) : List α := t.prepend []

/-- Two trails, one after the other. -/
def append (s t : Trail α) : Trail α :=
  match s, t with
  | .none, t => t
  | s, .none => s
  | s, t => .both s t

instance : Append (Trail α) := ⟨append⟩

theorem prepend_eq (t : Trail α) (rest : List α) : t.prepend rest = t.toList ++ rest := by
  induction t generalizing rest with
  | none => rfl
  | one a => rfl
  | both s t ihs iht =>
    simp only [toList, prepend]
    rw [ihs, iht, ihs (t.prepend []), iht []]
    simp [List.append_assoc]

@[simp] theorem toList_none : (none : Trail α).toList = [] := rfl

@[simp] theorem toList_one (a : α) : (one a).toList = [a] := rfl

theorem toList_both (s t : Trail α) : (both s t).toList = s.toList ++ t.toList :=
  prepend_eq s t.toList

@[simp] theorem toList_append (s t : Trail α) : (s ++ t).toList = s.toList ++ t.toList := by
  show (append s t).toList = _
  unfold append
  split
  · rfl
  · simp
  · rw [toList_both]

end Trail

end CurveCalc
