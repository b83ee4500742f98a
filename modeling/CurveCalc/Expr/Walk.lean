import CurveCalc.Expr.Basic

/-!
# Walking a tree, children first

A `Walk` visits every node of a tree after its operands, from left to right, with a stack of nodes
still to visit and the node visited last. Nodes are told apart by their *place*, the path from the
root, and not by their shape: equal subtrees at different places are different nodes.

A turn either visits the node on top of the stack or puts its operands above it. A node is visited
when its last operand was visited just before.
-/

namespace CurveCalc

namespace Expr

def operands : Expr → List Expr
  | .literal _ | .var => []
  | .paren e | .log e | .danglingPow e => [e]
  | .binary _ a b | .logWith a b => [a, b]

/-- A node of a tree: which operand to take at each step from the root, last step first, and the
subtree that is found there. -/
structure Place where
  path : List Nat
  expr : Expr

def Place.operands (p : Place) : List Place :=
  p.expr.operands.mapIdx fun i e ↦ ⟨i :: p.path, e⟩

/-- A walk that is under way. -/
structure Walk where
  /-- The nodes still to visit, the next one first. -/
  pending : List Place
  /-- Where the node visited last is. -/
  last? : Option (List Nat)

namespace Walk

/-- The walk that has not visited anything yet. -/
def start (e : Expr) : Walk := ⟨[⟨[], e⟩], none⟩

/-- What one turn of a walk does. -/
inductive Turn where
  | finished
  | visited (place : Place) (walk : Walk)
  | descended (walk : Walk)

/-- Whether the operands of a node are done, when the node visited last is the given one. -/
def isDue (p : Place) (last? : Option (List Nat)) : Bool :=
  match p.operands.getLast? with
  | none => true
  | some operand => decide (last? = some operand.path)

def turn (w : Walk) : Turn :=
  match w.pending with
  | [] => .finished
  | p :: rest =>
    if isDue p w.last? then .visited p ⟨rest, some p.path⟩
    else .descended ⟨p.operands ++ p :: rest, w.last?⟩

/-- The nodes visited in a number of turns, in order. -/
def run : Nat → Walk → List Place
  | 0, _ => []
  | turns + 1, w =>
    match w.turn with
    | .finished => []
    | .visited p w' => p :: run turns w'
    | .descended w' => run turns w'

end Walk

/-- All nodes, children first. No node takes more than two turns, one to put its operands on the
stack and one to be visited. -/
def places (e : Expr) : List Place := Walk.run (2 * e.size) (Walk.start e)

/-- The subtrees of all nodes, children first. -/
def postOrder (e : Expr) : List Expr := e.places.map Place.expr

/-- The number of nodes visited. -/
def nodeCount (e : Expr) : Nat := e.places.length

end Expr

end CurveCalc
