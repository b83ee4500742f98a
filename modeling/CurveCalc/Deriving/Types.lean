import CurveCalc.Deriving.Path

/-!
# Types

Type arguments directly follow a name in a type. In an expression, where `<` compares, a `::` comes
before them. A list in angle brackets ends at the first `>` that is not inside another, also where
that touches the next mark: so two lists can end at once.
-/

namespace CurveCalc

namespace Deriving

/-- What a path looks like to the tokens after it. -/
structure PathShape where
  /-- It starts with a type in angle brackets. -/
  qualified : Bool
  /-- It has no type arguments at all. -/
  plain : Bool
  /-- It is one name, perhaps with type arguments in angle brackets. -/
  single : Bool
  /-- Its last name has type arguments. -/
  closed : Bool

namespace Scan

/-- The items of a list in angle brackets, and the closing one. -/
def untilAngle (item : Scan Unit) : Scan Unit := do
  iterate (fun _ ↦ do
    if Tree.beginsMark ">" (← ahead) then return ((), false)
    item
    if Tree.beginsMark ">" (← ahead) then return ((), false)
    mark ","
    return ((), true)) ()
  mark ">"

/-- Items with `+` between them, up to a place where the list can stop. -/
def sumUntil (stops : List Tree → Bool) (item : Scan Unit) : Scan Unit :=
  iterate (fun _ ↦ do
    if stops (← ahead) then return ((), false)
    item
    return ((), ← markIf "+")) ()

end Scan

namespace Phrases

variable (p : Phrases)

/-! ## Type arguments -/

/-- A constant among type arguments: a literal, or a block. -/
def constant : Scan Unit := do
  if Tree.beginsGroup .brace (← Scan.ahead) then p.block else Scan.literal

/-- What is after the parentheses of a function: the type of its result, if that is given. -/
def resultType (plus : Bool) : Scan Unit := do
  if ← Scan.markIf "->" then discard (p.type plus)

/-- The types of a function's parameters, and of its result. -/
def signature : Scan Unit := do
  Scan.inside .parenthesis (Scan.separated (discard (p.type true)))
  p.resultType false

/-- The lifetimes for which something holds. -/
def boundLifetimes : Scan Unit := do
  if ← Scan.wordIf "for" then
    Scan.mark "<"
    Scan.untilAngle do
      discard p.attributes
      Scan.lifetime

/-- A type argument: a lifetime, a constant, a type, or a name with what is assigned to it or what
it is bounded by. -/
def typeArgument : Scan Unit := do
  let trees ← Scan.ahead
  if Tree.beginsLifetime trees && !Tree.beginsMark "+" (trees.drop 2) then Scan.lifetime
  else if Tree.beginsLiteral trees || Tree.beginsGroup .brace trees then p.constant
  else if ← p.type true then
    if ← Scan.markIf "=" then
      let trees ← Scan.ahead
      if Tree.beginsLiteral trees || Tree.beginsGroup .brace trees then p.constant
      else discard (p.type true)
    else if ← Scan.markIf ":" then
      Scan.sumUntil (Tree.beginsAnyMark [",", ">"]) p.bound

/-! ## Paths -/

/-- A name of a path, with its type arguments; the result says whether it has some. -/
def segment (inType : Bool) : Scan Bool := do
  if Tree.beginsAnyWord ["super", "self", "crate", "try"] (← Scan.ahead) then
    discard Scan.someWord
    return false
  if Tree.beginsWord "Self" (← Scan.ahead) then discard Scan.someWord
  else discard Scan.identifier
  let trees ← Scan.ahead
  if inType && Tree.beginsMark "<" trees && !Tree.beginsAnyMark ["<=", "<<="] trees
      || Tree.beginsMark "::" trees && Tree.beginsMark "<" (trees.drop 2) then
    discard (Scan.markIf "::")
    Scan.mark "<"
    Scan.untilAngle p.typeArgument
    return true
  else return false

/-- The names of a path after those already read. -/
def segments (inType : Bool) : PathShape → Scan PathShape :=
  Scan.iterate fun shape ↦ do
    let trees ← Scan.ahead
    if Tree.beginsMark "::" trees && !Tree.beginsGroup .parenthesis (trees.drop 2) then
      Scan.mark "::"
      let closed ← p.segment inType
      return ({ shape with plain := shape.plain && !closed, single := false, closed := closed },
        true)
    else return (shape, false)

def path (inType : Bool) : Scan PathShape := do
  let absolute ← Scan.markIf "::"
  let closed ← p.segment inType
  p.segments inType ⟨false, !closed, !absolute, closed⟩

/-- A path of names, or one that starts with a type in angle brackets. -/
def qualifiedPath (inType : Bool) : Scan PathShape := do
  if ← Scan.markIf "<" then
    discard (p.type true)
    if ← Scan.wordIf "as" then discard (p.path true)
    Scan.mark ">"
    Scan.mark "::"
    let closed ← p.segment inType
    Scan.iterate (fun shape ↦ do
      if ← Scan.markIf "::" then
        return ({ shape with closed := ← p.segment inType }, true)
      else return (shape, false)) ⟨true, false, false, closed⟩
  else p.path inType

/-! ## Bounds -/

/-- Whether the types of a function's parameters come next, perhaps after a `::`. -/
def beginsSignature (trees : List Tree) : Bool :=
  Tree.beginsGroup .parenthesis trees
    || Tree.beginsMark "::" trees && Tree.beginsGroup .parenthesis (trees.drop 2)

/-- The types of a function's parameters after its name. A `::` before them is not written. -/
def namedSignature : Scan Unit := do
  if Tree.beginsMark "::" (← Scan.ahead) then Scan.take 2 []
  p.signature

/-- A trait that bounds a type; it may be optional or hold for all lifetimes of some names. -/
def trait : Scan Unit := do
  p.boundLifetimes
  if ← Scan.markIf "?" then p.boundLifetimes
  let shape ← p.path true
  if !shape.closed && beginsSignature (← Scan.ahead) then p.namedSignature

/-- The reader of a bound for one more level of nesting. -/
def nextBound : Scan Unit := do
  let trees ← Scan.ahead
  if Tree.beginsLifetime trees then Scan.lifetime
  else if Tree.beginsGroup .parenthesis trees then Scan.inside .parenthesis p.trait
  else p.trait

def beginsBound (trees : List Tree) : Bool :=
  Tree.beginsSomeWord trees || Tree.beginsAnyMark ["::", "?"] trees || Tree.beginsLifetime trees
    || Tree.beginsGroup .parenthesis trees

/-- Bounds after the first: each after a `+`, and one more `+` perhaps. -/
def moreBounds : Scan Unit := do
  if ← Scan.markIf "+" then
    Scan.sumUntil (fun trees ↦ !beginsBound trees) p.bound

def bounds (plus : Bool) : Scan Unit := do
  p.bound
  if plus then p.moreBounds

/-! ## Types -/

/-- The things of which one is due where a type is. -/
def typeChoices : List Expected :=
  [.token "for", .group .parenthesis, .token "fn", .token "unsafe", .token "extern", .identifier,
    .token "::", .token "<", .token "dyn", .group .bracket, .token "*", .token "&", .token "!",
    .token "impl", .token "_", .lifetime]

/-- The things of which one is due after the lifetimes that a type holds for. -/
def boundTypeChoices : List Expected :=
  [.identifier, .token "fn", .token "unsafe", .token "extern", .token "super", .token "self",
    .token "Self", .token "crate"]

/-- What is in the parentheses of a type; the result says whether it is a single name that bounds
can be added to. -/
def innerType : Scan Bool := do
  let trees ← Scan.ahead
  if trees.isEmpty then return false
  if Tree.beginsMark "?" trees then
    p.trait
    return true
  let single ← p.type true
  if Tree.beginsMark "," (← Scan.ahead) then
    Scan.mark ","
    Scan.separated (discard (p.type true))
    return false
  else return single

/-- A parameter of a function type: a type, perhaps with a name before it. -/
def functionParameter : Scan Unit := do
  discard p.attributes
  let trees ← Scan.ahead
  if Tree.beginsMark "..." trees then Scan.mark "..."
  else
    if (Tree.beginsIdentifier trees || Tree.beginsAnyWord ["_", "self"] trees)
        && Tree.beginsMark ":" (trees.drop 1) && !Tree.beginsMark "::" (trees.drop 1) then
      discard Scan.someWord
      Scan.mark ":"
    if !(← Scan.markIf "...") then discard (p.type true)

/-- The type of a function without its lifetimes. -/
def functionType : Scan Unit := do
  discard (Scan.wordIf "unsafe")
  Scan.conventionIf
  Scan.word "fn"
  Scan.inside .parenthesis (Scan.separated p.functionParameter)
  p.resultType false

/-- A type that starts with a path: the path, with the parameters of a function perhaps, a macro
call, or a sum of bounds. -/
def pathType (plus holds : Bool) : Scan Bool := do
  let shape ← p.qualifiedPath true
  let shape ← Scan.iterate (fun shape ↦ do
    if !shape.closed && beginsSignature (← Scan.ahead) then
      p.namedSignature
      let shape : PathShape := ⟨shape.qualified, false, false, true⟩
      return (← p.segments true shape, true)
    else return (shape, false)) shape
  let trees ← Scan.ahead
  if shape.qualified then return false
  else if Tree.beginsBang trees && shape.plain then
    Scan.mark "!"
    discard Scan.anyGroup
    return false
  else if plus && Tree.beginsMark "+" trees then
    p.moreBounds
    return false
  else return shape.single && !holds

/-- The reader of a type for one more level of nesting. -/
def nextType (plus : Bool) : Scan Bool := do
  let holds := Tree.beginsWord "for" (← Scan.ahead)
  p.boundLifetimes
  let trees ← Scan.ahead
  if holds && !Tree.beginsIdentifier trees
      && !Tree.beginsAnyWord ["fn", "unsafe", "extern", "super", "self", "Self", "crate"] trees then
    Scan.due boundTypeChoices
  else if Tree.beginsGroup .parenthesis trees then
    let single ← Scan.inside .parenthesis p.innerType
    if single && plus then p.moreBounds
    return false
  else if Tree.beginsAnyWord ["fn", "unsafe", "extern"] trees then
    p.functionType
    return false
  else if Tree.beginsPath trees then p.pathType plus holds
  else if ← Scan.wordIf "dyn" then
    discard (Scan.markIf "*")
    p.bounds plus
    return false
  else if Tree.beginsGroup .bracket trees then
    Scan.inside .bracket do
      discard (p.type true)
      if ← Scan.markIf ";" then p.anyExpression
    return false
  else if ← Scan.markIf "*" then
    if Tree.beginsAnyWord ["const", "mut"] (← Scan.ahead) then Scan.next
    else Scan.due [.token "const", .token "mut"]
    discard (p.type false)
    return false
  else if ← Scan.markIf "&" then
    Scan.lifetimeIf
    discard (Scan.wordIf "mut")
    discard (p.type false)
    return false
  else if Tree.beginsMark "!" trees && !Tree.beginsMark "=" trees then
    Scan.mark "!"
    return false
  else if ← Scan.wordIf "impl" then
    p.bounds plus
    return false
  else if ← Scan.wordIf "_" then return false
  else if Tree.beginsLifetime trees then
    p.bounds plus
    return false
  else Scan.due typeChoices

end Phrases

end Deriving

end CurveCalc
