import CurveCalc.Deriving.Declaration

/-!
# Items

A block can hold items of all kinds: functions, values, types, structures, choices, traits and their
implementations, modules, and what is brought in from elsewhere. Those in the braces of another item
have readers of their own; a module is a phrase with others of its kind inside.
-/

namespace CurveCalc

namespace Deriving

namespace Tree

/-! ## What an item starts with -/

/-- A row of trees behind a word that can be at its front. -/
def afterWord (text : String) (trees : List Tree) : List Tree :=
  if beginsWord text trees then trees.drop 1 else trees

/-- The trees behind the words and the text that can be before the `fn` of a function. Only a
function from elsewhere can be `safe`. -/
def afterQualifiers (foreign : Bool) (trees : List Tree) : List Tree :=
  let rest := afterWord "async" (afterWord "const" trees)
  let rest := if foreign && beginsWord "safe" rest then rest.drop 1 else afterWord "unsafe" rest
  if beginsWord "extern" rest then
    if beginsString (rest.drop 1) then rest.drop 2 else rest.drop 1
  else rest

def beginsFunction (foreign : Bool) (trees : List Tree) : Bool :=
  beginsWord "fn" (afterQualifiers foreign trees)

/-- Whether a row of trees starts with the value that a method is called on. -/
def beginsReceiver (trees : List Tree) : Bool :=
  let rest := trees.drop 1
  let value := if !beginsMark "&" trees then trees
    else if beginsLifetime rest then rest.drop 2 else rest
  beginsWord "self" (afterWord "mut" value)

/-- Whether angle brackets after `impl` hold parameters, and are not part of a type. -/
def beginsParameters (trees : List Tree) : Bool :=
  let rest := trees.drop 1
  let behind := if beginsLifetime rest then rest.drop 2 else rest.drop 1
  beginsMark "<" trees
    && (beginsAnyMark [">", "#"] rest || beginsWord "const" rest
      || (beginsLifetime rest || beginsIdentifier rest)
        && beginsAnyMark [":", ",", ">", "="] behind)

/-- Whether a row of trees starts with the path of a macro. -/
def beginsCallee (trees : List Tree) : Bool :=
  beginsIdentifier trees || beginsAnyWord ["self", "super", "crate"] trees || beginsMark "::" trees

end Tree

/-- The things of which one is due where a macro call can be. -/
def calleeChoices : List Expected :=
  [.identifier, .token "self", .token "super", .token "crate", .token "::"]

/-- The things of which one is due where an item that can be seen from elsewhere is. -/
def itemChoices : List Expected :=
  ["fn", "extern", "use", "static", "const", "unsafe", "mod", "type", "struct", "enum", "union",
    "trait", "auto", "impl", "default", "macro"].map .token

namespace Scan

/-- A semicolon, where these things are due. -/
def semicolon (choices : List Expected) : Scan Unit := do
  if !(← markIf ";") then due choices

/-- The tokens that a scan takes are not written. -/
def unwritten (scan : Scan Unit) : Scan Unit := fun trees ↦
  (scan trees).map fun t ↦ { t with written := [] }

/-- A macro call among items; `named` if it can give a name to something. -/
def macroItem (named : Bool) : Scan Unit := do
  discard plainPath
  mark "!"
  let trees ← ahead
  if named && (Tree.beginsIdentifier trees || Tree.beginsWord "try" trees) then next
  let d ← anyGroup
  if d ≠ .brace then mark ";"

/-- A macro that is declared as an item. -/
def macroDefinition : Scan Unit := do
  word "macro"
  discard identifier
  let listed := Tree.beginsGroup .parenthesis (← ahead)
  if listed then next
  if Tree.beginsGroup .brace (← ahead) then next
  else due (if listed then [.group .brace] else [.group .parenthesis, .group .brace])

/-- A library that is brought in, perhaps by another name. -/
def library : Scan Unit := do
  word "extern"
  word "crate"
  if !(← wordIf "self") then discard identifier
  if ← wordIf "as" then
    if !(← wordIf "_") then discard identifier
  mark ";"

end Scan

namespace Phrases

variable (p : Phrases)

/-! ## Functions -/

def receiver : Scan Unit := do
  let reference ← Scan.markIf "&"
  if reference then Scan.lifetimeIf
  discard (Scan.wordIf "mut")
  Scan.word "self"
  if !reference then
    if ← Scan.markIf ":" then discard (p.type true)

/-- A parameter of a function with its pattern and type; the result says whether more can follow,
which is not so for points that stand for any number of values. A type alone has no pattern. -/
def declaredParameter : Scan Bool := do
  let trees ← Scan.ahead
  if ← Scan.markIf "..." then return false
  if Tree.beginsIdentifier trees && Tree.beginsMark "<" (trees.drop 1) then
    Scan.take 0 [.word ['_'], .mark [':'] false]
    discard (p.type true)
    return true
  else
    p.pattern
    Scan.mark ":"
    if ← Scan.markIf "..." then return false
    discard (p.type true)
    return true

/-- The parameters of a function. The value that a method is called on comes first; what has been
read so far is nothing, or something with or without that value. -/
def declaredParameters : Scan Unit :=
  discard <| Scan.iterate (fun before : Option Bool ↦ do
    if ← Scan.atEnd then return (before, false)
    discard p.attributes
    if Tree.beginsReceiver (← Scan.ahead) then
      p.receiver
      if let some again := before then Scan.fail (.misplacedReceiver again)
      if ← Scan.atEnd then return (some true, false)
      Scan.mark ","
      return (some true, true)
    else
      let more ← p.declaredParameter
      if ← Scan.atEnd then return (before, false)
      Scan.mark ","
      return (some (before.getD false), more)) none

def conditionsIf : Scan Unit := do
  if Tree.beginsWord "where" (← Scan.ahead) then p.conditions

/-- A function up to its block. -/
def functionHead (foreign : Bool) : Scan Unit := do
  for word in ["const", "async"] do
    discard (Scan.wordIf word)
  if !(← Scan.wordIf "unsafe") && foreign then discard (Scan.wordIf "safe")
  Scan.conventionIf
  Scan.word "fn"
  discard Scan.identifier
  p.generics
  Scan.inside .parenthesis p.declaredParameters
  p.resultType true
  p.conditionsIf

/-- A function; without a block it ends in a semicolon, where `choices` are due. -/
def function (foreign : Bool) (choices : List Expected) : Scan Unit := do
  p.functionHead foreign
  if Tree.beginsGroup .brace (← Scan.ahead) then p.block else Scan.semicolon choices

/-! ## Values and types -/

def constantItem : Scan Unit := do
  Scan.word "const"
  let trees ← Scan.ahead
  if Tree.beginsIdentifier trees || Tree.beginsWord "_" trees then Scan.next
  else Scan.due [.identifier, .token "_"]
  p.generics
  Scan.mark ":"
  discard (p.type true)
  if ← Scan.markIf "=" then p.anyExpression
  p.conditionsIf
  Scan.mark ";"

/-- A value with a name; its type is given, or at least the value. -/
def staticItem : Scan Unit := do
  Scan.word "static"
  discard (Scan.wordIf "mut")
  discard Scan.identifier
  if !Tree.beginsMark "=" (← Scan.ahead) then
    Scan.mark ":"
    discard (p.type true)
  if !Tree.beginsMark ";" (← Scan.ahead) then
    Scan.mark "="
    p.anyExpression
  Scan.mark ";"

/-- Another name for a type, perhaps with bounds. Conditions can stand before the equals sign if
`early` holds, and behind the type if `late` does. -/
def typeItem (early late : Bool) : Scan Unit := do
  Scan.word "type"
  discard Scan.identifier
  p.generics
  if ← Scan.markIf ":" then
    Scan.sumUntil (fun trees ↦
      Tree.beginsWord "where" trees || Tree.beginsAnyMark ["=", ";"] trees) p.bound
  let conditional := early && Tree.beginsWord "where" (← Scan.ahead)
  if conditional then p.conditions
  if ← Scan.markIf "=" then discard (p.type true)
  if late && !conditional then p.conditionsIf
  Scan.mark ";"

/-- A case of an enumeration: its name, its fields, and the number that it has. -/
def variant : Scan Unit := do
  discard p.attributes
  Scan.unwritten visibility
  discard Scan.identifier
  let trees ← Scan.ahead
  if Tree.beginsGroup .brace trees then discard p.namedFields
  else if Tree.beginsGroup .parenthesis trees then
    Scan.inside .parenthesis (Scan.separated p.unnamedField)
  if ← Scan.markIf "=" then p.anyExpression

/-- The word that a type is declared by, its name, its parameters and the conditions on them. -/
def typeHead (text : String) : Scan Unit := do
  Scan.word text
  discard Scan.identifier
  p.generics
  p.conditionsIf

def enumeration : Scan Unit := do
  p.typeHead "enum"
  Scan.inside .brace (Scan.separated p.variant)

def unionItem : Scan Unit := do
  p.typeHead "union"
  discard p.namedFields

/-! ## Names from elsewhere -/

/-- What is brought in: names with `::` between them, and at the end a name that can be changed, a
star, or more of the kind in braces. These can start at the root if `rooted` holds. -/
def importPath (rooted : Bool) : Scan Unit :=
  discard <| Scan.iterate (fun rooted ↦ do
    let trees ← Scan.ahead
    if Tree.beginsIdentifier trees
        || Tree.beginsAnyWord ["self", "super", "crate", "try"] trees then
      Scan.next
      if ← Scan.markIf "::" then return (false, true)
      if ← Scan.wordIf "as" then
        let trees ← Scan.ahead
        if Tree.beginsIdentifier trees || Tree.beginsWord "_" trees then Scan.next
        else Scan.due [.identifier, .underscore]
      return (false, false)
    else if ← Scan.markIf "*" then return (false, false)
    else if Tree.beginsGroup .brace trees then
      p.imports rooted
      return (false, false)
    else Scan.due [.identifier, .token "self", .token "super", .token "crate", .token "try",
      .token "*", .group .brace]) rooted

/-- What is brought in, perhaps with a `::` in front if it can start at the root. -/
def rootedPath (rooted : Bool) : Scan Unit := do
  let root ← if rooted then Scan.markIf "::" else pure false
  p.importPath (rooted && !root)

/-- What is brought in of the same path, in braces. -/
def nextImports (rooted : Bool) : Scan Unit :=
  Scan.inside .brace (Scan.separated (p.rootedPath rooted))

def importItem : Scan Unit := do
  Scan.word "use"
  p.rootedPath true
  Scan.mark ";"

/-! ## Items in the braces of others -/

/-- The braces of an item: attributes of the item, and its members. -/
def members (member : Scan Unit) : Scan Unit :=
  Scan.inside .brace do
    p.innerAttributes
    Scan.untilEnd member

/-- A function, a value, a type or a macro call among members, where `choices` are due too. A macro
call has to be `plain`: it can neither be seen from elsewhere nor be replaced. -/
def sharedMember (plain : Bool) (choices ends : List Expected) : Scan Unit := do
  let trees ← Scan.ahead
  if Tree.beginsFunction false trees then p.function false ends
  else if Tree.beginsWord "const" trees then p.constantItem
  else if Tree.beginsWord "type" trees then p.typeItem false true
  else if plain && Tree.beginsCallee trees then Scan.macroItem false
  else Scan.due (choices ++ ["fn", "const", "type"].map .token ++
    if plain then calleeChoices else [])

def traitMember : Scan Unit := do
  discard p.attributes
  let visible := Tree.beginsWord "pub" (← Scan.ahead)
  visibility
  let replaceable ← Scan.wordIf "default"
  p.sharedMember (!visible && !replaceable) [] [.group .brace, .token ";"]

/-- A member of an implementation. The word `default` in front of a `!` is the name of a macro. -/
def implementationMember : Scan Unit := do
  discard p.attributes
  let visible := Tree.beginsWord "pub" (← Scan.ahead)
  visibility
  let trees ← Scan.ahead
  let replaceable := Tree.beginsWord "default" trees && !Tree.beginsMark "!" (trees.drop 1)
  if replaceable then Scan.next
  p.sharedMember (!visible && !replaceable) (if replaceable then [] else [.token "default"])
    [.group .brace]

def foreignStatic : Scan Unit := do
  if !(← Scan.wordIf "unsafe") then discard (Scan.wordIf "safe")
  Scan.word "static"
  discard (Scan.wordIf "mut")
  discard Scan.identifier
  Scan.mark ":"
  discard (p.type true)
  if ← Scan.markIf "=" then p.anyExpression
  Scan.mark ";"

/-- An item from elsewhere: a function, a value or a type. -/
def foreignMember : Scan Unit := do
  discard p.attributes
  let visible := Tree.beginsWord "pub" (← Scan.ahead)
  visibility
  let trees ← Scan.ahead
  if Tree.beginsFunction true trees then p.function true [.token ";"]
  else if Tree.beginsWord "static" trees
      || Tree.beginsAnyWord ["unsafe", "safe"] trees && Tree.beginsWord "static" (trees.drop 1) then
    p.foreignStatic
  else if Tree.beginsWord "type" trees then p.typeItem true true
  else if !visible && Tree.beginsCallee trees then Scan.macroItem false
  else Scan.due (["fn", "static", "type"].map .token ++ if visible then [] else calleeChoices)

/-! ## Items with others in their braces -/

/-- Items from elsewhere, with the convention for calling them; they cannot be made visible as a
whole. -/
def foreignItems (visible : Bool) : Scan Unit := do
  if visible then Scan.fail (.expected [.token "extern"])
  discard (Scan.wordIf "unsafe")
  Scan.conventionIf
  p.members p.foreignMember

/-- A trait. One without `unsafe` or `auto` can be another name for bounds. -/
def traitItem : Scan Unit := do
  let marked ← Scan.wordIf "unsafe"
  let marked := (← Scan.wordIf "auto") || marked
  Scan.word "trait"
  discard Scan.identifier
  p.generics
  if !marked && Tree.beginsMark "=" (← Scan.ahead) then
    Scan.mark "="
    Scan.sumUntil (fun trees ↦
      Tree.beginsWord "where" trees || Tree.beginsMark ";" trees) p.bound
    p.conditionsIf
    Scan.mark ";"
  else
    if ← Scan.markIf ":" then
      Scan.sumUntil (fun trees ↦
        Tree.beginsWord "where" trees || Tree.beginsGroup .brace trees) p.bound
    p.conditionsIf
    p.members p.traitMember

def implementation : Scan Unit := do
  discard (Scan.wordIf "default")
  discard (Scan.wordIf "unsafe")
  Scan.word "impl"
  if Tree.beginsParameters (← Scan.ahead) then p.generics
  let trees ← Scan.ahead
  if Tree.beginsWord "const" trees
      || Tree.beginsMark "?" trees && Tree.beginsWord "const" (trees.drop 1) then
    discard (Scan.markIf "?")
    Scan.word "const"
  let trees ← Scan.ahead
  if Tree.beginsMark "!" trees && !Tree.beginsGroup .brace (trees.drop 1) then Scan.mark "!"
  discard (p.type true)
  if ← Scan.wordIf "for" then discard (p.type true)
  p.conditionsIf
  p.members p.implementationMember

def moduleItem : Scan Unit := do
  discard (Scan.wordIf "unsafe")
  Scan.word "mod"
  if !(← Scan.wordIf "try") then discard Scan.identifier
  if Tree.beginsGroup .brace (← Scan.ahead) then p.items
  else Scan.semicolon [.token ";", .group .brace]

/-- What starts with the word `extern` if it is no function: a library, or items from elsewhere. -/
def externalItem (visible : Bool) : Scan Unit := do
  let rest := (← Scan.ahead).drop 1
  if Tree.beginsWord "crate" rest then Scan.library
  else if Tree.beginsGroup .brace rest || Tree.beginsString rest then p.foreignItems visible
  else
    Scan.word "extern"
    Scan.due [.token "crate", .group .brace, .stringLiteral]

/-- What starts with the word `unsafe` if it is no function. -/
def unsafeItem (visible : Bool) : Scan Unit := do
  let rest := (← Scan.ahead).drop 1
  if Tree.beginsWord "trait" rest
      || Tree.beginsWord "auto" rest && Tree.beginsWord "trait" (rest.drop 1) then p.traitItem
  else if Tree.beginsWord "impl" rest then p.implementation
  else if Tree.beginsWord "extern" rest then p.foreignItems visible
  else if Tree.beginsWord "mod" rest then p.moduleItem
  else
    Scan.word "unsafe"
    Scan.due (["trait", "auto", "impl", "extern", "mod"].map .token)

/-- An item after its attributes. -/
def item : Scan Unit := do
  let visible := Tree.beginsWord "pub" (← Scan.ahead)
  visibility
  let trees ← Scan.ahead
  let rest := trees.drop 1
  if Tree.beginsFunction false trees then p.function false [.group .brace]
  else if Tree.beginsWord "extern" trees then p.externalItem visible
  else if Tree.beginsWord "use" trees then p.importItem
  else if Tree.beginsWord "static" trees then p.staticItem
  else if Tree.beginsWord "const" trees then p.constantItem
  else if Tree.beginsWord "unsafe" trees then p.unsafeItem visible
  else if Tree.beginsWord "mod" trees then p.moduleItem
  else if Tree.beginsWord "type" trees then p.typeItem true false
  else if Tree.beginsWord "struct" trees then discard p.named
  else if Tree.beginsWord "enum" trees then p.enumeration
  else if Tree.beginsWord "union" trees && Tree.beginsIdentifier rest then p.unionItem
  else if Tree.beginsWord "trait" trees
      || Tree.beginsWord "auto" trees && Tree.beginsWord "trait" rest then p.traitItem
  else if Tree.beginsWord "impl" trees
      || Tree.beginsWord "default" trees && !Tree.beginsMark "!" rest then p.implementation
  else if Tree.beginsWord "macro" trees then Scan.macroDefinition
  else if !visible && Tree.beginsCallee trees then Scan.macroItem true
  else Scan.due (itemChoices ++ if visible then [] else calleeChoices)

/-- The items of a module, in braces. -/
def nextItems : Scan Unit :=
  p.members do
    discard p.attributes
    p.item

end Phrases

end Deriving

end CurveCalc
