import CurveCalc.Deriving.Fault

/-!
# Reading a row of trees

A `Scan` takes trees off the front of a row and says how what it took is written. It fails with a
fault, or leaves an end of the row; that it cannot do otherwise is part of its result, so a loop
over a scan ends. Trees left over in a group are no fault at once: what comes after the group is
read first, and only who reads a whole row looks for them.
-/

namespace CurveCalc

namespace Deriving

/-- What a scan took off the front of a row of trees. -/
structure Taken (α : Type) (ahead : List Tree) where
  value : α
  /-- The tokens that were taken, as they are written. -/
  written : List Tree
  /-- The trees that were not taken. -/
  rest : List Tree
  /-- The brackets of the first group that was not read to its end. -/
  unread : Option Delimiter
  isSuffix : rest <:+ ahead

namespace Taken

variable {α β : Type} {ahead : List Tree}

/-- The same trees taken for another value. -/
def map (f : α → β) (t : Taken α ahead) : Taken β ahead := { t with value := f t.value }

/-- What was taken by two scans one after the other; the value is that of the second. -/
def andThen (t : Taken α ahead) (u : Taken β t.rest) : Taken β ahead where
  value := u.value
  written := t.written ++ u.written
  rest := u.rest
  unread := t.unread.or u.unread
  isSuffix := u.isSuffix.trans t.isSuffix

end Taken

/-- A reader of the trees at the front of a row. -/
def Scan (α : Type) : Type := (ahead : List Tree) → Except Fault (Taken α ahead)

namespace Scan

variable {α β σ : Type}

instance : Monad Scan where
  pure a := fun ahead ↦ .ok ⟨a, [], ahead, none, List.suffix_refl ahead⟩
  bind scan next := fun ahead ↦
    match scan ahead with
    | .error f => .error f
    | .ok t => (next t.value t.rest).map t.andThen

/-! ## One tree at a time -/

def fail (f : Fault) : Scan α := fun _ ↦ .error f

/-- A result that takes nothing. -/
def ofExcept (result : Except Fault α) : Scan α := fun trees ↦
  result.map fun a ↦ ⟨a, [], trees, none, List.suffix_refl trees⟩

/-- The trees that are still to be read. -/
def ahead : Scan (List Tree) := fun trees ↦ .ok ⟨trees, [], trees, none, List.suffix_refl trees⟩

/-- Fails since one of these is due and something else or nothing is there. -/
def due (choices : List Expected) : Scan α := fun trees ↦
  .error (if trees.isEmpty then .expectedAtEnd choices else .expected choices)

/-- Takes some trees, written in the given way. -/
def take (n : Nat) (written : List Tree) : Scan Unit := fun trees ↦
  .ok ⟨(), written, trees.drop n, none, List.drop_suffix n trees⟩

/-- Takes the next tree. A mark is written as one that stands alone; in a group everything stays as
it is. -/
def next : Scan Unit := do
  match ← ahead with
  | .mark text _ :: _ => take 1 [.mark text false]
  | trees => take 1 (trees.take 1)

/-- Takes a group in the given brackets and reads what is in it. -/
def inside (d : Delimiter) (scan : Scan α) : Scan α := fun trees ↦
  match trees with
  | .group d' content :: rest =>
    if d' = d then
      (scan content).map fun t ↦
        { value := t.value
          written := [.group d t.written]
          rest := rest
          unread := t.unread.or (if t.rest.isEmpty then none else some d)
          isSuffix := List.suffix_cons _ rest }
    else .error (.expected [.group d])
  | [] => .error (.expectedAtEnd [.group d])
  | _ => .error (.expected [.group d])

/-- How what a scan takes is written. -/
def writing (scan : Scan α) : Scan (List Tree) := fun trees ↦
  (scan trees).map fun t ↦ t.map fun _ ↦ t.written

/-- Reads a whole row of trees. -/
def whole (scan : Scan α) (trees : List Tree) : Except Fault α :=
  match scan trees with
  | .error f => .error f
  | .ok t =>
    match t.unread with
    | some d => .error (.unexpected (some (String.singleton d.closing)))
    | none => if t.rest.isEmpty then .ok t.value else .error (.unexpected none)

/-! ## Loops -/

/-- Repeats a step on a row of trees for as long as it says so and takes something. -/
def iterateOn (step : σ → Scan (σ × Bool)) (s : σ) (ahead : List Tree) :
    Except Fault (Taken σ ahead) :=
  match step s ahead with
  | .error f => .error f
  | .ok t =>
    if _ : t.value.2 = true ∧ t.rest.length < ahead.length then
      (iterateOn step t.value.1 t.rest).map t.andThen
    else .ok (t.map Prod.fst)
termination_by ahead.length

/-- Repeats a step for as long as it says so and takes something. -/
def iterate (step : σ → Scan (σ × Bool)) (s : σ) : Scan σ := fun trees ↦ iterateOn step s trees

def atEnd : Scan Bool := return (← ahead).isEmpty

/-- Reads something again and again until nothing is left. -/
def untilEnd (item : Scan Unit) : Scan Unit :=
  iterate (fun _ ↦ do
    if ← atEnd then return ((), false)
    item
    return ((), true)) ()

end Scan

/-! ## What the trees ahead are -/

def keywords : List String :=
  ["_", "abstract", "as", "async", "await", "become", "box", "break", "const", "continue", "crate",
    "do", "dyn", "else", "enum", "extern", "false", "final", "fn", "for", "if", "impl", "in", "let",
    "loop", "macro", "match", "mod", "move", "mut", "override", "priv", "pub", "ref", "return",
    "Self", "self", "static", "struct", "super", "trait", "true", "try", "type", "typeof", "unsafe",
    "unsized", "use", "virtual", "where", "while", "yield"]

def isKeyword (word : List Char) : Bool := keywords.contains (String.ofList word)

namespace Tree

/-- Whether a row of trees starts with these characters of punctuation, with nothing between. -/
def beginsMarks : List Char → List Tree → Bool
  | [], _ => true
  | [c], .mark [d] _ :: _ => c = d
  | c :: more, .mark [d] joint :: rest => c = d && joint && beginsMarks more rest
  | _, _ => false

def beginsMark (text : String) (trees : List Tree) : Bool := beginsMarks text.toList trees

/-- Whether a row of trees starts with one of several marks. -/
def beginsAnyMark (texts : List String) (trees : List Tree) : Bool :=
  texts.any fun text ↦ beginsMark text trees

/-- Whether a row of trees starts with a certain word. -/
def beginsWord (text : String) : List Tree → Bool
  | .word w :: _ => w = text.toList
  | _ => false

/-- Whether a row of trees starts with one of several words. -/
def beginsAnyWord (texts : List String) (trees : List Tree) : Bool :=
  texts.any fun text ↦ beginsWord text trees

def beginsIdentifier : List Tree → Bool
  | .word w :: _ => !isKeyword w
  | _ => false

/-- Whether a row of trees starts with an identifier or a keyword. -/
def beginsSomeWord : List Tree → Bool
  | .word _ :: _ => true
  | _ => false

/-- Whether a row of trees starts with a group in certain brackets. -/
def beginsGroup (d : Delimiter) : List Tree → Bool
  | .group d' _ :: _ => d' = d
  | _ => false

def beginsLifetime : List Tree → Bool
  | .mark ['\x27'] _ :: .word _ :: _ => true
  | _ => false

/-- Whether a row of trees starts with a negative number. -/
def beginsNegative : List Tree → Bool
  | .mark ['-'] _ :: .literal (c :: _) :: _ => c.isDigit
  | _ => false

/-- Whether a row of trees starts with a literal; the truth values count as such. -/
def beginsLiteral : List Tree → Bool
  | .literal _ :: _ => true
  | trees => beginsAnyWord ["true", "false"] trees || beginsNegative trees

/-- Whether a row of trees starts with a string of characters. -/
def beginsString : List Tree → Bool
  | .literal (c :: _) :: _ => c = '"' || c = 'r'
  | _ => false

/-- Whether a row of trees starts with a point that accesses a member. -/
def beginsAccess (trees : List Tree) : Bool := beginsMark "." trees && !beginsMark ".." trees

/-- Whether a row of trees starts with the `!` of a macro call. -/
def beginsBang (trees : List Tree) : Bool := beginsMark "!" trees && !beginsMark "!=" trees

/-- Whether a row of trees starts with an equals sign that gives a value. -/
def beginsEquals (trees : List Tree) : Bool := beginsMark "=" trees && !beginsMark "=>" trees

end Tree

namespace Scan

/-! ## Tokens -/

def takeMark (text : String) : Scan Unit := take text.length [.mark text.toList false]

def mark (text : String) : Scan Unit := do
  if Tree.beginsMark text (← ahead) then takeMark text
  else fail (.expected [.token text])

/-- Takes a mark if it is there, and says whether it was. -/
def markIf (text : String) : Scan Bool := do
  if Tree.beginsMark text (← ahead) then
    takeMark text
    return true
  else return false

def word (text : String) : Scan Unit := do
  if Tree.beginsWord text (← ahead) then next else due [.token text]

/-- Takes a keyword if it is there, and says whether it was. -/
def wordIf (text : String) : Scan Bool := do
  if Tree.beginsWord text (← ahead) then
    next
    return true
  else return false

/-- Takes an identifier or a keyword. -/
def someWord : Scan (List Char) := do
  match ← ahead with
  | .word w :: _ =>
    next
    return w
  | _ => due [.identifier]

def identifier : Scan (List Char) := do
  match ← ahead with
  | .word w :: _ =>
    if isKeyword w then fail (.keyword w)
    else
      next
      return w
  | _ => due [.identifier]

/-- Takes a lifetime: a quote and the word that it is joined to. -/
def lifetime : Scan Unit := do
  match ← ahead with
  | .mark ['\x27'] _ :: .word w :: _ => take 2 [.mark ['\x27'] true, .word w]
  | _ => due [.lifetime]

def lifetimeIf : Scan Unit := do
  if Tree.beginsLifetime (← ahead) then lifetime

/-- Takes a literal; a sign in front of a number is part of it. -/
def literal : Scan Unit := do
  match ← ahead with
  | .mark ['-'] _ :: .literal t :: _ => take 2 [.literal ('-' :: t)]
  | trees => if Tree.beginsLiteral trees then next else due [.literal]

/-- The convention for calling a function, if one is given: `extern`, and perhaps its name. -/
def conventionIf : Scan Unit := do
  if ← wordIf "extern" then
    if Tree.beginsString (← ahead) then literal

def anyGroup : Scan Delimiter := do
  match ← ahead with
  | .group d _ :: _ =>
    next
    return d
  | _ => due [.anyGroup]

/-- Reads items with commas between them until nothing is left; one more comma may follow. -/
def separatedFrom (item : σ → Scan σ) : σ → Scan σ :=
  iterate fun s ↦ do
    if ← atEnd then return (s, false)
    let s ← item s
    if ← atEnd then return (s, false)
    mark ","
    return (s, true)

/-- Reads items with commas between them, where only their extent matters. -/
def separated (item : Scan Unit) : Scan Unit := separatedFrom (fun _ ↦ item) ()

end Scan

end Deriving

end CurveCalc
