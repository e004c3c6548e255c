import DiagramText.Classes.Basic
import DiagramText.ReadError
import DiagramText.Text.Blank

/-!
# The notation of members

A member is a visibility mark, a type and a name, where mark and type may be missing, and marks for
static and abstract members. A method has parameters after its name, and its type may also stand
after them.
-/

namespace DiagramText.Classes

/-! ### Parts of a member -/

/-- A mark for a static member, `$`, or an abstract one, `*`. -/
def isModifier (c : Char) : Bool := c == '$' || c == '*'

/-- A word that ends the text `cs`, and the word before it after blanks, if there is one. Any other
number of words is refused. -/
def typeAndName? (cs : List Char) : Option (Option String × List Char) :=
  let first := cs.takeWhile (!Text.isBlank ·)
  let second := Text.trimLeft (cs.dropWhile (!Text.isBlank ·))
  if first.isEmpty then none
  else if first.length = cs.length then some (none, first)
  else if second.isEmpty || second.any Text.isBlank then none
  else some (some (String.ofList first), second)

/-- What a text `cs` ends with: a part without modifiers, which is not empty, and modifiers. Between
two modifiers nothing else may stand. -/
def splitModifiers? (cs : List Char) : Option (List Char × List Char) :=
  let body := cs.takeWhile (!isModifier ·)
  let modifiers := cs.dropWhile (!isModifier ·)
  if body.isEmpty || !modifiers.all isModifier then none else some (body, modifiers)

/-- The type after the parameters and their modifiers, with modifiers of its own, from a text `cs`.
It follows blanks; where only modifiers follow at least two of them, the last blank counts as
the type. -/
def returnType? (cs : List Char) : Option (Option String × List Char) :=
  let blanks := cs.takeWhile Text.isBlank
  let rest := cs.dropWhile Text.isBlank
  if cs.isEmpty then some (none, [])
  else if blanks.isEmpty then none
  else match splitModifiers? rest with
    | some (type, modifiers) => some (some (String.ofList type), modifiers)
    | none =>
      if 2 ≤ blanks.length && !rest.isEmpty && rest.all isModifier then
        some (some (String.ofList (blanks.drop (blanks.length - 1))), rest)
      else none

/-! ### Reading -/

/-- Reads a method after its visibility mark. Its type cannot stand in both places. -/
def method? (visibility : Option Visibility) (cs : List Char) : Option Member := do
  let (before, name) ← typeAndName? (cs.takeWhile (· != '('))
  let inside := (cs.dropWhile (· != '(')).drop 1
  let afterInside := inside.dropWhile (· != ')')
  if afterInside.isEmpty then none
  let rest := afterInside.drop 1
  let (after, modifiers) ← returnType? (rest.dropWhile isModifier)
  if before.isSome && after.isSome then none
  let marks := rest.takeWhile isModifier ++ modifiers
  return {
    name := String.ofList name
    kind := .method
    visibility
    type := before.or after
    parameters := some (String.ofList (Text.trim (inside.takeWhile (· != ')'))))
    isStatic := marks.contains '$'
    isAbstract := marks.contains '*' }

/-- Reads an attribute after its visibility mark: a type, if there is one, a name, and modifiers. -/
def attribute? (visibility : Option Visibility) (cs : List Char) : Option Member := do
  let (type, rest) ← typeAndName? cs
  let (name, marks) ← splitModifiers? rest
  return {
    name := String.ofList name
    visibility
    type
    isStatic := marks.contains '$'
    isAbstract := marks.contains '*' }

namespace Member

/-- Reads a member. It is a method if it holds a parenthesis, and an attribute otherwise. -/
def ofText (text : String) (position : Option Position) : Except ReadError Member :=
  let trimmed := Text.trim text.toList
  let visibility := trimmed.head?.bind Visibility.ofMark?
  let body := if visibility.isSome then Text.trim (trimmed.drop 1) else trimmed
  let isMethod := body.contains '('
  match (if isMethod then method? visibility body else attribute? visibility body) with
  | some m => .ok m
  | none =>
    let expected := if isMethod then "method member" else "attribute member"
    .error ⟨.unexpected expected (Text.quoted (String.ofList trimmed)), position⟩

/-! ### Writing -/

/-- A member `m` as it is written, its type before its name. -/
def text (m : Member) : String :=
  let visibility := (m.visibility.map fun v => String.singleton v.mark).getD ""
  let type := ((m.type.filter (!·.isEmpty)).map fun t => s!"{t} ").getD ""
  let parameters := m.parameters.getD ""
  let parameters := match m.kind with
    | .method => s!"({parameters})"
    | .attribute => ""
  let static := if m.isStatic then "$" else ""
  let abstract_ := if m.isAbstract then "*" else ""
  s!"{visibility}{type}{m.name}{parameters}{static}{abstract_}"

end Member
end DiagramText.Classes
