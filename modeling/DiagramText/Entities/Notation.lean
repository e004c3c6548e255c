import DiagramText.Entities.Basic
import DiagramText.ReadError
import DiagramText.Text.Blank
import DiagramText.Text.Quoted
import DiagramText.Text.Measure

/-!
# The notation of entity-relationship diagrams

The ends of a relationship are drawn by two marks, which may be read in either order on either side
and are written in the order of their side. An attribute is a type and a name, with a key and a
comment in quotes where it has them.
-/

namespace DiagramText.Entities

/-! ### Relationships -/

namespace Cardinality

/-- The cardinality that marks draw, in either order, on either side. -/
def ofMarks? : List Char → Option Cardinality
  | ['|', 'o'] | ['o', '|'] => some zeroOrOne
  | ['|', '|'] => some exactlyOne
  | ['}', 'o'] | ['o', '{'] => some zeroOrMore
  | ['}', '|'] | ['|', '{'] => some oneOrMore
  | _ => none

/-- The marks of a cardinality at the left end. -/
def leftText : Cardinality → String
  | zeroOrOne => "|o"
  | exactlyOne => "||"
  | zeroOrMore => "\x7do"
  | oneOrMore => "\x7d|"

/-- The marks of a cardinality at the right end, which are those of `leftText` the other way
round. -/
def rightText : Cardinality → String
  | zeroOrOne => "o|"
  | exactlyOne => "||"
  | zeroOrMore => "o\x7b"
  | oneOrMore => "|\x7b"

end Cardinality

namespace Identification

/-- The line of a relationship, solid or dotted. -/
def text : Identification → String
  | identifying => "--"
  | nonIdentifying => ".."

end Identification

/-- Whether a `label` can be written without quotes: it has only word characters and hyphens. -/
def isBareLabel (label : String) : Bool :=
  !label.isEmpty && label.toList.all fun c => Text.isWord c || c == '-'

/-- A relationship `r` as it is written. An empty label is left out. -/
def Relationship.text (r : Relationship) : String :=
  let label := ((r.label.filter (!·.isEmpty)).map fun l =>
    if isBareLabel l then s!" : {l}" else s!" : {Text.doubleQuoted l}").getD ""
  let left := r.sourceCardinality.leftText
  let right := r.targetCardinality.rightText
  s!"{r.source} {left}{r.identification.text}{right} {r.target}{label}"

/-! ### Attributes -/

namespace AttributeKey

/-- The word for a key, which is read in capital letters only. -/
def text : AttributeKey → String
  | primary => "PK"
  | foreign => "FK"
  | unique => "UK"

/-- The key that a text starts with, and what follows it. -/
def split? : List Char → Option (AttributeKey × List Char)
  | 'P' :: 'K' :: cs => some (primary, cs)
  | 'F' :: 'K' :: cs => some (foreign, cs)
  | 'U' :: 'K' :: cs => some (unique, cs)
  | _ => none

end AttributeKey

namespace Attribute

/-- What follows at least one blank at the start of `cs`, with no blank before it. -/
def afterBlanks? (cs : List Char) : Option (List Char) :=
  if cs.head?.any Text.isBlank then some (Text.trimLeft cs) else none

/-- The comment that is a whole text in quotes, with no other quote in it. -/
def comment? : List Char → Option String
  | '"' :: cs =>
    if cs.getLast? = some '"' && !cs.dropLast.contains '"' then
      some (String.ofList cs.dropLast)
    else none
  | _ => none

/-- What `cs` holds behind the key: a comment after blanks, or nothing. -/
def commentPart? (cs : List Char) : Option (Option String) :=
  if cs.isEmpty then some none
  else (afterBlanks? cs).bind fun rest => (comment? rest).map some

/-- What `cs` holds behind the name: a key and a comment, either, or nothing. A key has to be
followed by a blank if a comment comes. -/
def tail? (cs : List Char) : Option (Option AttributeKey × Option String) :=
  match (afterBlanks? cs).bind AttributeKey.split? with
  | some (key, rest) => (commentPart? rest).map fun comment => (some key, comment)
  | none => (commentPart? cs).map fun comment => (none, comment)

/-- Reads an attribute from `cs` without blanks around it, if it is well formed. -/
def parse? (cs : List Char) : Option Attribute := do
  let type := cs.takeWhile (!Text.isBlank ·)
  let rest := Text.trimLeft (cs.dropWhile (!Text.isBlank ·))
  let name := rest.takeWhile (!Text.isBlank ·)
  if type.isEmpty || name.isEmpty then none
  let (key, comment) ← tail? (rest.dropWhile (!Text.isBlank ·))
  return { type := String.ofList type, name := String.ofList name, key, comment }

/-- What a line in the body of an entity should be, as a message says it. -/
def expected : String := "attribute 'type name [PK|FK|UK] [\"comment\"]'"

/-- Reads an attribute from a `text`. Blanks around it do not matter. -/
def ofText (text : String) (position : Option Position) : Except ReadError Attribute :=
  let trimmed := Text.trim text.toList
  match parse? trimmed with
  | some a => .ok a
  | none => .error ⟨.unexpected expected (Text.quoted (String.ofList trimmed)), position⟩

/-- An attribute `a` as it is written, its parts between single spaces. -/
def text (a : Attribute) : String :=
  " ".intercalate <| [a.type, a.name] ++ (a.key.map AttributeKey.text).toList ++
    (a.comment.map Text.doubleQuoted).toList

end Attribute
end DiagramText.Entities
