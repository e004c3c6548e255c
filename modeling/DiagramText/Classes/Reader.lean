import DiagramText.Classes.Member
import DiagramText.Reading
import DiagramText.Text.Quoted

/-!
# Reading class diagrams

A class diagram is read line by line. A class is added where it is first mentioned. The lines of
its body are members, taken as they stand in the source, and stereotypes.
-/

namespace DiagramText.Classes

open Reading

/-! ### Lines about a class -/

/-- Reads a member from its source `text`, which no longer is among the tokens ahead. -/
def memberOf (text : String) (position : Position) : Reading Member :=
  ofResult (Member.ofText text (some position))

/-- Adds a member to the class `name`, behind those it has. -/
def addMember (d : ClassDiagram) (name : String) (m : Member) : ClassDiagram :=
  d.modify name fun c => { c with members := c.members ++ [m] }

/-- Sets the stereotype of the class `name`. A later one replaces an earlier one. -/
def setStereotype (d : ClassDiagram) (name stereotype : String) : ClassDiagram :=
  d.modify name fun c => { c with stereotype := some stereotype }

/-- Reads a stereotype between double angle brackets. -/
def stereotype : Reading String := do
  let _ ← expect .stereotypeOpen TokenKind.stereotypeOpen.word
  let token ← expect .identifier "annotation"
  let _ ← expect .stereotypeClose "'>>'"
  return token.text

/-- Reads a stereotype and the class that it is about, which is mentioned by it. -/
def stereotypeLine (d : ClassDiagram) : Reading ClassDiagram := do
  let stereotype ← stereotype
  let token ← expect .identifier "class name"
  endStatement
  return setStereotype (d.mention token.text (some token.start)) token.text stereotype

/-- Reads a class and its member after a colon. -/
def memberLine (d : ClassDiagram) : Reading ClassDiagram := do
  let token ← advance
  let _ ← advance
  let text ← expect .text "member"
  let m ← memberOf text.text text.start
  endStatement
  return addMember (d.mention token.text (some token.start)) token.text m

/-! ### Classes -/

/-- Reads the generic parameter of the class `name` between tildes, if there is one. -/
def generic (d : ClassDiagram) (name : String) : Reading ClassDiagram := do
  match ← accept .tilde with
  | none => return d
  | some _ =>
    let text ← rawUntil [.tilde]
    let _ ← expect .tilde "closing '~'"
    if text.isEmpty then fail "generic type parameter"
    else return d.modify name fun c => { c with generic := some text }

/-- Reads what one line of the body of the class `name` says about the class: a stereotype or a
member. -/
def bodyLine (d : ClassDiagram) (name : String) : Reading ClassDiagram := do
  let d ←
    if ← check [.stereotypeOpen] then pure (setStereotype d name (← stereotype))
    else
      let position := (← peek).start
      let text ← rawUntil [.rightBrace]
      pure (addMember d name (← memberOf text position))
  if ← check [.rightBrace] then return d
  else
    endStatement
    return d

/-- Reads the body of the class `name` up to its closing brace. A body that is still open at the end
is unterminated, at its `keyword`. -/
def body (keyword : Token) (name : String) : ClassDiagram → Reading ClassDiagram :=
  loop (bodyRound (bodyLine · name) (.unterminated "class" (some keyword.start)))

/-- Reads a class, with its body if a brace opens one. -/
def definition (d : ClassDiagram) : Reading ClassDiagram := do
  let keyword ← advance
  let token ← advance
  let name := token.text
  let d ← generic (d.mention name (some token.start)) name
  let d ← if ← check [.stereotypeOpen] then pure (setStereotype d name (← stereotype)) else pure d
  if (← accept .leftBrace).isNone then
    endStatement
    return d
  else if (← accept .rightBrace).isSome then
    endStatement
    return d
  else
    endStatement
    body keyword name d

/-! ### Relations -/

/-- Reads a cardinality in quotes, if there is one. -/
def cardinality : Reading (Option String) := do
  return (← accept .string).map fun t => Text.unquote t.text

/-- Reads the label of a relation after a colon, if there is one. -/
def relationLabel : Reading (Option String) := behindColon fun text => return text.map Token.text

/-- Reads a relation. Both ends are mentioned before it is added. -/
def relation (d : ClassDiagram) : Reading ClassDiagram := do
  let source ← advance
  let sourceCardinality ← cardinality
  let operator ← expect .classRelation "relation operator"
  match RelationKind.ofText? operator.text with
  | none => unexpected "relation operator" operator
  | some kind =>
    let targetCardinality ← cardinality
    let target ← expect .identifier "class name"
    let label ← relationLabel
    endStatement
    let d := (d.mention source.text (some source.start)).mention target.text (some target.start)
    let relation := {
      source := source.text
      target := target.text
      kind, sourceCardinality, targetCardinality, label
      position := some source.start }
    return { d with relations := d.relations ++ [relation] }

/-! ### The diagram -/

/-- Reads one statement. What starts with no keyword is a relation or a class with its member. -/
def statement (d : ClassDiagram) : Reading ClassDiagram := do
  let token ← peek
  let second ← ahead 1
  if (← accept .newline).isSome then return d
  else if token.isWord ["class"] && second.kind = .identifier then definition d
  else if token.isWord ["direction"] && second.kind = .identifier then
    let _ ← advance
    let direction ← takeDirection "direction"
    endStatement
    return { d with direction := some direction }
  else if token.kind = .stereotypeOpen then stereotypeLine d
  else if token.kind = .identifier && second.kind = .colon then memberLine d
  else if token.kind = .identifier then relation d
  else fail "class, relation or member"

/-- Reads a class diagram, under either of its headers. -/
def read : Reading ClassDiagram := do
  skipNewlines
  let _ ← expectWord "classdiagram"
  if (← accept .minus).isSome then
    let _ ← expectWord "v2"
  endStatement
  untilEnd statement {}

end DiagramText.Classes
