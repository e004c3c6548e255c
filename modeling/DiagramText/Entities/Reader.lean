import DiagramText.Entities.Notation
import DiagramText.Reading
import DiagramText.Token.Lexeme

/-!
# Reading entity-relationship diagrams

An entity-relationship diagram is read statement by statement. An entity is added where it is first
mentioned. The lines of its body are attributes, taken as they stand in the source.
-/

namespace DiagramText.Entities

open Reading

/-! ### Entities -/

/-- Reads an attribute from its source `text`, which no longer is among the tokens ahead. -/
def attributeOf (text : String) (position : Position) : Reading Attribute :=
  ofResult (Attribute.ofText text (some position))

/-- Reads one attribute in the body of the entity `name`. -/
def bodyLine (d : EntityDiagram) (name : String) : Reading EntityDiagram := do
  let position := (← peek).start
  let text ← rawUntil [.rightBrace]
  let a ← attributeOf text position
  let d := d.modify name fun e => { e with attributes := e.attributes ++ [a] }
  if ← check [.rightBrace] then return d
  else
    endStatement
    return d

/-- Reads the body of an `entity` up to its closing brace. A body that is still open at the end is
unterminated, at the name of the entity. -/
def body (entity : Token) : EntityDiagram → Reading EntityDiagram :=
  loop (bodyRound (bodyLine · entity.text) (.unterminated "entity" (some entity.start)))

/-- Reads the rest of a line that starts with an entity, with its body if a brace opens one. -/
def entity (d : EntityDiagram) (token : Token) : Reading EntityDiagram := do
  let d := d.mention token.text (some token.start)
  if (← accept .leftBrace).isSome then body token d
  else
    endStatement
    return d

/-! ### Relationships -/

/-- The marks of both ends of a relation and the line between them, which is two characters long, by
the `text` of the relation. -/
def relationParts (text : List Char) : List Char × List Char × List Char :=
  let left := Measure.cardinality text
  let rest := text.drop left
  (text.take left, rest.take 2, rest.drop 2)

/-- The cardinality that the `marks` at one end of a `relation` draw. They may draw none. -/
def cardinality (marks : List Char) (relation : Token) : Reading Cardinality :=
  match Cardinality.ofMarks? marks with
  | some c => return c
  | none =>
    failAt (.invalidCardinality (String.ofList marks) relation.text) (some relation.start)

/-- Reads the label of a relationship after a colon, if there is one. An empty label is none. -/
def relationshipLabel : Reading (Option String) :=
  behindColon fun text => return (text.map fun t => Text.unquote t.text).filter (!·.isEmpty)

/-- Reads the rest of a line that starts with the entity `source` and a relation. -/
def relationship (d : EntityDiagram) (source : Token) : Reading EntityDiagram := do
  let relation ← advance
  let (left, line, right) := relationParts relation.text.toList
  let sourceCardinality ← cardinality left relation
  let targetCardinality ← cardinality right relation
  let target ← expect .identifier "entity name"
  let label ← relationshipLabel
  endStatement
  let d := (d.mention source.text (some source.start)).mention target.text (some target.start)
  let relationship := {
    source := source.text
    target := target.text
    sourceCardinality, targetCardinality, label
    identification := if line = ['.', '.'] then .nonIdentifying else .identifying
    position := some source.start }
  return { d with relationships := d.relationships ++ [relationship] }

/-! ### The diagram -/

/-- Reads one statement. -/
def statement (d : EntityDiagram) : Reading EntityDiagram := do
  if ← check [.newline, .semicolon] then
    let _ ← advance
    return d
  else
    let token ← expect .identifier "entity name"
    if ← check [.entityRelation] then relationship d token else entity d token

/-- Reads an entity-relationship diagram. -/
def read : Reading EntityDiagram := do
  skipNewlines
  let _ ← expectWord "erdiagram"
  endStatement
  untilEnd statement {}

end DiagramText.Entities
