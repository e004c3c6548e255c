import DiagramText.Position

/-!
# Entity-relationship diagrams

An entity-relationship diagram is a list of entities in the order of their first mention, each with
its attributes, and a list of relationships between them.
-/

namespace DiagramText

namespace Entities

/-- How many entities stand at one end of a relationship. -/
inductive Cardinality where
  | zeroOrOne
  | exactlyOne
  | zeroOrMore
  | oneOrMore
deriving DecidableEq, Repr

/-- Whether one end of a relationship is identified by the other, which a solid line shows. -/
inductive Identification where
  | identifying
  | nonIdentifying
deriving DecidableEq, Repr

/-- What key an attribute is. An attribute may be no key. -/
inductive AttributeKey where
  | primary
  | foreign
  | unique
deriving DecidableEq, Repr

/-- An attribute of an entity, with its type and name. -/
structure Attribute where
  type : String
  name : String
  key : Option AttributeKey := none
  comment : Option String := none
deriving DecidableEq, Repr

/-- An entity with its attributes, in the order in which they were read. -/
structure Entity where
  name : String
  attributes : List Attribute := []
  position : Option Position := none
deriving DecidableEq, Repr

/-- A relationship between two entities, with a cardinality at each end. -/
structure Relationship where
  source : String
  target : String
  sourceCardinality : Cardinality
  targetCardinality : Cardinality
  identification : Identification := .identifying
  label : Option String := none
  position : Option Position := none
deriving DecidableEq, Repr

end Entities

/-- An entity-relationship diagram with its entities and its relationships. -/
structure EntityDiagram where
  entities : List Entities.Entity := []
  relationships : List Entities.Relationship := []
deriving DecidableEq, Repr

namespace EntityDiagram

open Entities

/-- The diagram `d` without positions, which take no part in what it means. -/
def unplaced (d : EntityDiagram) : EntityDiagram where
  entities := d.entities.map fun e => { e with position := none }
  relationships := d.relationships.map fun r => { r with position := none }

/-- The entity with a `name`, if there is one. -/
def entity? (d : EntityDiagram) (name : String) : Option Entity :=
  d.entities.find? (·.name == name)

/-- Mentions an entity `name`, which adds it at the end if it is new. -/
def mention (d : EntityDiagram) (name : String) (position : Option Position) : EntityDiagram :=
  if d.entities.any (·.name == name) then d
  else { d with entities := d.entities ++ [{ name, position }] }

/-- Changes the entity with a `name` by `f`. -/
def modify (d : EntityDiagram) (name : String) (f : Entity → Entity) : EntityDiagram :=
  { d with entities := d.entities.map fun e => if e.name = name then f e else e }

end EntityDiagram
end DiagramText
