import DiagramText.Entities.Basic
import DiagramText.Identifier

/-!
# Editing entity-relationship diagrams

A relationship can be added between any entities, which become known by it.
-/

namespace DiagramText.EntityDiagram

open Entities

/-- The diagram with a new relationship at its end. An empty `label` is no label, and new entities
are added before it. -/
def addRelationship (d : EntityDiagram) (source target : String)
    (sourceCardinality targetCardinality : Cardinality) (label : Option String := none)
    (identification : Identification := .identifying) : Except Rejection EntityDiagram := do
  let source ← Identifier.checkFor .entity source
  let target ← Identifier.checkFor .entity target
  let label := label.filter fun l => !l.isEmpty
  let d := (d.mention source none).mention target none
  let relationship : Relationship :=
    { source, target, sourceCardinality, targetCardinality, identification, label }
  .ok { d with relationships := d.relationships ++ [relationship] }

end DiagramText.EntityDiagram
