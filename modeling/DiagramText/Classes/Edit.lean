import DiagramText.Classes.Basic
import DiagramText.Identifier

/-!
# Editing class diagrams

A relation can be added between any classes, which become known by it.
-/

namespace DiagramText.ClassDiagram

open Classes

/-- The diagram with a new relation at its end. An empty `label` is no label, and new classes are
added before it. -/
def addRelation (d : ClassDiagram) (source target : String) (kind : RelationKind := .association)
    (label sourceCardinality targetCardinality : Option String := none) :
    Except Rejection ClassDiagram := do
  let source ← Identifier.checkFor .class_ source
  let target ← Identifier.checkFor .class_ target
  let label := label.filter fun l => !l.isEmpty
  let d := (d.mention source none).mention target none
  let relation : Relation := { source, target, kind, sourceCardinality, targetCardinality, label }
  .ok { d with relations := d.relations ++ [relation] }

end DiagramText.ClassDiagram
