import DiagramText.Entities.Notation
import DiagramText.Layout

/-!
# Writing entity-relationship diagrams

Entities are written first, in their order, so that reading meets them in the same order;
relationships follow. An entity has a body only if it has attributes.
-/

namespace DiagramText

namespace Entities

/-- The lines of an entity `e`. Without attributes it is one line, without braces. -/
def Entity.lines (layout : Layout) (e : Entity) : List String :=
  if e.attributes.isEmpty then [layout.line 1 e.name]
  else layout.line 1 s!"{e.name} \x7b" :: e.attributes.map (fun a => layout.line 2 a.text) ++
    [layout.line 1 "\x7d"]

end Entities

namespace EntityDiagram

open Entities

/-- The lines of an entity-relationship diagram `d`, all entities before the first relationship. -/
def lines (layout : Layout) (d : EntityDiagram) : List String :=
  "erDiagram" :: d.entities.flatMap (Entity.lines layout) ++
    d.relationships.map fun r => layout.line 1 r.text

/-- An entity-relationship diagram `d` as it is written, as one text. -/
def write (layout : Layout) (d : EntityDiagram) : String := joinLines (d.lines layout)

end EntityDiagram
end DiagramText
