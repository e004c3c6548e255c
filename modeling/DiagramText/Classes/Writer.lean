import DiagramText.Classes.Member
import DiagramText.Layout
import DiagramText.Text.Quoted

/-!
# Writing class diagrams

Classes are written first, in their order, so that reading meets them in the same order; relations
follow. A class has a body only if it has members or a stereotype. Cardinalities are in quotes.
-/

namespace DiagramText

namespace Classes

/-- A relation `r` as it is written, its parts between single spaces. -/
def Relation.text (r : Relation) : String :=
  let parts := [r.source] ++ (r.sourceCardinality.map Text.doubleQuoted).toList ++
    [r.kind.text] ++ (r.targetCardinality.map Text.doubleQuoted).toList ++ [r.target]
  let label := ((r.label.filter (!·.isEmpty)).map fun l => s!" : {l}").getD ""
  " ".intercalate parts ++ label

/-- The line that opens a class `c`, without a brace. -/
def Definition.header (c : Definition) : String :=
  let generic := ((c.generic.filter (!·.isEmpty)).map fun g => s!"~{g}~").getD ""
  s!"class {c.name}{generic}"

/-- The lines of a class `c`. Without members and stereotype it is one line, without braces. -/
def Definition.lines (layout : Layout) (c : Definition) : List String :=
  let stereotype := (c.stereotype.filter (!·.isEmpty)).map fun a => s!"<<{a}>>"
  let body := stereotype.toList ++ c.members.map Member.text
  if body.isEmpty then [layout.line 1 c.header]
  else layout.line 1 s!"{c.header} \x7b" :: body.map (layout.line 2) ++ [layout.line 1 "\x7d"]

end Classes

namespace ClassDiagram

open Classes

/-- The lines of a class diagram `d`, all classes before the first relation. -/
def lines (layout : Layout) (d : ClassDiagram) : List String :=
  "classDiagram" ::
    (d.direction.map fun x => layout.line 1 s!"direction {x.name}").toList ++
    d.classes.flatMap (Definition.lines layout) ++
    d.relations.map fun r => layout.line 1 r.text

/-- A class diagram `d` as it is written, as one text. -/
def write (layout : Layout) (d : ClassDiagram) : String := joinLines (d.lines layout)

end ClassDiagram
end DiagramText
