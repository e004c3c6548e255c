import DiagramText.Classes.Basic
import DiagramText.Dialect
import DiagramText.Entities.Basic
import DiagramText.Flowchart.Basic
import DiagramText.Gantt.Basic
import DiagramText.Sequence.Basic
import DiagramText.States.Basic

/-!
# Diagrams

A diagram of any dialect, and a program, which is a list of diagrams. Two programs mean the same if
they are equal without positions.
-/

namespace DiagramText

/-- A diagram of any dialect, with the record of its own dialect inside. -/
inductive Diagram where
  | flowchart (diagram : Flowchart)
  | sequence (diagram : SequenceDiagram)
  | classes (diagram : ClassDiagram)
  | entities (diagram : EntityDiagram)
  | states (diagram : StateDiagram)
  | gantt (chart : Gantt)
deriving DecidableEq

namespace Diagram

/-- The dialect of a diagram, by its constructor. -/
def dialect : Diagram → Dialect
  | flowchart _ => .flowchart
  | sequence _ => .sequence
  | classes _ => .classes
  | entities _ => .entities
  | states _ => .states
  | gantt _ => .gantt

/-- The diagram without positions, which is what two diagrams are compared by. -/
def unplaced : Diagram → Diagram
  | flowchart d => .flowchart d.unplaced
  | sequence d => .sequence d.unplaced
  | classes d => .classes d.unplaced
  | entities d => .entities d.unplaced
  | states d => .states d.unplaced
  | gantt d => .gantt d.unplaced

/-- Whether the diagrams `d` and `e` are equal without positions, however deep their blocks nest. -/
def same (d e : Diagram) : Bool := d.unplaced = e.unplaced

end Diagram

/-- The `diagrams` of a document in order. -/
structure Program where
  diagrams : List Diagram := []
deriving DecidableEq

namespace Program

/-- The program without positions. `Program.same` compares programs by it. -/
def unplaced (p : Program) : Program := ⟨p.diagrams.map Diagram.unplaced⟩

/-- Whether the programs `p` and `q` are equal without positions. The comparison goes as deep as
their trees do. A run that compares trees by a recursion of limited depth can break off on blocks
that nest deeply; that limit is no part of this definition. -/
def same (p q : Program) : Bool := p.unplaced = q.unplaced

/-- The diagram at an `index`, where negative ones count back from the end. -/
def diagram? (p : Program) (index : Int) : Option Diagram :=
  let place := if index < 0 then index + p.diagrams.length else index
  if place < 0 then none else p.diagrams[place.toNat]?

/-- The diagrams of the dialect `d`, in their order. -/
def ofDialect (p : Program) (d : Dialect) : List Diagram :=
  p.diagrams.filter (·.dialect = d)

end Program
end DiagramText
