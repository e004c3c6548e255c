import DiagramText.Flowchart.Notation
import DiagramText.Layout

/-!
# Writing flowcharts

A flowchart is written as a header line and one line for each clause, a subgraph as a header, its
direction, its statements one level deeper, and a closing line. The lines come from an agenda whose
bodies are lists of statements.

* `Node.text`, `Edge.text`, `Clause.text` and `Subgraph.text`: the texts of single lines.
* `agenda`: the agenda of a flowchart; `lines` and `write` give all of it.
-/

namespace DiagramText.Flowchart

/-! ### Lines -/

/-- A node as it is written in a declaration, by its id alone if it has no label and the shape
`rectangle`. -/
def Node.text (n : Node) : String :=
  if n.label.isNone && n.shape = .rectangle then n.id
  else
    let (opener, closer) := delimiters n.shape
    let label := (n.label.map fun l => labelText l.raw).getD ""
    s!"{n.id}{opener}{label}{closer}"

/-- An edge `e` as it is written, its label between bars. -/
def Edge.text (e : Edge) : String :=
  let label := (e.label.map fun l => s!"|{labelText l.raw}|").getD ""
  s!"{e.source} {e.kind.text}{label} {e.target}"

/-- A clause as it is written. It is read back from a line of its own. -/
def Clause.text : Clause → String
  | .node n _ => n.text
  | .edge e => e.text
  | .classDef name styles => s!"classDef {name} {styles}"
  | .classes ids name =>
    let list := ",".intercalate ids
    s!"class {list} {name}"
  | .style id styles => s!"style {id} {styles}"

/-- The line that opens a subgraph `s`. An id that is no identifier is written in double quotes. -/
def Subgraph.text (s : Subgraph) : String :=
  let id := if isSafeId s.id then s.id else Text.doubleQuoted s.id
  match s.label with
  | none => s!"subgraph {id}"
  | some label => s!"subgraph {id}[{labelText label}]"

/-! ### The agenda -/

/-- The items that a statement is written as: its line, or the lines of a subgraph with its body
between them. -/
def Statement.items (layout : Layout) (depth : Nat) : Statement → List (Item (List Statement))
  | .clause c => [.lines [layout.line depth c.text]]
  | .subgraph head body =>
    let direction := head.direction.map fun d => layout.line (depth + 1) s!"direction {d.name}"
    [.lines (layout.line depth head.text :: direction.toList), .body body (depth + 1),
      .lines [layout.line depth "end"]]

/-- The items that the statements `ss` of a body are written as, one statement after the other. -/
def bodyItems (layout : Layout) (depth : Nat) (ss : List Statement) :
    List (Item (List Statement)) :=
  ss.flatMap (Statement.items layout depth)

/-- The number of steps that a body `ss` is written in at most: itself, and three for each
statement. -/
def bodySteps (ss : List Statement) : Nat := 1 + 3 * Statement.sizeList ss

theorem totalWeight_items (layout : Layout) (depth : Nat) (s : Statement) :
    Item.totalWeight bodySteps (s.items layout depth) ≤ 3 * s.size := by
  cases s with
  | clause c => simp [Statement.items, Item.weight, Statement.size]
  | subgraph head body =>
    simp only [Statement.items, Item.totalWeight_cons, Item.totalWeight_nil, Item.weight, bodySteps,
      Statement.size]
    omega

theorem totalWeight_bodyItems (layout : Layout) (depth : Nat) (ss : List Statement) :
    Item.totalWeight bodySteps (bodyItems layout depth ss) ≤ 3 * Statement.sizeList ss := by
  apply Item.totalWeight_flatMap_le bodySteps
  intro s ss
  have hs := totalWeight_items layout depth s
  rw [Statement.sizeList]
  omega

/-- The agenda of a flowchart, the bodies of which are lists of statements. `bodySteps` bounds the
work on a body. -/
def agenda (layout : Layout) : Agenda (List Statement) where
  items := bodyItems layout
  size := bodySteps
  totalWeight_items_lt depth ss := by
    have hss := totalWeight_bodyItems layout depth ss
    unfold bodySteps at *
    omega

@[simp]
theorem agenda_items (layout : Layout) : (agenda layout).items = bodyItems layout := rfl

/-! ### The diagram -/

/-- The lines of a flowchart `d`, the header line first. -/
def lines (layout : Layout) (d : Flowchart) : List String :=
  s!"flowchart {d.direction.name}" :: (agenda layout).lines [.body d.statements 1]

/-- A flowchart `d` as it is written, as one text. -/
def write (layout : Layout) (d : Flowchart) : String := joinLines (d.lines layout)

end DiagramText.Flowchart
