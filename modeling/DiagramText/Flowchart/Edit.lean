import DiagramText.Content
import DiagramText.Flowchart.Basic
import DiagramText.Identifier

/-!
# Editing flowcharts

A node can be added under a new id, an edge between registered nodes, and a node removed with all
that is about it. Each edit keeps the registry the one that the statements make.
-/

namespace DiagramText.Flowchart

/-! ### Adding -/

/-- Refuses an `id` that no registered node has. -/
def requireNode (d : Flowchart) (id : String) : Except Rejection Unit :=
  if (d.node? id).isSome then .ok () else .error (.nodeMissing id)

/-- The flowchart with a new node, declared at its end. A known id is refused, and an empty `label`
is no label. -/
def addNode (d : Flowchart) (id : String) (label : Option String := none)
    (shape : Shape := .rectangle) : Except Rejection Flowchart := do
  let id ← Identifier.checkFor .node id
  if (d.node? id).isSome then .error (.nodeExists id)
  else
    let label ← Content.ofLabel label
    .ok (d.append (.node ⟨id, label, shape⟩ none))

/-- The flowchart with a new edge at its end, between nodes that are registered. An empty `label` is
no label. -/
def addEdge (d : Flowchart) (source target : String) (kind : EdgeKind := .arrow)
    (label : Option String := none) : Except Rejection Flowchart := do
  d.requireNode source
  d.requireNode target
  let label ← Content.ofLabel label
  .ok (d.append (.edge ⟨source, target, kind, label, none⟩))

/-! ### Removing -/

/-- What is left of a clause without the node `id`. A class assignment keeps its other nodes, and
goes with the last of them. -/
def Clause.without? (id : String) : Clause → Option Clause
  | .node n p => if n.id = id then none else some (.node n p)
  | .edge e => if e.source = id || e.target = id then none else some (.edge e)
  | .classDef name styles => some (.classDef name styles)
  | .classes ids name =>
    if ids.contains id && ids.all (· == id) then none
    else some (.classes (ids.filter (· != id)) name)
  | .style target styles => if target = id then none else some (.style target styles)

namespace Statement

mutual

/-- What is left of a statement without the node `id`. A subgraph stays even if nothing is left in
it. -/
def without? (id : String) : Statement → Option Statement
  | .clause c => (c.without? id).map .clause
  | .subgraph head body => some (.subgraph head (withoutList id body))

/-- What is left of statements without the node `id`, at any depth. -/
def withoutList (id : String) : List Statement → List Statement
  | [] => []
  | s :: ss => (s.without? id).toList ++ withoutList id ss

end

/-- The nodes that a statement mentions, without the statements it holds. -/
def mentioned : Statement → List String
  | .clause c => c.mentioned
  | .subgraph .. => []

end Statement

/-- The ids of the nodes that statements `ss` mention, at any depth and with repetitions. -/
def mentionedIds (ss : List Statement) : List String :=
  (Statement.walk ss).flatMap Statement.mentioned

/-- A declaration of each of the `nodes` that no statement mentions, as it was registered. -/
def redeclarations (nodes : List Node) (ss : List Statement) : List Statement :=
  (nodes.filter fun n => !(mentionedIds ss).contains n.id).map fun n => .clause (.node n none)

/-- The flowchart `d` without a node and all that is about it. Other nodes that were mentioned only
beside it are declared at the end, and the registry is made anew. -/
def removeNode (d : Flowchart) (id : String) : Flowchart :=
  let kept := Statement.withoutList id d.statements
  let statements := kept ++ redeclarations (d.nodes.filter (·.id != id)) kept
  { d with statements, nodes := Registry.ofStatements statements }

end DiagramText.Flowchart
