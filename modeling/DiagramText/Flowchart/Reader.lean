import DiagramText.Flowchart.Notation
import DiagramText.Reading

/-!
# Reading flowcharts

A flowchart is read statement by statement. Subgraphs that are still open are kept beside the
statements read so far; closing one makes it a statement of the body around it. A line of nodes and
edges becomes the declarations of its shaped nodes and then its edges, one for each pair of nodes
that face each other across an edge.
-/

namespace DiagramText.Flowchart

open Reading

/-! ### What has been read -/

/-- A subgraph whose end has not been read, with the statements read in it. -/
structure OpenSubgraph where
  head : Subgraph
  body : List Statement
deriving DecidableEq

/-- A flowchart of which a part has been read. The innermost of the `opened` subgraphs comes
first. -/
structure Draft where
  direction : Direction := .td
  nodes : List Node := []
  statements : List Statement := []
  opened : List OpenSubgraph := []
deriving DecidableEq

namespace Draft

/-- Puts statements `ss` at the end of the innermost open body. The registry stays as it is. -/
def extend (d : Draft) (ss : List Statement) : Draft :=
  match d.opened with
  | [] => { d with statements := d.statements ++ ss }
  | s :: outer => { d with opened := { s with body := s.body ++ ss } :: outer }

/-- Puts `clauses` at the end of the innermost open body and enters their nodes in the registry. -/
def add (d : Draft) (clauses : List Clause) : Draft :=
  { d with nodes := clauses.foldl Registry.enter d.nodes }.extend (clauses.map .clause)

/-- Opens the subgraph `head` with an empty body. -/
def openSubgraph (d : Draft) (head : Subgraph) : Draft :=
  { d with opened := ⟨head, []⟩ :: d.opened }

/-- Closes the innermost open subgraph, which becomes a statement of the body around it. -/
def closeSubgraph (d : Draft) : Draft :=
  match d.opened with
  | [] => d
  | s :: outer => { d with opened := outer }.extend [.subgraph s.head s.body]

/-- Sets the `direction` of the innermost open subgraph, or of the flowchart if none is open. -/
def setDirection (d : Draft) (direction : Direction) : Draft :=
  match d.opened with
  | [] => { d with direction }
  | s :: outer =>
    { d with opened := { s with head := { s.head with direction := some direction } } :: outer }

end Draft

/-! ### Nodes and edges -/

/-- A reference to a node, with the `declaration` that its shape makes. -/
structure Reference where
  id : String
  declaration : Option Clause := none
deriving DecidableEq

/-- The label that the token between delimiters means: none if its `innerText` is empty. -/
def labelOf (token : Option Token) : Reading (Option Content) :=
  match token.map fun t => innerText t.text with
  | none => return none
  | some text => if text.isEmpty then return none else some <$> content text

/-- Reads a reference to a node: its id, and the label between delimiters if they follow. -/
def reference : Reading Reference := do
  let token ← expect .identifier "node id"
  match ← accept .shapeOpen with
  | none => return { id := token.text }
  | some opener =>
    let text ← accept .label
    let closer ← expect .shapeClose "closing delimiter"
    match shapeOf? opener.text closer.text with
    | none => unexpected "matching shape delimiter" closer
    | some shape =>
      let label ← labelOf text
      return ⟨token.text, some (.node ⟨token.text, label, shape⟩ (some token.start))⟩

/-- Reads further references after ampersands, behind those in `refs`. -/
def moreReferences (refs : List Reference) : Reading (List Reference) :=
  loop (fun refs => do
    match ← accept .ampersand with
    | none => return .inr refs
    | some _ => return .inl (refs ++ [← reference])) refs

/-- Reads a group of references joined by ampersands. -/
def group : Reading (List Reference) := do moreReferences [← reference]

/-- A link of a chain: what joins the group before it to the group after it. -/
structure Link where
  kind : EdgeKind
  label : Option Content
  position : Position
  targets : List Reference
deriving DecidableEq

/-- The kind of edge that a `token` draws. -/
def edgeKind (token : Token) : Reading EdgeKind :=
  match EdgeKind.ofText? token.text with
  | some kind => return kind
  | none => unexpected "edge operator" token

/-- Reads the links of a chain. -/
def links : Reading (List Link) :=
  loop (fun links => do
    match ← accept .edge with
    | none => return .inr links
    | some token =>
      let kind ← edgeKind token
      let text ← accept .edgeLabel
      let targets ← group
      let label ← labelOf text
      return .inl (links ++ [⟨kind, label, token.start, targets⟩])) []

/-- The edges of a link `l` from each source to each target, all edges of one source together. -/
def Link.edges (l : Link) (sources : List Reference) : List Clause :=
  sources.flatMap fun source => l.targets.map fun target =>
    .edge ⟨source.id, target.id, l.kind, l.label, some l.position⟩

/-- The edges of a chain that starts with a group. The targets of a link are the sources of the next
one. -/
def chainEdges : List Reference → List Link → List Clause
  | _, [] => []
  | sources, l :: ls => l.edges sources ++ chainEdges l.targets ls

/-- The clauses of a line that starts with the group `first` and goes on with the links `ls`: the
declarations of shaped nodes, then the edges. A line without edges also declares the nodes without a
shape. -/
def chainClauses (first : List Reference) (ls : List Link) : List Clause :=
  let shaped := (first ++ ls.flatMap Link.targets).filterMap Reference.declaration
  let bare := first.filterMap fun r =>
    if r.declaration.isNone then some (.node (Node.bare r.id) none) else none
  shaped ++ if ls.isEmpty then bare else chainEdges first ls

/-- Reads a line of nodes and edges, up to the end of its statement. -/
def chain : Reading (List Clause) := do
  let first ← group
  let ls ← links
  endStatement
  return chainClauses first ls

/-! ### Statements with a keyword -/

/-- Reads the label between the delimiters after the id of a subgraph. Any delimiters will do. -/
def subgraphLabel : Reading (Option String) := do
  match ← accept .shapeOpen with
  | none => return none
  | some _ =>
    let text ← accept .label
    let _ ← expect .shapeClose "closing bracket"
    return text.map fun t => innerText t.text

/-- Reads the id of a subgraph and its label: an id in quotes, an identifier that a label or the end
of the line follows, or else the rest of the line as the id. -/
def subgraphName : Reading (String × Option String) := do
  let second ← ahead 1
  if ← check [.string] then return (Text.unquote (← advance).text, none)
  else if (← check [.identifier]) && (second.kind = .shapeOpen || second.kind.endsStatement) then
    let id := (← advance).text
    return (id, ← subgraphLabel)
  else
    let first ← peek
    let id ← restOfStatement
    if id.isEmpty then fail "subgraph id"
    else if id.toList.contains '"' then
      failAt (.unexpected "subgraph id without quotes" (Text.quoted id)) (some first.start)
    else return (id, none)

/-- Reads the line that opens a subgraph. An empty label is none. -/
def subgraphHead : Reading Subgraph := do
  let keyword ← advance
  let (id, label) ← subgraphName
  endStatement
  return { id, label := label.filter (!·.isEmpty), position := some keyword.start }

/-- Reads the further ids of a class assignment, behind those in `ids`. -/
def moreNodeIds (ids : List String) : Reading (List String) :=
  loop (fun ids => do
    match ← accept .comma with
    | none => return .inr ids
    | some _ => return .inl (ids ++ [(← expect .identifier "node id").text])) ids

/-- Reads the assignment of a class to nodes, behind its keyword. -/
def classAssignment : Reading Clause := do
  let _ ← advance
  let ids ← moreNodeIds [(← expect .identifier "node id").text]
  let name ← expect .identifier "class name"
  endStatement
  return .classes ids name.text

/-- Reads a keyword, a name and the rest of the line, and gives what `make` makes of the name and
the rest. -/
def named (make : String → String → Clause) : Reading Clause := do
  let _ ← advance
  let name ← advance
  let styles ← restOfStatement
  endStatement
  return make name.text styles

/-- Reads a direction line, for the flowchart or the subgraph it stands in. -/
def directionLine : Reading Direction := do
  let _ ← advance
  let d ← takeDirection "direction (TD, TB, BT, LR, RL)"
  endStatement
  return d

/-! ### The diagram -/

/-- Reads one statement. A keyword is tried before a line of nodes and edges, but only where it can
stand for itself. -/
def statement (d : Draft) : Reading Draft := do
  let token ← peek
  let second ← ahead 1
  if ← check [.newline, .semicolon] then
    let _ ← advance
    return d
  else if token.isWord ["end"] && second.kind.endsStatement then
    if d.opened.isEmpty then fail "statement"
    else
      let _ ← advance
      endStatement
      return d.closeSubgraph
  else if token.isWord ["subgraph"] then return d.openSubgraph (← subgraphHead)
  else if token.isWord ["direction"] && second.kind = .identifier then
    return d.setDirection (← directionLine)
  else if token.isWord ["classdef"] && second.kind = .identifier then
    return d.add [← named .classDef]
  else if token.isWord ["class"] && second.kind = .identifier then
    return d.add [← classAssignment]
  else if token.isWord ["style"] && second.kind = .identifier then
    return d.add [← named .style]
  else return d.add (← chain)

/-- Reads the header line: its word, and the direction if one follows. -/
def header : Reading Draft := do
  skipNewlines
  match ← acceptWord ["flowchart", "graph"] with
  | none => fail "'flowchart' or 'graph'"
  | some _ =>
    let d : Draft ← if ← check [.identifier] then
        pure { direction := ← takeDirection "direction (TD, TB, BT, LR, RL)" }
      else pure {}
    endStatement
    return d

/-- Reads a flowchart. A subgraph that is still open at the end is unterminated. -/
def read : Reading Flowchart := do
  let d ← untilEnd statement (← header)
  match d.opened with
  | [] => return ⟨d.direction, d.statements, d.nodes⟩
  | s :: _ => failAt (.unterminated "subgraph" s.head.position) (some (← peek).start)

end DiagramText.Flowchart
