import DiagramText.Diagram

/-!
# Graphs

Flowcharts, state diagrams, class diagrams and entity-relationship diagrams are graphs at heart. A
graph has nodes in the order in which they were added and edges that may be parallel; what a node
belongs to is kept with it.
-/

namespace DiagramText

namespace Graph

/-- A node, and the subgraph or composite state that it belongs to, its `group`. -/
structure Node where
  id : String
  label : String
  shape : Shape := .rectangle
  group : Option String := none
deriving DecidableEq, Repr

/-- What an edge is. It keeps what the relation between its ends says. -/
inductive EdgeKind where
  | flow (kind : Flowchart.EdgeKind)
  | transition
  | relation (kind : Classes.RelationKind)
  | relationship (source target : Entities.Cardinality)
deriving DecidableEq, Repr

/-- An edge between two nodes, which are given by their ids. -/
structure Edge where
  source : String
  target : String
  kind : EdgeKind
  label : Option String := none
deriving DecidableEq, Repr

end Graph

/-- The graph of a diagram. `members` lists for each subgraph or composite state the nodes that
belong to it. -/
structure Graph where
  nodes : List Graph.Node := []
  edges : List Graph.Edge := []
  members : List (String × List String) := []
deriving DecidableEq, Repr

namespace Graph

/-! ### Building -/

/-- Whether there is a node with an `id`. -/
def contains (g : Graph) (id : String) : Bool := g.nodes.any (·.id == id)

/-- The graph `g` with a node `n`. A node with the same id is replaced where it stands. -/
def setNode (g : Graph) (n : Node) : Graph :=
  if g.contains n.id then
    { g with nodes := g.nodes.map fun m => if m.id = n.id then n else m }
  else { g with nodes := g.nodes ++ [n] }

/-- The graph `g` with a node `n`, unless there is one with the same id. -/
def ensureNode (g : Graph) (n : Node) : Graph :=
  if g.contains n.id then g else { g with nodes := g.nodes ++ [n] }

/-- A node of which only the `id` is known, which is its label as well. -/
def Node.bare (id : String) : Node := { id, label := id }

/-- The graph `g` with an edge `e` and the nodes that it needs. Parallel edges are kept. -/
def addEdge (g : Graph) (e : Edge) : Graph :=
  let g := (g.ensureNode (.bare e.source)).ensureNode (.bare e.target)
  { g with edges := g.edges ++ [e] }

/-! ### Looking -/

/-- The node with an `id`, if there is one. -/
def node? (g : Graph) (id : String) : Option Node := g.nodes.find? (·.id == id)

/-- The number of edges into the node `id`, parallel ones counted each. -/
def inDegree (g : Graph) (id : String) : Nat := g.edges.countP (·.target == id)

/-- The number of edges out of the node `id`, parallel ones counted each. -/
def outDegree (g : Graph) (id : String) : Nat := g.edges.countP (·.source == id)

/-- A list `ids` without its later copies, in the order of the first ones. -/
def firstCopies (ids : List String) : List String :=
  ids.foldl (fun seen id => if seen.contains id then seen else seen ++ [id]) []

/-- The nodes that edges lead to from the node `id`, in the order of their first edges. -/
def successors (g : Graph) (id : String) : List String :=
  firstCopies ((g.edges.filter (·.source == id)).map Edge.target)

/-- The edges from the node `source` to the node `target`, in their order. -/
def edgesBetween (g : Graph) (source target : String) : List Edge :=
  g.edges.filter fun e => e.source == source && e.target == target

/-- The edges of the graph `g` by source and target, the sources in the order of the nodes and the
targets of each in the order of their first edges. -/
def edgesBySource (g : Graph) : List Edge :=
  g.nodes.flatMap fun n => (g.successors n.id).flatMap (g.edgesBetween n.id)

/-- Whether the text `s` comes before `t` or is equal to it, character by character. -/
def textLe (s t : String) : Bool := !decide (t < s)

/-- The nodes with the nodes that edges lead to from them, all sorted by `textLe`. -/
def adjacency (g : Graph) : List (String × List String) :=
  (g.nodes.map fun n => (n.id, (g.successors n.id).mergeSort textLe)).mergeSort
    fun a b => textLe a.1 b.1

/-! ### Topological order -/

/-- Nodes that wait for edges into them, with the number of these edges. -/
abbrev Waiting := List (String × Nat)

/-- The nodes of a graph `g` that have edges into them, in order. -/
def waiting (g : Graph) : Waiting :=
  (g.nodes.map fun n => (n.id, g.inDegree n.id)).filter (·.2 != 0)

/-- Takes `edges` into a node off the count of a waiting node. A node that waits for no more edges
is ready. -/
def release (ready : List String) (id : String) (edges : Nat) : Waiting → List String × Waiting
  | [] => (ready, [])
  | (n, count) :: rest =>
    if n = id then
      if count ≤ edges then (ready ++ [n], rest) else (ready, (n, count - edges) :: rest)
    else
      let (ready, rest) := release ready id edges rest
      (ready, (n, count) :: rest)

theorem length_release (ready : List String) (id : String) (edges : Nat) (w : Waiting) :
    (release ready id edges w).1.length + (release ready id edges w).2.length =
      ready.length + w.length := by
  induction w with
  | nil => rfl
  | cons p rest ih =>
    obtain ⟨n, count⟩ := p
    simp only [release]
    split
    · split
      · simp only [List.length_append, List.length_cons, List.length_nil]
        omega
      · simp only [List.length_cons]
    · simp only [List.length_cons]
      omega

/-- Takes the edges from `source` off the counts of their targets, all parallel edges at once. -/
def releaseAll (g : Graph) (source : String) (ready : List String) (w : Waiting) :
    List String → List String × Waiting
  | [] => (ready, w)
  | target :: targets =>
    let (ready, w) := release ready target (g.edgesBetween source target).length w
    releaseAll g source ready w targets

theorem length_releaseAll (g : Graph) (source : String) (ready : List String) (w : Waiting)
    (targets : List String) :
    (releaseAll g source ready w targets).1.length +
      (releaseAll g source ready w targets).2.length = ready.length + w.length := by
  induction targets generalizing ready w with
  | nil => rfl
  | cons target targets ih =>
    rw [releaseAll, ih]
    exact length_release ..

/-- Puts the `ready` nodes in order, each before those that become ready by it, and gives the nodes
that wait forever as well. -/
def settle (g : Graph) (ready : List String) (w : Waiting) : List String × Waiting :=
  match ready with
  | [] => ([], w)
  | n :: ready =>
    let next := releaseAll g n ready w (g.successors n)
    let (order, left) := settle g next.1 next.2
    (n :: order, left)
termination_by ready.length + w.length
decreasing_by
  have := length_releaseAll g n ready w (g.successors n)
  simp only [List.length_cons]
  omega

/-- The nodes of the graph `g` in an order in which every edge leads forward, if there is one. No
node waits forever then. -/
def topologicalOrder? (g : Graph) : Option (List String) :=
  let free := (g.nodes.filter fun n => g.inDegree n.id == 0).map Node.id
  match settle g free g.waiting with
  | (order, []) => some order
  | _ => none

/-- Whether the edges of the graph `g` allow a topological order. -/
def isAcyclic (g : Graph) : Bool := g.topologicalOrder?.isSome

end Graph
end DiagramText
