import DiagramText.Graph.Basic

/-!
# The graphs of diagrams

A flowchart gives its registered nodes and its edges at any depth; a node belongs to the first
subgraph, in the order in which subgraphs end, that mentions it. A state diagram gives its states,
its transitions, and for each scope the pseudostates that its transitions use. Class diagrams and
entity-relationship diagrams give their classes or entities and the relations between them.
-/

namespace DiagramText.Graph

/-- A `text`, unless it is empty. -/
def nonEmpty (text : String) : Option String := if text.isEmpty then none else some text

/-- The plain text of a label, or the `id` in its place if there is none or it is empty. -/
def labelOr (id : String) (label : Option Content) : String :=
  (nonEmpty (Content.textOf label)).getD id

/-! ### Flowcharts -/

/-- What is gathered from the statements of a flowchart: the subgraph of each node, the edges, and
the nodes of each subgraph. -/
structure Gathered where
  groups : List (String × String) := []
  edges : List Flowchart.Edge := []
  members : List (String × List String) := []
deriving DecidableEq, Repr

namespace Gathered

/-- Gives the nodes that the subgraph `group` mentions to it, unless they belong to another
already. -/
def assign (g : Gathered) (group : String) (ids : List String) : Gathered :=
  let own := firstCopies (ids.filter fun id => (g.groups.lookup id).isNone)
  { g with
    groups := g.groups ++ own.map fun id => (id, group)
    members := g.members ++ [(group, own)] }

/-- Adds the edge that a clause is, if it is one. -/
def addClause (g : Gathered) : Flowchart.Clause → Gathered
  | .edge e => { g with edges := g.edges ++ [e] }
  | _ => g

/-- Gathers from the statements of a body, and gives the nodes that the body itself mentions behind
those in `ids`. -/
def gather (g : Gathered) (ids : List String) : List Flowchart.Statement → Gathered × List String
  | [] => (g, ids)
  | .clause c :: ss => gather (g.addClause c) (ids ++ c.mentioned) ss
  | .subgraph head body :: ss =>
    let (inner, own) := gather g [] body
    gather (inner.assign head.id own) ids ss

end Gathered

/-- The graph of a flowchart `d`: its registered nodes, and its edges at any depth. -/
def ofFlowchart (d : Flowchart) : Graph :=
  let gathered := (Gathered.gather {} [] d.statements).1
  let node (n : Flowchart.Node) : Node :=
    ⟨n.id, labelOr n.id n.label, n.shape, gathered.groups.lookup n.id⟩
  let edge (e : Flowchart.Edge) : Edge :=
    ⟨e.source, e.target, .flow e.kind, nonEmpty (Content.textOf e.label)⟩
  let g := d.nodes.foldl (fun g n => g.setNode (node n)) { members := gathered.members }
  gathered.edges.foldl (fun g e => g.addEdge (edge e)) g

/-! ### State diagrams -/

open States

/-- The shape of a state. A fork and a join are drawn alike. -/
def shapeOfState : StateKind → Shape
  | .simple => .rounded
  | .choice => .diamond
  | .fork | .join => .rectangle

/-- A scope with the key that its pseudostates get, which the outermost scope lacks. -/
abbrev KeyedScope := Option String × Scope State

/-- The scopes of a state `s`: its own, and those of its other regions, numbered from two. -/
def keyedScopes (s : State) : List KeyedScope :=
  (some s.id, s.ownScope) ::
    s.regions.mapIdx fun i r => (some s!"{s.id}:{i + 2}", r)

/-- The node of a state, which belongs to `owner`. -/
def stateNode (owner : Option String) (s : State) : Node :=
  ⟨s.id, labelOr s.id s.label, shapeOfState s.kind, owner⟩

/-- The id of one end of a transition. Each scope has pseudostates of its own, told apart by its
`key`. -/
def endId (key : Option String) (id : String) : String :=
  if isPseudostate id then (key.map fun k => s!"{k}/{id}").getD id else id

/-- The graph `g` with the node of one end of a transition, if it is a pseudostate. States are there
already. -/
def addEnd (owner key : Option String) (g : Graph) (id : String) : Graph :=
  if isPseudostate id then g.ensureNode ⟨endId key id, "[*]", .circle, owner⟩ else g

/-- The graph `g` with a transition `t`, and with the pseudostates at its ends. -/
def addTransition (owner key : Option String) (g : Graph) (t : Transition) : Graph :=
  (addEnd owner key (addEnd owner key g t.source) t.target).addEdge
    ⟨endId key t.source, endId key t.target, .transition, nonEmpty (Content.textOf t.label)⟩

/-- The graph `g` with the states and transitions of a scope, states first. -/
def addScope (owner : Option String) (g : Graph) (scope : KeyedScope) : Graph :=
  let g := scope.2.states.foldl (fun g s => g.setNode (stateNode owner s)) g
  scope.2.transitions.foldl (addTransition owner scope.1) g

/-- Scopes to be added, with the state that owns them. -/
abbrev Batch := Option String × List KeyedScope

/-- The batch of a composite state `s`, with all its scopes. -/
def batch? (s : State) : Option Batch :=
  if s.isComposite then some (some s.id, keyedScopes s) else none

/-- The batches of the composite states in `scopes`. -/
def batchesIn (scopes : List KeyedScope) : List Batch :=
  scopes.flatMap fun scope => scope.2.states.filterMap batch?

/-- The states in the `scopes` of a batch, without those in their own scopes. -/
def statesIn (scopes : List KeyedScope) : List State := scopes.flatMap fun s => s.2.states

/-- The graph `g` with the scopes of a batch, whose states become the members of their owner. -/
def addBatch (g : Graph) (b : Batch) : Graph :=
  let g := b.2.foldl (addScope b.1) g
  match b.1 with
  | none => g
  | some owner => { g with members := g.members ++ [(owner, (statesIn b.2).map State.id)] }

/-- The number of steps that adding batches takes at most. -/
def weight : List Batch → Nat
  | [] => 0
  | b :: bs => 1 + State.sizeList (statesIn b.2) + weight bs

theorem weight_append (as bs : List Batch) : weight (as ++ bs) = weight as + weight bs := by
  induction as with
  | nil => simp [weight]
  | cons a as ih => simp [weight, ih, Nat.add_assoc]

theorem sizeList_append (ss ts : List State) :
    State.sizeList (ss ++ ts) = State.sizeList ss + State.sizeList ts := by
  induction ss with
  | nil => simp [State.sizeList]
  | cons s ss ih => simp [State.sizeList, ih, Nat.add_assoc]

theorem sizeList_regions (key : Nat → String) (rs : List (Scope State)) :
    State.sizeList (statesIn (rs.mapIdx fun i r => (some (key i), r))) ≤ State.sizeScopes rs := by
  induction rs generalizing key with
  | nil => simp [statesIn, State.sizeList]
  | cons r rs ih =>
    have := ih fun i => key (i + 1)
    simp only [List.mapIdx_cons, statesIn, List.flatMap_cons, sizeList_append,
      State.sizeScopes] at *
    omega

theorem weight_batch? (s : State) : weight (batch? s).toList ≤ s.size := by
  obtain ⟨id, l, k, c, ts, ns, d, r, p⟩ := s
  cases c with
  | none => simp [batch?, State.isComposite, weight]
  | some ss =>
    have := sizeList_regions (fun i => s!"{id}:{i + 2}") r
    simp only [batch?, State.isComposite, Option.isSome_some, if_true, Option.toList_some, weight,
      keyedScopes, statesIn,
      List.flatMap_cons, sizeList_append, State.ownScope, Option.getD_some, State.size,
      State.sizeChildren] at *
    omega

theorem weight_filterMap (ss : List State) : weight (ss.filterMap batch?) ≤ State.sizeList ss := by
  induction ss with
  | nil => simp [weight]
  | cons s ss ih =>
    have := weight_batch? s
    cases h : batch? s <;>
      simp only [h, List.filterMap_cons, State.sizeList, Option.toList_some, Option.toList_none,
        weight] at * <;> omega

theorem weight_batchesIn (scopes : List KeyedScope) :
    weight (batchesIn scopes) ≤ State.sizeList (statesIn scopes) := by
  induction scopes with
  | nil => simp [batchesIn, weight]
  | cons s scopes ih =>
    have := weight_filterMap s.2.states
    simp only [batchesIn, statesIn, List.flatMap_cons, weight_append, sizeList_append] at *
    omega

/-- The graph `g` with the scopes of all batches and of the composite states in them, a composite
state before the next one beside it. -/
def addBatches (g : Graph) : List Batch → Graph
  | [] => g
  | b :: bs => addBatches (addBatch g b) (batchesIn b.2 ++ bs)
termination_by bs => weight bs
decreasing_by
  have := weight_batchesIn b.2
  rw [weight_append]
  simp only [weight] at *
  omega

/-- The graph of a state diagram `d`, scope by scope from the outermost one. -/
def ofStates (d : StateDiagram) : Graph := addBatches {} [(none, [(none, d.scope)])]

/-! ### Class and entity-relationship diagrams -/

/-- The graph of a class diagram `d`: its classes, and its relations with their operators. -/
def ofClasses (d : ClassDiagram) : Graph :=
  let g := d.classes.foldl (fun g c => g.ensureNode (.bare c.name)) {}
  d.relations.foldl (fun g r => g.addEdge ⟨r.source, r.target, .relation r.kind, r.label⟩) g

/-- The graph of an entity-relationship diagram `d`: its entities, and its relationships with both
cardinalities. -/
def ofEntities (d : EntityDiagram) : Graph :=
  let g := d.entities.foldl (fun g e => g.ensureNode (.bare e.name)) {}
  let edge (r : Entities.Relationship) : Edge :=
    ⟨r.source, r.target, .relationship r.sourceCardinality r.targetCardinality, r.label⟩
  d.relationships.foldl (fun g r => g.addEdge (edge r)) g

/-- The graph of a diagram. Sequence diagrams and gantt charts have none. -/
def ofDiagram? : Diagram → Option Graph
  | .flowchart d => some (ofFlowchart d)
  | .states d => some (ofStates d)
  | .classes d => some (ofClasses d)
  | .entities d => some (ofEntities d)
  | .sequence _ | .gantt _ => none

end DiagramText.Graph
