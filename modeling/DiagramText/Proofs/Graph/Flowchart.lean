import DiagramText.Graph.OfDiagram
import DiagramText.Proofs.Flowchart.Removal
import DiagramText.Proofs.Graph.Basic

/-!
# The graph of a flowchart

The statements of a flowchart are gathered in one walk. It meets each subgraph behind those inside
it, and gives it the nodes that it mentions itself, except those that a subgraph met before has
already. So each node that some subgraph mentions belongs to one subgraph, and never to one around
another that mentions it. The edges are kept as they come, and the nodes are those of the registry.

* `Flowchart.subgraphsOf`: the subgraphs in the order in which they are met;
  `Flowchart.subgraphsOf_inner` says that those inside a subgraph come right before it.
* `Graph.Gathered.Fair`: the nodes are given to the subgraphs met so far in this way;
  `Graph.Gathered.Fair.assign` is one subgraph, `Graph.Gathered.Fair.gather` the whole walk.
* `Graph.ofFlowchart_eq`: the graph, part by part.
* `Graph.shows_ofFlowchart`: what the graph of a flowchart shows.
-/

namespace DiagramText

namespace Flowchart

/-! ### Edges and subgraphs in statements -/

/-- The edge that a clause is. -/
def Clause.edge? : Clause → Option Edge
  | .edge e => some e
  | _ => none

/-- The edges in statements `ss` in document order, at any depth, subgraphs included. -/
def edgesOf (ss : List Statement) : List Edge := (clausesOf ss).filterMap Clause.edge?

/-- A subgraph with its statements, as it stands in a flowchart. -/
structure Occurrence where
  head : Subgraph
  body : List Statement

/-- The subgraphs in statements at any depth, each behind those inside it, which is the order in
which they are left. -/
def subgraphsOf : List Statement → List Occurrence
  | [] => []
  | .clause _ :: ss => subgraphsOf ss
  | .subgraph head body :: ss => subgraphsOf body ++ ⟨head, body⟩ :: subgraphsOf ss

/-- The ids that statements declare or link, without those in subgraphs. An id may come more than
once. -/
def ownIds : List Statement → List String
  | [] => []
  | .clause c :: ss => c.mentioned ++ ownIds ss
  | .subgraph _ _ :: ss => ownIds ss

/-- The ids that a subgraph `p` declares or links itself. -/
def Occurrence.ids (p : Occurrence) : List String := ownIds p.body

theorem edgesOf_clause_cons (c : Clause) (ss : List Statement) :
    edgesOf (.clause c :: ss) = c.edge?.toList ++ edgesOf ss := by
  unfold edgesOf
  rw [clausesOf_clause_cons]
  cases h : c.edge? with
  | none => rw [List.filterMap_cons_none h]; rfl
  | some e => rw [List.filterMap_cons_some h]; rfl

theorem edgesOf_subgraph_cons (head : Subgraph) (body ss : List Statement) :
    edgesOf (.subgraph head body :: ss) = edgesOf body ++ edgesOf ss := by
  unfold edgesOf
  rw [clausesOf_subgraph_cons, List.filterMap_append]

/-- The ends of an edge `e` are mentioned, so they are registered in a flowchart with a registry. -/
theorem mem_mentionedIds_of_mem_edgesOf {e : Edge} {ss : List Statement} (h : e ∈ edgesOf ss) :
    e.source ∈ mentionedIds ss ∧ e.target ∈ mentionedIds ss := by
  obtain ⟨c, hc, hedge⟩ := List.mem_filterMap.1 h
  have hmentioned : c.mentioned = [e.source, e.target] := by
    cases c with
    | edge e' => rw [← Option.some.inj hedge]; rfl
    | node _ _ | classDef _ _ | classes _ _ | style _ _ => cases hedge
  rw [mentionedIds_eq]
  constructor
  · apply List.mem_flatMap_of_mem hc
    rw [hmentioned]
    exact List.mem_cons_self
  · apply List.mem_flatMap_of_mem hc
    rw [hmentioned]
    exact List.mem_cons_of_mem _ List.mem_cons_self

/-- The subgraphs inside a subgraph come right before it, so they are done when it is met. -/
theorem subgraphsOf_inner {ss : List Statement} {before after : List Occurrence} {p : Occurrence}
    (h : subgraphsOf ss = before ++ p :: after) : subgraphsOf p.body <:+ before := by
  induction ss using subgraphsOf.induct generalizing before after with
  | case1 =>
    rw [subgraphsOf] at h
    simp at h
  | case2 c ss ih =>
    rw [subgraphsOf] at h
    exact ih h
  | case3 head body ss ihbody ih =>
    rw [subgraphsOf] at h
    rcases List.append_eq_append_iff.1 h with ⟨mid, rfl, hrest⟩ | ⟨mid, hbody, hrest⟩
    · -- it is the subgraph itself or one behind it
      rcases List.cons_eq_append_iff.1 hrest with ⟨rfl, heq⟩ | ⟨mid', rfl, heq⟩
      · cases heq
        simp
      · exact (ih heq).trans ((List.suffix_cons _ _).trans (List.suffix_append _ _))
    · rcases List.cons_eq_append_iff.1 hrest with ⟨rfl, heq⟩ | ⟨mid', rfl, -⟩
      · cases heq
        rw [List.append_nil] at hbody
        subst hbody
        exact List.suffix_refl _
      · exact ihbody hbody

end Flowchart

namespace Graph

open Flowchart (Statement Occurrence subgraphsOf ownIds edgesOf)

/-! ### Gathering -/

/-- The member list `m` of the subgraph `p`: some of the nodes that it mentions itself, but none
that a subgraph inside it mentions. -/
structure IsMemberList (p : Occurrence) (m : String × List String) : Prop where
  group : m.1 = p.head.id
  mentioned : m.2 ⊆ p.ids
  inner : ∀ q ∈ subgraphsOf p.body, ∀ id ∈ q.ids, id ∉ m.2

namespace Gathered

/-- The nodes that the subgraphs `done` mention are given to them, each node to one of them. -/
structure Fair (done : List Occurrence) (g : Gathered) : Prop where
  lists : List.Forall₂ IsMemberList done g.members
  nodup : (g.members.flatMap Prod.snd).Nodup
  mem_iff : ∀ id, id ∈ g.members.flatMap Prod.snd ↔ ∃ p ∈ done, id ∈ p.ids
  /-- A node is known to belong to the subgraph that lists it. -/
  lookup_iff : ∀ id group,
    g.groups.lookup id = some group ↔ ∃ m ∈ g.members, m.1 = group ∧ id ∈ m.2

variable {done : List Occurrence} {g : Gathered} {p : Occurrence} {id : String}
  {ids : List String} {ss : List Statement}

theorem fair_start : Fair [] {} := ⟨.nil, List.nodup_nil, by simp, by simp⟩

/-- What belongs to no subgraph is listed by none, and the other way round. -/
theorem Fair.lookup_eq_none_iff (h : Fair done g) :
    g.groups.lookup id = none ↔ id ∉ g.members.flatMap Prod.snd := by
  rw [Option.eq_none_iff_forall_ne_some, List.mem_flatMap]
  constructor
  · rintro hnone ⟨m, hm, hid⟩
    exact hnone m.1 ((h.lookup_iff id m.1).2 ⟨m, hm, rfl, hid⟩)
  · intro hnone group hgroup
    obtain ⟨m, hm, -, hid⟩ := (h.lookup_iff id group).1 hgroup
    exact hnone ⟨m, hm, hid⟩

theorem lookup_map_group (ids : List String) (group : String) :
    (ids.map fun i => (i, group)).lookup id = if id ∈ ids then some group else none := by
  induction ids with
  | nil => rfl
  | cons i is ih =>
    rw [List.map_cons, List.lookup_cons, ih]
    by_cases h : id = i
    · simp [h]
    · rw [beq_false_of_ne h]
      simp [h]

/-- A subgraph `p` whose inner subgraphs have their nodes gets those of its own that are left. -/
theorem Fair.assign (h : Fair done g) (hinner : subgraphsOf p.body ⊆ done) :
    Fair (done ++ [p]) (g.assign p.head.id p.ids) := by
  have hnone : ∀ id, (g.groups.lookup id).isNone = true ↔ id ∉ g.members.flatMap Prod.snd :=
    fun id => by rw [Option.isNone_iff_eq_none, h.lookup_eq_none_iff]
  -- the nodes that are left for the subgraph
  obtain ⟨own, hown⟩ :
      ∃ own, own = firstCopies (p.ids.filter fun id => (g.groups.lookup id).isNone) :=
    ⟨_, rfl⟩
  have hmem : ∀ id, id ∈ own ↔ id ∈ p.ids ∧ id ∉ g.members.flatMap Prod.snd := by
    intro id
    rw [hown, firstCopies_eq, List.mem_eraseDups, List.mem_filter, hnone]
  have hmembers : (g.assign p.head.id p.ids).members = g.members ++ [(p.head.id, own)] := by
    rw [hown]
    rfl
  have hgroups : (g.assign p.head.id p.ids).groups =
      g.groups ++ own.map fun id => (id, p.head.id) := by
    rw [hown]
    rfl
  have hflat : (g.assign p.head.id p.ids).members.flatMap Prod.snd =
      g.members.flatMap Prod.snd ++ own := by
    rw [hmembers, List.flatMap_append, List.flatMap_singleton]
  constructor
  · rw [hmembers]
    apply List.rel_append h.lists
    refine .cons ⟨rfl, fun id hid => ((hmem id).1 hid).1, ?_⟩ .nil
    intro q hq id hid hlisted
    exact ((hmem id).1 hlisted).2 ((h.mem_iff id).2 ⟨q, hinner hq, hid⟩)
  · rw [hflat, List.nodup_append']
    refine ⟨h.nodup, ?_, fun id hid hid' => ((hmem id).1 hid').2 hid⟩
    rw [hown, firstCopies_eq]
    exact nodup_eraseDups _
  · intro id
    rw [hflat, List.mem_append, hmem, h.mem_iff]
    simp only [List.mem_append, List.mem_singleton, or_and_right, exists_or, exists_eq_left]
    by_cases hid : ∃ q ∈ done, id ∈ q.ids
    · simp [hid]
    · simp [hid]
  · intro id group
    rw [hgroups, hmembers, List.lookup_append, lookup_map_group, Option.or_eq_some_iff,
      h.lookup_iff, h.lookup_eq_none_iff, Option.ite_none_right_eq_some, Option.some.injEq]
    simp only [List.mem_append, List.mem_singleton, or_and_right, exists_or, exists_eq_left]
    apply or_congr_right
    constructor
    · rintro ⟨-, hid, rfl⟩
      exact ⟨rfl, hid⟩
    · rintro ⟨rfl, hid⟩
      exact ⟨((hmem id).1 hid).2, hid, rfl⟩

/-! ### The whole walk -/

/-- The walk over a body `ss` gives the `ids` that the body mentions itself, behind those that it
was given. -/
theorem gather_snd (g : Gathered) (ids : List String) (ss : List Statement) :
    (gather g ids ss).2 = ids ++ ownIds ss := by
  induction g, ids, ss using gather.induct with
  | case1 g ids => rw [gather, ownIds, List.append_nil]
  | case2 g ids c ss ih => rw [gather, ownIds, ih, List.append_assoc]
  | case3 g ids head body ss inner own hbody ihbody ih =>
    rw [gather, ownIds, hbody]
    exact ih

/-- The walk keeps all edges in document order, also those in subgraphs. -/
theorem edges_gather (g : Gathered) (ids : List String) (ss : List Statement) :
    (gather g ids ss).1.edges = g.edges ++ edgesOf ss := by
  induction g, ids, ss using gather.induct with
  | case1 g ids => simp [gather, edgesOf]
  | case2 g ids c ss ih =>
    have hclause : (g.addClause c).edges = g.edges ++ c.edge?.toList := by
      cases c with
      | edge e => rfl
      | node _ _ | classDef _ _ | classes _ _ | style _ _ => exact (List.append_nil _).symm
    rw [gather, ih, hclause, Flowchart.edgesOf_clause_cons, List.append_assoc]
  | case3 g ids head body ss inner own hbody ihbody ih =>
    have hinner : inner.edges = g.edges ++ edgesOf body := by
      rw [← ihbody, hbody]
    rw [gather, hbody, Flowchart.edgesOf_subgraph_cons, ← List.append_assoc, ← hinner]
    exact ih

theorem Fair.addClause (h : Fair done g) (c : Flowchart.Clause) : Fair done (g.addClause c) := by
  cases c with
  | edge e => exact ⟨h.lists, h.nodup, h.mem_iff, h.lookup_iff⟩
  | node _ _ | classDef _ _ | classes _ _ | style _ _ => exact h

/-- The walk gives the nodes to the subgraphs as it meets them. The induction is over the statements
`ss`, and a subgraph is done after its body. -/
theorem Fair.gather (h : Fair done g) : Fair (done ++ subgraphsOf ss) (gather g ids ss).1 := by
  induction g, ids, ss using gather.induct generalizing done with
  | case1 g ids =>
    rw [Gathered.gather, subgraphsOf, List.append_nil]
    exact h
  | case2 g ids c ss ih =>
    rw [Gathered.gather, subgraphsOf]
    exact ih (h.addClause c)
  | case3 g ids head body ss inner own hbody ihbody ih =>
    -- behind the body the subgraphs inside have their nodes
    have hinner : Fair (done ++ subgraphsOf body) inner := by
      have hfair := ihbody h
      rwa [hbody] at hfair
    have hown : own = ownIds body := by
      have hsnd := gather_snd g [] body
      rwa [hbody] at hsnd
    have hassign := hinner.assign (p := ⟨head, body⟩) (List.subset_append_right _ _)
    rw [hown] at ih
    rw [Gathered.gather, hbody, subgraphsOf, hown, List.append_cons, ← List.append_assoc,
      ← List.append_assoc]
    exact ih hassign

end Gathered

/-! ### The graph -/

/-- The node of a graph for one of a flowchart, given in `groups` the subgraphs that nodes belong
to. -/
def flowNode (groups : List (String × String)) (n : Flowchart.Node) : Node :=
  ⟨n.id, labelOr n.id n.label, n.shape, groups.lookup n.id⟩

/-- The edge of a graph for the edge `e` of a flowchart. A label that shows no text is none. -/
def flowEdge (e : Flowchart.Edge) : Edge :=
  ⟨e.source, e.target, .flow e.kind, nonEmpty (Content.textOf e.label)⟩

/-- What the graph `g` shows of the flowchart `d`. -/
structure ShowsFlowchart (d : Flowchart) (g : Graph) : Prop where
  /-- There is one node for each id of the registry, with its label and shape. -/
  nodes : List.Forall₂ (fun n m => m.id = n.id ∧ m.label = labelOr n.id n.label ∧
    m.shape = n.shape) d.nodes g.nodes
  wellFormed : g.WellFormed
  /-- There is one edge for each edge at any depth. -/
  edges : g.edges = (edgesOf d.statements).map flowEdge
  inDegree : ∀ id, g.inDegree id = (edgesOf d.statements).countP (·.target = id)
  outDegree : ∀ id, g.outDegree id = (edgesOf d.statements).countP (·.source = id)
  adjacency : g.IsAdjacency g.adjacency
  /-- There is one member list for each subgraph. -/
  lists : List.Forall₂ IsMemberList (subgraphsOf d.statements) g.members
  /-- Those of the subgraphs inside a subgraph come before its own. -/
  inner : ∀ before p after, subgraphsOf d.statements = before ++ p :: after →
    subgraphsOf p.body <:+ before
  /-- No node is listed twice. -/
  nodup : (g.members.flatMap Prod.snd).Nodup
  /-- The nodes that are listed are those that some subgraph mentions. -/
  mem_iff : ∀ id, id ∈ g.members.flatMap Prod.snd ↔ ∃ p ∈ subgraphsOf d.statements, id ∈ p.ids
  /-- A node belongs to the subgraph that lists it. -/
  group_iff : ∀ n ∈ g.nodes, ∀ group,
    n.group = some group ↔ ∃ m ∈ g.members, m.1 = group ∧ n.id ∈ m.2

variable {d : Flowchart}

theorem map_id_flowNode (groups : List (String × String)) (ns : List Flowchart.Node) :
    (ns.map (flowNode groups)).map Node.id = ns.map Flowchart.Node.id := by
  rw [List.map_map]
  rfl

/-- The ends of edges are registered, since they are mentioned, so they are nodes of the graph. -/
theorem ends_flowEdge (h : d.Registered) (groups : List (String × String)) :
    ∀ e ∈ (edgesOf d.statements).map flowEdge,
      e.source ∈ (d.nodes.map (flowNode groups)).map Node.id ∧
        e.target ∈ (d.nodes.map (flowNode groups)).map Node.id := by
  intro e he
  obtain ⟨e', he', rfl⟩ := List.mem_map.1 he
  have hids : ∀ id ∈ Flowchart.mentionedIds d.statements,
      id ∈ (d.nodes.map (flowNode groups)).map Node.id := by
    intro id hid
    rw [map_id_flowNode, h.ids_eq, List.mem_eraseDups]
    exact hid
  exact (Flowchart.mem_mentionedIds_of_mem_edgesOf he').imp (hids _) (hids _)

/-- The graph of a flowchart `d`: the nodes of its registry, its edges, and what was gathered. No
edge adds a node. -/
theorem ofFlowchart_eq (h : d.Registered) :
    ofFlowchart d = {
      nodes := d.nodes.map (flowNode (Gathered.gather {} [] d.statements).1.groups)
      edges := (edgesOf d.statements).map flowEdge
      members := (Gathered.gather {} [] d.statements).1.members } := by
  obtain ⟨gathered, hgathered⟩ : ∃ x, x = (Gathered.gather {} [] d.statements).1 := ⟨_, rfl⟩
  have hedges : gathered.edges = edgesOf d.statements := by
    rw [hgathered, Gathered.edges_gather, List.nil_append]
  have hgraph : ofFlowchart d = ((edgesOf d.statements).map flowEdge).foldl addEdge
      ((d.nodes.map (flowNode gathered.groups)).foldl setNode { members := gathered.members }) := by
    rw [List.foldl_map, List.foldl_map, ← hedges, hgathered]
    rfl
  have hnodes : (d.nodes.map (flowNode gathered.groups)).foldl setNode
      { members := gathered.members } =
      { nodes := d.nodes.map (flowNode gathered.groups), members := gathered.members } := by
    apply foldl_setNode
    rw [map_id_flowNode]
    exact h.nodup
  rw [hgraph, hnodes, foldl_addEdge (ends_flowEdge h _), hgathered]
  rfl

/-- The graph of a flowchart `d`, the registry of which is that of its statements, shows each node
and each edge once, and lists each node that subgraphs mention for one of them. -/
theorem shows_ofFlowchart (h : d.nodes = Flowchart.Registry.ofStatements d.statements) :
    ShowsFlowchart d (ofFlowchart d) := by
  have hregistered := Flowchart.Registered.of_nodes_eq h
  -- How subgraphs share the nodes is an invariant of the walk that gathers them.
  have hfair : Gathered.Fair (subgraphsOf d.statements) (Gathered.gather {} [] d.statements).1 :=
    Gathered.fair_start.gather
  rw [ofFlowchart_eq hregistered]
  have hnodup : ∀ groups, ((d.nodes.map (flowNode groups)).map Node.id).Nodup := by
    intro groups
    rw [map_id_flowNode]
    exact hregistered.nodup
  constructor
  · apply List.forall₂_map_right_iff.2
    exact List.forall₂_same.2 fun n _ => ⟨rfl, rfl, rfl⟩
  · exact ⟨hnodup _, ends_flowEdge hregistered _⟩
  · rfl
  · intro id
    rw [inDegree, List.countP_map]
    rfl
  · intro id
    rw [outDegree, List.countP_map]
    rfl
  · exact isAdjacency_adjacency (hnodup _)
  · exact hfair.lists
  · exact fun before p after => Flowchart.subgraphsOf_inner
  · exact hfair.nodup
  · exact hfair.mem_iff
  · rintro n hn group
    obtain ⟨m, -, rfl⟩ := List.mem_map.1 hn
    exact hfair.lookup_iff m.id group

/-- Two subgraphs mention B, and two mention C: each of them belongs to the subgraph that ends
first. The last two edges are parallel, and the edge from A to A is a loop. -/
theorem shows_ofFlowchart_shared : ∃ d : Flowchart,
    d.nodes = Flowchart.Registry.ofStatements d.statements ∧
      d.nodes.map Flowchart.Node.id = ["A", "B", "C", "D", "E"] ∧
      (subgraphsOf d.statements).map (·.head.id) = ["inner", "outer", "other"] ∧
      (ofFlowchart d).members = [("inner", ["A", "B"]), ("outer", ["C"]), ("other", ["D", "E"])] ∧
      (ofFlowchart d).outDegree "A" = 4 ∧ (ofFlowchart d).inDegree "D" = 3 ∧
        ShowsFlowchart d (ofFlowchart d) := by
  let edge (source target : String) : Statement := .clause (.edge { source, target })
  let statements : List Statement := [
    .subgraph { id := "outer" } [
      .subgraph { id := "inner" } [edge "A" "B"], edge "B" "C", edge "A" "A"],
    .subgraph { id := "other" } [edge "C" "D", .clause (.node { id := "E" } none)],
    edge "A" "D", edge "A" "D"]
  let d : Flowchart := {
    statements, nodes := ["A", "B", "C", "D", "E"].map Flowchart.Node.bare }
  have hregistered : d.nodes = Flowchart.Registry.ofStatements d.statements := by decide +kernel
  have hshows := shows_ofFlowchart hregistered
  refine ⟨d, hregistered, rfl, ?_, ?_, ?_, ?_, hshows⟩
  · simp [d, statements, edge, subgraphsOf]
  · simp [d, statements, edge, ofFlowchart, Gathered.gather, Gathered.assign, Gathered.addClause,
      Flowchart.Clause.mentioned, firstCopies]
  · rw [hshows.outDegree]
    decide +kernel
  · rw [hshows.inDegree]
    decide +kernel

end Graph
end DiagramText
