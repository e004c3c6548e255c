import DiagramText.Proofs.Graph.Basic

/-!
# Drawing a graph step by step

A graph can be drawn by setting nodes and adding edges in any order. An edge may come before the
node at one of its ends is set; then a bare node stands in its place until it is. Other ends are
nodes that are drawn with the edge and that edges may share.

* `Graph.Step`: a step in drawing; `Graph.edges_foldl_run` and `Graph.members_foldl_run` tell the
  edges and member lists behind a number of steps.
* `Graph.Drawn`: some nodes are drawn, and all others are bare ones that stand for nodes to come;
  each step that fits keeps it.
* `Graph.perm_nodes_foldl_run`: when all nodes are drawn, there are no others.
-/

namespace DiagramText.Graph

/-- A step in drawing a graph. -/
inductive Step where
  /-- A node that takes the place of one with the same id. -/
  | node (n : Node)
  /-- An edge with the nodes that are drawn for its ends. -/
  | edge (ends : List Node) (e : Edge)
  /-- The list of the members of a group. -/
  | members (row : String × List String)

namespace Step

/-- The graph `g` after a step. -/
def run (g : Graph) : Step → Graph
  | node n => g.setNode n
  | edge ends e => (ends.foldl ensureNode g).addEdge e
  | members row => { g with members := g.members ++ [row] }

/-- The nodes that a step draws: for an edge, those that are drawn for its ends. -/
def nodes : Step → List Node
  | node n => [n]
  | edge ends _ => ends
  | members _ => []

/-- The edge that a step adds, if it adds one. -/
def edge? : Step → Option Edge
  | edge _ e => some e
  | _ => none

/-- The member list that a step adds, if it adds one. -/
def row? : Step → Option (String × List String)
  | members row => some row
  | _ => none

/-- A step that sets one of the nodes `ns`, or that adds an edge between these and nodes of `ps`
that it draws. -/
def Fits (ns ps : List Node) : Step → Prop
  | node n => n ∈ ns
  | edge ends e => ends ⊆ ps ∧ e.source ∈ (ns ++ ends).map Node.id ∧
      e.target ∈ (ns ++ ends).map Node.id
  | members _ => True

end Step

variable {g : Graph} {n m : Node} {e : Edge} {id : String} {ns ps done ends : List Node}
  {steps : List Step}

/-! ### Edges and member lists -/

theorem edges_foldl_ensureNode (ends : List Node) (g : Graph) :
    (ends.foldl ensureNode g).edges = g.edges := by
  induction ends generalizing g with
  | nil => rfl
  | cons n ends ih => rw [List.foldl_cons, ih, edges_ensureNode]

theorem members_foldl_ensureNode (ends : List Node) (g : Graph) :
    (ends.foldl ensureNode g).members = g.members := by
  induction ends generalizing g with
  | nil => rfl
  | cons n ends ih => rw [List.foldl_cons, ih, members_ensureNode]

theorem edges_foldl_run (steps : List Step) (g : Graph) :
    (steps.foldl Step.run g).edges = g.edges ++ steps.filterMap Step.edge? := by
  induction steps generalizing g with
  | nil => exact (List.append_nil _).symm
  | cons step steps ih =>
    rw [List.foldl_cons, ih]
    cases step with
    | node n =>
      show (g.setNode n).edges ++ _ = _
      rw [edges_setNode]
      rfl
    | edge ends e =>
      show ((ends.foldl ensureNode g).addEdge e).edges ++ _ = _
      rw [edges_addEdge, edges_foldl_ensureNode, List.append_assoc]
      rfl
    | members row => rfl

theorem members_foldl_run (steps : List Step) (g : Graph) :
    (steps.foldl Step.run g).members = g.members ++ steps.filterMap Step.row? := by
  induction steps generalizing g with
  | nil => exact (List.append_nil _).symm
  | cons step steps ih =>
    rw [List.foldl_cons, ih]
    cases step with
    | node n =>
      show (g.setNode n).members ++ _ = _
      rw [members_setNode]
      rfl
    | edge ends e =>
      show ((ends.foldl ensureNode g).addEdge e).members ++ _ = _
      rw [members_addEdge, members_foldl_ensureNode]
      rfl
    | members row =>
      show (g.members ++ [row]) ++ _ = _
      rw [List.append_assoc]
      rfl

/-! ### Nodes -/

/-- A graph in which the nodes `done` are drawn, which are of the nodes `ns` that are to be set and
the nodes `ps` that only edges need. Any other node stands for one of `ns`. -/
structure Drawn (ns ps done : List Node) (g : Graph) : Prop where
  wellFormed : g.WellFormed
  known : done ⊆ ns ++ ps
  mem : done ⊆ g.nodes
  rest : ∀ n ∈ g.nodes, n ∈ done ∨ ∃ s ∈ ns, s ∉ done ∧ s.id = n.id

namespace Drawn

theorem empty (ns ps : List Node) : Drawn ns ps [] {} :=
  ⟨.empty [], List.nil_subset _, List.nil_subset _, List.forall_mem_nil _⟩

/-- When the further node `n` is drawn, the others stay, unless one of them stands for it. -/
theorem rest_concat (h : Drawn ns ps done g) (hm : m ∈ g.nodes)
    (hne : ∀ s ∈ ns, s.id = m.id → s ≠ n) :
    m ∈ done ++ [n] ∨ ∃ s ∈ ns, s ∉ done ++ [n] ∧ s.id = m.id := by
  rcases h.rest m hm with hm | ⟨s, hs, hnew, hsm⟩
  · exact .inl (List.mem_append_left _ hm)
  · refine .inr ⟨s, hs, ?_, hsm⟩
    rw [List.mem_append, List.mem_singleton, not_or]
    exact ⟨hnew, hne s hs hsm⟩

section

variable (hids : ((ns ++ ps).map Node.id).Nodup)

include hids

theorem setNode (h : Drawn ns ps done g) (hn : n ∈ ns) :
    Drawn ns ps (done ++ [n]) (g.setNode n) := by
  have hknown : n ∈ ns ++ ps := List.mem_append_left _ hn
  constructor
  · exact h.wellFormed.setNode n
  · exact List.append_subset.2 ⟨h.known, List.cons_subset.2 ⟨hknown, List.nil_subset _⟩⟩
  · intro m hm
    rw [mem_nodes_setNode]
    rcases List.mem_append.1 hm with hm | hm
    · by_cases hid : m.id = n.id
      · exact .inl (List.inj_on_of_nodup_map hids (h.known hm) hknown hid)
      · exact .inr ⟨h.mem hm, hid⟩
    · exact .inl (List.mem_singleton.1 hm)
  · intro m hm
    rcases mem_nodes_setNode.1 hm with rfl | ⟨hm, hid⟩
    · exact .inl (List.mem_append_right _ List.mem_cons_self)
    · apply h.rest_concat hm
      rintro s - hsm rfl
      exact hid hsm.symm

theorem ensureNode (h : Drawn ns ps done g) (hn : n ∈ ps) :
    Drawn ns ps (done ++ [n]) (g.ensureNode n) := by
  have hknown : n ∈ ns ++ ps := List.mem_append_right _ hn
  -- no node that is to be set has the id, so none stands for one with it
  have hother : ∀ s ∈ ns, s.id ≠ n.id := by
    intro s hs hid
    rw [List.map_append] at hids
    apply List.disjoint_of_nodup_append hids (List.mem_map_of_mem hs)
    rw [hid]
    exact List.mem_map_of_mem hn
  constructor
  · exact h.wellFormed.ensureNode n
  · exact List.append_subset.2 ⟨h.known, List.cons_subset.2 ⟨hknown, List.nil_subset _⟩⟩
  · intro m hm
    rw [mem_nodes_ensureNode]
    rcases List.mem_append.1 hm with hm | hm
    · exact .inl (h.mem hm)
    · obtain rfl := List.mem_singleton.1 hm
      by_cases hid : m.id ∈ g.ids
      · obtain ⟨k, hk, hkm⟩ := List.mem_map.1 hid
        rcases h.rest k hk with hdone | ⟨s, hs, -, hsk⟩
        · rw [List.inj_on_of_nodup_map hids (h.known hdone) hknown hkm] at hk
          exact .inl hk
        · exact absurd (hsk.trans hkm) (hother s hs)
      · exact .inr ⟨rfl, hid⟩
  · intro m hm
    rcases mem_nodes_ensureNode.1 hm with hm | ⟨rfl, -⟩
    · apply h.rest_concat hm
      rintro s hs - rfl
      exact hother s hs rfl
    · exact .inl (List.mem_append_right _ List.mem_cons_self)

theorem foldl_ensureNode (h : Drawn ns ps done g) (hends : ends ⊆ ps) :
    Drawn ns ps (done ++ ends) (ends.foldl Graph.ensureNode g) := by
  induction ends generalizing g done with
  | nil =>
    rw [List.append_nil]
    exact h
  | cons n ends ih =>
    obtain ⟨hn, hends⟩ := List.cons_subset.1 hends
    rw [List.foldl_cons, List.append_cons]
    exact ih (h.ensureNode hids hn) hends

end

/-- A bare node is added for a node that is to be set, but is not drawn yet. The nodes that are
drawn stay as they are. -/
theorem ensureBare (h : Drawn ns ps done g) (hid : id ∈ (ns ++ done).map Node.id) :
    Drawn ns ps done (g.ensureNode (.bare id)) := by
  constructor
  · exact h.wellFormed.ensureNode _
  · exact h.known
  · exact fun m hm => mem_nodes_ensureNode.2 (.inl (h.mem hm))
  · intro m hm
    rcases mem_nodes_ensureNode.1 hm with hm | ⟨rfl, hnew⟩
    · exact h.rest m hm
    · obtain ⟨s, hs, rfl⟩ := List.mem_map.1 hid
      have hnot : s ∉ done := by
        intro hdone
        apply hnew
        show s.id ∈ g.ids
        exact List.mem_map_of_mem (h.mem hdone)
      exact .inr ⟨s, (List.mem_append.1 hs).resolve_right hnot, hnot, rfl⟩

theorem addEdge (h : Drawn ns ps done g) (hsource : e.source ∈ (ns ++ done).map Node.id)
    (htarget : e.target ∈ (ns ++ done).map Node.id) : Drawn ns ps done (g.addEdge e) := by
  have hends := (h.ensureBare hsource).ensureBare htarget
  exact ⟨h.wellFormed.addEdge e, hends.known, hends.mem, hends.rest⟩

/-- Each step that fits draws its nodes, whatever was drawn before. -/
theorem run (hids : ((ns ++ ps).map Node.id).Nodup) (h : Drawn ns ps done g) {step : Step}
    (hfits : step.Fits ns ps) : Drawn ns ps (done ++ step.nodes) (step.run g) := by
  cases step with
  | node n => exact h.setNode hids hfits
  | edge ends e =>
    obtain ⟨hends, hsource, htarget⟩ := hfits
    -- what is drawn for the edge comes behind what is drawn already
    have hsubset : (ns ++ ends).map Node.id ⊆ (ns ++ (done ++ ends)).map Node.id := by
      rw [List.map_append, List.map_append, List.map_append]
      exact List.append_subset.2 ⟨List.subset_append_left _ _,
        List.subset_append_of_subset_right _ (List.subset_append_right _ _)⟩
    exact (h.foldl_ensureNode hids hends).addEdge (hsubset hsource) (hsubset htarget)
  | members row =>
    show Drawn ns ps (done ++ []) _
    rw [List.append_nil]
    exact ⟨⟨h.wellFormed.nodup, h.wellFormed.ends⟩, h.known, h.mem, h.rest⟩

theorem foldl_run (hids : ((ns ++ ps).map Node.id).Nodup) (h : Drawn ns ps done g)
    (hfits : ∀ step ∈ steps, step.Fits ns ps) :
    Drawn ns ps (done ++ steps.flatMap Step.nodes) (steps.foldl Step.run g) := by
  induction steps generalizing g done with
  | nil =>
    rw [List.flatMap_nil, List.append_nil]
    exact h
  | cons step steps ih =>
    obtain ⟨hstep, hfits⟩ := List.forall_mem_cons.1 hfits
    rw [List.foldl_cons, List.flatMap_cons, ← List.append_assoc]
    exact ih (h.run hids hstep) hfits

end Drawn

/-- When all nodes are drawn, no bare node is left, so the nodes of the graph are those that were
drawn. -/
theorem perm_nodes_foldl_run (hids : ((ns ++ ps).map Node.id).Nodup)
    (hfits : ∀ step ∈ steps, step.Fits ns ps) (hall : ns ++ ps ⊆ steps.flatMap Step.nodes) :
    (steps.foldl Step.run {}).nodes.Perm (ns ++ ps) := by
  have hdrawn := (Drawn.empty ns ps).foldl_run hids hfits
  rw [List.nil_append] at hdrawn
  apply (List.perm_ext_iff_of_nodup hdrawn.wellFormed.nodup.of_map hids.of_map).2
  intro n
  constructor
  · intro hn
    rcases hdrawn.rest n hn with hn | ⟨s, hs, hnew, -⟩
    · exact hdrawn.known hn
    · exact absurd (hall (List.mem_append_left _ hs)) hnew
  · exact fun hn => hdrawn.mem (hall hn)

end DiagramText.Graph
