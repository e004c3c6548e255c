import DiagramText.Graph.Basic
import DiagramText.Proofs.Roster
import Mathlib.Data.String.Basic

/-!
# Building and reading graphs

A graph is built node by node and edge by edge. A node takes the place of one with the same id, so
that ids are different, and an edge brings its ends along, so that every edge leads between nodes.

* `Graph.WellFormed`: ids are different and edges lead between nodes; `setNode`, `ensureNode` and
  `addEdge` keep it.
* `Graph.mem_nodes_setNode`, `Graph.mem_nodes_ensureNode`: the nodes behind each step.
* `Graph.foldl_setNode`, `Graph.foldl_addEdge`: nodes with new ids and edges between known nodes
  come to the end.
* `Graph.IsAdjacency`: the nodes in order, each with the targets of its edges in order;
  `Graph.isAdjacency_adjacency`.
-/

namespace DiagramText.Graph

/-! ### First copies -/

theorem firstCopies_eq (ids : List String) : firstCopies ids = ids.eraseDups := by
  induction ids using List.reverseRecOn with
  | nil => rfl
  | append_singleton ids id ih =>
    unfold firstCopies at ih ⊢
    rw [List.foldl_append, ih, eraseDups_concat]
    simp

/-! ### Nodes -/

/-- The ids of the nodes of the graph `g`, in their order. -/
def ids (g : Graph) : List String := g.nodes.map Node.id

variable {g : Graph} {n m : Node} {e : Edge} {id : String} {ns : List Node} {es : List Edge}

theorem contains_iff : g.contains id = true ↔ id ∈ g.ids := by
  simp [contains, ids]

@[simp]
theorem edges_setNode (g : Graph) (n : Node) : (g.setNode n).edges = g.edges := by
  unfold setNode
  split <;> rfl

@[simp]
theorem members_setNode (g : Graph) (n : Node) : (g.setNode n).members = g.members := by
  unfold setNode
  split <;> rfl

@[simp]
theorem edges_ensureNode (g : Graph) (n : Node) : (g.ensureNode n).edges = g.edges := by
  unfold ensureNode
  split <;> rfl

@[simp]
theorem members_ensureNode (g : Graph) (n : Node) : (g.ensureNode n).members = g.members := by
  unfold ensureNode
  split <;> rfl

@[simp]
theorem edges_addEdge (g : Graph) (e : Edge) : (g.addEdge e).edges = g.edges ++ [e] := by
  simp [addEdge]

@[simp]
theorem members_addEdge (g : Graph) (e : Edge) : (g.addEdge e).members = g.members := by
  simp [addEdge]

/-- A node `n` with a new id comes to the end, and edges stay as they are. -/
theorem setNode_of_not_mem (h : n.id ∉ g.ids) : g.setNode n = { g with nodes := g.nodes ++ [n] } :=
  if_neg (contains_iff.not.2 h)

theorem ensureNode_of_mem (h : n.id ∈ g.ids) : g.ensureNode n = g :=
  if_pos (contains_iff.2 h)

theorem ensureNode_of_not_mem (h : n.id ∉ g.ids) :
    g.ensureNode n = { g with nodes := g.nodes ++ [n] } :=
  if_neg (contains_iff.not.2 h)

theorem ids_setNode (g : Graph) (n : Node) :
    (g.setNode n).ids = if n.id ∈ g.ids then g.ids else g.ids ++ [n.id] := by
  split
  · next h =>
    unfold setNode
    rw [if_pos (contains_iff.2 h)]
    show (g.nodes.map _).map Node.id = g.nodes.map Node.id
    rw [List.map_map]
    apply List.map_congr_left
    intro m _
    by_cases hm : m.id = n.id
    · simp [hm]
    · simp [hm]
  · next h =>
    rw [setNode_of_not_mem h]
    exact List.map_append

theorem ids_ensureNode (g : Graph) (n : Node) :
    (g.ensureNode n).ids = if n.id ∈ g.ids then g.ids else g.ids ++ [n.id] := by
  split
  · next h => rw [ensureNode_of_mem h]
  · next h =>
    rw [ensureNode_of_not_mem h]
    exact List.map_append

@[simp]
theorem mem_ids_setNode : id ∈ (g.setNode n).ids ↔ id ∈ g.ids ∨ id = n.id := by
  rw [ids_setNode]
  split
  · next h => exact ⟨.inl, fun hid => hid.elim (fun hg => hg) fun heq => heq ▸ h⟩
  · rw [List.mem_append, List.mem_singleton]

@[simp]
theorem mem_ids_ensureNode : id ∈ (g.ensureNode n).ids ↔ id ∈ g.ids ∨ id = n.id := by
  rw [ids_ensureNode, ← ids_setNode, mem_ids_setNode]

@[simp]
theorem mem_ids_addEdge : id ∈ (g.addEdge e).ids ↔ id ∈ g.ids ∨ id = e.source ∨ id = e.target := by
  show id ∈ ((g.ensureNode (.bare e.source)).ensureNode (.bare e.target)).ids ↔ _
  rw [mem_ids_ensureNode, mem_ids_ensureNode, or_assoc]
  rfl

/-- A node `n` that is set is there, and no other with its id. -/
theorem mem_nodes_setNode : m ∈ (g.setNode n).nodes ↔ m = n ∨ m ∈ g.nodes ∧ m.id ≠ n.id := by
  by_cases h : n.id ∈ g.ids
  · have hnodes : (g.setNode n).nodes = g.nodes.map fun k => if k.id = n.id then n else k := by
      unfold setNode
      rw [if_pos (contains_iff.2 h)]
    rw [hnodes, List.mem_map]
    constructor
    · rintro ⟨k, hk, rfl⟩
      split
      · exact .inl rfl
      · next hne => exact .inr ⟨hk, hne⟩
    · rintro (rfl | ⟨hm, hne⟩)
      · obtain ⟨k, hk, hid⟩ := List.mem_map.1 h
        exact ⟨k, hk, if_pos hid⟩
      · exact ⟨m, hm, if_neg hne⟩
  · rw [setNode_of_not_mem h, List.mem_append, List.mem_singleton, or_comm]
    have hne : m ∈ g.nodes → m.id ≠ n.id := fun hm heq => h (heq ▸ List.mem_map_of_mem hm)
    exact or_congr_right ⟨fun hm => ⟨hm, hne hm⟩, And.left⟩

theorem mem_nodes_ensureNode :
    m ∈ (g.ensureNode n).nodes ↔ m ∈ g.nodes ∨ m = n ∧ n.id ∉ g.ids := by
  by_cases h : n.id ∈ g.ids
  · rw [ensureNode_of_mem h]
    exact ⟨.inl, fun hm => hm.elim (fun hg => hg) fun hnew => absurd h hnew.2⟩
  · rw [ensureNode_of_not_mem h, List.mem_append, List.mem_singleton]
    exact or_congr_right ⟨fun hm => ⟨hm, h⟩, And.left⟩

/-! ### Well-formed graphs -/

/-- Ids are different, and edges lead between nodes of the graph `g`. -/
structure WellFormed (g : Graph) : Prop where
  nodup : g.ids.Nodup
  ends : ∀ e ∈ g.edges, e.source ∈ g.ids ∧ e.target ∈ g.ids

namespace WellFormed

theorem empty (members : List (String × List String)) : WellFormed { members } :=
  ⟨List.nodup_nil, List.forall_mem_nil _⟩

/-- A further `id` keeps the ids different if it is added only where it is new. -/
theorem nodup_concat (h : g.WellFormed) :
    (if id ∈ g.ids then g.ids else g.ids ++ [id]).Nodup := by
  split
  · exact h.nodup
  · next hid =>
    rw [← List.concat_eq_append]
    exact h.nodup.concat hid

theorem setNode (h : g.WellFormed) (n : Node) : (g.setNode n).WellFormed := by
  constructor
  · rw [ids_setNode]
    exact h.nodup_concat
  · intro e he
    rw [edges_setNode] at he
    rw [mem_ids_setNode, mem_ids_setNode]
    exact (h.ends e he).imp .inl .inl

theorem ensureNode (h : g.WellFormed) (n : Node) : (g.ensureNode n).WellFormed := by
  constructor
  · rw [ids_ensureNode]
    exact h.nodup_concat
  · intro e he
    rw [edges_ensureNode] at he
    rw [mem_ids_ensureNode, mem_ids_ensureNode]
    exact (h.ends e he).imp .inl .inl

theorem addEdge (h : g.WellFormed) (e : Edge) : (g.addEdge e).WellFormed := by
  constructor
  · exact ((h.ensureNode (.bare e.source)).ensureNode (.bare e.target)).nodup
  · intro e' he'
    rw [edges_addEdge, List.mem_append, List.mem_singleton] at he'
    rw [mem_ids_addEdge, mem_ids_addEdge]
    rcases he' with he' | rfl
    · exact (h.ends e' he').imp .inl .inl
    · exact ⟨.inr (.inl rfl), .inr (.inr rfl)⟩

end WellFormed

/-! ### Many nodes and edges -/

/-- Nodes `ns` with different new ids come to the end, in their order. -/
theorem foldl_setNode (h : (g.ids ++ ns.map Node.id).Nodup) :
    ns.foldl setNode g = { g with nodes := g.nodes ++ ns } := by
  induction ns generalizing g with
  | nil => simp
  | cons n ns ih =>
    have hn : n.id ∉ g.ids := fun hid =>
      (List.disjoint_of_nodup_append h) hid List.mem_cons_self
    rw [List.foldl_cons, setNode_of_not_mem hn, ih]
    · simp
    · show ((g.nodes ++ [n]).map Node.id ++ _).Nodup
      rw [List.map_append, List.append_assoc]
      exact h

/-- Edges `es` between nodes of a graph `g` add no nodes, and come to the end in their order. -/
theorem foldl_addEdge (h : ∀ e ∈ es, e.source ∈ g.ids ∧ e.target ∈ g.ids) :
    es.foldl addEdge g = { g with edges := g.edges ++ es } := by
  induction es generalizing g with
  | nil => simp
  | cons e es ih =>
    obtain ⟨⟨hsource, htarget⟩, h⟩ := List.forall_mem_cons.1 h
    have hadd : g.addEdge e = { g with edges := g.edges ++ [e] } := by
      unfold addEdge
      rw [ensureNode_of_mem (n := .bare e.source) hsource,
        ensureNode_of_mem (n := .bare e.target) htarget]
    rw [List.foldl_cons, hadd, ih]
    · simp
    · exact h

/-! ### Adjacency -/

theorem mem_successors {target : String} :
    target ∈ g.successors id ↔ ∃ e ∈ g.edges, e.source = id ∧ e.target = target := by
  unfold successors
  rw [firstCopies_eq, List.mem_eraseDups, List.mem_map]
  simp only [List.mem_filter, beq_iff_eq, and_assoc]

theorem nodup_successors (g : Graph) (id : String) : (g.successors id).Nodup := by
  unfold successors
  rw [firstCopies_eq]
  exact nodup_eraseDups _

theorem textLe_iff {s t : String} : textLe s t = true ↔ s ≤ t := by
  rw [textLe, Bool.not_eq_true', decide_eq_false_iff_not, not_lt]

/-- Sorting by keys that are different puts them in strict order, so the sorted list is determined
by its members. -/
theorem pairwise_lt_mergeSort {α : Type} (key : α → String) {as : List α}
    (h : (as.map key).Nodup) :
    ((as.mergeSort fun a b => textLe (key a) (key b)).map key).Pairwise (· < ·) := by
  have hle : (as.mergeSort fun a b => textLe (key a) (key b)).Pairwise
      fun a b => textLe (key a) (key b) = true := by
    apply List.pairwise_mergeSort
    · intro a b c
      rw [textLe_iff, textLe_iff, textLe_iff]
      exact le_trans
    · intro a b
      rw [Bool.or_eq_true, textLe_iff, textLe_iff]
      exact le_total _ _
  have hnodup : ((as.mergeSort fun a b => textLe (key a) (key b)).map key).Nodup :=
    ((List.mergeSort_perm as _).map key).nodup_iff.2 h
  apply List.pairwise_map.2
  apply hle.imp₂ _ (List.pairwise_map.1 hnodup)
  intro a b hab hne
  exact lt_of_le_of_ne (textLe_iff.1 hab) hne

/-- The nodes in order, each once, and with each of them the targets of its edges in order, each
once. This determines the `rows`. -/
structure IsAdjacency (g : Graph) (rows : List (String × List String)) : Prop where
  perm : (rows.map Prod.fst).Perm g.ids
  sorted : (rows.map Prod.fst).Pairwise (· < ·)
  row_sorted : ∀ r ∈ rows, r.2.Pairwise (· < ·)
  mem_row : ∀ r ∈ rows, ∀ target,
    target ∈ r.2 ↔ ∃ e ∈ g.edges, e.source = r.1 ∧ e.target = target

theorem isAdjacency_adjacency (h : g.ids.Nodup) : g.IsAdjacency g.adjacency := by
  have hids : (g.nodes.map fun n => (n.id, (g.successors n.id).mergeSort textLe)).map Prod.fst =
      g.ids := by
    rw [List.map_map]
    rfl
  have hrow : ∀ r ∈ g.adjacency, r.2 = (g.successors r.1).mergeSort textLe := by
    intro r hr
    obtain ⟨n, -, rfl⟩ := List.mem_map.1 (List.mem_mergeSort.1 hr)
    rfl
  constructor
  · rw [← hids]
    exact (List.mergeSort_perm _ _).map _
  · apply pairwise_lt_mergeSort Prod.fst
    rwa [hids]
  · intro r hr
    rw [hrow r hr, ← List.map_id ((g.successors r.1).mergeSort textLe)]
    apply pairwise_lt_mergeSort id
    rw [List.map_id]
    exact nodup_successors g r.1
  · intro r hr target
    rw [hrow r hr, List.mem_mergeSort]
    exact mem_successors

end DiagramText.Graph
