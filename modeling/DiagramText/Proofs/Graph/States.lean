import DiagramText.Proofs.Graph.Batches
import DiagramText.Proofs.Graph.Drawing
import DiagramText.Proofs.Graph.Keys
import Mathlib.Data.List.Perm.Basic

/-!
# The graph of a state diagram

A transition may lead to a state in a scope that is not visited yet, which is then a bare node until
its own scope is. When all scopes were visited each state has its node, and so has each pseudostate
that a scope uses.

* `Graph.OwnedScope.steps`, `Graph.batchSteps`: the steps in which scopes are drawn;
  `Graph.ofStates_eq` says that they make the graph, and `Graph.perm_stepsOf` which steps there are.
* `Graph.nodup_ids_nodesOf`: no two states or pseudostates have the same id.
* `Graph.IsCaption` and `Graph.IsShapeOf`: the text and the shape that a node has by a label and by
  a kind of state; `Graph.showsState_stateNode` says that nodes are drawn with them.
* `Graph.ShowsStates`: a graph that shows the states, the transitions and the pseudostates of a
  diagram, and nothing else; `Graph.shows_ofStates`.
-/

namespace DiagramText.Graph

open Text States

/-! ### What scopes bring -/

namespace OwnedScope

/-- The nodes of the states of a scope `y`, each with the owner of the scope. -/
def stateNodes (y : OwnedScope) : List Node := y.scope.states.map (stateNode y.owner)

/-- The node of the pseudostate `i` of a scope. Its id has the key of the scope, so that every scope
has its own. -/
def pseudostateNode (y : OwnedScope) (i : String) : Node :=
  ⟨Graph.endId y.key i, "[*]", .circle, y.owner⟩

/-- The pseudostates that the transitions of a scope `y` use, the start before the end. -/
def pseudostates (y : OwnedScope) : List String :=
  [startId, States.endId].filter fun i =>
    y.scope.transitions.any fun t => t.source == i || t.target == i

/-- The nodes of the pseudostates that the transitions of a scope `y` use. -/
def pseudostateNodes (y : OwnedScope) : List Node := y.pseudostates.map y.pseudostateNode

/-- The edge of the transition `t` in a scope, between states or between pseudostates of the
scope. -/
def edge (y : OwnedScope) (t : Transition) : Edge :=
  ⟨Graph.endId y.key t.source, Graph.endId y.key t.target, .transition,
    nonEmpty (Content.textOf t.label)⟩

/-- The edges of the transitions of a scope `y`. -/
def edges (y : OwnedScope) : List Edge := y.scope.transitions.map y.edge

/-- The nodes that are drawn for one end `i` of a transition: a pseudostate, or none for a state. -/
def endNodes (y : OwnedScope) (i : String) : List Node :=
  if isPseudostate i then [y.pseudostateNode i] else []

/-- The step that draws a transition `t` with the pseudostates at its ends. -/
def transitionStep (y : OwnedScope) (t : Transition) : Step :=
  .edge (y.endNodes t.source ++ y.endNodes t.target) (y.edge t)

/-- The steps that draw a scope `y`: its states first, then its transitions. -/
def steps (y : OwnedScope) : List Step :=
  y.stateNodes.map .node ++ y.scope.transitions.map y.transitionStep

end OwnedScope

/-- The members of a composite state `s`: the states of all its regions. -/
def memberRow (s : State) : String × List String :=
  (s.id, (s.scopes.flatMap Scope.states).map State.id)

/-- The step that lists the members of the owner of a batch `b`. The outermost scope has no owner to
list them for. -/
def memberSteps (b : Batch) : List Step :=
  (b.1.map fun owner => Step.members (owner, (statesIn b.2).map State.id)).toList

/-- The steps that draw a batch `b`: those of its scopes, then its member list. -/
def batchSteps (b : Batch) : List Step := (ownedOf b).flatMap OwnedScope.steps ++ memberSteps b

/-- The steps that draw a diagram `d`, from the batch of its outermost scope on. -/
def stepsOf (d : StateDiagram) : List Step :=
  (batchesFrom [(none, [(none, d.scope)])]).flatMap batchSteps

/-- The nodes of all states, each with the id of the state that holds it. -/
def stateNodesOf (d : StateDiagram) : List Node :=
  d.walk.map fun p => stateNode (p.1.map State.id) p.2

/-- The nodes of the pseudostates of all scopes, each scope with its own. -/
def pseudostateNodesOf (d : StateDiagram) : List Node :=
  (ownedScopes d).flatMap OwnedScope.pseudostateNodes

variable {d : StateDiagram} {y : OwnedScope} {n : Node} {i : String}

/-! ### Steps -/

theorem addEnd_eq (y : OwnedScope) (g : Graph) (i : String) :
    addEnd y.owner y.key g i = (y.endNodes i).foldl ensureNode g := by
  unfold addEnd OwnedScope.endNodes
  split <;> rfl

theorem addTransition_eq (y : OwnedScope) (g : Graph) (t : Transition) :
    addTransition y.owner y.key g t = (y.transitionStep t).run g := by
  unfold addTransition
  rw [addEnd_eq, addEnd_eq, ← List.foldl_append]
  rfl

theorem addScope_eq (y : OwnedScope) (g : Graph) :
    addScope y.owner g (y.key, y.scope) = y.steps.foldl Step.run g := by
  have htransitions : addTransition y.owner y.key = fun g t => (y.transitionStep t).run g := by
    funext g t
    exact addTransition_eq y g t
  unfold addScope OwnedScope.steps OwnedScope.stateNodes
  rw [List.foldl_append, List.map_map, List.foldl_map, List.foldl_map, htransitions]
  rfl

theorem addBatch_eq (g : Graph) (b : Batch) : addBatch g b = (batchSteps b).foldl Step.run g := by
  have hscopes : b.2.foldl (addScope b.1) g =
      ((ownedOf b).flatMap OwnedScope.steps).foldl Step.run g := by
    rw [List.foldl_flatMap, ownedOf, List.foldl_map]
    congr 1
    funext g scope
    exact addScope_eq ⟨b.1, scope.1, scope.2⟩ g
  obtain ⟨owner, scopes⟩ := b
  rw [batchSteps, List.foldl_append, ← hscopes]
  cases owner with
  | none => rfl
  | some owner => rfl

/-- The graph of a state diagram `d` is drawn in its steps, one after the other. -/
theorem ofStates_eq (d : StateDiagram) : ofStates d = (stepsOf d).foldl Step.run {} := by
  rw [ofStates, addBatches_eq, stepsOf, List.foldl_flatMap]
  congr 1
  funext g b
  exact addBatch_eq g b

/-- All scopes are drawn, and the members of all composite states are listed, in some order. -/
theorem perm_stepsOf (h : ∀ s ∈ State.nodesList d.scope.states, s.Scoped) :
    (stepsOf d).Perm ((ownedScopes d).flatMap OwnedScope.steps ++
      (composites d).map fun s => .members (memberRow s)) := by
  have hmembers : ((composites d).map batchOf).flatMap memberSteps =
      (composites d).map fun s => .members (memberRow s) := by
    rw [List.flatMap_map, List.map_eq_flatMap]
    apply List.flatMap_congr
    intro s _
    show [Step.members (s.id, (statesIn (keyedScopes s)).map State.id)] = _
    rw [statesIn_keyedScopes]
    rfl
  -- what all batches bring is taken apart into scopes and member lists
  apply (List.flatMap_append_perm _ _ _).symm.trans
  apply (perm_flatMap_ownedScopes h fun _ _ => rfl).append
  rw [← hmembers]
  exact (perm_batches h).flatMap_right _

/-- Only the transitions of scopes bring edges, one for each transition. -/
theorem perm_edges_stepsOf (h : ∀ s ∈ State.nodesList d.scope.states, s.Scoped) :
    ((stepsOf d).filterMap Step.edge?).Perm ((ownedScopes d).flatMap OwnedScope.edges) := by
  have hscope : ∀ y : OwnedScope, y.steps.filterMap Step.edge? = y.edges := by
    intro y
    rw [OwnedScope.steps, List.filterMap_append, List.filterMap_map, List.filterMap_map,
      OwnedScope.edges, ← List.filterMap_eq_map]
    exact congrArg (· ++ _) (List.filterMap_eq_nil_iff.2 fun _ _ => rfl)
  have hmembers : ((composites d).map fun s => Step.members (memberRow s)).filterMap Step.edge? =
      [] := by
    rw [List.filterMap_map]
    exact List.filterMap_eq_nil_iff.2 fun _ _ => rfl
  apply ((perm_stepsOf h).filterMap _).trans
  apply List.Perm.of_eq
  rw [List.filterMap_append, hmembers, List.append_nil, List.filterMap_flatMap]
  exact List.flatMap_congr fun y _ => hscope y

/-- Only composite states bring member lists, one for each of them. -/
theorem perm_members_stepsOf (h : ∀ s ∈ State.nodesList d.scope.states, s.Scoped) :
    ((stepsOf d).filterMap Step.row?).Perm ((composites d).map memberRow) := by
  have hscopes : ((ownedScopes d).flatMap OwnedScope.steps).filterMap Step.row? = [] := by
    apply List.filterMap_eq_nil_iff.2
    intro step hstep
    obtain ⟨y, -, hstep⟩ := List.mem_flatMap.1 hstep
    rcases List.mem_append.1 hstep with hstep | hstep
    · obtain ⟨n, -, rfl⟩ := List.mem_map.1 hstep
      rfl
    · obtain ⟨t, -, rfl⟩ := List.mem_map.1 hstep
      rfl
  apply ((perm_stepsOf h).filterMap _).trans
  apply List.Perm.of_eq
  rw [List.filterMap_append, hscopes, List.nil_append, List.filterMap_map, ← List.filterMap_eq_map]
  rfl

/-! ### Nodes -/

theorem map_id_stateNodesOf (d : StateDiagram) : (stateNodesOf d).map Node.id = d.stateIds := by
  rw [stateNodesOf, List.map_map]
  rfl

namespace OwnedScope

theorem mem_endNodes : n ∈ y.endNodes i ↔ isPseudostate i = true ∧ n = y.pseudostateNode i := by
  unfold endNodes
  split
  · next h => simp [h]
  · next h => simp [h]

theorem mem_pseudostates : i ∈ y.pseudostates ↔
    isPseudostate i = true ∧ ∃ t ∈ y.scope.transitions, t.source = i ∨ t.target = i := by
  simp [pseudostates, isPseudostate]

/-- The nodes of the pseudostates of a scope `y` are those that its transitions draw, without
repetition. -/
theorem mem_pseudostateNodes : n ∈ y.pseudostateNodes ↔
    ∃ t ∈ y.scope.transitions, n ∈ y.endNodes t.source ++ y.endNodes t.target := by
  rw [pseudostateNodes, List.mem_map]
  constructor
  · rintro ⟨i, hi, rfl⟩
    obtain ⟨hend, t, ht, rfl | rfl⟩ := mem_pseudostates.1 hi
    · exact ⟨t, ht, List.mem_append_left _ (mem_endNodes.2 ⟨hend, rfl⟩)⟩
    · exact ⟨t, ht, List.mem_append_right _ (mem_endNodes.2 ⟨hend, rfl⟩)⟩
  · rintro ⟨t, ht, hn⟩
    rcases List.mem_append.1 hn with hn | hn
    · obtain ⟨hend, rfl⟩ := mem_endNodes.1 hn
      exact ⟨t.source, mem_pseudostates.2 ⟨hend, t, ht, .inl rfl⟩, rfl⟩
    · obtain ⟨hend, rfl⟩ := mem_endNodes.1 hn
      exact ⟨t.target, mem_pseudostates.2 ⟨hend, t, ht, .inr rfl⟩, rfl⟩

/-- An end `i` of a transition is a pseudostate that is drawn for it, or a state that has a node. -/
theorem endId_mem (y : OwnedScope) (h : isPseudostate i = true ∨ i ∈ d.stateIds) :
    Graph.endId y.key i ∈ (stateNodesOf d ++ y.endNodes i).map Node.id := by
  rw [List.map_append, List.mem_append, map_id_stateNodesOf]
  by_cases hend : isPseudostate i = true
  · exact .inr (List.mem_map_of_mem (mem_endNodes.2 ⟨hend, rfl⟩))
  · unfold Graph.endId
    rw [if_neg hend]
    exact .inl (h.resolve_left hend)

end OwnedScope

/-- The scopes with their owners, without the keys that tell them apart. This says of all scopes
whose they are. -/
theorem map_owner_ownedScopes (d : StateDiagram) :
    (ownedScopes d).map (fun y => (y.owner, y.scope)) = (none, d.scope) ::
      (State.nodesList d.scope.states).flatMap fun s => s.scopes.map fun y => (some s.id, y) := by
  rw [ownedScopes, List.map_cons, List.map_flatMap]
  congr 1
  apply List.flatMap_congr
  intro s _
  rw [ownedOf, batchOf, List.map_map, ← map_snd_keyedScopes, List.map_map]
  rfl

theorem scope_mem_scopes (hy : y ∈ ownedScopes d) : y.scope ∈ d.scopes := by
  rw [← map_scope_ownedScopes]
  exact List.mem_map_of_mem hy

/-- The ends of transitions are pseudostates or states of the diagram `d`, if it is consistent. -/
theorem ends_of_mem_transitions (h : d.Consistent) (hy : y ∈ ownedScopes d) {t : Transition}
    (ht : t ∈ y.scope.transitions) :
    (isPseudostate t.source = true ∨ t.source ∈ d.stateIds) ∧
      (isPseudostate t.target = true ∨ t.target ∈ d.stateIds) := by
  have hscope := scope_mem_scopes hy
  constructor
  · apply (h.sources _ hscope t ht).imp_left
    intro heq
    rw [heq]
    rfl
  · apply (h.targets _ hscope t ht).imp_left
    intro heq
    rw [heq]
    rfl

/-- The steps of a diagram `d` in which everything is where it belongs fit: they draw only nodes of
the diagram, and their edges join such nodes. -/
theorem fits_of_mem_stepsOf (h : d.Consistent)
    (hscoped : ∀ s ∈ State.nodesList d.scope.states, s.Scoped) :
    ∀ step ∈ stepsOf d, step.Fits (stateNodesOf d) (pseudostateNodesOf d) := by
  intro step hstep
  rcases List.mem_append.1 ((perm_stepsOf hscoped).mem_iff.1 hstep) with hstep | hstep
  · obtain ⟨y, hy, hstep⟩ := List.mem_flatMap.1 hstep
    rcases List.mem_append.1 hstep with hstep | hstep
    · obtain ⟨n, hn, rfl⟩ := List.mem_map.1 hstep
      exact (perm_map_walk stateNode d).subset (List.mem_flatMap_of_mem hy hn)
    · obtain ⟨t, ht, rfl⟩ := List.mem_map.1 hstep
      obtain ⟨hsource, htarget⟩ := ends_of_mem_transitions h hy ht
      -- a pseudostate is drawn with the transition, and a state may still be a bare node
      refine ⟨?_, ?_, ?_⟩
      · intro n hn
        exact List.mem_flatMap_of_mem hy (OwnedScope.mem_pseudostateNodes.2 ⟨t, ht, hn⟩)
      · rw [← List.append_assoc, List.map_append]
        exact List.mem_append_left _ (y.endId_mem hsource)
      · have hend := y.endId_mem htarget
        rw [List.map_append, List.mem_append] at hend
        rw [List.map_append, List.map_append, List.mem_append, List.mem_append]
        exact hend.imp_right .inr
  · obtain ⟨s, -, rfl⟩ := List.mem_map.1 hstep
    trivial

/-- All states and all pseudostates are drawn by some step. -/
theorem subset_flatMap_stepsOf (hscoped : ∀ s ∈ State.nodesList d.scope.states, s.Scoped) :
    stateNodesOf d ++ pseudostateNodesOf d ⊆ (stepsOf d).flatMap Step.nodes := by
  have hmem : ∀ y ∈ ownedScopes d, ∀ step ∈ y.steps, step.nodes ⊆
      (stepsOf d).flatMap Step.nodes := by
    intro y hy step hstep n hn
    apply List.mem_flatMap_of_mem _ hn
    apply (perm_stepsOf hscoped).mem_iff.2
    exact List.mem_append_left _ (List.mem_flatMap_of_mem hy hstep)
  intro n hn
  rcases List.mem_append.1 hn with hn | hn
  · obtain ⟨y, hy, hn⟩ := List.mem_flatMap.1 ((perm_map_walk stateNode d).mem_iff.2 hn)
    apply hmem y hy (.node n) (List.mem_append_left _ (List.mem_map_of_mem hn))
    exact List.mem_singleton_self n
  · obtain ⟨y, hy, hn⟩ := List.mem_flatMap.1 hn
    obtain ⟨t, ht, hn⟩ := OwnedScope.mem_pseudostateNodes.1 hn
    exact hmem y hy (y.transitionStep t) (List.mem_append_right _ (List.mem_map_of_mem ht)) hn

/-! ### Ids -/

/-- The keys of scopes are different, as the names of states are. -/
theorem nodup_keys_ownedScopes (hnodup : d.stateIds.Nodup)
    (hnames : ∀ i ∈ State.idsList d.scope.states, IsHyphenated i) :
    ((ownedScopes d).map OwnedScope.key).Nodup := by
  rw [map_key_ownedScopes]
  apply nodup_keys
  · rw [State.map_id_nodesList]
    exact d.perm_stateIds.nodup_iff.1 hnodup
  · exact fun s hs => hnames _ (State.id_mem_idsList hs)

theorem not_slash_of_mem_ownedScopes (hnames : ∀ i ∈ State.idsList d.scope.states, IsHyphenated i)
    (hy : y ∈ ownedScopes d) : ∀ k ∈ y.key, '/' ∉ k.toList := by
  rcases List.mem_cons.1 hy with rfl | hy
  · exact nofun
  · obtain ⟨s, hs, hy⟩ := List.mem_flatMap.1 hy
    obtain ⟨scope, hscope, rfl⟩ := List.mem_map.1 hy
    exact not_slash_of_mem_keyedScopes (hnames _ (State.id_mem_idsList hs)) hscope

/-- Pseudostates of different scopes have different ids, since the keys are part of them. -/
theorem pairwise_pseudostateNodes (hnodup : d.stateIds.Nodup)
    (hnames : ∀ i ∈ State.idsList d.scope.states, IsHyphenated i) :
    (ownedScopes d).Pairwise fun y z =>
      ∀ n ∈ y.pseudostateNodes, ∀ m ∈ z.pseudostateNodes, n.id ≠ m.id := by
  apply (List.pairwise_map.1 (nodup_keys_ownedScopes hnodup hnames)).imp_of_mem
  intro y z hy _ hkey n hn m hm hid
  obtain ⟨i, hi, rfl⟩ := List.mem_map.1 hn
  obtain ⟨j, hj, rfl⟩ := List.mem_map.1 hm
  exact hkey (endId_inj (OwnedScope.mem_pseudostates.1 hi).1 (OwnedScope.mem_pseudostates.1 hj).1
    (not_slash_of_mem_ownedScopes hnames hy) hid).1

theorem nodup_pseudostateNodes (hnames : ∀ i ∈ State.idsList d.scope.states, IsHyphenated i)
    (hy : y ∈ ownedScopes d) : (y.pseudostateNodes.map Node.id).Nodup := by
  rw [OwnedScope.pseudostateNodes, List.map_map]
  have hpseudostates : y.pseudostates.Nodup := by
    apply List.Nodup.filter
    decide
  apply hpseudostates.map_on
  intro i hi j hj hid
  exact (endId_inj (OwnedScope.mem_pseudostates.1 hi).1 (OwnedScope.mem_pseudostates.1 hj).1
    (not_slash_of_mem_ownedScopes hnames hy) hid).2

/-- A pseudostate does not have the id `i` of a state, whatever scope it is in. -/
theorem id_not_mem_stateIds (hnames : ∀ i ∈ State.idsList d.scope.states, IsHyphenated i)
    (hn : n ∈ y.pseudostateNodes) : n.id ∉ d.stateIds := by
  obtain ⟨i, hi, rfl⟩ := List.mem_map.1 hn
  intro hid
  exact endId_ne (hnames _ (d.perm_stateIds.subset hid)) (OwnedScope.mem_pseudostates.1 hi).1 _ rfl

/-- No two states or pseudostates have the same id, so no node takes the place of another one. -/
theorem nodup_ids_nodesOf (hnodup : d.stateIds.Nodup)
    (hnames : ∀ i ∈ State.idsList d.scope.states, IsHyphenated i) :
    ((stateNodesOf d ++ pseudostateNodesOf d).map Node.id).Nodup := by
  rw [List.map_append, map_id_stateNodesOf, pseudostateNodesOf, List.map_flatMap]
  apply hnodup.append
  · rw [List.nodup_flatMap]
    refine ⟨fun y hy => nodup_pseudostateNodes hnames hy, ?_⟩
    apply (pairwise_pseudostateNodes hnodup hnames).imp
    intro y z hne i hi hj
    obtain ⟨n, hn, rfl⟩ := List.mem_map.1 hi
    obtain ⟨m, hm, hid⟩ := List.mem_map.1 hj
    exact hne n hn m hm hid.symm
  · intro i hi hj
    obtain ⟨y, -, hj⟩ := List.mem_flatMap.1 hj
    obtain ⟨n, hn, rfl⟩ := List.mem_map.1 hj
    exact id_not_mem_stateIds hnames hn hi

/-! ### Captions and shapes -/

/-- The text `t` is what stands on a node for something with the id `id` and the label `label`: the
rendering of the label if it has markup, the label as it is written if it has none, and `id` in
place of an empty text or a missing label. -/
inductive IsCaption (id : String) : Option Content → String → Prop where
  | rendered {c : Content} {t : String} (h : c.rendered = some t) (ht : t ≠ "") :
      IsCaption id (some c) t
  | written {c : Content} (h : c.rendered = none) (ht : c.raw ≠ "") : IsCaption id (some c) c.raw
  | emptyRendered {c : Content} (h : c.rendered = some "") : IsCaption id (some c) id
  | emptyWritten {c : Content} (h : c.rendered = none) (ht : c.raw = "") : IsCaption id (some c) id
  | unlabelled : IsCaption id none id

/-- The shape of the nodes of states by their kind: a simple state is rounded, a choice is a
diamond, and a fork and a join are bars. -/
inductive IsShapeOf : StateKind → Shape → Prop where
  | simple : IsShapeOf .simple .rounded
  | choice : IsShapeOf .choice .diamond
  | fork : IsShapeOf .fork .rectangle
  | join : IsShapeOf .join .rectangle

/-- The node `n` shows the state `s`, which is in a scope of the state `holder`, or in the outermost
scope. -/
structure ShowsState (holder : Option State) (s : State) (n : Node) : Prop where
  id : n.id = s.id
  caption : IsCaption s.id s.label n.label
  shape : IsShapeOf s.kind n.shape
  group : n.group = holder.map State.id

theorem isCaption_labelOr (id : String) (label : Option Content) :
    IsCaption id label (labelOr id label) := by
  cases label with
  | none => exact .unlabelled
  | some c =>
    -- an empty text counts as no label, rendered or not
    cases h : c.rendered with
    | none =>
      by_cases ht : c.raw = ""
      · have hlabel : labelOr id (some c) = id := by
          simp [labelOr, nonEmpty, Content.textOf, Content.text, h, ht]
        rw [hlabel]
        exact .emptyWritten h ht
      · have hlabel : labelOr id (some c) = c.raw := by
          simp [labelOr, nonEmpty, Content.textOf, Content.text, h, ht]
        rw [hlabel]
        exact .written h ht
    | some t =>
      by_cases ht : t = ""
      · have hlabel : labelOr id (some c) = id := by
          simp [labelOr, nonEmpty, Content.textOf, Content.text, h, ht]
        rw [hlabel]
        exact .emptyRendered (ht ▸ h)
      · have hlabel : labelOr id (some c) = t := by
          simp [labelOr, nonEmpty, Content.textOf, Content.text, h, ht]
        rw [hlabel]
        exact .rendered h ht

theorem isShapeOf_shapeOfState (kind : StateKind) : IsShapeOf kind (shapeOfState kind) := by
  cases kind with
  | simple => exact .simple
  | choice => exact .choice
  | fork => exact .fork
  | join => exact .join

theorem showsState_stateNode (holder : Option State) (s : State) :
    ShowsState holder s (stateNode (holder.map State.id) s) :=
  ⟨rfl, isCaption_labelOr s.id s.label, isShapeOf_shapeOfState s.kind, rfl⟩

/-- Each state has its node among those of all states. -/
theorem forall₂_stateNodesOf (d : StateDiagram) :
    List.Forall₂ (fun p n => ShowsState p.1 p.2 n) d.walk (stateNodesOf d) := by
  rw [stateNodesOf, List.forall₂_map_right_iff, List.forall₂_same]
  exact fun p _ => showsState_stateNode p.1 p.2

/-! ### The graph -/

/-- What the graph `g` shows of the state diagram `d`. -/
structure ShowsStates (d : StateDiagram) (g : Graph) : Prop where
  /-- There is one node for each state of `d.walk`, which gives the states with those that hold
  them, and one for each pseudostate that the transitions of a scope use. -/
  nodes : ∃ states, List.Forall₂ (fun p n => ShowsState p.1 p.2 n) d.walk states ∧
    g.nodes.Perm (states ++ pseudostateNodesOf d)
  /-- No two nodes have the same id, and edges lead between nodes. -/
  wellFormed : g.WellFormed
  /-- The scopes are the outermost one and the regions of each state, with the state as an owner. -/
  scopes : (ownedScopes d).map (fun y => (y.owner, y.scope)) = (none, d.scope) ::
    (State.nodesList d.scope.states).flatMap fun s => s.scopes.map fun y => (some s.id, y)
  /-- The states of `d.walk` are those in the scopes, and each is held by the owner of its scope. -/
  holders : ((ownedScopes d).flatMap fun y => y.scope.states.map fun s => (y.owner, s)).Perm
    (d.walk.map fun p => (p.1.map State.id, p.2))
  /-- Different scopes share no pseudostate. -/
  apart : (ownedScopes d).Pairwise fun y z =>
    ∀ n ∈ y.pseudostateNodes, ∀ m ∈ z.pseudostateNodes, n.id ≠ m.id
  /-- No pseudostate is taken for a state. -/
  fresh : ∀ y ∈ ownedScopes d, ∀ n ∈ y.pseudostateNodes, n.id ∉ d.stateIds
  /-- There is one edge for each transition of each scope. -/
  edges : g.edges.Perm ((ownedScopes d).flatMap OwnedScope.edges)
  length_edges : g.edges.length = (d.scopes.map fun y => y.transitions.length).sum
  /-- There is one member list for each composite state, with the states of all its regions. -/
  members : g.members.Perm ((composites d).map memberRow)

/-- The graph of a diagram `d` that was read shows all of it, in whatever order the scopes mention
each other's states. -/
theorem shows_ofStates (h : (Diagram.states d).IsRead) : ShowsStates d (ofStates d) := by
  have hconsistent : d.Consistent := .of_intact (StateDiagram.IsStart.intact (.inr h))
  have hnames := d.isHyphenated_of_isRead h
  have hscoped : ∀ s ∈ State.nodesList d.scope.states, s.Scoped := by
    intro s hs
    obtain ⟨p, hp, rfl⟩ := List.mem_map.1 (d.perm_walk.mem_iff.2 hs)
    exact hconsistent.simple p hp
  have hids := nodup_ids_nodesOf hconsistent.nodup hnames
  have hfits := fits_of_mem_stepsOf hconsistent hscoped
  have hedges : (ofStates d).edges.Perm ((ownedScopes d).flatMap OwnedScope.edges) := by
    rw [ofStates_eq, edges_foldl_run]
    exact perm_edges_stepsOf hscoped
  constructor
  -- All states and pseudostates are drawn, so no bare node is left in the place of one.
  · refine ⟨stateNodesOf d, forall₂_stateNodesOf d, ?_⟩
    rw [ofStates_eq]
    exact perm_nodes_foldl_run hids hfits (subset_flatMap_stepsOf hscoped)
  · rw [ofStates_eq]
    exact ((Drawn.empty _ _).foldl_run hids hfits).wellFormed
  · exact map_owner_ownedScopes d
  · exact perm_map_walk Prod.mk d
  · exact pairwise_pseudostateNodes hconsistent.nodup hnames
  · exact fun y _ n hn => id_not_mem_stateIds hnames hn
  · exact hedges
  · rw [hedges.length_eq, List.length_flatMap, ← map_scope_ownedScopes, List.map_map]
    simp only [OwnedScope.edges, List.length_map]
    rfl
  · rw [ofStates_eq, members_foldl_run]
    exact perm_members_stepsOf hscoped

/-- A transition between the outermost states mentions C, which is drawn for it before its own scope
is. The two regions of A have pseudostates of their own, D is shown by its rendered label, and F is
a bar. -/
theorem shows_ofStates_regions : ∃ d : StateDiagram,
    Program.read ("stateDiagram\nstate \"Go on\" as A \x7b\nstate C <<choice>>\nC --> [*]\n--\n" ++
        "[*] --> D\nD : <b>now</b>\n\x7d\nC --> F\nstate F <<fork>>\n[*] --> A\n") =
          .ok ⟨[.states d]⟩ ∧
      (ofStates d).nodes = [⟨"A", "Go on", .rounded, none⟩, ⟨"F", "F", .rectangle, none⟩,
        ⟨"C", "C", .diamond, some "A"⟩, ⟨"[*]_start", "[*]", .circle, none⟩,
        ⟨"A/[*]_end", "[*]", .circle, some "A"⟩, ⟨"D", "now", .rounded, some "A"⟩,
        ⟨"A:2/[*]_start", "[*]", .circle, some "A"⟩] ∧
      (ofStates d).members = [("A", ["C", "D"])] ∧ ShowsStates d (ofStates d) := by
  let inner : State := { id := "C", kind := .choice, position := some ⟨3, 6, 40⟩ }
  let further : State :=
    { id := "D", label := some ⟨"<b>now</b>", .html, some "now"⟩, position := some ⟨6, 8, 74⟩ }
  let outer : State :=
    { id := "A", label := some ⟨"Go on", .plain, none⟩, children := some [inner],
      transitions := [⟨"C", States.endId, none, some ⟨4, 0, 53⟩⟩],
      regions := [⟨[further], [⟨startId, "D", none, some ⟨6, 0, 66⟩⟩], []⟩],
      position := some ⟨2, 17, 30⟩ }
  let other : State := { id := "F", kind := .fork, position := some ⟨9, 6, 99⟩ }
  let d : StateDiagram := ⟨.v1, none, ⟨[outer, other],
    [⟨"C", "F", none, some ⟨9, 0, 93⟩⟩, ⟨startId, "A", none, some ⟨11, 0, 118⟩⟩], []⟩⟩
  have hread : Program.read ("stateDiagram\nstate \"Go on\" as A \x7b\nstate C <<choice>>\n" ++
      "C --> [*]\n--\n[*] --> D\nD : <b>now</b>\n\x7d\nC --> F\nstate F <<fork>>\n[*] --> A\n") =
        .ok ⟨[.states d]⟩ := by decide +kernel
  exact ⟨d, hread, by decide +kernel, by decide +kernel,
    shows_ofStates ⟨_, _, hread, List.mem_singleton_self _⟩⟩

end DiagramText.Graph
