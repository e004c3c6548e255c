import DiagramText.Proofs.Flowchart.Registry

/-!
# Removing a node of a flowchart

A node is removed with all clauses that are about it, at any depth; the other clauses stay where
they are. A node that was only mentioned beside it would be forgotten, so it is declared again at
the end, as it was registered. The registry is then made anew, which gives the other nodes as they
were: their declarations are still there, or stand at the end.

* `Flowchart.Pruned`: what is left of statements where a node is removed.
* `Flowchart.Removal`: one flowchart is another without a node.
* `Flowchart.removal_removeNode`: removing a node gives such a flowchart, and changes nothing more
  when it is done again.
-/

namespace DiagramText.Flowchart

variable {id : String} {ss ts : List Statement} {c : Clause}

/-! ### Clauses at the start -/

theorem clausesOf_clause_cons (c : Clause) (ss : List Statement) :
    clausesOf (.clause c :: ss) = c :: clausesOf ss := by
  have hhead : clausesOf [.clause c] = [c] := clausesOf_map_clause [c]
  rw [← List.singleton_append, clausesOf_append, hhead]
  rfl

theorem clausesOf_subgraph_cons (head : Subgraph) (body ss : List Statement) :
    clausesOf (.subgraph head body :: ss) = clausesOf body ++ clausesOf ss := by
  rw [← List.singleton_append, clausesOf_append, clausesOf_subgraph]

/-! ### What is left of statements -/

/-- The ids of the nodes that a clause is about: those that it declares or links, and those that it
gives a class or a style. -/
def Clause.nodeIds : Clause → List String
  | .node n _ => [n.id]
  | .edge e => [e.source, e.target]
  | .classDef _ _ => []
  | .classes ids _ => ids
  | .style target _ => [target]

theorem Clause.mentioned_subset (c : Clause) : c.mentioned ⊆ c.nodeIds := by
  cases c with
  | node n position => exact List.Subset.refl _
  | edge e => exact List.Subset.refl _
  | classDef _ _ | classes _ _ | style _ _ => exact List.nil_subset _

/-- A clause `c` that declares a node `n` is about that node alone, so it is dropped only with
it. -/
theorem Clause.nodeIds_of_declared? {n : Node} (h : c.declared? = some n) : c.nodeIds = [n.id] := by
  cases c with
  | node m position =>
    rw [Clause.declared?, Option.ite_none_left_eq_some] at h
    rw [← Option.some.inj h.2]
    rfl
  | edge _ | classDef _ _ | classes _ _ | style _ _ => cases h

/-- `Pruned id ss ts`: the statements `ts` are left of `ss` where the node `id` is removed. -/
inductive Pruned (id : String) : List Statement → List Statement → Prop
  | nil : Pruned id [] []
  /-- A clause that is not about the node stays as it is. -/
  | keep {c : Clause} {ss ts : List Statement} (hc : id ∉ c.nodeIds) (h : Pruned id ss ts) :
      Pruned id (.clause c :: ss) (.clause c :: ts)
  /-- A clause about the node goes, unless it gives a class to other nodes too. -/
  | drop {c : Clause} {ss ts : List Statement} (hc : id ∈ c.nodeIds)
      (hclasses : ∀ ids name, c = .classes ids name → ∀ i ∈ ids, i = id) (h : Pruned id ss ts) :
      Pruned id (.clause c :: ss) ts
  /-- The others keep their class. -/
  | trim {ids : List String} {name : String} {ss ts : List Statement} (hid : id ∈ ids)
      (hother : ∃ i ∈ ids, i ≠ id) (h : Pruned id ss ts) :
      Pruned id (.clause (.classes ids name) :: ss)
        (.clause (.classes (ids.filter (· != id)) name) :: ts)
  | subgraph {head : Subgraph} {body body' ss ts : List Statement} (hbody : Pruned id body body')
      (h : Pruned id ss ts) : Pruned id (.subgraph head body :: ss) (.subgraph head body' :: ts)

/-- What is left of a clause `c` and of those behind it, as `Clause.without?` gives it. -/
theorem Pruned.without? (c : Clause) (h : Pruned id ss ts) :
    Pruned id (.clause c :: ss) (((c.without? id).map Statement.clause).toList ++ ts) := by
  cases c with
  | node n position =>
    rw [Clause.without?]
    split
    · next heq => exact .drop (heq ▸ List.mem_singleton_self _) nofun h
    · next hne => exact .keep (fun hid => hne (List.mem_singleton.1 hid).symm) h
  -- An edge goes with either of its ends.
  | edge e =>
    rw [Clause.without?]
    split
    · next heq =>
      have hends : e.source = id ∨ e.target = id := by simpa using heq
      refine .drop ?_ nofun h
      rcases hends with rfl | rfl
      · exact List.mem_cons_self
      · exact List.mem_cons_of_mem _ List.mem_cons_self
    · next hne =>
      refine .keep (fun hid => hne ?_) h
      rcases List.mem_pair.1 hid with rfl | rfl
      · simp
      · simp
  | classDef name styles => exact .keep List.not_mem_nil h
  | classes ids name =>
    rw [Clause.without?]
    -- The node is one of those that get the class: it is taken from them, and the clause goes if no
    -- other node is left.
    by_cases hid : id ∈ ids
    · by_cases hall : ∀ i ∈ ids, i = id
      · rw [if_pos (by simpa [hid] using hall)]
        refine .drop hid ?_ h
        intro ids' name' heq
        cases heq
        exact hall
      · rw [if_neg (by simpa [hid] using hall)]
        simp only [not_forall, exists_prop] at hall
        exact .trim hid hall h
    · have hfilter : ids.filter (· != id) = ids := by
        rw [List.filter_eq_self]
        rintro i hi
        simpa using fun heq : i = id => hid (heq ▸ hi)
      rw [if_neg (by simp [hid]), hfilter]
      exact .keep hid h
  | style target styles =>
    rw [Clause.without?]
    split
    · next heq => exact .drop (heq ▸ List.mem_singleton_self _) nofun h
    · next hne => exact .keep (fun hid => hne (List.mem_singleton.1 hid).symm) h

theorem pruned_withoutList (id : String) :
    ∀ ss : List Statement, Pruned id ss (Statement.withoutList id ss)
  | [] => .nil
  | .clause c :: ss => (pruned_withoutList id ss).without? c
  | .subgraph _ body :: ss => .subgraph (pruned_withoutList id body) (pruned_withoutList id ss)

namespace Pruned

/-- Nothing that is left is about the node `id`. -/
theorem not_mem_nodeIds (h : Pruned id ss ts) : ∀ c ∈ clausesOf ts, id ∉ c.nodeIds := by
  induction h with
  | nil => simp
  | keep hc _ ih =>
    rw [clausesOf_clause_cons]
    exact List.forall_mem_cons.2 ⟨hc, ih⟩
  | drop _ _ _ ih => exact ih
  | trim _ _ _ ih =>
    rw [clausesOf_clause_cons]
    exact List.forall_mem_cons.2 ⟨by simp [Clause.nodeIds], ih⟩
  | subgraph _ _ ihbody ih =>
    rw [clausesOf_subgraph_cons]
    exact List.forall_mem_append.2 ⟨ihbody, ih⟩

/-- Where no clause is about the node `id` nothing changes. -/
theorem eq_of_not_mem (h : Pruned id ss ts) (hss : ∀ c ∈ clausesOf ss, id ∉ c.nodeIds) :
    ts = ss := by
  induction h with
  | nil => rfl
  | keep hc _ ih =>
    rw [clausesOf_clause_cons] at hss
    rw [ih (List.forall_mem_cons.1 hss).2]
  | drop hc _ _ _ =>
    rw [clausesOf_clause_cons] at hss
    exact absurd hc (List.forall_mem_cons.1 hss).1
  | trim hid _ _ _ =>
    rw [clausesOf_clause_cons] at hss
    exact absurd hid (List.forall_mem_cons.1 hss).1
  | subgraph _ _ ihbody ih =>
    rw [clausesOf_subgraph_cons] at hss
    obtain ⟨hbody, hss⟩ := List.forall_mem_append.1 hss
    rw [ihbody hbody, ih hss]

theorem mentionedIds_subset (h : Pruned id ss ts) : mentionedIds ts ⊆ mentionedIds ss := by
  rw [mentionedIds_eq, mentionedIds_eq]
  induction h with
  | nil => exact List.Subset.refl _
  | keep _ _ ih | trim _ _ _ ih =>
    rw [clausesOf_clause_cons, clausesOf_clause_cons, List.flatMap_cons, List.flatMap_cons]
    exact List.append_subset.2 ⟨List.subset_append_left _ _,
      List.subset_append_of_subset_right _ ih⟩
  | drop _ _ _ ih =>
    rw [clausesOf_clause_cons, List.flatMap_cons]
    exact List.subset_append_of_subset_right _ ih
  | subgraph _ _ ihbody ih =>
    rw [clausesOf_subgraph_cons, clausesOf_subgraph_cons, List.flatMap_append, List.flatMap_append]
    exact List.append_subset.2 ⟨List.subset_append_of_subset_left _ ihbody,
      List.subset_append_of_subset_right _ ih⟩

/-- The node `id` is not mentioned in what is left, as only clauses about it mention it. -/
theorem not_mem_mentionedIds (h : Pruned id ss ts) : id ∉ mentionedIds ts := by
  rw [mentionedIds_eq, List.mem_flatMap]
  rintro ⟨c, hc, hid⟩
  exact h.not_mem_nodeIds c hc (c.mentioned_subset hid)

/-- The declarations of nodes other than `id` are left, in their order. -/
theorem declarations_eq (h : Pruned id ss ts) :
    declarations ts = (declarations ss).filter (·.id ≠ id) := by
  unfold declarations
  -- The cases are those of pruning; only a kept or a dropped clause can be a declaration.
  induction h with
  | nil => simp
  | @keep c ss ts hc _ ih =>
    rw [clausesOf_clause_cons, clausesOf_clause_cons]
    cases hdeclared : c.declared? with
    | none => rw [List.filterMap_cons_none hdeclared, List.filterMap_cons_none hdeclared, ih]
    | some n =>
      rw [Clause.nodeIds_of_declared? hdeclared, List.mem_singleton] at hc
      rw [List.filterMap_cons_some hdeclared, List.filterMap_cons_some hdeclared,
        List.filter_cons_of_pos (by simpa using Ne.symm hc), ih]
  | @drop c ss ts hc _ _ ih =>
    rw [clausesOf_clause_cons, ih]
    cases hdeclared : c.declared? with
    | none => rw [List.filterMap_cons_none hdeclared]
    | some n =>
      rw [Clause.nodeIds_of_declared? hdeclared, List.mem_singleton] at hc
      rw [List.filterMap_cons_some hdeclared, List.filter_cons_of_neg (by simp [hc])]
  | trim _ _ _ ih =>
    rw [clausesOf_clause_cons, clausesOf_clause_cons, List.filterMap_cons_none rfl,
      List.filterMap_cons_none rfl, ih]
  | subgraph _ _ ihbody ih =>
    rw [clausesOf_subgraph_cons, clausesOf_subgraph_cons, List.filterMap_append,
      List.filterMap_append, List.filter_append, ihbody, ih]

end Pruned

/-! ### Declarations at the end -/

theorem clausesOf_declare (ns : List Node) :
    clausesOf (ns.map fun n => .clause (.node n none)) = ns.map fun n => .node n none := by
  rw [← clausesOf_map_clause (ns.map fun n => .node n none), List.map_map]
  rfl

theorem mentionedIds_declare (ns : List Node) :
    mentionedIds (ns.map fun n => .clause (.node n none)) = ns.map Node.id := by
  rw [mentionedIds_eq, clausesOf_declare, List.flatMap_map]
  exact List.flatMap_pure_eq_map _ _

theorem mentionedIds_append (ss ts : List Statement) :
    mentionedIds (ss ++ ts) = mentionedIds ss ++ mentionedIds ts := by
  simp only [mentionedIds_eq, clausesOf_append, List.flatMap_append]

/-- To declare nodes `ns` by their ids alone says nothing about their labels and shapes. -/
theorem declarations_append_declare (ss : List Statement) {ns : List Node}
    (hns : ∀ n ∈ ns, n = Node.bare n.id) :
    declarations (ss ++ ns.map fun n => .clause (.node n none)) = declarations ss := by
  have hnone : (ns.map fun n => Clause.node n none).filterMap Clause.declared? = [] := by
    rw [List.filterMap_eq_nil_iff, List.forall_mem_map]
    intro n hn
    exact if_pos (hns n hn)
  rw [declarations, clausesOf_append, clausesOf_declare, List.filterMap_append, hnone,
    List.append_nil]
  rfl

/-! ### The node removed -/

/-- The other nodes that are registered, but not mentioned in what is left of the statements
`kept`. -/
def orphans (d : Flowchart) (id : String) (kept : List Statement) : List Node :=
  d.nodes.filter fun n => n.id ≠ id ∧ n.id ∉ mentionedIds kept

/-- The flowchart `e` is `d` without the node `id`, and nothing else is lost. -/
structure Removal (id : String) (d e : Flowchart) : Prop where
  direction : e.direction = d.direction
  /-- Nodes that are not mentioned any more are declared behind the statements that are left. -/
  statements : ∃ kept, Pruned id d.statements kept ∧
    e.statements = kept ++ (d.orphans id kept).map fun n => .clause (.node n none)
  /-- No clause is about the node, at any depth. -/
  absent : ∀ c ∈ clausesOf e.statements, id ∉ c.nodeIds
  ids : ∀ m, m ∈ e.nodes.map Node.id ↔ m ∈ d.nodes.map Node.id ∧ m ≠ id
  /-- The other nodes keep their labels and shapes. -/
  node?_eq : ∀ m, m ≠ id → e.node? m = d.node? m
  registered : e.Registered

variable {d e : Flowchart} {kept : List Statement} {m : String}

theorem mem_orphans {n : Node} :
    n ∈ d.orphans id kept ↔ n ∈ d.nodes ∧ n.id ≠ id ∧ n.id ∉ mentionedIds kept := by
  rw [orphans, List.mem_filter, decide_eq_true_iff]

theorem redeclarations_eq (d : Flowchart) (id : String) (kept : List Statement) :
    redeclarations (d.nodes.filter (·.id != id)) kept =
      (d.orphans id kept).map fun n => .clause (.node n none) := by
  rw [redeclarations, orphans, List.filter_filter]
  congr 2
  funext n
  by_cases hn : n.id = id
  · simp [hn]
  · simp [hn]

namespace Registered

/-- The ids of the registered nodes of `d` are those that clauses mention. -/
theorem mem_ids_iff (h : d.Registered) :
    m ∈ d.nodes.map Node.id ↔ m ∈ mentionedIds d.statements := by
  rw [h.ids_eq, List.mem_eraseDups]

theorem node?_eq_none (h : d.Registered) (hm : m ∉ mentionedIds d.statements) :
    d.node? m = none := by
  rw [← h.mem_ids_iff, List.mem_map] at hm
  rw [node?, List.find?_eq_none]
  intro n hn heq
  exact hm ⟨n, hn, beq_iff_eq.1 heq⟩

/-- A node that is not mentioned any more was never declared with a label or a shape, since such a
declaration would be left. -/
theorem eq_bare_of_orphan (h : d.Registered) (hkept : Pruned id d.statements kept) :
    ∀ n ∈ d.orphans id kept, n = Node.bare n.id := by
  intro n horphan
  obtain ⟨hn, hne, hlost⟩ := mem_orphans.1 horphan
  have hundeclared : ∀ m ∈ declarations kept, m.id ≠ n.id := by
    intro m hm heq
    rw [mentionedIds_eq, ← heq] at hlost
    exact hlost (Registry.mem_mentioned_of_declared hm)
  rw [h.nodes_eq, Registry.ofStatements_eq_map, List.mem_map] at hn
  obtain ⟨m, -, rfl⟩ := hn
  have hid : (nodeOf d.statements m).id = m := key_lastDeclared (fun _ => rfl) _ m
  rw [hid] at hne hundeclared ⊢
  rw [nodeOf, ← lastDeclared_filter_ne hne, ← hkept.declarations_eq]
  exact lastDeclared_of_forall_ne hundeclared

/-- With the orphans declared again all other nodes are mentioned, and only they. So the registry
loses the one node. -/
theorem mem_mentionedIds_removed (h : d.Registered) (hkept : Pruned id d.statements kept) :
    m ∈ mentionedIds (kept ++ (d.orphans id kept).map fun n => .clause (.node n none)) ↔
      m ∈ mentionedIds d.statements ∧ m ≠ id := by
  rw [mentionedIds_append, mentionedIds_declare, List.mem_append, ← h.mem_ids_iff]
  constructor
  · rintro (hm | hm)
    · refine ⟨h.mem_ids_iff.2 (hkept.mentionedIds_subset hm), ?_⟩
      rintro rfl
      exact hkept.not_mem_mentionedIds hm
    · obtain ⟨n, hn, rfl⟩ := List.mem_map.1 hm
      obtain ⟨hn, hne, -⟩ := mem_orphans.1 hn
      exact ⟨List.mem_map_of_mem hn, hne⟩
  · rintro ⟨hm, hne⟩
    obtain ⟨n, hn, rfl⟩ := List.mem_map.1 hm
    by_cases hleft : n.id ∈ mentionedIds kept
    · exact .inl hleft
    · exact .inr (List.mem_map_of_mem (mem_orphans.2 ⟨hn, hne, hleft⟩))

/-- The other nodes are known from the same declarations as before. -/
theorem nodeOf_removed (h : d.Registered) (hkept : Pruned id d.statements kept) (hm : m ≠ id) :
    nodeOf (kept ++ (d.orphans id kept).map fun n => .clause (.node n none)) m =
      nodeOf d.statements m := by
  rw [nodeOf, declarations_append_declare kept (h.eq_bare_of_orphan hkept), hkept.declarations_eq]
  exact lastDeclared_filter_ne hm _

/-- What a removal leaves, given the statements `kept` that are left. -/
theorem removal (h : d.Registered) (he : e.Registered) (hdirection : e.direction = d.direction)
    (hkept : Pruned id d.statements kept) (hstatements :
      e.statements = kept ++ (d.orphans id kept).map fun n => .clause (.node n none)) :
    Removal id d e where
  direction := hdirection
  statements := ⟨kept, hkept, hstatements⟩
  absent := by
    rw [hstatements, clausesOf_append, clausesOf_declare]
    refine List.forall_mem_append.2 ⟨hkept.not_mem_nodeIds, List.forall_mem_map.2 ?_⟩
    intro n hn hid
    exact (mem_orphans.1 hn).2.1 (List.mem_singleton.1 hid).symm
  ids m := by
    rw [he.mem_ids_iff, h.mem_ids_iff, hstatements]
    exact h.mem_mentionedIds_removed hkept
  node?_eq m hm := by
    have hmentioned : m ∈ mentionedIds e.statements ↔ m ∈ mentionedIds d.statements := by
      rw [hstatements, h.mem_mentionedIds_removed hkept]
      exact and_iff_left hm
    by_cases hknown : m ∈ mentionedIds d.statements
    · rw [h.node?_eq m hknown, he.node?_eq m (hmentioned.2 hknown), hstatements,
        h.nodeOf_removed hkept hm]
    · rw [h.node?_eq_none hknown, he.node?_eq_none (mt hmentioned.1 hknown)]
  registered := he

/-- Where no clause is about the node `id`, its removal does nothing. -/
theorem removeNode_eq_self (h : d.Registered)
    (habsent : ∀ c ∈ clausesOf d.statements, id ∉ c.nodeIds) : d.removeNode id = d := by
  have hkept : Statement.withoutList id d.statements = d.statements :=
    (pruned_withoutList id d.statements).eq_of_not_mem habsent
  have horphans : d.orphans id d.statements = [] := by
    rw [List.eq_nil_iff_forall_not_mem]
    intro n horphan
    obtain ⟨hn, -, hlost⟩ := mem_orphans.1 horphan
    exact hlost (h.mem_ids_iff.1 (List.mem_map_of_mem hn))
  have hnodes := h.nodes_eq
  obtain ⟨direction, statements, nodes⟩ := d
  dsimp only at hkept hnodes
  rw [removeNode, redeclarations_eq, hkept, horphans, List.map_nil, List.append_nil, ← hnodes]

end Registered

/-- To remove the node `id` takes what is about it and keeps all else where it is, and the other
nodes registered as they were. To remove it again does nothing. -/
theorem removal_removeNode (h : d.Registered) (id : String) :
    Removal id d (d.removeNode id) ∧ (d.removeNode id).removeNode id = d.removeNode id := by
  have hregistered : (d.removeNode id).Registered := .of_nodes_eq rfl
  have hstatements : (d.removeNode id).statements = Statement.withoutList id d.statements ++
      (d.orphans id (Statement.withoutList id d.statements)).map fun n => .clause (.node n none) :=
    congrArg _ (redeclarations_eq d id _)
  have hremoval : Removal id d (d.removeNode id) :=
    h.removal hregistered rfl (pruned_withoutList id d.statements) hstatements
  exact ⟨hremoval, hregistered.removeNode_eq_self hremoval.absent⟩

/-- The node goes from a subgraph, a class assignment keeps the other node of it, and the node that
was linked to it alone is declared at the end. -/
theorem removal_removeNode_subgraph : ∃ d : Flowchart, d.Registered ∧
    (d.removeNode "B").statements =
      [.subgraph ⟨"s", none, none, none⟩ [.clause (.node ⟨"A", some (.plain "x"), .circle⟩ none)],
        .clause (.classes ["A"] "c"), .clause (.node ⟨"C", none, .rectangle⟩ none)] ∧
    Removal "B" d (d.removeNode "B") ∧ (d.removeNode "B").removeNode "B" = d.removeNode "B" := by
  let statements : List Statement :=
    [.subgraph ⟨"s", none, none, none⟩ [.clause (.node ⟨"A", some (.plain "x"), .circle⟩ none),
        .clause (.edge ⟨"A", "B", .arrow, none, none⟩)],
      .clause (.edge ⟨"B", "C", .line, none, none⟩), .clause (.style "B" "fill:red"),
      .clause (.classes ["A", "B"] "c")]
  let d : Flowchart := ⟨.td, statements, Registry.ofStatements statements⟩
  have hd : d.Registered := .of_nodes_eq rfl
  exact ⟨d, hd, by decide +kernel, removal_removeNode hd "B"⟩

end DiagramText.Flowchart
