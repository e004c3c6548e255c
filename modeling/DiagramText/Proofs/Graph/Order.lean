import DiagramText.Proofs.Graph.Flowchart
import DiagramText.Proofs.Graph.States
import Mathlib.Data.Set.Finite.List
import Mathlib.Logic.Relation
import Mathlib.Order.WellFoundedSet

/-!
# Topological orders

The nodes of a graph are put in order by counting. Each node that waits has a count of the edges
into it that are not taken off yet; when a node takes its place in the order, the edges out of it
are taken off, parallel ones together, and a node without a count left is ready. So the edges into a
node all come from nodes before it. Where nodes wait forever each of them has an edge from another
of them, and some way along these edges comes back to where it started.

* `Graph.IsOrder`: an order of the nodes in which every edge leads forward.
* `Graph.Settling`: the count of every node that waits is that of the edges still to be taken off;
  `Graph.Settling.releaseAll` takes the edges of one node off, `Graph.settling_settle` those of all.
* `Graph.exists_cycle`: nodes of which each has an edge from another are on or behind a cycle.
* `Graph.wellFormed_ofDiagram?`: the edges in the graph of a diagram lead between its nodes.
* `Graph.isOrder_of_ofDiagram?`: what the order of the graph of a diagram is, and when there is one.
-/

namespace DiagramText.Graph

open Relation

variable {g : Graph} {es : List Edge} {done ready settled : List String} {w : Waiting}

/-! ### Orders and ways -/

/-- Whether an edge leads from `source` to `target`. -/
def Adj (g : Graph) (source target : String) : Prop :=
  ∃ e ∈ g.edges, e.source = source ∧ e.target = target

/-- The nodes of a graph `g` in an order in which every edge leads to a later node. -/
structure IsOrder (g : Graph) (order : List String) : Prop where
  perm : order.Perm g.ids
  nodup : order.Nodup
  forward : ∀ e ∈ g.edges, order.idxOf e.source < order.idxOf e.target

/-- Along edges that lead forward no way comes back, since the place in the order goes up. -/
theorem IsOrder.not_transGen {order : List String} (h : g.IsOrder order) (n : String) :
    ¬TransGen g.Adj n n := by
  have hway : ∀ m k, TransGen g.Adj m k → order.idxOf m < order.idxOf k := by
    intro m k hway
    induction hway with
    | single hadj =>
      obtain ⟨e, he, rfl, rfl⟩ := hadj
      exact h.forward e he
    | tail _ hadj ih =>
      obtain ⟨e, he, rfl, rfl⟩ := hadj
      exact ih.trans (h.forward e he)
  exact fun hn => Nat.lt_irrefl _ (hway n n hn)

/-- Where each of some nodes `ns` has an edge from another, some way comes back: going back along
such edges never ends, and there are finitely many nodes. -/
theorem exists_cycle (ns : List String) (hne : ns ≠ []) (h : ∀ n ∈ ns, ∃ m ∈ ns, g.Adj m n) :
    ∃ n, TransGen g.Adj n n := by
  by_contra hnone
  -- otherwise ways put the nodes in a strict order, in which one of them is first
  have horder : IsStrictOrder String (TransGen g.Adj) :=
    { irrefl := fun n hn => hnone ⟨n, hn⟩, trans := fun _ _ _ => TransGen.trans }
  have hfounded : {n | n ∈ ns}.WellFoundedOn (TransGen g.Adj) := ns.finite_toSet.wellFoundedOn
  obtain ⟨n₀, hn₀⟩ := List.exists_mem_of_ne_nil ns hne
  obtain ⟨⟨n, hn⟩, -, hfirst⟩ := hfounded.has_min Set.univ ⟨⟨n₀, hn₀⟩, trivial⟩
  obtain ⟨m, hm, hadj⟩ := h n hn
  exact hfirst ⟨m, hm⟩ trivial (.single hadj)

/-! ### Taking edges off -/

/-- Nodes are settled or wait, and each that waits has the number of the edges into it among the
edges `es` that are not taken off yet. No such edge leads to a settled node. -/
structure Settling (g : Graph) (es : List Edge) (settled : List String) (w : Waiting) : Prop where
  perm : (settled ++ w.map Prod.fst).Perm g.ids
  count : ∀ p ∈ w, p.2 = es.countP (·.target == p.1)
  pos : ∀ p ∈ w, 0 < p.2
  free : ∀ e ∈ es, e.target ∉ settled

theorem release_of_not_mem {id : String} (h : id ∉ w.map Prod.fst) (ready : List String)
    (k : Nat) : release ready id k w = (ready, w) := by
  induction w with
  | nil => rfl
  | cons p w ih =>
    obtain ⟨n, count⟩ := p
    rw [List.map_cons, List.mem_cons, not_or] at h
    rw [release, if_neg (Ne.symm h.1), ih h.2]

theorem release_append {id : String} {before after : Waiting} (h : id ∉ before.map Prod.fst)
    (ready : List String) (k count : Nat) :
    release ready id k (before ++ (id, count) :: after) =
      if count ≤ k then (ready ++ [id], before ++ after)
      else (ready, before ++ (id, count - k) :: after) := by
  induction before with
  | nil =>
    rw [List.nil_append, release, if_pos rfl]
    rfl
  | cons p before ih =>
    obtain ⟨n, c⟩ := p
    rw [List.map_cons, List.mem_cons, not_or] at h
    rw [List.cons_append, release, if_neg (Ne.symm h.1), ih h.2]
    by_cases hle : count ≤ k
    · rw [if_pos hle, if_pos hle]
      rfl
    · rw [if_neg hle, if_neg hle]
      rfl

namespace Settling

/-- The edges into a node other than the `target` stay when edges into the target are taken off, so
its count stays right. -/
theorem countP_filter_of_ne {off : Edge → Bool} {target id : String}
    (hoff : ∀ e, off e = true → e.target = target) (hid : id ≠ target) :
    (es.filter (!off ·)).countP (·.target == id) = es.countP (·.target == id) := by
  rw [List.countP_filter]
  apply List.countP_congr
  intro e _
  rw [Bool.and_eq_true, Bool.not_eq_true', beq_iff_eq]
  constructor
  · exact And.left
  · intro he
    refine ⟨he, Bool.eq_false_iff.2 fun hoffe => hid ?_⟩
    rw [← he, hoff e hoffe]

/-- Edges into the `target` that are taken off are missing in its count, and only they. -/
theorem countP_eq_add {off : Edge → Bool} {target : String}
    (hoff : ∀ e, off e = true → e.target = target) :
    es.countP (·.target == target) =
      es.countP off + (es.filter (!off ·)).countP (·.target == target) := by
  rw [List.countP_eq_countP_filter_add es _ off, List.countP_filter]
  congr 1
  apply List.countP_congr
  intro e _
  rw [Bool.and_eq_true, beq_iff_eq]
  exact ⟨And.right, fun h => ⟨hoff e h, h⟩⟩

/-- A node waits once, as the ids of a graph are different. -/
theorem not_mem {id : String} {count : Nat} {before after : Waiting}
    (h : g.Settling es settled (before ++ (id, count) :: after)) (hids : g.ids.Nodup) :
    id ∉ (before ++ after).map Prod.fst := by
  have hnodup := (h.perm.nodup_iff.2 hids).of_append_right
  rw [List.map_append, List.map_cons] at hnodup
  rw [List.map_append]
  exact (List.nodup_cons.1 (List.nodup_middle.1 hnodup)).1

/-- A node that waits gives way to others: to none if it is ready, or to itself with a lower count.
The edges `es` that are taken off lead to it. -/
theorem replace {off : Edge → Bool} {id : String} {count : Nat} {before after : Waiting}
    {now : List String} (h : g.Settling es settled (before ++ (id, count) :: after))
    (hids : g.ids.Nodup) (hoff : ∀ e, off e = true → e.target = id) (middle : Waiting)
    (hperm : (now ++ middle.map Prod.fst).Perm [id])
    (hmiddle : ∀ p ∈ middle, 0 < p.2 ∧ p.2 = (es.filter (!off ·)).countP (·.target == p.1))
    (hnow : id ∈ now → (es.filter (!off ·)).countP (·.target == id) = 0) :
    g.Settling (es.filter (!off ·)) (settled ++ now) (before ++ (middle ++ after)) := by
  -- the other nodes that wait keep their counts
  have hothers : ∀ p ∈ before ++ after,
      0 < p.2 ∧ p.2 = (es.filter (!off ·)).countP (·.target == p.1) := by
    intro p hp
    have hmem : p ∈ before ++ (id, count) :: after :=
      List.mem_append.2 ((List.mem_append.1 hp).imp_right (List.mem_cons_of_mem _))
    have hne : p.1 ≠ id := fun heq => h.not_mem hids (heq ▸ List.mem_map_of_mem hp)
    rw [countP_filter_of_ne hoff hne]
    exact ⟨h.pos p hmem, h.count p hmem⟩
  have heach : ∀ p ∈ before ++ (middle ++ after),
      0 < p.2 ∧ p.2 = (es.filter (!off ·)).countP (·.target == p.1) := by
    intro p hp
    rcases List.mem_append.1 hp with hp | hp
    · exact hothers p (List.mem_append_left _ hp)
    · rcases List.mem_append.1 hp with hp | hp
      · exact hmiddle p hp
      · exact hothers p (List.mem_append_right _ hp)
  refine ⟨?_, fun p hp => (heach p hp).2, fun p hp => (heach p hp).1, ?_⟩
  · apply List.Perm.trans _ h.perm
    rw [List.map_append, List.map_append, List.map_append, List.map_cons, List.append_assoc]
    apply List.Perm.append_left
    -- the node itself stands in the middle, or is ready and stands before all that wait
    apply (List.perm_append_comm_assoc now _ _).trans
    rw [← List.append_assoc now]
    exact (hperm.append_right _).append_left _
  · intro e he
    rw [List.mem_append, not_or]
    refine ⟨h.free e (List.mem_of_mem_filter he), fun htarget => ?_⟩
    have hid : e.target = id :=
      List.mem_singleton.1 (hperm.subset (List.mem_append_left _ htarget))
    exact List.countP_eq_zero.1 (hnow (hid ▸ htarget)) e he (by simpa using hid)

/-- Some edges into one node, those that are `off`, are taken off together. If the node has no
others it is ready. -/
theorem release (h : g.Settling es (done ++ ready) w) (hids : g.ids.Nodup) (off : Edge → Bool)
    {target : String} (hoff : ∀ e, off e = true → e.target = target) :
    g.Settling (es.filter (!off ·)) (done ++ (Graph.release ready target (es.countP off) w).1)
      (Graph.release ready target (es.countP off) w).2 := by
  by_cases hmem : target ∈ w.map Prod.fst
  · obtain ⟨⟨id, count⟩, hp, heq⟩ := List.mem_map.1 hmem
    obtain rfl : id = target := heq
    -- so the count is reached exactly if no other edge leads to the node
    have hcount : count = es.countP off + (es.filter (!off ·)).countP (·.target == id) := by
      rw [← countP_eq_add hoff]
      exact h.count _ hp
    obtain ⟨before, after, rfl⟩ := List.append_of_mem hp
    have hnew := h.not_mem hids
    rw [List.map_append, List.mem_append, not_or] at hnew
    rw [release_append hnew.1]
    by_cases hle : count ≤ es.countP off
    · rw [if_pos hle, ← List.append_assoc]
      apply h.replace hids hoff [] (List.Perm.refl _) (List.forall_mem_nil _)
      omega
    · rw [if_neg hle, ← List.append_nil (done ++ ready)]
      apply h.replace hids hoff [(id, count - es.countP off)] (List.Perm.refl _)
      · rw [List.forall_mem_singleton]
        dsimp only
        omega
      · exact nofun
  · rw [release_of_not_mem hmem]
    refine ⟨h.perm, fun p hp => ?_, h.pos, fun e he => h.free e (List.mem_of_mem_filter he)⟩
    rw [countP_filter_of_ne hoff fun heq => hmem (heq ▸ List.mem_map_of_mem hp)]
    exact h.count p hp

/-- The edges `es` from one node are taken off target by target, parallel ones together. -/
theorem releaseAll (h : g.Settling es (done ++ ready) w) (hids : g.ids.Nodup) (source : String)
    {targets : List String} (htargets : targets.Nodup)
    (hbetween : ∀ t ∈ targets, (g.edgesBetween source t).length =
      es.countP fun e => e.source == source && e.target == t) :
    g.Settling (es.filter fun e => !(e.source == source && targets.contains e.target))
      (done ++ (Graph.releaseAll g source ready w targets).1)
      (Graph.releaseAll g source ready w targets).2 := by
  induction targets generalizing es ready w with
  | nil =>
    have hall : es.filter (fun e => !(e.source == source && [].contains e.target)) = es := by
      rw [List.filter_eq_self]
      simp
    rw [hall]
    exact h
  | cons t targets ih =>
    obtain ⟨ht, htargets⟩ := List.nodup_cons.1 htargets
    obtain ⟨hfirst, hbetween⟩ := List.forall_mem_cons.1 hbetween
    have hstep := h.release hids (fun e => e.source == source && e.target == t)
      fun e he => by simpa using (Bool.and_eq_true_iff.1 he).2
    rw [← hfirst] at hstep
    -- the edges to the other targets are all still there
    have hrest := ih hstep htargets fun t' ht' => by
      rw [hbetween t' ht', List.countP_filter]
      apply List.countP_congr
      intro e _
      have hne : t' ≠ t := fun heq => ht (heq ▸ ht')
      simp only [Bool.and_eq_true, Bool.not_eq_true', beq_iff_eq, Bool.and_eq_false_iff,
        beq_eq_false_iff_ne]
      constructor
      · rintro ⟨hsource, rfl⟩
        exact ⟨⟨hsource, rfl⟩, .inr hne⟩
      · exact And.left
    have hoff : (es.filter fun e => !(e.source == source && e.target == t)).filter
        (fun e => !(e.source == source && targets.contains e.target)) =
        es.filter fun e => !(e.source == source && (t :: targets).contains e.target) := by
      rw [List.filter_filter]
      apply List.filter_congr
      intro e _
      rw [List.contains_cons, ← Bool.not_or, ← Bool.and_or_distrib_left, Bool.or_comm]
    rw [hoff] at hrest
    exact hrest

end Settling

/-! ### The whole order -/

/-- The edges into each node of a list come from nodes before it, so these are an order of
themselves. -/
def Forward (g : Graph) (ns : List String) : Prop :=
  ∀ before n after, ns = before ++ n :: after → ∀ e ∈ g.edges, e.target = n → e.source ∈ before

theorem Forward.concat {n : String} (h : g.Forward done)
    (hn : ∀ e ∈ g.edges, e.target = n → e.source ∈ done) : g.Forward (done ++ [n]) := by
  intro before m after heq
  rcases List.append_eq_append_iff.1 heq with ⟨mid, rfl, hmid⟩ | ⟨mid, rfl, hmid⟩
  · rcases List.cons_eq_append_iff.1 hmid with ⟨rfl, hlast⟩ | ⟨mid', rfl, hlast⟩
    · cases hlast
      rwa [List.append_nil]
    · cases (List.append_eq_nil_iff.1 hlast.symm).2
  · rcases List.cons_eq_append_iff.1 hmid with ⟨rfl, hlast⟩ | ⟨mid', rfl, -⟩
    · cases hlast
      rwa [List.append_nil] at hn
    · exact h before m mid' rfl

/-- The edges that do not come from the nodes `done`. -/
def edgesAfter (g : Graph) (done : List String) : List Edge :=
  g.edges.filter fun e => !done.contains e.source

/-- When a ready node `n` takes its place, all edges out of it are taken off. -/
theorem Settling.step {n : String} (h : g.Settling (g.edgesAfter done) (done ++ n :: ready) w)
    (hids : g.ids.Nodup) :
    g.Settling (g.edgesAfter (done ++ [n]))
      (done ++ [n] ++ (Graph.releaseAll g n ready w (g.successors n)).1)
      (Graph.releaseAll g n ready w (g.successors n)).2 := by
  -- The node has not been settled before, so none of its edges are taken off yet.
  have hn : n ∉ done := by
    have hnodup := (h.perm.nodup_iff.2 hids).of_append_left
    exact fun hdone => List.disjoint_of_nodup_append hnodup hdone List.mem_cons_self
  rw [List.append_cons] at h
  have hreleased := h.releaseAll hids n (nodup_successors g n) fun t _ => by
    rw [edgesBetween, ← List.countP_eq_length_filter, edgesAfter, List.countP_filter]
    apply List.countP_congr
    intro e _
    simp only [Bool.and_eq_true, beq_iff_eq, Bool.not_eq_true', List.contains_eq_mem,
      decide_eq_false_iff_not]
    constructor
    · rintro ⟨rfl, htarget⟩
      exact ⟨⟨rfl, htarget⟩, hn⟩
    · exact And.left
  -- What is taken off are all edges from the node, as each of them leads to one of its successors.
  have hes : (g.edgesAfter done).filter
      (fun e => !(e.source == n && (g.successors n).contains e.target)) =
      g.edgesAfter (done ++ [n]) := by
    rw [edgesAfter, List.filter_filter]
    apply List.filter_congr
    intro e he
    have hsuccessor : e.source = n → e.target ∈ g.successors n := fun hsource =>
      mem_successors.2 ⟨e, he, hsource, rfl⟩
    by_cases hsource : e.source = n
    · simp [hsource, hsuccessor hsource]
    · simp [hsource]
  rwa [hes] at hreleased

/-- Putting the ready nodes in order, and those that become ready by them, takes off the edges of
all of them. All edges into these come from nodes before them. -/
theorem settling_settle (hids : g.ids.Nodup) (ready : List String) (w : Waiting)
    (h : g.Settling (g.edgesAfter done) (done ++ ready) w) (hforward : g.Forward done) :
    g.Settling (g.edgesAfter (done ++ (settle g ready w).1)) (done ++ (settle g ready w).1)
      (settle g ready w).2 ∧ g.Forward (done ++ (settle g ready w).1) := by
  fun_induction settle g ready w generalizing done with
  | case1 w =>
    rw [List.append_nil] at h ⊢
    exact ⟨h, hforward⟩
  | case2 w n ready next order left hnext =>
    rename_i ih
    -- an edge that is not taken off leads to no settled node, so not to this one
    have hn : ∀ e ∈ g.edges, e.target = n → e.source ∈ done := by
      intro e he htarget
      by_contra hsource
      apply h.free e
      · exact List.mem_filter.2 ⟨he, by simpa using hsource⟩
      · rw [htarget]
        exact List.mem_append_right _ List.mem_cons_self
    have hrest := ih (h.step hids) (hforward.concat hn)
    rw [hnext] at hrest
    rw [List.append_cons]
    exact hrest

theorem settling_start (g : Graph) :
    g.Settling (g.edgesAfter [])
      ([] ++ (g.nodes.filter fun n => g.inDegree n.id == 0).map Node.id) g.waiting := by
  have hedges : g.edgesAfter [] = g.edges := by
    rw [edgesAfter, List.filter_eq_self]
    simp
  have hkeys : g.waiting.map Prod.fst =
      (g.nodes.filter fun n => !(g.inDegree n.id == 0)).map Node.id := by
    rw [waiting, List.filter_map, List.map_map]
    rfl
  rw [hedges, List.nil_append]
  -- Nodes without predecessors are ready, all others wait, and no edge is dealt with yet.
  constructor
  · rw [hkeys, ← List.map_append]
    exact (List.filter_append_perm _ _).map Node.id
  · intro p hp
    obtain ⟨n, -, rfl⟩ := List.mem_map.1 (List.mem_of_mem_filter hp)
    rfl
  · intro p hp
    have hne := (List.mem_filter.1 hp).2
    exact Nat.pos_of_ne_zero (by simpa using hne)
  · intro e he hmem
    obtain ⟨n, hn, hid⟩ := List.mem_map.1 hmem
    have hzero : g.inDegree n.id = 0 := by simpa using (List.mem_filter.1 hn).2
    exact List.countP_eq_zero.1 hzero e he (by simpa using hid.symm)

/-- The nodes are put in an order in which every edge leads forward, unless a way along the edges
comes back to where it starts. -/
theorem topologicalOrder?_spec (h : g.WellFormed) :
    (∃ order, g.topologicalOrder? = some order ∧ g.IsOrder order) ∨
      g.topologicalOrder? = none ∧ ∃ n, TransGen g.Adj n n := by
  obtain ⟨hsettled, hforward⟩ := settling_settle h.nodup _ _ (settling_start g)
    (fun before n after heq => by simp at heq)
  rw [List.nil_append] at hsettled hforward
  simp only [topologicalOrder?]
  generalize settle g _ g.waiting = r at hsettled hforward ⊢
  obtain ⟨order, left⟩ := r
  have hnodup : order.Nodup := (hsettled.perm.nodup_iff.2 h.nodup).of_append_left
  cases left with
  | nil =>
    have hperm : order.Perm g.ids := by
      have hall := hsettled.perm
      rwa [List.map_nil, List.append_nil] at hall
    refine .inl ⟨order, rfl, hperm, hnodup, fun e he => ?_⟩
    obtain ⟨before, after, hsplit⟩ := List.append_of_mem (hperm.mem_iff.2 (h.ends e he).2)
    have hsource := hforward before e.target after hsplit e he rfl
    have htarget : e.target ∉ before := fun hmem =>
      List.disjoint_of_nodup_append (hsplit ▸ hnodup) hmem List.mem_cons_self
    rw [hsplit, List.idxOf_append_of_mem hsource, List.idxOf_append_of_notMem htarget]
    exact Nat.lt_add_right _ (List.idxOf_lt_length_iff.2 hsource)
  | cons p left =>
    refine .inr ⟨rfl, exists_cycle ((p :: left).map Prod.fst) (by simp) fun n hn => ?_⟩
    obtain ⟨q, hq, rfl⟩ := List.mem_map.1 hn
    -- some edge into a node that waits was not taken off, so its source waits as well
    have hpos := hsettled.pos q hq
    rw [hsettled.count q hq] at hpos
    obtain ⟨e, he, htarget⟩ := List.countP_pos_iff.1 hpos
    obtain ⟨hedge, hsource⟩ := List.mem_filter.1 he
    refine ⟨e.source, ?_, e, hedge, rfl, by simpa using htarget⟩
    have hmem := hsettled.perm.mem_iff.2 (h.ends e hedge).1
    exact (List.mem_append.1 hmem).resolve_left (by simpa using hsource)

/-! ### The graphs of diagrams -/

theorem WellFormed.run (h : g.WellFormed) (step : Step) : (step.run g).WellFormed := by
  cases step with
  | node n => exact h.setNode n
  | edge ends e => exact (List.foldlRecOn ends _ h fun _ hg n _ => hg.ensureNode n).addEdge e
  | members row => exact ⟨h.nodup, h.ends⟩

/-- The edges in the graph `g` of a diagram `d` lead between its nodes, of which no two have the
same id, whatever kind of diagram it is. -/
theorem wellFormed_ofDiagram? {d : Diagram} (h : ofDiagram? d = some g) : g.WellFormed := by
  cases d with
  | flowchart d =>
    obtain rfl := Option.some.inj h
    have hnodes := List.foldlRecOn d.nodes (motive := WellFormed) _
      (.empty (Gathered.gather {} [] d.statements).1.members)
      fun _ hg n _ => hg.setNode (flowNode (Gathered.gather {} [] d.statements).1.groups n)
    exact List.foldlRecOn _ _ hnodes fun _ hg e _ => hg.addEdge (flowEdge e)
  | states d =>
    obtain rfl := Option.some.inj h
    rw [ofStates_eq]
    exact List.foldlRecOn _ _ (.empty []) fun _ hg step _ => hg.run step
  | classes d =>
    obtain rfl := Option.some.inj h
    have hnodes := List.foldlRecOn d.classes (motive := WellFormed) _ (.empty [])
      fun _ hg c _ => hg.ensureNode (.bare c.name)
    exact List.foldlRecOn _ _ hnodes fun _ hg r _ => hg.addEdge _
  | entities d =>
    obtain rfl := Option.some.inj h
    have hnodes := List.foldlRecOn d.entities (motive := WellFormed) _ (.empty [])
      fun _ hg e _ => hg.ensureNode (.bare e.name)
    exact List.foldlRecOn _ _ hnodes fun _ hg r _ => hg.addEdge _
  | sequence d | gantt d => cases h

/-- The graph `g` of a diagram `d` has no topological order exactly if it is not acyclic, and that
is so exactly if some way along its edges comes back to where it starts. Otherwise the order has
every node once, and every edge leads forward in it. -/
theorem isOrder_of_ofDiagram? {d : Diagram} (h : ofDiagram? d = some g) :
    (g.topologicalOrder? = none ↔ g.isAcyclic = false) ∧
      (g.isAcyclic = false ↔ ∃ n, TransGen g.Adj n n) ∧
      ∀ order, g.topologicalOrder? = some order → g.IsOrder order := by
  have hnone : g.topologicalOrder? = none ↔ g.isAcyclic = false := by
    rw [isAcyclic, Option.isSome_eq_false_iff, Option.isNone_iff_eq_none]
  rw [← hnone]
  rcases topologicalOrder?_spec (wellFormed_ofDiagram? h) with ⟨order, horder, hspec⟩ |
    ⟨hno, hcycle⟩
  · rw [horder]
    refine ⟨Iff.rfl, ⟨nofun, fun ⟨n, hn⟩ => absurd hn (hspec.not_transGen n)⟩, ?_⟩
    rintro _ ⟨⟩
    exact hspec
  · rw [hno]
    exact ⟨Iff.rfl, ⟨fun _ => hcycle, fun _ => rfl⟩, nofun⟩

/-- Two edges lead from A to B. Both are taken off together when A takes its place, and B still
waits for the edge from C. -/
theorem isOrder_of_ofDiagram?_parallel : ∃ d g, ofDiagram? d = some g ∧ g.outDegree "A" = 3 ∧
    g.topologicalOrder? = some ["A", "C", "B"] ∧ g.IsOrder ["A", "C", "B"] ∧
      ¬∃ n, TransGen g.Adj n n := by
  let d : ClassDiagram := {
    classes := [{ name := "A" }, { name := "B" }, { name := "C" }]
    relations := [("A", "B"), ("A", "B"), ("A", "C"), ("C", "B")].map fun ends =>
      { source := ends.1, target := ends.2, kind := .dependency } }
  have horder : (ofClasses d).topologicalOrder? = some ["A", "C", "B"] := by decide +kernel
  obtain ⟨hnone, hcycle, hspec⟩ := isOrder_of_ofDiagram? (d := .classes d) rfl
  refine ⟨.classes d, _, rfl, by decide +kernel, horder, hspec _ horder, ?_⟩
  rw [← hcycle, ← hnone, horder]
  exact Option.some_ne_none _

end DiagramText.Graph
