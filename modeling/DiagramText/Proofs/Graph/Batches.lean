import DiagramText.Graph.OfDiagram
import DiagramText.Proofs.States.Integrity

/-!
# The scopes of a state diagram in its graph

The graph of a state diagram is made batch by batch: the scopes of one composite state, then those
of the composite states in them. All that matters is that each composite state has one batch and
each scope is in one, since what the scopes bring can be put together in any order.

* `Graph.ownedScopes`: the scopes of a diagram with their keys and owners.
* `Graph.batchesFrom`: the batches in the order in which they are added; `Graph.perm_batchesFrom`
  says that they are those of all composite states.
* `Graph.perm_flatMap_ownedScopes`: what all batches bring is what all scopes bring.
* `Graph.perm_map_walk`: the states of all scopes, each with the owner of its scope.
-/

namespace DiagramText.Graph

open States

variable {d : StateDiagram} {s t : State} {ss : List State} {b : Batch} {bs : List Batch}
  {β : Type}

/-! ### Scopes with their owners -/

/-- A scope with its key and the state that owns it. The outermost scope has neither. -/
structure OwnedScope where
  owner : Option String
  key : Option String
  scope : Scope State

/-- The scopes of the batch `b` with their owner. -/
def ownedOf (b : Batch) : List OwnedScope := b.2.map fun k => ⟨b.1, k.1, k.2⟩

/-- The batch of a state `s`, composite or not. That of a state without scopes has none. -/
def batchOf (s : State) : Batch := (some s.id, keyedScopes s)

/-- The scopes of a diagram `d`: the outermost one, and those of each state, at any depth. -/
def ownedScopes (d : StateDiagram) : List OwnedScope :=
  ⟨none, none, d.scope⟩ ::
    (State.nodesList d.scope.states).flatMap fun s => ownedOf (batchOf s)

/-- The composite states of a diagram `d`, at any depth. -/
def composites (d : StateDiagram) : List State :=
  (State.nodesList d.scope.states).filter State.isComposite

theorem map_snd_keyedScopes (s : State) : (keyedScopes s).map Prod.snd = s.scopes := by
  rw [keyedScopes, State.scopes, List.map_cons]
  congr 1
  apply List.ext_getElem
  · simp
  · intro i _ _
    simp

theorem map_key_ownedScopes (d : StateDiagram) : (ownedScopes d).map OwnedScope.key =
    none :: ((State.nodesList d.scope.states).flatMap keyedScopes).map Prod.fst := by
  rw [ownedScopes, List.map_cons, List.map_flatMap, List.map_flatMap]
  congr 1
  apply List.flatMap_congr
  intro s _
  rw [ownedOf, List.map_map]
  rfl

theorem map_scope_ownedScopes (d : StateDiagram) :
    (ownedScopes d).map OwnedScope.scope = d.scopes := by
  rw [ownedScopes, StateDiagram.scopes, List.map_cons, List.map_flatMap]
  congr 1
  apply List.flatMap_congr
  intro s _
  rw [ownedOf, List.map_map, ← map_snd_keyedScopes]
  rfl

/-- The states in the scopes of a state `s`, without those in their own scopes. Keys play no part in
this. -/
theorem statesIn_keyedScopes (s : State) :
    statesIn (keyedScopes s) = s.scopes.flatMap Scope.states := by
  rw [← map_snd_keyedScopes, List.flatMap_map]
  rfl

/-- The states in the scopes of a state `s`, at any depth. -/
theorem nodesList_statesIn (s : State) :
    State.nodesList (statesIn (keyedScopes s)) = s.inner := by
  have hregions : ∀ rs : List (Scope State),
      State.nodesList (rs.flatMap Scope.states) = State.nodesScopes rs := by
    intro rs
    induction rs with
    | nil => rfl
    | cons r rs ih => rw [List.flatMap_cons, State.nodesList_append, State.nodesScopes, ih]
  rw [statesIn_keyedScopes, State.scopes, List.flatMap_cons, State.nodesList_append, hregions,
    State.inner]
  cases h : s.children <;> simp [State.ownScope, h, State.nodesChildren, State.nodesList]

theorem mem_nodesList_of_mem_inner (hs : s ∈ ss) (ht : t ∈ s.inner) : t ∈ State.nodesList ss := by
  induction ss with
  | nil => cases hs
  | cons u ss ih =>
    rw [State.nodesList, State.nodes_eq_inner, List.mem_append]
    rcases List.mem_cons.1 hs with rfl | hs
    · exact .inl (List.mem_cons_of_mem _ ht)
    · exact .inr (ih hs)

/-! ### Composite states -/

theorem scopes_eq_of_scoped (h : s.Scoped) (hcomposite : s.isComposite = false) :
    s.scopes = [{}] := by
  obtain ⟨htransitions, hnotes, hregions⟩ := h hcomposite
  have hchildren : s.children = none := by simpa [State.isComposite] using hcomposite
  rw [State.scopes, State.ownScope, hchildren, htransitions, hnotes, hregions]
  rfl

theorem inner_eq_nil_of_scoped (h : s.Scoped) (hcomposite : s.isComposite = false) :
    s.inner = [] := by
  rw [← nodesList_statesIn, statesIn_keyedScopes, scopes_eq_of_scoped h hcomposite]
  rfl

theorem batch?_eq_some_iff : batch? s = some b ↔ s.isComposite = true ∧ b = batchOf s := by
  unfold batch?
  rw [Option.ite_none_right_eq_some, Option.some.injEq, eq_comm (a := b)]
  rfl

theorem batch?_eq_none (h : s.isComposite = false) : batch? s = none := by
  simp [batch?, h]

theorem filterMap_batch? (ss : List State) :
    ss.filterMap batch? = (ss.filter State.isComposite).map batchOf := by
  induction ss with
  | nil => rfl
  | cons s ss ih =>
    cases h : s.isComposite with
    | false =>
      rw [List.filterMap_cons_none (batch?_eq_none h), List.filter_cons_of_neg (by simp [h]), ih]
    | true =>
      rw [List.filterMap_cons_some (batch?_eq_some_iff.2 ⟨h, rfl⟩), List.filter_cons_of_pos h, ih,
        List.map_cons]

theorem batchesIn_eq (scopes : List KeyedScope) :
    batchesIn scopes = (statesIn scopes).filterMap batch? := by
  rw [batchesIn, statesIn, List.filterMap_flatMap]

/-! ### Batches in order -/

/-- The batches that are added, in order: each batch puts those of its own states before the
rest. -/
def batchesFrom : List Batch → List Batch
  | [] => []
  | b :: bs => b :: batchesFrom (batchesIn b.2 ++ bs)
termination_by bs => weight bs
decreasing_by
  have := weight_batchesIn b.2
  rw [weight_append]
  simp only [weight] at *
  omega

theorem addBatches_eq (g : Graph) (bs : List Batch) :
    addBatches g bs = (batchesFrom bs).foldl addBatch g := by
  induction g, bs using addBatches.induct with
  | case1 g => rw [addBatches, batchesFrom, List.foldl_nil]
  | case2 g b bs ih => rw [addBatches, batchesFrom, List.foldl_cons, ih]

/-- The batches of all states of a list are those of its first level, and those of the states `ss`
in their scopes, in some order. -/
theorem perm_filterMap_batch? (h : ∀ s ∈ State.nodesList ss, s.Scoped) :
    ((State.nodesList ss).filterMap batch?).Perm
      (ss.filterMap batch? ++ ((ss.filterMap batch?).flatMap
        fun b => State.nodesList (statesIn b.2)).filterMap batch?) := by
  induction ss with
  | nil => exact List.Perm.refl _
  | cons s ss ih =>
    rw [State.nodesList, State.nodes_eq_inner] at h
    obtain ⟨hs, hrest⟩ := List.forall_mem_append.1 h
    rw [State.nodesList, State.nodes_eq_inner]
    cases hcomposite : s.isComposite with
    | false =>
      have hnone := batch?_eq_none hcomposite
      rw [inner_eq_nil_of_scoped (hs s List.mem_cons_self) hcomposite, List.singleton_append,
        List.filterMap_cons_none hnone, List.filterMap_cons_none hnone]
      exact ih hrest
    | true =>
      have hsome := batch?_eq_some_iff.2 ⟨hcomposite, rfl⟩
      rw [List.cons_append, List.filterMap_cons_some hsome, List.filterMap_cons_some hsome,
        List.flatMap_cons, batchOf, nodesList_statesIn, List.filterMap_append,
        List.filterMap_append, List.cons_append]
      apply List.Perm.cons
      -- what is in the scopes of the first state changes places with the batches behind it
      apply ((ih hrest).append_left _).trans
      rw [← List.append_assoc, ← List.append_assoc]
      exact List.perm_append_comm.append_right _

/-- The batches that are added are the given ones, and those of the composite states in them, in
some order. -/
theorem perm_batchesFrom (h : ∀ b ∈ bs, ∀ s ∈ State.nodesList (statesIn b.2), s.Scoped) :
    (batchesFrom bs).Perm
      (bs ++ (bs.flatMap fun b => State.nodesList (statesIn b.2)).filterMap batch?) := by
  induction bs using batchesFrom.induct with
  | case1 =>
    rw [batchesFrom]
    exact List.Perm.refl _
  | case2 b bs ih =>
    obtain ⟨hb, hbs⟩ := List.forall_mem_cons.1 h
    have hinner : ∀ b' ∈ batchesIn b.2, ∀ s ∈ State.nodesList (statesIn b'.2), s.Scoped := by
      intro b' hb' s hs
      rw [batchesIn_eq] at hb'
      obtain ⟨t, ht, hbatch⟩ := List.mem_filterMap.1 hb'
      obtain ⟨-, rfl⟩ := batch?_eq_some_iff.1 hbatch
      rw [batchOf, nodesList_statesIn] at hs
      exact hb s (mem_nodesList_of_mem_inner ht hs)
    have hperm := ih (List.forall_mem_append.2 ⟨hinner, hbs⟩)
    rw [List.flatMap_append, List.filterMap_append] at hperm
    rw [batchesFrom, List.flatMap_cons, List.filterMap_append, List.cons_append]
    apply List.Perm.cons
    apply hperm.trans
    -- the batches in the first one come together with those in their states
    have hfirst := perm_filterMap_batch? hb
    rw [← batchesIn_eq] at hfirst
    apply (List.perm_append_comm.append_right _).trans
    rw [List.append_assoc, ← List.append_assoc (batchesIn b.2)]
    exact (hfirst.symm.append_right _).append_left _

/-- The batches of a diagram `d` are that of its outermost scope and those of its composite
states. -/
theorem perm_batches (h : ∀ s ∈ State.nodesList d.scope.states, s.Scoped) :
    (batchesFrom [(none, [(none, d.scope)])]).Perm
      ((none, [(none, d.scope)]) :: (composites d).map batchOf) := by
  have hstates : statesIn [(none, d.scope)] = d.scope.states := List.append_nil _
  have hscoped : ∀ b ∈ [((none, [(none, d.scope)]) : Batch)],
      ∀ s ∈ State.nodesList (statesIn b.2), s.Scoped := by
    rw [List.forall_mem_singleton, hstates]
    exact h
  have hperm := perm_batchesFrom hscoped
  rwa [List.flatMap_singleton, hstates, filterMap_batch?] at hperm

/-- What the batches of a diagram `d` bring is what its scopes bring, where empty scopes bring
nothing. -/
theorem perm_flatMap_ownedScopes (h : ∀ s ∈ State.nodesList d.scope.states, s.Scoped)
    {f : OwnedScope → List β} (hf : ∀ owner key, f ⟨owner, key, {}⟩ = []) :
    ((batchesFrom [(none, [(none, d.scope)])]).flatMap fun b => (ownedOf b).flatMap f).Perm
      ((ownedScopes d).flatMap f) := by
  have hcomposites : ∀ ss : List State, (∀ s ∈ ss, s.Scoped) →
      (((ss.filter State.isComposite).map batchOf).flatMap fun b => (ownedOf b).flatMap f) =
        (ss.flatMap fun s => ownedOf (batchOf s)).flatMap f := by
    intro ss hss
    induction ss with
    | nil => rfl
    | cons s ss ih =>
      obtain ⟨hs, hss⟩ := List.forall_mem_cons.1 hss
      rw [List.flatMap_cons, List.flatMap_append, ← ih hss]
      cases hcomposite : s.isComposite with
      | false =>
        -- the only scope of the state is empty
        have hscopes := map_snd_keyedScopes s
        rw [scopes_eq_of_scoped hs hcomposite] at hscopes
        obtain ⟨k, hk, hempty⟩ := List.map_eq_singleton_iff.1 hscopes
        have hnone : (ownedOf (batchOf s)).flatMap f = [] := by
          rw [ownedOf, batchOf, hk, List.map_singleton, List.flatMap_singleton, hempty]
          exact hf _ _
        rw [List.filter_cons_of_neg (by simp [hcomposite]), hnone, List.nil_append]
      | true => rw [List.filter_cons_of_pos hcomposite, List.map_cons, List.flatMap_cons]
  apply ((perm_batches h).flatMap_right _).trans
  rw [List.flatMap_cons, composites, hcomposites _ h, ownedScopes, List.flatMap_cons]
  apply List.Perm.of_eq
  congr 1
  exact List.append_nil _

/-! ### States with their holders -/

/-- A walk visits the states of the lists in its queue, and those of the lists that these states and
the states in them hold, each with its owner. -/
theorem perm_walk_groups (gs : List State.Group) : (State.walk gs).Perm
    ((gs ++ (gs.flatMap fun g => State.nodesList g.2).flatMap State.groups).flatMap fun g =>
      g.2.map fun s => (g.1, s)) := by
  induction gs using State.walk.induct with
  | case1 =>
    rw [State.walk]
    exact List.Perm.refl _
  | case2 holder states queue ih =>
    rw [State.walk, List.cons_append, List.flatMap_cons]
    apply (ih.append_left _).trans
    apply List.Perm.append_left
    apply List.Perm.flatMap_right
    -- the lists that the first states hold come before those in them
    have hstates := (State.perm_nodesList states).flatMap_right State.groups
    rw [List.flatMap_append] at hstates
    rw [List.flatMap_cons, List.flatMap_append, List.flatMap_append, List.flatMap_append,
      List.append_assoc]
    apply List.Perm.append_left
    apply List.Perm.trans _ (hstates.symm.append_right _)
    rw [List.append_assoc]
    apply List.Perm.append_left
    exact List.perm_append_comm

/-- The states in the scopes of a state `s` are those of the lists that it holds, so a walk by
scopes and a walk by lists meet the same states. -/
theorem flatMap_groups (f : Option State → State → β) (s : State) :
    (s.groups.flatMap fun g => g.2.map (f g.1)) =
      s.scopes.flatMap fun r => r.states.map (f (some s)) := by
  have hchildren : ((s.children.map fun ss => ((some s, ss) : State.Group)).toList.flatMap
      fun g => g.2.map (f g.1)) = s.ownScope.states.map (f (some s)) := by
    unfold State.ownScope
    cases s.children with
    | none => rfl
    | some ss => exact List.append_nil _
  rw [State.groups, State.scopes, List.flatMap_append, List.flatMap_cons, hchildren,
    List.flatMap_map]

/-- What `f` makes of the states in all scopes, each with the owner of its scope, is what it makes
of the states of `d.walk`, each with its holder. -/
theorem perm_map_walk (f : Option String → State → β) (d : StateDiagram) :
    ((ownedScopes d).flatMap fun y => y.scope.states.map (f y.owner)).Perm
      (d.walk.map fun p => f (p.1.map State.id) p.2) := by
  have howned : ∀ s : State,
      ((ownedOf (batchOf s)).flatMap fun y => y.scope.states.map (f y.owner)) =
        s.groups.flatMap fun g => g.2.map (f (g.1.map State.id)) := by
    intro s
    rw [flatMap_groups (fun holder => f (holder.map State.id)), ← map_snd_keyedScopes,
      ownedOf, List.flatMap_map, List.flatMap_map]
    rfl
  have hwalk := (perm_walk_groups [(none, d.scope.states)]).map
    fun p => f (p.1.map State.id) p.2
  rw [List.flatMap_singleton, List.singleton_append, List.flatMap_cons, List.map_append,
    List.map_map, List.map_flatMap, List.flatMap_assoc] at hwalk
  simp only [List.map_map] at hwalk
  rw [ownedScopes, List.flatMap_cons, List.flatMap_assoc]
  simp only [howned]
  exact hwalk.symm

end DiagramText.Graph
