import DiagramText.Proofs.Flowchart.Reader
import DiagramText.Proofs.Sequence.RoundTrip
import DiagramText.States.Basic
import Mathlib.Data.List.Perm.Basic

/-!
# Walks and listings

A walk keeps the lists that it has not finished, and takes its next statement from one of them. A
listing follows the tree instead: a statement, then the listings of what it holds. Here they are
compared, for trees of any shape.

* `Nesting.visit`: a walk with a stack of lists, of which the top one is taken from.
  `Nesting.visit_eq` says that a walk over one agenda does the same.
* `Sequence.Statement.listing`, `Flowchart.Statement.listing` and `States.State.listing`: the
  listings of statements and of states, each with its depth or with its holder.
* `Sequence.Placed.walk_all`, `SequenceDiagram.blockDepth_eq`, `Flowchart.Statement.walk_eq` and
  `States.State.walk_perm`: the walks are these listings, that of states up to order.
* `States.State.prefix_of_walk`: in what order the states are walked instead.
* `walk_eq_listing`: all of this, for all diagrams that are walked.
-/

namespace DiagramText

/-! ### Stacks of lists -/

/-- How the things of a kind hold others, with a size that shows how deep this can go. -/
structure Nesting (α : Type) where
  /-- What a thing holds, unless it is of a sort that holds nothing. -/
  inner : α → Option (List α)
  size : α → Nat
  size_inner : ∀ a, (((inner a).getD []).map size).sum < size a

namespace Nesting

variable {α : Type} (n : Nesting α)

/-- All that lies on a stack of lists, each thing before what it holds. A list that is used up is
taken off, and what a thing holds is put on as a list of its own. -/
def visit : List (List α) → List α
  | [] => []
  | [] :: stack => visit stack
  | (a :: as) :: stack => a :: visit ((n.inner a).toList ++ as :: stack)
termination_by stack => 2 * (stack.flatten.map n.size).sum + stack.length
decreasing_by
  · simp
  · have := n.size_inner a
    cases h : n.inner a with
    | none => simp [h] at *; omega
    | some bs => simp [h] at *; omega

/-- A walk over one agenda, into which what a thing holds is put first, is one over a stack whose
lists are joined. -/
theorem visit_eq {walk : List α → List α} (hnil : walk [] = [])
    (hcons : ∀ a as, walk (a :: as) = a :: walk ((n.inner a).getD [] ++ as))
    (stack : List (List α)) : n.visit stack = walk stack.flatten := by
  induction stack using Nesting.visit.induct n with
  | case1 => rw [visit, List.flatten_nil, hnil]
  | case2 stack ih => rw [visit, ih, List.flatten_cons, List.nil_append]
  | case3 a as stack ih =>
    rw [visit, ih, List.flatten_cons, List.cons_append, hcons, List.flatten_append,
      List.flatten_cons]
    cases n.inner a with
    | none => rfl
    | some bs => simp

end Nesting

/-! ### Sequence diagrams -/

namespace Sequence

variable {depth : Nat} {ss ts : List Statement}

namespace Statement

mutual

/-- A statement and all that it holds, each with the number of blocks around it: a block, then its
body, then the bodies of its branches. -/
def listing (depth : Nat) : Statement → List Placed
  | .clause c => [(depth, .clause c)]
  | .block head body branches =>
    (depth, .block head body branches) ::
      (listingList (depth + 1) body ++ listingBranches (depth + 1) branches)

/-- The listings of statements, one after the other. -/
def listingList (depth : Nat) : List Statement → List Placed
  | [] => []
  | s :: ss => s.listing depth ++ listingList depth ss

/-- The listings of the statements of branches. -/
def listingBranches (depth : Nat) : List (Branch Statement) → List Placed
  | [] => []
  | ⟨_, body⟩ :: bs => listingList depth body ++ listingBranches depth bs

end

mutual

/-- The largest number of blocks that lie one in another, a statement itself included. A clause has
none. -/
def nesting : Statement → Nat
  | .clause _ => 0
  | .block _ body branches => max (nestingList body) (nestingBranches branches) + 1

/-- The largest number of blocks that lie one in another in statements. -/
def nestingList : List Statement → Nat
  | [] => 0
  | s :: ss => max s.nesting (nestingList ss)

/-- The largest number of blocks that lie one in another in the statements of branches. -/
def nestingBranches : List (Branch Statement) → Nat
  | [] => 0
  | ⟨_, body⟩ :: bs => max (nestingList body) (nestingBranches bs)

end

theorem listingList_append (depth : Nat) (ss ts : List Statement) :
    listingList depth (ss ++ ts) = listingList depth ss ++ listingList depth ts := by
  induction ss with
  | nil => rfl
  | cons s ss ih => rw [List.cons_append, listingList, listingList, ih, List.append_assoc]

theorem listingBranches_eq (depth : Nat) (bs : List (Branch Statement)) :
    listingBranches depth bs = listingList depth (bs.flatMap Branch.statements) := by
  induction bs with
  | nil => rfl
  | cons b bs ih => rw [listingBranches, ih, List.flatMap_cons, listingList_append]

theorem listing_eq (depth : Nat) (s : Statement) :
    s.listing depth = (depth, s) :: listingList (depth + 1) s.contents := by
  cases s with
  | clause c => rfl
  | block head body branches =>
    rw [listing, listingBranches_eq, ← listingList_append]
    rfl

theorem sizeList_eq_sum (ss : List Statement) : sizeList ss = (ss.map size).sum := by
  induction ss with
  | nil => rfl
  | cons s ss ih => rw [sizeList, ih, List.map_cons, List.sum_cons]

end Statement

namespace Placed

/-- Only a block holds statements, and those of its branches follow its body. -/
def nesting : Nesting Placed where
  inner p := if p.2.isBlock then some p.contents else none
  size p := p.2.size
  size_inner p := by
    have hlt := size_contents_lt p
    rw [size, Statement.sizeList_eq_sum, List.map_map] at hlt
    split
    · exact hlt
    · exact Nat.zero_lt_of_lt hlt

theorem getD_inner (p : Placed) : (nesting.inner p).getD [] = p.contents := by
  obtain ⟨depth, s⟩ := p
  cases s <;> rfl

theorem visit_eq_walk (ps : List Placed) : nesting.visit [ps] = walk ps := by
  rw [nesting.visit_eq walk.eq_1, List.flatten_singleton]
  intro p ps
  rw [walk, getD_inner]

/-- The listings of all statements of an agenda, each at its own depth. -/
def listings (ps : List Placed) : List Placed := ps.flatMap fun p => p.2.listing p.1

theorem listings_all (depth : Nat) (ss : List Statement) :
    listings (all depth ss) = Statement.listingList depth ss := by
  induction ss with
  | nil => rfl
  | cons s ss ih => exact congrArg (s.listing depth ++ ·) ih

/-- An agenda is walked by listing its statements, whatever their depths are. -/
theorem walk_eq_listings (ps : List Placed) : walk ps = listings ps := by
  induction ps using walk.induct with
  | case1 => rw [walk]; rfl
  | case2 p ps ih =>
    have hcontents : listings p.contents = Statement.listingList (p.1 + 1) p.2.contents :=
      listings_all _ _
    rw [walk, ih, listings, List.flatMap_append, ← listings, hcontents, listings,
      List.flatMap_cons, Statement.listing_eq, List.cons_append]

theorem walk_all (depth : Nat) (ss : List Statement) :
    walk (all depth ss) = Statement.listingList depth ss := by
  rw [walk_eq_listings, listings_all]

/-! ### Depth -/

/-- The largest number of blocks around the contents of a block, or `0` without a block. -/
def deepest (ps : List Placed) : Nat := ((ps.filter (·.2.isBlock)).map (·.1 + 1)).foldl max 0

theorem deepest_append (ps qs : List Placed) :
    deepest (ps ++ qs) = max (deepest ps) (deepest qs) := by
  rw [deepest, List.filter_append, List.map_append, List.foldl_append, deepest, deepest]
  generalize List.foldl max 0 _ = m
  rw [← @List.foldl_assoc _ max _ _ m 0, Nat.max_zero]

theorem deepest_cons (p : Placed) (ps : List Placed) :
    deepest (p :: ps) = if p.2.isBlock then max (p.1 + 1) (deepest ps) else deepest ps := by
  have happend := deepest_append [p] ps
  rw [List.singleton_append] at happend
  rw [happend, deepest, List.filter_singleton]
  cases p.2.isBlock with
  | false => exact Nat.zero_max _
  | true => exact congrArg (max · _) (Nat.zero_max _)

end Placed

namespace Statement

open Placed

mutual

/-- The blocks of a statement lie as deep as they are nested, below the blocks around it, of which
there are `depth`. -/
theorem deepest_listing (depth : Nat) : ∀ s : Statement,
    deepest (s.listing depth) = if s.nesting = 0 then 0 else depth + s.nesting
  | .clause _ => rfl
  | .block _ body branches => by
    rw [listing, deepest_cons, deepest_append, deepest_listingList, deepest_listingBranches,
      nesting]
    simp only [isBlock, if_true]
    split <;> split <;> split <;> omega

theorem deepest_listingList (depth : Nat) : ∀ ss : List Statement,
    deepest (listingList depth ss) = if nestingList ss = 0 then 0 else depth + nestingList ss
  | [] => rfl
  | s :: ss => by
    rw [listingList, deepest_append, deepest_listing, deepest_listingList, nestingList]
    split <;> split <;> split <;> omega

theorem deepest_listingBranches (depth : Nat) : ∀ bs : List (Branch Statement),
    deepest (listingBranches depth bs) =
      if nestingBranches bs = 0 then 0 else depth + nestingBranches bs
  | [] => rfl
  | ⟨_, body⟩ :: bs => by
    rw [listingBranches, deepest_append, deepest_listingList, deepest_listingBranches,
      nestingBranches]
    split <;> split <;> split <;> omega

end

end Statement

end Sequence

namespace SequenceDiagram

open Sequence

/-- The depth of a diagram is the largest number of blocks that lie one in another, as `nesting`
counts it. -/
theorem blockDepth_eq (d : SequenceDiagram) :
    d.blockDepth = Statement.nestingList d.statements := by
  have hdeepest := Statement.deepest_listingList 0 d.statements
  rw [← Placed.walk_all] at hdeepest
  show Placed.deepest (Placed.walk (Placed.all 0 d.statements)) = _
  rw [hdeepest]
  split <;> omega

end SequenceDiagram

/-! ### Flowcharts -/

namespace Flowchart.Statement

mutual

/-- A statement and all that it holds, each with the number of subgraphs around it: a subgraph, then
its body. -/
def listing (depth : Nat) : Statement → List (Nat × Statement)
  | .clause c => [(depth, .clause c)]
  | .subgraph head body => (depth, .subgraph head body) :: listingList (depth + 1) body

/-- The listings of statements, one after the other. -/
def listingList (depth : Nat) : List Statement → List (Nat × Statement)
  | [] => []
  | s :: ss => s.listing depth ++ listingList depth ss

end

theorem listing_eq (depth : Nat) (s : Statement) :
    s.listing depth = (depth, s) :: listingList (depth + 1) s.body := by
  cases s <;> rfl

mutual

/-- A walk over statements lists them, at whatever depth they are, since a flowchart is walked
without depths. -/
theorem walk_singleton_eq (depth : Nat) : ∀ s : Statement,
    walk [s] = (s.listing depth).map Prod.snd
  | .clause c => by
    rw [walk_singleton, body, walk]
    rfl
  | .subgraph head body => by
    rw [walk_singleton, listing, List.map_cons, Statement.body, walk_eq (depth + 1) body]

theorem walk_eq (depth : Nat) : ∀ ss : List Statement,
    walk ss = (listingList depth ss).map Prod.snd
  | [] => by
    rw [walk]
    rfl
  | s :: ss => by
    rw [walk_cons, listingList, List.map_append, walk_singleton_eq depth s, walk_eq depth ss]

end

theorem sizeList_eq_sum (ss : List Statement) : sizeList ss = (ss.map size).sum := by
  induction ss with
  | nil => rfl
  | cons s ss ih => rw [sizeList, ih, List.map_cons, List.sum_cons]

/-- Only a subgraph holds statements, those of its body. -/
def nesting : Nesting Statement where
  inner
    | .clause _ => none
    | .subgraph _ body => some body
  size := size
  size_inner s := by
    cases s with
    | clause c => exact Nat.zero_lt_one
    | subgraph head body =>
      rw [Option.getD_some, ← sizeList_eq_sum, size]
      exact Nat.lt_one_add_iff.2 (Nat.le_refl _)

theorem getD_inner (s : Statement) : (nesting.inner s).getD [] = s.body := by
  cases s <;> rfl

theorem visit_eq_walk (ss : List Statement) : nesting.visit [ss] = walk ss := by
  rw [nesting.visit_eq walk.eq_1, List.flatten_singleton]
  intro s ss
  rw [walk, getD_inner]

end Flowchart.Statement

/-! ### State diagrams -/

namespace States.State

variable {μ : Type}

mutual

/-- A state and all states in its scopes, each with a mark: a state, then those in its first region,
then those in the others. The mark of a state gives that of the states that it holds. -/
def listing (inner : μ → State → μ) (mark : μ) : State → List (μ × State)
  | ⟨id, label, kind, children, transitions, notes, direction, regions, position⟩ =>
    (mark, ⟨id, label, kind, children, transitions, notes, direction, regions, position⟩) ::
      (listingChildren inner (inner mark
          ⟨id, label, kind, children, transitions, notes, direction, regions, position⟩) children ++
        listingScopes inner (inner mark
          ⟨id, label, kind, children, transitions, notes, direction, regions, position⟩) regions)

/-- The listings of children. -/
def listingChildren (inner : μ → State → μ) (mark : μ) : Option (List State) → List (μ × State)
  | none => []
  | some ss => listingList inner mark ss

/-- The listings of states, one after the other. -/
def listingList (inner : μ → State → μ) (mark : μ) : List State → List (μ × State)
  | [] => []
  | s :: ss => s.listing inner mark ++ listingList inner mark ss

/-- The listings of the states of scopes. -/
def listingScopes (inner : μ → State → μ) (mark : μ) : List (Scope State) → List (μ × State)
  | [] => []
  | ⟨states, _, _⟩ :: rs => listingList inner mark states ++ listingScopes inner mark rs

end

/-- The states that the lists of a queue have, each with the state that holds it, and none of those
below them. -/
def held (gs : List Group) : List (Option State × State) :=
  gs.flatMap fun g => g.2.map fun s => (g.1, s)

/-- The listings of the states that the lists of a queue have, one after the other. -/
def listings (gs : List Group) : List (Option State × State) :=
  gs.flatMap fun g => listingList (fun _ s => some s) g.1 g.2

theorem listing_eq (inner : μ → State → μ) (mark : μ) (s : State) :
    s.listing inner mark = (mark, s) ::
      s.groups.flatMap fun g => listingList inner (inner mark s) g.2 := by
  have hregions : ∀ rs : List (Scope State),
      ((rs.map fun r => ((some s, r.states) : Group)).flatMap fun g =>
        listingList inner (inner mark s) g.2) = listingScopes inner (inner mark s) rs := by
    intro rs
    induction rs with
    | nil => rfl
    | cons r rs ih => rw [List.map_cons, List.flatMap_cons, ih, listingScopes]
  rw [groups, List.flatMap_append, hregions]
  obtain ⟨id, label, kind, children, transitions, notes, direction, regions, position⟩ := s
  rw [listing]
  cases children with
  | none => rfl
  | some ss => simp [listingChildren]

theorem listingList_eq (inner : μ → State → μ) (mark : μ) (ss : List State) :
    listingList inner mark ss = ss.flatMap (listing inner mark) := by
  induction ss with
  | nil => rfl
  | cons s ss ih => rw [listingList, ih, List.flatMap_cons]

theorem holder_of_mem_groups {s : State} {g : Group} (h : g ∈ s.groups) : g.1 = some s := by
  simp only [groups, List.mem_append, Option.mem_toList, Option.map_eq_some_iff, List.mem_map] at h
  obtain ⟨ss, -, rfl⟩ | ⟨r, -, rfl⟩ := h <;> rfl

/-- The listing of states `ss` is the states themselves and the listings of what they hold, in
another order. -/
theorem listingList_perm (holder : Option State) (ss : List State) :
    (listingList (fun _ s => some s) holder ss).Perm
      (ss.map (fun s => (holder, s)) ++ listings (groupsOf ss)) := by
  have hlisting : ∀ s : State, s.listing (fun _ t => some t) holder =
      (holder, s) :: listings s.groups := by
    intro s
    rw [listing_eq, listings]
    congr 1
    apply List.flatMap_congr
    intro g hg
    rw [holder_of_mem_groups hg]
  have hgroups : listings (groupsOf ss) = ss.flatMap fun s => listings s.groups :=
    List.flatMap_assoc
  rw [listingList_eq, hgroups, funext hlisting]
  exact (List.map_append_flatMap_perm ss _ _).symm

/-- A walk visits the states of the lists in its queue as their listings do, in another order, and
each once. -/
theorem walk_perm (gs : List Group) : (walk gs).Perm (listings gs) := by
  -- a list has its states visited at once, and those that they hold after the rest of the queue
  induction gs using walk.induct with
  | case1 =>
    rw [walk]
    exact List.Perm.refl _
  | case2 holder states queue ih =>
    have hqueue : listings (queue ++ groupsOf states) =
        listings queue ++ listings (groupsOf states) := List.flatMap_append
    rw [walk]
    calc states.map (fun s => (holder, s)) ++ walk (queue ++ groupsOf states)
      _ |>.Perm (states.map (fun s => (holder, s)) ++
            (listings queue ++ listings (groupsOf states))) := (hqueue ▸ ih).append_left _
      _ |>.Perm (states.map (fun s => (holder, s)) ++
            (listings (groupsOf states) ++ listings queue)) :=
          List.perm_append_comm.append_left _
      _ |>.Perm (listingList (fun _ s => some s) holder states ++ listings queue) := by
          rw [← List.append_assoc]
          exact (listingList_perm holder states).symm.append_right _

/-- The states up to any of a walk are, in this order, those that the lists in its queue have and
those that the states before it hold. -/
theorem prefix_of_walk (gs : List Group) : ∀ {before after : List (Option State × State)}
    {p : Option State × State}, walk gs = before ++ p :: after →
      before ++ [p] <+: held gs ++ before.flatMap fun q => held q.2.groups := by
  induction gs using walk.induct with
  | case1 =>
    intro before after p h
    rw [walk] at h
    exact absurd h.symm (by simp)
  | case2 holder states queue ih =>
    intro before after p h
    have hfirst : held ((holder, states) :: queue) =
        states.map (fun s => (holder, s)) ++ held queue := List.flatMap_cons
    have hgroups : ((states.map fun s => (holder, s)).flatMap fun q => held q.2.groups) =
        held (groupsOf states) := by
      rw [List.flatMap_map]
      exact List.flatMap_assoc.symm
    have hqueue : held (queue ++ groupsOf states) = held queue ++ held (groupsOf states) :=
      List.flatMap_append
    rw [walk] at h
    rw [hfirst]
    generalize states.map (fun s => (holder, s)) = first at h hgroups ⊢
    -- the place is among the states of the first list, or behind all of them
    rcases Nat.lt_or_ge before.length first.length with hlt | hge
    · have hsplit : before ++ [p] <+: first ++ walk (queue ++ groupsOf states) :=
        ⟨after, by rw [h, List.append_assoc]; rfl⟩
      have hlength : (before ++ [p]).length ≤ first.length := by
        rw [List.length_append]
        exact hlt
      have hwithin : before ++ [p] <+: first :=
        List.prefix_of_prefix_length_le hsplit (List.prefix_append _ _) hlength
      rw [List.append_assoc]
      exact hwithin.trans (List.prefix_append _ _)
    · have hbefore : before <+: first ++ walk (queue ++ groupsOf states) := ⟨p :: after, h.symm⟩
      obtain ⟨rest, rfl⟩ : first <+: before :=
        List.prefix_of_prefix_length_le (List.prefix_append _ _) hbefore hge
      rw [List.append_assoc, List.append_cancel_left_eq] at h
      have hrest := ih h
      rw [hqueue, List.append_assoc] at hrest
      rw [List.flatMap_append, hgroups, List.append_assoc, List.append_assoc]
      exact (List.prefix_append_right_inj _).2 hrest

end States.State

namespace StateDiagram

open States

variable {d : StateDiagram} {before after : List (Option State × State)}
  {p : Option State × State} {s : State}

/-- A state is walked after the state that holds it, which is somewhere before it. -/
theorem holder_mem_of_walk (h : d.walk = before ++ p :: after) (hp : p.1 = some s) :
    ∃ q ∈ before, q.2 = s := by
  have hprefix := State.prefix_of_walk _ h
  rw [State.held, List.flatMap_singleton] at hprefix
  have hmem := hprefix.subset (List.mem_append_right before List.mem_cons_self)
  rcases List.mem_append.1 hmem with houter | hheld
  · obtain ⟨t, -, rfl⟩ := List.mem_map.1 houter
    cases hp
  · obtain ⟨q, hq, hin⟩ := List.mem_flatMap.1 hheld
    obtain ⟨g, hg, hin⟩ := List.mem_flatMap.1 hin
    obtain ⟨t, -, rfl⟩ := List.mem_map.1 hin
    exact ⟨q, hq, Option.some.inj ((State.holder_of_mem_groups hg).symm.trans hp)⟩

end StateDiagram

/-! ### All walks -/

/-- A walk over a sequence diagram `q` or a flowchart, with a stack of lists or with one agenda,
lists each statement before what it holds, and the depth of blocks is the largest number of them
that lie one in another. A walk over a state diagram has each state of the listing once, with the
state that holds it: first the outermost states, then those that the states before hold, in this
order, so that no state comes before its holder. -/
theorem walk_eq_listing (q : SequenceDiagram) (ss : List Flowchart.Statement) (d : StateDiagram) :
    (Sequence.Placed.nesting.visit [Sequence.Placed.all 0 q.statements] = q.walk ∧
      q.walk = Sequence.Statement.listingList 0 q.statements ∧
      q.blockDepth = Sequence.Statement.nestingList q.statements) ∧
    (Flowchart.Statement.nesting.visit [ss] = Flowchart.Statement.walk ss ∧
      Flowchart.Statement.walk ss = (Flowchart.Statement.listingList 0 ss).map Prod.snd) ∧
    d.walk.Perm (States.State.listingList (fun _ s => some s) none d.scope.states) ∧
      ∀ before p after, d.walk = before ++ p :: after →
        before ++ [p] <+: d.scope.states.map (fun s => (none, s)) ++
          before.flatMap (fun r => States.State.held r.2.groups) ∧
        ∀ s, p.1 = some s → ∃ r ∈ before, r.2 = s := by
  refine ⟨⟨?_, Sequence.Placed.walk_all 0 q.statements, q.blockDepth_eq⟩,
    ⟨?_, Flowchart.Statement.walk_eq 0 ss⟩, ?_, fun before p after h => ⟨?_, fun s hp => ?_⟩⟩
  · exact Sequence.Placed.visit_eq_walk _
  · exact Flowchart.Statement.visit_eq_walk _
  · have hperm := States.State.walk_perm [(none, d.scope.states)]
    rwa [States.State.listings, List.flatMap_singleton] at hperm
  · have hprefix := States.State.prefix_of_walk _ h
    rwa [States.State.held, List.flatMap_singleton] at hprefix
  · exact StateDiagram.holder_mem_of_walk h hp

end DiagramText
