/-!
# Directed graphs

A directed graph without parallel arcs, its nodes and arcs in the order in which they were added,
and the search for a cycle. The search follows arcs depth first from each node in turn and keeps
the path it is on; a cycle is found when an arc leads back to a node of that path.
-/

namespace DiagramText

/-- An arc from the first node to the second. -/
abbrev Arc := String × String

/-- `nodes` and the `arcs` between them, each once, in the order in which they were added. -/
structure Digraph where
  nodes : List String := []
  arcs : List Arc := []
deriving DecidableEq, Repr

namespace Digraph

/-! ### Building -/

/-- The graph with a node `n`, which is added behind all others if it is new. -/
def addNode (g : Digraph) (n : String) : Digraph :=
  if g.nodes.contains n then g else { g with nodes := g.nodes ++ [n] }

/-- The graph `g` with an arc from `source` to `target` and these nodes, which are added if they are
new. Parallel arcs are one. -/
def addArc (g : Digraph) (source target : String) : Digraph :=
  let g := (g.addNode source).addNode target
  if g.arcs.contains (source, target) then g else { g with arcs := g.arcs ++ [(source, target)] }

theorem arcs_addNode (g : Digraph) (n : String) : (g.addNode n).arcs = g.arcs := by
  unfold addNode
  split <;> rfl

theorem mem_nodes_addNode {g : Digraph} {n m : String} :
    m ∈ (g.addNode n).nodes ↔ m ∈ g.nodes ∨ m = n := by
  unfold addNode
  split
  · next h =>
    rw [List.contains_iff_mem] at h
    constructor
    · exact .inl
    · rintro (hm | rfl)
      · exact hm
      · exact h
  · rw [List.mem_append, List.mem_singleton]

/-- The arcs of the graph `g` by source, the sources in the order of the nodes. A search follows
arcs in this order. -/
def arcsBySource (g : Digraph) : List Arc :=
  g.nodes.flatMap fun n => g.arcs.filter (·.1 == n)

/-! ### The path of a search -/

/-- What a search from one node knows: the arcs of the `path` it is on, the latest first, the
`active` nodes of that path, all nodes it has `seen`, and the head of the last arc it followed. -/
structure Trail where
  path : List Arc
  active : List String
  seen : List String
  lastHead : Option String
deriving DecidableEq, Repr

namespace Trail

/-- The trail of a search that starts at `n` and has followed no arc. -/
def start (n : String) : Trail := ⟨[], [n], [n], none⟩

/-- The path cut back to its last arc into `n`, and the nodes of what is left. Without such an arc
nothing is left but the node. -/
def cutBack (n : String) : List Arc → List String → List Arc × List String
  | (_, head) :: (source, last) :: path, active =>
    if last = n then ((source, last) :: path, active.erase head)
    else cutBack n ((source, last) :: path) (active.erase head)
  | _, _ => ([], [n])

/-- The trail made ready for an arc out of `n`: where the search has turned back, the path is cut
back to that node. -/
def backTo (t : Trail) (n : String) : Trail :=
  if t.lastHead.all (· == n) then t
  else
    let (path, active) := cutBack n t.path t.active
    { t with path, active }

/-- The nodes of the cycle that closes at `n`, given the path with its latest arc first. -/
def cycleAt (n : String) (path : List Arc) : List String :=
  (path.reverse.dropWhile (·.1 != n)).map Prod.fst

/-- Follows an arc: gives the cycle that it closes if its head is `active`, or the longer trail. -/
def follow (t : Trail) (arc : Arc) : List String ⊕ Trail :=
  let t := t.backTo arc.1
  let path := arc :: t.path
  if t.active.contains arc.2 then .inl (cycleAt arc.2 path)
  else .inr ⟨path, arc.2 :: t.active, arc.2 :: t.seen, some arc.2⟩

end Trail

/-! ### The search -/

/-- Searches depth first over the arcs that are not used yet, from the top of a `stack` of nodes. An
arc into an `explored` node is used up without a look at it. Gives the first cycle, or all nodes
that were come to. -/
def searchFrom (explored : List String) (stack : List String) (unused : List Arc) (t : Trail) :
    List String ⊕ List String :=
  match stack with
  | [] => .inr t.seen
  | n :: below =>
    match _found : unused.find? (·.1 == n) with
    | none => searchFrom explored below unused t
    | some arc =>
      if explored.contains arc.2 then
        searchFrom explored (arc.2 :: n :: below) (unused.erase arc) t
      else match t.follow arc with
        | .inl cycle => .inl cycle
        | .inr t => searchFrom explored (arc.2 :: n :: below) (unused.erase arc) t
termination_by 2 * unused.length + stack.length
decreasing_by
  · simp
  all_goals
    have := List.length_erase_of_mem (List.mem_of_find?_eq_some _found)
    have := List.length_pos_of_mem (List.mem_of_find?_eq_some _found)
    simp only [List.length_cons]
    omega

/-- Searches from each of the nodes that is not `explored` yet, so that a later search does not
repeat an earlier one. -/
def searchAll (g : Digraph) : List String → List String → Option (List String)
  | [], _ => none
  | n :: ns, explored =>
    if explored.contains n then searchAll g ns explored
    else match searchFrom explored [n] g.arcs (.start n) with
      | .inl cycle => some cycle
      | .inr seen => searchAll g ns (seen ++ explored)

/-- The nodes of a cycle in order, if there is a cycle, from the searches of `searchAll`. -/
def cycle? (g : Digraph) : Option (List String) := searchAll g g.nodes []

end Digraph
end DiagramText
