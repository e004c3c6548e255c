import DiagramText.Content
import DiagramText.Direction
import DiagramText.Position

/-!
# State diagrams

A state diagram is a scope: states, the transitions between them, and notes about them. A composite
state has a scope of its own, and further scopes for its other concurrent regions. The start and
the end of a scope are pseudostates, which have ids but are no states.
-/

namespace DiagramText

namespace States

/-- The id of the pseudostate where a scope starts, used only as a source. It is written `[*]`, like
`endId`. -/
def startId : String := "[*]_start"

/-- The id of the pseudostate where a scope ends, used only as a target. -/
def endId : String := "[*]_end"

/-- Whether an id is that of a pseudostate, `startId` or `endId`. -/
def isPseudostate (id : String) : Bool := id == startId || id == endId

/-- What a state is drawn as. `simple` is what a state is unless it says otherwise. -/
inductive StateKind where
  | simple
  | choice
  | fork
  | join
deriving DecidableEq, Repr

namespace StateKind

/-- The word for a kind between double angle brackets, where `simple` is never written. -/
def text : StateKind → String
  | simple => "simple"
  | choice => "choice"
  | fork => "fork"
  | join => "join"

/-- The kind that a word in lower case gives to a state, if it gives one. -/
def ofText? : String → Option StateKind
  | "choice" => some choice
  | "fork" => some fork
  | "join" => some join
  | _ => none

end StateKind

/-- A transition between two states or pseudostates, which are given by their ids. -/
structure Transition where
  source : String
  target : String
  label : Option Content := none
  position : Option Position := none
deriving DecidableEq, Repr

/-- A note about a state. It has no position. -/
structure Note where
  state : String
  placement : NotePlacement
  text : Content
deriving DecidableEq, Repr

/-- States with the `transitions` between them and the `notes` about them. -/
structure Scope (σ : Type) where
  states : List σ := []
  transitions : List Transition := []
  notes : List Note := []
deriving DecidableEq, Repr

/-- A state. It is composite if it has children; with its transitions and notes they are its first
region, and `regions` holds the other ones. -/
structure State where
  id : String
  label : Option Content := none
  kind : StateKind := .simple
  children : Option (List State) := none
  transitions : List Transition := []
  notes : List Note := []
  direction : Option Direction := none
  regions : List (Scope State) := []
  position : Option Position := none
deriving Repr

/-- The two generations of the notation, which differ in the header only. -/
inductive Version where
  | v1
  | v2
deriving DecidableEq, Repr

end States

/-- A state diagram with its version, its direction and its outermost scope. -/
structure StateDiagram where
  version : States.Version := .v2
  direction : Option Direction := none
  scope : States.Scope States.State := {}

namespace States

/-! ### Equality -/

namespace State

mutual

/-- Equality of states is decided part by part, together with the three definitions below. -/
def decEq : (s t : State) → Decidable (s = t)
  | ⟨i, l, k, c, ts, ns, d, r, p⟩, ⟨i', l', k', c', ts', ns', d', r', p'⟩ =>
    have := decEqChildren c c'
    have := decEqScopes r r'
    decidable_of_iff (i = i' ∧ l = l' ∧ k = k' ∧ c = c' ∧ ts = ts' ∧ ns = ns' ∧ d = d' ∧ r = r' ∧
      p = p') (by simp)

/-- Equality of children is decided one by one, if there are any. -/
def decEqChildren : (c d : Option (List State)) → Decidable (c = d)
  | none, none => isTrue rfl
  | none, some _ => isFalse (by simp)
  | some _, none => isFalse (by simp)
  | some ss, some ts =>
    have := decEqList ss ts
    decidable_of_iff (ss = ts) (by simp)

/-- Equality of lists of states is decided one by one. -/
def decEqList : (ss ts : List State) → Decidable (ss = ts)
  | [], [] => isTrue rfl
  | [], _ :: _ => isFalse (by simp)
  | _ :: _, [] => isFalse (by simp)
  | s :: ss, t :: ts =>
    have := decEq s t
    have := decEqList ss ts
    decidable_of_iff (s = t ∧ ss = ts) (by simp)

/-- Equality of lists of scopes is decided one by one, by states, transitions and notes. -/
def decEqScopes : (rs qs : List (Scope State)) → Decidable (rs = qs)
  | [], [] => isTrue rfl
  | [], _ :: _ => isFalse (by simp)
  | _ :: _, [] => isFalse (by simp)
  | ⟨ss, t, n⟩ :: rs, ⟨ss', t', n'⟩ :: qs =>
    have := decEqList ss ss'
    have := decEqScopes rs qs
    decidable_of_iff (ss = ss' ∧ t = t' ∧ n = n' ∧ rs = qs) (by simp [and_assoc])

end

instance : DecidableEq State := decEq

end State

end States

deriving instance DecidableEq for StateDiagram

namespace States

/-! ### States without positions -/

/-- A transition `t` without its position. -/
def Transition.unplaced (t : Transition) : Transition := { t with position := none }

namespace State

mutual

/-- A state without positions, those of all its scopes included. -/
def unplaced : State → State
  | ⟨id, label, kind, children, transitions, notes, direction, regions, _⟩ =>
    ⟨id, label, kind, unplacedChildren children, transitions.map Transition.unplaced, notes,
      direction, unplacedScopes regions, none⟩

/-- Children without positions, if there are any. -/
def unplacedChildren : Option (List State) → Option (List State)
  | none => none
  | some ss => some (unplacedList ss)

/-- States without positions. -/
def unplacedList : List State → List State
  | [] => []
  | s :: ss => s.unplaced :: unplacedList ss

/-- Scopes without positions. Notes have none. -/
def unplacedScopes : List (Scope State) → List (Scope State)
  | [] => []
  | ⟨states, transitions, notes⟩ :: rs =>
    ⟨unplacedList states, transitions.map Transition.unplaced, notes⟩ :: unplacedScopes rs

end

/-! ### Looking and changing -/

/-- Whether a state `s` has a scope of its own, which may be empty. -/
def isComposite (s : State) : Bool := s.children.isSome

/-- The first region of a state `s`, which is empty if the state is not composite. -/
def ownScope (s : State) : Scope State := ⟨s.children.getD [], s.transitions, s.notes⟩

mutual

/-- The state with an `id`: this one, or one in its scopes. The first in the order of the tree
counts. -/
def find? (id : String) : State → Option State
  | ⟨i, label, kind, children, transitions, notes, direction, regions, position⟩ =>
    if i = id then
      some ⟨i, label, kind, children, transitions, notes, direction, regions, position⟩
    else (findChildren? id children).or (findScopes? id regions)

/-- The state with an `id` among children. -/
def findChildren? (id : String) : Option (List State) → Option State
  | none => none
  | some ss => findList? id ss

/-- The state with an `id` in a list of states. -/
def findList? (id : String) : List State → Option State
  | [] => none
  | s :: ss => (s.find? id).or (findList? id ss)

/-- The state with an `id` in a list of scopes. -/
def findScopes? (id : String) : List (Scope State) → Option State
  | [] => none
  | ⟨states, _, _⟩ :: rs => (findList? id states).or (findScopes? id rs)

end

mutual

/-- Changes the state with an `id` by `f`: this one, or those in its scopes. Below a state that is
changed nothing else is. -/
def modify (id : String) (f : State → State) : State → State
  | ⟨i, label, kind, children, transitions, notes, direction, regions, position⟩ =>
    if i = id then
      f ⟨i, label, kind, children, transitions, notes, direction, regions, position⟩
    else
      ⟨i, label, kind, modifyChildren id f children, transitions, notes, direction,
        modifyScopes id f regions, position⟩

/-- Changes the state with an `id` among children. -/
def modifyChildren (id : String) (f : State → State) : Option (List State) → Option (List State)
  | none => none
  | some ss => some (modifyList id f ss)

/-- Changes the state with an `id` in a list of states. -/
def modifyList (id : String) (f : State → State) : List State → List State
  | [] => []
  | s :: ss => s.modify id f :: modifyList id f ss

/-- Changes the state with an `id` in a list of scopes. -/
def modifyScopes (id : String) (f : State → State) : List (Scope State) → List (Scope State)
  | [] => []
  | ⟨states, transitions, notes⟩ :: rs =>
    ⟨modifyList id f states, transitions, notes⟩ :: modifyScopes id f rs

end

/-! ### Walking -/

mutual

/-- The number of states and scopes in a state, itself included. It bounds walks and writing. -/
def size : State → Nat
  | ⟨_, _, _, children, _, _, _, regions, _⟩ => 1 + sizeChildren children + sizeScopes regions

/-- The number of states and scopes in children, the first region included if there is one. -/
def sizeChildren : Option (List State) → Nat
  | none => 0
  | some ss => 1 + sizeList ss

/-- The number of states in a list, at any depth, and of their scopes. -/
def sizeList : List State → Nat
  | [] => 0
  | s :: ss => s.size + sizeList ss

/-- The number of scopes in a list and of states in them, at any depth. -/
def sizeScopes : List (Scope State) → Nat
  | [] => 0
  | ⟨states, _, _⟩ :: rs => 1 + sizeList states + sizeScopes rs

end

/-- A list of states with the state that holds them, if any. A walk goes over a queue of such
groups. -/
abbrev Group := Option State × List State

/-- The lists of states that a state `s` holds, each with the state itself. -/
def groups (s : State) : List Group :=
  (s.children.map fun ss => (some s, ss)).toList ++ s.regions.map fun r => (some s, r.states)

/-- The lists of states that the states of `ss` hold. -/
def groupsOf (ss : List State) : List Group := ss.flatMap groups

/-- The number of lists in a queue and of states in them, at any depth. -/
def sizeGroups : List Group → Nat
  | [] => 0
  | (_, ss) :: gs => 1 + sizeList ss + sizeGroups gs

theorem sizeGroups_append (gs hs : List Group) :
    sizeGroups (gs ++ hs) = sizeGroups gs + sizeGroups hs := by
  induction gs with
  | nil => simp [sizeGroups]
  | cons g gs ih => simp [sizeGroups, ih, Nat.add_assoc]

theorem sizeGroups_regions (s : State) (rs : List (Scope State)) :
    sizeGroups (rs.map fun r => (some s, r.states)) = sizeScopes rs := by
  induction rs with
  | nil => simp [sizeGroups, sizeScopes]
  | cons r rs ih =>
    simp only [List.map_cons, sizeGroups, sizeScopes] at *
    omega

theorem sizeGroups_groups (s : State) : 1 + sizeGroups s.groups = s.size := by
  obtain ⟨i, l, k, c, ts, ns, d, r, p⟩ := s
  rw [groups, sizeGroups_append, sizeGroups_regions, size]
  cases c <;> simp [sizeGroups, sizeChildren]
  omega

theorem sizeGroups_groupsOf (ss : List State) : sizeGroups (groupsOf ss) ≤ sizeList ss := by
  induction ss with
  | nil => simp [groupsOf, sizeGroups, sizeList]
  | cons s ss ih =>
    have := sizeGroups_groups s
    simp only [groupsOf, List.flatMap_cons, sizeGroups_append, sizeList] at *
    omega

/-- All states of the lists in a queue, each with the state that holds it. The lists that a state
holds are put at the end of the queue, so a state comes after its holder. -/
def walk : List Group → List (Option State × State)
  | [] => []
  | (holder, states) :: queue =>
    states.map (fun s => (holder, s)) ++ walk (queue ++ groupsOf states)
termination_by queue => sizeGroups queue
decreasing_by
  have := sizeGroups_groupsOf states
  rw [sizeGroups_append]
  simp only [sizeGroups] at *
  omega

end State

end States

namespace StateDiagram

open States

/-- The diagram `d` without positions, which take no part in what it means. -/
def unplaced (d : StateDiagram) : StateDiagram :=
  { d with scope := ⟨State.unplacedList d.scope.states,
      d.scope.transitions.map Transition.unplaced, d.scope.notes⟩ }

/-- The state with an `id`, in any scope. -/
def state? (d : StateDiagram) (id : String) : Option State := State.findList? id d.scope.states

/-- All states, each with the state that holds it, by `State.walk`. -/
def walk (d : StateDiagram) : List (Option State × State) := State.walk [(none, d.scope.states)]

/-- The ids of all states, in the order of `walk`. -/
def stateIds (d : StateDiagram) : List String := d.walk.map (·.2.id)

end StateDiagram
end DiagramText
