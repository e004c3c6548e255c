import DiagramText.Content
import DiagramText.Direction
import DiagramText.Position

/-!
# Flowcharts

A flowchart is a list of statements: clauses of one line, and subgraphs, which hold statements
again. Beside them it keeps a registry of its nodes in the order of their first mention, each with
the label and shape of its last declaration that gives any.
-/

namespace DiagramText

/-- The shape of a node. `rectangle` is the one of a node that is only mentioned. -/
inductive Shape where
  | rectangle
  | rounded
  | stadium
  | subroutine
  | cylinder
  | circle
  | doubleCircle
  | diamond
  | hexagon
  | parallelogram
  | parallelogramAlt
  | trapezoid
  | trapezoidAlt
  | asymmetric
deriving DecidableEq, Repr

namespace Flowchart

/-- The line and ends of an edge. Not every combination of a line and ends has a kind. -/
inductive EdgeKind where
  | arrow
  | line
  | dottedArrow
  | dottedLine
  | thickArrow
  | thickLine
  | invisible
  | circleArrow
  | crossArrow
  | bothArrows
  | bothDotted
  | bothThick
deriving DecidableEq, Repr

/-- A node with its label and shape, as it is declared or registered. -/
structure Node where
  id : String
  label : Option Content := none
  shape : Shape := .rectangle
deriving DecidableEq, Repr

namespace Node

/-- A node of which only the `id` is known, as a mention has it. -/
def bare (id : String) : Node := { id := id }

end Node

/-- An edge between two nodes, which are given by their ids. -/
structure Edge where
  source : String
  target : String
  kind : EdgeKind := .arrow
  label : Option Content := none
  position : Option Position := none
deriving DecidableEq, Repr

/-- A statement of one line. A line of the source may be several clauses, and is written as such. -/
inductive Clause where
  | node (node : Node) (position : Option Position)
  | edge (edge : Edge)
  | classDef (name styles : String)
  | classes (nodeIds : List String) (className : String)
  | style (nodeId styles : String)
deriving DecidableEq, Repr

/-- What a subgraph has beside its statements. A missing `direction` is that of the flowchart. -/
structure Subgraph where
  id : String
  label : Option String := none
  direction : Option Direction := none
  position : Option Position := none
deriving DecidableEq, Repr

/-- A clause, or a subgraph with its statements, at any depth. -/
inductive Statement where
  | clause (clause : Clause)
  | subgraph (head : Subgraph) (body : List Statement)
deriving Repr

end Flowchart

/-- A flowchart with its direction, its statements and the registry `nodes` of its nodes. -/
structure Flowchart where
  direction : Direction := .td
  statements : List Flowchart.Statement := []
  nodes : List Flowchart.Node := []

namespace Flowchart

/-! ### Equality -/

namespace Statement

mutual

/-- Equality of statements is decided part by part, together with `decEqList`, since subgraphs hold
lists of statements. -/
def decEq : (s t : Statement) → Decidable (s = t)
  | .clause c, .clause d => decidable_of_iff (c = d) (by simp)
  | .clause _, .subgraph .. => isFalse (by simp)
  | .subgraph .., .clause _ => isFalse (by simp)
  | .subgraph h b, .subgraph h' b' =>
    have := decEqList b b'
    decidable_of_iff (h = h' ∧ b = b') (by simp)

/-- Equality of lists of statements is decided one by one. -/
def decEqList : (ss ts : List Statement) → Decidable (ss = ts)
  | [], [] => isTrue rfl
  | [], _ :: _ => isFalse (by simp)
  | _ :: _, [] => isFalse (by simp)
  | s :: ss, t :: ts =>
    have := decEq s t
    have := decEqList ss ts
    decidable_of_iff (s = t ∧ ss = ts) (by simp)

end

instance : DecidableEq Statement := decEq

end Statement

deriving instance DecidableEq for Flowchart

/-! ### Statements without positions -/

/-- A clause without its position. Of the clauses only nodes and edges have one. -/
def Clause.unplaced : Clause → Clause
  | .node n _ => .node n none
  | .edge e => .edge { e with position := none }
  | c => c

namespace Statement

mutual

/-- A statement without positions, those of the statements it holds included. -/
def unplaced : Statement → Statement
  | .clause c => .clause c.unplaced
  | .subgraph h b => .subgraph { h with position := none } (unplacedList b)

/-- Statements without positions. -/
def unplacedList : List Statement → List Statement
  | [] => []
  | s :: ss => s.unplaced :: unplacedList ss

end

end Statement

/-- The flowchart `d` without positions, which take no part in what it means. The registry has
none. -/
def unplaced (d : Flowchart) : Flowchart :=
  { d with statements := Statement.unplacedList d.statements }

/-! ### Walking -/

namespace Statement

/-- The statements that a statement holds: the body of a subgraph, and none for a clause. -/
def body : Statement → List Statement
  | .clause _ => []
  | .subgraph _ b => b

mutual

/-- The number of statements in a statement, itself included. It bounds walks and writing. -/
def size : Statement → Nat
  | .clause _ => 1
  | .subgraph _ b => 1 + sizeList b

/-- The number of statements in a list, at any depth. -/
def sizeList : List Statement → Nat
  | [] => 0
  | s :: ss => s.size + sizeList ss

end

theorem sizeList_append (ss ts : List Statement) :
    sizeList (ss ++ ts) = sizeList ss + sizeList ts := by
  induction ss with
  | nil => simp [sizeList]
  | cons s ss ih => simp [sizeList, ih, Nat.add_assoc]

theorem size_eq (s : Statement) : s.size = 1 + sizeList s.body := by
  cases s <;> simp [size, body, sizeList]

/-- All statements in document order, the contents of a subgraph right after it. The agenda puts the
`body` of a statement before the others. -/
def walk : List Statement → List Statement
  | [] => []
  | s :: ss => s :: walk (s.body ++ ss)
termination_by ss => sizeList ss
decreasing_by simp only [sizeList_append, sizeList, size_eq]; omega

end Statement

/-! ### The registry -/

/-- The ids of the nodes that a clause mentions. Class assignments and styles mention no node. -/
def Clause.mentioned : Clause → List String
  | .node n _ => [n.id]
  | .edge e => [e.source, e.target]
  | _ => []

/-- The registered node with an `id`, if there is one. -/
def node? (d : Flowchart) (id : String) : Option Node := d.nodes.find? (·.id == id)

namespace Registry

/-- The registry after a mention of `id`. A new id is registered at the end, as a bare node. -/
def mention (nodes : List Node) (id : String) : List Node :=
  if nodes.any (·.id == id) then nodes else nodes ++ [Node.bare id]

/-- The registry after a declaration, which replaces the node that is known. A declaration by id
alone changes no known node. -/
def declare (nodes : List Node) (node : Node) : List Node :=
  let nodes := mention nodes node.id
  if node = Node.bare node.id then nodes
  else nodes.map fun n => if n.id = node.id then node else n

/-- The registry after a clause: a declaration, or the mentions of both ends of an edge. -/
def enter (nodes : List Node) : Clause → List Node
  | .node n _ => declare nodes n
  | .edge e => mention (mention nodes e.source) e.target
  | _ => nodes

/-- The registry after a statement, without the statements it holds. -/
def enterStatement (nodes : List Node) : Statement → List Node
  | .clause c => enter nodes c
  | .subgraph .. => nodes

/-- The registry that statements `ss` make in document order, from an empty one. -/
def ofStatements (ss : List Statement) : List Node :=
  (Statement.walk ss).foldl enterStatement []

end Registry

/-- The flowchart `d` with one more clause `c` at its end, which is entered in the registry. -/
def append (d : Flowchart) (c : Clause) : Flowchart :=
  { d with statements := d.statements ++ [.clause c], nodes := Registry.enter d.nodes c }

end Flowchart
end DiagramText
