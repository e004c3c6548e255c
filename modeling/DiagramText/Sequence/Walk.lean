import DiagramText.Sequence.Basic

/-!
# Walking sequence diagrams

A walk visits the statements of a diagram in document order, each with the number of blocks around
it. The contents of a block come right after it, its body first and then its branches.
-/

namespace DiagramText

namespace Sequence

/-- A statement with the number of blocks around it. -/
abbrev Placed := Nat × Statement

namespace Placed

/-- Statements with the same blocks around them, `depth` in number. -/
def all (depth : Nat) (ss : List Statement) : List Placed := ss.map fun s => (depth, s)

/-- The statements that the statement of `p` holds, one block deeper. -/
def contents (p : Placed) : List Placed := all (p.1 + 1) p.2.contents

/-- The number of statements in an agenda `ps`, at any depth, which bounds a walk. -/
def size (ps : List Placed) : Nat := Statement.sizeList (ps.map Prod.snd)

theorem size_append (ps qs : List Placed) : size (ps ++ qs) = size ps + size qs := by
  simp [size, Statement.sizeList_append]

theorem size_contents_lt (p : Placed) : size p.contents < p.2.size := by
  simpa [size, contents, all, Function.comp_def] using Statement.sizeList_contents_lt p.2

/-- All statements of an agenda, the contents of a block right after it. The agenda puts them before
the others. -/
def walk : List Placed → List Placed
  | [] => []
  | p :: ps => p :: walk (p.contents ++ ps)
termination_by ps => size ps
decreasing_by
  have := size_contents_lt p
  rw [size_append]
  simp only [size, List.map_cons, Statement.sizeList] at *
  omega

end Placed

/-- Whether a statement is a block, of which only depth counts. -/
def Statement.isBlock : Statement → Bool
  | .clause _ => false
  | .block .. => true

end Sequence

namespace SequenceDiagram

open Sequence

/-- All statements of `d` in document order, each with the number of blocks around it. -/
def walk (d : SequenceDiagram) : List Placed := Placed.walk (Placed.all 0 d.statements)

/-- The largest number of blocks that lie one in another, which is zero without blocks. -/
def blockDepth (d : SequenceDiagram) : Nat :=
  ((d.walk.filter (·.2.isBlock)).map (·.1 + 1)).foldl max 0

end SequenceDiagram
end DiagramText
