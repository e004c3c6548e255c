import DiagramText.Content
import DiagramText.Direction
import DiagramText.Position

/-!
# Sequence diagrams

A sequence diagram is a list of statements: clauses of one line, and blocks, which hold statements
in a body and in further branches. Beside them it keeps a registry of its participants in the order
of their first mention, each with the kind and label of its last declaration.
-/

namespace DiagramText

namespace Sequence

/-! ### Kinds -/

/-- What a participant is drawn as. One that is only mentioned is a `participant`. -/
inductive ParticipantKind where
  | participant
  | actor
deriving DecidableEq, Repr

namespace ParticipantKind

/-- The keyword that declares a participant of the kind. -/
def text : ParticipantKind → String
  | participant => "participant"
  | actor => "actor"

/-- The kind that a keyword in lower case declares. -/
def ofText? : String → Option ParticipantKind
  | "participant" => some participant
  | "actor" => some actor
  | _ => none

end ParticipantKind

/-- The arrow of a message, by its line and its head. -/
inductive Arrow where
  | solidOpen
  | dottedOpen
  | solidArrow
  | dottedArrow
  | solidCross
  | dottedCross
  | solidAsync
  | dottedAsync
deriving DecidableEq, Repr

namespace Arrow

/-- The spelling of an arrow, which `ofText?` reads back. -/
def text : Arrow → String
  | solidOpen => "->"
  | dottedOpen => "-->"
  | solidArrow => "->>"
  | dottedArrow => "-->>"
  | solidCross => "-x"
  | dottedCross => "--x"
  | solidAsync => "-)"
  | dottedAsync => "--)"

/-- The arrow with the given spelling, if there is one. -/
def ofText? : String → Option Arrow
  | "->" => some solidOpen
  | "-->" => some dottedOpen
  | "->>" => some solidArrow
  | "-->>" => some dottedArrow
  | "-x" => some solidCross
  | "--x" => some dottedCross
  | "-)" => some solidAsync
  | "--)" => some dottedAsync
  | _ => none

end Arrow

/-- Whether a message activates or deactivates its target. -/
inductive ActivationMark where
  | activate
  | deactivate
deriving DecidableEq, Repr

namespace ActivationMark

/-- The spelling of an activation mark, which stands between the arrow and the target. -/
def text : ActivationMark → String
  | activate => "+"
  | deactivate => "-"

end ActivationMark

/-- What a block means. Only `alt`, `par` and `critical` have further branches. -/
inductive BlockKind where
  | loop
  | alt
  | opt
  | par
  | critical
  | «break»
  | rect
  | box
deriving DecidableEq, Repr

namespace BlockKind

/-- The keyword that opens a block of the kind. -/
def text : BlockKind → String
  | loop => "loop"
  | alt => "alt"
  | opt => "opt"
  | par => "par"
  | critical => "critical"
  | «break» => "break"
  | rect => "rect"
  | box => "box"

/-- All kinds of block, in the order in which keywords are compared. -/
def all : List BlockKind := [loop, alt, opt, par, critical, «break», rect, box]

/-- The kind of block that the keyword `word` in lower case opens. -/
def ofText? (word : String) : Option BlockKind := all.find? (·.text == word)

/-- The keyword that opens a further branch of a block, where it may have any. -/
def branchKeyword? : BlockKind → Option String
  | alt => some "else"
  | par => some "and"
  | critical => some "option"
  | _ => none

end BlockKind

/-! ### Statements -/

/-- A participant with its label and kind, as it is declared or registered. -/
structure Participant where
  id : String
  label : Option String := none
  kind : ParticipantKind := .participant
  position : Option Position := none
deriving DecidableEq, Repr

/-- A message from one participant to another, with an activation mark if it has any. -/
structure Message where
  source : String
  target : String
  arrow : Arrow := .solidArrow
  text : Option Content := none
  activation : Option ActivationMark := none
  position : Option Position := none
deriving DecidableEq, Repr

/-- A note beside or across participants. Only a note across may have two. -/
structure Note where
  placement : NotePlacement
  participants : List String
  text : Content
  position : Option Position := none
deriving DecidableEq, Repr

/-- A statement of one line. -/
inductive Clause where
  | participant (participant : Participant)
  | message (message : Message)
  | note (note : Note)
  | activation (participant : String) (active : Bool)
deriving DecidableEq, Repr

/-- What a block has beside its statements. -/
structure Block where
  kind : BlockKind
  label : Option String := none
  position : Option Position := none
deriving DecidableEq, Repr

/-- A further branch of a block, with a label of its own. -/
structure Branch (σ : Type) where
  label : Option String := none
  statements : List σ := []
deriving DecidableEq, Repr

/-- A clause, or a block with its body and its further branches, at any depth. -/
inductive Statement where
  | clause (clause : Clause)
  | block (head : Block) (body : List Statement) (branches : List (Branch Statement))
deriving Repr

end Sequence

/-- A sequence diagram with its statements and the registry of its `participants`. -/
structure SequenceDiagram where
  statements : List Sequence.Statement := []
  autonumber : Bool := false
  participants : List Sequence.Participant := []

namespace Sequence

/-! ### Equality -/

namespace Statement

mutual

/-- Equality of statements is decided part by part, together with `decEqList` and
`decEqBranches`. -/
def decEq : (s t : Statement) → Decidable (s = t)
  | .clause c, .clause d => decidable_of_iff (c = d) (by simp)
  | .clause _, .block .. => isFalse (by simp)
  | .block .., .clause _ => isFalse (by simp)
  | .block h b bs, .block h' b' bs' =>
    have := decEqList b b'
    have := decEqBranches bs bs'
    decidable_of_iff (h = h' ∧ b = b' ∧ bs = bs') (by simp)

/-- Equality of lists of statements is decided one by one. -/
def decEqList : (ss ts : List Statement) → Decidable (ss = ts)
  | [], [] => isTrue rfl
  | [], _ :: _ => isFalse (by simp)
  | _ :: _, [] => isFalse (by simp)
  | s :: ss, t :: ts =>
    have := decEq s t
    have := decEqList ss ts
    decidable_of_iff (s = t ∧ ss = ts) (by simp)

/-- Equality of lists of branches is decided one by one, by label and statements. -/
def decEqBranches : (bs cs : List (Branch Statement)) → Decidable (bs = cs)
  | [], [] => isTrue rfl
  | [], _ :: _ => isFalse (by simp)
  | _ :: _, [] => isFalse (by simp)
  | ⟨l, b⟩ :: bs, ⟨m, c⟩ :: cs =>
    have := decEqList b c
    have := decEqBranches bs cs
    decidable_of_iff (l = m ∧ b = c ∧ bs = cs) (by simp [and_assoc])

end

instance : DecidableEq Statement := decEq

end Statement

end Sequence

deriving instance DecidableEq for SequenceDiagram

namespace Sequence

/-! ### Statements without positions -/

/-- A clause without its position. -/
def Clause.unplaced : Clause → Clause
  | .participant p => .participant { p with position := none }
  | .message m => .message { m with position := none }
  | .note n => .note { n with position := none }
  | .activation p a => .activation p a

namespace Statement

mutual

/-- A statement without positions, those of its body and branches included. -/
def unplaced : Statement → Statement
  | .clause c => .clause c.unplaced
  | .block h b bs => .block { h with position := none } (unplacedList b) (unplacedBranches bs)

/-- Statements without positions. -/
def unplacedList : List Statement → List Statement
  | [] => []
  | s :: ss => s.unplaced :: unplacedList ss

/-- Branches without positions. A branch has none of its own. -/
def unplacedBranches : List (Branch Statement) → List (Branch Statement)
  | [] => []
  | ⟨label, b⟩ :: bs => ⟨label, unplacedList b⟩ :: unplacedBranches bs

end

/-! ### Walking -/

/-- The statements that a statement holds, the body first and then each branch. -/
def contents : Statement → List Statement
  | .clause _ => []
  | .block _ body branches => body ++ branches.flatMap Branch.statements

mutual

/-- The number of statements in a statement, itself and its branches included. -/
def size : Statement → Nat
  | .clause _ => 1
  | .block _ body branches => 1 + sizeList body + sizeBranches branches

/-- The number of statements in a list, at any depth. -/
def sizeList : List Statement → Nat
  | [] => 0
  | s :: ss => s.size + sizeList ss

/-- The number of branches in a list and of statements in them, at any depth. -/
def sizeBranches : List (Branch Statement) → Nat
  | [] => 0
  | ⟨_, b⟩ :: bs => 1 + sizeList b + sizeBranches bs

end

theorem sizeList_append (ss ts : List Statement) :
    sizeList (ss ++ ts) = sizeList ss + sizeList ts := by
  induction ss with
  | nil => simp [sizeList]
  | cons s ss ih => simp [sizeList, ih, Nat.add_assoc]

theorem sizeList_flatMap_le (bs : List (Branch Statement)) :
    sizeList (bs.flatMap Branch.statements) ≤ sizeBranches bs := by
  induction bs with
  | nil => simp [sizeList]
  | cons b bs ih => simp only [List.flatMap_cons, sizeList_append, sizeBranches]; omega

theorem sizeList_contents_lt (s : Statement) : sizeList s.contents < s.size := by
  cases s with
  | clause c => simp [contents, sizeList, size]
  | block h b bs =>
    have := sizeList_flatMap_le bs
    simp only [contents, sizeList_append, size]
    omega

end Statement

end Sequence

namespace SequenceDiagram

open Sequence

/-- The diagram `d` without positions, which take no part in what it means. -/
def unplaced (d : SequenceDiagram) : SequenceDiagram where
  statements := Statement.unplacedList d.statements
  autonumber := d.autonumber
  participants := d.participants.map fun p => { p with position := none }

/-- The registered participant with an `id`, if there is one. -/
def participant? (d : SequenceDiagram) (id : String) : Option Participant :=
  d.participants.find? (·.id == id)

end SequenceDiagram

namespace Sequence

/-! ### The registry -/

namespace Registry

/-- The registry after a mention of `id`. A new id is registered at the end, without a label. -/
def mention (ps : List Participant) (id : String) : List Participant :=
  if ps.any (·.id == id) then ps else ps ++ [{ id := id }]

/-- The registry after the declaration `p`, which sets kind and label. A known participant keeps its
place. No registered participant has a position. -/
def declare (ps : List Participant) (p : Participant) : List Participant :=
  if ps.any (·.id == p.id) then
    ps.map fun q => if q.id = p.id then { q with kind := p.kind, label := p.label } else q
  else ps ++ [{ p with position := none }]

/-- The registry `ps` after a clause: a declaration, or the mentions of all participants that it is
about. -/
def enter (ps : List Participant) : Clause → List Participant
  | .participant p => declare ps p
  | .message m => mention (mention ps m.source) m.target
  | .note n => n.participants.foldl mention ps
  | .activation id _ => mention ps id

/-- The registry `ps` after a statement, without the statements it holds. -/
def enterStatement (ps : List Participant) : Statement → List Participant
  | .clause c => enter ps c
  | .block .. => ps

end Registry

end Sequence
end DiagramText
