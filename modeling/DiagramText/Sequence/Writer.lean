import DiagramText.Layout
import DiagramText.Sequence.Basic

/-!
# Writing sequence diagrams

A sequence diagram is written as a header line and one line for each clause, a block as its header,
its body one level deeper, each further branch in the same way, and a closing line. The lines come
from an agenda whose bodies are lists of statements.

* `Message.line`, `keywordLine` and `Clause.text`: the texts of single lines.
* `Sequence.agenda`: the agenda of a sequence diagram; `SequenceDiagram.lines` and
  `SequenceDiagram.write` give all of it.
-/

namespace DiagramText

namespace Sequence

/-! ### Lines -/

/-- A message `m` as it is written, without blanks around its arrow. -/
def Message.line (m : Message) : String :=
  let mark := (m.activation.map ActivationMark.text).getD ""
  let text := (m.text.map fun t => s!": {t.raw}").getD ""
  s!"{m.source}{m.arrow.text}{mark}{m.target}{text}"

/-- A `keyword` with a label, if there is one that is not empty. -/
def keywordLine (keyword : String) (label : Option String) : String :=
  match label with
  | none => keyword
  | some l => if l.isEmpty then keyword else s!"{keyword} {l}"

/-- A clause as it is written. It is read back from a line of its own. -/
def Clause.text : Clause → String
  | .participant p =>
    let label := ((p.label.filter (!·.isEmpty)).map fun a => s!" as {a}").getD ""
    s!"{p.kind.text} {p.id}{label}"
  | .message m => m.line
  | .note n =>
    let names := ",".intercalate n.participants
    s!"note {n.placement.text} {names}: {n.text.raw}"
  | .activation id active =>
    let keyword := if active then "activate" else "deactivate"
    s!"{keyword} {id}"

/-- The word that opens a further branch of a block. A kind that has no branches is written with
`else`. -/
def BlockKind.branchWord (k : BlockKind) : String := k.branchKeyword?.getD "else"

/-! ### The agenda -/

/-- The items that a further branch of a block of kind `kind` is written as. -/
def Branch.items (layout : Layout) (depth : Nat) (kind : BlockKind) (b : Branch Statement) :
    List (Item (List Statement)) :=
  [.lines [layout.line depth (keywordLine kind.branchWord b.label)],
    .body b.statements (depth + 1)]

/-- The items that a statement is written as: its line, or the lines of a block with its body and
branches between them. -/
def Statement.items (layout : Layout) (depth : Nat) : Statement → List (Item (List Statement))
  | .clause c => [.lines [layout.line depth c.text]]
  | .block head body branches =>
    .lines [layout.line depth (keywordLine head.kind.text head.label)] ::
      .body body (depth + 1) ::
      branches.flatMap (Branch.items layout depth head.kind) ++
      [.lines [layout.line depth "end"]]

/-- The items that the statements `ss` of a body are written as, one statement after the other. -/
def bodyItems (layout : Layout) (depth : Nat) (ss : List Statement) :
    List (Item (List Statement)) :=
  ss.flatMap (Statement.items layout depth)

/-- The number of steps that a body `ss` is written in at most: itself, and three for each
statement. -/
def bodySteps (ss : List Statement) : Nat := 1 + 3 * Statement.sizeList ss

theorem totalWeight_branches (layout : Layout) (depth : Nat) (kind : BlockKind)
    (bs : List (Branch Statement)) :
    Item.totalWeight bodySteps (bs.flatMap (Branch.items layout depth kind)) ≤
      3 * Statement.sizeBranches bs := by
  apply Item.totalWeight_flatMap_le bodySteps
  intro b bs
  simp only [Branch.items, Item.totalWeight_cons, Item.totalWeight_nil, Item.weight, bodySteps,
    Statement.sizeBranches]
  omega

theorem totalWeight_items (layout : Layout) (depth : Nat) (s : Statement) :
    Item.totalWeight bodySteps (s.items layout depth) ≤ 3 * s.size := by
  cases s with
  | clause c => simp [Statement.items, Item.weight, Statement.size]
  | block head body branches =>
    have hbranches := totalWeight_branches layout depth head.kind branches
    simp only [Statement.items, List.cons_append, Item.totalWeight_cons, Item.totalWeight_append,
      Item.totalWeight_nil, Item.weight, bodySteps, Statement.size] at *
    omega

theorem totalWeight_bodyItems (layout : Layout) (depth : Nat) (ss : List Statement) :
    Item.totalWeight bodySteps (bodyItems layout depth ss) ≤ 3 * Statement.sizeList ss := by
  apply Item.totalWeight_flatMap_le bodySteps
  intro s ss
  have hs := totalWeight_items layout depth s
  rw [Statement.sizeList]
  omega

/-- The agenda of a sequence diagram, the bodies of which are lists of statements. `bodySteps`
bounds the work on a body. -/
def agenda (layout : Layout) : Agenda (List Statement) where
  items := bodyItems layout
  size := bodySteps
  totalWeight_items_lt depth ss := by
    have hss := totalWeight_bodyItems layout depth ss
    unfold bodySteps at *
    omega

@[simp]
theorem agenda_items (layout : Layout) : (agenda layout).items = bodyItems layout := rfl

end Sequence

namespace SequenceDiagram

open Sequence

/-! ### The diagram -/

/-- The lines of a sequence diagram `d`, the header line first and then the one that numbers
messages. -/
def lines (layout : Layout) (d : SequenceDiagram) : List String :=
  "sequenceDiagram" :: (if d.autonumber then [layout.line 1 "autonumber"] else []) ++
    (agenda layout).lines [.body d.statements 1]

/-- A sequence diagram `d` as it is written, as one text. -/
def write (layout : Layout) (d : SequenceDiagram) : String := joinLines (d.lines layout)

end SequenceDiagram
end DiagramText
