import DiagramText.Text.Case

/-!
# Directions and placements

The direction in which a diagram is laid out, and the place of a note in a sequence diagram or a
state diagram.
-/

namespace DiagramText

/-- A direction: left to right, right to left, top down or bottom up. These are the letters that
`Direction.name` gives. -/
inductive Direction where
  | lr
  | rl
  | td
  | bt
deriving DecidableEq, Repr

namespace Direction

/-- The two letters of a direction, as they are written. -/
def name : Direction → String
  | lr => "LR"
  | rl => "RL"
  | td => "TD"
  | bt => "BT"

/-- The direction that two letters name, in any letter case. Top down has `tb` as a second
spelling. -/
def ofText? (text : String) : Option Direction :=
  match Text.lower text with
  | "lr" => some lr
  | "rl" => some rl
  | "td" | "tb" => some td
  | "bt" => some bt
  | _ => none

end Direction

/-- The place of a note beside what it is about, or across it. State diagrams have no notes
across. -/
inductive NotePlacement where
  | leftOf
  | rightOf
  | across
deriving DecidableEq, Repr

namespace NotePlacement

/-- The words for a placement, as they are written. -/
def text : NotePlacement → String
  | leftOf => "left of"
  | rightOf => "right of"
  | across => "over"

end NotePlacement
end DiagramText
