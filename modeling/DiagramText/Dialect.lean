/-!
# Dialects

The six kinds of diagram, each with a notation of its own.
-/

namespace DiagramText

/-- A kind of diagram. Each has its tokens, its reader and its writer. -/
inductive Dialect where
  | flowchart
  | sequence
  | classes
  | entities
  | states
  | gantt
deriving DecidableEq, Repr

namespace Dialect

/-- The name of the dialect, as reports show it. It is not the header that opens a diagram. -/
def name : Dialect → String
  | flowchart => "Flowchart"
  | sequence => "Sequence"
  | classes => "Class"
  | entities => "Er"
  | states => "State"
  | gantt => "Gantt"

end Dialect
end DiagramText
