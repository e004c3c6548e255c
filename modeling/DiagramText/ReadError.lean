import DiagramText.Position
import DiagramText.Text.Quoted

/-!
# Reading errors

Reading stops at the first thing that is wrong. What is wrong is a cause; where it was noticed is
a position, which is missing only for a piece of text read on its own.
-/

namespace DiagramText

/-- What is wrong with a text. Each cause carries what its message shows. -/
inductive ReadError.Cause where
  /-- The first line that is not blank opens no diagram. -/
  | headerExpected (found : String)
  /-- The text has nothing but blank lines. -/
  | headerMissing
  /-- Something else was expected here. -/
  | unexpected (expected found : String)
  /-- The text ends inside a block. -/
  | unterminated (block : String) (openedAt : Option Position)
  /-- The id of a task is no identifier. -/
  | invalidTaskId (id : String)
  /-- A task starts after no task at all. -/
  | noDependency
  /-- A task starts after one that is not declared before it. -/
  | undeclaredDependency (id : String)
  /-- A duration has a fraction or an unknown unit. -/
  | invalidDuration (text : String)
  /-- A task has neither a duration nor an end date. -/
  | missingEnd
  /-- A date is not written in the date format of the chart. -/
  | invalidDate (text format : String)
  /-- One end of an entity relation is no cardinality. -/
  | invalidCardinality (symbol relation : String)
deriving DecidableEq, Repr

/-- What is wrong with a text, and where. The `position` is missing only for a text that was read on
its own. -/
structure ReadError where
  cause : ReadError.Cause
  position : Option Position
deriving DecidableEq, Repr

namespace ReadError

namespace Cause

open Text

/-- The cause in words, texts of the document in quotes. -/
def message : Cause → String
  | headerExpected found => s!"expected a diagram header, found {quoted found}"
  | headerMissing => "no diagram header found"
  | unexpected expected found => s!"expected {expected}, found {found}"
  | unterminated block none => s!"unterminated {block} block"
  | unterminated block (some p) => s!"unterminated {block} block opened at line {p.line}"
  | invalidTaskId id => s!"invalid task id {quoted id}"
  | noDependency => "'after' needs at least one task id"
  | undeclaredDependency id => s!"'after' references undeclared task {quoted id}"
  | invalidDuration text => s!"duration {quoted text} is not <integer><d|w|h>"
  | missingEnd => "missing task duration or end date"
  | invalidDate text format => s!"date {quoted text} does not match format {quoted format}"
  | invalidCardinality symbol relation =>
    s!"unrecognized cardinality {quoted symbol} in {quoted relation}"

end Cause

/-- The error in words, with its place where that is known. -/
def message (e : ReadError) : String :=
  match e.position with
  | none => e.cause.message
  | some p => s!"{e.cause.message} at line {p.line}, column {p.column}"

end ReadError

/-- Why reading gave no result. Only `malformed` says that the text is wrong; the others are limits
of reading. -/
inductive Failure where
  /-- The text is malformed. -/
  | malformed (error : ReadError)
  /-- The date format names one field twice, so it matches no date. -/
  | repeatedDateField
  /-- A number has more digits than are read. -/
  | oversizedNumber
  /-- A round of reading statements used no token. -/
  | stalled
deriving DecidableEq, Repr

namespace Failure

/-- The reason in words. A malformed text has the message of its `ReadError`. -/
def message : Failure → String
  | malformed error => error.message
  | repeatedDateField => "the date format names a field twice"
  | oversizedNumber => "a number has too many digits"
  | stalled => "reading made no progress"

end Failure
end DiagramText
