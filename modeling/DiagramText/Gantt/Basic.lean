import DiagramText.Calendar.Basic
import DiagramText.Position

/-!
# Gantt charts

A chart is a list of sections with tasks. A task starts at a date, after other tasks, or after the
task before it, and ends at a date or after a duration.
-/

namespace DiagramText

namespace Gantt

/-- The unit of a duration. -/
inductive DurationUnit where
  | hours
  | days
  | weeks
deriving DecidableEq, Repr

namespace DurationUnit

/-- The letter of a unit, which stands behind the number. -/
def letter : DurationUnit → Char
  | hours => 'h'
  | days => 'd'
  | weeks => 'w'

/-- The unit with the given letter, which has to be a small one. -/
def ofLetter? : Char → Option DurationUnit
  | 'h' => some hours
  | 'd' => some days
  | 'w' => some weeks
  | _ => none

/-- The number of seconds in a unit. No day is longer than another. -/
def seconds : DurationUnit → Nat
  | hours => 3600
  | days => 86400
  | weeks => 604800

end DurationUnit

/-- A whole number of hours, days or weeks. -/
structure Duration where
  amount : Int
  unit : DurationUnit := .days
deriving DecidableEq, Repr

namespace Duration

/-- The largest number of days that a duration can have, of either sign. -/
def maxDays : Int := 999999999

/-- The length of a duration in seconds, if its whole days do not exceed `maxDays`. -/
def seconds? (d : Duration) : Option Int :=
  let n := d.amount * d.unit.seconds
  let days := Int.fdiv n 86400
  if -maxDays ≤ days && days ≤ maxDays then some n else none

/-- A duration as it is written, as in `2d`. -/
def text (d : Duration) : String := s!"{d.amount}{d.unit.letter}"

end Duration

/-- How a task is doing, if it says so. -/
inductive TaskStatus where
  | done
  | active
  | critical
  | milestone
deriving DecidableEq, Repr

namespace TaskStatus

/-- The word for a status, as it is written. -/
def text : TaskStatus → String
  | done => "done"
  | active => "active"
  | critical => "crit"
  | milestone => "milestone"

/-- The status for a word in lower case, if it is the word for one. -/
def ofText? : String → Option TaskStatus
  | "done" => some done
  | "active" => some active
  | "crit" => some critical
  | "milestone" => some milestone
  | _ => none

end TaskStatus

/-- Where a task starts: at a date, or when all of some other tasks have ended. -/
inductive Start where
  | date (value : Moment)
  | after (taskIds : List String)
deriving DecidableEq, Repr

/-- Where a task ends: some time after its start, or at a date. -/
inductive Finish where
  | duration (duration : Duration)
  | date (value : Moment)
deriving DecidableEq, Repr

/-- A task. Without a `start` it follows the task before it. -/
structure Task where
  name : String
  finish : Finish
  id : Option String := none
  status : Option TaskStatus := none
  start : Option Start := none
  position : Option Position := none
deriving DecidableEq, Repr

namespace Task

/-- The ids of the tasks that a task waits for, which only a start `after` other tasks gives. -/
def dependencies (t : Task) : List String :=
  match t.start with
  | some (.after ids) => ids
  | _ => []

end Task

/-- A section with its tasks. -/
structure Section where
  name : String
  tasks : List Task := []
deriving DecidableEq, Repr

/-- What a chart says beside its sections. Only the date format has a value without a line for
it. -/
structure Config where
  title : Option String := none
  dateFormat : String := "YYYY-MM-DD"
  axisFormat : Option String := none
  excludes : Option String := none
  todayMarker : Option String := none
deriving DecidableEq, Repr

end Gantt

/-- A gantt chart. -/
structure Gantt where
  config : Gantt.Config := {}
  sections : List Gantt.Section := []
deriving DecidableEq, Repr

namespace Gantt

/-- The tasks of all sections of the chart `g` in order. -/
def tasks (g : Gantt) : List Task := g.sections.flatMap Section.tasks

/-- The chart `g` without positions, which take no part in what it means. -/
def unplaced (g : Gantt) : Gantt :=
  { g with sections := g.sections.map fun s =>
      { s with tasks := s.tasks.map fun t => { t with position := none } } }

end Gantt
end DiagramText
