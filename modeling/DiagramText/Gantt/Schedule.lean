import DiagramText.Gantt.Dependency

/-!
# Schedules

A schedule gives each task of a chart a start and an end. A task without a start follows the task
before it, and one that waits for others starts when the last of them has ended.
-/

namespace DiagramText.Gantt

/-- Why there is no schedule. -/
inductive ScheduleFailure where
  /-- The chart is rejected. -/
  | rejected (cause : Rejection)
  /-- A date would lie outside the calendar. -/
  | outOfRange
  /-- A task waits for an empty list of tasks. -/
  | nothingAwaited
deriving DecidableEq, Repr

/-- A task with its start and end. -/
structure ScheduledTask where
  task : Task
  start : Moment
  finish : Moment
deriving DecidableEq, Repr

namespace Duration

/-- The moment a duration `d` after the moment `m`, if the calendar holds it. -/
def after (d : Duration) (m : Moment) : Except ScheduleFailure Moment :=
  match d.seconds?.bind m.add? with
  | some n => .ok n
  | none => .error .outOfRange

end Duration

namespace Task

/-- The end of a task that starts at `start`. A task with a date as its end need not end after its
start. -/
def finishFrom (t : Task) (start : Moment) : Except ScheduleFailure Moment :=
  match t.finish with
  | .duration d => d.after start
  | .date m => .ok m

/-- The end of a task `t` where it is known without the other tasks of the chart. -/
def finishDate? (t : Task) : Except ScheduleFailure (Option Moment) :=
  match t.finish, t.start with
  | .date m, _ => .ok (some m)
  | .duration d, some (.date m) => (d.after m).map some
  | .duration _, _ => .ok none

end Task

namespace Schedule

/-- The ends of the tasks with an id, the latest task first, so that it counts for an id that comes
twice. -/
abbrev Ends := List (String × Moment)

/-- The moment when the last of the awaited tasks has ended. All of `ids` have to be among the
`ends`. -/
def lastEnd (task : String) (ends : Ends) (ids : List String) : Except ScheduleFailure Moment :=
  match ids.filter fun id => (ends.lookup id).isNone with
  | [] =>
    match Moment.latest? (ids.filterMap fun id => ends.lookup id) with
    | some m => .ok m
    | none => .error .nothingAwaited
  | missing => .error (.rejected (.unresolvedDependencies task missing))

/-- The start of a task, given the `ends` of earlier tasks and the end of the task before it. -/
def startOf (t : Task) (ends : Ends) (previous : Option Moment) : Except ScheduleFailure Moment :=
  match t.start with
  | some (.date m) => .ok m
  | some (.after ids) => lastEnd t.name ends ids
  | none =>
    match previous with
    | some m => .ok m
    | none => .error (.rejected (.noStart t.name))

/-- The schedule of tasks, given the `ends` of earlier tasks and the end of the task before them. -/
def resolve (ends : Ends) (previous : Option Moment) :
    List Task → Except ScheduleFailure (List ScheduledTask)
  | [] => .ok []
  | t :: ts => do
    let start ← startOf t ends previous
    let finish ← t.finishFrom start
    let ends := (t.id.map fun id => (id, finish)).toList ++ ends
    return ⟨t, start, finish⟩ :: (← resolve ends (some finish) ts)

end Schedule

/-- The schedule of a chart `g`, task by task, each from the ends of those before it. -/
def schedule (g : Gantt) : Except ScheduleFailure (List ScheduledTask) :=
  Schedule.resolve [] none g.tasks

end DiagramText.Gantt
