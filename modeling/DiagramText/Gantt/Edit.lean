import DiagramText.Gantt.Dependency
import DiagramText.Identifier
import DiagramText.Text.Blank

/-!
# Editing gantt charts

A task can be added at the end of a section, which is added if it is new. The task may wait only for
tasks before it in the chart, and no tasks may come to wait for each other in a circle.
-/

namespace DiagramText.Gantt

/-- Whether a text can be the `name` of a task: it is not blank and holds no colon. -/
def isTaskName (name : String) : Bool :=
  !(Text.trim name.toList).isEmpty && !name.toList.contains ':'

/-- Sections with a `task` at the end of the first with the given `name`, and the tasks before that
one. A section that is not there yet is added at the end. -/
def place (name : String) (task : Task) : List Section → List Section × List Task
  | [] => ([⟨name, [task]⟩], [])
  | s :: ss =>
    if s.name = name then ({ s with tasks := s.tasks ++ [task] } :: ss, s.tasks)
    else
      let (ss, before) := place name task ss
      (s :: ss, s.tasks ++ before)

/-- Refuses a task that waits for an id that no task in `earlier` has. -/
def checkAwaited (earlier : List Task) (t : Task) : Except Rejection Unit :=
  match t.dependencies.find? fun id => !(earlier.filterMap Task.id).contains id with
  | some id => .error (.laterDependency t.name id)
  | none => .ok ()

/-- Accepts the id of a new task that has the given `start`, or none. An id can be written only in
front of a start. -/
def checkTaskId (g : Gantt) (start : Option Start) : Option String → Except Rejection Unit
  | none => .ok ()
  | some id => do
    let id ← Identifier.checkFor .task id
    if start.isNone then .error (.startMissing id)
    else if g.taskIds.contains id then .error (.taskExists id)
    else .ok ()

/-- The chart with a new `task` at the end of a section, if nothing speaks against it. -/
def addTask (g : Gantt) (sectionName : String) (task : Task) : Except Rejection Gantt := do
  if !isTaskName task.name then .error (.invalidTaskName task.name)
  g.checkTaskId task.start task.id
  let (sections, earlier) := place sectionName task g.sections
  checkAwaited earlier task
  let g := { g with sections }
  g.checkCycle
  .ok g

end DiagramText.Gantt
