import DiagramText.Text.Quoted

/-!
# Rejected edits and charts

An edit that would leave the language, and a chart whose tasks cannot be ordered, are rejected for
one of these causes.
-/

namespace DiagramText

/-- Why an edit or a chart is rejected. Each cause carries what its message shows. -/
inductive Rejection where
  /-- An id is a keyword. -/
  | reservedWord (what value : String)
  /-- An id has a character that ids cannot have. -/
  | invalidId (what value : String)
  /-- A label refers to a character by too many digits. -/
  | oversizedNumber
  /-- A node with this id is there already. -/
  | nodeExists (id : String)
  /-- There is no node with this id. -/
  | nodeMissing (id : String)
  /-- A participant with this id is there already. -/
  | participantExists (id : String)
  /-- A transition would leave the end of its scope. -/
  | endAsSource
  /-- A transition would enter the start of its scope. -/
  | startAsTarget
  /-- The name of a task is blank or holds a colon. -/
  | invalidTaskName (name : String)
  /-- A task has an id but no start, so that the id could not be written. -/
  | startMissing (id : String)
  /-- A task with this id is there already. -/
  | taskExists (id : String)
  /-- Two tasks of a chart have the same id. -/
  | declaredTwice (id : String)
  /-- A task waits for an id that no task has. -/
  | unknownDependency (task id : String)
  /-- A task waits for an id that no earlier task has. -/
  | laterDependency (task id : String)
  /-- A task waits for ids that no earlier task has. -/
  | unresolvedDependencies (task : String) (ids : List String)
  /-- The first task of a chart has no start. -/
  | noStart (task : String)
  /-- Tasks wait for each other in a circle. -/
  | circular (ids : List String)
deriving DecidableEq, Repr

namespace Rejection

open Text

/-- The cause in words, ids and texts in quotes. -/
def message : Rejection → String
  | reservedWord what value => s!"{what} {quoted value} is a reserved word"
  | invalidId what value =>
    s!"invalid {what} {quoted value}: must start with a letter and contain only letters, " ++
      "digits, '_' and '-'"
  | oversizedNumber => "a number has too many digits"
  | nodeExists id => s!"node {quoted id} already exists"
  | nodeMissing id => s!"node {quoted id} not found; add it before linking it"
  | participantExists id => s!"participant {quoted id} already exists"
  | endAsSource => "the end pseudostate cannot be a transition source"
  | startAsTarget => "the start pseudostate cannot be a transition target"
  | invalidTaskName name => s!"invalid task name {quoted name}"
  | startMissing id => s!"task {quoted id} needs an explicit start to carry an id"
  | taskExists id => s!"task {quoted id} already exists"
  | declaredTwice id => s!"task id {quoted id} is declared twice"
  | unknownDependency task id => s!"task {quoted task} depends on unknown task {quoted id}"
  | laterDependency task id => s!"task {quoted task} depends on unknown or later task {quoted id}"
  | unresolvedDependencies task ids =>
    let list := ", ".intercalate ids
    s!"task {quoted task} depends on unknown or later task(s) {list}"
  | noStart task => s!"task {quoted task} has no start and no previous task"
  | circular ids =>
    let list := " -> ".intercalate (ids ++ ids.take 1)
    s!"circular task dependency: {list}"

end Rejection
end DiagramText
