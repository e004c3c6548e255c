import DiagramText.Digraph
import DiagramText.Gantt.Basic
import DiagramText.Rejection

/-!
# Dependencies between tasks

A task waits for the tasks that its start names. A chart is accepted if its task ids are distinct,
each of them that a task waits for is declared, and no tasks wait for each other in a circle.
-/

namespace DiagramText.Gantt

/-- The ids of the tasks of a chart `g`, in order. A task may have none. -/
def taskIds (g : Gantt) : List String := g.tasks.filterMap Task.id

/-- The graph with a task `t` and an arc to it from each task that it waits for. A task without an
id leaves the graph as it is. -/
def addDependencies (d : Digraph) (t : Task) : Digraph :=
  match t.id with
  | none => d
  | some id => t.dependencies.foldl (fun d dep => d.addArc dep id) (d.addNode id)

/-- The graph of the task ids of the chart `g`, with an arc from each task to those that wait for
it. -/
def dependencyGraph (g : Gantt) : Digraph := g.tasks.foldl addDependencies {}

/-- Ids of tasks that wait for each other in a circle, if there are any, by the search of
`Digraph.cycle?`. -/
def dependencyCycle? (g : Gantt) : Option (List String) := g.dependencyGraph.cycle?

/-- Refuses a chart `g` in which tasks wait for each other in a circle. -/
def checkCycle (g : Gantt) : Except Rejection Unit :=
  match g.dependencyCycle? with
  | some ids => .error (.circular ids)
  | none => .ok ()

/-- Refuses `ids` of which one comes twice, or is among those `seen` before. The first such id is
named. -/
def checkDistinct (seen : List String) : List String → Except Rejection Unit
  | [] => .ok ()
  | id :: ids =>
    if seen.contains id then .error (.declaredTwice id) else checkDistinct (id :: seen) ids

/-- Refuses a task that waits for an id that is not `known`. -/
def checkDependencies (known : List String) (t : Task) : Except Rejection Unit :=
  match t.dependencies.find? fun id => !known.contains id with
  | some id => .error (.unknownDependency t.name id)
  | none => .ok ()

/-- Accepts a chart `g` or says why not: an id that comes twice, a missing task, or a circle. -/
def validate (g : Gantt) : Except Rejection Unit := do
  checkDistinct [] g.taskIds
  g.tasks.forM (checkDependencies g.taskIds)
  g.checkCycle

end DiagramText.Gantt
