import DiagramText.Content
import DiagramText.Identifier
import DiagramText.States.Basic

/-!
# Editing state diagrams

A transition can be added to the outermost scope. States that are new become states of that scope.
-/

namespace DiagramText.StateDiagram

open States

/-- Accepts an `id` for one end of a transition: that of a pseudostate, or one that a state may
have. -/
def checkEnd (id : String) : Except Rejection String :=
  if isPseudostate id then .ok id else Identifier.checkFor .state id

/-- The diagram with a state in the outermost scope, unless there is one with the same `id` in any
scope. Pseudostates are no states. -/
def mention (d : StateDiagram) (id : String) : StateDiagram :=
  if isPseudostate id || (d.state? id).isSome then d
  else { d with scope := { d.scope with states := d.scope.states ++ [{ id := id }] } }

/-- The diagram with a new transition at the end of the outermost scope. It cannot leave `endId` or
enter `startId`. An empty `label` is no label. -/
def addTransition (d : StateDiagram) (source target : String) (label : Option String := none) :
    Except Rejection StateDiagram := do
  if source = endId then .error .endAsSource
  if target = startId then .error .startAsTarget
  let source ← checkEnd source
  let target ← checkEnd target
  let d := (d.mention source).mention target
  let label ← Content.ofLabel label
  let transition : Transition := { source, target, label }
  .ok { d with scope := { d.scope with transitions := d.scope.transitions ++ [transition] } }

end DiagramText.StateDiagram
