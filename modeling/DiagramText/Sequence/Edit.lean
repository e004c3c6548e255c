import DiagramText.Content
import DiagramText.Identifier
import DiagramText.Sequence.Basic

/-!
# Editing sequence diagrams

A participant can be added under a new id, and a message between any participants, which become
known by it. Each edit keeps the registry the one that the statements make.
-/

namespace DiagramText.SequenceDiagram

open Sequence

/-- The diagram `d` with one more clause `c` at its end, which is entered in the registry. -/
def append (d : SequenceDiagram) (c : Clause) : SequenceDiagram :=
  { d with
    statements := d.statements ++ [.clause c]
    participants := Registry.enter d.participants c }

/-- The diagram `d` with a new participant, declared at its end. A known `id` is refused. -/
def addParticipant (d : SequenceDiagram) (id : String) (label : Option String := none)
    (kind : ParticipantKind := .participant) : Except Rejection SequenceDiagram := do
  let id ← Identifier.checkFor .participant id
  if (d.participant? id).isSome then .error (.participantExists id)
  else .ok (d.append (.participant { id, label, kind }))

/-- The diagram with a new message at its end. An empty `text` is no text, and new participants are
registered by the mention. -/
def addMessage (d : SequenceDiagram) (source target : String) (text : Option String := none)
    (arrow : Arrow := .solidArrow) : Except Rejection SequenceDiagram := do
  let source ← Identifier.checkFor .participant source
  let target ← Identifier.checkFor .participant target
  let text ← Content.ofLabel text
  .ok (d.append (.message { source, target, arrow, text }))

end DiagramText.SequenceDiagram
