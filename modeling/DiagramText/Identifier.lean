import DiagramText.Rejection
import DiagramText.Text.Case

/-!
# Identifiers

An id that an edit brings in is an ASCII letter followed by ASCII letters, digits, underscores and
hyphens, and no keyword of any dialect.
-/

namespace DiagramText

/-- What an id names. It matters to the words of a rejection only. -/
inductive IdKind where
  | node
  | participant
  | class_
  | entity
  | state
  | task
deriving DecidableEq, Repr

namespace IdKind

/-- The words for what an id names, with which a rejection starts. -/
def text : IdKind → String
  | node => "node id"
  | participant => "participant id"
  | class_ => "class name"
  | entity => "entity name"
  | state => "state id"
  | task => "task id"

end IdKind

namespace Identifier

/-- The keywords of all dialects, in lower case: headers, the keywords of flowcharts, sequences,
states, classes, entities and charts, and directions. -/
def reservedWords : List String :=
  ["graph", "flowchart", "sequencediagram", "classdiagram", "statediagram", "statediagram-v2",
   "erdiagram", "gantt", "journey", "pie", "gitgraph", "mindmap", "timeline",
   "subgraph", "end", "style", "class", "classdef", "click", "call", "href",
   "participant", "actor", "loop", "alt", "else", "opt", "par", "and", "critical", "break", "note",
   "over", "activate", "deactivate", "autonumber",
   "state", "fork", "join", "choice",
   "namespace", "interface", "enum", "annotation", "extends", "implements",
   "entity", "relationship",
   "section", "title", "dateformat",
   "tb", "td", "bt", "lr", "rl"]

/-- Whether a word is a keyword, in any letter case, by `reservedWords`. -/
def isReserved (word : String) : Bool := reservedWords.contains (Text.lower word)

/-- Whether characters form an id: an ASCII letter, then ASCII letters, digits, underscores and
hyphens. -/
def isWellFormed : List Char → Bool
  | [] => false
  | c :: cs => c.isAlpha && cs.all fun d => d.isAlphanum || d == '_' || d == '-'

/-- Accepts the id `value`, or rejects it with the words `what` for what it names. The form is
checked before the keywords. -/
def check (what value : String) : Except Rejection String :=
  if !isWellFormed value.toList then .error (.invalidId what value)
  else if isReserved value then .error (.reservedWord what value)
  else .ok value

/-- Accepts the id `value` for what it names, or rejects it. All kinds of id share one rule. -/
def checkFor (kind : IdKind) (value : String) : Except Rejection String := check kind.text value

end Identifier
end DiagramText
