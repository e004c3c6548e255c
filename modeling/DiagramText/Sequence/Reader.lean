import DiagramText.Reading
import DiagramText.Sequence.Basic

/-!
# Reading sequence diagrams

A sequence diagram is read line by line. Blocks that are still open are kept beside the statements
read so far; a branch word starts a further branch of the innermost one, and its end makes it a
statement of the body around it. A word before an arrow is the name of a participant, even if it
is a keyword elsewhere.
-/

namespace DiagramText.Sequence

open Reading

/-! ### What has been read -/

/-- A block whose end has not been read, with the statements read in it. -/
structure OpenBlock where
  head : Block
  body : List Statement := []
  branches : List (Branch Statement) := []
deriving DecidableEq

namespace OpenBlock

/-- Puts statements at the end of the last branch, or of the `body` if there is none. -/
def extend (b : OpenBlock) (ss : List Statement) : OpenBlock :=
  match b.branches.getLast? with
  | none => { b with body := b.body ++ ss }
  | some last =>
    { b with branches :=
        b.branches.dropLast ++ [{ last with statements := last.statements ++ ss }] }

/-- Starts a further branch of `b`, which is empty. -/
def branch (b : OpenBlock) (label : Option String) : OpenBlock :=
  { b with branches := b.branches ++ [{ label := label }] }

/-- The block `b` as a statement, with all its branches. -/
def close (b : OpenBlock) : Statement := .block b.head b.body b.branches

end OpenBlock

/-- A sequence diagram of which a part has been read. The innermost of the `opened` blocks comes
first. -/
structure Draft where
  statements : List Statement := []
  autonumber : Bool := false
  participants : List Participant := []
  opened : List OpenBlock := []
deriving DecidableEq

namespace Draft

/-- Puts statements `ss` at the end of the innermost open body. The registry stays as it is. -/
def extend (d : Draft) (ss : List Statement) : Draft :=
  match d.opened with
  | [] => { d with statements := d.statements ++ ss }
  | b :: outer => { d with opened := b.extend ss :: outer }

/-- Puts `clauses` at the end of the innermost open body and enters their participants in the
registry. -/
def add (d : Draft) (clauses : List Clause) : Draft :=
  { d with participants := clauses.foldl Registry.enter d.participants }.extend
    (clauses.map .clause)

/-- Opens a block `head` with an empty body. -/
def openBlock (d : Draft) (head : Block) : Draft :=
  { d with opened := { head := head } :: d.opened }

/-- Starts a further branch of the innermost open block, if any is open. -/
def branch (d : Draft) (label : Option String) : Draft :=
  match d.opened with
  | [] => d
  | b :: outer => { d with opened := b.branch label :: outer }

/-- Closes the innermost open block, which becomes a statement of the body around it. -/
def closeBlock (d : Draft) : Draft :=
  match d.opened with
  | [] => d
  | b :: outer => { d with opened := outer }.extend [b.close]

end Draft

/-! ### Clauses -/

/-- The kinds of token that can name a participant. A number can, so that `1->>2` is a message. -/
def nameKinds : List TokenKind := [.identifier, .number]

/-- Reads the name of a participant, by the `nameKinds`. -/
def name : Reading String := do
  return (← expectAny nameKinds "participant name").text

/-- Whether the next token is one of the `words` and no arrow follows it. Before an arrow a keyword
is a name. -/
def checkKeyword (words : List String) : Reading Bool := do
  return (← checkWord words) && (← ahead 1).kind != .arrow

/-- Reads the rest of the line as a label. An empty label is none. -/
def label : Reading (Option String) := do
  let text ← restOfStatement
  return if text.isEmpty then none else some text

/-- Reads a participant and its label, and whether another participant follows on the line. -/
def participant (kind : ParticipantKind) : Reading (Participant × Bool) := do
  let position := (← peek).start
  let id ← name
  let label ← match ← acceptWord ["as"] with
    | none => pure none
    | some _ => label
  let more ←
    if label.isSome then pure false
    else match ← accept .comma with
      | some _ => pure true
      | none => pure (← accept .ampersand).isSome
  return ({ id, label, kind, position := some position }, more)

/-- Reads the participants that a line declares. Only the last of them can have a label that is not
empty. -/
def participants (kind : ParticipantKind) : Reading (List Participant) :=
  loop (fun ps => do
    let (p, more) ← participant kind
    return if more then .inl (ps ++ [p]) else .inr (ps ++ [p])) []

/-- Reads a line that declares participants, one clause for each. -/
def declaration (kind : ParticipantKind) : Reading (List Clause) := do
  let _ ← advance
  let ps ← participants kind
  endStatement
  return ps.map .participant

/-- Reads the rest of a line that activates or deactivates a participant. -/
def activation (active : Bool) : Reading Clause := do
  let _ ← advance
  let id ← name
  endStatement
  return .activation id active

/-- Reads the placement of a note, which is one word or two. -/
def placement : Reading NotePlacement := do
  if (← acceptWord ["over"]).isSome then return .across
  else if ← checkWord ["left", "right"] then
    let side ← advance
    let _ ← expectWord "of"
    return if side.isWord ["left"] then .leftOf else .rightOf
  else fail "'left of', 'right of' or 'over'"

/-- Reads the names after the first, each after a comma, behind those in `names`. -/
def moreNames (names : List String) : Reading (List String) :=
  loop (fun names => do
    match ← accept .comma with
    | none => return .inr names
    | some _ => return .inl (names ++ [← name])) names

/-- Reads a note with its text, which cannot be missing. -/
def note : Reading Clause := do
  let keyword ← advance
  let placement ← placement
  let participants ← moreNames [← name]
  let _ ← expect .colon "':'"
  let text ← expect .text "note text"
  endStatement
  let label ← content text.text
  return .note ⟨placement, participants, label, some keyword.start⟩

/-- Reads an activation mark, if there is one. -/
def activationMark : Reading (Option ActivationMark) := do
  if (← accept .plus).isSome then return some .activate
  else if (← accept .minus).isSome then return some .deactivate
  else return none

/-- Reads the text after a colon, if there is one. A colon without a text is no text. -/
def messageText : Reading (Option Content) := behindColon contentOf

/-- Reads a message, from its source to its text. -/
def message : Reading Clause := do
  let position := (← peek).start
  let source ← name
  let arrow ← expect .arrow "message arrow"
  let activation ← activationMark
  let target ← name
  let text ← messageText
  endStatement
  match Arrow.ofText? arrow.text with
  | none => unexpected "message arrow" arrow
  | some a => return .message ⟨source, target, a, text, activation, some position⟩

/-! ### Blocks -/

/-- The kind of block that the next token opens, unless it names a participant. The token stays
next. -/
def blockKind? : Reading (Option BlockKind) := do
  if ← checkKeyword (BlockKind.all.map BlockKind.text) then
    return BlockKind.ofText? (Text.lower (← peek).text)
  else return none

/-- Reads the line that opens a block, with its label. -/
def blockHead (kind : BlockKind) : Reading Block := do
  let keyword ← advance
  let label ← label
  endStatement
  return { kind, label, position := some keyword.start }

/-- What may follow the statements of a block, as a message says it. -/
def expectedAfter (kind : BlockKind) : String :=
  match kind.branchKeyword? with
  | none => "'end'"
  | some word => s!"'{word}' or 'end'"

/-- Reads the line that starts a further branch of the innermost open block, if its word is the one
for that kind of block. -/
def branchLine (opened : List OpenBlock) : Reading (Option String) := do
  let keyword ← peek
  match opened with
  | [] => unexpected "statement" keyword
  | b :: _ =>
    if b.head.kind.branchKeyword? = some (Text.lower keyword.text) then
      let _ ← advance
      let label ← label
      endStatement
      return label
    else unexpected (expectedAfter b.head.kind) keyword

/-! ### The diagram -/

/-- Reads a statement that opens and closes no block. What starts with no keyword is a message. -/
def line (d : Draft) : Reading Draft := do
  let word := Text.lower (← peek).text
  let second ← ahead 1
  if (← checkWord ["participant", "actor"]) && nameKinds.contains second.kind then
    return d.add (← declaration ((ParticipantKind.ofText? word).getD .participant))
  else if ← checkKeyword ["autonumber"] then
    let _ ← advance
    let _ ← restOfStatement
    endStatement
    return { d with autonumber := true }
  else if (← checkWord ["activate", "deactivate"]) && nameKinds.contains second.kind then
    return d.add [← activation (word == "activate")]
  else if (← checkWord ["note"]) && second.kind = .identifier then return d.add [← note]
  else return d.add [← message]

/-- Reads one statement, or a line that opens, divides or closes a block. -/
def statement (d : Draft) : Reading Draft := do
  if (← accept .newline).isSome then return d
  else if ← checkKeyword ["end"] then
    if d.opened.isEmpty then fail "statement"
    else
      let _ ← advance
      endStatement
      return d.closeBlock
  else if ← checkKeyword ["else", "and", "option"] then return d.branch (← branchLine d.opened)
  else
    match ← blockKind? with
    | some kind => return d.openBlock (← blockHead kind)
    | none => line d

/-- Reads a sequence diagram. A block that is still open at the end is unterminated. -/
def read : Reading SequenceDiagram := do
  skipNewlines
  let _ ← expectWord "sequencediagram"
  endStatement
  let d ← untilEnd statement {}
  match d.opened with
  | [] => return ⟨d.statements, d.autonumber, d.participants⟩
  | b :: _ => failAt (.unterminated b.head.kind.text b.head.position) (some (← peek).start)

end DiagramText.Sequence
