import DiagramText.Reading
import DiagramText.States.Basic
import DiagramText.Text.Quoted

/-!
# Reading state diagrams

A state diagram is read statement by statement. A state is put into the scope where it is first
mentioned, and every later mention, in any scope, means that state. A brace opens the first region
of a composite state, a line of hyphens starts its next region, and a closing brace goes back to the
scope around it. A composite state may be opened again, which continues its first region.
-/

namespace DiagramText.States

open Reading

/-! ### What has been read -/

/-- An open scope: a `region` of a composite state, the first region being number zero. -/
structure OpenScope where
  owner : String
  region : Nat
deriving DecidableEq

/-- A state diagram of which a part has been read. The innermost of the `opened` scopes comes
first. -/
structure Draft where
  version : Version := .v2
  direction : Option Direction := none
  scope : Scope State := {}
  opened : List OpenScope := []
deriving DecidableEq

namespace State

/-- Changes the given `region` of a state by `f`. The first region makes it composite. -/
def modifyRegion (region : Nat) (f : Scope State → Scope State) (s : State) : State :=
  match region with
  | 0 =>
    let scope := f s.ownScope
    { s with children := some scope.states, transitions := scope.transitions, notes := scope.notes }
  | n + 1 => { s with regions := s.regions.modify n f }

end State

namespace Draft

/-- The state with an `id`, in any scope. -/
def state? (d : Draft) (id : String) : Option State := State.findList? id d.scope.states

/-- Changes the state with an `id` by `f`, in any scope. -/
def modify (d : Draft) (id : String) (f : State → State) : Draft :=
  { d with scope := { d.scope with states := State.modifyList id f d.scope.states } }

/-- Changes the innermost open scope of `d`, or the outermost one of the diagram if none is open. -/
def modifyScope (d : Draft) (f : Scope State → Scope State) : Draft :=
  match d.opened with
  | [] => { d with scope := f d.scope }
  | s :: _ => d.modify s.owner (State.modifyRegion s.region f)

/-- Mentions the state of a `token`, which puts it into the innermost open scope if it is new. A
state in another scope stays there. -/
def mention (d : Draft) (token : Token) : Draft :=
  if (d.state? token.text).isSome then d
  else d.modifyScope fun s =>
    { s with states := s.states ++ [{ id := token.text, position := some token.start }] }

/-- Opens the first region of the state `id`, which makes it composite. A second time it is
continued. -/
def openScope (d : Draft) (id : String) : Draft :=
  let d := d.modify id fun s => { s with children := some (s.children.getD []) }
  { d with opened := ⟨id, 0⟩ :: d.opened }

/-- Goes back to the scope around the innermost open one of `d`. -/
def closeScope (d : Draft) : Draft := { d with opened := d.opened.tail }

/-- Starts the next region of the state that owns the innermost open scope. -/
def nextRegion (d : Draft) : Draft :=
  match d.opened with
  | [] => d
  | s :: outer =>
    let count := ((d.state? s.owner).map (·.regions.length)).getD 0
    let d := d.modify s.owner fun t => { t with regions := t.regions ++ [{}] }
    { d with opened := ⟨s.owner, count + 1⟩ :: outer }

/-- Sets the `direction` of the state that owns the innermost open scope, or of the diagram. -/
def setDirection (d : Draft) (direction : Direction) : Draft :=
  match d.opened with
  | [] => { d with direction := some direction }
  | s :: _ => d.modify s.owner fun t => { t with direction := some direction }

end Draft

/-! ### Statements -/

/-- Reads a state and mentions it, and gives its id. -/
def stateRef (d : Draft) : Reading (Draft × String) := do
  let token ← expect .identifier "state id"
  return (d.mention token, token.text)

/-- Reads the description of the state `id` after a colon, if there is one. It becomes the label of
the state. -/
def description (d : Draft) (id : String) : Reading Draft := do
  match ← accept .colon with
  | none => return d
  | some _ =>
    let text ← expect .text "state description"
    let label ← content text.text
    return d.modify id fun s => { s with label := some label }

/-- What the double angle brackets after a state may hold, as a message says it. -/
def kindExpected : String := "'choice', 'fork' or 'join'"

/-- Reads the kind of the state `id` between double angle brackets, if there is one. -/
def stateKind (d : Draft) (id : String) : Reading Draft := do
  match ← accept .stereotypeOpen with
  | none => return d
  | some _ =>
    let token ← expect .identifier kindExpected
    match StateKind.ofText? (Text.lower token.text) with
    | none => unexpected kindExpected token
    | some kind =>
      let _ ← expect .stereotypeClose "'>>'"
      return d.modify id fun s => { s with kind }

/-- Reads a label in quotes with the word `as` that joins it to its state, if there is one. -/
def quotedLabel : Reading (Option String) := do
  match ← accept .string with
  | none => return none
  | some token =>
    let _ ← expectWord "as"
    return some (Text.unquote token.text)

/-- Reads the declaration of a state, which opens its scope if a brace ends it. -/
def declaration (d : Draft) : Reading Draft := do
  let _ ← advance
  let quoted ← quotedLabel
  let (d, id) ← stateRef d
  let d ← match quoted with
    | none => pure d
    | some text =>
      let label ← content text
      pure (d.modify id fun s => { s with label := some label })
  let d ← stateKind d id
  let d ← description d id
  let brace ← accept .leftBrace
  let d := if brace.isSome then d.openScope id else d
  endStatement
  return d

/-- Reads one end of a transition, which is a state, or the `pseudostate` that may stand there. -/
def transitionEnd (d : Draft) (pseudostate : String) : Reading (Draft × String) := do
  match ← accept .pseudostate with
  | some _ => return (d, pseudostate)
  | none => stateRef d

/-- Reads the label of a transition after a colon, if there is one. A colon without a text is no
label. -/
def transitionLabel : Reading (Option Content) := behindColon contentOf

/-- Reads a transition into the innermost open scope, after its ends have been mentioned. -/
def transition (d : Draft) : Reading Draft := do
  let first ← peek
  let (d, source) ← transitionEnd d startId
  let _ ← expect .transition "'-->'"
  let (d, target) ← transitionEnd d endId
  let label ← transitionLabel
  endStatement
  let transition := { source, target, label, position := some first.start }
  return d.modifyScope fun s => { s with transitions := s.transitions ++ [transition] }

/-- Reads a state on a line of its own, with its description if there is one. -/
def plainState (d : Draft) : Reading Draft := do
  let (d, id) ← stateRef d
  let d ← description d id
  endStatement
  return d

/-! ### Notes -/

/-- Reads the lines of a note up to the line that ends it, which starts with `end note`. -/
def noteLines (keyword : Token) : Reading (List String) :=
  loop (fun lines => do
    if (← checkWord ["end"]) && (← ahead 1).isWord ["note"] then return .inr lines
    else if ← look Cursor.atEnd then
      failAt (.unterminated "note" (some keyword.start)) (some (← peek).start)
    else
      let line ← restOfStatement
      endStatement
      return .inl (lines ++ [line])) []

/-- Reads the text of a note whose first word is `keyword`: after a colon, or as lines of its
own. -/
def noteText (keyword : Token) : Reading String := do
  match ← accept .colon with
  | some _ =>
    let text ← expect .text "note text"
    endStatement
    return text.text
  | none =>
    endStatement
    let lines ← noteLines keyword
    let _ ← advance
    let _ ← advance
    endStatement
    return "\n".intercalate lines

/-- Reads a note into the innermost open scope of `d`. The state that it is about is mentioned by
it. -/
def note (d : Draft) : Reading Draft := do
  let keyword ← advance
  let side ← advance
  let _ ← expectWord "of"
  let (d, state) ← stateRef d
  let placement : NotePlacement := if side.isWord ["left"] then .leftOf else .rightOf
  let text ← content (← noteText keyword)
  let note := ⟨state, placement, text⟩
  return d.modifyScope fun s => { s with notes := s.notes ++ [note] }

/-! ### The diagram -/

/-- Reads one statement, or a line that opens, divides or closes a scope. -/
def statement (d : Draft) : Reading Draft := do
  let token ← peek
  let second ← ahead 1
  if ← check [.newline, .semicolon] then
    let _ ← advance
    return d
  else if token.kind = .rightBrace then
    if d.opened.isEmpty then fail "statement"
    else
      let _ ← advance
      endStatement
      return d.closeScope
  else if token.isWord ["state"] && (second.kind = .identifier || second.kind = .string) then
    declaration d
  else if token.isWord ["note"] && second.isWord ["left", "right"] then note d
  else if token.isWord ["direction"] && second.kind = .identifier then
    let _ ← advance
    let direction ← takeDirection "direction"
    endStatement
    return d.setDirection direction
  else if token.kind = .regionSeparator then
    if d.opened.isEmpty then fail "state, transition or note"
    else
      let _ ← advance
      endStatement
      return d.nextRegion
  else if token.kind = .pseudostate || second.kind = .transition then transition d
  else if token.kind = .identifier then plainState d
  else fail "state, transition or note"

/-- Reads the header line, which tells the version. -/
def header : Reading Draft := do
  skipNewlines
  let token ← expect .identifier "'stateDiagram'"
  let version ← match Text.lower token.text with
    | "statediagram" => pure Version.v1
    | "statediagram-v2" => pure Version.v2
    | _ => unexpected "'stateDiagram' or 'stateDiagram-v2'" token
  endStatement
  return { version }

/-- Reads a state diagram. A scope that is still open at the end is unterminated. -/
def read : Reading StateDiagram := do
  let d ← untilEnd statement (← header)
  match d.opened with
  | [] => return ⟨d.version, d.direction, d.scope⟩
  | s :: _ =>
    let openedAt := (d.state? s.owner).bind State.position
    failAt (.unterminated "state" openedAt) (some (← peek).start)

end DiagramText.States
