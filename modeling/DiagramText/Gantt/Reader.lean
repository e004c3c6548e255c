import DiagramText.Calendar.Format
import DiagramText.Gantt.Dependency
import DiagramText.Reading
import DiagramText.Token.Lexeme

/-!
# Reading gantt charts

A directive takes the rest of its line as its value. A task is a name, a colon, and parts between
commas: status words first, then by their number the end; the start and the end; or the id, the
start and the end.
-/

namespace DiagramText.Gantt

open Reading

/-! ### Dates and durations -/

/-- Reads a date by the format that `format` spells. Blanks around the date do not matter. -/
def readDate (text format : String) (position : Option Position) : Except Failure Moment :=
  let f := DateFormat.ofText format
  let trimmed := Text.trim text.toList
  if !f.isSimple then .error .repeatedDateField
  else match f.read? trimmed with
    | some m => .ok m
    | none => .error (.malformed ⟨.invalidDate (String.ofList trimmed) format, position⟩)

/-- Writes a date by the format that `format` spells. -/
def writeDate (m : Moment) (format : String) : String := (DateFormat.ofText format).write m

/-- The digits of a duration `cs` and its unit, which is the last character. -/
def durationParts? (cs : List Char) : Option (List Char × DurationUnit) := do
  let unit ← (← cs.getLast?) |> DurationUnit.ofLetter?
  let digits := cs.dropLast
  if !digits.isEmpty && digits.all Text.isDecimal then some (digits, unit) else none

/-- Whether a text `cs` is a number, with a fraction or without, and then letters. If it is no
duration, it is a malformed one. -/
def looksLikeDuration (cs : List Char) : Bool :=
  let rest := cs.drop (Measure.number cs)
  Measure.number cs != 0 && !rest.isEmpty && rest.all Char.isAlpha

/-- Reads the end of a task: a duration, or else a date in the `format` of the chart. -/
def readFinish (text format : String) (position : Position) : Except Failure Finish :=
  let fail (cause : ReadError.Cause) := .error (.malformed ⟨cause, some position⟩)
  match durationParts? text.toList with
  | some (digits, unit) =>
    if Text.maxDigits < digits.length then .error .oversizedNumber
    else .ok (.duration ⟨Text.decimalValue digits, unit⟩)
  | none =>
    if looksLikeDuration text.toList then fail (.invalidDuration text)
    else if text.isEmpty then fail .missingEnd
    else (readDate text format (some position)).map .date

/-- Reads the start of a task, which can only wait for ids that are `known`. -/
def readStart (text format : String) (known : List String) (position : Position) :
    Except Failure Start :=
  let fail (cause : ReadError.Cause) := .error (.malformed ⟨cause, some position⟩)
  match (Text.words text.toList).map String.ofList with
  | word :: ids =>
    if Text.lower word != "after" then (readDate text format (some position)).map .date
    else if ids.isEmpty then fail .noDependency
    else match ids.find? fun id => !known.contains id with
      | some id => fail (.undeclaredDependency id)
      | none => .ok (.after ids)
  | [] => (readDate text format (some position)).map .date

/-! ### Tasks -/

/-- Whether a text is a task id: an ASCII letter or underscore, then word characters and hyphens. -/
def isTaskId : List Char → Bool
  | [] => false
  | c :: cs => (c.isAlpha || c == '_') && cs.all fun d => Text.isWord d || d == '-'

/-- The status that a `part` is the word for, in any letter case. -/
def statusOf? (part : String) : Option TaskStatus := TaskStatus.ofText? (Text.lower part)

/-- Takes the status off the `parts` of a task, of which there may be one. -/
def takeStatus (position : Position) (parts : List String) :
    Except Failure (Option TaskStatus × List String) :=
  match parts with
  | [] => .ok (none, [])
  | p :: ps =>
    match statusOf? p with
    | none => .ok (none, p :: ps)
    | some status =>
      match ps.head?.filter fun q => (statusOf? q).isSome with
      | some q =>
        .error (.malformed
          ⟨.unexpected "task start or duration" (Text.quoted q), some position⟩)
      | none => .ok (some status, ps)

/-- The parts of the `details` of a task between commas, without the blanks around them. There is
always one. -/
def partsOf (details : String) : List String :=
  (Text.fields (· == ',') details.toList).map fun p => String.ofList (Text.trim p)

/-- Reads a task from its `name` and the text after its colon, the start of which has the position
`detailsAt`. -/
def readTask (name details format : String) (known : List String) (position detailsAt : Position) :
    Except Failure Task := do
  let (status, parts) ← takeStatus detailsAt (partsOf details)
  match parts with
  | [finish] =>
    let finish ← readFinish finish format detailsAt
    return { name, finish, status, position := some position }
  | [start, finish] =>
    let start ← readStart start format known detailsAt
    let finish ← readFinish finish format detailsAt
    return { name, finish, status, start := some start, position := some position }
  | [id, start, finish] =>
    if !isTaskId id.toList then .error (.malformed ⟨.invalidTaskId id, some detailsAt⟩)
    let start ← readStart start format known detailsAt
    let finish ← readFinish finish format detailsAt
    return { name, finish, id := some id, status, start := some start, position := some position }
  | _ =>
    .error (.malformed ⟨.unexpected "'[id,] [start,] end'" (Text.quoted details), some detailsAt⟩)

/-! ### The chart -/

/-- Sets the `value` of a `directive`, named in lower case, if there is such a directive. -/
def Config.set? (c : Config) (directive value : String) : Option Config :=
  match directive with
  | "title" => some { c with title := some value }
  | "dateformat" => some { c with dateFormat := value }
  | "axisformat" => some { c with axisFormat := some value }
  | "excludes" => some { c with excludes := some value }
  | "todaymarker" => some { c with todayMarker := some value }
  | _ => none

/-- The chart with one more task `t` in its last section, if there is a section. -/
def addTask? (g : Gantt) (t : Task) : Option Gantt :=
  g.sections.getLast?.map fun s =>
    { g with sections := g.sections.dropLast ++ [{ s with tasks := s.tasks ++ [t] }] }

/-- Reads a directive and its value, which cannot be empty. -/
def directiveLine (g : Gantt) : Reading Gantt := do
  let token ← advance
  let value ← restOfStatement
  if value.isEmpty then fail s!"value for {token.text}"
  else return { g with config := (g.config.set? (Text.lower token.text) value).getD g.config }

/-- Reads the line that starts a section, whose name cannot be empty. -/
def sectionLine (g : Gantt) : Reading Gantt := do
  let _ ← advance
  let name ← restOfStatement
  if name.isEmpty then fail "section name"
  else return { g with sections := g.sections ++ [{ name }] }

/-- Reads a task into the last section, which has to be there. -/
def taskLine (g : Gantt) : Reading Gantt := do
  let first ← peek
  let name ← rawUntil [.colon]
  if name.isEmpty then fail "task name"
  else
    let _ ← expect .colon "':' after task name"
    let text ← expect .text "task metadata"
    if g.sections.isEmpty then
      failAt (.unexpected "'section' before first task" (Text.quoted name)) (some first.start)
    else
      let t ← StateT.lift <|
        readTask name text.text g.config.dateFormat g.taskIds first.start text.start
      return (g.addTask? t).getD g

/-- Reads one statement. A word before a colon is the name of a task, even if it is a keyword
elsewhere. -/
def statement (g : Gantt) : Reading Gantt := do
  let token ← peek
  let second ← ahead 1
  let word := if token.kind = .identifier && second.kind != .colon then Text.lower token.text
    else ""
  if (← accept .newline).isSome then return g
  else
    let g ←
      if (g.config.set? word "").isSome then directiveLine g
      else if word = "section" then sectionLine g
      else taskLine g
    endStatement
    return g

/-- Reads a gantt chart. Its date format may change between tasks. -/
def read : Reading Gantt := do
  skipNewlines
  let _ ← expectWord "gantt"
  endStatement
  untilEnd statement {}

end DiagramText.Gantt
