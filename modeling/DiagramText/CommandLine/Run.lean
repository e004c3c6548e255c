import DiagramText.CommandLine.Directory
import DiagramText.CommandLine.Report
import DiagramText.Text.Line
import DiagramText.Text.Quoted

/-!
# Running the command

A run of the command in a directory reads its sources, makes its report, and writes the file that
the report names. A file that cannot be written makes the run fail, and no name of a file holds the
null character.
-/

namespace DiagramText

/-- Why a run makes no report: its arguments are wrong, or a name cannot be that of a file. -/
inductive RunFailure where
  /-- The arguments are wrong. -/
  | usage (error : UsageError)
  /-- The name of a source holds the null character. -/
  | nullInName (name : String)
deriving DecidableEq, Repr

namespace RunFailure

/-- The failure in words, as it is printed. -/
def message : RunFailure → String
  | usage error => error.message
  | nullInName name => s!"null character in {Text.quoted name}"

/-- The exit code of a failed run. Wrong arguments have one of their own. -/
def exitCode : RunFailure → Nat
  | usage _ => 2
  | nullInName _ => 1

end RunFailure

/-- Whether a `text` holds the null character, which no name of a file can hold. -/
def hasNull (text : String) : Bool := text.toList.contains '\x00'

namespace Source

/-- The source of a `text`, in which every line ends in a line feed, as texts are when they are
read. -/
def ofText (name text : String) : Source :=
  ⟨name, String.ofList (Text.withLineFeeds text.toList)⟩

/-- The sources under names, `-` being standard input, which has no more text once it is read. -/
def readAll (d : Directory) (stdin : String) : List String → Except RunFailure (List Source)
  | [] => .ok []
  | "-" :: names => do
    let sources ← readAll d "" names
    return ofText "<stdin>" stdin :: sources
  | name :: names =>
    if hasNull name then .error (.nullInName name)
    else match d.read? name with
      | none => .error (.usage (.noFile name))
      | some text => do
        let sources ← readAll d stdin names
        return ofText name text :: sources

end Source

namespace Report

/-- The report after the file `name` could not be written. What was printed stays. -/
def unwritten (r : Report) (name cause : String) : Report :=
  let message := s!"error: cannot write '{name}': {cause}: {Text.quoted name}\n"
  { r with
    exitCode := 1
    stderr := r.stderr ++ Text.withoutControlSequences message
    file := none }

/-- Writes the file that a report `r` names, if it names one, and gives the directory after that. -/
def save (r : Report) (d : Directory) : Report × Directory :=
  match r.file with
  | none => (r, d)
  | some (name, text) =>
    if hasNull name then ({ r with exitCode := 1, file := none }, d)
    else match d.write name text with
      | .ok d => (r, d)
      | .error e => (r.unwritten name e.message, d)

end Report

/-- Runs the command with `args` in a directory, and gives the directory it leaves behind. -/
def Directory.run (d : Directory) (args : List String) (stdin : String) :
    Except RunFailure (Report × Directory) := do
  let o ← (Options.ofArguments args).mapError .usage
  if o.help then return ({ stdout := Options.helpText }, d)
  let sources ← Source.readAll d stdin o.sources
  return (Report.ofSources o sources).save d

end DiagramText
