import DiagramText.CommandLine.Run

/-!
# Command line

Reads documents from files or standard input and prints their canonical form, or tells whether they
keep their meaning when they are written and read again.
-/

namespace DiagramText

/-- Reads the text under a name, `-` being standard input. -/
def Source.load (name : String) : IO (Except UsageError Source) := do
  if name = "-" then
    return .ok (.ofText "<stdin>" (← (← IO.getStdin).readToEnd))
  try
    return .ok (.ofText name (← IO.FS.readFile name))
  catch _ =>
    return .error (.noFile name)

/-- Reads the texts under `names`. The first that there is not ends the run. -/
def Source.loadAll (names : List String) : IO (Except UsageError (List Source)) := do
  return (← names.mapM load).mapM id

/-- Why a file could not be written, in the words of `WriteError`. -/
def WriteError.describe : IO.Error → String
  | .noFileOrDirectory .. => missing.message
  | .inappropriateType _ 20 _ => notFolder.message
  | .inappropriateType .. => isFolder.message
  | .invalidArgument _ 36 _ => tooLong.message
  | e => toString e

/-- Writes the file that a report `r` names, if it names one. A file that cannot be written changes
the report. -/
def Report.store (r : Report) : IO Report := do
  match r.file with
  | none => return r
  | some (name, text) =>
    try
      IO.FS.writeFile name text
      return r
    catch e =>
      return r.unwritten name (WriteError.describe e)

/-- Prints a report `r`, and gives its exit code. -/
def Report.show (r : Report) : IO UInt32 := do
  IO.eprint r.stderr
  IO.print r.stdout
  return r.exitCode.toUInt32

/-- Prints why there is no report, the failure `f`, and gives the exit code for that. -/
def RunFailure.show (f : RunFailure) : IO UInt32 := do
  IO.eprintln f.message
  return f.exitCode.toUInt32

/-- Runs the command with options: with `--help` it only prints the help. -/
def Options.execute (o : Options) : IO UInt32 := do
  if o.help then
    IO.print helpText
    return 0
  match ← Source.loadAll o.sources with
  | .error e => (RunFailure.usage e).show
  | .ok sources => (← (Report.ofSources o sources).store).show

end DiagramText

/-- Runs the command with its arguments `args`, where an argument that is no option names a
source. -/
def main (args : List String) : IO UInt32 :=
  match DiagramText.Options.ofArguments args with
  | .error e => (DiagramText.RunFailure.usage e).show
  | .ok o => o.execute
