import DiagramText.CommandLine.Options
import DiagramText.Program

/-!
# Reports

What the command says about documents. It prints their canonical form, or tells for each of them
whether reading its canonical form gives the same program again. A document that is malformed is
reported; where reading stops for any other reason, the command ends with the log so far. What is
printed, unlike the log and what is written to a file, holds no control sequences. These tell a
terminal how to show what follows: an escape character and a bracket, then parameters, and a letter.
-/

namespace DiagramText.Text

/-! ### Control sequences -/

/-- A character `c` that may stand between the bracket and the letter of a control sequence. -/
def isControlParameter (c : Char) : Bool := c.isDigit || c == ';' || c == '?'

/-- The length of the control sequence that a text starts with, if it starts with one. -/
def controlSequenceLength? : List Char → Option Nat
  | '\x1b' :: '[' :: cs =>
    let n := (cs.takeWhile isControlParameter).length
    match cs.drop n with
    | c :: _ => if c.isAlpha then some (n + 3) else none
    | [] => none
  | _ => none

/-- The characters outside the control sequences of a text `cs`. What a sequence leaves side by side
is not looked at again. -/
def dropControlSequences (cs : List Char) : List Char :=
  match cs with
  | [] => []
  | c :: rest =>
    match controlSequenceLength? (c :: rest) with
    | some n => dropControlSequences (rest.drop (n - 1))
    | none => c :: dropControlSequences rest
termination_by cs.length

/-- The text `s` without its control sequences, as it is printed. -/
def withoutControlSequences (s : String) : String :=
  String.ofList (dropControlSequences s.toList)

end DiagramText.Text

namespace DiagramText

/-! ### What the command does -/

/-- A `text` to read, and the name that messages give it. -/
structure Source where
  name : String
  text : String
deriving DecidableEq, Repr

/-- Lines of text, each with a break at its end. -/
def unlines (lines : List String) : String := String.join (lines.map (· ++ "\n"))

/-- What the command does in the end: its exit code, what it prints, and a `file` to be written,
under its name. -/
structure Report where
  exitCode : Nat := 0
  stdout : String := ""
  stderr : String := ""
  file : Option (String × String) := none
deriving DecidableEq, Repr

namespace Report

/-- The report of a command that ends before it is done, with the `log` so far. Nothing is printed
or written. -/
def stopped (log : List String) : Report := { exitCode := 1, stderr := unlines log }

/-! ### The log -/

/-- The log line for a segment `s` that is about to be read. -/
def segmentLine (s : Segment) : String :=
  s!"DEBUG parsing {s.dialect.name} diagram at line {s.line}"

/-- The segments that are read, up to the first that is malformed, which is among them. -/
def reached : List Segment → List Segment
  | [] => []
  | s :: ss => s :: match s.read with
    | .ok _ => reached ss
    | .error _ => []

/-- The log of reading a `text`. A text that is not cut into segments has none. -/
def readLog (text : String) : List String :=
  match Document.segments text with
  | .ok segments => (reached segments).map segmentLine
  | .error _ => []

/-- The lines of a log that are shown, which are none without `--verbose`. -/
def shown (o : Options) (log : List String) : List String := if o.verbose then log else []

/-! ### Printing -/

/-- The canonical forms of documents, one after the other, behind those of `texts`. The first one
that is malformed ends the command. -/
def print (o : Options) (log : List String) (texts : List String) : List Source → Report
  | [] =>
    let text := "\n".intercalate texts
    let stderr := unlines log
    match o.outputFile? with
    | none => { stdout := Text.withoutControlSequences text, stderr }
    | some name => { file := some (name, text), stderr }
  | s :: ss =>
    let log := log ++ shown o (readLog s.text)
    match Program.format {} s.text with
    | .ok text => print o log (texts ++ [text]) ss
    | .error (.malformed e) =>
      stopped (log ++
        [Text.withoutControlSequences s!"parse error in {s.name}:\n{e.message}"])
    | .error _ => stopped log

/-! ### Checking -/

/-- What becomes of a document that is read, written and read again. It is `unread` if reading stops
for a reason that is no malformed text. -/
inductive Verdict where
  | same
  | different
  | malformed (error : ReadError)
  | unread
deriving DecidableEq, Repr

/-- Reads `text`, writes the program and reads it again. The two programs are compared by
`Program.same`, which has no limit on the depth of their trees, so a verdict on deeply nested blocks
holds only up to the depth that a recursive comparison can reach. -/
def verdict (text : String) : Verdict :=
  match (do
    let first ← Program.read text
    let second ← Program.read (first.write {})
    return first.same second) with
  | .ok true => .same
  | .ok false => .different
  | .error (.malformed e) => .malformed e
  | .error _ => .unread

/-- The log of reading a `text`, writing the program and reading it again. -/
def verdictLog (text : String) : List String :=
  readLog text ++ match Program.read text with
    | .ok p => readLog (p.write {})
    | .error _ => []

namespace Verdict

/-- The lines of the log that tell a verdict. That a document stays the same is told only on
demand. -/
def lines (o : Options) (name : String) : Verdict → List String
  | same => shown o [s!"INFO {name}: ok"]
  | different => [s!"ERROR {name}: regenerated text parses to a different tree"]
  | malformed e => [s!"ERROR {name}: {e.message}"]
  | unread => []

end Verdict

/-- The report on `verdicts`. The command fails unless all documents stay the same. -/
def summary (log : List String) (verdicts : List Verdict) : Report :=
  let clean := verdicts.count .same
  { exitCode := if clean = verdicts.length then 0 else 1
    stdout := unlines [s!"{clean}/{verdicts.length} documents round-trip cleanly"]
    stderr := unlines log }

/-- The report on the verdicts on documents, after some that are known already. An `unread` document
ends the check. -/
def check (o : Options) (log : List String) (verdicts : List Verdict) : List Source → Report
  | [] => summary log verdicts
  | s :: ss =>
    let v := verdict s.text
    let log := log ++ shown o (verdictLog s.text) ++ v.lines o s.name
    if v = .unread then stopped log else check o log (verdicts ++ [v]) ss

/-- The report on documents that the options `o` ask for: a check, or their canonical forms. -/
def ofSources (o : Options) (sources : List Source) : Report :=
  if o.check then check o [] [] sources else print o [] [] sources

end Report
end DiagramText
