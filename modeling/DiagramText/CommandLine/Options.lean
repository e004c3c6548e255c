/-!
# Options

The arguments of the command are options and files in any order. Short options can be joined in one
argument, the value of an option is the rest of its argument or the next argument, and two hyphens
end the options.
-/

namespace DiagramText

/-- What the arguments ask for. Without any argument standard input is printed in canonical form. -/
structure Options where
  /-- The files to read, a hyphen being standard input. -/
  files : List String := []
  /-- Only tell whether the documents keep their meaning when they are written. -/
  check : Bool := false
  /-- The file to write to. -/
  output : Option String := none
  /-- Log what is read. -/
  verbose : Bool := false
  /-- Only show the options. -/
  help : Bool := false
deriving DecidableEq, Repr

/-- What is wrong with the arguments. The first thing that is wrong counts. -/
inductive UsageError where
  /-- There is no such option. -/
  | unknownOption (name : String)
  /-- The value of an option is missing. -/
  | missingValue (name : String)
  /-- An option that takes no value has one. -/
  | unexpectedValue (name : String)
  /-- There is no file to read under this name. -/
  | noFile (name : String)
deriving DecidableEq, Repr

namespace UsageError

/-- The error in words, with the option as it was given. -/
def message : UsageError → String
  | unknownOption name => s!"no such option: {name}"
  | missingValue name => s!"option {name} needs a value"
  | unexpectedValue name => s!"option {name} takes no value"
  | noFile name => s!"no file to read: {name}"

end UsageError

namespace Options

/-- The options in words, as `--help` prints them. -/
def helpText : String :=
  "Usage: main [OPTIONS] [FILES]...\n\n" ++
  "  Parse Mermaid diagrams and print their canonical form.\n\n" ++
  "Options:\n" ++
  "  --check            Only verify that each document survives a round trip\n" ++
  "  -o, --output TEXT  Write output to this file instead of stdout\n" ++
  "  -v, --verbose      Log progress to stderr\n" ++
  "  --help             Show this message and exit.\n"

/-- Options, and whether the last of them still lacks its value, which then is the next argument. -/
abbrev Pending := Options × Bool

/-- Adds the long option `name` with the value that its argument gives, if any. -/
def readLong (o : Options) (name : String) (value : Option String) : Except UsageError Pending :=
  match name, value with
  | "--check", none => .ok ({ o with check := true }, false)
  | "--verbose", none => .ok ({ o with verbose := true }, false)
  | "--help", none => .ok ({ o with help := true }, false)
  | "--output", none => .ok (o, true)
  | "--output", some v => .ok ({ o with output := some v }, false)
  | "--check", some _ => .error (.unexpectedValue name)
  | "--verbose", some _ => .error (.unexpectedValue name)
  | "--help", some _ => .error (.unexpectedValue name)
  | _, _ => .error (.unknownOption name)

/-- Adds the short options of one argument. What follows the letter of an option that takes a value
is that value. -/
def readShort (o : Options) : List Char → Except UsageError Pending
  | [] => .ok (o, false)
  | 'v' :: cs => readShort { o with verbose := true } cs
  | ['o'] => .ok (o, true)
  | 'o' :: cs => .ok ({ o with output := some (String.ofList cs) }, false)
  | c :: _ => .error (.unknownOption (String.ofList ['-', c]))

/-- Adds one argument `arg`. A hyphen alone is a file, and so is all that does not start with
one. -/
def readArgument (o : Options) (arg : String) : Except UsageError Pending :=
  match arg.toList with
  | '-' :: '-' :: cs =>
    let value := match cs.dropWhile (· != '=') with
      | [] => none
      | _ :: v => some (String.ofList v)
    readLong o (String.ofList ('-' :: '-' :: cs.takeWhile (· != '='))) value
  | '-' :: c :: cs => readShort o (c :: cs)
  | _ => .ok ({ o with files := o.files ++ [arg] }, false)

/-- Adds all arguments. Behind `--` all of them are files. -/
def readArguments (o : Options) : List String → Except UsageError Options
  | [] => .ok o
  | "--" :: args => .ok { o with files := o.files ++ args }
  | arg :: args =>
    match readArgument o arg with
    | .error e => .error e
    | .ok (o, false) => readArguments o args
    | .ok (o, true) =>
      match args with
      | [] => .error (.missingValue arg)
      | value :: args => readArguments { o with output := some value } args

/-- The options that arguments `args` mean, starting from none. -/
def ofArguments (args : List String) : Except UsageError Options := readArguments {} args

/-- The names to read from under the options `o`: the files, or standard input if there are none. -/
def sources (o : Options) : List String := if o.files.isEmpty then ["-"] else o.files

/-- The file to write to under the options `o`. An empty name is standard output, as if there were
none. -/
def outputFile? (o : Options) : Option String := o.output.filter fun name => !name.isEmpty

end Options
end DiagramText
