import DiagramText.Text.Blank

/-!
# Directories

A directory is a list of files under their paths. A folder is there as long as a file lies in it.
Names are looked up one part at a time: a part that is empty or one dot stays where it is, and two
dots go back. Of what is outside the directory only the folders on the way up are known, and the
null device.
-/

namespace DiagramText

/-- The parts of a path from the directory to a file or folder. The directory itself has the empty
path. -/
abbrev Path := List String

/-- The files under a directory with their texts. Folders are known by the files in them. -/
structure Directory where
  files : List (Path × String) := []
deriving DecidableEq, Repr

/-- Why a file cannot be written, by the errors of the system. -/
inductive WriteError where
  /-- A folder on the way is not there. -/
  | missing
  /-- A file is in the place of a folder on the way. -/
  | notFolder
  /-- A folder is in the place of the file. -/
  | isFolder
  /-- The name or a part of it is too long. -/
  | tooLong
deriving DecidableEq, Repr

namespace WriteError

/-- The number and the text that the system gives the error. -/
def message : WriteError → String
  | missing => "[Errno 2] No such file or directory"
  | notFolder => "[Errno 20] Not a directory"
  | isFolder => "[Errno 21] Is a directory"
  | tooLong => "[Errno 36] File name too long"

end WriteError

namespace Directory

/-! ### Looking up -/

/-- What a name leads to, as far as it is known. -/
inductive Place where
  | folder (path : Path)
  | file (path : Path) (text : String)
  /-- Nothing is there, but a file could be. -/
  | free (path : Path)
  /-- A folder outside the directory. -/
  | outside
  /-- A file could be there, in a folder outside the directory. -/
  | elsewhere
  | unreachable (cause : WriteError)
deriving DecidableEq, Repr

/-- The largest number of bytes in a part of a name, between two slashes. -/
def maxPartSize : Nat := 255

/-- The largest number of bytes in a name, its slashes included. -/
def maxNameSize : Nat := 4095

/-- What the folder `folder` holds under one part of a name. -/
def inFolder (d : Directory) (folder : Path) (part : String) : Place :=
  let path := folder ++ [part]
  match d.files.lookup path with
  | some text => .file path text
  | none =>
    if d.files.any fun f => path.isPrefixOf f.1 then .folder path else .free path

/-- Goes on from `place` by one part of a name. An empty part and `.` stay, `..` goes back. -/
def step (d : Directory) (place : Place) (part : String) : Place :=
  let stays := part = "" || part = "."
  match place with
  | .folder path =>
    if stays then .folder path
    else if part = ".." then (if path.isEmpty then .outside else .folder path.dropLast)
    else if maxPartSize < part.utf8ByteSize then .unreachable .tooLong
    else d.inFolder path part
  | .outside =>
    if stays || part = ".." then .outside
    else if maxPartSize < part.utf8ByteSize then .unreachable .tooLong
    else .elsewhere
  | .file .. => .unreachable .notFolder
  | .free _ | .elsewhere => .unreachable .missing
  | .unreachable cause => .unreachable cause

/-- The parts of a `name` between its slashes, empty ones included. -/
def pathOf (name : List Char) : Path := (Text.fields (· == '/') name).map String.ofList

/-- The parts of a `name`, without regard to slashes at its end. -/
def partsOf (name : String) : Path :=
  pathOf (name.toList.reverse.dropWhile (· == '/')).reverse

/-- What `parts` of a name lead to. A name that starts with a slash starts outside. -/
def follow (d : Directory) (name : String) (parts : Path) : Place :=
  if maxNameSize < name.utf8ByteSize then .unreachable .tooLong
  else parts.foldl d.step (if name.toList.head? = some '/' then .outside else .folder [])

/-- Whether a `name` can only be that of a folder, for it ends with a slash. -/
def isFolderName (name : String) : Bool := name.toList.getLast? == some '/'

/-- The name of the null device, which holds no text and keeps none. -/
def nullDevice : String := "/dev/null"

/-- The text of the file that a `name` leads to, if it leads to one. -/
def read? (d : Directory) (name : String) : Option String :=
  if name = nullDevice then some ""
  else match d.follow name (partsOf name) with
    | .file _ text => if isFolderName name then none else some text
    | _ => none

/-! ### Writing -/

/-- The directory with a text under `path`, in place of the file that is there. -/
def put (d : Directory) (path : Path) (text : String) : Directory :=
  ⟨d.files.filter (·.1 != path) ++ [(path, text)]⟩

/-- The directory with a text written to the file that `name` leads to. A file outside the directory
leaves it as it is. -/
def write (d : Directory) (name text : String) : Except WriteError Directory :=
  if name = nullDevice then .ok d
  else
    let parts := partsOf name
    let last := if isFolderName name then "." else parts.getLast?.getD ""
    match d.step (d.follow name parts.dropLast) last with
    | .unreachable cause => .error cause
    | .folder _ | .outside => .error .isFolder
    | .file path _ | .free path => .ok (d.put path text)
    | .elsewhere => .ok d

/-- The files that are not in the directory `before`, under their names. A file that was overwritten
is not among them. -/
def newFiles (d before : Directory) : List (String × String) :=
  (d.files.filter fun f => (before.files.lookup f.1).isNone).map fun f => ("/".intercalate f.1, f.2)

/-- A directory of `files` under their names, which are taken apart at slashes. -/
def ofFiles (files : List (String × String)) : Directory :=
  ⟨files.map fun f => (pathOf f.1.toList, f.2)⟩

end Directory
end DiagramText
