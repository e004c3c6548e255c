import DiagramText.Dialect
import DiagramText.ReadError
import DiagramText.Text.Blank
import DiagramText.Text.Case
import DiagramText.Text.Line
import DiagramText.Text.Word

/-!
# Documents

A document holds diagrams one after the other. A diagram starts at a header line that is the first
line or follows a blank line, and runs to the next such header; a comment counts as a blank line.
-/

namespace DiagramText

/-! ### Header lines -/

namespace Dialect

/-- The words that open a diagram, in lower case, with the dialects that they open. -/
def headerWords : List (String × Dialect) :=
  [("flowchart", flowchart), ("graph", flowchart), ("sequencediagram", sequence),
   ("classdiagram", classes), ("classdiagram-v2", classes), ("erdiagram", entities),
   ("statediagram", states), ("statediagram-v2", states), ("gantt", gantt)]

/-- The dialect that a header word opens, in any letter case, by `headerWords`. -/
def ofHeaderWord? (word : String) : Option Dialect := headerWords.lookup (Text.lower word)

end Dialect

namespace Header

/-- A character `c` of a header word after its first, which has to be an ASCII letter. -/
def isWordPart (c : Char) : Bool := Text.isWord c || c == '-'

/-- Whether nothing but blanks stands here, or something that `;` or `%%` keeps apart on the same
line. -/
def isTail (cs : List Char) : Bool :=
  match Text.trimLeft cs with
  | [] => true
  | ';' :: rest => !rest.contains '\n'
  | '%' :: '%' :: rest => !rest.contains '\n'
  | _ => false

/-- Whether two letters stand at the start of `cs` after at least one blank, and only a tail
follows. These are the letters of a direction. -/
def isArgument (cs : List Char) : Bool :=
  match Text.trimLeft cs with
  | a :: b :: rest =>
    (cs.head?.any Text.isBlank) && a.isAlpha && b.isAlpha && isTail rest
  | _ => false

/-- The dialect that a line opens: a header word with a tail behind it, for a flowchart also with an
`isArgument` between them. -/
def dialect? (line : List Char) : Option Dialect :=
  let body := (line.reverse.dropWhile Text.isLineBreak).reverse
  let start := Text.trimLeft body
  let rest := start.dropWhile isWordPart
  if start.head?.any Char.isAlpha then do
    let dialect ← Dialect.ofHeaderWord? (String.ofList (start.takeWhile isWordPart))
    if isTail rest || (dialect = .flowchart && isArgument rest) then some dialect else none
  else none

end Header

/-! ### Segments -/

/-- The `text` of one diagram, the dialect it opens and the place where it starts in the
document. -/
structure Segment where
  dialect : Dialect
  text : String
  line : Nat
  offset : Nat
deriving DecidableEq, Repr

namespace Document

/-- Whether a `line` is empty after trimming, or a comment. A header may stand behind either. -/
def isBlankLine (line : List Char) : Bool :=
  match Text.trim line with
  | [] => true
  | '%' :: '%' :: _ => true
  | _ => false

/-- The error for a `line` that starts no diagram, before the first one. It is placed at the first
character that is no blank. -/
def headerExpected (line : List Char) (number offset : Nat) : ReadError where
  cause := .headerExpected (String.ofList (Text.trim line))
  position := some ⟨number, line.length - (Text.trimLeft line).length, offset⟩

/-- A segment that starts where a header stands and holds the given lines; more lines may follow. -/
structure OpenSegment where
  dialect : Dialect
  line : Nat
  offset : Nat
  lines : List (List Char)

namespace OpenSegment

/-- The segment with one `line` more. -/
def push (s : OpenSegment) (line : List Char) : OpenSegment :=
  { s with lines := s.lines ++ [line] }

/-- The segment `s` as it stands, with its lines as one text. -/
def close (s : OpenSegment) : Segment :=
  ⟨s.dialect, String.ofList s.lines.flatten, s.line, s.offset⟩

end OpenSegment

/-- The segments of the remaining lines, the first of them having the given `number` and `offset`.
Blank lines before the first header belong to no segment; any other line there is an error. -/
def segmentsFrom (current : Option OpenSegment) (afterBlank : Bool) (number offset : Nat) :
    List (List Char) → Except ReadError (List Segment)
  | [] =>
    match current with
    | none => .error ⟨.headerMissing, some ⟨number, 0, offset⟩⟩
    | some s => .ok [s.close]
  | line :: lines =>
    match (if afterBlank then Header.dialect? line else none) with
    | some dialect => do
      let later ← segmentsFrom (some ⟨dialect, number, offset, [line]⟩) (isBlankLine line)
        (number + 1) (offset + line.length) lines
      .ok ((current.map OpenSegment.close).toList ++ later)
    | none =>
      match current with
      | some s => segmentsFrom (some (s.push line)) (isBlankLine line) (number + 1)
          (offset + line.length) lines
      | none =>
        if isBlankLine line then
          segmentsFrom none true (number + 1) (offset + line.length) lines
        else .error (headerExpected line number offset)

/-- The segments of a document `src`, in order. Its start counts as the place behind a blank
line. -/
def segments (src : String) : Except ReadError (List Segment) :=
  segmentsFrom none true 1 0 (Text.documentLines src.toList)

/-- The dialect of the first diagram of a document `src`. Segments behind the first do not matter,
but have to be found. -/
def dialect (src : String) : Except ReadError Dialect := do
  match ← segments src with
  | s :: _ => .ok s.dialect
  | [] => .error ⟨.headerMissing, none⟩

end Document
end DiagramText
