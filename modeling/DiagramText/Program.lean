import DiagramText.Classes.Reader
import DiagramText.Classes.Writer
import DiagramText.Diagram
import DiagramText.Document
import DiagramText.Entities.Reader
import DiagramText.Entities.Writer
import DiagramText.Flowchart.Reader
import DiagramText.Flowchart.Writer
import DiagramText.Gantt.Writer
import DiagramText.Sequence.Reader
import DiagramText.Sequence.Writer
import DiagramText.States.Reader
import DiagramText.States.Writer
import DiagramText.Token.Scan

/-!
# Reading and writing programs

A document is read segment by segment, each into one diagram. A program is written in canonical
form: one diagram after the other with a blank line between them. Reading what was written is meant
to give the same program again.
-/

namespace DiagramText

/-! ### Reading -/

namespace Reading

/-- Reads a diagram of a dialect, by the reader of that dialect. -/
def diagram : Dialect → Reading Diagram
  | .flowchart => .flowchart <$> Flowchart.read
  | .sequence => .sequence <$> Sequence.read
  | .classes => .classes <$> Classes.read
  | .entities => .entities <$> Entities.read
  | .states => .states <$> States.read
  | .gantt => .gantt <$> Gantt.read

end Reading

namespace Segment

/-- The tokens of a segment `s`, at their places in the document, not in the segment. -/
def tokens (s : Segment) : List Token := Token.scan s.dialect s.text s.line s.offset

/-- The diagram of a segment `s`. What stands behind the diagram is read with it or refused, so the
cursor behind it does not matter. -/
def read (s : Segment) : Except Failure Diagram :=
  (Reading.diagram s.dialect (Cursor.ofTokens s.tokens)).map Prod.fst

end Segment

namespace Program

/-- Reads all diagrams of a document `src`. The first segment that fails decides how. -/
def read (src : String) : Except Failure Program :=
  match Document.segments src with
  | .error e => .error (.malformed e)
  | .ok segments => (segments.mapM Segment.read).map Program.mk

end Program

/-! ### Writing -/

namespace Diagram

/-- A diagram as it is written with `layout`, without a line break at its end. -/
def write (layout : Layout) : Diagram → String
  | flowchart d => d.write layout
  | sequence d => d.write layout
  | classes d => d.write layout
  | entities d => d.write layout
  | states d => d.write layout
  | gantt d => d.write layout

end Diagram

namespace Program

/-- A program `p` as it is written: its diagrams with an empty line between them, and a line break
at the end. A program without diagrams is the empty text. -/
def write (layout : Layout) (p : Program) : String :=
  if p.diagrams.isEmpty then ""
  else "\n\n".intercalate (p.diagrams.map (Diagram.write layout)) ++ "\n"

/-- Reads a document `src` and writes it in canonical form. -/
def format (layout : Layout) (src : String) : Except Failure String :=
  (read src).map (write layout)

end Program
end DiagramText
