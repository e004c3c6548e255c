import DiagramText.Text.Blank
import DiagramText.Text.Case
import DiagramText.Text.Digit
import DiagramText.Text.Line
import DiagramText.Text.Quoted
import DiagramText.Text.Word
import DiagramText.Token.Scan
import DiagramText.Document
import DiagramText.Content
import DiagramText.Reading
import DiagramText.Cursor.Call
import DiagramText.Flowchart.Notation
import DiagramText.Flowchart.Reader
import DiagramText.Flowchart.Writer
import DiagramText.Flowchart.Edit
import DiagramText.Sequence.Reader
import DiagramText.Sequence.Writer
import DiagramText.Sequence.Walk
import DiagramText.Sequence.Edit
import DiagramText.States.Basic
import DiagramText.States.Reader
import DiagramText.States.Writer
import DiagramText.States.Edit
import DiagramText.Classes.Reader
import DiagramText.Classes.Writer
import DiagramText.Classes.Edit
import DiagramText.Entities.Reader
import DiagramText.Entities.Writer
import DiagramText.Entities.Edit
import DiagramText.Calendar.Format
import DiagramText.Gantt.Writer
import DiagramText.Gantt.Edit
import DiagramText.Program
import DiagramText.Digraph
import DiagramText.Identifier
import DiagramText.Gantt.Schedule
import DiagramText.Graph.OfDiagram
import DiagramText.Main
import DiagramText.Proofs.Program.Canonical
import DiagramText.Proofs.Entities.RoundTrip
import DiagramText.Proofs.Sequence.Row
import DiagramText.Proofs.Sequence.Lines
import DiagramText.Proofs.Sequence.RoundTrip
import DiagramText.Proofs.Token.Flow
import DiagramText.Proofs.Flowchart.Row
import DiagramText.Proofs.Flowchart.Lines
import DiagramText.Proofs.Flowchart.RoundTrip
import DiagramText.Proofs.States.RoundTrip
import DiagramText.Proofs.Token.Tile
import DiagramText.Proofs.Classes.RoundTrip
import DiagramText.Proofs.States.Holders
import DiagramText.Proofs.Edit
import DiagramText.Proofs.Program.Positions
import DiagramText.Proofs.Text.Relaid
import DiagramText.Proofs.Document.Relaid
import DiagramText.Proofs.Program.Layout
import DiagramText.Proofs.Program.Relaid
import DiagramText.Proofs.Reading.Steady
import DiagramText.Proofs.Entities.Reader
import DiagramText.Proofs.Classes.Reader
import DiagramText.Proofs.Flowchart.Reader
import DiagramText.Proofs.Sequence.Steady
import DiagramText.Proofs.States.Steady
import DiagramText.Proofs.Gantt.Reader
import DiagramText.Proofs.Program.Failures
import DiagramText.Proofs.CommandLine.Check
import DiagramText.Proofs.Program.Single
import DiagramText.Proofs.Roster
import DiagramText.Proofs.Flowchart.Registry
import DiagramText.Proofs.Flowchart.Removal
import DiagramText.Proofs.Sequence.Registry
import DiagramText.Proofs.States.Intact
import DiagramText.Proofs.States.Integrity
import DiagramText.Proofs.Program.Progress
import DiagramText.Proofs.Reading.Progress
import DiagramText.Proofs.Digraph.Search
import DiagramText.Proofs.Gantt.Order
import DiagramText.Proofs.Gantt.Dates
import DiagramText.Proofs.Gantt.Integrity
import DiagramText.Proofs.Reading.Starts
import DiagramText.Proofs.Classes.Mentions
import DiagramText.Proofs.Entities.Mentions
import DiagramText.Proofs.Program.Mentions
import DiagramText.Proofs.Reading.Grammar
import DiagramText.Proofs.Sequence.Grammar
import DiagramText.Proofs.Sequence.Spelling
import DiagramText.Proofs.Sequence.Blocks
import DiagramText.Proofs.Sequence.Nesting
import DiagramText.Proofs.Document.Cut
import DiagramText.Proofs.Token.Whole
import DiagramText.Proofs.Flowchart.Survival
import DiagramText.Proofs.Program.Bodies
import DiagramText.Proofs.Flowchart.Unclosed
import DiagramText.Proofs.Program.Unclosed
import DiagramText.Proofs.Calendar.Field
import DiagramText.Proofs.Calendar.Format
import DiagramText.Proofs.Classes.Survival
import DiagramText.Proofs.Sequence.Survival
import DiagramText.Proofs.Gantt.Details
import DiagramText.Proofs.Gantt.Survival
import DiagramText.Proofs.Gantt.Readable
import DiagramText.Proofs.Gantt.Lines
import DiagramText.Proofs.Gantt.RoundTrip
import DiagramText.Proofs.Flowchart.Chain
import DiagramText.Proofs.Gantt.Schedule
import DiagramText.Proofs.Gantt.Delay
import DiagramText.Proofs.Graph.Basic
import DiagramText.Proofs.Graph.Flowchart
import DiagramText.Proofs.Graph.Keys
import DiagramText.Proofs.Graph.Batches
import DiagramText.Proofs.Graph.Order
import DiagramText.Proofs.Graph.Drawing
import DiagramText.Proofs.Graph.States
import DiagramText.Proofs.Token.Tail
import DiagramText.Proofs.Content.Tag
import DiagramText.Proofs.Content.Rendering
import DiagramText.Proofs.Cursor.Pointer
import DiagramText.Proofs.Walk
import DiagramText.Proofs.Laid
