import DiagramText.Gantt.Reader
import DiagramText.Layout

/-!
# Writing gantt charts

The date format is always written, so that dates are read again in the format they were read in. The
id of a task is written only if its start is, since it could not be told apart otherwise.
-/

namespace DiagramText.Gantt

/-- The start of a task as it is written, a date in the `format` of the chart. -/
def Start.text (format : String) : Start → String
  | .date m => writeDate m format
  | .after ids => "after " ++ " ".intercalate ids

/-- The end of a task as it is written, a date in the `format` of the chart. -/
def Finish.text (format : String) : Finish → String
  | .duration d => d.text
  | .date m => writeDate m format

/-- The parts of a task `t` after its colon: status, id, start and end, as far as they are there. -/
def Task.parts (format : String) (t : Task) : List String :=
  (t.status.map TaskStatus.text).toList ++
    (match t.start with
      | none => []
      | some start => t.id.toList ++ [start.text format]) ++
    [t.finish.text format]

/-- A task `t` as it is written, its parts between commas. -/
def Task.text (format : String) (t : Task) : String :=
  let parts := ", ".intercalate (t.parts format)
  s!"{t.name} : {parts}"

/-- The lines of a section `s`, its name first. -/
def Section.lines (layout : Layout) (format : String) (s : Section) : List String :=
  layout.line 1 s!"section {s.name}" :: s.tasks.map fun t => layout.line 2 (t.text format)

/-- The line of the directive `name`, if it has a value that is not empty. -/
def directiveLines (layout : Layout) (name : String) (value : Option String) : List String :=
  ((value.filter (!·.isEmpty)).map fun v => layout.line 1 s!"{name} {v}").toList

/-- The lines of the directives of a chart `c`. The date format always has one. -/
def Config.lines (layout : Layout) (c : Config) : List String :=
  directiveLines layout "title" c.title ++ [layout.line 1 s!"dateFormat {c.dateFormat}"] ++
    directiveLines layout "axisFormat" c.axisFormat ++
    directiveLines layout "excludes" c.excludes ++
    directiveLines layout "todayMarker" c.todayMarker

/-- The lines of a gantt chart `g`, the directives before the first section. -/
def lines (layout : Layout) (g : Gantt) : List String :=
  "gantt" :: g.config.lines layout ++
    g.sections.flatMap (Section.lines layout g.config.dateFormat)

/-- A gantt chart `g` as it is written, as one text. -/
def write (layout : Layout) (g : Gantt) : String := joinLines (g.lines layout)

end DiagramText.Gantt
