import DiagramText.Flowchart.Basic
import DiagramText.Text.Blank
import DiagramText.Text.Quoted
import DiagramText.Token.Lexeme

/-!
# The notation of flowcharts

How edges, shapes and labels are spelled, for reading and for writing.
-/

namespace DiagramText

namespace Flowchart

/-! ### Edges -/

namespace EdgeKind

/-- The line of an edge, without its ends. -/
inductive LineStyle where
  | solid
  | dotted
  | thick
  | invisible
deriving DecidableEq, Repr

/-- The style that the body of an edge draws. One dot makes a line dotted, a first `=` makes it
thick. -/
def styleOf (body : List Char) : LineStyle :=
  if body.head? = some '~' then .invisible
  else if body.contains '.' then .dotted
  else if body.head? = some '=' then .thick
  else .solid

/-- The kind of an edge by its left arrow head, its style and its right end, if there is a kind for
them. -/
def ofParts? : Bool → LineStyle → Option Char → Option EdgeKind
  | false, .solid, some '>' => some arrow
  | false, .solid, none => some line
  | false, .dotted, some '>' => some dottedArrow
  | false, .dotted, none => some dottedLine
  | false, .thick, some '>' => some thickArrow
  | false, .thick, none => some thickLine
  | false, .invisible, none => some invisible
  | false, .solid, some 'o' => some circleArrow
  | false, .solid, some 'x' => some crossArrow
  | true, .solid, some '>' => some bothArrows
  | true, .dotted, some '>' => some bothDotted
  | true, .thick, some '>' => some bothThick
  | _, _, _ => none

/-- The kind of an edge `cs` whose left arrow head has been taken off, if it had one, as `head`
tells. Without a right end the body needs three characters. -/
def ofBody? (head : Bool) (cs : List Char) : Option EdgeKind :=
  let length := Measure.edgeBody cs
  let style := styleOf (cs.take length)
  if length = 0 then none
  else match cs.drop length with
    | [] => if length < 3 then none else ofParts? head style none
    | [tail] => ofParts? head style (some tail)
    | _ => none

/-- The kind of edge that a `text` draws. Edges of any length draw the same kind. -/
def ofText? (text : String) : Option EdgeKind :=
  match text.toList with
  | '<' :: cs => ofBody? true cs
  | cs => ofBody? false cs

/-- The shortest spelling of an edge, which `ofText?` reads back. -/
def text : EdgeKind → String
  | arrow => "-->"
  | line => "---"
  | dottedArrow => "-.->"
  | dottedLine => "-.-"
  | thickArrow => "==>"
  | thickLine => "==="
  | invisible => "~~~"
  | circleArrow => "--o"
  | crossArrow => "--x"
  | bothArrows => "<-->"
  | bothDotted => "<-.->"
  | bothThick => "<==>"

end EdgeKind

/-! ### Shapes -/

/-- The delimiters around the label of a shape. -/
def delimiters : Shape → String × String
  | .rectangle => ("[", "]")
  | .rounded => ("(", ")")
  | .stadium => ("([", "])")
  | .subroutine => ("[[", "]]")
  | .cylinder => ("[(", ")]")
  | .circle => ("((", "))")
  | .doubleCircle => ("(((", ")))")
  | .diamond => ("\x7b", "\x7d")
  | .hexagon => ("\x7b\x7b", "\x7d\x7d")
  | .parallelogram => ("[/", "/]")
  | .parallelogramAlt => ("[\\", "\\]")
  | .trapezoid => ("[/", "\\]")
  | .trapezoidAlt => ("[\\", "/]")
  | .asymmetric => (">", "]")

/-- All shapes, in the order in which `shapeOf?` tries them. -/
def shapes : List Shape :=
  [.rectangle, .rounded, .stadium, .subroutine, .cylinder, .circle, .doubleCircle, .diamond,
   .hexagon, .parallelogram, .parallelogramAlt, .trapezoid, .trapezoidAlt, .asymmetric]

/-- The shape with the delimiters `opener` and `closer`, if there is one. -/
def shapeOf? (opener closer : String) : Option Shape :=
  shapes.find? fun s => delimiters s == (opener, closer)

/-! ### Labels -/

/-- A punctuation character `c` or a space that a label written without quotes may hold. -/
def isSafePunctuation (c : Char) : Bool :=
  [' ', '.', ',', ';', ':', '!', '?', '\'', '&', '+', '*', '#', '@', '$', '%', '=', '-'].contains c

/-- Whether a label can be written without quotes: it starts with a word character and holds no
delimiter. -/
def isSafeLabel : List Char → Bool
  | [] => false
  | c :: cs => Text.isWord c && cs.all fun d => Text.isWord d || isSafePunctuation d

/-- A label as it is written between delimiters, in double quotes unless it `isSafeLabel`. -/
def labelText (text : String) : String :=
  if isSafeLabel text.toList then text else Text.doubleQuoted text

/-- The `text` between delimiters without the blanks and then the double quotes around it. Blanks
inside the quotes stay. -/
def innerText (text : String) : String :=
  Text.unquote (String.ofList (Text.trim text.toList))

/-- Whether a text `id` can be written as an identifier, which means that it is one lexeme. -/
def isSafeId (id : String) : Bool := Measure.hyphenated.covers id.toList

end Flowchart
end DiagramText
