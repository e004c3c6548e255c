import DiagramText.Content.Markup
import DiagramText.Rejection

/-!
# Labels

The text of a label is plain, inline HTML, or markdown between backticks. A label keeps its text as
written, which is what is written out again; one with markup also has a rendering as plain text.
An edit takes a label as a text that may be missing, and an empty text is no label either.
-/

namespace DiagramText

/-- How the text of a label is meant: as it stands, as inline HTML, or as the markdown between
backticks. -/
inductive Content.Kind where
  | plain
  | html
  | markdown
deriving DecidableEq, Repr

/-- The text of a label. It is written as `raw`; `rendered` is the plain text of one with markup. -/
structure Content where
  raw : String
  kind : Content.Kind := .plain
  rendered : Option String := none
deriving DecidableEq, Repr

namespace Content

/-- A label without markup, which is its own rendering. -/
def plain (text : String) : Content := { raw := text }

/-- The label that a `text` means. Backticks around the whole of it come first, so tags between them
are no HTML. -/
def ofText (text : String) : Content :=
  match Markup.markdownBody? text.toList with
  | some body =>
    { raw := text, kind := .markdown, rendered := some (String.ofList (Markup.stripEmphasis body)) }
  | none =>
    if Markup.hasTag text.toList then
      { raw := text, kind := .html,
        rendered := some (String.ofList (Markup.plainOfHtml text.toList)) }
    else plain text

/-- Whether the rendering of a text would have to read a number with more than `Text.maxDigits`
digits, which only inline HTML can. -/
def isOversized (text : String) : Bool :=
  (Markup.markdownBody? text.toList).isNone && Markup.hasTag text.toList &&
    Reference.hasOversizedNumber (Markup.stripTags text.toList)

/-- The label that a text means, unless the text `isOversized`. -/
def ofText? (text : String) : Option Content :=
  if isOversized text then none else some (ofText text)

/-- The label that a `text` of an edit means. An empty text is no label, as a missing one. -/
def ofLabel (text : Option String) : Except Rejection (Option Content) :=
  match text.filter fun t => !t.isEmpty with
  | none => .ok none
  | some t =>
    match ofText? t with
    | some c => .ok (some c)
    | none => .error .oversizedNumber

/-- The plain text of a label: its rendering if it has one, and `raw` otherwise. -/
def text (c : Content) : String := c.rendered.getD c.raw

/-- The plain text of a label `c` that may be missing, which then is empty. -/
def textOf (c : Option Content) : String := (c.map text).getD ""

end Content
end DiagramText
