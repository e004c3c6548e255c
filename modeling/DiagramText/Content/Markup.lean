import DiagramText.Content.Reference
import DiagramText.Text.Blank

/-!
# Markup in labels

The plain text of a label in inline HTML is what remains when each tag has become a space, each
character reference its character, and each run of blanks one space. The plain text of a label in
markdown lacks the marks of emphasis.
-/

namespace DiagramText.Markup

/-! ### Tags -/

/-- What follows the name of a tag: attributes after a blank, or a slash, up to the closing angle
bracket. Attributes hold no angle brackets. -/
def tagEnd : Measure
  | '>' :: _ => 1
  | '/' :: '>' :: _ => 2
  | c :: cs =>
    if Text.isBlank c then
      let n := Measure.run (fun d => d != '<' && d != '>') cs
      if (cs.drop n).head? = some '>' then n + 2 else 0
    else 0
  | [] => 0

/-- The name of a tag, an ASCII letter with ASCII letters and digits behind it, and what follows
it. -/
def tagName : Measure
  | [] => 0
  | c :: cs =>
    if c.isAlpha then
      let n := Measure.run Char.isAlphanum cs
      let close := tagEnd (cs.drop n)
      if close = 0 then 0 else 1 + n + close
    else 0

/-- An opening or closing tag, which is the form `<name ...>` or `</name ...>`. -/
def tag : Measure
  | '<' :: '/' :: cs => let n := tagName cs; if n = 0 then 0 else n + 2
  | '<' :: cs => let n := tagName cs; if n = 0 then 0 else n + 1
  | _ => 0

/-- Whether there is a tag anywhere in a text, which makes it inline HTML. -/
def hasTag : List Char → Bool
  | [] => false
  | c :: cs => tag (c :: cs) != 0 || hasTag cs

/-- The text with a space for every `tag`. It goes on behind a tag, so what the rest of a text makes
of a tag is not looked at again. -/
def stripTags (cs : List Char) : List Char :=
  match cs with
  | [] => []
  | c :: rest =>
    let n := tag (c :: rest)
    if n = 0 then c :: stripTags rest else ' ' :: stripTags (rest.drop (n - 1))
termination_by cs.length

/-- The words of a text `cs` with single spaces between them and none around them. -/
def singleSpaced (cs : List Char) : List Char := [' '].intercalate (Text.words cs)

/-- The plain text `cs` of inline HTML: first tags go, then references are resolved, then blanks are
closed up. -/
def plainOfHtml (cs : List Char) : List Char :=
  singleSpaced (Reference.resolve (stripTags cs))

/-! ### Emphasis -/

/-- The marks of emphasis in the order they are tried. Double marks come first, so `**` is not taken
for two single ones. -/
def emphasisMarks : List (List Char) := [['*', '*'], ['_', '_'], ['*'], ['_']]

/-- How far the next copy of `mark` is on the same line. -/
def distanceTo (mark : List Char) : List Char → Option Nat
  | [] => none
  | c :: cs =>
    if mark.isPrefixOf (c :: cs) then some 0
    else if c = '\n' then none
    else (distanceTo mark cs).map (· + 1)

/-- The emphasised text between a `mark` here and its next copy: the length of the mark, and that of
the text, which is not empty. -/
def emphasisWith (cs : List Char) (mark : List Char) : Option (Nat × Nat) :=
  if mark.isPrefixOf cs then
    match cs.drop mark.length with
    | [] => none
    | c :: rest =>
      if c = '\n' then none else (distanceTo mark rest).map fun n => (mark.length, n + 1)
  else none

/-- The text `cs` without the marks around its emphasised parts. A part is taken over as it is, its
own marks included. -/
def stripEmphasis (cs : List Char) : List Char :=
  match cs with
  | [] => []
  | c :: rest =>
    match emphasisMarks.findSome? (emphasisWith (c :: rest)) with
    | some (mark, text) =>
      ((c :: rest).drop mark).take text ++ stripEmphasis (rest.drop (2 * mark + text - 1))
    | none => c :: stripEmphasis rest
termination_by cs.length

/-! ### Markdown -/

/-- The backtick, by its code point. -/
def backtick : Char := Char.ofNat 96

/-- The text between two backticks that surround a whole label, if there is no other in it. -/
def markdownBody? : List Char → Option (List Char)
  | c :: cs =>
    if c = backtick && cs.getLast? = some backtick && !cs.dropLast.contains backtick then
      some cs.dropLast
    else none
  | [] => none

end DiagramText.Markup
