import DiagramText.Text.Line
import DiagramText.Token.Lexeme

/-!
# The tokens of a text

A line is cut into pieces, each a lexeme with its kind or a gap of skipped characters; put together
again in order, the pieces are the line. No piece depends on any other line: what a step may look
at behind itself is only the character before it and whether an identifier came last.

A text is scanned line by line, and each line piece by piece; the pieces are then placed one after
the other. Scanning never fails: a character that no rule knows is a token of its own.
-/

namespace DiagramText

/-- A part of a line: a lexeme with its kind, or a gap of characters that belong to none. -/
inductive Piece where
  | gap (chars : List Char)
  | lexeme (kind : TokenKind) (chars : List Char)
deriving DecidableEq, Repr

namespace Piece

/-- The characters of a piece. Those of all pieces of a line are the line again. -/
def chars : Piece → List Char
  | gap cs => cs
  | lexeme _ cs => cs

/-! ### Labels between delimiters -/

/-- Where the first of the `closers` stands in a text, and the length of the one that stands
there. -/
def findCloser (closers : List (List Char)) : List Char → Option (Nat × Nat)
  | [] => none
  | c :: cs =>
    match closers.find? (·.isPrefixOf (c :: cs)) with
    | some closer => some (0, closer.length)
    | none => (findCloser closers cs).map fun (at_, length) => (at_ + 1, length)

/-- The length of the quoted string that a label starts with, blanks before it included. A closing
delimiter inside it does not count, so `labelBefore` looks for one only behind it. -/
def quotedStart (cs : List Char) : Nat :=
  let blanks := Measure.run Text.isSpaceOrTab cs
  let string := Measure.quotedString (cs.drop blanks)
  if string = 0 then 0 else blanks + string

/-- The length of the label before the closing delimiter, and the length of the delimiter. There is
none if no delimiter of `closers` follows. -/
def labelBefore (closers : List (List Char)) (cs : List Char) : Option (Nat × Nat) :=
  let skip := quotedStart cs
  (findCloser closers (cs.drop skip)).map fun (at_, length) => (skip + at_, length)

/-- The delimiters that open a shaped label, each with those that may close it. Longer ones come
first, so `((` is not taken for `(`. -/
def shapeDelimiters : List (List Char × List (List Char)) :=
  [(['(', '(', '('], [[')', ')', ')']]),
   (['(', '('], [[')', ')']]),
   (['(', '['], [[']', ')']]),
   (['[', '['], [[']', ']']]),
   (['[', '('], [[')', ']']]),
   (['[', '/'], [['/', ']'], ['\\', ']']]),
   (['[', '\\'], [['\\', ']'], ['/', ']']]),
   (['{', '{'], [['}', '}']]),
   (['{'], [['}']]),
   (['('], [[')']]),
   (['['], [[']']]),
   (['>'], [[']']])]

/-- The pieces of a shaped label that opens with `opener`: the delimiter, the label unless it is
empty, and the delimiter of `closers` that ends it. -/
def shapeWith (cs : List Char) (opener : List Char) (closers : List (List Char)) :
    Option (List Piece) :=
  if opener.isPrefixOf cs then
    let inner := cs.drop opener.length
    (labelBefore closers inner).map fun (label, closer) =>
      lexeme .shapeOpen opener ::
        (if label = 0 then [] else [lexeme .label (inner.take label)]) ++
        [lexeme .shapeClose ((inner.drop label).take closer)]
  else none

/-- The pieces of the shaped label that the line `cs` starts with, by the first of the
`shapeDelimiters` that fits. -/
def shape? (cs : List Char) : Option (List Piece) :=
  shapeDelimiters.findSome? fun (opener, closers) => shapeWith cs opener closers

/-- The pieces of the edge label that the line starts with. Its two bars are gaps, since they belong
to no token. -/
def edgeLabel? : List Char → Option (List Piece)
  | '|' :: inner =>
    (labelBefore [['|']] inner).map fun (label, _) =>
      [gap ['|'], lexeme .edgeLabel (inner.take label), gap ['|']]
  | _ => none

/-! ### Text after a colon -/

/-- Whether a colon introduces free text up to the end of the line. It does in every dialect but
`flowchart`. -/
def colonOpensText (d : Dialect) : Bool := d != .flowchart

/-- The pieces after a colon: the rest of the line as one `text`, without the blanks around it,
which are gaps. -/
def colonText (cs : List Char) : List Piece :=
  let rest := cs.dropWhile Text.isSpaceOrTab
  let text := Text.trimRight rest
  gap (cs.takeWhile Text.isSpaceOrTab) ::
    (if text.isEmpty then [] else [lexeme .text text]) ++ [gap (rest.drop text.length)]

/-! ### One step -/

/-- What a step knows about the line before it: the character `before` and whether an identifier
came last. -/
structure Context where
  before : Option Char := none
  afterIdentifier : Bool := false
deriving DecidableEq, Repr

namespace Context

/-- What is known after one more piece. A gap leaves `afterIdentifier` as it is, so blanks may stand
between a name and its label. -/
def push (c : Context) (p : Piece) : Context where
  before := p.chars.getLast?.or c.before
  afterIdentifier := match p with
    | gap _ => c.afterIdentifier
    | lexeme kind _ => kind == .identifier

end Context

/-- The pieces of a label of a flowchart, where one can start: an edge label anywhere, a shaped
label only after an identifier. -/
def label? (d : Dialect) (context : Context) (cs : List Char) : Option (List Piece) :=
  if d != .flowchart then none
  else (edgeLabel? cs).or (if context.afterIdentifier then shape? cs else none)

/-- The pieces of a run of spaces and tabs, or of one lexeme and the text it introduces. The lexeme
is the one of `Rule.first`. -/
def plain (d : Dialect) (context : Context) (cs : List Char) : List Piece :=
  let blanks := Measure.run Text.isSpaceOrTab cs
  if blanks ≠ 0 then [gap (cs.take blanks)]
  else
    let (kind, length) := Rule.first (Rule.ofDialect d context.before) cs
    lexeme kind (cs.take length) ::
      (if kind = .colon && colonOpensText d then colonText (cs.drop length) else [])

/-- The next pieces of a line that is not at its end: those of a label if there is one, and the
`plain` ones otherwise. -/
def next (d : Dialect) (context : Context) (cs : List Char) : List Piece :=
  (label? d context cs).getD (plain d context cs)

/-! ### A whole line -/

/-- The pieces of the rest of a line, by recursion on what `next` leaves. Each step takes at least
one character. -/
def ofRest (d : Dialect) (context : Context) (cs : List Char) : List Piece :=
  match cs with
  | [] => []
  | c :: rest =>
    let pieces := next d context (c :: rest)
    let length := (pieces.flatMap chars).length
    pieces ++ ofRest d (pieces.foldl Context.push context) (rest.drop (length - 1))
termination_by cs.length

/-- The pieces of a line without its break, from an empty `Context`. -/
def ofLine (d : Dialect) (cs : List Char) : List Piece := ofRest d {} cs

/-! ### A whole text -/

/-- The pieces of a line with its break, which is one lexeme of kind `newline` if the line has
any. -/
def ofFullLine (d : Dialect) (l : Text.Line) : List Piece :=
  ofLine d l.content ++ (if l.terminator.isEmpty then [] else [lexeme .newline l.terminator])

/-- The pieces of a `text`, line by line. No line looks at another one. -/
def ofText (d : Dialect) (text : List Char) : List Piece :=
  (Text.lines Text.isLineBreak text).flatMap (ofFullLine d)

end Piece

namespace Token

/-- The pieces as tokens, the first piece starting at `p` and `gap` being skipped before it. The
end of input follows the last piece. -/
def place (p : Position) (gap : List Char) : List Piece → List Token
  | [] => [⟨.endOfInput, String.ofList gap, "", p, p⟩]
  | .gap cs :: ps => place (p.right cs.length) (gap ++ cs) ps
  | .lexeme kind cs :: ps =>
    let q := if kind = .newline then p.down cs.length else p.right cs.length
    ⟨kind, String.ofList gap, String.ofList cs, p, q⟩ :: place q [] ps

/-- The tokens of a text that starts at `line` and `offset` of a document, at the start of a
line. -/
def scan (d : Dialect) (text : String) (line offset : Int) : List Token :=
  place ⟨line, 0, offset⟩ [] (Piece.ofText d text.toList)

end Token
end DiagramText
