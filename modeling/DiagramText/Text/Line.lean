/-!
# Lines

A text is cut into lines at its line breaks, a carriage return with a line feed after it being one
break. Which single characters break a line is a parameter: the scanner knows two of them, a
document as a whole knows ten.
-/

namespace DiagramText.Text

/-- A line and the break that ends it. The last line of a text has an empty `terminator`. -/
structure Line where
  content : List Char
  terminator : List Char
deriving DecidableEq, Repr

namespace Line

/-- The line with its break, so that the `full` lines of a text are the text. -/
def full (l : Line) : List Char := l.content ++ l.terminator

end Line

/-- The lines of a text, cut at the characters that `breaks` holds of. The last one, with no break,
may be empty. -/
def lines (breaks : Char → Bool) : List Char → List Line
  | [] => [⟨[], []⟩]
  | '\r' :: '\n' :: cs => ⟨[], ['\r', '\n']⟩ :: lines breaks cs
  | c :: cs =>
    if breaks c then ⟨[], [c]⟩ :: lines breaks cs
    else match lines breaks cs with
      | [] => [⟨[c], []⟩]
      | l :: ls => ⟨c :: l.content, l.terminator⟩ :: ls

/-- Whether `c` ends a line of tokens by itself: a line feed and a carriage return do. -/
def isLineBreak (c : Char) : Bool := c == '\n' || c == '\r'

/-- The single characters that end a line of a document: those of `isLineBreak`, the vertical tab,
the form feed, the three information separators, the next-line control and the Unicode line and
paragraph separators. -/
def isDocumentBreak (c : Char) : Bool :=
  let n := c.toNat
  (10 ≤ n && n ≤ 13) || (28 ≤ n && n ≤ 30) || n == 0x85 || n == 0x2028 || n == 0x2029

/-- The lines of a document `cs`, each with its break. A break at the very end opens no further
line, since empty lines are left out. -/
def documentLines (cs : List Char) : List (List Char) :=
  ((lines isDocumentBreak cs).map Line.full).filter (!·.isEmpty)

/-- A text with a line feed in place of every carriage return, and of every carriage return with a
line feed after it. All breaks of the result are `\n`. -/
def withLineFeeds : List Char → List Char
  | [] => []
  | '\r' :: '\n' :: cs => '\n' :: withLineFeeds cs
  | c :: cs => (if c = '\r' then '\n' else c) :: withLineFeeds cs

end DiagramText.Text
