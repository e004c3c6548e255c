import DiagramText.Text.Blank
import DiagramText.Token

/-!
# Cursors

A cursor walks over the tokens of one diagram, comments left out. It stands before the token it
looks at and never moves past the end of input.
-/

namespace DiagramText

/-- A place in a list of tokens: those in `past` are behind it, the latest first, and those in
`rest` are ahead. The end of input is kept apart as `final`. -/
structure Cursor where
  past : List Token
  rest : List Token
  final : Token
deriving DecidableEq, Repr

namespace Cursor

/-- A cursor at the start of `tokens`, of which the last is the end of input. Comments are left out
here, once and for all. -/
def ofTokens (tokens : List Token) : Cursor where
  past := []
  rest := tokens.dropLast.filter (·.kind != .comment)
  final := tokens.getLast?.getD ⟨.endOfInput, "", "", .origin, .origin⟩

/-- The number of tokens behind the cursor `c`, comments not counted. -/
def index (c : Cursor) : Nat := c.past.length

/-! ### Looking -/

/-- The token `n` places ahead, the end of input beyond the last. -/
def ahead (c : Cursor) (n : Nat) : Token := c.rest[n]?.getD c.final

/-- The token the cursor stands before, which is `final` if only the end of input is ahead. -/
def peek (c : Cursor) : Token := c.ahead 0

/-- The token `n` places ahead, or behind if `n` is negative. Places before the first token count
back from the last one, as far as there are tokens. -/
def around? (c : Cursor) (n : Int) : Option Token :=
  let all := c.past.reverse ++ c.rest ++ [c.final]
  let place := min (c.index + n) (all.length - 1)
  let place := if place < 0 then place + all.length else place
  if place < 0 then none else all[place.toNat]?

/-- Whether only the end of input is ahead of the cursor `c`. -/
def atEnd (c : Cursor) : Bool := c.rest.isEmpty

/-- Whether the next token is of one of the `kinds`. -/
def check (c : Cursor) (kinds : List TokenKind) : Bool := kinds.contains c.peek.kind

/-- Whether the statement ends here, at a line break, a semicolon or the end of input. -/
def atStatementEnd (c : Cursor) : Bool := c.peek.kind.endsStatement

/-! ### Moving -/

/-- The next token, and the cursor `c` past it unless it is the end of input, which the cursor never
passes. -/
def advance (c : Cursor) : Token × Cursor :=
  match c.rest with
  | [] => (c.final, c)
  | t :: ts => (t, { c with past := t :: c.past, rest := ts })

/-- The tokens up to the first that fails the test `p`, and the cursor past them. -/
def span (c : Cursor) (p : Token → Bool) : List Token × Cursor :=
  let taken := c.rest.takeWhile p
  (taken, { c with past := taken.reverse ++ c.past, rest := c.rest.dropWhile p })

/-- The cursor `c` past all line breaks and semicolons. -/
def skipNewlines (c : Cursor) : Cursor :=
  (c.span fun t => t.kind == .newline || t.kind == .semicolon).2

/-- The source text of the tokens up to the end of the statement, or to a token of a kind in
`stops`, without the blanks around it, and the cursor past them. -/
def rawUntil (c : Cursor) (stops : List TokenKind) : String × Cursor :=
  let (taken, c) := c.span fun t => !t.kind.endsStatement && !stops.contains t.kind
  (String.ofList (Text.trim (Token.source taken).toList), c)

end Cursor
end DiagramText
