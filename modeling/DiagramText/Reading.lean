import DiagramText.Content
import DiagramText.Cursor
import DiagramText.Direction
import DiagramText.ReadError

/-!
# Reading

Reading a diagram is a state monad over cursors that may fail. Each action moves forward over
consecutive tokens or fails; a loop over statements must use a token in every round.
-/

namespace DiagramText

/-- An action that reads from a cursor and gives a result with the cursor behind it, or fails. -/
abbrev Reading := StateT Cursor (Except Failure)

namespace Reading

/-- Gives a property `f` of the cursor and leaves it where it is. -/
def look {α : Type} (f : Cursor → α) : Reading α := fun c => .ok (f c, c)

/-- Moves the cursor to where `f` says. -/
def move {α : Type} (f : Cursor → α × Cursor) : Reading α := fun c => .ok (f c)

/-- Fails for a `cause` at a position, if there is one to blame. -/
def failAt {α : Type} (cause : ReadError.Cause) (position : Option Position) : Reading α :=
  fun _ => .error (.malformed ⟨cause, position⟩)

/-- Fails because the token `found` is not what was expected, at the start of that token. -/
def unexpected {α : Type} (expected : String) (found : Token) : Reading α :=
  failAt (.unexpected expected found.describe) (some found.start)

/-- Gives what `result` holds, or fails as it says, and takes no token. -/
def ofResult {α : Type} (result : Except ReadError α) : Reading α := fun c =>
  match result with
  | .ok a => .ok (a, c)
  | .error e => .error (.malformed e)

/-! ### Tokens -/

/-- The next token, which stays next. -/
def peek : Reading Token := look Cursor.peek

/-- The token `n` places ahead. -/
def ahead (n : Nat) : Reading Token := look (·.ahead n)

/-- Takes the next token. At the end of input nothing moves, as `Cursor.advance` has it. -/
def advance : Reading Token := move Cursor.advance

/-- Whether the next token is of one of the `kinds`. -/
def check (kinds : List TokenKind) : Reading Bool := look (·.check kinds)

/-- Whether the next token is one of the `words`, in any letter case. -/
def checkWord (words : List String) : Reading Bool := look (·.peek.isWord words)

/-- Fails because the next token is not what was `expected`. -/
def fail {α : Type} (expected : String) : Reading α := do unexpected expected (← peek)

/-- Takes the next token if it is of the `kind`, and gives nothing otherwise. -/
def accept (kind : TokenKind) : Reading (Option Token) := do
  if ← check [kind] then some <$> advance else return none

/-- Takes the next token if it is one of the `words`, and gives nothing otherwise. -/
def acceptWord (words : List String) : Reading (Option Token) := do
  if ← checkWord words then some <$> advance else return none

/-- Takes the next token, which has to be of one of the `kinds`. -/
def expectAny (kinds : List TokenKind) (expected : String) : Reading Token := do
  if ← check kinds then advance else fail expected

/-- Takes the next token, which has to be of the `kind`. -/
def expect (kind : TokenKind) (expected : String) : Reading Token := expectAny [kind] expected

/-- Takes the next token, which has to be the `word`. A message shows the word in quotes. -/
def expectWord (word : String) : Reading Token := do
  if ← checkWord [word] then advance else fail (Text.quoted word)

/-! ### Labels -/

/-- The label that a `text` means. Only a character reference with too many digits is refused, and
not as a malformed text. -/
def content (text : String) : Reading Content :=
  match Content.ofText? text with
  | some c => return c
  | none => fun _ => .error .oversizedNumber

/-- The label that the text of a `token` means, if there is a token. -/
def contentOf (token : Option Token) : Reading (Option Content) :=
  match token with
  | some t => some <$> content t.text
  | none => return none

/-- What `read` makes of the text after a colon, if there is a colon. The text may be missing. -/
def behindColon {α : Type} (read : Option Token → Reading (Option α)) : Reading (Option α) := do
  match ← accept .colon with
  | none => return none
  | some _ => read (← accept .text)

/-! ### Statements -/

/-- Skips line breaks and semicolons, any number of them. -/
def skipNewlines : Reading Unit := move fun c => ((), c.skipNewlines)

/-- Ends a statement: takes the line break or semicolon here, or stays at the end of input. Any
other token is not expected. -/
def endStatement : Reading Unit := do
  if ← check [.newline, .semicolon] then discard advance
  else if ← look Cursor.atEnd then return ()
  else fail "end of line"

/-- The source text up to the end of the statement, or to a token of a kind in `stops`. -/
def rawUntil (stops : List TokenKind) : Reading String := move (·.rawUntil stops)

/-- The source text of the rest of the statement, which may be empty. -/
def restOfStatement : Reading String := rawUntil []

/-- A direction, which the next token has to name: if not, it is said that one was `expected`. The
token is taken in any case. -/
def takeDirection (expected : String) : Reading Direction := do
  let token ← advance
  match Direction.ofText? token.text with
  | some d => return d
  | none => unexpected expected token

/-! ### Repeating -/

/-- Repeats a `round` until it gives a result. A round that goes on without using a token stalls, so
the tokens ahead bound the number of rounds. -/
def loop {σ α : Type} (round : σ → Reading (σ ⊕ α)) (s : σ) : Reading α := fun c =>
  match round s c with
  | .error e => .error e
  | .ok (.inr a, c') => .ok (a, c')
  | .ok (.inl s', c') =>
    if c'.rest.length < c.rest.length then loop round s' c' else .error .stalled
termination_by c => c.rest.length

/-- Reads one `statement` after the other up to the end of input, one in each round, each from the
state that the one before it leaves. -/
def untilEnd {σ : Type} (statement : σ → Reading σ) : σ → Reading σ :=
  loop fun s => do
    if ← look Cursor.atEnd then return .inr s
    else return .inl (← statement s)

/-- A round of reading a body in braces, each `line` of it into what was read before. It is the last
one at the closing brace, and fails with `cause` at the end of input. -/
def bodyRound {σ : Type} (line : σ → Reading σ) (cause : ReadError.Cause) (s : σ) :
    Reading (σ ⊕ σ) := do
  skipNewlines
  if ← look Cursor.atEnd then failAt cause (some (← peek).start)
  else if (← accept .rightBrace).isSome then
    endStatement
    return .inr s
  else return .inl (← line s)

end Reading
end DiagramText
