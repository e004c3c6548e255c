import DiagramText.Reading

/-!
# Calls of a cursor

A cursor is used by calls, one after the other. Each gives an answer or is refused, and whoever
calls may go on behind a call that was refused. A look is at a token any number of places ahead, or
behind where the number is negative; there may be no such token.
-/

namespace DiagramText

/-- Stalls unless the cursor is beyond the index `start`, which a round of a loop has to move
past. -/
def Reading.ensureProgress (start : Int) : Reading Unit := fun c =>
  if (c.index : Int) ≤ start then .error .stalled else .ok ((), c)

namespace Cursor

/-- What a cursor is asked for. The looks `peek` and `checkWord` take a distance, which may be
negative. -/
inductive Call where
  | peek (distance : Int)
  | atEnd
  | advance
  | check (kinds : List TokenKind)
  | checkWord (words : List String) (distance : Int)
  | accept (kind : TokenKind)
  | acceptWord (words : List String)
  /-- Without a word for what is expected, the kind has one. -/
  | expect (kind : TokenKind) (expected : String)
  | expectWord (word : String)
  | fail (expected : String)
  | atStatementEnd
  | skipNewlines
  | endStatement
  | restOfStatement
  | rawUntil (stops : List TokenKind)
  /-- The cursor has to be beyond an index. -/
  | ensureProgress (start : Int)
deriving DecidableEq, Repr

/-- What a call gives; `nothing` is the answer of a call that only moves, or finds no token to
give. -/
inductive Answer where
  | nothing
  | flag (value : Bool)
  | token (token : Token)
  | text (text : String)
deriving DecidableEq, Repr

/-- Why a call gives nothing. Only a look can be `outside` of the tokens. -/
inductive Refusal where
  /-- There is no token at the place that is looked at. -/
  | outside
  /-- Reading fails here. -/
  | failed (failure : Failure)
deriving DecidableEq, Repr

namespace Answer

/-- The answer with a token, if there is one, and `nothing` otherwise. -/
def ofToken? (token : Option Token) : Answer := (token.map Answer.token).getD nothing

end Answer

namespace Call

/-- The word for a kind of token that is expected: `expected`, unless it is empty. -/
def expectation (kind : TokenKind) (expected : String) : String :=
  if expected.isEmpty then kind.word else expected

/-- The answer `f` of what a reading gives, with the cursor behind it. A failure of the reading is a
refusal. -/
def answer {α : Type} (f : α → Answer) (x : Reading α) (c : Cursor) :
    Except Refusal (Answer × Cursor) :=
  match x c with
  | .ok (a, c') => .ok (f a, c')
  | .error e => .error (.failed e)

/-- The answer to a look at the token that is `distance` places away, behind which the cursor is
where it was. -/
def answerAround (f : Token → Answer) (distance : Int) (c : Cursor) :
    Except Refusal (Answer × Cursor) :=
  match c.around? distance with
  | some t => .ok (f t, c)
  | none => .error .outside

/-- What a call gives, with the cursor behind it, by the reading of the same name. -/
def perform : Call → Cursor → Except Refusal (Answer × Cursor)
  | peek distance => answerAround .token distance
  | atEnd => answer .flag (Reading.look Cursor.atEnd)
  | advance => answer .token Reading.advance
  | check kinds => answer .flag (Reading.check kinds)
  | checkWord words distance => answerAround (fun t => .flag (t.isWord words)) distance
  | accept kind => answer .ofToken? (Reading.accept kind)
  | acceptWord words => answer .ofToken? (Reading.acceptWord words)
  | expect kind expected => answer .token (Reading.expect kind (expectation kind expected))
  | expectWord word => answer .token (Reading.expectWord word)
  | fail expected => answer (fun _ : Unit => .nothing) (Reading.fail expected)
  | atStatementEnd => answer .flag (Reading.look Cursor.atStatementEnd)
  | skipNewlines => answer (fun _ => .nothing) Reading.skipNewlines
  | endStatement => answer (fun _ => .nothing) Reading.endStatement
  | restOfStatement => answer .text Reading.restOfStatement
  | rawUntil stops => answer .text (Reading.rawUntil stops)
  | ensureProgress start => answer (fun _ => .nothing) (Reading.ensureProgress start)

/-- A call, behind which a cursor `c` that refuses stays where it is. -/
def step (call : Call) (c : Cursor) : Except Refusal Answer × Cursor :=
  match call.perform c with
  | .ok (a, c') => (.ok a, c')
  | .error e => (.error e, c)

end Call

/-- The cursor behind `calls`, which are made one after the other, refused or not. -/
def after (c : Cursor) (calls : List Call) : Cursor :=
  calls.foldl (fun c call => (call.step c).2) c

end Cursor
end DiagramText
