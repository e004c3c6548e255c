import DiagramText.Cursor.Call
import DiagramText.Proofs.Reading.Step
import DiagramText.Proofs.Result
import DiagramText.Proofs.Token.Place
import DiagramText.Proofs.Token.Tile

/-!
# Cursors as indices

A cursor keeps the tokens behind it and those ahead of it apart, so it cannot leave them, and a
reading that fails leaves no cursor. Here the cursor is an index into one list of tokens. An action
may look at any place of the list and put the index anywhere, also before it is refused.

* `Pointing`: actions that read a list of tokens at an index. They give a result, are refused, or
  never end.
* `Pointing.perform_pointer`: for each call such an action does what the call does with a cursor at
  the same place.
* `Cursor.Call.IsSafe`: what a call may do to an index and to the tokens that are taken.
* `Cursor.Call.isSafe_after`: on the tokens of any text, calls in any order are safe.
-/

namespace DiagramText

open Cursor (Refusal Answer Call)
open Token (isRead)

/-! ### Actions on an index -/

/-- An index into a list of tokens, with the tokens that were `taken` so far, in their order. -/
structure Pointer where
  tokens : List Token
  index : Nat
  taken : List Token
deriving DecidableEq, Repr

namespace Pointer

/-- The start of the tokens `ts`, with comments left out: index `0`, and nothing is taken. -/
def ofTokens (ts : List Token) : Pointer := ⟨ts.filter isRead, 0, []⟩

/-- The token at a `place`, if it is in the list. A negative place counts back from its end. -/
def at? (s : Pointer) (place : Int) : Option Token :=
  let place := if place < 0 then place + s.tokens.length else place
  if place < 0 then none else s.tokens[place.toNat]?

/-- A `place` finds no token only before the list, where it is counted back by more than there are
tokens. -/
theorem at?_eq_none_iff {s : Pointer} {place : Int} (h : place < s.tokens.length) :
    s.at? place = none ↔ place < -(s.tokens.length : Int) := by
  unfold at?
  by_cases hneg : place < 0
  · rw [if_pos hneg]
    dsimp only
    split
    · simp only [true_iff]
      omega
    · rw [List.getElem?_eq_none_iff]
      omega
  · rw [if_neg hneg, if_neg hneg, List.getElem?_eq_none_iff]
    omega

end Pointer

/-- An action on a pointer. It gives a result or is refused, and the pointer may be moved in either
case. An action that goes on for ever does neither: it is `none`. -/
abbrev Pointing := ExceptT Refusal (StateT Pointer Option)

namespace Pointing

variable {α β : Type}

/-- Reads the token at a place, and is refused with `outside` where there is none. -/
def read (place : Int) : Pointing Token := do
  match (← get).at? place with
  | some t => return t
  | none => throw .outside

/-- The token some places ahead, or the last one if there are fewer. A negative `distance` looks
back, and is not bounded. -/
def peek (distance : Int) : Pointing Token := do
  let s ← get
  read (min (s.index + distance) (s.tokens.length - 1))

/-- Takes the next token, unless it is the end of input. -/
def advance : Pointing Token := do
  let t ← peek 0
  if t.kind ≠ .endOfInput then
    modify fun s => { s with index := s.index + 1, taken := s.taken ++ [t] }
  return t

/-- Takes tokens as long as a `test` holds. A loop that is not through after `rounds` rounds is
taken for one that never ends. -/
def advanceFor (test : Pointing Bool) : Nat → Pointing (List Token)
  | 0 => fun _ => none
  | rounds + 1 => do
    if ← test then
      let t ← advance
      let ts ← advanceFor test rounds
      return t :: ts
    else return []

/-- Takes tokens as long as a `test` holds, in no more rounds than there are tokens. -/
def advanceWhile (test : Pointing Bool) : Pointing (List Token) := do
  advanceFor test (← get).tokens.length

def atEnd : Pointing Bool := (·.kind == .endOfInput) <$> peek 0

def check (kinds : List TokenKind) : Pointing Bool := (kinds.contains ·.kind) <$> peek 0

def checkWord (words : List String) (distance : Int) : Pointing Bool :=
  (·.isWord words) <$> peek distance

def atStatementEnd : Pointing Bool := check [.newline, .semicolon, .endOfInput]

/-- Refuses because the next token is not what was `expected`, at the place where that token
starts. -/
def refuse (expected : String) : Pointing α := do
  let t ← peek 0
  throw (.failed (.malformed ⟨.unexpected expected t.describe, some t.start⟩))

def accept (kind : TokenKind) : Pointing (Option Token) := do
  if ← check [kind] then some <$> advance else return none

def acceptWord (words : List String) : Pointing (Option Token) := do
  if ← checkWord words 0 then some <$> advance else return none

def expect (kind : TokenKind) (expected : String) : Pointing Token := do
  if ← check [kind] then advance else refuse expected

def expectWord (word : String) : Pointing Token := do
  if ← checkWord [word] 0 then advance else refuse (Text.quoted word)

def skipNewlines : Pointing Unit := discard (advanceWhile (check [.newline, .semicolon]))

def endStatement : Pointing Unit := do
  if ← check [.newline, .semicolon] then discard advance
  else if ← atEnd then return ()
  else refuse "end of line"

/-- Whether a tail that is taken up to the kinds `stops` goes on: the statement does not end here,
and the next token is of none of these kinds. -/
def goesOn (stops : List TokenKind) : Pointing Bool := do
  if ← atStatementEnd then return false else return !(← check stops)

def rawUntil (stops : List TokenKind) : Pointing String := do
  if ← goesOn stops then
    let first ← advance
    let others ← advanceWhile (goesOn stops)
    return String.ofList (Text.trim (Token.source (first :: others)).toList)
  else return ""

def ensureProgress (start : Int) : Pointing Unit := do
  let s ← get
  if (s.index : Int) ≤ start then
    -- the message shows where the next token is
    discard (peek 0)
    throw (.failed .stalled)

/-- What is done for a `call`, on a list and an index. Each is written with the actions above, as a
reader would call them. -/
def perform : Call → Pointing Answer
  | .peek distance => .token <$> peek distance
  | .atEnd => .flag <$> atEnd
  | .advance => .token <$> advance
  | .check kinds => .flag <$> check kinds
  | .checkWord words distance => .flag <$> checkWord words distance
  | .accept kind => .ofToken? <$> accept kind
  | .acceptWord words => .ofToken? <$> acceptWord words
  | .expect kind expected => .token <$> expect kind (Call.expectation kind expected)
  | .expectWord word => .token <$> expectWord word
  | .fail expected => (fun _ : Unit => .nothing) <$> refuse expected
  | .atStatementEnd => .flag <$> atStatementEnd
  | .skipNewlines => (fun _ => .nothing) <$> skipNewlines
  | .endStatement => (fun _ => .nothing) <$> endStatement
  | .restOfStatement => .text <$> rawUntil []
  | .rawUntil stops => .text <$> rawUntil stops
  | .ensureProgress start => (fun _ => .nothing) <$> ensureProgress start

end Pointing

/-- The pointer `s` behind calls that are made one after the other, if each of them ends. A refused
call does not end the run. -/
def Pointer.after (s : Pointer) : List Call → Option Pointer
  | [] => some s
  | call :: calls => (Pointing.perform call s).bind fun r => r.2.after calls

/-! ### Pointers at cursors -/

namespace Cursor

/-- A cursor `c` as a pointer: all its tokens in one list, with the number of those that are behind
it as the index. -/
def pointer (c : Cursor) : Pointer :=
  ⟨c.past.reverse ++ c.rest ++ [c.final], c.index, c.past.reverse⟩

/-- The last token, and none ahead of the cursor `c` but it, is the end of input. Otherwise a loop
could run past it. -/
structure Ended (c : Cursor) : Prop where
  final_kind : c.final.kind = .endOfInput
  inner : ∀ t ∈ c.rest, t.kind ≠ .endOfInput

variable {c : Cursor}

theorem Ended.tail {past ts : List Token} {t final : Token}
    (hc : (⟨past, t :: ts, final⟩ : Cursor).Ended) : (⟨t :: past, ts, final⟩ : Cursor).Ended :=
  ⟨hc.final_kind, (List.forall_mem_cons.1 hc.inner).2⟩

theorem length_pointer (c : Cursor) :
    c.pointer.tokens.length = c.index + c.rest.length + 1 := by
  simp [pointer, index, Nat.add_assoc]

theorem around?_eq (c : Cursor) (n : Int) :
    c.around? n = c.pointer.at? (min (c.index + n) (c.pointer.tokens.length - 1)) := rfl

/-- Only a look far behind finds no token: with `n` added to the index it lies before the list,
counted from its end. -/
theorem around?_eq_none_iff {n : Int} :
    c.around? n = none ↔ c.index + n < -(c.pointer.tokens.length : Int) := by
  have hlength := length_pointer c
  rw [around?_eq, Pointer.at?_eq_none_iff (by omega)]
  omega

theorem around?_zero (c : Cursor) : c.around? 0 = some c.peek := by
  have hlength := length_pointer c
  have hmin : min ((c.index : Int) + 0) (c.pointer.tokens.length - 1) = c.index := by omega
  have hpeek : c.pointer.tokens[c.index]? = some c.peek := by
    obtain ⟨past, rest, final⟩ := c
    have hpast : past.reverse.length = past.length := List.length_reverse
    rw [pointer, index, List.append_assoc, List.getElem?_append_right (Nat.le_of_eq hpast), hpast,
      Nat.sub_self]
    cases rest <;> rfl
  rw [around?_eq, hmin, Pointer.at?, if_neg (by omega), if_neg (by omega)]
  exact hpeek

/-- Nothing is taken if the next token fails the test `p`. -/
theorem span_of_not {p : Token → Bool} (h : p c.peek = false) : c.span p = ([], c) := by
  obtain ⟨past, rest, final⟩ := c
  cases rest with
  | nil => rfl
  | cons t ts =>
    rw [peek_cons] at h
    simp [span, h]

theorem span_cons {p : Token → Bool} {past ts : List Token} {t final : Token} (h : p t = true) :
    (⟨past, t :: ts, final⟩ : Cursor).span p =
      (t :: ((⟨t :: past, ts, final⟩ : Cursor).span p).1,
        ((⟨t :: past, ts, final⟩ : Cursor).span p).2) := by
  simp [span, h]

/-! ### Moving on -/

/-- The cursor `c'` is further on than `c` in the same tokens, or at the same place. -/
def Onward (c c' : Cursor) : Prop :=
  ∃ taken, c.rest = taken ++ c'.rest ∧ c'.past = taken.reverse ++ c.past ∧ c'.final = c.final

namespace Onward

variable {c c' c'' : Cursor}

theorem refl (c : Cursor) : c.Onward c := ⟨[], rfl, rfl, rfl⟩

theorem trans (h : c.Onward c') (h' : c'.Onward c'') : c.Onward c'' := by
  obtain ⟨taken, hrest, hpast, hfinal⟩ := h
  obtain ⟨taken', hrest', hpast', hfinal'⟩ := h'
  refine ⟨taken ++ taken', ?_, ?_, hfinal'.trans hfinal⟩
  · rw [hrest, hrest', List.append_assoc]
  · rw [hpast', hpast, List.reverse_append, List.append_assoc]

theorem ended (h : c.Onward c') (hc : c.Ended) : c'.Ended := by
  obtain ⟨taken, hrest, -, hfinal⟩ := h
  refine ⟨hfinal ▸ hc.final_kind, fun t ht => hc.inner t ?_⟩
  rw [hrest]
  exact List.mem_append_right taken ht

theorem of_move {α : Type} {f : Cursor → α × Cursor} {a : α} (h : c.Onward (f c).2)
    (hmove : Reading.move f c = .ok (a, c')) : c.Onward c' := by
  have hmoved : (f c).2 = c' := congrArg Prod.snd (Except.ok.inj hmove)
  exact hmoved ▸ h

end Onward

theorem onward_advance (c : Cursor) : c.Onward c.advance.2 := by
  obtain ⟨past, rest, final⟩ := c
  cases rest with
  | nil => exact .refl _
  | cons t ts => exact ⟨[t], rfl, rfl, rfl⟩

theorem onward_span (c : Cursor) (p : Token → Bool) : c.Onward (c.span p).2 :=
  ⟨_, List.takeWhile_append_dropWhile.symm, rfl, rfl⟩

end Cursor

namespace Pointing

variable {α β : Type} {c : Cursor}

/-! ### Single actions -/

theorem bind_apply (x : Pointing α) (f : α → Pointing β) (s : Pointer) :
    (x >>= f) s = (x s).bind fun r => match r with
      | (.ok a, s') => f a s'
      | (.error e, s') => some (.error e, s') := by
  show (StateT.bind x _) s = _
  unfold StateT.bind
  show (x s).bind _ = _
  congr 1
  funext ⟨r, s'⟩
  cases r <;> rfl

theorem map_apply (x : Pointing α) (f : α → β) (s : Pointer) :
    (f <$> x) s = (x s).map fun r => (r.1.map f, r.2) := by
  rw [map_eq_pure_bind, bind_apply, Option.map_eq_bind]
  congr 1
  funext ⟨r, s'⟩
  cases r <;> rfl

/-- A look gives the token `n` places ahead or is refused, and the pointer does not move. -/
theorem peek_pointer (c : Cursor) (n : Int) : peek n c.pointer =
    some ((c.around? n).elim (.error .outside) .ok, c.pointer) := by
  show (match c.around? n with
    | some t => pure t
    | none => throw .outside : Pointing Token) c.pointer = _
  cases c.around? n <;> rfl

/-- The action `x` does with an index what `y` does with a cursor at the same place: it gives the
same and leads to the same place, which is further on. Where `y` is refused, `x` is refused as well,
and does not move. -/
structure Mirrors {ε : Type} (refusal : ε → Refusal) (x : Pointing α)
    (y : Cursor → Except ε (α × Cursor)) : Prop where
  pointer_eq : ∀ {c : Cursor}, c.Ended → x c.pointer = some (match y c with
    | .ok (a, c') => (.ok a, c'.pointer)
    | .error e => (.error (refusal e), c.pointer))
  onward : ∀ {c : Cursor} {a : α} {c' : Cursor}, y c = .ok (a, c') → c.Onward c'

/-- The action `x` does what the reading `y` does, with errors as its refusals. -/
abbrev Follows (x : Pointing α) (y : Reading α) : Prop := Mirrors .failed x y

namespace Follows

variable {x : Pointing α} {y : Reading α} {f : Cursor → α} {g : α → Pointing β}

theorem pure (a : α) : Follows (pure a) (pure a) where
  pointer_eq _ := rfl
  onward := by
    rintro c _ _ ⟨⟩
    exact .refl c

theorem map (h : Follows x y) (f : α → β) : Follows (f <$> x) (f <$> y) where
  pointer_eq {c} hc := by
    rw [map_apply, h.pointer_eq hc, Reading.map_apply]
    cases y c <;> rfl
  onward hy := by
    rw [Reading.map_apply, Except.bind_eq_ok_iff] at hy
    obtain ⟨⟨a, c'⟩, hy, ⟨⟩⟩ := hy
    exact h.onward hy

/-- An action that looks: from every cursor it gives `f c` and does not move. -/
theorem look (h : ∀ c : Cursor, c.Ended → x c.pointer = some (.ok (f c), c.pointer)) :
    Follows x (.look f) where
  pointer_eq hc := h _ hc
  onward := by
    rintro c _ _ ⟨⟩
    exact .refl c

/-- What is done behind a look `f` is done at the same place, with what the look gave. -/
theorem bind_apply (h : Follows x (.look f)) (hc : c.Ended) :
    (x >>= g) c.pointer = g (f c) c.pointer := by
  rw [Pointing.bind_apply, h.pointer_eq hc]
  rfl

theorem bind {h : α → Reading β} (hx : Follows x (.look f))
    (hg : ∀ a, Follows (g a) (h a)) : Follows (x >>= g) (.look f >>= h) where
  pointer_eq hc := by
    rw [hx.bind_apply hc, (hg _).pointer_eq hc]
    rfl
  onward hy := (hg _).onward hy

/-- What a look gives may be seen in another way, where `f` and `f'` agree at every cursor that is
`Ended`. -/
theorem look_congr (h : Follows x (.look f)) {f' : Cursor → α}
    (heq : ∀ c : Cursor, c.Ended → f c = f' c) : Follows x (.look f') := by
  refine .look fun c hc => ?_
  rw [h.pointer_eq hc, Reading.look_apply, heq c hc]

theorem ite {b : Prop} [Decidable b] {x' : Pointing α} {y' : Reading α} (h : Follows x y)
    (h' : Follows x' y') : Follows (if b then x else x') (if b then y else y') := by
  split
  · exact h
  · exact h'

end Follows

theorem follows_peek : Follows (peek 0) Reading.peek := by
  refine .look fun c _ => ?_
  rw [peek_pointer, c.around?_zero]
  rfl

theorem follows_atEnd : Follows atEnd (.look Cursor.atEnd) := by
  have hlook : Follows atEnd (.look fun c => c.peek.kind == .endOfInput) :=
    follows_peek.map _
  refine hlook.look_congr fun c hc => ?_
  obtain ⟨past, rest, final⟩ := c
  cases rest with
  | nil => exact beq_iff_eq.2 hc.final_kind
  | cons t ts => exact beq_eq_false_iff_ne.2 (hc.inner t List.mem_cons_self)

theorem follows_check (kinds : List TokenKind) :
    Follows (check kinds) (Reading.check kinds) := follows_peek.map _

theorem follows_checkWord (words : List String) :
    Follows (checkWord words 0) (Reading.checkWord words) := follows_peek.map _

theorem follows_atStatementEnd : Follows atStatementEnd (.look Cursor.atStatementEnd) := by
  refine (follows_check _).look_congr fun c _ => ?_
  unfold Cursor.check Cursor.atStatementEnd
  cases c.peek.kind <;> rfl

theorem follows_advance : Follows advance Reading.advance where
  pointer_eq {c} hc := by
    rw [advance, follows_peek.bind_apply hc]
    obtain ⟨past, rest, final⟩ := c
    cases rest with
    | nil =>
      have hfinal : final.kind = .endOfInput := hc.final_kind
      rw [Cursor.peek_nil, if_neg (by simp [hfinal])]
      rfl
    | cons t ts =>
      rw [Cursor.peek_cons, if_pos (hc.inner t List.mem_cons_self)]
      show some (Except.ok t, (_ : Pointer)) = some (Except.ok t, (_ : Pointer))
      simp [Cursor.pointer, Cursor.index]
  onward {c} _ _ hy := .of_move c.onward_advance hy

/-- What is done behind a token `t` that is taken is done at the place behind it. The token is no
end of input, as that is the last one and stays ahead. -/
theorem advance_bind_apply {past ts : List Token} {t final : Token}
    (hc : (⟨past, t :: ts, final⟩ : Cursor).Ended) (f : Token → Pointing β) :
    (advance >>= f) (⟨past, t :: ts, final⟩ : Cursor).pointer =
      f t (⟨t :: past, ts, final⟩ : Cursor).pointer := by
  rw [bind_apply, follows_advance.pointer_eq hc]
  rfl

theorem follows_refuse (expected : String) :
    Follows (refuse expected : Pointing α) (Reading.fail expected) where
  pointer_eq hc := follows_peek.bind_apply hc
  onward hy := by
    rw [Reading.fail_apply] at hy
    cases hy

theorem follows_accept (kind : TokenKind) :
    Follows (accept kind) (Reading.accept kind) :=
  .bind (follows_check [kind]) fun _ => .ite (follows_advance.map some) (.pure none)

theorem follows_acceptWord (words : List String) :
    Follows (acceptWord words) (Reading.acceptWord words) :=
  .bind (follows_checkWord words) fun _ => .ite (follows_advance.map some) (.pure none)

theorem follows_expect (kind : TokenKind) (expected : String) :
    Follows (expect kind expected) (Reading.expect kind expected) :=
  .bind (follows_check [kind]) fun _ => .ite follows_advance (follows_refuse expected)

theorem follows_expectWord (word : String) :
    Follows (expectWord word) (Reading.expectWord word) :=
  .bind (follows_checkWord [word]) fun _ => .ite follows_advance (follows_refuse _)

theorem follows_endStatement : Follows endStatement Reading.endStatement :=
  .bind (follows_check _) fun _ => .ite (follows_advance.map _) <|
    .bind follows_atEnd fun _ => .ite (.pure ()) (follows_refuse _)

theorem follows_ensureProgress (start : Int) :
    Follows (ensureProgress start) (Reading.ensureProgress start) where
  pointer_eq {c} hc := by
    have hpeek : Follows (discard (peek 0)) (discard Reading.peek) := follows_peek.map _
    have hrefuse : (do discard (peek 0); throw (.failed .stalled) : Pointing Unit) c.pointer =
        some (.error (.failed .stalled), c.pointer) := by
      rw [bind_apply, hpeek.pointer_eq hc]
      rfl
    show (if (c.index : Int) ≤ start then _ else pure () : Pointing Unit) c.pointer = _
    rw [Reading.ensureProgress]
    by_cases hstart : (c.index : Int) ≤ start
    · rw [if_pos hstart, if_pos hstart]
      exact hrefuse
    · rw [if_neg hstart, if_neg hstart]
      rfl
  onward {c} _ _ hy := by
    unfold Reading.ensureProgress at hy
    split at hy
    · cases hy
    · cases hy
      exact .refl c

/-! ### Loops -/

/-- The rounds of a loop take the tokens up to the first that fails its `test`. The end of input
fails it, so more rounds than tokens ahead are never needed. -/
theorem advanceFor_pointer {test : Pointing Bool} {p : Token → Bool}
    (htest : Follows test (.look (p ·.peek))) (hp : ∀ t, t.kind = .endOfInput → p t = false)
    {rounds : Nat} (hc : c.Ended) (hrounds : c.rest.length < rounds) :
    advanceFor test rounds c.pointer = some (.ok (c.span p).1, (c.span p).2.pointer) := by
  obtain ⟨past, rest, final⟩ := c
  -- each round but the last leaves one token less ahead
  induction rest generalizing past rounds with
  | nil =>
    obtain ⟨rounds, rfl⟩ := Nat.exists_eq_succ_of_ne_zero (Nat.ne_zero_of_lt hrounds)
    rw [advanceFor, htest.bind_apply hc, Cursor.peek_nil, hp final hc.final_kind]
    rfl
  | cons t ts ih =>
    obtain ⟨rounds, rfl⟩ := Nat.exists_eq_succ_of_ne_zero (Nat.ne_zero_of_lt hrounds)
    rw [advanceFor, htest.bind_apply hc, Cursor.peek_cons]
    cases ht : p t with
    | false =>
      rw [Cursor.span_of_not ht]
      rfl
    | true =>
      rw [if_pos rfl, advance_bind_apply hc, bind_apply,
        ih _ hc.tail (Nat.lt_of_succ_lt_succ hrounds), Cursor.span_cons ht]
      rfl

/-- A loop takes the tokens up to the first that fails its test, as `span` does with a cursor. -/
theorem follows_advanceWhile {test : Pointing Bool} {p : Token → Bool}
    (htest : Follows test (.look (p ·.peek)))
    (hp : ∀ t, t.kind = .endOfInput → p t = false) :
    Follows (advanceWhile test) (.move (·.span p)) where
  pointer_eq {c} hc := by
    have hrounds : c.rest.length < c.pointer.tokens.length := by
      rw [c.length_pointer]
      omega
    exact advanceFor_pointer htest hp hc hrounds
  onward {c} _ _ hy := .of_move (c.onward_span p) hy

theorem follows_skipNewlines : Follows skipNewlines Reading.skipNewlines := by
  have htest : Follows (check [.newline, .semicolon])
      (.look fun c => c.peek.kind == .newline || c.peek.kind == .semicolon) := by
    refine (follows_check _).look_congr fun c _ => ?_
    unfold Cursor.check
    cases c.peek.kind <;> rfl
  exact (follows_advanceWhile htest fun t ht => by rw [ht]; rfl).map _

/-- A tail goes on up to a token that ends it. The action looks at the next token twice, the cursor
`c` once. -/
theorem follows_goesOn (stops : List TokenKind) : Follows (goesOn stops)
    (.look fun c => !c.peek.kind.endsStatement && !stops.contains c.peek.kind) := by
  refine .look fun c hc => ?_
  rw [goesOn, follows_atStatementEnd.bind_apply hc, ← Cursor.atStatementEnd]
  cases c.atStatementEnd with
  | true => rfl
  | false =>
    rw [if_neg (by decide), (follows_check stops).bind_apply hc]
    rfl

theorem follows_rawUntil (stops : List TokenKind) :
    Follows (rawUntil stops) (Reading.rawUntil stops) where
  pointer_eq {c} hc := by
    -- The action asks whether the tail goes on, takes one token and then loops. The span of the
    -- cursor does the same in one go, so it is taken apart at its first token.
    let p : Token → Bool := fun t => !t.kind.endsStatement && !stops.contains t.kind
    have hp : ∀ t, t.kind = .endOfInput → p t = false := fun t ht => by
      simp only [p, ht]
      rfl
    have htext : c.rawUntil stops =
        (String.ofList (Text.trim (Token.source (c.span p).1).toList), (c.span p).2) := rfl
    rw [rawUntil, (follows_goesOn stops).bind_apply hc]
    show (if p c.peek = true then _ else _ : Pointing String) c.pointer =
      some (.ok (c.rawUntil stops).1, (c.rawUntil stops).2.pointer)
    rw [htext]
    cases hgo : p c.peek with
    | false =>
      rw [Cursor.span_of_not hgo]
      rfl
    | true =>
      obtain ⟨past, rest, final⟩ := c
      cases rest with
      -- Nothing is ahead but the end of input, which ends every tail.
      | nil =>
        rw [Cursor.peek_nil, hp final hc.final_kind] at hgo
        cases hgo
      | cons t ts =>
        rw [Cursor.peek_cons] at hgo
        rw [if_pos rfl, advance_bind_apply hc, bind_apply,
          (follows_advanceWhile (follows_goesOn stops) hp).pointer_eq hc.tail, Cursor.span_cons hgo]
        rfl
  onward {c} _ _ hy := .of_move (c.onward_span _) hy

/-! ### Calls -/

theorem Follows.answer {x : Pointing α} {y : Reading α} (h : Follows x y) (f : α → Answer) :
    Mirrors id (f <$> x) (Call.answer f y) where
  pointer_eq {c} hc := by
    rw [map_apply, h.pointer_eq hc, Call.answer]
    cases y c <;> rfl
  onward hy := by
    unfold Call.answer at hy
    split at hy
    · next hread =>
      cases hy
      exact h.onward hread
    · cases hy

theorem mirrors_around (f : Token → Answer) (n : Int) :
    Mirrors id (f <$> peek n) (Call.answerAround f n) where
  pointer_eq {c} _ := by
    rw [map_apply, peek_pointer, Call.answerAround]
    cases c.around? n <;> rfl
  onward {c} _ _ hy := by
    unfold Call.answerAround at hy
    split at hy
    · cases hy
      exact .refl c
    · cases hy

/-- What is done for a `call` on a pointer does what the call does with a cursor at the same
place. -/
theorem mirrors_perform (call : Call) : Mirrors id (perform call) call.perform := by
  cases call with
  | peek n => exact mirrors_around .token n
  | atEnd => exact follows_atEnd.answer .flag
  | advance => exact follows_advance.answer .token
  | check kinds => exact (follows_check kinds).answer .flag
  | checkWord words n =>
    show Mirrors id (Answer.flag <$> (·.isWord words) <$> peek n) _
    rw [Functor.map_map]
    exact mirrors_around _ n
  | accept kind => exact (follows_accept kind).answer .ofToken?
  | acceptWord words => exact (follows_acceptWord words).answer .ofToken?
  | expect kind expected => exact (follows_expect kind _).answer .token
  | expectWord word => exact (follows_expectWord word).answer .token
  | fail expected => exact (follows_refuse expected).answer _
  | atStatementEnd => exact follows_atStatementEnd.answer .flag
  | skipNewlines => exact follows_skipNewlines.answer _
  | endStatement => exact follows_endStatement.answer _
  | restOfStatement => exact (follows_rawUntil []).answer .text
  | rawUntil stops => exact (follows_rawUntil stops).answer .text
  | ensureProgress start => exact (follows_ensureProgress start).answer _

theorem perform_pointer (call : Call) (hc : c.Ended) :
    perform call c.pointer = some ((call.step c).1, (call.step c).2.pointer) := by
  rw [(mirrors_perform call).pointer_eq hc, Call.step]
  cases call.perform c <;> rfl

end Pointing

namespace Cursor.Call

/-- A `call` takes tokens that are ahead, from the next one on, or none. No call moves back. -/
theorem onward_step (call : Call) (c : Cursor) : c.Onward (call.step c).2 := by
  unfold step
  split
  · next hperform => exact (Pointing.mirrors_perform call).onward hperform
  · exact .refl c

/-! ### Refusals -/

/-- How far ahead a call looks, where it can be told to look anywhere. All other calls look at the
next token only. -/
def distance? : Call → Option Int
  | peek distance | checkWord _ distance => some distance
  | _ => none

theorem answer_ne_outside {α : Type} (f : α → Answer) (y : Reading α) (c : Cursor) :
    answer f y c ≠ .error .outside := by
  unfold answer
  split <;> nofun

theorem answerAround_outside_iff (f : Token → Answer) (n : Int) (c : Cursor) :
    answerAround f n c = .error .outside ↔ c.index + n < -(c.pointer.tokens.length : Int) := by
  rw [← around?_eq_none_iff, answerAround]
  cases c.around? n with
  | none => exact iff_of_true rfl rfl
  | some t => exact iff_of_false nofun nofun

/-- A `call` finds no token if it looks behind by more places than there are, and only then. -/
theorem outside_iff (call : Call) (c : Cursor) : (call.step c).1 = .error .outside ↔
    ∃ n, call.distance? = some n ∧ c.index + n < -(c.pointer.tokens.length : Int) := by
  have hstep : (call.step c).1 = .error .outside ↔ call.perform c = .error .outside := by
    unfold step
    split
    · next h => simp [h]
    · next h => simp [h]
  rw [hstep]
  cases call with
  | peek n => exact (answerAround_outside_iff _ n c).trans (by simp [distance?])
  | checkWord words n => exact (answerAround_outside_iff _ n c).trans (by simp [distance?])
  | _ =>
    rw [perform]
    exact iff_of_false (answer_ne_outside _ _ c) fun ⟨_, h, _⟩ => nomatch h

/-- A call that is refused leaves the cursor `c` where it is. -/
theorem step_of_error {call : Call} {c : Cursor} {e : Refusal} (h : (call.step c).1 = .error e) :
    (call.step c).2 = c := by
  unfold step at h ⊢
  split
  · next hperform =>
    rw [hperform] at h
    cases h
  · rfl

end Cursor.Call

/-! ### Runs -/

/-- The pointer `s` is before one of the tokens `ts`, and what it has taken are those behind it. -/
structure Pointer.Inside (ts : List Token) (s : Pointer) : Prop where
  tokens_eq : s.tokens = ts
  index_lt : s.index < ts.length
  taken_eq : s.taken = ts.take s.index

/-- What a call does that finds a pointer in the tokens `ts`, gives the result `r` and leaves the
pointer `s'`. -/
structure Cursor.Call.IsSafe (ts : List Token) (call : Call) (s : Pointer)
    (r : Except Refusal Answer) (s' : Pointer) : Prop where
  before : s.Inside ts
  behind : s'.Inside ts
  index_le : s.index ≤ s'.index
  /-- The tokens that are taken stand in a row, from the next one on. -/
  taken_eq : s'.taken = s.taken ++ (ts.drop s.index).take (s'.index - s.index)
  unmoved : ∀ e, r = .error e → s' = s
  /-- Only a look too far behind is at no token of the list. -/
  outside_iff : r = .error .outside ↔
    ∃ n, call.distance? = some n ∧ s.index + n < -(ts.length : Int)

namespace Cursor

variable {c c' : Cursor}

theorem inside_pointer (c : Cursor) : c.pointer.Inside c.pointer.tokens where
  tokens_eq := rfl
  index_lt := by
    rw [length_pointer]
    show c.index < _
    omega
  taken_eq := by
    show c.past.reverse = (c.past.reverse ++ c.rest ++ [c.final]).take c.past.length
    have hpast : c.past.reverse.length = c.past.length := List.length_reverse
    rw [List.append_assoc, ← hpast, List.take_left]

theorem Onward.tokens_eq (h : c.Onward c') : c'.pointer.tokens = c.pointer.tokens := by
  obtain ⟨taken, hrest, hpast, hfinal⟩ := h
  simp [pointer, hrest, hpast, hfinal]

theorem Onward.index_le (h : c.Onward c') : c.index ≤ c'.index := by
  obtain ⟨taken, -, hpast, -⟩ := h
  rw [index, index, hpast, List.length_append]
  exact Nat.le_add_left _ _

/-- Every call is safe, wherever the cursor `c` is. -/
theorem Call.isSafe_step (call : Call) (c : Cursor) :
    IsSafe c.pointer.tokens call c.pointer (call.step c).1 (call.step c).2.pointer := by
  have honward := call.onward_step c
  have hle : c.pointer.index ≤ (call.step c).2.pointer.index := honward.index_le
  have hinside := (call.step c).2.inside_pointer
  rw [honward.tokens_eq] at hinside
  refine ⟨c.inside_pointer, hinside, hle, ?_, fun e he => by rw [call.step_of_error he],
    call.outside_iff c⟩
  rw [hinside.taken_eq, c.inside_pointer.taken_eq, ← List.take_add, Nat.add_sub_cancel' hle]

theorem onward_after (c : Cursor) (calls : List Call) : c.Onward (c.after calls) := by
  induction calls generalizing c with
  | nil => exact .refl c
  | cons call calls ih => exact (call.onward_step c).trans (ih _)

/-- Calls lead a pointer where they lead the cursor `c` at the same place, so each of them ends. -/
theorem after_pointer (hc : c.Ended) (calls : List Call) :
    c.pointer.after calls = some (c.after calls).pointer := by
  induction calls generalizing c with
  | nil => rfl
  | cons call calls ih =>
    rw [Pointer.after, Pointing.perform_pointer call hc]
    exact ih ((call.onward_step c).ended hc)

end Cursor

/-! ### Tokens of texts -/

/-- Tokens `ts` of which the last, and no other, is the end of input, and none is a comment. -/
structure Token.AreRead (ts : List Token) : Prop where
  last : ∃ us e, ts = us ++ [e] ∧ e.kind = .endOfInput ∧ ∀ t ∈ us, t.kind ≠ .endOfInput
  read : ∀ t ∈ ts, t.kind ≠ .comment

namespace Cursor

open Token (scan)

variable (d : Dialect) (text : String) (line offset : Int)

/-- At the start of the tokens of a `text`, comments are left out, and the end of input is the last
of the tokens. The cursor and the pointer at the start are at the same place. -/
theorem start_scan : Token.AreRead ((scan d text line offset).filter isRead) ∧
    (ofTokens (scan d text line offset)).Ended ∧
      (ofTokens (scan d text line offset)).pointer = .ofTokens (scan d text line offset) := by
  obtain ⟨us, e, hscan, he, -, hinner⟩ := (Token.tiles_pieces d text line offset).last
  have hrow : (us ++ [e]).filter isRead = us.filter isRead ++ [e] := by
    rw [List.filter_append, List.filter_cons_of_pos (by simp [isRead, he])]
    rfl
  have hrest : ∀ t ∈ us.filter isRead, t.kind ≠ .endOfInput :=
    fun t ht => hinner t (List.mem_of_mem_filter ht)
  rw [hscan, Token.ofTokens_append, Pointer.ofTokens]
  refine ⟨⟨⟨_, e, hrow, he, hrest⟩, fun t ht => ?_⟩, ⟨he, hrest⟩, ?_⟩
  · simpa [isRead] using (List.mem_filter.1 ht).2
  · rw [hrow]
    rfl

/-- Behind any calls, on the tokens of any text, the next `call` ends and is safe. A cursor gives
the same answers as the pointer, at the same places. -/
theorem Call.isSafe_after (calls : List Call) (call : Call) :
    let ts := (scan d text line offset).filter isRead
    let c := (ofTokens (scan d text line offset)).after calls
    Token.AreRead ts ∧
      (Pointer.ofTokens (scan d text line offset)).after calls = some c.pointer ∧
        Pointing.perform call c.pointer = some ((call.step c).1, (call.step c).2.pointer) ∧
          IsSafe ts call c.pointer (call.step c).1 (call.step c).2.pointer := by
  intro ts c
  obtain ⟨hread, hended, hstart⟩ := start_scan d text line offset
  have honward : (ofTokens (scan d text line offset)).Onward c := onward_after _ calls
  have htokens : c.pointer.tokens = ts := by
    rw [honward.tokens_eq, hstart]
    rfl
  refine ⟨hread, ?_, Pointing.perform_pointer call (honward.ended hended), ?_⟩
  · rw [← hstart]
    exact after_pointer hended calls
  · rw [← htokens]
    exact isSafe_step call c

/-- There is one token in an empty text, and none two places before it. -/
theorem Call.peek_outside : ∃ e, scan .entities "" 1 0 = [e] ∧
    Pointing.perform (.peek (-2)) (.ofTokens [e]) = some (.error .outside, .ofTokens [e]) := by
  have hscan : scan .entities "" 1 0 = [⟨.endOfInput, "", "", ⟨1, 0, 0⟩, ⟨1, 0, 0⟩⟩] := by
    rw [scan, String.toList_empty, Piece.ofText_nil]
    rfl
  exact ⟨_, hscan, rfl⟩

end Cursor
end DiagramText
