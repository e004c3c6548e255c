import DiagramText.Proofs.Reading.Step

/-!
# Where readings are located

The positions that a reading puts into its result, and the position of its error, are those of
tokens that it reads. So if all tokens stand at positions with some property, what is read has only
positions with this property, and an error does as well. Few actions fail because a block is left
open, so it is kept beside this which blocks they may be.

* `Reading.Located`: at tokens with a property, a reading gives a result or an error with it.
* `Reading.Located.bind`, `Reading.Located.loop` and the others put readings together.
* `Reading.located_expect`, `Reading.located_rawUntil` and the others for the single actions.
-/

namespace DiagramText

variable {P : Position → Prop} {B : String → Prop}

/-- A cursor of which all tokens ahead, and its end of input, start at positions with the property
`P`. -/
def Cursor.StartsAt (P : Position → Prop) (c : Cursor) : Prop :=
  (∀ t ∈ c.rest, P t.start) ∧ P c.final.start

theorem Cursor.StartsAt.ahead {c : Cursor} (h : c.StartsAt P) (n : Nat) : P (c.ahead n).start := by
  unfold Cursor.ahead
  cases hget : c.rest[n]? with
  | none => exact h.2
  | some t => exact h.1 t (List.mem_of_getElem? hget)

/-- If a block is left open, it is one with the property `B`. -/
def ReadError.Cause.Opens (B : String → Prop) : ReadError.Cause → Prop
  | .unterminated block _ => B block
  | _ => True

/-- A failure of which the position, if the text is to blame, has the property `P`, and of which the
block that is left open, if this is why, has the property `B`. -/
def Failure.LocatedAt (P : Position → Prop) (B : String → Prop) : Failure → Prop
  | .malformed e => (∃ p, e.position = some p ∧ P p) ∧ e.cause.Opens B
  | _ => True

namespace Except

variable {α β : Type} {Q : α → Prop} {R : β → Prop}

/-- A result with the property `Q`, or a failure that is `Failure.LocatedAt` such a position. -/
def Located (P : Position → Prop) (B : String → Prop) (Q : α → Prop) : Except Failure α → Prop
  | .ok a => Q a
  | .error e => e.LocatedAt P B

theorem Located.bind {x : Except Failure α} {f : α → Except Failure β} (hx : Located P B Q x)
    (hf : ∀ a, Q a → Located P B R (f a)) : Located P B R (x.bind f) := by
  cases x with
  | error e => exact hx
  | ok a => exact hf a hx

theorem Located.map {x : Except Failure α} {f : α → β} (hx : Located P B (fun a => R (f a)) x) :
    Located P B R (x.map f) := by
  cases x with
  | error e => exact hx
  | ok a => exact hx

theorem Located.imp {x : Except Failure α} {Q' : α → Prop} (hx : Located P B Q x)
    (h : ∀ a, Q a → Q' a) : Located P B Q' x := by
  cases x with
  | error e => exact hx
  | ok a => exact h a hx

end Except

namespace Reading

variable {α β σ : Type} {Q : α → Prop} {R : β → Prop} {x : Reading α}

/-- At tokens that start at positions with the property `P`, the reading `x` gives a result with the
property `Q`, and leaves the end of input what it is, or it fails at such a position. Where a block
is left open it is one with the property `B`. -/
structure Located (P : Position → Prop) (B : String → Prop) (x : Reading α) (Q : α → Prop) :
    Prop where
  apply : ∀ c : Cursor, c.StartsAt P →
    Except.Located P B (fun r => Q r.1 ∧ r.2.StartsAt P ∧ r.2.final = c.final) (x c)

namespace Located

/-! ### Putting readings together -/

theorem imp {Q' : α → Prop} (hx : Located P B x Q) (h : ∀ a, Q a → Q' a) : Located P B x Q' :=
  ⟨fun c hc => (hx.apply c hc).imp fun _ hr => ⟨h _ hr.1, hr.2⟩⟩

theorem pure {a : α} (h : Q a) : Located P B (pure a) Q := ⟨fun _ hc => ⟨h, hc, rfl⟩⟩

theorem bind {f : α → Reading β} (hx : Located P B x Q) (hf : ∀ a, Q a → Located P B (f a) R) :
    Located P B (x >>= f) R :=
  ⟨fun c hc => (hx.apply c hc).bind fun r ⟨hr, hstarts, hfinal⟩ =>
    ((hf r.1 hr).apply r.2 hstarts).imp fun _ hs => hs.imp_right (.imp_right (·.trans hfinal))⟩

theorem map {f : α → β} (hx : Located P B x fun a => R (f a)) : Located P B (f <$> x) R :=
  ⟨fun c hc => (hx.apply c hc).bind fun _ hr => hr⟩

theorem ite {b : Prop} [Decidable b] {y : Reading α} (hx : b → Located P B x Q)
    (hy : ¬b → Located P B y Q) : Located P B (if b then x else y) Q := by
  split
  · exact hx ‹_›
  · exact hy ‹_›

theorem look {f : Cursor → α} (h : ∀ c : Cursor, c.StartsAt P → Q (f c)) :
    Located P B (look f) Q := ⟨fun c hc => ⟨h c hc, hc, rfl⟩⟩

theorem failAt {cause : ReadError.Cause} (hcause : cause.Opens B) {p : Position} (hp : P p) :
    Located P B (Reading.failAt cause (some p)) Q := ⟨fun _ _ => ⟨⟨p, rfl, hp⟩, hcause⟩⟩

theorem unterminated {block : String} (hblock : B block) {openedAt : Option Position}
    {p : Position} (hp : P p) :
    Located P B (Reading.failAt (.unterminated block openedAt) (some p)) Q :=
  ⟨fun _ _ => ⟨⟨p, rfl, hp⟩, hblock⟩⟩

theorem unexpected (expected : String) {t : Token} (ht : P t.start) :
    Located P B (Reading.unexpected expected t) Q := failAt (by trivial) ht

/-- What is no reading is located where it fails, whatever the cursor is. -/
theorem lift {x : Except Failure α} (hx : Except.Located P B Q x) :
    Located P B (StateT.lift x) Q :=
  ⟨fun _ hc => hx.bind fun _ ha => ⟨ha, hc, rfl⟩⟩

/-! ### Repeating -/

/-- What every round of a loop keeps, here `I`, holds at its end. -/
theorem loop {round : σ → Reading (σ ⊕ α)} {I : σ → Prop}
    (h : ∀ s, I s → Located P B (round s) fun r => r.elim I Q) {s : σ} (hs : I s) :
    Located P B (loop round s) Q := by
  refine ⟨fun c hc => ?_⟩
  induction hlen : c.rest.length using Nat.strongRecOn generalizing s c with
  | _ len ih =>
    have hround := (h s hs).apply c hc
    rw [loop_apply]
    cases hx : round s c with
    | error e =>
      rw [hx] at hround
      exact hround
    | ok r =>
      obtain ⟨s' | a, c'⟩ := r
      · rw [hx] at hround
        show Except.Located P B _ (if c'.rest.length < c.rest.length then _ else _)
        split
        · obtain ⟨hs', hstarts, hfinal⟩ := hround
          exact (ih _ (by omega) hs' c' hstarts rfl).imp fun _ hr =>
            hr.imp_right (.imp_right (·.trans hfinal))
        · trivial
      · rw [hx] at hround
        exact hround

/-- What every statement keeps, here `I`, holds at the end of input. -/
theorem untilEnd {statement : σ → Reading σ} {I : σ → Prop}
    (h : ∀ s, I s → Located P B (statement s) I) {s : σ} (hs : I s) :
    Located P B (untilEnd statement s) I := by
  refine loop (fun s hs => .bind (look (Q := fun _ => True) fun _ _ => trivial) fun b _ => ?_) hs
  exact .ite (fun _ => .pure hs) fun _ => .bind (h s hs) fun s' hs' => .pure (a := Sum.inl s') hs'

end Located

/-! ### Single actions -/

theorem located_peek : Located P B peek fun t => P t.start := .look fun _ hc => hc.ahead 0

theorem located_ahead (n : Nat) : Located P B (ahead n) fun t => P t.start :=
  .look fun _ hc => hc.ahead n

theorem located_look (f : Cursor → α) : Located P B (look f) fun _ => True :=
  .look fun _ _ => trivial

theorem located_check (kinds : List TokenKind) : Located P B (check kinds) fun _ => True :=
  located_look _

theorem located_checkWord (words : List String) : Located P B (checkWord words) fun _ => True :=
  located_look _

theorem located_fail (expected : String) : Located P B (fail expected : Reading α) Q :=
  .bind located_peek fun _ ht => .unexpected expected ht

theorem located_advance : Located P B advance fun t => P t.start := by
  constructor
  rintro ⟨past, rest, final⟩ ⟨hrest, hfinal⟩
  cases rest with
  | nil => exact ⟨hfinal, ⟨hrest, hfinal⟩, rfl⟩
  | cons t ts =>
    obtain ⟨ht, hts⟩ := List.forall_mem_cons.1 hrest
    exact ⟨ht, ⟨hts, hfinal⟩, rfl⟩

theorem located_accept (kind : TokenKind) :
    Located P B (accept kind) fun t => ∀ u ∈ t, P u.start :=
  .bind (located_check _) fun _ _ => .ite
    (fun _ => .map (located_advance.imp fun _ ht => by rintro _ ⟨⟩; exact ht))
    fun _ => .pure (fun _ h => nomatch h)

theorem located_acceptWord (words : List String) :
    Located P B (acceptWord words) fun t => ∀ u ∈ t, P u.start :=
  .bind (located_checkWord _) fun _ _ => .ite
    (fun _ => .map (located_advance.imp fun _ ht => by rintro _ ⟨⟩; exact ht))
    fun _ => .pure (fun _ h => nomatch h)

theorem located_expectAny (kinds : List TokenKind) (expected : String) :
    Located P B (expectAny kinds expected) fun t => P t.start :=
  .bind (located_check _) fun _ _ => .ite (fun _ => located_advance) fun _ => located_fail _

theorem located_expect (kind : TokenKind) (expected : String) :
    Located P B (expect kind expected) fun t => P t.start := located_expectAny _ _

theorem located_expectWord (word : String) : Located P B (expectWord word) fun t => P t.start :=
  .bind (located_checkWord _) fun _ _ => .ite (fun _ => located_advance) fun _ => located_fail _

theorem located_ofResult {result : Except ReadError α}
    (h : ∀ e, result = .error e → (Failure.malformed e).LocatedAt P B) :
    Located P B (ofResult result) fun _ => True := by
  refine ⟨fun c hc => ?_⟩
  cases result with
  | ok a => exact ⟨trivial, hc, rfl⟩
  | error e => exact h e rfl

theorem located_content (text : String) : Located P B (content text) fun _ => True := by
  unfold content
  split
  · exact .pure trivial
  · exact ⟨fun _ _ => trivial⟩

theorem located_contentOf (token : Option Token) : Located P B (contentOf token) fun _ => True := by
  cases token with
  | none => exact .pure trivial
  | some t => exact .map (located_content _)

theorem located_behindColon {read : Option Token → Reading (Option α)}
    (h : ∀ t, Located P B (read t) fun _ => True) :
    Located P B (behindColon read) fun _ => True := by
  refine .bind (located_accept _) fun t _ => ?_
  cases t with
  | none => exact .pure trivial
  | some _ => exact .bind (located_accept _) fun _ _ => h _

/-- Moving past tokens leaves the tokens behind them, which start at such positions as well. -/
theorem located_span (p : Token → Bool) {f : List Token → α} :
    Located P B (move fun c => (f (c.span p).1, (c.span p).2)) fun _ => True :=
  ⟨fun _ hc =>
    ⟨trivial, ⟨fun t ht => hc.1 t ((List.dropWhile_suffix p).mem ht), hc.2⟩, rfl⟩⟩

theorem located_skipNewlines : Located P B skipNewlines fun _ => True :=
  located_span _ (f := fun _ => ())

theorem located_rawUntil (stops : List TokenKind) : Located P B (rawUntil stops) fun _ => True :=
  located_span _ (f := fun ts => String.ofList (Text.trim (Token.source ts).toList))

theorem located_restOfStatement : Located P B restOfStatement fun _ => True := located_rawUntil _

theorem located_endStatement : Located P B endStatement fun _ => True :=
  .bind (located_check _) fun _ _ => .ite
    (fun _ => .map (located_advance.imp fun _ _ => trivial))
    fun _ => .bind (located_look _) fun _ _ => .ite (fun _ => .pure trivial)
      fun _ => located_fail _

theorem located_takeDirection (expected : String) :
    Located P B (takeDirection expected) fun _ => True := by
  refine .bind located_advance fun t ht => ?_
  split
  · exact .pure trivial
  · exact .unexpected expected ht

/-! ### Bodies in braces -/

/-- A body is located if its lines are, and where it is left open the `block` is one that may be. -/
theorem located_body {line : σ → Reading σ} {I : σ → Prop} {block : String}
    {openedAt : Option Position} (hblock : B block) (hline : ∀ s, I s → Located P B (line s) I)
    {s : σ} (hs : I s) :
    Located P B (loop (bodyRound line (.unterminated block openedAt)) s) I := by
  refine .loop (fun s hs => ?_) hs
  refine .bind located_skipNewlines fun _ _ => .bind (located_look _) fun _ _ => .ite
    (fun _ => .bind located_peek fun _ ht => .unterminated hblock ht)
    fun _ => .bind (located_accept _) fun _ _ => .ite ?_ ?_
  · exact fun _ => .bind located_endStatement fun _ _ => .pure hs
  · exact fun _ => .bind (hline s hs) fun _ hs' => .pure hs'

end Reading
end DiagramText
