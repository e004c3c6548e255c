import DiagramText.Reading

/-!
# Single steps of reading

What each action of `Reading` does on a cursor of which the next tokens are known, so that a reading
can be followed token by token.

* `Reading.bind_apply`, `Reading.map_apply` and `Reading.loop_apply` take a reading apart.
* The lemmas about `accept`, `expect` and `endStatement` say what they do before a token.
-/

namespace DiagramText

namespace Cursor

variable {past ts : List Token} {t final : Token}

@[simp]
theorem peek_cons : (⟨past, t :: ts, final⟩ : Cursor).peek = t := rfl

@[simp]
theorem peek_nil : (⟨past, [], final⟩ : Cursor).peek = final := rfl

@[simp]
theorem ahead_zero (c : Cursor) : c.ahead 0 = c.peek := rfl

@[simp]
theorem ahead_one_cons : (⟨past, t :: ts, final⟩ : Cursor).ahead 1 =
    (⟨t :: past, ts, final⟩ : Cursor).peek :=
  rfl

end Cursor

namespace Reading

variable {α β : Type}

/-! ### Putting readings together -/

theorem bind_apply (x : Reading α) (f : α → Reading β) (c : Cursor) :
    (x >>= f) c = (x c).bind fun r => f r.1 r.2 := rfl

theorem map_apply (x : Reading α) (f : α → β) (c : Cursor) :
    (f <$> x) c = (x c).bind fun r => .ok (f r.1, r.2) := rfl

theorem pure_apply (a : α) (c : Cursor) : (pure a : Reading α) c = .ok (a, c) := rfl

theorem discard_apply (x : Reading α) (c : Cursor) :
    discard x c = (x c).bind fun r => .ok ((), r.2) := by
  rfl

theorem loop_apply {σ : Type} (round : σ → Reading (σ ⊕ α)) (s : σ) (c : Cursor) :
    loop round s c = match round s c with
      | .error e => .error e
      | .ok (.inr a, c') => .ok (a, c')
      | .ok (.inl s', c') =>
        if c'.rest.length < c.rest.length then loop round s' c' else .error .stalled := by
  rw [loop]
  cases round s c with
  | error e => rfl
  | ok r => obtain ⟨(s' | a), c'⟩ := r <;> rfl

theorem loop_inl {σ : Type} {round : σ → Reading (σ ⊕ α)} {s s' : σ} {c c' : Cursor}
    (h : round s c = .ok (.inl s', c')) (hlt : c'.rest.length < c.rest.length) :
    loop round s c = loop round s' c' := by
  rw [loop_apply, h]
  exact if_pos hlt

theorem loop_inr {σ : Type} {round : σ → Reading (σ ⊕ α)} {s : σ} {c c' : Cursor} {a : α}
    (h : round s c = .ok (.inr a, c')) : loop round s c = .ok (a, c') := by
  rw [loop_apply, h]

/-! ### Looking -/

variable {past ts : List Token} {t final : Token}

theorem look_apply (f : Cursor → α) (c : Cursor) : look f c = .ok (f c, c) := rfl

theorem peek_apply (c : Cursor) : peek c = .ok (c.peek, c) := rfl

theorem ahead_apply (n : Nat) (c : Cursor) : ahead n c = .ok (c.ahead n, c) := rfl

theorem check_apply (kinds : List TokenKind) (c : Cursor) :
    check kinds c = .ok (kinds.contains c.peek.kind, c) := rfl

theorem checkWord_apply (words : List String) (c : Cursor) :
    checkWord words c = .ok (c.peek.isWord words, c) := rfl

/-- A `label` that its own text means is read from it. -/
theorem content_raw {label : Content} (h : Content.ofText? label.raw = some label) (c : Cursor) :
    content label.raw c = .ok (label, c) := by
  rw [content, h]
  rfl

/-! ### Taking tokens -/

theorem advance_cons : advance ⟨past, t :: ts, final⟩ = .ok (t, ⟨t :: past, ts, final⟩) := rfl

theorem fail_apply (expected : String) (c : Cursor) : (fail expected : Reading α) c =
    .error (.malformed ⟨.unexpected expected c.peek.describe, some c.peek.start⟩) := rfl

theorem accept_cons (kind : TokenKind) : accept kind ⟨past, t :: ts, final⟩ =
    if t.kind = kind then .ok (some t, ⟨t :: past, ts, final⟩)
    else .ok (none, ⟨past, t :: ts, final⟩) := by
  by_cases h : t.kind = kind
  · simp [accept, bind_apply, check_apply, Except.bind, h, map_apply, advance_cons]
  · simp [accept, bind_apply, check_apply, Except.bind, h, pure_apply]

theorem accept_nil {kind : TokenKind} (h : final.kind ≠ kind) :
    accept kind ⟨past, [], final⟩ = .ok (none, ⟨past, [], final⟩) := by
  simp [accept, bind_apply, check_apply, Except.bind, h, pure_apply]

theorem behindColon_of_kind_ne (read : Option Token → Reading (Option α)) (h : t.kind ≠ .colon) :
    behindColon read ⟨past, t :: ts, final⟩ = .ok (none, ⟨past, t :: ts, final⟩) := by
  simp [behindColon, bind_apply, accept_cons, h, Except.bind, pure_apply]

theorem behindColon_cons {colon text : Token} (read : Option Token → Reading (Option α))
    (hcolon : colon.kind = .colon) (htext : text.kind = .text) :
    behindColon read ⟨past, colon :: text :: ts, final⟩ =
      read (some text) ⟨text :: colon :: past, ts, final⟩ := by
  simp [behindColon, bind_apply, accept_cons, hcolon, htext, Except.bind]

theorem acceptWord_cons (words : List String) : acceptWord words ⟨past, t :: ts, final⟩ =
    if t.isWord words = true then .ok (some t, ⟨t :: past, ts, final⟩)
    else .ok (none, ⟨past, t :: ts, final⟩) := by
  by_cases h : t.isWord words = true
  · simp [acceptWord, bind_apply, checkWord_apply, Except.bind, h, map_apply, advance_cons]
  · simp [acceptWord, bind_apply, checkWord_apply, Except.bind, h, pure_apply]

theorem expectAny_cons {kinds : List TokenKind} {expected : String} (h : t.kind ∈ kinds) :
    expectAny kinds expected ⟨past, t :: ts, final⟩ = .ok (t, ⟨t :: past, ts, final⟩) := by
  simp [expectAny, bind_apply, check_apply, Except.bind, h, advance_cons]

theorem expect_cons {kind : TokenKind} {expected : String} (h : t.kind = kind) :
    expect kind expected ⟨past, t :: ts, final⟩ = .ok (t, ⟨t :: past, ts, final⟩) :=
  expectAny_cons (by simp [h])

theorem expect_ne {kind : TokenKind} {expected : String} (h : t.kind ≠ kind) :
    expect kind expected ⟨past, t :: ts, final⟩ =
      .error (.malformed ⟨.unexpected expected t.describe, some t.start⟩) := by
  simp [expect, expectAny, bind_apply, check_apply, Except.bind, h, fail_apply]

theorem expectWord_cons {word : String} (h : t.isWord [word] = true) :
    expectWord word ⟨past, t :: ts, final⟩ = .ok (t, ⟨t :: past, ts, final⟩) := by
  simp [expectWord, bind_apply, checkWord_apply, Except.bind, h, advance_cons]

/-! ### Statements -/

theorem skipNewlines_nil :
    skipNewlines ⟨past, [], final⟩ = .ok ((), ⟨past, [], final⟩) := rfl

theorem endStatement_nil (h : final.kind = .endOfInput) :
    endStatement ⟨past, [], final⟩ = .ok ((), ⟨past, [], final⟩) := by
  simp [endStatement, bind_apply, check_apply, look_apply, Except.bind, h, pure_apply,
    Cursor.atEnd]

theorem endStatement_cons : endStatement ⟨past, t :: ts, final⟩ =
    if t.kind = .newline ∨ t.kind = .semicolon then .ok ((), ⟨t :: past, ts, final⟩)
    else .error (.malformed ⟨.unexpected "end of line" t.describe, some t.start⟩) := by
  by_cases h : t.kind = .newline ∨ t.kind = .semicolon
  · simp [endStatement, bind_apply, check_apply, Except.bind, h, discard_apply, advance_cons]
  · simp [endStatement, bind_apply, check_apply, look_apply, Except.bind, h, Cursor.atEnd,
      fail_apply]

theorem untilEnd_nil {σ : Type} (statement : σ → Reading σ) (s : σ) :
    untilEnd statement s ⟨past, [], final⟩ = .ok (s, ⟨past, [], final⟩) := by
  exact loop_inr rfl

/-- Reading statements takes the first one and goes on behind it, if it leaves fewer tokens
ahead. -/
theorem untilEnd_cons {σ : Type} {statement : σ → Reading σ} {s s' : σ} {c : Cursor}
    (h : statement s ⟨past, t :: ts, final⟩ = .ok (s', c)) (hc : c.rest.length < ts.length + 1) :
    untilEnd statement s ⟨past, t :: ts, final⟩ = untilEnd statement s' c := by
  refine loop_inl ?_ hc
  simp only [bind_apply, look_apply, Cursor.atEnd, Except.bind, List.isEmpty_cons,
    Bool.false_eq_true, if_false, h, pure_apply]

/-- Where statements are read up to the end of input, the first of them is read and leaves fewer
tokens ahead, and the others are read behind it. -/
theorem exists_of_untilEnd_cons {σ : Type} {statement : σ → Reading σ} {s e : σ} {c' : Cursor}
    (h : untilEnd statement s ⟨past, t :: ts, final⟩ = .ok (e, c')) :
    ∃ s' c, statement s ⟨past, t :: ts, final⟩ = .ok (s', c) ∧
      c.rest.length < (t :: ts).length ∧ untilEnd statement s' c = .ok (e, c') := by
  rw [untilEnd, loop_apply] at h
  simp only [bind_apply, look_apply, Cursor.atEnd, Except.bind, List.isEmpty_cons,
    Bool.false_eq_true, if_false] at h
  cases hx : statement s ⟨past, t :: ts, final⟩ with
  | error e =>
    rw [hx] at h
    cases h
  | ok r =>
    rw [hx] at h
    dsimp only [pure_apply] at h
    split at h
    · next hlt => exact ⟨r.1, r.2, rfl, hlt, h⟩
    · cases h

end Reading
end DiagramText
