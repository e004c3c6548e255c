import DiagramText.Proofs.Reading.Step

/-!
# Readings that do not depend on places

Two rows of tokens are alike if they differ only in the places of their tokens, in the spelling of
their line breaks and in the gaps at the starts of their lines; the second row may also have further
line breaks at its end. Two readings are alike if they give related results on alike cursors, or
both fail with the same kind of error.

* `Reading.Alike.bind`, `Reading.Alike.loop` and `Reading.Alike.untilEnd` put alike readings
  together.
* The other lemmas say for each action of `Reading` that it is alike itself.

Which positions count as related is a parameter `P`, so that the same lemmas serve for readings that
ignore places altogether and for those that keep lines and columns.
-/

namespace DiagramText

/-! ### Failures of one kind -/

namespace ReadError

/-- What sort of thing is wrong with a text, without the words that name it. -/
inductive Kind where
  | unknownDiagram
  | unexpectedToken
  | unterminatedBlock
  | invalidIdentifier
  | malformedDuration
  | malformedDate
  | invalidCardinality
deriving DecidableEq, Repr

/-- The sort of thing that a cause is. -/
def Cause.kind : Cause → Kind
  | headerExpected _ | headerMissing => .unknownDiagram
  | unexpected _ _ => .unexpectedToken
  | unterminated _ _ => .unterminatedBlock
  | invalidTaskId _ | noDependency | undeclaredDependency _ => .invalidIdentifier
  | invalidDuration _ | missingEnd => .malformedDuration
  | invalidDate _ _ => .malformedDate
  | invalidCardinality _ _ => .invalidCardinality

end ReadError

section

variable (P : Position → Position → Prop)

/-- Failures of the same kind, at positions that are related by `P`. -/
inductive Failure.Alike : Failure → Failure → Prop
  | malformed {e f : ReadError} (kind : e.cause.kind = f.cause.kind)
      (position : Option.Rel P e.position f.position) : Alike (.malformed e) (.malformed f)
  | repeatedDateField : Alike .repeatedDateField .repeatedDateField
  | oversizedNumber : Alike .oversizedNumber .oversizedNumber
  | stalled : Alike .stalled .stalled

/-! ### Alike tokens -/

/-- A kind `k` of token that stands inside a line. -/
def TokenKind.Inner (k : TokenKind) : Prop := k ≠ .newline ∧ k ≠ .endOfInput

instance : DecidablePred TokenKind.Inner := fun _ => inferInstanceAs (Decidable (_ ∧ _))

/-- Tokens of one kind and text at places that are related by `P`; the text of a line break does not
matter. -/
structure Token.Alike (t u : Token) : Prop where
  kind : t.kind = u.kind
  text : t.kind ≠ .newline → t.text = u.text
  start : P t.start u.start

/-- Tokens of one kind and text at places that are related by `P`, line breaks included. -/
structure Token.Same (t u : Token) : Prop where
  kind : t.kind = u.kind
  text : t.text = u.text
  start : P t.start u.start

/-- What may stand at the same place of two alike rows: alike tokens, or the end of input where the
other row has a line break. -/
inductive Token.Facing (t u : Token) : Prop
  | alike (h : t.Alike P u)
  | finished (left : t.kind = .endOfInput) (right : u.kind = .newline)
      (start : P t.start u.start)

/-- The gaps before the first tokens of the rows `ts` and `us` agree, where both have one. -/
def SameGap (ts us : List Token) : Prop :=
  ∀ t ∈ ts.head?, ∀ u ∈ us.head?, t.gap = u.gap

/-- Rows of tokens that are alike one by one. The second has `n` further line breaks at its end,
which face the end `e` of the first. -/
inductive Row.Alike (e : Position) : Nat → List Token → List Token → Prop
  | nil : Alike e 0 [] []
  | extra {n : Nat} {u : Token} {us : List Token} (kind : u.kind = .newline)
      (start : P e u.start) (rest : Alike e n [] us) : Alike e (n + 1) [] (u :: us)
  | cons {n : Nat} {t u : Token} {ts us : List Token} (head : t.Alike P u)
      (gap : t.kind ≠ .newline → SameGap ts us) (rest : Alike e n ts us) :
      Alike e n (t :: ts) (u :: us)

/-- Cursors before alike rows, the second with `n` further line breaks. -/
structure Cursor.Alike (n : Nat) (c d : Cursor) : Prop where
  rest : Row.Alike P c.final.start n c.rest d.rest
  final : c.final.Alike P d.final
  isEnd : c.final.kind = .endOfInput

/-! ### Alike readings -/

/-- Outcomes of two readings that started at cursors of which the first is `c` and the second had
`n` further line breaks: related results before alike rows, or failures of one kind. Further line
breaks are used up only after everything else. -/
inductive Reading.Outcome {α β : Type} (R : α → β → Prop) (n : Nat) (c : Cursor) :
    Except Failure (α × Cursor) → Except Failure (β × Cursor) → Prop
  | error {e f : Failure} (h : e.Alike P f) : Outcome R n c (.error e) (.error f)
  | ok {a : α} {b : β} {c' d' : Cursor} {m : Nat} (result : R a b) (moved : c'.rest <:+ c.rest)
      (le : m ≤ n) (used : c'.rest = [] ∨ m = n) (alike : c'.Alike P m d') :
      Outcome R n c (.ok (a, c')) (.ok (b, d'))

/-- Readings `x` and `y` that have alike outcomes on all alike cursors of which the first meets the
condition `pre`. -/
def Reading.AlikeWhen {α β : Type} (pre : Nat → Cursor → Prop) (R : α → β → Prop) (x : Reading α)
    (y : Reading β) : Prop :=
  ∀ n c d, pre n c → c.Alike P n d → Outcome P R n c (x c) (y d)

/-- Readings `x` and `y` that have alike outcomes on all alike cursors, with results that are
related by `R`. -/
def Reading.Alike {α β : Type} (R : α → β → Prop) (x : Reading α) (y : Reading β) : Prop :=
  AlikeWhen P (fun _ _ => True) R x y

end

variable {P : Position → Position → Prop}

/-! ### Rows and cursors -/

namespace Row.Alike

variable {e : Position} {n : Nat} {ts us : List Token}

theorem length_eq (h : Row.Alike P e n ts us) : us.length = ts.length + n := by
  induction h with
  | nil => rfl
  | extra _ _ _ ih => simp [ih]
  | cons _ _ _ ih => simp only [List.length_cons, ih]; omega

theorem eq_nil_of_zero (h : Row.Alike P e 0 [] us) : us = [] :=
  List.eq_nil_of_length_eq_zero (by simpa using h.length_eq)

theorem head {t u : Token} (h : Row.Alike P e n (t :: ts) (u :: us)) : t.Alike P u := by
  cases h with
  | cons head gap rest => exact head

theorem tail {t u : Token} (h : Row.Alike P e n (t :: ts) (u :: us)) : Row.Alike P e n ts us := by
  cases h with
  | cons head gap rest => exact rest

/-- A row that is not at its end faces a token `t`, and what is behind these two is alike again. -/
theorem exists_cons {t : Token} (h : Row.Alike P e n (t :: ts) us) :
    ∃ u us', us = u :: us' ∧ t.Alike P u ∧ (t.kind ≠ .newline → SameGap ts us') ∧
      Row.Alike P e n ts us' := by
  cases h with
  | cons head gap rest => exact ⟨_, _, rfl, head, gap, rest⟩

/-- What is left of alike rows after the tokens that pass the test `f` of their kind. If line breaks
pass it, no further ones are left at the end. -/
theorem dropWhile (f : TokenKind → Bool) (h : Row.Alike P e n ts us) :
    ∃ m, m ≤ n ∧ (ts.dropWhile (f ·.kind) = [] ∨ m = n) ∧
      Row.Alike P e m (ts.dropWhile (f ·.kind)) (us.dropWhile (f ·.kind)) ∧
      (f .newline = true → ts.dropWhile (f ·.kind) = [] → m = 0) := by
  induction h with
  | nil => exact ⟨0, Nat.le_refl _, .inl rfl, .nil, fun _ _ => rfl⟩
  | @extra n u us kind start rest ih =>
    cases hf : f .newline with
    | true =>
      obtain ⟨m, hm, hn, hr, h0⟩ := ih
      refine ⟨m, by omega, .inl rfl, ?_, fun _ => h0 hf⟩
      simpa only [List.dropWhile_cons, kind, hf, if_true] using hr
    | false =>
      refine ⟨n + 1, Nat.le_refl _, .inr rfl, ?_, nofun⟩
      simpa [kind, hf] using Row.Alike.extra kind start rest
  | @cons n t u ts us head gap rest ih =>
    simp only [List.dropWhile_cons, ← head.kind]
    split
    · exact ih
    · exact ⟨n, Nat.le_refl _, .inr rfl, .cons head gap rest, nofun⟩

/-- Alike tokens with their gaps have the same text up to the first that fails a test `f` of its
kind, if line breaks fail it. -/
private theorem map_takeWhile_eq {f : TokenKind → Bool} (hf : f .newline = false)
    (h : Row.Alike P e n ts us) (hgap : SameGap ts us) :
    (ts.takeWhile (f ·.kind)).map (fun t => t.gap ++ t.text) =
      (us.takeWhile (f ·.kind)).map fun u => u.gap ++ u.text := by
  induction h with
  | nil => rfl
  | extra kind start rest ih => simp [kind, hf]
  | @cons n t u ts us head gap rest ih =>
    simp only [List.takeWhile_cons, ← head.kind]
    split
    · next ht =>
      have hk : t.kind ≠ .newline := fun hk => by simp [hk, hf] at ht
      rw [List.map_cons, List.map_cons, ih (gap hk), hgap _ rfl _ rfl, head.text hk]
    · rfl

/-- Alike rows were read from the same text up to the first token that fails the test `f` of its
kind, if line breaks fail it. The gaps within a line are part of that text. -/
theorem source_takeWhile_eq {f : TokenKind → Bool} (hf : f .newline = false)
    (h : Row.Alike P e n ts us) :
    Token.source (ts.takeWhile (f ·.kind)) = Token.source (us.takeWhile (f ·.kind)) := by
  cases h with
  | nil => rfl
  | extra kind start rest => simp [kind, hf]
  | @cons _ t u ts us head gap rest =>
    simp only [List.takeWhile_cons, ← head.kind]
    split
    · next ht =>
      have hk : t.kind ≠ .newline := fun hk => by simp [hk, hf] at ht
      rw [Token.source, Token.source, head.text hk, map_takeWhile_eq hf rest (gap hk)]
    · rfl

end Row.Alike

/-- Tokens at the same place `k` of alike rows face each other, the ends of input included. -/
theorem Row.Alike.facing {a b : Token} {e : Position} {n : Nat} {ts us : List Token}
    (h : Row.Alike P e n ts us) (hab : a.Alike P b) (ha : a.kind = .endOfInput)
    (he : a.start = e) (k : Nat) : (ts[k]?.getD a).Facing P (us[k]?.getD b) := by
  induction h generalizing k with
  | nil => exact .alike hab
  | extra kind start rest ih =>
    cases k with
    | zero => exact .finished ha kind (he ▸ start)
    | succ k => simpa using ih k
  | cons head gap rest ih =>
    cases k with
    | zero => exact .alike head
    | succ k => simpa using ih k

namespace Token

theorem Alike.facing {t u : Token} (h : t.Alike P u) : t.Facing P u := .alike h

theorem Facing.start {t u : Token} (h : t.Facing P u) : P t.start u.start := by
  cases h with
  | alike h => exact h.start
  | finished _ _ start => exact start

/-- Facing tokens are of the same kind, as far as the test `f` does not tell line breaks from the
end. -/
theorem Facing.kind_eq {α : Type} {t u : Token} (h : t.Facing P u) (f : TokenKind → α)
    (hf : f .endOfInput = f .newline) : f t.kind = f u.kind := by
  cases h with
  | alike h => rw [h.kind]
  | finished left right _ => rw [left, right, hf]

/-- A facing token `t` that is no end of input is alike. -/
theorem Facing.alike_of {t u : Token} (h : t.Facing P u) (ht : t.kind ≠ .endOfInput) :
    t.Alike P u := by
  cases h with
  | alike h => exact h
  | finished left _ _ => exact absurd left ht

/-- Alike tokens are the same but for the spelling of a line break, so this one is the `Same`. -/
theorem Alike.same {t u : Token} (h : t.Alike P u) (ht : t.kind ≠ .newline) : t.Same P u :=
  ⟨h.kind, h.text ht, h.start⟩

theorem Alike.isWord_eq {t u : Token} (h : t.Alike P u) (words : List String) :
    t.isWord words = u.isWord words := by
  unfold isWord
  by_cases hk : t.kind = .newline
  · rw [← h.kind, hk]; rfl
  · rw [h.kind, h.text hk]

theorem Facing.isWord_eq {t u : Token} (h : t.Facing P u) (words : List String) :
    t.isWord words = u.isWord words := by
  cases h with
  | alike h => exact h.isWord_eq words
  | finished left right _ => unfold isWord; rw [left, right]; rfl

end Token

namespace Cursor

variable {n : Nat} {c d : Cursor}

/-- Tokens at the same distance `k` ahead face each other. -/
theorem Alike.ahead (h : c.Alike P n d) (k : Nat) : (c.ahead k).Facing P (d.ahead k) :=
  h.rest.facing h.final h.isEnd rfl k

theorem Alike.peek (h : c.Alike P n d) : c.peek.Facing P d.peek := h.ahead 0

/-- Before a token, alike cursors see alike tokens, as neither is at its end. -/
theorem Alike.peek_of_cons (h : c.Alike P n d) (hc : c.rest ≠ []) : c.peek.Alike P d.peek := by
  obtain ⟨past, rest, final⟩ := c
  obtain ⟨past', rest', final'⟩ := d
  cases h.rest with
  | nil => exact absurd rfl hc
  | extra _ _ _ => exact absurd rfl hc
  | cons head _ _ => exact head

/-- If a token ahead is no end of input, something is left of the rest. -/
theorem rest_ne_nil_of_ahead {k : Nat} (h : c.final.kind = .endOfInput)
    (hk : (c.ahead k).kind ≠ .endOfInput) : c.rest ≠ [] := by
  intro hc
  simp [Cursor.ahead, hc, h] at hk

end Cursor

namespace Reading

variable {α β γ δ : Type} {pre : Nat → Cursor → Prop} {S : α → β → Prop} {R : γ → δ → Prop}

/-! ### Putting readings together -/

theorem Alike.when {x : Reading γ} {y : Reading δ} (h : Alike P R x y) :
    AlikeWhen P pre R x y := fun n c d _ hcd => h n c d trivial hcd

/-- An outcome seen from a cursor further back, which has as much or more ahead. -/
theorem Outcome.weaken {R' : γ → δ → Prop} {m n : Nat} {c c' : Cursor}
    {x : Except Failure (γ × Cursor)} {y : Except Failure (δ × Cursor)} (h : Outcome P R m c' x y)
    (hR : ∀ a b, R a b → R' a b) (moved : c'.rest <:+ c.rest) (le : m ≤ n)
    (used : c'.rest = [] ∨ m = n) : Outcome P R' n c x y := by
  cases h with
  | error h => exact .error h
  | ok result moved' le' used' alike =>
    refine .ok (hR _ _ result) (moved'.trans moved) (Nat.le_trans le' le) ?_ alike
    rcases used with hc | rfl
    · rw [hc, List.suffix_nil] at moved'
      exact .inl moved'
    · exact used'

theorem AlikeWhen.mono {pre' : Nat → Cursor → Prop} {R' : γ → δ → Prop} {x : Reading γ}
    {y : Reading δ} (h : AlikeWhen P pre R x y) (hpre : ∀ n c, pre' n c → pre n c)
    (hR : ∀ a b, R a b → R' a b) : AlikeWhen P pre' R' x y := fun n c d hn hcd =>
  (h n c d (hpre n c hn) hcd).weaken hR (List.suffix_refl _) (Nat.le_refl _) (.inr rfl)

theorem AlikeWhen.pure {a : γ} {b : δ} (h : R a b) : AlikeWhen P pre R (pure a) (pure b) :=
  fun _ _ _ _ hcd => .ok h (List.suffix_refl _) (Nat.le_refl _) (.inr rfl) hcd

/-- What follows alike outcomes is alike, and so is the outcome of both. -/
theorem Outcome.bind {n : Nat} {c : Cursor} {x : Except Failure (α × Cursor)}
    {y : Except Failure (β × Cursor)} {f : α → Reading γ} {g : β → Reading δ}
    (h : Outcome P S n c x y)
    (hfg : ∀ a b m c' d', S a b → c'.rest <:+ c.rest → m ≤ n → (c'.rest = [] ∨ m = n) →
      c'.Alike P m d' → Outcome P R m c' (f a c') (g b d')) :
    Outcome P R n c (x.bind fun r => f r.1 r.2) (y.bind fun r => g r.1 r.2) := by
  cases h with
  | error h => exact .error h
  | @ok a b c' d' m result moved le used alike =>
    exact (hfg a b m c' d' result moved le used alike).weaken (fun _ _ h => h) moved le used

theorem AlikeWhen.bind {x : Reading α} {y : Reading β} {f : α → Reading γ} {g : β → Reading δ}
    (hxy : AlikeWhen P pre S x y) (hfg : ∀ a b, S a b → Alike P R (f a) (g b)) :
    AlikeWhen P pre R (x >>= f) (y >>= g) := fun n c d hn hcd =>
  (hxy n c d hn hcd).bind fun a b m c' d' hab _ _ _ hcd' => hfg a b hab m c' d' trivial hcd'

theorem AlikeWhen.map {x : Reading α} {y : Reading β} {f : α → γ} {g : β → δ}
    (hxy : AlikeWhen P pre S x y) (hfg : ∀ a b, S a b → R (f a) (g b)) :
    AlikeWhen P pre R (f <$> x) (g <$> y) := by
  rw [map_eq_pure_bind, map_eq_pure_bind]
  exact hxy.bind fun a b hab => AlikeWhen.pure (hfg a b hab)

theorem AlikeWhen.ite {p : Prop} [Decidable p] {x x' : Reading γ} {y y' : Reading δ}
    (hpos : p → AlikeWhen P pre R x y) (hneg : ¬p → AlikeWhen P pre R x' y') :
    AlikeWhen P pre R (if p then x else x') (if p then y else y') := by
  split
  · next hp => exact hpos hp
  · next hp => exact hneg hp

/-- What is known of every cursor in question, here `Q`, may be used. -/
theorem AlikeWhen.assume {Q : Prop} {x : Reading γ} {y : Reading δ} (hQ : ∀ n c, pre n c → Q)
    (h : Q → AlikeWhen P pre R x y) : AlikeWhen P pre R x y :=
  fun n c d hn hcd => h (hQ n c hn) n c d hn hcd

/-- Looking at related properties `h` and `k` of alike cursors leaves them where they are, so what
is known of them stays known. -/
theorem AlikeWhen.look_bind {h : Cursor → α} {k : Cursor → β} {f : α → Reading γ}
    {g : β → Reading δ} (hS : ∀ n c d, pre n c → c.Alike P n d → S (h c) (k d))
    (hfg : ∀ a b, S a b → AlikeWhen P (fun n c => pre n c ∧ h c = a) R (f a) (g b)) :
    AlikeWhen P pre R (look h >>= f) (look k >>= g) := fun n c d hn hcd =>
  hfg (h c) (k d) (hS n c d hn hcd) n c d ⟨hn, rfl⟩ hcd

/-! ### Failing -/

theorem alike_failAt {cause cause' : ReadError.Cause} {p q : Option Position}
    (hkind : cause.kind = cause'.kind) (hpq : Option.Rel P p q) :
    AlikeWhen P pre R (failAt cause p) (failAt cause' q) :=
  fun _ _ _ _ _ => .error (.malformed hkind hpq)

theorem alike_unexpected {expected : String} {t u : Token} (h : P t.start u.start) :
    AlikeWhen P pre R (unexpected expected t) (unexpected expected u) :=
  alike_failAt rfl (.some h)

theorem alike_fail {expected : String} : AlikeWhen P pre R (fail expected) (fail expected) :=
  AlikeWhen.look_bind (fun _ _ _ _ hcd => hcd.peek) fun _ _ htu => alike_unexpected htu.start

/-! ### Results without a cursor -/

/-- Results of the same kind: values related by `R`, or failures of one kind. -/
inductive Agree (P : Position → Position → Prop) (R : α → β → Prop) :
    Except Failure α → Except Failure β → Prop
  | error {e f : Failure} (h : e.Alike P f) : Agree P R (.error e) (.error f)
  | ok {a : α} {b : β} (h : R a b) : Agree P R (.ok a) (.ok b)

theorem Agree.bind {S : α → β → Prop} {R : γ → δ → Prop} {x : Except Failure α}
    {y : Except Failure β} {f : α → Except Failure γ} {k : β → Except Failure δ}
    (hxy : Agree P S x y) (hfk : ∀ a b, S a b → Agree P R (f a) (k b)) :
    Agree P R (x >>= f) (y >>= k) := by
  cases hxy with
  | error h => exact .error h
  | ok h => exact hfk _ _ h

theorem agree_malformed {R : α → β → Prop} (cause : ReadError.Cause)
    {p q : Option Position} (hpq : Option.Rel P p q) :
    Agree P R (.error (.malformed ⟨cause, p⟩)) (.error (.malformed ⟨cause, q⟩)) :=
  .error (.malformed rfl hpq)

theorem Agree.map {S : α → β → Prop} {R : γ → δ → Prop} {x : Except Failure α}
    {y : Except Failure β} {f : α → γ} {k : β → δ}
    (hxy : Agree P S x y) (hfk : ∀ a b, S a b → R (f a) (k b)) :
    Agree P R (x.map f) (y.map k) := by
  cases hxy with
  | error h => exact .error h
  | ok h => exact .ok (hfk _ _ h)

/-- Alike outcomes have results of the same kind, wherever their cursors are. -/
theorem Outcome.agree {n : Nat} {c : Cursor} {x : Except Failure (γ × Cursor)}
    {y : Except Failure (δ × Cursor)} (h : Outcome P R n c x y) :
    Agree P R (x.map Prod.fst) (y.map Prod.fst) := by
  cases h with
  | error h => exact .error h
  | ok result _ _ _ _ => exact .ok result

theorem alike_lift {x : Except Failure γ} {y : Except Failure δ} (h : Agree P R x y) :
    AlikeWhen P pre R (StateT.lift x : Reading γ) (StateT.lift y : Reading δ) := by
  intro n c d _ hcd
  cases h with
  | error h => exact Outcome.error h
  | ok h => exact .ok h (List.suffix_refl _) (Nat.le_refl _) (.inr rfl) hcd

/-! ### Tokens -/

theorem AlikeWhen.peek_bind {f : Token → Reading γ} {g : Token → Reading δ}
    (hfg : ∀ t u, t.Facing P u → AlikeWhen P (fun n c => pre n c ∧ c.peek = t) R (f t) (g u)) :
    AlikeWhen P pre R (peek >>= f) (peek >>= g) :=
  AlikeWhen.look_bind (fun _ _ _ _ hcd => hcd.peek) hfg

theorem AlikeWhen.ahead_bind {k : Nat} {f : Token → Reading γ} {g : Token → Reading δ}
    (hfg : ∀ t u, t.Facing P u → AlikeWhen P (fun n c => pre n c ∧ c.ahead k = t) R (f t) (g u)) :
    AlikeWhen P pre R (ahead k >>= f) (ahead k >>= g) :=
  AlikeWhen.look_bind (fun _ _ _ _ hcd => hcd.ahead k) hfg

/-- Before a token, looking at it gives alike tokens. -/
theorem AlikeWhen.peek_bind_of_cons {f : Token → Reading γ} {g : Token → Reading δ}
    (hpre : ∀ n c, pre n c → c.rest ≠ [])
    (hfg : ∀ t u, t.Alike P u → AlikeWhen P (fun n c => pre n c ∧ c.peek = t) R (f t) (g u)) :
    AlikeWhen P pre R (peek >>= f) (peek >>= g) :=
  AlikeWhen.look_bind (fun n c _ hn hcd => hcd.peek_of_cons (hpre n c hn)) hfg

/-- Where it is known that neither a line break nor the end of input stands next, looking at the
next token gives the `Same` one. -/
theorem AlikeWhen.peek_bind_same {f : Token → Reading γ} {g : Token → Reading δ}
    (hpre : ∀ n c, pre n c → c.peek.kind.Inner)
    (hfg : ∀ t u, t.Same P u → AlikeWhen P (fun n c => pre n c ∧ c.peek = t) R (f t) (g u)) :
    AlikeWhen P pre R (peek >>= f) (peek >>= g) :=
  AlikeWhen.look_bind (fun n c _ hn hcd =>
    (hcd.peek.alike_of (hpre n c hn).2).same (hpre n c hn).1) hfg

/-- Asking for `kinds` tells alike cursors apart only if line breaks are among them and the end of
input is not, or the other way round. -/
theorem AlikeWhen.check_bind {kinds : List TokenKind} {f : Bool → Reading γ} {g : Bool → Reading δ}
    (hkinds : kinds.contains .endOfInput = kinds.contains .newline)
    (hfg : ∀ b, AlikeWhen P (fun n c => pre n c ∧ c.check kinds = b) R (f b) (g b)) :
    AlikeWhen P pre R (check kinds >>= f) (check kinds >>= g) := by
  refine AlikeWhen.look_bind (fun _ c d _ hcd => ?_) fun a b (hab : a = b) => hab ▸ hfg a
  exact hcd.peek.kind_eq kinds.contains hkinds

/-- Before a token, asking for `kinds` does not tell alike cursors apart. -/
theorem AlikeWhen.check_bind_of_cons {kinds : List TokenKind} {f : Bool → Reading γ}
    {g : Bool → Reading δ} (hpre : ∀ n c, pre n c → c.rest ≠ [])
    (hfg : ∀ b, AlikeWhen P (fun n c => pre n c ∧ c.check kinds = b) R (f b) (g b)) :
    AlikeWhen P pre R (check kinds >>= f) (check kinds >>= g) := by
  refine AlikeWhen.look_bind (fun n c d hn hcd => ?_) fun a b (hab : a = b) => hab ▸ hfg a
  rw [Cursor.check, Cursor.check, (hcd.peek_of_cons (hpre n c hn)).kind]

theorem AlikeWhen.checkWord_bind {words : List String} {f : Bool → Reading γ}
    {g : Bool → Reading δ}
    (hfg : ∀ b, AlikeWhen P (fun n c => pre n c ∧ c.peek.isWord words = b) R (f b) (g b)) :
    AlikeWhen P pre R (checkWord words >>= f) (checkWord words >>= g) := by
  refine AlikeWhen.look_bind (fun _ c d _ hcd => ?_) fun a b (hab : a = b) => hab ▸ hfg a
  exact hcd.peek.isWord_eq words

/-- Taking a token off alike cursors gives facing tokens, and leaves alike cursors. -/
theorem alike_advance : AlikeWhen P pre (Token.Facing P) advance advance := by
  rintro n ⟨past, rest, final⟩ ⟨past', rest', final'⟩ - ⟨hrest, hfinal, hend⟩
  cases hrest with
  | nil =>
    exact .ok (Token.Facing.alike hfinal) (List.suffix_refl _) (Nat.le_refl _) (.inr rfl)
      ⟨.nil, hfinal, hend⟩
  | extra kind start rest =>
    exact .ok (Token.Facing.finished hend kind start) (List.suffix_refl _) (Nat.le_succ _)
      (.inl rfl) ⟨rest, hfinal, hend⟩
  | cons head gap rest =>
    exact .ok (Token.Facing.alike head) (List.suffix_cons ..) (Nat.le_refl _) (.inr rfl)
      ⟨rest, hfinal, hend⟩

/-- Where a token is left, taking it gives alike tokens, and what stands next is what was behind
it. -/
theorem AlikeWhen.advance_bind {f : Token → Reading γ} {g : Token → Reading δ}
    (hpre : ∀ n c, pre n c → c.final.kind = .endOfInput → c.rest ≠ [])
    (hfg : ∀ t u, t.Alike P u → AlikeWhen P (fun n c => ∃ c₀ : Cursor, pre n c₀ ∧
      c₀.rest = t :: c.rest ∧ c₀.final = c.final) R (f t) (g u)) :
    AlikeWhen P pre R (advance >>= f) (advance >>= g) := by
  rintro n ⟨past, rest, final⟩ ⟨past', rest', final'⟩ hn ⟨hrest, hfinal, hend⟩
  have hne := hpre _ _ hn hend
  cases hrest with
  | nil => exact absurd rfl hne
  | extra kind start rest => exact absurd rfl hne
  | @cons _ t u ts us head gap rest =>
    have h := hfg t u head n ⟨t :: past, ts, final⟩ ⟨u :: past', us, final'⟩
      ⟨_, hn, rfl, rfl⟩ ⟨rest, hfinal, hend⟩
    exact h.weaken (fun _ _ h => h) (List.suffix_cons ..) (Nat.le_refl _) (.inr rfl)

/-- Where the `kind` of the token after the next one is known, it is known of the next token after
taking one. -/
theorem AlikeWhen.advance_bind_of_ahead {kind : TokenKind} {f : Token → Reading γ}
    {g : Token → Reading δ} (hkind : kind.Inner)
    (hpre : ∀ n c, pre n c → (c.ahead 1).kind = kind)
    (hfg : ∀ t u, t.Alike P u → AlikeWhen P (fun _ c => c.peek.kind = kind) R (f t) (g u)) :
    AlikeWhen P pre R (advance >>= f) (advance >>= g) := by
  refine AlikeWhen.advance_bind (fun n c hn hend => ?_) fun t u htu => ?_
  · exact Cursor.rest_ne_nil_of_ahead hend (hpre n c hn ▸ hkind.2)
  · refine (hfg t u htu).mono ?_ fun _ _ h => h
    rintro n c ⟨c₀, hn, hrest, hfinal⟩
    rw [← hpre n c₀ hn, Cursor.peek, Cursor.ahead, Cursor.ahead, hrest, hfinal]
    rfl

/-- Where it is known that neither a line break nor the end of input stands next, taking a token
gives the same one. -/
theorem alike_advance_same
    (hpre : ∀ n c, pre n c → c.peek.kind.Inner) :
    AlikeWhen P pre (Token.Same P) advance advance := by
  rintro n ⟨past, rest, final⟩ ⟨past', rest', final'⟩ hn ⟨hrest, hfinal, hend⟩
  have hkind := hpre _ _ hn
  cases hrest with
  | nil => exact absurd hend hkind.2
  | extra kind start rest => exact absurd hend hkind.2
  | cons head gap rest =>
    exact .ok (head.same hkind.1) (List.suffix_cons ..) (Nat.le_refl _) (.inr rfl)
      ⟨rest, hfinal, hend⟩

/-- If one of some `kinds` stands next, all of them found inside a line, then the next token is
inside one. -/
theorem inner_of_check {kinds : List TokenKind} (h : ∀ k ∈ kinds, k.Inner) {c : Cursor}
    (hc : c.check kinds = true) : c.peek.kind.Inner :=
  h _ (by simpa [Cursor.check] using hc)

theorem contains_eq_of_inner {kinds : List TokenKind} (h : ∀ k ∈ kinds, k.Inner) :
    kinds.contains .endOfInput = kinds.contains .newline := by
  have hnewline : TokenKind.newline ∉ kinds := fun hk => (h _ hk).1 rfl
  have hend : TokenKind.endOfInput ∉ kinds := fun hk => (h _ hk).2 rfl
  simp [hnewline, hend]

theorem kind_of_isWord {t : Token} {words : List String} (h : t.isWord words = true) :
    t.kind = .identifier := by
  simp only [Token.isWord, Bool.and_eq_true, beq_iff_eq] at h
  exact h.1

theorem inner_of_isWord {words : List String} {c : Cursor} (hc : c.peek.isWord words = true) :
    c.peek.kind.Inner := by
  rw [kind_of_isWord hc]
  decide

theorem alike_accept {kind : TokenKind} (h : kind.Inner) :
    AlikeWhen P pre (Option.Rel (Token.Same P)) (accept kind) (accept kind) := by
  have h : ∀ k ∈ [kind], k.Inner := by simpa using h
  refine AlikeWhen.check_bind (contains_eq_of_inner h) fun b =>
    AlikeWhen.ite (fun hb => ?_) fun _ => AlikeWhen.pure .none
  refine AlikeWhen.map (alike_advance_same fun n c hc => ?_) fun t u htu => .some htu
  exact inner_of_check h (hc.2.trans hb)

/-- Before a token, accepting a `kind` takes alike tokens or leaves what is known of it. -/
theorem AlikeWhen.accept_bind_of_cons {kind : TokenKind} {f : Option Token → Reading γ}
    {g : Option Token → Reading δ} (hpre : ∀ n c, pre n c → c.rest ≠ [])
    (hsome : ∀ t u, t.Alike P u → t.kind = kind → Alike P R (f (some t)) (g (some u)))
    (hnone : AlikeWhen P (fun n c => pre n c ∧ c.peek.kind ≠ kind) R (f none) (g none)) :
    AlikeWhen P pre R (accept kind >>= f) (accept kind >>= g) := by
  rintro n ⟨past, rest, final⟩ ⟨past', rest', final'⟩ hn ⟨hrest, hfinal, hend⟩
  have hne := hpre _ _ hn
  cases hrest with
  | nil => exact absurd rfl hne
  | extra kind start rest => exact absurd rfl hne
  | @cons _ t u ts us head gap rest =>
    rw [bind_apply, bind_apply, accept_cons, accept_cons, ← head.kind]
    by_cases ht : t.kind = kind
    · rw [if_pos ht, if_pos ht]
      exact (hsome t u head ht n ⟨t :: past, ts, final⟩ ⟨u :: past', us, final'⟩ trivial
        ⟨rest, hfinal, hend⟩).weaken (fun _ _ h => h) (List.suffix_cons ..) (Nat.le_refl _)
          (.inr rfl)
    · rw [if_neg ht, if_neg ht]
      exact hnone n _ _ ⟨hn, ht⟩ ⟨.cons head gap rest, hfinal, hend⟩

theorem alike_acceptWord {words : List String} :
    AlikeWhen P pre (Option.Rel (Token.Same P)) (acceptWord words) (acceptWord words) := by
  refine AlikeWhen.checkWord_bind fun b => AlikeWhen.ite (fun hb => ?_) fun _ =>
    AlikeWhen.pure .none
  refine AlikeWhen.map (alike_advance_same fun n c hc => ?_) fun t u htu => .some htu
  exact inner_of_isWord (hc.2.trans hb)

theorem alike_expectAny {kinds : List TokenKind} {expected : String} (h : ∀ k ∈ kinds, k.Inner) :
    AlikeWhen P pre (Token.Same P) (expectAny kinds expected) (expectAny kinds expected) := by
  refine AlikeWhen.check_bind (contains_eq_of_inner h) fun b =>
    AlikeWhen.ite (fun hb => ?_) fun _ =>
    alike_fail
  exact alike_advance_same fun n c hc => inner_of_check h (hc.2.trans hb)

theorem alike_expect {kind : TokenKind} {expected : String} (h : kind.Inner) :
    AlikeWhen P pre (Token.Same P) (expect kind expected) (expect kind expected) :=
  alike_expectAny (by simpa using h)

theorem alike_expectWord {word : String} :
    AlikeWhen P pre (Token.Same P) (expectWord word) (expectWord word) := by
  refine AlikeWhen.checkWord_bind fun b => AlikeWhen.ite (fun hb => ?_) fun _ => alike_fail
  exact alike_advance_same fun n c hc => inner_of_isWord (hc.2.trans hb)

/-! ### Labels -/

theorem alike_content (text : String) : AlikeWhen P pre Eq (content text) (content text) := by
  unfold content
  split
  · exact AlikeWhen.pure rfl
  · exact fun _ _ _ _ _ => .error .oversizedNumber

theorem alike_contentOf {t u : Option Token} (h : Option.Rel (Token.Same P) t u) :
    AlikeWhen P pre Eq (contentOf t) (contentOf u) := by
  cases h with
  | none => exact AlikeWhen.pure rfl
  | some h =>
    refine AlikeWhen.map (S := Eq) ?_ fun a b hab => congrArg some hab
    rw [h.text]
    exact alike_content _

theorem alike_behindColon {read read' : Option Token → Reading (Option γ)}
    (h : ∀ t u, Option.Rel (Token.Same P) t u → Alike P Eq (read t) (read' u)) :
    AlikeWhen P pre Eq (behindColon read) (behindColon read') := by
  refine (alike_accept (by decide)).bind fun _ _ hcolon => ?_
  cases hcolon with
  | none => exact .pure rfl
  | some _ => exact (alike_accept (by decide)).bind fun _ _ => h _ _

/-! ### Statements -/

theorem alike_skipNewlines_bind {f : Unit → Reading γ} {g : Unit → Reading δ}
    (hfg : AlikeWhen P (fun n c => c.rest = [] → n = 0) R (f ()) (g ())) :
    AlikeWhen P pre R (skipNewlines >>= f) (skipNewlines >>= g) := by
  intro n c d _ hcd
  obtain ⟨m, le, used, rest, zero⟩ :=
    hcd.rest.dropWhile fun k => k == .newline || k == .semicolon
  exact (hfg m c.skipNewlines d.skipNewlines (zero rfl) ⟨rest, hcd.final, hcd.isEnd⟩).weaken
    (fun _ _ h => h) (List.dropWhile_suffix _) le used

/-- Where further line breaks are left only after some other token, alike cursors end together, so
both go on or neither does. -/
theorem AlikeWhen.atEnd_bind {f : Bool → Reading γ} {g : Bool → Reading δ}
    (hpre : ∀ n c, pre n c → c.rest = [] → n = 0)
    (hfg : ∀ b, AlikeWhen P (fun n c => pre n c ∧ c.atEnd = b) R (f b) (g b)) :
    AlikeWhen P pre R (look Cursor.atEnd >>= f) (look Cursor.atEnd >>= g) := by
  refine AlikeWhen.look_bind (fun n c d hn hcd => ?_) fun a b (hab : a = b) => hab ▸ hfg a
  have hlen := hcd.rest.length_eq
  have hzero := hpre n c hn
  unfold Cursor.atEnd
  cases hc : c.rest with
  | nil => rw [hc, hzero hc] at hlen; rw [List.eq_nil_of_length_eq_zero hlen]
  | cons t ts =>
    rw [hc, List.length_cons] at hlen
    have hd : d.rest ≠ [] := fun hd => by rw [hd, List.length_nil] at hlen; omega
    simp [List.isEmpty_eq_false_iff.2 hd]

theorem alike_endStatement : AlikeWhen P pre (fun _ _ => True) endStatement endStatement := by
  rintro n ⟨past, rest, final⟩ ⟨past', rest', final'⟩ - ⟨hrest, hfinal, hend⟩
  cases hrest with
  | nil =>
    have hend' : final'.kind = .endOfInput := hfinal.kind ▸ hend
    rw [endStatement_nil hend, endStatement_nil hend']
    exact .ok trivial (List.suffix_refl _) (Nat.le_refl _) (.inr rfl) ⟨.nil, hfinal, hend⟩
  | extra kind start rest =>
    rw [endStatement_nil hend, endStatement_cons, if_pos (.inl kind)]
    exact .ok trivial (List.suffix_refl _) (Nat.le_succ _) (.inl rfl) ⟨rest, hfinal, hend⟩
  | cons head gap rest =>
    rw [endStatement_cons, endStatement_cons, ← head.kind]
    split
    · exact .ok trivial (List.suffix_cons ..) (Nat.le_refl _) (.inr rfl) ⟨rest, hfinal, hend⟩
    · exact .error (.malformed rfl (.some head.start))

theorem alike_rawUntil (stops : List TokenKind) :
    AlikeWhen P pre Eq (rawUntil stops) (rawUntil stops) := by
  intro n c d _ hcd
  let f : TokenKind → Bool := fun k => !k.endsStatement && !stops.contains k
  obtain ⟨m, le, used, rest, -⟩ := hcd.rest.dropWhile f
  refine .ok ?_ (List.dropWhile_suffix _) le used ⟨rest, hcd.final, hcd.isEnd⟩
  have hsource := hcd.rest.source_takeWhile_eq (f := f) rfl
  rw [hsource]

theorem alike_restOfStatement : AlikeWhen P pre Eq restOfStatement restOfStatement :=
  alike_rawUntil []

theorem alike_takeDirection {expected : String}
    (hpre : ∀ n c, pre n c → c.peek.kind.Inner) :
    AlikeWhen P pre Eq (takeDirection expected) (takeDirection expected) := by
  refine (alike_advance_same hpre).bind fun t u htu => ?_
  rw [htu.text]
  split
  · exact AlikeWhen.pure rfl
  · exact alike_unexpected htu.start

/-! ### Repeating -/

/-- Loops with alike rounds are alike, if they are where the first has come to its end: there the
second may have line breaks left. -/
theorem alike_loop {σ τ : Type} {T : σ → τ → Prop} {round : σ → Reading (σ ⊕ γ)}
    {round' : τ → Reading (τ ⊕ δ)}
    (hround : ∀ s t, T s t →
      AlikeWhen P (fun _ c => c.rest ≠ []) (Sum.LiftRel T R) (round s) (round' t))
    (hend : ∀ s t n c d, T s t → c.rest = [] → c.Alike P n d →
      Outcome P R n c (loop round s c) (loop round' t d))
    {s : σ} {t : τ} (hst : T s t) : Alike P R (loop round s) (loop round' t) := by
  -- The induction is on the number of tokens that the first cursor has left. Both rows get shorter
  -- with a round, or neither does, and then both loops stall.
  intro n c d _ hcd
  induction hlen : c.rest.length using Nat.strongRecOn generalizing s t n c d with
  | _ len ih =>
    by_cases hc : c.rest = []
    · exact hend s t n c d hst hc hcd
    · have h := hround s t hst n c d hc hcd
      have hd := hcd.rest.length_eq
      rw [loop_apply, loop_apply]
      generalize round s c = x at h ⊢
      generalize round' t d = y at h ⊢
      cases h with
      | error h => exact .error h
      | @ok a b c' d' m result moved le used alike =>
        cases result with
        | inr result => exact .ok result moved le used alike
        | @inl s' t' hst' =>
          have hd' := alike.rest.length_eq
          have hpos := List.length_pos_iff.2 hc
          have hmoved := moved.length_le
          by_cases hlt : c'.rest.length < c.rest.length
          · have hlt' : d'.rest.length < d.rest.length := by omega
            simp only [hlt, hlt', if_true]
            exact (ih _ (hlen ▸ hlt) hst' m c' d' alike rfl).weaken (fun _ _ h => h)
              moved le used
          · have hlt' : ¬ d'.rest.length < d.rest.length := by
              rcases used with hc' | rfl
              · rw [hc', List.length_nil] at hlt; omega
              · omega
            simp only [hlt, hlt', if_false]
            exact .error .stalled

/-- Loops with alike rounds are alike if no round goes on at the end, so a round that is there is
the last. -/
theorem alike_loop_of_stop {σ τ : Type} {T : σ → τ → Prop} {round : σ → Reading (σ ⊕ γ)}
    {round' : τ → Reading (τ ⊕ δ)}
    (hround : ∀ s t, T s t → Alike P (Sum.LiftRel T R) (round s) (round' t))
    (hstop : ∀ s c s' c', c.rest = [] → c.final.kind = .endOfInput →
      round s c ≠ .ok (.inl s', c'))
    {s : σ} {t : τ} (hst : T s t) : AlikeWhen P pre R (loop round s) (loop round' t) := by
  refine Alike.when (alike_loop (fun s t hst => (hround s t hst).when) ?_ hst)
  intro s t n c d hst hc hcd
  have h := hround s t hst n c d trivial hcd
  have hno := fun s' c' => hstop s c s' c' hc hcd.isEnd
  rw [loop_apply, loop_apply]
  generalize round s c = x at h hno ⊢
  generalize round' t d = y at h ⊢
  cases h with
  | error h => exact .error h
  | ok result moved le used alike =>
    cases result with
    | inl result => exact absurd rfl (hno _ _)
    | inr result => exact .ok result moved le used alike

/-- Further line breaks at the end are read as empty statements, which change nothing. -/
theorem untilEnd_newlines {τ : Type} {statement : τ → Reading τ} {e : Position}
    (hnewline : ∀ t past u us final, u.kind = .newline →
      statement t ⟨past, u :: us, final⟩ = .ok (t, ⟨u :: past, us, final⟩))
    {n : Nat} {us : List Token} (h : Row.Alike P e n [] us) (t : τ) (past : List Token)
    (final : Token) :
    ∃ past', untilEnd statement t ⟨past, us, final⟩ = .ok (t, ⟨past', [], final⟩) := by
  induction n generalizing us past with
  | zero => rw [h.eq_nil_of_zero]; exact ⟨past, untilEnd_nil ..⟩
  | succ n ih =>
    cases h with
    | @extra _ u us kind start rest =>
      obtain ⟨past', h'⟩ := ih rest (u :: past)
      exact ⟨past', (untilEnd_cons (hnewline t past u us final kind) (by simp)).trans h'⟩

/-- Readings of all statements are alike if those of one statement are, and a line break at the
start of a statement is all of it. -/
theorem alike_untilEnd {σ τ : Type} {T : σ → τ → Prop} {statement : σ → Reading σ}
    {statement' : τ → Reading τ}
    (hstatement : ∀ s t, T s t →
      AlikeWhen P (fun _ c => c.rest ≠ []) T (statement s) (statement' t))
    (hnewline : ∀ t past u us final, u.kind = .newline →
      statement' t ⟨past, u :: us, final⟩ = .ok (t, ⟨u :: past, us, final⟩))
    {s : σ} {t : τ} (hst : T s t) :
    AlikeWhen P pre T (untilEnd statement s) (untilEnd statement' t) := by
  refine Alike.when (alike_loop (fun s t hst => ?_) ?_ hst)
  · rintro n ⟨past, rest, final⟩ ⟨past', rest', final'⟩ hc hcd
    obtain ⟨c, cs, rfl⟩ := List.exists_cons_of_ne_nil hc
    obtain ⟨d, ds, hd, -⟩ := hcd.rest.exists_cons
    obtain rfl : rest' = d :: ds := hd
    exact ((hstatement s t hst).map fun _ _ h => .inl h) n _ _ hc hcd
  · rintro s t n ⟨past, rest, final⟩ ⟨past', rest', final'⟩ hst hc hcd
    obtain rfl : rest = [] := hc
    obtain ⟨past'', h⟩ := untilEnd_newlines hnewline hcd.rest t past' final'
    have h₀ := @untilEnd_nil past final _ statement s
    rw [untilEnd] at h h₀
    rw [h, h₀]
    exact .ok hst (List.suffix_refl _) (Nat.zero_le _) (.inl rfl) ⟨.nil, hcd.final, hcd.isEnd⟩

/-- Readings of bodies are alike if those of a line are, wherever the bodies are opened. At the end
of input no round goes on, as each fails there. -/
theorem alike_body {σ τ : Type} {T : σ → τ → Prop} {line : σ → Reading σ} {line' : τ → Reading τ}
    {block : String} {openedAt openedAt' : Option Position}
    (hline : ∀ s t, T s t → Alike P T (line s) (line' t)) {s : σ} {t : τ} (hst : T s t) :
    AlikeWhen P pre T (loop (bodyRound line (.unterminated block openedAt)) s)
      (loop (bodyRound line' (.unterminated block openedAt')) t) := by
  refine alike_loop_of_stop (fun s t hst => ?_) (fun s c s' c' hc hend => ?_) hst
  · refine alike_skipNewlines_bind (AlikeWhen.atEnd_bind (fun _ _ h => h) fun b => ?_)
    refine AlikeWhen.ite (fun _ => ?_) fun _ => ?_
    · exact AlikeWhen.peek_bind fun x y hxy => alike_failAt rfl (.some hxy.start)
    · refine (alike_accept (by decide)).bind fun x y hxy => ?_
      cases hxy with
      | none => exact (hline s t hst).map fun _ _ h => .inl h
      | some _ => exact alike_endStatement.bind fun _ _ _ => .pure (.inr hst)
  · obtain ⟨past, rest, final⟩ := c
    obtain rfl : rest = [] := hc
    simp [bodyRound, bind_apply, Except.bind, look_apply, skipNewlines_nil, Cursor.atEnd,
      peek_apply, failAt]

end Reading
end DiagramText
