import DiagramText.Proofs.Reading.Step
import DiagramText.Proofs.Result

/-!
# Grammars of readings

A grammar says which tokens ahead can be read as what, and which tokens are then left. A reading
that succeeds exactly as its grammar says is known by the grammar alone, and the grammar of a
reading is put together from those of its actions.

* `Reading.Grammar`: tokens, what is read of them, and the tokens that are left.
* `Reading.Parses`: a reading succeeds exactly as a grammar says.
* `Reading.Parses.bind`, `Reading.Parses.ite` and `Reading.Parses.loop` put grammars together.
-/

namespace DiagramText.Reading

variable {α β σ : Type} {final : Token}

/-- Tokens ahead, what is read of them, and the tokens that are left, in this order. -/
abbrev Grammar (α : Type) := List Token → α → List Token → Prop

/-- The reading `x` before the end of input `final` succeeds exactly as the grammar `G` says. -/
structure Parses (final : Token) (x : Reading α) (G : Grammar α) : Prop where
  sound : ∀ past ts a c, x ⟨past, ts, final⟩ = .ok (a, c) → c.final = final ∧ G ts a c.rest
  complete : ∀ past ts a us, G ts a us → ∃ past', x ⟨past, ts, final⟩ = .ok (a, ⟨past', us, final⟩)

/-- The token that is next, be it the end of input `final`. -/
def next (final : Token) (ts : List Token) : Token := ts.head?.getD final

@[simp]
theorem next_nil : next final [] = final := rfl

@[simp]
theorem next_cons (t : Token) (ts : List Token) : next final (t :: ts) = t := rfl

namespace Parses

variable {x : Reading α} {G H : Grammar α} {K : α → Grammar β}

theorem congr (h : Parses final x G) (hG : ∀ ts a us, G ts a us ↔ H ts a us) :
    Parses final x H := by
  constructor
  · intro past ts a c hx
    obtain ⟨hfinal, hg⟩ := h.sound past ts a c hx
    exact ⟨hfinal, (hG _ _ _).1 hg⟩
  · intro past ts a us hh
    exact h.complete past ts a us ((hG _ _ _).2 hh)

/-- What can be read of tokens is one thing, with the same tokens left, since a reading is a
function. -/
theorem unique (h : Parses final x G) {ts us vs : List Token} {a b : α} (ha : G ts a us)
    (hb : G ts b vs) : a = b ∧ us = vs := by
  obtain ⟨past₁, h₁⟩ := h.complete [] ts a us ha
  obtain ⟨past₂, h₂⟩ := h.complete [] ts b vs hb
  rw [h₁] at h₂
  cases h₂
  exact ⟨rfl, rfl⟩

/-! ### Putting readings together -/

theorem pure (a : α) : Parses final (pure a) fun ts b us => b = a ∧ us = ts := by
  constructor
  · intro past ts b c hx
    cases hx
    exact ⟨rfl, rfl, rfl⟩
  · rintro past ts _ _ ⟨rfl, rfl⟩
    exact ⟨past, rfl⟩

theorem bind {f : α → Reading β} (hx : Parses final x G) (hf : ∀ a, Parses final (f a) (K a)) :
    Parses final (x >>= f) fun ts b us => ∃ a ms, G ts a ms ∧ K a ms b us := by
  constructor
  · intro past ts b c h
    rw [bind_apply, Except.bind_eq_ok_iff] at h
    obtain ⟨⟨a, past₁, ms, final₁⟩, ha, hb⟩ := h
    obtain ⟨hfinal₁, hg⟩ := hx.sound past ts a _ ha
    obtain rfl : final₁ = final := hfinal₁
    obtain ⟨hfinal, hk⟩ := (hf a).sound past₁ ms b c hb
    exact ⟨hfinal, a, ms, hg, hk⟩
  · rintro past ts b us ⟨a, ms, hg, hk⟩
    obtain ⟨past₁, ha⟩ := hx.complete past ts a ms hg
    obtain ⟨past₂, hb⟩ := (hf a).complete past₁ ms b us hk
    refine ⟨past₂, ?_⟩
    rw [bind_apply, ha]
    exact hb

theorem ite {p : Prop} [Decidable p] {y : Reading α} (hx : Parses final x G)
    (hy : Parses final y H) :
    Parses final (if p then x else y) fun ts a us => if p then G ts a us else H ts a us := by
  split
  · exact hx
  · exact hy

theorem failAt (cause : ReadError.Cause) (position : Option Position) :
    Parses final (Reading.failAt cause position : Reading α) fun _ _ _ => False := by
  constructor
  · intro past ts a c hx
    cases hx
  · exact nofun

theorem fail (expected : String) :
    Parses final (Reading.fail expected : Reading α) fun _ _ _ => False := by
  constructor
  · intro past ts a c hx
    rw [fail_apply] at hx
    cases hx
  · exact nofun

/-! ### Looking and taking -/

/-- What is seen at a cursor is told from the tokens ahead and the end of input, by `g`, and no
token is taken. -/
theorem look {f : Cursor → α} {g : List Token → α}
    (h : ∀ past ts, f ⟨past, ts, final⟩ = g ts) :
    Parses final (Reading.look f) fun ts a us => a = g ts ∧ us = ts := by
  constructor
  · intro past ts a c hx
    cases hx
    exact ⟨rfl, h past ts, rfl⟩
  · rintro past ts _ _ ⟨rfl, rfl⟩
    exact ⟨past, by rw [look_apply, h]⟩

theorem peek : Parses final Reading.peek fun ts t us => t = next final ts ∧ us = ts :=
  look fun past ts => by cases ts <;> rfl

theorem ahead_one :
    Parses final (ahead 1) fun ts t us => t = next final ts.tail ∧ us = ts :=
  look fun past ts => by rcases ts with _ | ⟨t, _ | ⟨u, us⟩⟩ <;> rfl

theorem check (kinds : List TokenKind) : Parses final (Reading.check kinds)
    fun ts b us => b = kinds.contains (next final ts).kind ∧ us = ts :=
  look fun past ts => by cases ts <;> rfl

theorem checkWord (words : List String) : Parses final (Reading.checkWord words)
    fun ts b us => b = (next final ts).isWord words ∧ us = ts :=
  look fun past ts => by cases ts <;> rfl

theorem advance :
    Parses final Reading.advance fun ts t us => t = next final ts ∧ us = ts.tail := by
  constructor
  · intro past ts t c hx
    cases ts <;> cases hx <;> exact ⟨rfl, rfl, rfl⟩
  · intro past ts t us h
    obtain ⟨rfl, rfl⟩ := h
    cases ts with
    | nil => exact ⟨past, rfl⟩
    | cons t ts => exact ⟨t :: past, rfl⟩

theorem map {f : α → β} (h : Parses final x G) :
    Parses final (f <$> x) fun ts b us => ∃ a, b = f a ∧ G ts a us := by
  have hbind : f <$> x = x >>= fun a => Pure.pure (f a) := rfl
  rw [hbind]
  refine (h.bind fun a => pure (f a)).congr fun ts b us => ?_
  constructor
  · rintro ⟨a, _, hg, rfl, rfl⟩
    exact ⟨a, rfl, hg⟩
  · rintro ⟨a, rfl, hg⟩
    exact ⟨a, us, hg, rfl, rfl⟩

/-! ### Tokens that pass a test -/

/-- What is seen ahead decides what is read: the grammar goes on as `K` says for it. -/
theorem look_bind {test : Reading β} {g : List Token → β} {f : β → Reading α} {K : β → Grammar α}
    (htest : Parses final test fun ts b us => b = g ts ∧ us = ts)
    (hf : ∀ b, Parses final (f b) (K b)) :
    Parses final (test >>= f) fun ts a us => K (g ts) ts a us := by
  refine (htest.bind hf).congr fun ts a us => ?_
  constructor
  · rintro ⟨_, _, ⟨rfl, rfl⟩, h⟩
    exact h
  · intro h
    exact ⟨_, _, ⟨rfl, rfl⟩, h⟩

section Tests

variable {p : Token → Bool} {test : Reading Bool}

/-- The next token is taken if it passes the test `p`, which the end of input does not. Otherwise
nothing is taken. -/
theorem accept_if (htest : Parses final test fun ts b us => b = p (next final ts) ∧ us = ts)
    (hfinal : p final = false) :
    Parses final (do if ← test then some <$> Reading.advance else return none) fun ts t us =>
      (∃ u, t = some u ∧ p u = true ∧ ts = u :: us) ∨
        (t = none ∧ p (next final ts) = false ∧ us = ts) := by
  refine (htest.look_bind fun b => .ite advance.map (.pure none)).congr fun ts t us => ?_
  cases ts with
  | nil => simp [hfinal]
  | cons u ts => grind [next]

/-- The next token is taken and has to pass the test `p`, which the end of input does not. -/
theorem expect_if (htest : Parses final test fun ts b us => b = p (next final ts) ∧ us = ts)
    (hfinal : p final = false) (expected : String) :
    Parses final (do if ← test then Reading.advance else Reading.fail expected) fun ts t us =>
      p t = true ∧ ts = t :: us := by
  refine (htest.look_bind fun b => .ite advance (.fail expected)).congr fun ts t us => ?_
  cases ts with
  | nil => simp [hfinal]
  | cons u ts => grind [next]

end Tests

variable {kind : TokenKind} {kinds : List TokenKind}

theorem accept (hfinal : final.kind = .endOfInput) (hkind : kind ≠ .endOfInput) :
    Parses final (Reading.accept kind) fun ts t us =>
      (∃ u, t = some u ∧ u.kind = kind ∧ ts = u :: us) ∨
        (t = none ∧ ¬(next final ts).kind = kind ∧ us = ts) := by
  refine (accept_if (p := fun t => [kind].contains t.kind) (check [kind]) ?_).congr ?_
  · simpa [hfinal] using hkind.symm
  · simp

theorem acceptWord (hfinal : final.kind = .endOfInput) (words : List String) :
    Parses final (Reading.acceptWord words) fun ts t us =>
      (∃ u, t = some u ∧ u.isWord words = true ∧ ts = u :: us) ∨
        (t = none ∧ ¬(next final ts).isWord words = true ∧ us = ts) := by
  refine (accept_if (p := fun t => t.isWord words) (checkWord words) ?_).congr fun ts t us => ?_
  · rw [Token.isWord, hfinal]
    rfl
  · rw [Bool.not_eq_true]

theorem expectAny (hfinal : final.kind = .endOfInput) (hkinds : .endOfInput ∉ kinds)
    (expected : String) : Parses final (Reading.expectAny kinds expected) fun ts t us =>
      t.kind ∈ kinds ∧ ts = t :: us := by
  refine (expect_if (p := fun t => kinds.contains t.kind) (check kinds) ?_ expected).congr ?_
  · simpa [hfinal] using hkinds
  · simp

theorem expect (hfinal : final.kind = .endOfInput) (hkind : kind ≠ .endOfInput)
    (expected : String) : Parses final (Reading.expect kind expected) fun ts t us =>
      t.kind = kind ∧ ts = t :: us := by
  refine (expectAny hfinal ?_ expected).congr fun ts t us => ?_
  · simpa using hkind.symm
  · simp

theorem expectWord (hfinal : final.kind = .endOfInput) (word : String) :
    Parses final (Reading.expectWord word) fun ts t us =>
      t.isWord [word] = true ∧ ts = t :: us :=
  (checkWord [word]).expect_if (by rw [Token.isWord, hfinal]; rfl) _

/-- A reading that goes on from a token that may have been taken, with the grammar `K` if it was and
`H` if it was not. -/
theorem option_bind {p : Token → Prop} {y : Reading (Option Token)}
    {f : Option Token → Reading β} {K : Token → Grammar β} {H : Grammar β}
    (hy : Parses final y fun ts t us => (∃ u, t = some u ∧ p u ∧ ts = u :: us) ∨
      (t = none ∧ ¬p (next final ts) ∧ us = ts))
    (hsome : ∀ t, Parses final (f (some t)) (K t)) (hnone : Parses final (f none) H) :
    Parses final (y >>= f) fun ts b us =>
      (∃ t vs, p t ∧ ts = t :: vs ∧ K t vs b us) ∨ (¬p (next final ts) ∧ H ts b us) := by
  have hf : ∀ t, Parses final (f t) (t.elim H K) := by
    intro t
    cases t with
    | none => exact hnone
    | some t => exact hsome t
  refine (hy.bind hf).congr fun ts b us => ?_
  constructor
  · rintro ⟨_, ms, ⟨t, rfl, ht, rfl⟩ | ⟨rfl, hne, rfl⟩, h⟩
    · exact .inl ⟨t, ms, ht, rfl, h⟩
    · exact .inr ⟨hne, h⟩
  · rintro (⟨t, vs, ht, rfl, h⟩ | ⟨hne, h⟩)
    · exact ⟨some t, vs, .inl ⟨t, rfl, ht, rfl⟩, h⟩
    · exact ⟨none, ts, .inr ⟨rfl, hne, rfl⟩, h⟩

end Parses

/-! ### Words -/

/-- A token that is one `word` is any of some words if the word is one of them. -/
theorem isWord_eq {t : Token} {word : String} (h : t.isWord [word] = true) (words : List String) :
    t.isWord words = words.contains word := by
  simp only [Token.isWord, Bool.and_eq_true, beq_iff_eq, List.contains_cons, List.contains_nil,
    Bool.or_false] at h ⊢
  rw [h.2, h.1]
  rfl

/-- A token `t` that is one of some words is a single one of them. -/
theorem exists_of_isWord {t : Token} {words : List String} (h : t.isWord words = true) :
    ∃ word ∈ words, t.isWord [word] = true := by
  rw [Token.isWord, Bool.and_eq_true] at h
  refine ⟨Text.lower t.text, List.contains_iff_mem.1 h.2, ?_⟩
  rw [Token.isWord, h.1]
  simp

theorem lower_of_isWord {t : Token} {word : String} (h : t.isWord [word] = true) :
    Text.lower t.text = word := by
  rw [Token.isWord, Bool.and_eq_true] at h
  simpa using h.2

/-- The end of input is no word, so a word that is next is the first token ahead. -/
theorem exists_cons_of_isWord (hfinal : final.kind = .endOfInput) {ts : List Token}
    {words : List String} (h : (next final ts).isWord words = true) :
    ∃ t us, ts = t :: us ∧ t.isWord words = true := by
  cases ts with
  | nil =>
    rw [next_nil, Token.isWord, hfinal] at h
    cases h
  | cons t us => exact ⟨t, us, rfl, h⟩

/-! ### Ends of statements -/

/-- A statement ends before a line break or a semicolon, which it takes, or at the end of input. -/
inductive Ends : List Token → List Token → Prop
  | final : Ends [] []
  | line {t : Token} {us : List Token} (h : t.kind = .newline ∨ t.kind = .semicolon) :
      Ends (t :: us) us

/-- Tokens `ts` inside a statement: none of them ends it. -/
def Inside (ts : List Token) : Prop := ∀ t ∈ ts, t.kind.endsStatement = false

/-- The text of consecutive tokens `ts`, with the gaps between them and without the blanks around
it. -/
def textOf (ts : List Token) : String := String.ofList (Text.trim (Token.source ts).toList)

theorem Ends.suffix {ts us : List Token} (h : Ends ts us) : us <:+ ts := by
  cases h with
  | final => exact List.suffix_refl _
  | line _ => exact List.suffix_cons _ _

/-- Where a statement ends, the next token is of a kind that ends statements, be it the end of
input. -/
theorem Ends.next_kind (hfinal : final.kind = .endOfInput) {ts us : List Token} (h : Ends ts us) :
    (next final ts).kind.endsStatement = true := by
  cases h with
  | final => rw [next_nil, hfinal]; rfl
  | line h => rw [next_cons]; rcases h with h | h <;> rw [h] <;> rfl

/-- A token `t` that ends a statement is of no kind that stands inside one. -/
theorem kind_ne_of_endsStatement {t : Token} (h : t.kind.endsStatement = true) {kind : TokenKind}
    (hkind : kind.endsStatement = false) : t.kind ≠ kind := by
  rintro rfl
  rw [hkind] at h
  cases h

theorem not_isWord_of_endsStatement {t : Token} (h : t.kind.endsStatement = true)
    (words : List String) : ¬t.isWord words = true := by
  rw [Token.isWord, Bool.and_eq_true, beq_iff_eq]
  exact fun hword => kind_ne_of_endsStatement h rfl hword.1

namespace Parses

theorem endStatement (hfinal : final.kind = .endOfInput) :
    Parses final Reading.endStatement fun ts _ us => Ends ts us := by
  constructor
  · intro past ts a c hx
    cases ts with
    | nil =>
      rw [endStatement_nil hfinal] at hx
      cases hx
      exact ⟨rfl, .final⟩
    | cons t ts =>
      rw [endStatement_cons] at hx
      split at hx
      · next h =>
        cases hx
        exact ⟨rfl, .line h⟩
      · cases hx
  · intro past ts a us h
    cases h with
    | final => exact ⟨past, endStatement_nil hfinal⟩
    | @line t us h => exact ⟨t :: past, by rw [endStatement_cons, if_pos h]⟩

/-- Tokens are taken while they pass the test `p`, which the end of input does not. So the taken
tokens all pass, and the next one does not. -/
theorem span {p : Token → Bool} (hfinal : p final = false) (f : List Token → α) :
    Parses final (move fun c => (f (c.span p).1, (c.span p).2)) fun ts a us => ∃ taken,
      ts = taken ++ us ∧ (∀ t ∈ taken, p t = true) ∧ p (next final us) = false ∧ a = f taken := by
  -- Soundness: the tokens that pass come first, and the next one fails the test.
  constructor
  · intro past ts a c hx
    cases hx
    refine ⟨rfl, ts.takeWhile p, List.takeWhile_append_dropWhile.symm, ?_, ?_, rfl⟩
    · exact List.all_eq_true.1 List.all_takeWhile
    · show p (next final (ts.dropWhile p)) = false
      cases hrest : ts.dropWhile p with
      | nil => exact hfinal
      | cons t us =>
        have hne : ts.dropWhile p ≠ [] := by rw [hrest]; exact List.cons_ne_nil _ _
        have hpt := List.head_dropWhile_not (p := p) hne
        simpa [hrest] using hpt
  -- Completeness: nothing can be taken of what is left, so what is taken is just `taken`.
  · rintro past ts a us ⟨taken, rfl, htaken, hnext, rfl⟩
    have hstop : us.takeWhile p = [] ∧ us.dropWhile p = us := by
      cases us with
      | nil => exact ⟨rfl, rfl⟩
      | cons u us =>
        rw [next_cons] at hnext
        exact ⟨List.takeWhile_cons_of_neg (by simp [hnext]),
          List.dropWhile_cons_of_neg (by simp [hnext])⟩
    have htake : (taken ++ us).takeWhile p = taken := by
      rw [List.takeWhile_append_of_pos htaken, hstop.1, List.append_nil]
    have hdrop : (taken ++ us).dropWhile p = us := by
      rw [List.dropWhile_append_of_pos htaken, hstop.2]
    refine ⟨taken.reverse ++ past, ?_⟩
    show Except.ok (f ((taken ++ us).takeWhile p), (⟨((taken ++ us).takeWhile p).reverse ++ past,
      (taken ++ us).dropWhile p, final⟩ : Cursor)) = _
    rw [htake, hdrop]

/-- The rest of a statement is taken as it stands: all tokens inside it. -/
theorem restOfStatement (hfinal : final.kind = .endOfInput) :
    Parses final Reading.restOfStatement fun ts text us => ∃ inside, ts = inside ++ us ∧
      Inside inside ∧ (next final us).kind.endsStatement = true ∧ text = textOf inside := by
  refine (span (p := fun t => !t.kind.endsStatement && !([] : List TokenKind).contains t.kind)
    (by rw [hfinal]; rfl) textOf).congr ?_
  simp [Inside]

/-- Line breaks and semicolons are skipped, as many as there are, and the next token is neither. -/
theorem skipNewlines (hfinal : final.kind = .endOfInput) :
    Parses final Reading.skipNewlines fun ts _ us => ∃ breaks, ts = breaks ++ us ∧
      (∀ t ∈ breaks, t.kind = .newline ∨ t.kind = .semicolon) ∧
      ¬((next final us).kind = .newline ∨ (next final us).kind = .semicolon) := by
  refine (span (p := fun t => t.kind == .newline || t.kind == .semicolon)
    (by rw [hfinal]; rfl) fun _ => ()).congr ?_
  simp

/-- What is read up to the end of a statement may look at what ends it. So where the two grammars
`G` and `S` agree before such an end, either may be used. -/
theorem bind_end {x : Reading α} {G S : Grammar α} {f : α → Reading β} {K : α → Grammar β}
    (hfinal : final.kind = .endOfInput) (hx : Parses final x G)
    (hsound : ∀ ts a us, G ts a us → S ts a us)
    (hcomplete : ∀ ts a us, S ts a us → (next final us).kind.endsStatement = true → G ts a us)
    (hf : ∀ a, Parses final (f a) (K a)) :
    Parses final (x >>= fun a => Reading.endStatement >>= fun _ => f a) fun ts b ws =>
      ∃ a us vs, S ts a us ∧ Ends us vs ∧ K a vs b ws := by
  refine (hx.bind fun a => (endStatement hfinal).bind fun _ => hf a).congr fun ts b ws => ?_
  constructor
  · rintro ⟨a, us, hg, _, vs, hend, hk⟩
    exact ⟨a, us, vs, hsound _ _ _ hg, hend, hk⟩
  · rintro ⟨a, us, vs, hs, hend, hk⟩
    exact ⟨a, us, hcomplete _ _ _ hs (hend.next_kind hfinal), (), vs, hend, hk⟩

/-- A label is read as what its `text` means, if it means anything, and no token is taken. -/
theorem content (text : String) : Parses final (Reading.content text) fun ts label us =>
    Content.ofText? text = some label ∧ us = ts := by
  unfold Reading.content
  cases h : Content.ofText? text with
  | none =>
    constructor
    · intro past ts label c hx
      cases hx
    · exact fun _ _ _ _ h => nomatch h.1
  | some label =>
    refine (pure label).congr fun ts label' us => ?_
    rw [Option.some.injEq, eq_comm]

/-! ### Repeating -/

/-- What the rounds of a loop read, one behind the other, each of fewer tokens. -/
inductive Loops (R : σ → Grammar (σ ⊕ α)) : σ → Grammar α
  | done {s : σ} {ts us : List Token} {a : α} (h : R s ts (.inr a) us) : Loops R s ts a us
  | more {s s' : σ} {ts us vs : List Token} {a : α} (h : R s ts (.inl s') us)
      (hlt : us.length < ts.length) (hrest : Loops R s' us a vs) : Loops R s ts a vs

theorem loop {round : σ → Reading (σ ⊕ α)} {R : σ → Grammar (σ ⊕ α)}
    (h : ∀ s, Parses final (round s) (R s)) (s : σ) :
    Parses final (Reading.loop round s) (Loops R s) := by
  constructor
  -- By induction on the number of tokens ahead: the loop checks that each round leaves fewer.
  · intro past ts a c hx
    induction hlen : ts.length using Nat.strongRecOn generalizing s past ts with
    | _ len ih =>
      rw [loop_apply] at hx
      split at hx
      · cases hx
      · next hround =>
        cases hx
        obtain ⟨hfinal, hr⟩ := (h s).sound _ _ _ _ hround
        exact ⟨hfinal, .done hr⟩
      · next s' c' hround =>
        obtain ⟨past', us, final'⟩ := c'
        obtain ⟨hfinal, hr⟩ := (h s).sound _ _ _ _ hround
        obtain rfl : final' = final := hfinal
        split at hx
        · next hlt =>
          obtain ⟨hfinal, hloops⟩ := ih us.length (hlen ▸ hlt) s' past' us hx rfl
          exact ⟨hfinal, .more hr hlt hloops⟩
        · cases hx
  -- By induction on the rounds that the grammar puts together.
  · intro past ts a us hloops
    induction hloops generalizing past with
    | done hr =>
      obtain ⟨past', hround⟩ := (h _).complete past _ _ _ hr
      exact ⟨past', loop_inr hround⟩
    | more hr hlt _ ih =>
      obtain ⟨past', hround⟩ := (h _).complete past _ _ _ hr
      obtain ⟨past'', hrest⟩ := ih past'
      exact ⟨past'', by rw [loop_inl hround hlt, hrest]⟩

/-- Statements one behind the other, up to the end of input, each of a token or more. -/
inductive Statements (G : σ → Grammar σ) : σ → List Token → σ → Prop
  | nil {s : σ} : Statements G s [] s
  | cons {s s' s'' : σ} {ts us : List Token} (h : G s ts s' us) (hlt : us.length < ts.length)
      (hrest : Statements G s' us s'') : Statements G s ts s''

theorem untilEnd {statement : σ → Reading σ} {G : σ → Grammar σ}
    (h : ∀ s, Parses final (statement s) (G s)) (s : σ) :
    Parses final (Reading.untilEnd statement s) fun ts s' us => Statements G s ts s' ∧ us = [] := by
  have hround : ∀ s, Parses final
      (do if ← Reading.look Cursor.atEnd then return .inr s else return .inl (← statement s))
      fun ts (r : σ ⊕ σ) us => if ts.isEmpty = true then r = .inr s ∧ us = ts
        else ∃ s' ms, G s ts s' ms ∧ r = .inl s' ∧ us = ms := fun s =>
    look_bind (look (g := List.isEmpty) fun _ _ => rfl) fun _ =>
      .ite (.pure _) ((h s).bind fun _ => .pure _)
  refine (loop hround s).congr fun ts s' us => ?_
  constructor
  · intro hloops
    -- The last round finds no token ahead, and every other reads a statement.
    induction hloops with
    | done h =>
      split at h
      · next hend =>
        obtain ⟨h, rfl⟩ := h
        cases h
        rw [List.isEmpty_iff.1 hend]
        exact ⟨.nil, rfl⟩
      · obtain ⟨_, _, _, h, -⟩ := h
        cases h
    | more h hlt _ ih =>
      split at h
      · cases h.1
      · obtain ⟨s', _, h, hs', rfl⟩ := h
        cases hs'
        exact ⟨.cons h hlt ih.1, ih.2⟩
  · rintro ⟨hstatements, rfl⟩
    induction hstatements with
    | nil => exact .done ⟨rfl, rfl⟩
    | cons h hlt _ ih =>
      refine .more ?_ hlt ih
      rw [if_neg]
      · exact ⟨_, _, h, rfl, rfl⟩
      · intro hend
        rw [List.isEmpty_iff.1 hend] at hlt
        exact absurd hlt (Nat.not_lt_zero _)

end Parses
end DiagramText.Reading
