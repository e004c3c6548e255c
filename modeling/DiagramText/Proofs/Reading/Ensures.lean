import DiagramText.Proofs.Reading.Step
import DiagramText.Proofs.Result
import DiagramText.Proofs.Token.Scanned

/-!
# What readings ensure

What is known of the results of a reading, whenever it succeeds: a reading is taken apart into its
actions, and each action says what it gives at a cursor before a scanned row.

* `Reading.Ensures`: the results of a reading at cursors with some property have another.
* `Reading.Ensures.loop` and `Reading.Ensures.untilEnd`: what every round keeps holds at the end.
* `Reading.ensures_expect`, `Reading.ensures_rawUntil` and the others for the single actions.
-/

namespace DiagramText

open Text

/-! ### Cursors before scanned rows -/

/-- A cursor before a scanned row of the dialect `d`. -/
def Cursor.Scanned (d : Dialect) (c : Cursor) : Prop :=
  Token.Scanned d c.rest ∧ c.final.kind = .endOfInput

/-- A cursor `c` behind a colon: before the text after it, if there is one, and a scanned row behind
that. -/
def Cursor.AfterColon (d : Dialect) (c : Cursor) : Prop :=
  c.Scanned d ∨ ∃ t ts, c.rest = t :: ts ∧ t.kind = .text ∧ t.IsText ∧ Token.Scanned d ts ∧
    c.final.kind = .endOfInput

/-! ### Labels -/

/-- A label keeps its `text`, whatever it means. -/
theorem Content.raw_ofText (text : String) : (ofText text).raw = text := by
  unfold ofText
  split
  · rfl
  · split <;> rfl

theorem Content.eq_ofText {text : String} {l : Content} (h : ofText? text = some l) :
    l = ofText text := by
  unfold ofText? at h
  split at h
  · cases h
  · exact (Option.some.inj h).symm

namespace Reading

/-! ### What is known of the results -/

/-- Whenever the reading `x` succeeds at a cursor with the property `P`, its result and the cursor
behind it have the property `Q`. Nothing is said where it fails. -/
def Ensures {α : Type} (P : Cursor → Prop) (x : Reading α) (Q : α → Cursor → Prop) : Prop :=
  ∀ c a c', P c → x c = .ok (a, c') → Q a c'

namespace Ensures

variable {α β σ : Type} {P P' : Cursor → Prop} {x : Reading α} {Q Q' : α → Cursor → Prop}
  {R : β → Cursor → Prop}

/-! ### Putting readings together -/

theorem imp (h : Ensures P x Q) (hP : ∀ c, P' c → P c) (hQ : ∀ a c, Q a c → Q' a c) :
    Ensures P' x Q' := fun c a c' hc hx => hQ a c' (h c a c' (hP c hc) hx)

theorem imp_right (h : Ensures P x Q) (hQ : ∀ a c, Q a c → Q' a c) : Ensures P x Q' :=
  h.imp (fun _ => id) hQ

theorem and (h : Ensures P x Q) (h' : Ensures P x Q') : Ensures P x fun a c => Q a c ∧ Q' a c :=
  fun c a c' hc hx => ⟨h c a c' hc hx, h' c a c' hc hx⟩

/-- Where a reading is followed by what does not depend on it, nothing need be known of it or of its
cursor. -/
theorem unknown : Ensures P x fun _ _ => True := fun _ _ _ _ _ => trivial

/-- What is known beside the cursor, here `p`, can be used at once. -/
theorem of_and {p : Prop} (h : p → Ensures P x Q) : Ensures (fun c => p ∧ P c) x Q :=
  fun c a c' hc hx => h hc.1 c a c' hc.2 hx

theorem of_fact {p : Prop} (h : p → Ensures (fun _ => True) x Q) : Ensures (fun _ => p) x Q :=
  fun c a c' hp hx => h hp c a c' trivial hx

theorem of_exists {ι : Sort*} {P : ι → Cursor → Prop} (h : ∀ i, Ensures (P i) x Q) :
    Ensures (fun c => ∃ i, P i c) x Q :=
  fun c a c' ⟨i, hc⟩ hx => h i c a c' hc hx

theorem pure {a : α} (h : ∀ c, P c → Q a c) : Ensures P (pure a) Q := by
  rintro c _ _ hc hx
  cases hx
  exact h c hc

theorem bind {f : α → Reading β} (hx : Ensures P x Q) (hf : ∀ a, Ensures (Q a) (f a) R) :
    Ensures P (x >>= f) R := by
  intro c b c' hc h
  rw [bind_apply, Except.bind_eq_ok_iff] at h
  obtain ⟨⟨a, c₁⟩, hx', hf'⟩ := h
  exact hf a c₁ b c' (hx c a c₁ hc hx') hf'

/-- A reading of which the result has the property `p`, whatever else is known of the cursor behind
it. -/
theorem bind_and {p : α → Prop} {P₁ : Cursor → Prop} {f : α → Reading β}
    (hx : Ensures P x fun a c => p a ∧ P₁ c) (hf : ∀ a, p a → Ensures P₁ (f a) R) :
    Ensures P (x >>= f) R :=
  hx.bind fun a => .of_and (hf a)

theorem map {f : α → β} (hx : Ensures P x fun a c => R (f a) c) : Ensures P (f <$> x) R := by
  intro c b c' hc h
  rw [map_apply, Except.bind_eq_ok_iff] at h
  obtain ⟨⟨a, c₁⟩, hx', hf⟩ := h
  cases hf
  exact hx c a c₁ hc hx'

/-- Looking does not change what is known of the cursor. -/
theorem look_bind {f : Cursor → α} {g : α → Reading β} (h : ∀ a, Ensures P (g a) R) :
    Ensures P (look f >>= g) R :=
  bind (Q := fun _ => P) (fun c a c' hc hx => by cases hx; exact hc) h

theorem ite {b : Prop} [Decidable b] {y : Reading α} (hx : b → Ensures P x Q)
    (hy : ¬b → Ensures P y Q) : Ensures P (if b then x else y) Q := by
  split
  · exact hx ‹_›
  · exact hy ‹_›

theorem failAt (cause : ReadError.Cause) (position : Option Position) :
    Ensures P (Reading.failAt cause position) Q := by
  intro c a c' hc hx
  cases hx

theorem fail (expected : String) : Ensures P (Reading.fail expected) Q := by
  intro c a c' hc hx
  rw [fail_apply] at hx
  cases hx

/-! ### Repeating -/

/-- What every round of a loop keeps holds at its end. The invariant `I` is one of states and
cursors, and `Q` is what the last round gives. -/
theorem loop {round : σ → Reading (σ ⊕ α)} {I : σ → Cursor → Prop}
    (h : ∀ s, Ensures (I s) (round s) fun r c => r.elim (I · c) (Q · c)) (s : σ) :
    Ensures (I s) (loop round s) Q := by
  intro c a c' hc hx
  induction hlen : c.rest.length using Nat.strongRecOn generalizing s c with
  | _ len ih =>
    rw [loop_apply] at hx
    split at hx
    · cases hx
    · next hround =>
      cases hx
      exact h s c _ _ hc hround
    · next s' c₁ hround =>
      split at hx
      · exact ih _ (by omega) s' c₁ (h s c _ _ hc hround) hx rfl
      · cases hx

/-- What every statement keeps, where there is a token ahead, holds at the end of input. This is the
form for statements that say nothing at the end. -/
theorem untilEnd_of_ne_nil {statement : σ → Reading σ} {I : σ → Cursor → Prop}
    (h : ∀ s, Ensures (fun c => I s c ∧ c.rest ≠ []) (statement s) I) (s : σ) :
    Ensures (I s) (untilEnd statement s) I := by
  have hlook : ∀ s, Ensures (I s) (look Cursor.atEnd) fun b c => b = c.atEnd ∧ I s c := by
    intro s c b c' hc hx
    cases hx
    exact ⟨rfl, hc⟩
  refine loop (Q := I) (fun s => bind (hlook s) fun b => ?_) s
  refine .ite (fun _ => .pure fun _ hc => hc.2) fun hb => ?_
  refine .bind ((h s).imp (fun c hc => ⟨hc.2, fun hnil => hb ?_⟩) fun _ _ => id) fun _ =>
    .pure fun _ hc => hc
  rw [hc.1, Cursor.atEnd, hnil]
  rfl

/-- What every statement keeps holds at the end of input, be there tokens ahead of it or not. -/
theorem untilEnd {statement : σ → Reading σ} {I : σ → Cursor → Prop}
    (h : ∀ s, Ensures (I s) (statement s) I) (s : σ) :
    Ensures (I s) (untilEnd statement s) I :=
  untilEnd_of_ne_nil (fun s => (h s).imp (fun _ hc => hc.1) fun _ _ => id) s

end Ensures

/-! ### Looking -/

variable {α : Type} {P : Cursor → Prop}

theorem ensures_look (f : Cursor → α) : Ensures P (look f) fun a c => a = f c ∧ P c := by
  intro c a c' hc hx
  cases hx
  exact ⟨rfl, hc⟩

theorem ensures_peek : Ensures P peek fun t c => t = c.peek ∧ P c := ensures_look _

theorem ensures_check (kinds : List TokenKind) :
    Ensures P (check kinds) fun b c => b = kinds.contains c.peek.kind ∧ P c := ensures_look _

/-! ### Taking tokens -/

variable {d : Dialect} {words : List Rule}

/-- Behind any token but a colon the row is scanned again. -/
theorem ensures_advance (hd : d.Regular words) :
    Ensures (fun c => c.peek.kind ≠ .colon ∧ c.Scanned d) advance fun _ c => c.Scanned d := by
  rintro ⟨past, rest, final⟩ t c' ⟨hcolon, hrest, hfinal⟩ hx
  cases rest with
  | nil => cases hx; exact ⟨hrest, hfinal⟩
  | cons u us => cases hx; exact ⟨hrest.tail hd hcolon, hfinal⟩

theorem ensures_accept (hd : d.Regular words) {kind : TokenKind} (hkind : kind ≠ .colon) :
    Ensures (Cursor.Scanned d) (accept kind) fun _ c => c.Scanned d := by
  refine .bind (ensures_check [kind]) fun b => .ite (fun hb => ?_) fun _ => .pure fun _ hc => hc.2
  refine .map ((ensures_advance hd).imp (fun c hc => ⟨?_, hc.2⟩) fun _ _ => id)
  have hc : c.peek.kind = kind := by simpa [hb] using hc.1
  rwa [hc]

/-- A token of some `kind` that is expected is a lexeme of the kind, unless the kind is one of those
without one. -/
theorem ensures_expect (hd : d.Regular words) {kind : TokenKind} {expected : String}
    (hkind : kind ∉ [.colon, .newline, .endOfInput]) :
    Ensures (Cursor.Scanned d) (expect kind expected)
      fun t c => (t.kind = kind ∧ t.IsLexeme words) ∧ c.Scanned d := by
  refine .bind (ensures_check [kind]) fun b => .ite (fun hb => ?_) fun _ => .fail _
  simp only [List.mem_cons, List.not_mem_nil, or_false, not_or] at hkind
  rintro ⟨past, rest, final⟩ t c' ⟨hc, hrest, hfinal⟩ hx
  cases rest with
  | nil =>
    have hc : final.kind = kind := by simpa [hb] using hc
    exact absurd (hc.symm.trans hfinal) hkind.2.2
  | cons u us =>
    have hc : u.kind = kind := by simpa [hb] using hc
    cases hx
    exact ⟨⟨hc, hrest.isLexeme hd (hc ▸ hkind.2.1) (hc ▸ hkind.1)⟩, hrest.tail hd (hc ▸ hkind.1),
      hfinal⟩

/-- A token that is accepted is a lexeme of its kind. -/
theorem ensures_accept_lexeme (hd : d.Regular words) {kind : TokenKind}
    (hkind : kind ∉ [.colon, .newline, .endOfInput]) :
    Ensures (Cursor.Scanned d) (accept kind)
      fun t c => (∀ u ∈ t, u.kind = kind ∧ u.IsLexeme words) ∧ c.Scanned d := by
  refine .bind (ensures_check [kind]) fun b => .ite (fun hb => ?_) fun _ =>
    .pure fun _ hc => ⟨(fun _ h => nomatch h), hc.2⟩
  have hexpect : Ensures (fun c => c.peek.kind = kind ∧ c.Scanned d) advance
      fun t c => (t.kind = kind ∧ t.IsLexeme words) ∧ c.Scanned d := by
    intro c t c' ⟨hc, hscanned⟩ hx
    have ht : expect kind "" c = .ok (t, c') := by
      simp [expect, expectAny, bind_apply, check_apply, Except.bind, hc, hx]
    exact ensures_expect hd hkind c t c' hscanned ht
  refine .map ((hexpect.imp (fun c hc => ⟨?_, hc.2⟩)) ?_)
  · simpa [hb] using hc.1
  · rintro t c ⟨ht, hc⟩
    refine ⟨?_, hc⟩
    rintro u ⟨⟩
    exact ht

theorem ensures_expectWord (hd : d.Regular words) (word : String) :
    Ensures (Cursor.Scanned d) (expectWord word) fun _ c => c.Scanned d := by
  refine .bind (ensures_look _) fun b => .ite (fun hb => ?_) fun _ => .fail _
  refine (ensures_advance hd).imp (fun c hc => ⟨fun hcolon => ?_, hc.2⟩) fun _ _ => id
  have hword := hc.1
  rw [hb, Token.isWord, hcolon] at hword
  cases hword

/-! ### A colon and the text after it -/

/-- Behind a colon stands the text after it, or no text, and if no colon is accepted nothing has
moved. -/
theorem ensures_accept_colon (hd : d.Regular words) :
    Ensures (Cursor.Scanned d) (accept .colon)
      fun t c => (t = none ∧ c.Scanned d) ∨ (t.isSome ∧ c.AfterColon d) := by
  rintro ⟨past, rest, final⟩ t c' ⟨hrest, hfinal⟩ hx
  cases rest with
  | nil =>
    rw [accept_nil (by rw [hfinal]; decide)] at hx
    cases hx
    exact .inl ⟨rfl, hrest, hfinal⟩
  | cons u us =>
    rw [accept_cons] at hx
    split at hx
    · next hu =>
      cases hx
      refine .inr ⟨rfl, ?_⟩
      cases hrest.head hd with
      | newline ht => rw [hu] at ht; cases ht
      | lexeme hkind => rw [hu] at hkind; exact absurd (by decide) hkind
      | colon ht hts => exact .inl ⟨hts, hfinal⟩
      | text ht hv hne hplain htrim hts =>
        exact .inr ⟨_, _, rfl, hv, ⟨hne, hplain, htrim⟩, hts, hfinal⟩
    · cases hx
      exact .inl ⟨rfl, hrest, hfinal⟩

/-- The text after a colon is trimmed and not empty, if it is there. -/
theorem ensures_accept_text (hd : d.Regular words) :
    Ensures (Cursor.AfterColon d) (accept .text)
      fun t c => (∀ u ∈ t, u.IsText) ∧ c.Scanned d := by
  rintro ⟨past, rest, final⟩ t c' hc hx
  obtain hc | ⟨u, us, rfl, hkind, hu, hus, hfinal⟩ := hc
  · cases rest with
    | nil =>
      rw [accept_nil (by rw [show final.kind = _ from hc.2]; decide)] at hx
      cases hx
      exact ⟨(fun _ h => nomatch h), hc⟩
    | cons u us =>
      rw [accept_cons, if_neg (hc.1.ne_text hd)] at hx
      cases hx
      exact ⟨(fun _ h => nomatch h), hc⟩
  · rw [accept_cons, if_pos hkind] at hx
    cases hx
    exact ⟨by rintro _ ⟨⟩; exact hu, hus, hfinal⟩

/-- What is read of the text after a colon is known to be so, since that text is trimmed and not
empty, if `read` gives it of such a text. -/
theorem ensures_behindColon {read : Option Token → Reading (Option α)} {Q : α → Prop}
    (hd : d.Regular words)
    (h : ∀ token, (∀ t ∈ token, t.IsText) →
      Ensures (Cursor.Scanned d) (read token) fun a c => (∀ l ∈ a, Q l) ∧ c.Scanned d) :
    Ensures (Cursor.Scanned d) (behindColon read) fun a c => (∀ l ∈ a, Q l) ∧ c.Scanned d := by
  refine .bind (ensures_accept_colon hd) fun t => ?_
  cases t with
  | none => exact .pure fun c hc => ⟨nofun, (hc.resolve_right (by simp)).2⟩
  | some t =>
    refine .bind_and ((ensures_accept_text hd).imp ?_ fun _ _ => id) fun u hu => h u hu
    exact fun c hc => (hc.resolve_left (by simp)).2

/-- What is known of a token that is accepted holds of one that is expected, since that is accepted
or missing. -/
theorem Ensures.expect {kind : TokenKind} {Q : Token → Cursor → Prop} (expected : String)
    (h : Ensures P (accept kind) fun t c => ∀ u ∈ t, Q u c) :
    Ensures P (Reading.expect kind expected) Q := by
  intro c t c' hc hx
  rw [Reading.expect, expectAny, bind_apply, check_apply] at hx
  dsimp only [Except.bind] at hx
  split at hx
  · next hcheck =>
    have hkind : c.peek.kind = kind := by simpa using hcheck
    have haccept : accept kind c = .ok (some t, c') := by
      simp [accept, bind_apply, check_apply, Except.bind, hkind, map_apply, hx]
    exact h c _ c' hc haccept t rfl
  · rw [fail_apply] at hx
    cases hx

/-- A colon that has to stand here is followed by the text after it, or by no text. -/
theorem ensures_expect_colon (hd : d.Regular words) (expected : String) :
    Ensures (Cursor.Scanned d) (expect .colon expected) fun _ c => c.AfterColon d := by
  refine .expect expected ((ensures_accept_colon hd).imp_right ?_)
  rintro t c (⟨rfl, -⟩ | ⟨-, hc⟩)
  · exact nofun
  · exact fun _ _ => hc

/-- A text that has to stand after a colon is trimmed and not empty, as a missing one is refused. -/
theorem ensures_expect_text (hd : d.Regular words) (expected : String) :
    Ensures (Cursor.AfterColon d) (expect .text expected)
      fun t c => t.IsText ∧ c.Scanned d :=
  .expect expected ((ensures_accept_text hd).imp_right fun _ _ h u hu => ⟨h.1 u hu, h.2⟩)

/-! ### Labels -/

theorem ensures_ofResult (result : Except ReadError α) :
    Ensures P (ofResult result) fun a c => result = .ok a ∧ P c := by
  intro c a c' hc hx
  cases result with
  | ok b =>
    cases hx
    exact ⟨rfl, hc⟩
  | error e => cases hx

/-- A label is what the `text` that it keeps means, and reading it takes no token. -/
theorem ensures_content (text : String) : Ensures P (content text)
    fun l c => (l.raw = text ∧ Content.ofText? l.raw = some l) ∧ P c := by
  intro c l c' hc hx
  cases hl : Content.ofText? text with
  | none =>
    rw [content, hl] at hx
    cases hx
  | some l' =>
    rw [content, hl] at hx
    cases hx
    have hraw : l.raw = text := by
      rw [Content.eq_ofText hl, Content.raw_ofText]
    exact ⟨⟨hraw, by rw [hraw, hl]⟩, hc⟩

/-! ### Statements -/

theorem ensures_skipNewlines (hd : d.Regular words) :
    Ensures (Cursor.Scanned d) skipNewlines fun _ c => c.Scanned d := by
  rintro ⟨past, rest, final⟩ _ _ ⟨hrest, hfinal⟩ hx
  cases hx
  refine ⟨?_, hfinal⟩
  change Token.Scanned d (rest.dropWhile _)
  clear hfinal
  dsimp only at hrest
  induction rest with
  | nil => exact hrest
  | cons t ts ih =>
    rw [List.dropWhile_cons]
    split
    · next ht =>
      refine ih (hrest.tail hd fun hcolon => ?_)
      rw [hcolon] at ht
      cases ht
    · exact hrest

theorem ensures_endStatement (hd : d.Regular words) :
    Ensures (Cursor.Scanned d) endStatement fun _ c => c.Scanned d := by
  refine .bind (ensures_check _) fun b => .ite (fun hb => ?_) fun _ => ?_
  · refine .map ((ensures_advance hd).imp (fun c hc => ⟨fun hcolon => ?_, hc.2⟩) fun _ _ => id)
    have h := hc.1
    rw [hb, hcolon] at h
    cases h
  · refine .bind (ensures_look _) fun b => .ite (fun _ => .pure fun _ hc => hc.2.2) fun _ => .fail _

/-- What is taken of a statement as it stands, up to the kinds `stops`, is a span of a line, and its
tokens are those of the span. -/
theorem ensures_rawUntil_ofLine (hd : d.Regular words) {stops : List TokenKind}
    (hstops : ∀ kind ∈ stops, kind ∈ TokenKind.stops) (ts : List Token) :
    Ensures (fun c => c.rest = ts ∧ c.Scanned d) (rawUntil stops) fun text c =>
      (Token.IsSpan d (fun k => !k.endsStatement && !stops.contains k) text.toList ∧
        ∃ gap, ts.takeWhile (fun t => !t.kind.endsStatement && !stops.contains t.kind) =
          Token.ofLine d gap text.toList) ∧ c.Scanned d := by
  rintro ⟨past, rest, final⟩ _ _ ⟨rfl, hrest, hfinal⟩ hx
  cases hx
  have hstops' : ∀ kind : TokenKind, (!kind.endsStatement && !stops.contains kind) = false →
      kind ∈ TokenKind.stops := by
    intro kind h
    rw [Bool.and_eq_false_iff] at h
    rcases h with h | h
    · revert h
      cases kind <;> decide
    · exact hstops kind (by simpa using h)
  obtain ⟨gap, span, hspan, htake, hsource, hleft⟩ := hrest.exists_span hd
    (f := fun k => !k.endsStatement && !stops.contains k) hstops' rfl
  dsimp only at htake hsource hleft ⊢
  rw [hsource, String.toList_ofList, String.toList_ofList, hspan.trimmed.trim_eq]
  exact ⟨⟨hspan, gap, htake⟩, hleft, hfinal⟩

/-- What is taken of a statement as it stands is a span of a line. -/
theorem ensures_rawUntil (hd : d.Regular words) {stops : List TokenKind}
    (hstops : ∀ kind ∈ stops, kind ∈ TokenKind.stops) :
    Ensures (Cursor.Scanned d) (rawUntil stops) fun text c =>
      Token.IsSpan d (fun k => !k.endsStatement && !stops.contains k) text.toList ∧
        c.Scanned d := by
  intro c text c' hc hx
  obtain ⟨⟨hspan, -⟩, hscanned⟩ :=
    ensures_rawUntil_ofLine hd hstops c.rest c text c' ⟨rfl, hc⟩ hx
  exact ⟨hspan, hscanned⟩

end Reading
end DiagramText
