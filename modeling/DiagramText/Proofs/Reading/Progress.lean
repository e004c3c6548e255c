import DiagramText.Proofs.Reading.Ensures
import DiagramText.Proofs.Reading.Steady

/-!
# Loops that move on

A loop checks behind each round that goes on that it took a token, and stalls if it did not. Here
the rounds of a loop are followed without the check. If each of them moves on there are no more of
them than tokens, and the loop ends as the last of them does.

* `Reading.Advances`: wherever a round goes on, it has taken at least one token.
* `Reading.Repeats`: rounds of a loop that follow each other.
* `Reading.Repeats.add_length_le`: there are no more rounds than tokens ahead.
* `Reading.Advances.comesToEnd`: a loop of rounds that move on ends as its last round does.
-/

namespace DiagramText

/-- A cursor before the last of the tokens `row`, with the end of input kept apart from them. -/
def Cursor.Within (row : List Token) (c : Cursor) : Prop := c.Below row (row.length + 1)

namespace Reading

variable {α σ : Type} {d : Dialect} {ts row : List Token} {n : Nat}

/-! ### Results of readings that move -/

section Results

variable {x : Reading α} {Q : α → Prop} {P : Cursor → Prop}

theorem Sound.ensures {Q : α → Cursor → Prop} (h : Sound d ts P x Q) : Ensures P x Q := by
  intro c a c' hc hx
  have hmeets := h.apply c hc
  rw [hx] at hmeets
  exact hmeets

theorem Steady.passes (h : Steady d ts x Q) (n : Nat) :
    Ensures (Cursor.Below ts n) x fun _ c => c.Below ts n :=
  (h n).ensures.imp_right fun _ _ hc => hc.2

theorem Moves.passes (h : Moves d ts x Q) (n : Nat) :
    Ensures (Cursor.Facing ts n) x fun _ c => c.Below ts n :=
  (h n).ensures.imp_right fun _ _ hc => hc.2

theorem Takes.passes (h : Takes d ts x Q) (n : Nat) :
    Ensures (Cursor.Below ts (n + 1)) x fun _ c => c.Below ts n :=
  (h n).ensures.imp_right fun _ _ hc => hc.2

-- where nothing is said of failures, the dialect does not matter: any of them would do
theorem passes_advance : Ensures (Cursor.Below ts n) advance fun _ c => c.Below ts n :=
  (steady_advance (d := .flowchart)).passes n

/-- A token that is accepted is one of those ahead, and there is one less of them. -/
theorem ensures_accept_below {kind : TokenKind} (hkind : kind ≠ .endOfInput) :
    Ensures (Cursor.Below ts n) (accept kind)
      fun t c => (∀ u ∈ t, u ∈ ts ∧ u.kind = kind) ∧ c.Below ts n := by
  rintro ⟨past, rest, final⟩ t c' hc hx
  cases rest with
  | nil =>
    have hfinal : final.kind ≠ kind := fun h => hkind (h.symm.trans hc.final_kind)
    rw [accept_nil hfinal] at hx
    cases hx
    exact ⟨by simp, hc⟩
  | cons u us =>
    rw [accept_cons] at hx
    split at hx
    · next hu =>
      cases hx
      refine ⟨?_, (hc.mono (Nat.le_succ n)).tail rfl _⟩
      rintro _ ⟨⟩
      exact ⟨hc.mem List.mem_cons_self, hu⟩
    · cases hx
      exact ⟨by simp, hc⟩

theorem passes_accept {kind : TokenKind} (hkind : kind ≠ .endOfInput) :
    Ensures (Cursor.Below ts n) (accept kind) fun _ c => c.Below ts n :=
  (ensures_accept_below hkind).imp_right fun _ _ hc => hc.2

theorem passes_expect {kind : TokenKind} (hkind : kind ≠ .endOfInput) (expected : String) :
    Ensures (Cursor.Below ts n) (expect kind expected) fun _ c => c.Below ts n :=
  (takes_expect (d := .flowchart) hkind expected).steady.passes n

theorem passes_endStatement : Ensures (Cursor.Below ts n) endStatement fun _ c => c.Below ts n :=
  (steady_endStatement (d := .flowchart)).passes n

/-- What is no reading leaves the cursor where it is. -/
theorem ensures_lift (x : Except Failure α) : Ensures P (StateT.lift x) fun _ c => P c := by
  intro c a c' hc hx
  cases x with
  | error e => cases hx
  | ok a =>
    cases hx
    exact hc

end Results

/-! ### Rounds that move on -/

/-- Wherever a round goes on, it has taken at least one token, and it has not left the tokens
`row`. -/
def Advances (row : List Token) (round : σ → Reading (σ ⊕ α)) : Prop :=
  ∀ s c s' c', c.Within row → round s c = .ok (.inl s', c') →
    c'.Within row ∧ ∃ taken, taken ≠ [] ∧ c.rest = taken ++ c'.rest

variable {round : σ → Reading (σ ⊕ α)}

/-- A round moves on if it leaves fewer tokens ahead, which are the last of those before. So the
bounds of `Cursor.Below` are enough to know. -/
theorem advances_of_ensures (h : ∀ ts n s, Ensures (Cursor.Below ts (n + 1)) (round s) fun r c =>
    r.elim (fun _ => c.Below ts n) fun _ => True) : Advances row round := by
  intro s c s' c' hc hround
  have hself : c.Below c.rest (c.rest.length + 1) :=
    ⟨List.suffix_refl _, Nat.lt_succ_self _, fun t ht => hc.inner t (hc.mem ht), hc.final_kind⟩
  have hbelow : c'.Below c.rest c.rest.length := h c.rest c.rest.length s c _ c' hself hround
  have hsuffix := hbelow.suffix.trans hc.suffix
  refine ⟨⟨hsuffix, Nat.lt_succ_of_le hsuffix.length_le, hc.inner, hbelow.final_kind⟩, ?_⟩
  obtain ⟨taken, htaken⟩ := hbelow.suffix
  refine ⟨taken, ?_, htaken.symm⟩
  rintro rfl
  have hlt := hbelow.length_lt
  rw [← htaken, List.nil_append] at hlt
  exact Nat.lt_irrefl _ hlt

theorem advances_of_rounds {I : σ → Prop} {Q : α → Prop}
    (h : ∀ ts s, Rounds d ts (round s) I Q) : Advances row round := by
  refine advances_of_ensures fun ts n s => (h ts s n).ensures.imp_right ?_
  rintro (s' | a) c hc
  · exact hc.2
  · trivial

/-- Statements that move make rounds that move on, as no round goes on at the end of input. -/
theorem advances_statement {statement : σ → Reading σ}
    (h : ∀ ts n s, Ensures (Cursor.Facing ts n) (statement s) fun _ c => c.Below ts n) :
    Advances row (statementRound statement) := by
  refine advances_of_ensures fun ts n s => .bind (ensures_look _) fun b =>
    .ite (fun _ => .pure fun _ _ => trivial) fun hb => ?_
  refine .bind ((h ts n s).imp (fun c hc => ⟨hc.2, fun hnil => ?_⟩) fun _ _ => id) fun _ =>
    .pure fun _ hc => hc
  rw [hc.1, Cursor.atEnd, hnil] at hb
  exact hb rfl

/-! ### Rounds that follow each other -/

/-- A number of rounds of a loop that go on, each where the one before it has left off. -/
inductive Repeats (round : σ → Reading (σ ⊕ α)) : Nat → σ → Cursor → σ → Cursor → Prop
  | none {s : σ} {c : Cursor} : Repeats round 0 s c s c
  | round {n : Nat} {s s₁ s' : σ} {c c₁ c' : Cursor} (h : round s c = .ok (.inl s₁, c₁))
      (hruns : Repeats round n s₁ c₁ s' c') : Repeats round (n + 1) s c s' c'

/-- Rounds that move on take at least one token each, so there are no more of them than tokens `row`
ahead. -/
theorem Repeats.add_length_le (hround : Advances row round) {s s' : σ} {c c' : Cursor}
    (h : Repeats round n s c s' c') (hc : c.Within row) :
    c'.Within row ∧ n + c'.rest.length ≤ c.rest.length := by
  induction h with
  | none => exact ⟨hc, (Nat.zero_add _).le⟩
  | @round n s s₁ s' c c₁ c' h hruns ih =>
    obtain ⟨hwithin, taken, hne, hrest⟩ := hround s c s₁ c₁ hc h
    obtain ⟨hc', hle⟩ := ih hwithin
    have hpos := List.length_pos_iff.2 hne
    have hlen := congrArg List.length hrest
    rw [List.length_append] at hlen
    exact ⟨hc', by omega⟩

/-- A reading comes to an end by rounds that start with `s`: behind as many rounds that go on as
there are tokens ahead, or fewer, one fails or gives a result, and so does the reading. -/
def ComesToEnd (round : σ → Reading (σ ⊕ α)) (s : σ) (x : Reading α) (c : Cursor) : Prop :=
  ∃ n s' c', Repeats round n s c s' c' ∧ n ≤ c.rest.length ∧
    ((∃ e, round s' c' = .error e ∧ x c = .error e) ∨
      ∃ a c'', round s' c' = .ok (.inr a, c'') ∧ x c = .ok (a, c''))

/-- A loop of rounds that move on ends as its last round does, so the check for a stall never fails
it. -/
theorem Advances.comesToEnd (hround : Advances row round) (s : σ) {c : Cursor}
    (hc : c.Within row) : ComesToEnd round s (loop round s) c := by
  -- the number of tokens ahead gets smaller with each round, whose check then never fails
  induction hlen : c.rest.length using Nat.strongRecOn generalizing s c with
  | _ len ih =>
    cases hx : round s c with
    | error e => exact ⟨0, s, c, .none, Nat.zero_le _, .inl ⟨e, hx, by rw [loop_apply, hx]⟩⟩
    | ok r =>
      obtain ⟨s₁ | a, c₁⟩ := r
      · have hrun := Repeats.round hx .none
        obtain ⟨hc₁, hle⟩ := hrun.add_length_le hround hc
        have hlt : c₁.rest.length < c.rest.length := by omega
        obtain ⟨n, s', c', hruns, hn, hlast⟩ := ih _ (hlen ▸ hlt) s₁ hc₁ rfl
        refine ⟨n + 1, s', c', .round hx hruns, by omega, ?_⟩
        rw [loop_inl hx hlt]
        exact hlast
      · exact ⟨0, s, c, .none, Nat.zero_le _, .inr ⟨a, c₁, hx, loop_inr hx⟩⟩

end Reading
end DiagramText
