import DiagramText.Proofs.Reading.Progress

/-!
# Where statements start

What a statement mentions can be told from the tokens ahead where it starts. A reader of statements
starts one after the other, so the whole of what is mentioned is found at its starts.

* `Cursor.Behind`: the tokens that were passed since a statement started.
* `Reading.statementStarts`: the tokens ahead where each statement starts.
* `Reading.untilEnd_starts_cursor`: what each statement makes of its start and leaves at its cursor
  is known at the end of input.
* `Reading.untilEnd_starts`, `Reading.startsBehind_spec` and `Reading.startsAfter_spec`: what each
  statement makes of its start is known at the end of input.
-/

namespace DiagramText

/-- Of the tokens `ts` those in `passed` were passed, and the others are ahead. -/
def Cursor.Behind (ts passed : List Token) (c : Cursor) : Prop :=
  ts = passed ++ c.rest ∧ c.final.kind = .endOfInput

namespace Reading

variable {α σ : Type} {ts passed row : List Token} {kind : TokenKind}

/-! ### Tokens passed -/

theorem behind_advance {c c' : Cursor} {t : Token} (hc : c.Behind ts passed)
    (hkind : c.peek.kind ≠ .endOfInput) (h : advance c = .ok (t, c')) :
    t = c.peek ∧ c'.Behind ts (passed ++ [t]) := by
  obtain ⟨past, rest, final⟩ := c
  cases rest with
  | nil => exact absurd hc.2 hkind
  | cons u us =>
    cases h
    refine ⟨rfl, ?_, hc.2⟩
    rw [hc.1, List.append_assoc]
    rfl

/-- A token that is taken because of its kind is passed. -/
theorem ensures_expectAny_behind {kinds : List TokenKind} (hkinds : .endOfInput ∉ kinds)
    (expected : String) : Ensures (Cursor.Behind ts passed) (expectAny kinds expected)
      fun t c => t.kind ∈ kinds ∧ c.Behind ts (passed ++ [t]) := by
  intro c t c' hc hx
  rw [expectAny, bind_apply, check_apply] at hx
  dsimp only [Except.bind] at hx
  split at hx
  · next hcheck =>
    have hmem : c.peek.kind ∈ kinds := List.contains_iff_mem.1 hcheck
    have hne : c.peek.kind ≠ .endOfInput := fun h => hkinds (h ▸ hmem)
    obtain ⟨rfl, hc'⟩ := behind_advance hc hne hx
    exact ⟨hmem, hc'⟩
  · rw [fail_apply] at hx
    cases hx

theorem ensures_expect_behind (hkind : kind ≠ .endOfInput) (expected : String) :
    Ensures (Cursor.Behind ts passed) (expect kind expected)
      fun t c => t.kind = kind ∧ c.Behind ts (passed ++ [t]) := by
  have hany : Ensures (Cursor.Behind ts passed) (expectAny [kind] expected) _ :=
    ensures_expectAny_behind (by simpa using hkind.symm) expected
  intro c t c' hc hx
  obtain ⟨hmem, hc'⟩ := hany c t c' hc hx
  exact ⟨List.mem_singleton.1 hmem, hc'⟩

theorem ensures_accept_behind (hkind : kind ≠ .endOfInput) :
    Ensures (Cursor.Behind ts passed) (accept kind)
      fun t c => (∀ u ∈ t, u.kind = kind) ∧ c.Behind ts (passed ++ t.toList) := by
  intro c t c' hc hx
  rw [accept, bind_apply, check_apply] at hx
  dsimp only [Except.bind] at hx
  split at hx
  · next hcheck =>
    have hpeek : c.peek.kind = kind := by simpa using hcheck
    rw [map_apply, Except.bind_eq_ok_iff] at hx
    obtain ⟨⟨u, c₁⟩, hadvance, hsome⟩ := hx
    cases hsome
    obtain ⟨rfl, hc'⟩ := behind_advance hc (hpeek ▸ hkind) hadvance
    exact ⟨fun v hv => Option.some.inj hv ▸ hpeek, hc'⟩
  · cases hx
    refine ⟨by simp, ?_⟩
    rw [Option.toList_none, List.append_nil]
    exact hc

theorem ensures_expectWord_behind (word : String) : Ensures (Cursor.Behind ts passed)
    (expectWord word) fun t c => t.kind = .identifier ∧ c.Behind ts (passed ++ [t]) := by
  intro c t c' hc hx
  rw [expectWord, bind_apply, checkWord, look_apply] at hx
  dsimp only [Except.bind] at hx
  split at hx
  · next hword =>
    have hkind : c.peek.kind = .identifier := beq_iff_eq.1 (Bool.and_eq_true_iff.1 hword).1
    obtain ⟨rfl, hc'⟩ := behind_advance hc (by rw [hkind]; decide) hx
    exact ⟨hkind, hc'⟩
  · rw [fail_apply] at hx
    cases hx

/-- The tokens that were passed are the first ones, so this may be used. -/
theorem Ensures.of_behind {x : Reading α} {Q : α → Cursor → Prop}
    (h : passed <+: ts → Ensures (Cursor.Behind ts passed) x Q) :
    Ensures (Cursor.Behind ts passed) x Q :=
  fun c a c' hc hx => h ⟨c.rest, hc.1.symm⟩ c a c' hc hx

/-- The tokens that were passed are the first ones, whatever is behind them and wherever the reading
leads. -/
theorem ensures_of_behind {x : Reading α} {Q : α → Cursor → Prop}
    (h : passed <+: ts → Ensures (fun _ => True) x Q) : Ensures (Cursor.Behind ts passed) x Q :=
  .of_behind fun hpassed => (h hpassed).imp (fun _ _ => trivial) fun _ _ => id

/-- The first of the tokens ahead, `t`, is passed, of whatever kind it is. -/
theorem ensures_advance_behind (passed : List Token) {t : Token} {us : List Token} :
    Ensures (Cursor.Behind (passed ++ t :: us) passed) advance
      fun u c => u = t ∧ c.Behind (passed ++ t :: us) (passed ++ [t]) := by
  rintro ⟨past, rest, final⟩ u c' ⟨hrest, hfinal⟩ hx
  obtain rfl : rest = t :: us := (List.append_cancel_left hrest).symm
  cases hx
  refine ⟨rfl, ?_, hfinal⟩
  rw [List.append_assoc]
  rfl

/-- Where the first of the tokens ahead may be taken, it is known whether it is: its `kind`
decides. -/
theorem ensures_accept_bind_behind (passed : List Token) {t : Token} {us : List Token}
    {f : Option Token → Reading α} {R : α → Cursor → Prop}
    (hsome : t.kind = kind →
      Ensures (Cursor.Behind (passed ++ t :: us) (passed ++ [t])) (f (some t)) R)
    (hnone : t.kind ≠ kind → Ensures (Cursor.Behind (passed ++ t :: us) passed) (f none) R) :
    Ensures (Cursor.Behind (passed ++ t :: us) passed) (accept kind >>= f) R := by
  rintro ⟨past, rest, final⟩ a c' ⟨hrest, hfinal⟩ hx
  obtain rfl : rest = t :: us := (List.append_cancel_left hrest).symm
  rw [bind_apply, accept_cons] at hx
  split at hx
  · next hkind =>
    refine hsome hkind ⟨t :: past, us, final⟩ a c' ⟨?_, hfinal⟩ hx
    rw [List.append_assoc]
    rfl
  · next hkind => exact hnone hkind _ a c' ⟨rfl, hfinal⟩ hx

/-- A check looks at the first of the tokens ahead, if there is one. The end of input passes it in
no case. -/
theorem ensures_check_behind (passed : List Token) {us : List Token} {kinds : List TokenKind}
    (hkinds : .endOfInput ∉ kinds) : Ensures (Cursor.Behind (passed ++ us) passed) (check kinds)
      fun b c => b = us.head?.any (kinds.contains ·.kind) ∧ c.Behind (passed ++ us) passed := by
  rintro ⟨past, rest, final⟩ b c' ⟨hrest, hfinal⟩ hx
  obtain rfl : rest = us := (List.append_cancel_left hrest).symm
  cases hx
  refine ⟨?_, rfl, hfinal⟩
  cases rest with
  | nil =>
    have hnone : kinds.contains final.kind = false := by
      rw [show final.kind = _ from hfinal]
      simpa using hkinds
    exact hnone
  | cons t us => rfl

/-- Where a statement starts, the first of its tokens `us` is next. -/
theorem ensures_peek_behind {t : Token} {us : List Token} :
    Ensures (Cursor.Behind (t :: us) []) peek fun u c => u = t ∧ c.Behind (t :: us) [] := by
  rintro ⟨past, rest, final⟩ u c' ⟨hrest, hfinal⟩ hx
  obtain rfl : rest = t :: us := hrest.symm
  cases hx
  exact ⟨rfl, rfl, hfinal⟩

/-- Where a statement starts, the second of its tokens `us` is one ahead, or the end of input is if
there is only one. -/
theorem ensures_second_behind {t : Token} {us : List Token} :
    Ensures (Cursor.Behind (t :: us) []) (ahead 1) fun u c =>
      ((us = [] ∧ u.kind = .endOfInput) ∨ ∃ ws, us = u :: ws) ∧ c.Behind (t :: us) [] := by
  rintro ⟨past, rest, final⟩ u c' ⟨hrest, hfinal⟩ hx
  obtain rfl : rest = t :: us := hrest.symm
  cases hx
  refine ⟨?_, rfl, hfinal⟩
  cases us with
  | nil => exact .inl ⟨rfl, hfinal⟩
  | cons v ws => exact .inr ⟨ws, rfl⟩

/-- A test `f` that the end of input passes looks at the second of the tokens, if there is one. -/
theorem all_head?_eq {u : Token} {us : List Token}
    (h : (us = [] ∧ u.kind = .endOfInput) ∨ ∃ ws, us = u :: ws) {f : TokenKind → Bool}
    (hf : f .endOfInput = true) : us.head?.all (f ·.kind) = f u.kind := by
  rcases h with ⟨rfl, hkind⟩ | ⟨ws, rfl⟩
  · rw [hkind, hf]
    rfl
  · rfl

/-! ### Bodies -/

/-- What every line of a body keeps is known behind its closing brace, whatever the cursor does. -/
theorem ensures_body {line : σ → Reading σ} {I : σ → Prop}
    (h : ∀ s, I s → Ensures (fun _ => True) (line s) fun s' _ => I s') (cause : ReadError.Cause)
    (s : σ) : Ensures (fun _ => I s) (loop (bodyRound line cause) s) fun s' _ => I s' := by
  have hround : ∀ s, I s → Ensures (fun _ => True) (bodyRound line cause s)
      fun r _ => r.elim I I := by
    intro s hs
    refine .bind .unknown fun _ => .look_bind fun _ => .ite (fun _ => ?_) fun _ => ?_
    · exact .look_bind fun _ => .failAt _ _
    refine .bind .unknown fun _ => .ite (fun _ => ?_) fun _ => ?_
    · exact .bind .unknown fun _ => .pure fun _ _ => hs
    · exact .bind (h s hs) fun s' => .pure fun _ hs' => hs'
  refine Ensures.loop (I := fun s _ => I s) (Q := fun s _ => I s) ?_ s
  intro s c r c' hs hx
  have hr := hround s hs c r c' trivial hx
  cases r <;> exact hr

/-! ### Starts -/

/-- The tokens ahead where each statement starts, up to the first that is not read. All tokens up to
the end are in each of them. -/
def statementStarts (statement : σ → Reading σ) (s : σ) (c : Cursor) : List (List Token) :=
  if c.rest = [] then []
  else match statement s c with
    | .error _ => []
    | .ok (s', c') =>
      if c'.rest.length < c.rest.length then c.rest :: statementStarts statement s' c' else []
termination_by c.rest.length

/-- What each statement keeps of the result, of the starts behind it and of the cursor is known at
the end of input. Since `untilEnd` stops at a statement that takes no token, the statements need not
be known to move on. -/
theorem untilEnd_starts_cursor {statement : σ → Reading σ}
    {I : σ → List (List Token) → Cursor → Prop}
    (hstep : ∀ s starts ts, ts ≠ [] → Ensures (fun c => I s starts c ∧ c.rest = ts) (statement s)
      fun s' c => I s' (starts ++ [ts]) c)
    {s e : σ} {c c' : Cursor} {starts : List (List Token)} (hs : I s starts c)
    (h : untilEnd statement s c = .ok (e, c')) :
    I e (starts ++ statementStarts statement s c) c' := by
  -- The induction is on the tokens left: each statement has taken one before the next starts.
  induction hlen : c.rest.length using Nat.strongRecOn generalizing s starts c with
  | _ len ih =>
    rw [statementStarts]
    obtain ⟨past, rest, final⟩ := c
    cases rest with
    | nil =>
      rw [untilEnd_nil] at h
      cases h
      rw [if_pos rfl, List.append_nil]
      exact hs
    | cons t us =>
      obtain ⟨s', c₁, hx, hlt, h⟩ := exists_of_untilEnd_cons h
      have hs' := hstep s starts (t :: us) (List.cons_ne_nil t us) _ s' c₁ ⟨hs, rfl⟩ hx
      have hnext := ih _ (hlen ▸ hlt) hs' h rfl
      rw [if_neg (List.cons_ne_nil t us), hx]
      dsimp only
      rw [if_pos hlt]
      rwa [List.append_assoc] at hnext

/-- If each statement keeps what is known of the result and of the starts behind it, here `I`, this
is known at the end of input. -/
theorem untilEnd_starts {statement : σ → Reading σ}
    (hmoves : ∀ ts n s, Ensures (Cursor.Facing ts n) (statement s) fun _ c => c.Below ts n)
    {I : σ → List (List Token) → Prop}
    (hstep : ∀ s starts t us, t :: us <:+ row → I s starts →
      Ensures (Cursor.Behind (t :: us) []) (statement s) fun s' _ => I s' (starts ++ [t :: us]))
    {s e : σ} {c c' : Cursor} {starts : List (List Token)} (hs : I s starts) (hc : c.Within row)
    (h : untilEnd statement s c = .ok (e, c')) : I e (starts ++ statementStarts statement s c) := by
  refine (untilEnd_starts_cursor (I := fun s starts c => I s starts ∧ c.Within row)
    ?_ ⟨hs, hc⟩ h).1
  rintro s starts ts hne ⟨past, rest, final⟩ s' c₁ ⟨⟨hs, hc⟩, rfl⟩ hx
  obtain ⟨t, us, rfl⟩ := List.exists_cons_of_ne_nil hne
  -- what is ahead is taken as the row itself, so that each statement leaves less of it
  have hfacing : (⟨past, t :: us, final⟩ : Cursor).Facing (t :: us) (t :: us).length :=
    ⟨⟨List.suffix_refl _, Nat.lt_succ_self _, fun u hu => hc.inner u (hc.mem hu),
      hc.final_kind⟩, hne⟩
  have hbelow := hmoves _ _ s _ s' c₁ hfacing hx
  refine ⟨hstep s starts t us hc.suffix hs _ s' c₁ ⟨rfl, hc.final_kind⟩ hx,
    hbelow.suffix.trans hc.suffix, ?_, hc.inner, hbelow.final_kind⟩
  exact Nat.lt_succ_of_le (hbelow.suffix.trans hc.suffix).length_le

/-- The tokens ahead where each statement starts behind a `header`, from which the first of them
goes on. -/
def startsBehind (header : Reading σ) (statement : σ → Reading σ) (c : Cursor) :
    List (List Token) :=
  match header c with
  | .ok (s, c) => statementStarts statement s c
  | .error _ => []

/-- If each statement keeps what is known of the result and of the starts behind it, here `I`, this
is known of what is read behind a `header`. -/
theorem startsBehind_spec {header : Reading σ} {statement : σ → Reading σ}
    {I : σ → List (List Token) → Prop}
    (hheader : Ensures (Cursor.Within row) header fun s c => I s [] ∧ c.Within row)
    (hmoves : ∀ ts n s, Ensures (Cursor.Facing ts n) (statement s) fun _ c => c.Below ts n)
    (hstep : ∀ s starts t us, t :: us <:+ row → I s starts →
      Ensures (Cursor.Behind (t :: us) []) (statement s) fun s' _ => I s' (starts ++ [t :: us]))
    {e : σ} {c c' : Cursor} (hc : c.Within row)
    (h : (header >>= untilEnd statement) c = .ok (e, c')) :
    I e (startsBehind header statement c) := by
  rw [bind_apply, Except.bind_eq_ok_iff] at h
  obtain ⟨⟨s, c₁⟩, hx, h⟩ := h
  obtain ⟨hs, hc₁⟩ := hheader c s c₁ hc hx
  have hstarts := untilEnd_starts hmoves hstep hs hc₁ h
  rwa [List.nil_append, ← show startsBehind header statement c = statementStarts statement s c₁ by
    rw [startsBehind, hx]] at hstarts

/-- The tokens ahead where each statement behind a `header` starts, with `s` as what is read
there. -/
def startsAfter (header : Reading Unit) (statement : σ → Reading σ) (s : σ) (c : Cursor) :
    List (List Token) :=
  match header c with
  | .ok (_, c) => statementStarts statement s c
  | .error _ => []

/-- What is known of starts behind a `header` is known where the header gives nothing to go on
from. -/
theorem startsAfter_spec {header : Reading Unit} {statement : σ → Reading σ}
    (hheader : ∀ ts n, Ensures (Cursor.Below ts n) header fun _ c => c.Below ts n)
    (hmoves : ∀ ts n s, Ensures (Cursor.Facing ts n) (statement s) fun _ c => c.Below ts n)
    {I : σ → List (List Token) → Prop}
    (hstep : ∀ s starts t us, I s starts →
      Ensures (Cursor.Behind (t :: us) []) (statement s) fun s' _ => I s' (starts ++ [t :: us]))
    {s e : σ} {c c' : Cursor} (hs : I s []) (hc : c.Within row)
    (h : (header >>= fun _ => untilEnd statement s) c = .ok (e, c')) :
    I e (startsAfter header statement s c) := by
  have hstarts : startsBehind (header >>= fun _ => pure s) statement c =
      startsAfter header statement s c := by
    rw [startsBehind, startsAfter, bind_apply]
    cases header c <;> rfl
  have hread : ((header >>= fun _ => pure s) >>= untilEnd statement) c = .ok (e, c') := by
    rw [bind_assoc]
    exact h
  rw [← hstarts]
  refine startsBehind_spec ?_ hmoves (fun s starts t us _ => hstep s starts t us) hc hread
  exact .bind (hheader _ _) fun _ => .pure fun _ hc => ⟨hs, hc⟩

end Reading
end DiagramText
