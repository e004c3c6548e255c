import DiagramText.Proofs.Reading.Grammar

/-!
# Spellings

A spelling says which tokens stand for a value, whatever stands around them. A reading that looks
one token ahead takes such tokens, unless what follows would have it go on; so the spelling of a
reading comes with the kinds of tokens that must not follow.

* `Reading.Consumes`: a reading consumes the tokens of a spelling.
* `Reading.Consumes.bind` and `Reading.Consumes.separated` put spellings together.
* `Reading.Consumes.bind_end`: at the end of a statement nothing follows that a reading could go on
  with.
-/

namespace DiagramText.Reading

variable {α β : Type} {final : Token}

/-- The tokens that stand for a value, whatever stands behind them. -/
abbrev Spelling (α : Type) := List Token → α → Prop

/-- The reading `x` before the end of input `final` consumes the tokens of the spelling `S`, unless
a token of the kinds `stops` comes behind them. -/
structure Consumes (final : Token) (stops : List TokenKind) (x : Reading α) (S : Spelling α) :
    Prop where
  sound : ∀ past ts a c, x ⟨past, ts, final⟩ = .ok (a, c) →
    c.final = final ∧ ∃ taken, ts = taken ++ c.rest ∧ S taken a
  complete : ∀ past taken a us, S taken a → (next final us).kind ∉ stops →
    ∃ past', x ⟨past, taken ++ us, final⟩ = .ok (a, ⟨past', us, final⟩)

/-- What follows is not the start of something of the kinds `stops`, if neither the tokens in
between nor what is behind them start with it. -/
theorem next_append_kind {stops : List TokenKind} {taken us : List Token}
    (htaken : ∀ t ∈ taken.head?, t.kind ∉ stops) (hus : (next final us).kind ∉ stops) :
    (next final (taken ++ us)).kind ∉ stops := by
  cases taken with
  | nil => exact hus
  | cons t taken => exact htaken t rfl

namespace Consumes

variable {stops stops' : List TokenKind} {x : Reading α} {S S' : Spelling α}

theorem congr (h : Consumes final stops x S) (hS : ∀ ts a, S ts a ↔ S' ts a) :
    Consumes final stops x S' := by
  constructor
  · intro past ts a c hx
    obtain ⟨hfinal, taken, hts, hs⟩ := h.sound past ts a c hx
    exact ⟨hfinal, taken, hts, (hS _ _).1 hs⟩
  · intro past taken a us hs hstops
    exact h.complete past taken a us ((hS _ _).2 hs) hstops

/-- What is read as the grammar `G` says is read by the spelling `S`, if the two agree before all
that does not make the reading go on. -/
theorem of_parses {G : Grammar α} (h : Parses final x G)
    (hsound : ∀ ts a us, G ts a us → ∃ taken, ts = taken ++ us ∧ S taken a)
    (hcomplete : ∀ taken a us, S taken a → (next final us).kind ∉ stops → G (taken ++ us) a us) :
    Consumes final stops x S := by
  constructor
  · intro past ts a c hx
    obtain ⟨hfinal, hg⟩ := h.sound past ts a c hx
    exact ⟨hfinal, hsound _ _ _ hg⟩
  · intro past taken a us hs hstops
    exact h.complete past _ a us (hcomplete _ _ _ hs hstops)

theorem pure (a : α) : Consumes final stops (pure a) fun ts b => ts = [] ∧ b = a :=
  .of_parses (.pure a) (fun _ _ _ h => ⟨[], h.2.symm, rfl, h.1⟩)
    fun _ _ _ h _ => ⟨h.2, by rw [h.1, List.nil_append]⟩

theorem failAt (cause : ReadError.Cause) (position : Option Position) :
    Consumes final stops (Reading.failAt cause position : Reading α) fun _ _ => False :=
  .of_parses (.failAt cause position) (fun _ _ _ h => h.elim) fun _ _ _ h _ => h.elim

theorem expect (hfinal : final.kind = .endOfInput) {kind : TokenKind} (hkind : kind ≠ .endOfInput)
    (expected : String) : Consumes final stops (Reading.expect kind expected) fun ts t =>
      ts = [t] ∧ t.kind = kind :=
  .of_parses (.expect hfinal hkind expected) (fun _ t _ h => ⟨[t], h.2, rfl, h.1⟩)
    fun _ _ _ h _ => ⟨h.2, by rw [h.1, List.singleton_append]⟩

/-- One reading behind another: what the second takes must not make the first go on, nor may what
follows if the second takes nothing. The stops of the first are then stops of both. -/
theorem bind {f : α → Reading β} {T : α → Spelling β} (hx : Consumes final stops x S)
    (hf : ∀ a, Consumes final stops' (f a) (T a))
    (hnext : ∀ a ts b us, T a ts b → (next final us).kind ∉ stops' →
      (next final (ts ++ us)).kind ∉ stops) :
    Consumes final stops' (x >>= f) fun ts b => ∃ a us vs, ts = us ++ vs ∧ S us a ∧ T a vs b := by
  constructor
  · intro past ts b c h
    rw [bind_apply, Except.bind_eq_ok_iff] at h
    obtain ⟨⟨a, past₁, ms, final₁⟩, ha, hb⟩ := h
    obtain ⟨hfinal₁, us, hts, hs⟩ := hx.sound past ts a _ ha
    obtain rfl : final₁ = final := hfinal₁
    obtain ⟨hfinal, vs, hms, ht⟩ := (hf a).sound past₁ ms b c hb
    dsimp only at hts
    exact ⟨hfinal, us ++ vs, by rw [hts, hms, List.append_assoc], a, us, vs, rfl, hs, ht⟩
  · rintro past _ b ws ⟨a, us, vs, rfl, hs, ht⟩ hstops
    obtain ⟨past₁, ha⟩ := hx.complete past us a (vs ++ ws) hs (hnext a vs b ws ht hstops)
    obtain ⟨past₂, hb⟩ := (hf a).complete past₁ vs b ws ht hstops
    refine ⟨past₂, ?_⟩
    rw [bind_apply, List.append_assoc, ha]
    exact hb

theorem map (h : Consumes final stops x S) (f : α → β) :
    Consumes final stops (x >>= fun a => Pure.pure (f a)) fun ts b => ∃ a, S ts a ∧ b = f a := by
  refine (h.bind (fun a => pure (f a)) ?_).congr fun ts b => ?_
  · rintro a _ b us ⟨rfl, -⟩ hus
    exact hus
  · constructor
    · rintro ⟨a, us, _, rfl, hs, rfl, rfl⟩
      exact ⟨a, by rwa [List.append_nil], rfl⟩
    · rintro ⟨a, hs, rfl⟩
      exact ⟨a, ts, [], (List.append_nil _).symm, hs, rfl, rfl⟩

/-- A token of a `kind` that has to come first, and then what is read behind it. -/
theorem expect_bind {f : Token → Reading β} {T : Token → Spelling β}
    (hfinal : final.kind = .endOfInput) {kind : TokenKind} (hkind : kind ≠ .endOfInput)
    {expected : String} (hf : ∀ t, Consumes final stops (f t) (T t)) :
    Consumes final stops (Reading.expect kind expected >>= f) fun ts b =>
      ∃ t us, ts = t :: us ∧ t.kind = kind ∧ T t us b := by
  have hexpect : Consumes final [] (Reading.expect kind expected) fun ts t =>
      ts = [t] ∧ t.kind = kind := expect hfinal hkind expected
  refine (hexpect.bind hf fun _ _ _ _ _ _ => List.not_mem_nil).congr fun ts b => ?_
  constructor
  · rintro ⟨t, _, us, rfl, ⟨rfl, ht⟩, h⟩
    exact ⟨t, us, rfl, ht, h⟩
  · rintro ⟨t, us, rfl, ht, h⟩
    exact ⟨t, [t], us, rfl, ⟨rfl, ht⟩, h⟩

/-- A token of a `kind` that may come first. If it is missing, what comes instead must not look like
it. -/
theorem accept_bind {f : Option Token → Reading β} {T : Option Token → Spelling β}
    (hfinal : final.kind = .endOfInput) {kind : TokenKind} (hkind : kind ≠ .endOfInput)
    (hf : ∀ t, Consumes final stops (f t) (T t))
    (hnext : ∀ ts b us, T none ts b → (next final us).kind ∉ stops →
      (next final (ts ++ us)).kind ≠ kind) :
    Consumes final stops (Reading.accept kind >>= f) fun ts b =>
      ∃ t us, ts = t.toList ++ us ∧ (∀ u ∈ t, u.kind = kind) ∧ T t us b := by
  have haccept := Parses.accept hfinal hkind
  constructor
  · intro past ts b c h
    rw [bind_apply, Except.bind_eq_ok_iff] at h
    obtain ⟨⟨t, past₁, ms, final₁⟩, ht, hb⟩ := h
    obtain ⟨hfinal₁, ht⟩ := haccept.sound past ts t _ ht
    obtain rfl : final₁ = final := hfinal₁
    obtain ⟨hc, us, hms, h⟩ := (hf t).sound past₁ ms b c hb
    dsimp only at ht
    -- the token is taken, or it is not there
    rcases ht with ⟨u, rfl, hu, rfl⟩ | ⟨rfl, -, rfl⟩
    · exact ⟨hc, u :: us, by rw [hms, List.cons_append], some u, us, rfl,
        fun v hv => Option.some.inj hv ▸ hu, h⟩
    · exact ⟨hc, us, hms, none, us, rfl, nofun, h⟩
  · rintro past _ b ws ⟨t, us, rfl, ht, h⟩ hstops
    -- it is taken if it is spelled, and otherwise what comes does not look like it
    have htaken : ∃ past₁, Reading.accept kind ⟨past, t.toList ++ us ++ ws, final⟩ =
        .ok (t, ⟨past₁, us ++ ws, final⟩) := by
      apply haccept.complete
      cases t with
      | none => exact .inr ⟨rfl, hnext us b ws h hstops, rfl⟩
      | some u => exact .inl ⟨u, rfl, ht u rfl, rfl⟩
    obtain ⟨past₁, ht⟩ := htaken
    obtain ⟨past₂, hb⟩ := (hf t).complete past₁ us b ws h hstops
    refine ⟨past₂, ?_⟩
    rw [bind_apply, ht]
    exact hb

/-- A reading to the end of a statement goes on with nothing, where it would go on only inside a
statement. So nothing has to be known of what follows. -/
theorem bind_end {f : α → Reading β} {K : α → Grammar β} (hfinal : final.kind = .endOfInput)
    (hx : Consumes final stops x S) (hstops : ∀ kind ∈ stops, kind.endsStatement = false)
    (hf : ∀ a, Parses final (f a) (K a)) :
    Parses final (x >>= fun a => Reading.endStatement >>= fun _ => f a) fun ts b ws =>
      ∃ a taken us vs, ts = taken ++ us ∧ S taken a ∧ Ends us vs ∧ K a vs b ws := by
  have hrest : ∀ a, Parses final (Reading.endStatement >>= fun _ => f a) fun us b ws =>
      ∃ vs, Ends us vs ∧ K a vs b ws := fun a =>
    ((Parses.endStatement hfinal).bind fun _ => hf a).congr fun us b ws => by simp
  constructor
  · intro past ts b c h
    rw [bind_apply, Except.bind_eq_ok_iff] at h
    obtain ⟨⟨a, past₁, us, final₁⟩, ha, hb⟩ := h
    obtain ⟨hfinal₁, taken, hts, hs⟩ := hx.sound past ts a _ ha
    obtain rfl : final₁ = final := hfinal₁
    obtain ⟨hc, vs, hend, hk⟩ := (hrest a).sound past₁ us b c hb
    exact ⟨hc, a, taken, us, vs, hts, hs, hend, hk⟩
  · rintro past _ b ws ⟨a, taken, us, vs, rfl, hs, hend, hk⟩
    -- the next token ends the statement, and no stop does
    have hnext : (next final us).kind ∉ stops := fun hmem => by
      have hends := hend.next_kind hfinal
      rw [hstops _ hmem] at hends
      cases hends
    obtain ⟨past₁, ha⟩ := hx.complete past taken a us hs hnext
    obtain ⟨past₂, hb⟩ := (hrest a).complete past₁ us b ws ⟨vs, hend, hk⟩
    refine ⟨past₂, ?_⟩
    rw [bind_apply, ha]
    exact hb

end Consumes

/-! ### Items behind separators -/

/-- Reads one more item if a `separator` is next. The item may look at the separator. -/
def separatedItem (separator : TokenKind) (item : Token → Reading α) (as : List α) :
    Reading (List α ⊕ List α) := do
  match ← accept separator with
  | none => return .inr as
  | some t => return .inl (as ++ [← item t])

/-- Reads items, each behind a `separator`, and puts them behind those that there are. -/
def separated (separator : TokenKind) (item : Token → Reading α) : List α → Reading (List α) :=
  loop (separatedItem separator item)

/-- The tokens of any number of items, each behind its `separator`. -/
inductive Separated (separator : TokenKind) (S : Token → Spelling α) : Spelling (List α)
  | nil : Separated separator S [] []
  | cons {t : Token} {ts us : List Token} {a : α} {as : List α} (ht : t.kind = separator)
      (ha : S t ts a) (has : Separated separator S us as) :
      Separated separator S (t :: (ts ++ us)) (a :: as)

variable {separator : TokenKind}

theorem Separated.head_kind {S : Token → Spelling α} {ts : List Token} {as : List α}
    (h : Separated separator S ts as) : ∀ t ∈ ts.head?, t.kind = separator := by
  cases h with
  | nil => exact nofun
  | cons ht =>
    rintro _ ⟨⟩
    exact ht

section Separated

variable {item : Token → Reading α} {past ts : List Token} {t : Token} {as : List α}

theorem separated_of_next_ne (hfinal : final.kind = .endOfInput) (hkind : separator ≠ .endOfInput)
    (hnext : (next final ts).kind ≠ separator) :
    separated separator item as ⟨past, ts, final⟩ = .ok (as, ⟨past, ts, final⟩) := by
  refine loop_inr ?_
  rw [separatedItem, bind_apply]
  cases ts with
  | nil =>
    rw [accept_nil (hfinal ▸ hkind.symm)]
    rfl
  | cons t ts =>
    rw [next_cons] at hnext
    rw [accept_cons, if_neg hnext]
    rfl

theorem separated_cons (ht : t.kind = separator) :
    separated separator item as ⟨past, t :: ts, final⟩ =
      (item t ⟨t :: past, ts, final⟩).bind fun r =>
        if r.2.rest.length < (t :: ts).length then separated separator item (as ++ [r.1]) r.2
        else .error .stalled := by
  have hitem : separatedItem separator item as ⟨past, t :: ts, final⟩ =
      (item t ⟨t :: past, ts, final⟩).bind fun r => .ok (.inl (as ++ [r.1]), r.2) := by
    rw [separatedItem, bind_apply, accept_cons, if_pos ht]
    rfl
  rw [separated, loop_apply, hitem]
  cases item t ⟨t :: past, ts, final⟩ with
  | error e => rfl
  | ok r => rfl

end Separated

/-- Items are taken one after the other, up to where no separator follows. The `stops` of an item
and the separator are the stops of all. -/
theorem Consumes.separated {stops : List TokenKind} {item : Token → Reading α}
    {S : Token → Spelling α} (hfinal : final.kind = .endOfInput) (hkind : separator ≠ .endOfInput)
    (hitem : ∀ t, Consumes final stops (item t) (S t)) (hstops : separator ∉ stops) (as : List α) :
    Consumes final (separator :: stops) (Reading.separated separator item as) fun ts bs =>
      ∃ more, bs = as ++ more ∧ Separated separator S ts more := by
  constructor
  · intro past ts bs c h
    -- each item leaves fewer tokens
    induction hlen : ts.length using Nat.strongRecOn generalizing as past ts with
    | _ len ih =>
      by_cases hnext : (next final ts).kind = separator
      · cases ts with
        | nil => exact absurd (hnext.symm.trans hfinal) hkind
        | cons t ts =>
          rw [next_cons] at hnext
          rw [separated_cons hnext, Except.bind_eq_ok_iff] at h
          obtain ⟨⟨a, past', us, final'⟩, ha, h⟩ := h
          obtain ⟨hfinal', taken, hts, hs⟩ := (hitem t).sound _ _ _ _ ha
          obtain rfl : final' = final := hfinal'
          split at h
          · next hlt =>
            obtain ⟨hc, taken', hus, more, hbs, hmore⟩ := ih us.length (hlen ▸ hlt) _ past' us h rfl
            refine ⟨hc, t :: (taken ++ taken'), ?_, a :: more, ?_, .cons hnext hs hmore⟩
            · dsimp only at hts
              rw [hts, hus, List.cons_append, List.append_assoc]
            · rw [hbs, List.append_assoc, List.singleton_append]
          · cases h
      · rw [separated_of_next_ne hfinal hkind hnext] at h
        cases h
        exact ⟨rfl, [], rfl, [], (List.append_nil _).symm, .nil⟩
  · rintro past taken _ us ⟨more, rfl, hmore⟩ hnext
    obtain ⟨hne, hus⟩ := not_or.1 (List.mem_cons.not.1 hnext)
    induction hmore generalizing as past with
    | nil =>
      rw [List.append_nil]
      exact ⟨past, separated_of_next_ne hfinal hkind hne⟩
    | @cons t ts rest a more ht ha hrest ih =>
      have hfollow : (next final (rest ++ us)).kind ∉ stops :=
        next_append_kind (fun u hu => hrest.head_kind u hu ▸ hstops) hus
      obtain ⟨past₁, h₁⟩ := (hitem t).complete (t :: past) ts a (rest ++ us) ha hfollow
      obtain ⟨past₂, h₂⟩ := ih (as ++ [a]) past₁
      refine ⟨past₂, ?_⟩
      rw [List.cons_append, separated_cons ht, List.append_assoc, h₁]
      show (if _ then _ else _) = _
      rw [if_pos, h₂, List.append_assoc, List.singleton_append]
      simp only [List.length_append, List.length_cons]
      omega

end DiagramText.Reading
