import DiagramText.Proofs.Reading.Unclosed
import DiagramText.Proofs.States.Located
import DiagramText.Proofs.States.Mentions
import DiagramText.Proofs.States.Steady

/-!
# Scopes that are left open

The scope of a state spans statements. It has no position of its own: where it is left open, it is
said to be opened where its state is, which is where the state was mentioned first.

* `States.brackets`: the statements that open and close scopes.
* `States.mentionedAt`: the tokens of the states that a statement mentions.
* `States.ensures_statement_registers`: what one statement mentions, opens and closes.
* `States.openedAt_of_unterminated`: where the innermost scope is said to be opened.
-/

namespace DiagramText.States

open Reading

/-! ### Statements -/

/-- The token of the state that a declaration is about, which a label in quotes may come before. -/
def declared? : List Token → Option Token
  | t :: u :: us =>
    if t.isWord ["state"] then
      match u.kind with
      | .identifier => some u
      | .string => us[1]?
      | _ => none
    else none
  | _ => none

/-- Whether a brace is among the tokens `us` up to the end of a statement, which is where a
declaration may have one. -/
def hasBrace (us : List Token) : Bool :=
  (us.takeWhile (!·.kind.endsStatement)).any (·.kind == .leftBrace)

/-- A scope is opened by the declaration of a state with a brace, and closed by a statement that
starts with a brace. -/
def brackets : Brackets where
  opens us := (declared? us).isSome && hasBrace us
  closes us := us.head?.any (·.kind == .rightBrace)

/-- The tokens of the states that a statement mentions, by the tokens where it starts. The kinds and
words of the first two tell which statement it is. -/
def mentionedAt : List Token → List Token
  | t :: u :: us =>
    if t.isWord ["state"] && (u.kind = .identifier || u.kind = .string) then
      (declared? (t :: u :: us)).toList
    else if t.isWord ["note"] && u.isWord ["left", "right"] then us[1]?.toList
    else if t.isWord ["direction"] && u.kind = .identifier then []
    else if (t.kind = .pseudostate || t.kind = .identifier) && u.kind = .transition then
      (t :: us.head?.toList).filter (·.kind = .identifier)
    else [t].filter (·.kind = .identifier)
  | us => us.filter (·.kind = .identifier)

/-- The token that is the first to mention the state with an `id`, by the tokens where statements
start. -/
def firstMention? (starts : List (List Token)) (id : String) : Option Token :=
  (starts.flatMap mentionedAt).find? (·.text == id)

variable {d e : Draft} {ts passed us known : List Token} {t u : Token}
  {owners : List (Option String)}

/-- A statement that starts with a token `t` of another kind mentions nothing and declares
nothing. -/
theorem mentionedAt_of_kind (hkind : t.kind ≠ .identifier ∧ t.kind ≠ .pseudostate) :
    mentionedAt (t :: us) = [] ∧ declared? (t :: us) = none := by
  cases us <;> simp [mentionedAt, declared?, isWord_of_kind hkind.1, hkind.1, hkind.2]

/-- Only the declaration of a state declares one, and it starts with the word `state`. -/
theorem declared?_eq_none
    (h : ¬(t.isWord ["state"] && (u.kind = .identifier || u.kind = .string)) = true) :
    declared? (t :: u :: us) = none := by
  rw [declared?]
  split
  · next ht =>
    rw [ht, Bool.true_and, Bool.or_eq_true, decide_eq_true_eq, decide_eq_true_eq, not_or] at h
    split
    · next hu => exact absurd hu h.1
    · next hu => exact absurd hu h.2
    · rfl
  · rfl

theorem opens_of_declared? (h : declared? ts = none) : brackets.opens ts = false := by
  show ((declared? ts).isSome && _) = false
  rw [h]
  rfl

/-- A statement that declares no state and does not start with a brace leaves the `opened` scopes as
they are. -/
theorem push_of_declared? {α : Type} {block : α} {opened : List α}
    (h : declared? (t :: us) = none) (ht : t.kind ≠ .rightBrace) :
    brackets.push (t :: us) block opened = opened :=
  Brackets.push_of_neither (opens_of_declared? h) (beq_eq_false_iff_ne.2 ht)

/-- The places of a draft that has registered what came before a statement, and what the statement
mentions and opens: `Draft.Registers` with both added. -/
def Draft.RegistersAfter (d : Draft) (known : List Token) (owners : List (Option String))
    (us : List Token) : Prop :=
  d.Registers (known ++ mentionedAt us) (brackets.push us ((declared? us).map Token.text) owners)

/-- A statement that starts with a mark `t` mentions nothing and leaves the open scopes as they
are. -/
theorem registersAfter_of_mark (ht : t.kind ∉ [.identifier, .pseudostate, .rightBrace])
    (hd : d.Registers known owners) : d.RegistersAfter known owners (t :: us) := by
  simp only [List.mem_cons, List.not_mem_nil, or_false, not_or] at ht
  obtain ⟨hmentioned, hdeclared⟩ : mentionedAt (t :: us) = [] ∧ declared? (t :: us) = none :=
    mentionedAt_of_kind ⟨ht.1, ht.2.1⟩
  rwa [Draft.RegistersAfter, hmentioned, List.append_nil, push_of_declared? hdeclared ht.2.2]

/-- A statement that starts with a closing brace `t` closes the innermost scope, and mentions
nothing. -/
theorem registersAfter_of_close (ht : t.kind = .rightBrace) (hd : d.Registers known owners) :
    d.closeScope.RegistersAfter known owners (t :: us) := by
  obtain ⟨hmentioned, hdeclared⟩ : mentionedAt (t :: us) = [] ∧ declared? (t :: us) = none :=
    mentionedAt_of_kind (by rw [ht]; decide)
  rw [Draft.RegistersAfter, hmentioned, List.append_nil,
    Brackets.push_of_closes (opens_of_declared? hdeclared) (beq_iff_eq.2 ht)]
  exact hd.closeScope

/-- A statement that declares no state and does not start with a brace registers the states that it
mentions in the scopes that are open. -/
theorem registersAfter_of_mentionedAt (hmentioned : mentionedAt (t :: us) = passed)
    (hdeclared : declared? (t :: us) = none) (ht : t.kind ≠ .rightBrace)
    (hd : d.Registers (known ++ passed) owners) : d.RegistersAfter known owners (t :: us) := by
  rwa [Draft.RegistersAfter, hmentioned, push_of_declared? hdeclared ht]

/-! ### The kinds of statements -/

section Kinds

variable (hdeclaration : ¬(t.isWord ["state"] && (u.kind = .identifier || u.kind = .string)) = true)

include hdeclaration

theorem mentionedAt_note (hnote : (t.isWord ["note"] && u.isWord ["left", "right"]) = true) :
    mentionedAt (t :: u :: us) = us[1]?.toList := by
  rw [mentionedAt, if_neg hdeclaration, if_pos hnote]

variable (hnote : ¬(t.isWord ["note"] && u.isWord ["left", "right"]) = true)

include hnote

theorem mentionedAt_direction
    (hdirection : (t.isWord ["direction"] && u.kind = .identifier) = true) :
    mentionedAt (t :: u :: us) = [] := by
  rw [mentionedAt, if_neg hdeclaration, if_neg hnote, if_pos hdirection]

variable (hdirection : ¬(t.isWord ["direction"] && u.kind = .identifier) = true)

include hdirection

/-- A transition mentions those of its ends that are no pseudostates, in their order. -/
theorem mentionedAt_transition (ht : t.kind = .pseudostate ∨ t.kind = .identifier)
    (hu : u.kind = .transition) {v : Token} :
    mentionedAt (t :: u :: v :: us) = [t, v].filter (·.kind = .identifier) := by
  have hends : ((t.kind = .pseudostate || t.kind = .identifier) && u.kind = .transition) =
      true := by
    simpa [hu] using ht
  rw [mentionedAt, if_neg hdeclaration, if_neg hnote, if_neg hdirection, if_pos hends]
  rfl

theorem mentionedAt_plain (ht : t.kind = .identifier) (hu : u.kind ≠ .transition) :
    mentionedAt (t :: u :: us) = [t] := by
  have hends : ¬((t.kind = .pseudostate || t.kind = .identifier) && u.kind = .transition) =
      true := by
    simp [hu]
  rw [mentionedAt, if_neg hdeclaration, if_neg hnote, if_neg hdirection, if_neg hends,
    List.filter_singleton, decide_eq_true ht]
  rfl

end Kinds

/-! ### Parts of statements -/

section Parts

variable (hts : ∀ t ∈ ts, t.kind = .identifier → isPseudostate t.text = false)

include hts

theorem ensures_stateRef_registers (hd : d.Registers known owners) :
    Ensures (Cursor.Behind ts passed) (stateRef d) fun r c =>
      ∃ t, (r.2 = t.text ∧ t.kind = .identifier ∧ r.1.Registers (known ++ [t]) owners) ∧
        c.Behind ts (passed ++ [t]) := by
  refine .bind (ensures_expect_behind (by decide) _) fun t => .of_and fun ht =>
    .pure fun c hc => ?_
  refine ⟨t, ⟨rfl, ht, hd.mention (hts t ?_ ht)⟩, hc⟩
  rw [hc.1, List.append_assoc]
  exact List.mem_append_right _ List.mem_cons_self

/-- An end of a transition is a `pseudostate`, or it mentions a state, and which of the two its
token tells. -/
theorem ensures_transitionEnd_registers (hd : d.Registers known owners) (pseudostate : String) :
    Ensures (Cursor.Behind ts passed) (transitionEnd d pseudostate) fun r c =>
      ∃ t, ((t.kind = .pseudostate ∧ r.2 = pseudostate ∨ t.kind = .identifier ∧ r.2 = t.text) ∧
          r.1.Registers (known ++ [t].filter (·.kind = .identifier)) owners) ∧
        c.Behind ts (passed ++ [t]) := by
  refine .bind (ensures_accept_behind (by decide)) fun t => .of_and fun ht => ?_
  cases t with
  | none =>
    rw [Option.toList_none, List.append_nil]
    refine (ensures_stateRef_registers hts hd).imp_right
      fun (e, id) c ⟨t, ⟨hid, ht, he⟩, hc⟩ => ⟨t, ⟨.inr ⟨ht, hid⟩, ?_⟩, hc⟩
    rwa [List.filter_singleton, decide_eq_true ht]
  | some t =>
    have hkind : t.kind = .pseudostate := ht t rfl
    refine .pure fun c hc => ⟨t, ⟨.inl ⟨hkind, rfl⟩, ?_⟩, hc⟩
    simpa [hkind] using hd

end Parts

theorem ensures_description_registers {P : Cursor → Prop} (hd : d.Registers known owners)
    (id : String) : Ensures P (description d id) fun e _ => e.Registers known owners := by
  refine .bind .unknown fun t => ?_
  cases t with
  | none => exact .pure fun _ _ => hd
  | some _ =>
    refine .bind .unknown fun text => .bind .unknown fun l => .pure fun _ _ => ?_
    exact hd.decorate (f := fun s => { s with label := some l }) (fun _ => rfl) id

theorem ensures_stateKind_registers {P : Cursor → Prop} (hd : d.Registers known owners)
    (id : String) : Ensures P (stateKind d id) fun e _ => e.Registers known owners := by
  refine .bind .unknown fun t => ?_
  cases t with
  | none => exact .pure fun _ _ => hd
  | some _ =>
    refine .bind .unknown fun u => ?_
    split
    · exact .failAt _ _
    · next kind _ =>
      refine .bind .unknown fun _ => .pure fun _ _ => ?_
      exact hd.decorate (f := fun s => { s with kind }) (fun _ => rfl) id

/-! ### Declarations -/

/-- Whether a brace may come behind a token of this `kind` in a declaration: it neither ends it nor
is a brace. -/
def beforeBrace (kind : TokenKind) : Bool := !kind.endsStatement && kind != .leftBrace

theorem hasBrace_append {rest : List Token} (h : ∀ u ∈ passed, beforeBrace u.kind = true) :
    hasBrace (passed ++ rest) = hasBrace rest := by
  have hnone : passed.any (·.kind == .leftBrace) = false := by
    rw [List.any_eq_false]
    intro u hu
    rw [beq_iff_eq]
    exact bne_iff_ne.1 (Bool.and_eq_true_iff.1 (h u hu)).2
  rw [hasBrace, List.takeWhile_append_of_pos fun u hu => (Bool.and_eq_true_iff.1 (h u hu)).1,
    List.any_append, hnone, Bool.false_or, hasBrace]

theorem ensures_description_past (d : Draft) (id : String) :
    Ensures (Cursor.Past beforeBrace ts) (description d id) fun _ c => c.Past beforeBrace ts := by
  refine .bind (ensures_accept_past ⟨rfl, by decide⟩) fun t => ?_
  cases t with
  | none => exact .pure fun _ hc => hc
  | some _ =>
    refine .bind_and (ensures_expect_past ⟨rfl, by decide⟩ _) fun text _ => ?_
    exact .bind_and (ensures_content _) fun _ _ => .pure fun _ hc => hc

theorem ensures_stateKind_past (d : Draft) (id : String) :
    Ensures (Cursor.Past beforeBrace ts) (stateKind d id) fun _ c => c.Past beforeBrace ts := by
  refine .bind (ensures_accept_past ⟨rfl, by decide⟩) fun t => ?_
  cases t with
  | none => exact .pure fun _ hc => hc
  | some _ =>
    refine .bind_and (ensures_expect_past ⟨rfl, by decide⟩ _) fun u _ => ?_
    split
    · exact .failAt _ _
    · refine .bind_and (ensures_expect_past ⟨rfl, by decide⟩ _) fun _ _ => .pure fun _ hc => hc

/-- Behind the head of a declaration a brace opens the scope, or the statement ends, as `hasBrace`
tells from the tokens. -/
theorem ensures_opening (d : Draft) (id : String) : Ensures (Cursor.Past beforeBrace ts) (do
      let brace ← accept .leftBrace
      let e := if brace.isSome then d.openScope id else d
      endStatement
      return e) fun e _ => e = if hasBrace ts then d.openScope id else d := by
  refine .of_exists fun passed => .of_and fun hpassed => ?_
  refine .bind (ensures_accept_behind (by decide)) fun brace => .of_and fun hbrace => ?_
  cases brace with
  -- Without a brace the statement ends here, so none is among its tokens.
  | none =>
    have hend : Ensures (Cursor.Behind ts passed) endStatement fun _ _ => hasBrace ts = false := by
      rintro ⟨past, rest, final⟩ _ c' ⟨rfl, hfinal⟩ hx
      rw [hasBrace_append hpassed]
      cases rest with
      | nil => rfl
      | cons t us =>
        rw [endStatement_cons] at hx
        split at hx
        · next ht => rcases ht with ht | ht <;> simp [hasBrace, ht, TokenKind.endsStatement]
        · cases hx
    rw [Option.toList_none, List.append_nil]
    refine hend.bind fun _ => .pure fun _ hnone => ?_
    rw [hnone]
    rfl
  | some t =>
    -- With a brace, it is behind tokens that do not end the statement.
    refine .of_behind fun hbehind => .bind .unknown fun _ => .pure fun _ _ => ?_
    obtain ⟨rest, hrest⟩ := hbehind
    have hsome : hasBrace ts = true := by
      rw [← hrest, List.append_assoc, hasBrace_append hpassed]
      simp [hasBrace, hbrace t rfl, TokenKind.endsStatement]
    rw [hsome]
    rfl

/-- A label in quotes comes with a word behind it. -/
theorem ensures_quotedLabel_behind : Ensures (Cursor.Behind ts [t]) quotedLabel fun _ c =>
    ∃ label, (label = [] ∨ ∃ s w, label = [s, w] ∧ s.kind = .string ∧ w.kind = .identifier) ∧
      c.Behind ts (t :: label) := by
  refine .bind (ensures_accept_behind (by decide)) fun s => .of_and fun hs => ?_
  cases s with
  | none => exact .pure fun c hc => ⟨[], .inl rfl, hc⟩
  | some s =>
    show Ensures (Cursor.Behind ts [t, s]) _ _
    refine .bind (ensures_expectWord_behind _) fun w => .of_and fun hw => .pure fun c hc => ?_
    exact ⟨[s, w], .inr ⟨s, w, rfl, hs s rfl, hw⟩, hc⟩

/-- A declaration mentions its state, and opens the scope of it if there is a brace. A label in
quotes moves the token of the state. -/
theorem ensures_declaration_registers
    (hts : ∀ u ∈ t :: us, u.kind = .identifier → isPseudostate u.text = false)
    (hd : d.Registers known owners) (ht : t.isWord ["state"] = true) :
    Ensures (Cursor.Behind (t :: us) []) (declaration d) fun e _ =>
      ∃ u, declared? (t :: us) = some u ∧ e.Registers (known ++ [u])
        (brackets.push (t :: us) (some u.text) owners) := by
  refine .bind_and (ensures_advance_behind []) fun keyword hkeyword => ?_
  obtain rfl := hkeyword
  show Ensures (Cursor.Behind (keyword :: us) [keyword]) _ _
  refine .bind ensures_quotedLabel_behind fun quoted => .of_exists fun label =>
    .of_and fun hlabel => ?_
  refine .bind (ensures_stateRef_registers hts hd) fun (e, id) => .of_exists fun u =>
    .of_and fun ⟨hid, hu, he⟩ => .of_behind fun ⟨rest, hrest⟩ => ?_
  obtain rfl : id = u.text := hid
  have hkeyword := kind_of_isWord ht
  -- the name stands behind the keyword, or behind a quoted label and a word
  have hdeclared : declared? (keyword :: us) = some u := by
    rw [← hrest]
    rcases hlabel with rfl | ⟨s, w, rfl, hs, -⟩
    · simp [declared?, ht, hu]
    · simp [declared?, ht, hs]
  have hpast : ∀ c : Cursor, c.Behind (keyword :: us) (keyword :: label ++ [u]) →
      c.Past beforeBrace (keyword :: us) := by
    intro c hc
    refine ⟨_, ?_, hc⟩
    rcases hlabel with rfl | ⟨s, w, rfl, hs, hw⟩
    · simp [hkeyword, hu, beforeBrace, TokenKind.endsStatement]
    · simp [hkeyword, hs, hw, hu, beforeBrace, TokenKind.endsStatement]
  have hcloses : brackets.closes (keyword :: us) = false := by
    show (keyword.kind == .rightBrace) = false
    rw [hkeyword]
    rfl
  -- the label, if there is one, changes no place, so the rest of the line is read alike
  have hrest : ∀ e : Draft, e.Registers (known ++ [u]) owners →
      Ensures (Cursor.Past beforeBrace (keyword :: us)) (do
        let e ← stateKind e u.text
        let e ← description e u.text
        let brace ← accept .leftBrace
        let e := if brace.isSome then e.openScope u.text else e
        endStatement
        return e) fun e _ => ∃ u, declared? (keyword :: us) = some u ∧
          e.Registers (known ++ [u]) (brackets.push (keyword :: us) (some u.text) owners) := by
    intro e he
    refine .bind_and (p := fun e => e.Registers (known ++ [u]) owners)
      ((ensures_stateKind_registers he _).and (ensures_stateKind_past e _)) fun e he => ?_
    refine .bind_and (p := fun e => e.Registers (known ++ [u]) owners)
      ((ensures_description_registers he _).and (ensures_description_past e _)) fun e he => ?_
    refine (ensures_opening e u.text).imp_right fun e' _ he' => ⟨u, hdeclared, ?_⟩
    have hopens : brackets.opens (keyword :: us) = hasBrace (keyword :: us) := by
      show ((declared? (keyword :: us)).isSome && _) = _
      rw [hdeclared]
      rfl
    rw [he']
    split
    · next hbrace =>
      rw [Brackets.push_of_opens (hopens.trans hbrace)]
      exact he.openScope (he.known u (List.mem_append_right _ List.mem_cons_self))
    · next hbrace =>
      rw [Brackets.push_of_neither (hopens.trans (Bool.not_eq_true _ ▸ hbrace)) hcloses]
      exact he
  refine .imp ?_ hpast fun _ _ => id
  cases quoted with
  | none =>
    exact .bind_and (p := fun e => e.Registers (known ++ [u]) owners)
      (.pure fun _ hc => ⟨he, hc⟩) hrest
  | some text =>
    refine .bind_and (ensures_content text) fun l _ => ?_
    exact .bind_and (p := fun e => e.Registers (known ++ [u]) owners) (.pure fun _ hc =>
      ⟨he.decorate (f := fun s => { s with label := some l }) (fun _ => rfl) _, hc⟩) hrest

/-! ### Other statements -/

section Statements

variable (hts : ∀ u ∈ ts, u.kind = .identifier → isPseudostate u.text = false)

include hts

/-- A transition mentions the states that it leads from and to, and its tokens are two ends and an
arrow. -/
theorem ensures_transition_registers (hd : d.Registers known owners) :
    Ensures (Cursor.Behind ts []) (transition d) fun e _ => ∃ t u v us, ts = t :: u :: v :: us ∧
      (t.kind = .pseudostate ∨ t.kind = .identifier) ∧ u.kind = .transition ∧
        e.Registers (known ++ [t, v].filter (·.kind = .identifier)) owners := by
  refine .look_bind fun first => ?_
  refine .bind (ensures_transitionEnd_registers hts hd startId) fun (d₁, source) =>
    .of_exists fun t => .of_and fun ⟨ht, hd₁⟩ => ?_
  refine .bind (ensures_expect_behind (by decide) _) fun u => .of_and fun hu => ?_
  refine .bind (ensures_transitionEnd_registers hts hd₁ endId) fun (d₂, target) =>
    .of_exists fun v => .of_and fun ⟨hv, hd₂⟩ => .of_behind fun ⟨us, hus⟩ => ?_
  have hd₂ : d₂.Registers (known ++ [t, v].filter (·.kind = .identifier)) owners := by
    rwa [List.append_assoc, ← List.filter_append] at hd₂
  refine .bind .unknown fun label => .bind .unknown fun _ => .pure fun _ _ =>
    ⟨t, u, v, us, hus.symm, ht.imp And.left And.left, hu, ?_⟩
  -- Both ends are registered by now, unless they are pseudostates.
  have hmem : ∀ x ∈ [t, v], x.kind = .identifier → x.text ∈ d₂.ids := fun x hx hkind =>
    hd₂.known x (List.mem_append_right _ (List.mem_filter.2 ⟨hx, decide_eq_true hkind⟩))
  have hsource : source = startId ∨ source ∈ d₂.ids :=
    ht.imp And.right fun ⟨hkind, hsame⟩ =>
      (show source = t.text from hsame) ▸ hmem t List.mem_cons_self hkind
  have htarget : target = endId ∨ target ∈ d₂.ids :=
    hv.imp And.right fun ⟨hkind, hsame⟩ =>
      (show target = v.text from hsame) ▸ hmem v (List.mem_cons_of_mem _ List.mem_cons_self) hkind
  have hadd := hd₂.add (y := { transitions := [⟨source, target, label, some first.start⟩] }) rfl
    (hd₂.intact.addTransition hsource htarget)
  simpa only [Draft.add, Scope.append, List.append_nil] using hadd

/-- A note mentions its state, which is the fourth token. -/
theorem ensures_note_registers (hd : d.Registers known owners) (hnext : ts = t :: u :: us) :
    Ensures (Cursor.Behind ts []) (note d) fun e _ => ∃ v, us[1]? = some v ∧
      e.Registers (known ++ [v]) owners := by
  subst hnext
  refine .bind_and (ensures_advance_behind []) fun keyword _ =>
    .bind_and (ensures_advance_behind [t]) fun side _ => ?_
  refine .bind (ensures_expectWord_behind _) fun w => .of_and fun _ => ?_
  refine .bind (ensures_stateRef_registers hts hd) fun (e, state) => .of_exists fun v =>
    .of_and fun ⟨hstate, hv, he⟩ => .of_behind fun ⟨rest, hrest⟩ => ?_
  refine .bind .unknown fun text => .bind .unknown fun l => .pure fun _ _ => ⟨v, ?_, ?_⟩
  · have hrest : [t, u] ++ w :: v :: rest = [t, u] ++ us := hrest
    rw [← List.append_cancel_left hrest]
    rfl
  · have hmem : state ∈ e.ids := by
      rw [show state = v.text from hstate]
      exact he.known v (List.mem_append_right _ List.mem_cons_self)
    have hnote := he.intact.addNote
      (n := ⟨state, if side.isWord ["left"] then .leftOf else .rightOf, l⟩) hmem
    have hadd := he.add rfl hnote
    simpa only [Draft.add, Scope.append, List.append_nil] using hadd

/-- A state on a line of its own is mentioned by its first token. -/
theorem ensures_plainState_registers (hd : d.Registers known owners) (hnext : ts = t :: us) :
    Ensures (Cursor.Behind ts []) (plainState d) fun e _ => e.Registers (known ++ [t]) owners := by
  refine .bind (ensures_stateRef_registers hts hd) fun (e, id) => .of_exists fun v =>
    .of_and fun ⟨_, _, he⟩ => .of_behind fun ⟨rest, hrest⟩ => ?_
  obtain rfl : v = t := (List.cons.inj (hrest.trans hnext)).1
  refine .bind (ensures_description_registers he id) fun e => .of_fact fun he => ?_
  exact .bind .unknown fun _ => .pure fun _ _ => he

end Statements

/-- A statement opens the scope of the state that it declares, or closes the innermost one, and
registers what it mentions. -/
theorem ensures_statement_registers
    (hts : ∀ u ∈ t :: us, u.kind = .identifier → isPseudostate u.text = false)
    (hd : d.Registers known owners) : Ensures (Cursor.Behind (t :: us) []) (statement d)
      fun e _ => e.RegistersAfter known owners (t :: us) := by
  refine .bind_and ensures_peek_behind fun token htoken => ?_
  refine .bind_and ensures_second_behind fun second hsecond => ?_
  obtain rfl := htoken
  -- a second token is ahead if it is of any kind but the end of input
  have hcons : second.kind ≠ .endOfInput → ∃ ws, us = second :: ws := fun hne =>
    hsecond.resolve_left fun hnil => hne hnil.2
  refine .bind_and (ensures_check_behind [] (by decide)) fun newline hnewline =>
    .ite ?newline fun _ => .ite ?close fun _ => .ite ?declaration fun hdeclaration =>
      .ite ?note fun hnote => .ite ?direction fun hdirection => .ite ?region fun _ =>
        .ite ?transition fun htransition => .ite ?plain fun _ => .fail _
  case newline =>
    intro h
    have hkind : token.kind = .newline ∨ token.kind = .semicolon := by simpa [hnewline] using h
    refine .bind .unknown fun _ => .pure fun _ _ => registersAfter_of_mark ?_ hd
    rcases hkind with hkind | hkind <;> rw [hkind] <;> decide
  case close =>
    intro h
    exact .ite (fun _ => .fail _) fun _ => .bind .unknown fun _ => .bind .unknown fun _ =>
      .pure fun _ _ => registersAfter_of_close h hd
  case declaration =>
    intro h
    obtain ⟨ws, rfl⟩ := hcons fun hend => by simp [hend] at h
    refine (ensures_declaration_registers hts hd (Bool.and_eq_true_iff.1 h).1).imp_right
      fun e _ ⟨u, hu, he⟩ => ?_
    rw [Draft.RegistersAfter, mentionedAt, if_pos h, hu]
    exact he
  case note =>
    intro h
    obtain ⟨hword, hside⟩ := Bool.and_eq_true_iff.1 h
    obtain ⟨ws, rfl⟩ := hcons (by rw [kind_of_isWord hside]; decide)
    refine (ensures_note_registers hts hd rfl).imp_right fun e _ ⟨v, hv, he⟩ => ?_
    have hmentioned : mentionedAt (token :: second :: ws) = [v] := by
      rw [mentionedAt_note hdeclaration h, hv]
      rfl
    exact registersAfter_of_mentionedAt hmentioned (declared?_eq_none hdeclaration)
      (by rw [kind_of_isWord hword]; decide) he
  case direction =>
    intro h
    obtain ⟨hword, hkind⟩ := Bool.and_eq_true_iff.1 h
    obtain ⟨ws, rfl⟩ := hcons (by rw [of_decide_eq_true hkind]; decide)
    refine .bind .unknown fun _ => .bind .unknown fun x => .bind .unknown fun _ =>
      .pure fun _ _ => ?_
    exact registersAfter_of_mentionedAt (mentionedAt_direction hdeclaration hnote h)
      (declared?_eq_none hdeclaration) (by rw [kind_of_isWord hword]; decide)
      (by simpa using hd.setDirection x)
  case region =>
    intro h
    exact .ite (fun _ => .fail _) fun _ => .bind .unknown fun _ => .bind .unknown fun _ =>
      .pure fun _ _ => registersAfter_of_mark (by rw [h]; decide) hd.nextRegion
  case transition =>
    intro h
    refine (ensures_transition_registers hts hd).imp_right
      fun e _ ⟨t, u, v, vs, hnext, ht, hu, he⟩ => ?_
    obtain ⟨rfl, rfl⟩ := List.cons.inj hnext
    obtain ⟨ws, hws⟩ := hsecond.resolve_left fun hnil => List.cons_ne_nil _ _ hnil.1
    obtain ⟨rfl, rfl⟩ := List.cons.inj hws
    exact registersAfter_of_mentionedAt (mentionedAt_transition hdeclaration hnote hdirection ht hu)
      (declared?_eq_none hdeclaration) (by rcases ht with ht | ht <;> rw [ht] <;> decide) he
  case plain =>
    intro h
    refine (ensures_plainState_registers hts hd rfl).imp_right fun e _ he => ?_
    have hbrace : token.kind ≠ .rightBrace := by
      rw [h]
      decide
    rcases hsecond with ⟨rfl, -⟩ | ⟨ws, rfl⟩
    · exact registersAfter_of_mentionedAt (by simp [mentionedAt, h]) rfl hbrace he
    · rw [Bool.or_eq_true, decide_eq_true_eq, decide_eq_true_eq, not_or] at htransition
      exact registersAfter_of_mentionedAt
        (mentionedAt_plain hdeclaration hnote hdirection h htransition.2)
        (declared?_eq_none hdeclaration) hbrace he

/-! ### The diagram -/

theorem ensures_header_registers {P : Cursor → Prop} :
    Ensures P header fun d _ => d.Registers [] [] := by
  have hend : ∀ version : Version, Ensures (fun _ => True) (do
      endStatement
      return ({ version } : Draft)) fun d _ => d.Registers [] [] := fun version =>
    .bind .unknown fun _ => .pure fun _ _ => .empty version
  refine .bind .unknown fun _ => .bind .unknown fun t => ?_
  split
  · exact hend .v1
  · exact hend .v2
  · exact .bind (Q := fun _ _ => True) (.failAt _ _) fun _ => hend _

/-- Behind statements, each state is where it was mentioned first, and the open scopes are those of
the states that were declared with a brace. -/
theorem registers_of_read {row : List Token} {c c' : Cursor} (hc : c.Within row)
    (hrow : ∀ t ∈ row, t.kind = .identifier → isPseudostate t.text = false)
    (h : (header >>= untilEnd statement) c = .ok (d, c')) :
    d.Registers ((startsBehind header statement c).flatMap mentionedAt)
      ((brackets.unclosed (startsBehind header statement c)).map fun us =>
        (declared? us).map Token.text) := by
  refine startsBehind_spec (I := fun d starts => d.Registers (starts.flatMap mentionedAt)
    ((brackets.unclosed starts).map fun us => (declared? us).map Token.text)) ?_ ?_ ?_ hc h
  · exact ensures_header_registers.and ((steady_header (x := .states)).passes _)
  · exact fun ts n d => (moves_statement (x := .states) d).passes n
  · intro d starts t us hus hd
    have hts : ∀ u ∈ t :: us, u.kind = .identifier → isPseudostate u.text = false :=
      fun u hu => hrow u (hus.subset hu)
    refine (ensures_statement_registers hts hd).imp_right fun e _ he => ?_
    rwa [List.flatMap_append, List.flatMap_singleton, Brackets.unclosed_append, Brackets.map_push]

/-- Where a state diagram ends inside the scope of a state, it is said that the innermost one is
opened where its state was mentioned first, and the error is at the end of input. -/
theorem openedAt_of_unterminated {row : List Token} {c : Cursor} (hc : c.Within row)
    (hrow : ∀ t ∈ row, t.kind = .identifier → isPseudostate t.text = false)
    {block : String} (hnote : block ≠ "note") {openedAt position : Option Position}
    (h : read c = .error (.malformed ⟨.unterminated block openedAt, position⟩)) :
    position = some c.final.start ∧ ∃ us u v,
      (brackets.unclosed (startsBehind header statement c)).head? = some us ∧
        declared? us = some u ∧
          firstMention? (startsBehind header statement c) u.text = some v ∧
            openedAt = some v.start := by
  have hread : Located (fun _ => True) (· = "note") (header >>= untilEnd statement)
      (Draft.LocatedAt fun _ => True) :=
    .bind located_header fun start hstart =>
      .untilEnd (fun _ hd => located_statement (B := (· = "note")) rfl hd) hstart
  obtain ⟨d, c', hd, hpeek, hfinish⟩ := exists_of_unterminated hread hnote h
  have hregisters := registers_of_read hc hrow hd
  cases hopened : d.opened with
  -- With no scope open, the end of input ends the diagram, and there is no such error.
  | nil =>
    rw [hopened] at hfinish
    cases hfinish
  | cons o outer =>
    rw [hopened] at hfinish
    cases hfinish
    -- The open scopes are owned by what stands before the unclosed braces, the innermost ones
    -- first.
    have howners := hregisters.owners
    rw [hopened, List.map_cons] at howners
    obtain ⟨us, hhead, -, howner⟩ := Brackets.exists_head_of_eq_map _ howners
    obtain ⟨u, hu, htext⟩ := Option.map_eq_some_iff.1 howner.symm
    have ho : o ∈ d.opened := hopened ▸ List.mem_cons_self
    obtain ⟨v, hv, hposition⟩ := hregisters.position_of_opened ho
    exact ⟨by rw [hpeek], us, u, v, hhead, hu, htext ▸ hv, hposition⟩

end DiagramText.States
