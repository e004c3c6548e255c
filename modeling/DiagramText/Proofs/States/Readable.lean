import DiagramText.Proofs.Reading.Ensures
import DiagramText.Proofs.States.Sound

/-!
# What reading state diagrams makes sure of

Every statement keeps the draft sound, so a diagram that was read has different ids, its transitions
and notes are about its states, and all its parts can stand in a document.

* `States.ensures_note`: the lines of a note that was read can stand in a note.
* `States.ensures_statement`: what one statement keeps.
* `States.ensures_read`: a diagram that was read comes from a sound draft without open scopes.
-/

namespace DiagramText

open Text Reading

namespace States

/-- The cursor is before a row of a source. -/
abbrev Scanned : Cursor → Prop := Cursor.Scanned .states

/-! ### Names and labels -/

/-- An identifier `t` of a source is a name that can be written, for the scanner measured it as
one. -/
theorem isHyphenated_of_isLexeme {t : Token} (ht : t.kind = .identifier)
    (h : t.IsLexeme Dialect.stateRules) : IsHyphenated t.text := by
  have hrule : ∀ r ∈ Rule.common ++ Dialect.stateRules, r.1 = .identifier →
      r.2 = Measure.hyphenated := by
    simp [Rule.common, Dialect.stateRules, Rule.punctuation]
  have hlexeme := h.2
  rw [ht] at hlexeme
  obtain ⟨r, hr, hkind, hlength, h0⟩ := Rule.exists_of_first hlexeme (by decide)
  rw [hrule r hr hkind] at hlength
  exact Measure.covers_iff.2 ⟨hlength ▸ h0, hlength⟩

theorem adorns_label {l : Content} (hl : IsLabel l) :
    State.Adorns fun s => { s with label := some l } where
  eq _ := rfl
  label _ _ := by
    rintro _ ⟨⟩
    exact hl

theorem adorns_kind (kind : StateKind) : State.Adorns fun s => { s with kind := kind } where
  eq _ := rfl
  label _ ht := ht.label

/-! ### Drafts that go on -/

/-- A sound draft `e` with all states of `d`, as reading a part of a statement gives it. -/
structure Draft.Extends (e d : Draft) : Prop where
  sound : e.Sound
  mem : ∀ i ∈ d.ids, i ∈ e.ids

variable {d : Draft}

theorem Draft.Sound.extends_self (h : d.Sound) : d.Extends d := ⟨h, fun _ hi => hi⟩

theorem Draft.Sound.extends_adorn (h : d.Sound) {f : State → State} (hf : State.Adorns f)
    (i : String) : (d.modify i f).Extends d :=
  ⟨h.adorn hf i, fun _ hi => mem_ids_adorn hf hi⟩

/-! ### Parts of statements -/

theorem ensures_stateRef (hd : d.Sound) : Ensures Scanned (stateRef d)
    fun r c => (r.1.Extends d ∧ IsHyphenated r.2 ∧ r.2 ∈ r.1.ids) ∧ Scanned c := by
  refine .bind_and (ensures_expect Dialect.regular_states (by decide)) fun t ht =>
    .pure fun c hc => ⟨?_, hc⟩
  have hid := isHyphenated_of_isLexeme ht.1 ht.2
  obtain ⟨hsound, hmem, hmono⟩ := hd.mention hid
  exact ⟨⟨hsound, hmono⟩, hid, hmem⟩

theorem ensures_description (hd : d.Sound) (id : String) :
    Ensures Scanned (description d id) fun e c => e.Extends d ∧ Scanned c := by
  refine .bind (ensures_accept_colon Dialect.regular_states) fun t => ?_
  cases t with
  | none => exact .pure fun c hc => ⟨hd.extends_self, (hc.resolve_right (by simp)).2⟩
  | some t =>
    refine .bind_and ((ensures_expect_text Dialect.regular_states _).imp
      (fun c hc => (hc.resolve_left (by simp)).2) fun _ _ h => h) fun text htext => ?_
    refine .bind_and (ensures_content _) fun l hl => .pure fun c hc => ⟨?_, hc⟩
    have hlabel : IsLabel l := ⟨by rw [hl.1]; exact htext.2.1, hl.2⟩
    exact hd.extends_adorn (adorns_label hlabel) id

theorem ensures_stateKind (hd : d.Sound) (id : String) :
    Ensures Scanned (stateKind d id) fun e c => e.Extends d ∧ Scanned c := by
  refine .bind (ensures_accept Dialect.regular_states (by decide)) fun t => ?_
  cases t with
  | none => exact .pure fun c hc => ⟨hd.extends_self, hc⟩
  | some t =>
    refine .bind_and (ensures_expect Dialect.regular_states (by decide)) fun u _ => ?_
    split
    · exact .failAt _ _
    · next kind _ =>
      refine .bind_and (ensures_expect Dialect.regular_states (by decide)) fun v _ =>
        .pure fun c hc => ⟨?_, hc⟩
      exact hd.extends_adorn (adorns_kind kind) id

theorem ensures_quotedLabel : Ensures Scanned quotedLabel
    fun label c => (∀ text ∈ label, Plain text.toList) ∧ Scanned c := by
  refine .bind_and (ensures_accept_lexeme Dialect.regular_states (by decide)) fun t ht => ?_
  cases t with
  | none => exact .pure fun c hc => ⟨nofun, hc⟩
  | some t =>
    refine .bind (ensures_expectWord Dialect.regular_states _) fun _ => .pure fun c hc => ⟨?_, hc⟩
    rintro _ ⟨⟩
    exact (ht t rfl).2.1.of_subset fun c => mem_of_mem_unquote

/-- An end of a transition is the `pseudostate` that may stand there or a state that is there, with
a name that can be written. -/
theorem ensures_transitionEnd (hd : d.Sound) (pseudostate : String) :
    Ensures Scanned (transitionEnd d pseudostate) fun r c => (r.1.Extends d ∧
      (r.2 = pseudostate ∨ IsHyphenated r.2 ∧ r.2 ∈ r.1.ids)) ∧ Scanned c := by
  refine .bind (ensures_accept Dialect.regular_states (by decide)) fun t => ?_
  cases t with
  | none => exact (ensures_stateRef hd).imp_right fun r c h => ⟨⟨h.1.1, .inr h.1.2⟩, h.2⟩
  | some t => exact .pure fun c hc => ⟨⟨hd.extends_self, .inl rfl⟩, hc⟩

theorem ensures_transitionLabel : Ensures Scanned transitionLabel
    fun label c => (∀ l ∈ label, IsLabel l ∧ IsTrimmed l) ∧ Scanned c := by
  refine ensures_behindColon Dialect.regular_states fun u hu => ?_
  cases u with
  | none => exact .pure fun c hc => ⟨(fun _ h => nomatch h), hc⟩
  | some u =>
    obtain ⟨hne, hplain, htrim⟩ := hu u rfl
    refine .map ((ensures_content u.text).imp_right fun l c hl => ⟨?_, hl.2⟩)
    rintro _ ⟨⟩
    have hraw := hl.1.1
    refine ⟨⟨by rw [hraw]; exact hplain, hl.1.2⟩, ?_, ?_⟩
    · rw [hraw]
      simpa using hne
    · rw [hraw]
      exact htrim.trim_eq

/-! ### Notes -/

/-- A `text` that a note can have, of one line or of several. -/
structure IsNoteText (text : List Char) : Prop where
  lines : '\n' ∈ text → ∀ line ∈ text.splitOn '\n', IsNoteLine line
  line : '\n' ∉ text → Plain text ∧ Trimmed text

/-- The `lines` of a note, joined, are a text of a note, also if there is only one of them or
none. -/
theorem isNoteText_intercalate {lines : List String} (h : ∀ line ∈ lines, IsNoteLine line.toList) :
    IsNoteText ("\n".intercalate lines).toList := by
  have hchars : ("\n".intercalate lines).toList =
      ['\n'].intercalate (lines.map String.toList) := String.toList_intercalate
  have hlines : ∀ line ∈ lines.map String.toList, IsNoteLine line := List.forall_mem_map.2 h
  rw [hchars]
  generalize lines.map String.toList = ls at hlines
  match ls with
  | [] => exact ⟨nofun, fun _ => ⟨.nil, ⟨nofun, nofun⟩⟩⟩
  | [line] =>
    have hspan := (hlines line List.mem_cons_self).isSpan
    have hsingle : ['\n'].intercalate [line] = line := List.append_nil line
    rw [hsingle]
    exact ⟨fun hmem => absurd hmem hspan.plain.not_mem_lineFeed, fun _ =>
      ⟨hspan.plain, hspan.trimmed⟩⟩
  | line :: line' :: ls =>
    have hsplit : (['\n'].intercalate (line :: line' :: ls)).splitOn '\n' = line :: line' :: ls :=
      List.splitOn_intercalate '\n' (fun l hl => (hlines l hl).isSpan.plain.not_mem_lineFeed)
        (List.cons_ne_nil _ _)
    refine ⟨fun _ => by rw [hsplit]; exact hlines, fun hnot => absurd ?_ hnot⟩
    simp [List.intercalate]

/-- Words that end a note do so wherever the row before them is cut, since the row is looked at from
its start. -/
theorem isWord_of_endsNote {p : Token → Bool} (past ts : List Token) (final : Token)
    (h : endsNote (ts.takeWhile p) = true) :
    ((⟨past, ts, final⟩ : Cursor).peek.isWord ["end"] &&
      ((⟨past, ts, final⟩ : Cursor).ahead 1).isWord ["note"]) = true := by
  match ts with
  | [] => cases h
  | [t] =>
    rw [List.takeWhile_cons] at h
    split at h <;> cases h
  | t :: u :: ts =>
    rw [List.takeWhile_cons] at h
    split at h
    · rw [List.takeWhile_cons] at h
      split at h
      · exact h
      · cases h
    · cases h

/-- A line of a note is taken only where no line ends the note, so it is no such line. -/
theorem ensures_noteLine : Ensures
    (fun c => (c.peek.isWord ["end"] && (c.ahead 1).isWord ["note"]) = false ∧ Scanned c)
    restOfStatement fun line c => IsNoteLine line.toList ∧ Scanned c := by
  rintro ⟨past, rest, final⟩ line c' ⟨hend, hscanned⟩ hx
  have hraw := ensures_rawUntil Dialect.regular_states (by simp) _ _ _ hscanned hx
  obtain ⟨gap, span, hspan, htaken, hsource, -⟩ := hscanned.1.exists_span Dialect.regular_states
    (f := fun k => !k.endsStatement && !([] : List TokenKind).contains k)
    (fun kind hkind => by revert hkind; cases kind <;> decide) rfl
  refine ⟨⟨hraw.1, ?_⟩, hraw.2⟩
  -- the row that is taken is that of the line
  have hline : line.toList = span := by
    have hchars : line = String.ofList (trim (Token.source (rest.takeWhile
        fun t => !t.kind.endsStatement && !([] : List TokenKind).contains t.kind)).toList) := by
      cases hx
      rfl
    rw [hchars, hsource, String.toList_ofList, String.toList_ofList, hspan.trimmed.trim_eq]
  rw [hline, ← endsNote_ofLine gap, ← htaken, Bool.eq_false_iff]
  intro htrue
  rw [isWord_of_endsNote past rest final htrue] at hend
  cases hend

/-- The lines of a note are read up to the words that end it, and both of these are no colons. -/
theorem ensures_noteLines (keyword : Token) : Ensures Scanned (noteLines keyword) fun lines c =>
    (∀ line ∈ lines, IsNoteLine line.toList) ∧ c.peek.kind ≠ .colon ∧ (c.ahead 1).kind ≠ .colon ∧
      Scanned c := by
  refine (Ensures.loop (I := fun (lines : List String) c =>
    (∀ line ∈ lines, IsNoteLine line.toList) ∧ Scanned c) (fun lines => ?_) []).imp
      (fun c hc => ⟨List.forall_mem_nil _, hc⟩) fun _ _ h => h
  refine .of_and fun hlines => .bind (ensures_look _) fun a => .bind (ensures_look _) fun b => ?_
  refine .ite (fun hend => .pure fun c hc => ?_) fun hend => ?_
  · obtain ⟨rfl, rfl, hc⟩ := hc
    rw [Bool.and_eq_true] at hend
    have hkinds : c.peek.kind = .identifier ∧ (c.ahead 1).kind = .identifier :=
      ⟨kind_of_isWord hend.1, kind_of_isWord hend.2⟩
    refine ⟨hlines, ?_, ?_, hc⟩
    · rw [hkinds.1]
      decide
    · rw [hkinds.2]
      decide
  refine .look_bind fun atEnd => .ite (fun _ => .look_bind fun _ => .failAt _ _) fun _ => ?_
  refine .bind_and (ensures_noteLine.imp (fun c hc => ?_) fun _ _ h => h) fun line hline => ?_
  · obtain ⟨rfl, rfl, hc⟩ := hc
    exact ⟨by simpa using hend, hc⟩
  · exact .bind (ensures_endStatement Dialect.regular_states) fun _ => .pure fun c hc =>
      ⟨List.forall_mem_append.2 ⟨hlines, List.forall_mem_singleton.2 hline⟩, hc⟩

/-- Before two tokens that are no colons, the first can be taken, and no colon is next. -/
theorem ensures_advance_first : Ensures
    (fun c => c.peek.kind ≠ .colon ∧ (c.ahead 1).kind ≠ .colon ∧ Scanned c) advance
    fun _ c => c.peek.kind ≠ .colon ∧ Scanned c := by
  rintro ⟨past, rest, final⟩ t c' ⟨hfirst, hsecond, hscanned⟩ hx
  have htail := ensures_advance Dialect.regular_states _ _ _ ⟨hfirst, hscanned⟩ hx
  refine ⟨?_, htail⟩
  cases rest with
  | nil =>
    cases hx
    exact hfirst
  | cons u us =>
    cases hx
    exact hsecond

theorem ensures_noteText (keyword : Token) : Ensures Scanned (noteText keyword)
    fun text c => IsNoteText text.toList ∧ Scanned c := by
  refine .bind (ensures_accept_colon Dialect.regular_states) fun t => ?_
  cases t with
  | some t =>
    refine .bind_and ((ensures_expect_text Dialect.regular_states _).imp
      (fun c hc => (hc.resolve_left (by simp)).2) fun _ _ h => h) fun text htext => ?_
    refine .bind (ensures_endStatement Dialect.regular_states) fun _ => .pure fun c hc => ⟨?_, hc⟩
    exact ⟨fun hmem => absurd hmem htext.2.1.not_mem_lineFeed, fun _ => htext.2⟩
  | none =>
    refine .bind ((ensures_endStatement Dialect.regular_states).imp
      (fun c hc => (hc.resolve_right (by simp)).2) fun _ _ h => h) fun _ => ?_
    refine .bind_and (ensures_noteLines keyword) fun lines hlines => ?_
    refine .bind ensures_advance_first fun _ => ?_
    refine .bind (ensures_advance Dialect.regular_states) fun _ => ?_
    exact .bind (ensures_endStatement Dialect.regular_states) fun _ => .pure fun c hc =>
      ⟨isNoteText_intercalate hlines, hc⟩

theorem ensures_note (hd : d.Sound) : Ensures
    (fun c => c.peek.kind ≠ .colon ∧ (c.ahead 1).kind ≠ .colon ∧ Scanned c) (note d)
    fun e c => e.Sound ∧ Scanned c := by
  refine .bind ensures_advance_first fun keyword => ?_
  refine .bind (ensures_advance Dialect.regular_states) fun side => ?_
  refine .bind (ensures_expectWord Dialect.regular_states _) fun _ => ?_
  refine .bind_and (ensures_stateRef hd) fun r hr => ?_
  obtain ⟨e, state⟩ := r
  obtain ⟨he, hstate, hmem⟩ := hr
  refine .bind_and (ensures_noteText keyword) fun text htext => ?_
  refine .bind_and (ensures_content text) fun l hl => .pure fun c hc => ⟨?_, hc⟩
  have hnote : Note.Readable ⟨state, if side.isWord ["left"] then .leftOf else .rightOf, l⟩ := by
    refine ⟨hstate, ?_, hl.2, ?_, ?_⟩
    · show (if _ then NotePlacement.leftOf else .rightOf) ≠ .across
      split <;> decide
    · rw [hl.1]
      exact htext.lines
    · rw [hl.1]
      exact htext.line
  have hadd := he.sound.addNote hnote hmem
  simpa only [Draft.add, Scope.append, List.append_nil] using hadd

/-! ### Statements -/

/-- A declaration keeps the draft `d` sound, whether it opens a scope or not. -/
theorem ensures_declaration (hd : d.Sound) : Ensures (fun c => c.peek.kind ≠ .colon ∧ Scanned c)
    (declaration d) fun e c => e.Sound ∧ Scanned c := by
  refine .bind (ensures_advance Dialect.regular_states) fun _ => ?_
  refine .bind_and ensures_quotedLabel fun quoted hquoted => ?_
  refine .bind_and (ensures_stateRef hd) fun r hr => ?_
  obtain ⟨d₁, id⟩ := r
  obtain ⟨hd₁, -, hmem⟩ := hr
  -- What follows the state is read the same way with and without a label in quotes.
  have hrest : ∀ d₂ : Draft, d₂.Extends d₁ → Ensures Scanned (do
      let d₃ ← stateKind d₂ id
      let d₄ ← description d₃ id
      let brace ← accept .leftBrace
      let d₅ := if brace.isSome then d₄.openScope id else d₄
      endStatement
      return d₅) fun e c => e.Sound ∧ Scanned c := by
    intro d₂ hd₂
    refine .bind_and (ensures_stateKind hd₂.sound id) fun d₃ hd₃ => ?_
    refine .bind_and (ensures_description hd₃.sound id) fun d₄ hd₄ => ?_
    refine .bind (ensures_accept Dialect.regular_states (by decide)) fun brace => ?_
    refine .bind (ensures_endStatement Dialect.regular_states) fun _ => .pure fun c hc => ⟨?_, hc⟩
    split
    · exact hd₄.sound.openScope (hd₄.mem _ (hd₃.mem _ (hd₂.mem _ hmem)))
    · exact hd₄.sound
  cases quoted with
  | none =>
    exact .bind_and (p := fun e => e.Extends d₁)
      (.pure fun c hc => ⟨hd₁.sound.extends_self, hc⟩) hrest
  | some text =>
    refine .bind_and (ensures_content text) fun l hl => ?_
    have hlabel : IsLabel l := ⟨by rw [hl.1]; exact hquoted text rfl, hl.2⟩
    exact .bind_and (p := fun e => e.Extends d₁)
      (.pure fun c hc => ⟨hd₁.sound.extends_adorn (adorns_label hlabel) id, hc⟩) hrest

theorem ensures_plainState (hd : d.Sound) :
    Ensures Scanned (plainState d) fun e c => e.Sound ∧ Scanned c := by
  refine .bind_and (ensures_stateRef hd) fun r hr => ?_
  refine .bind_and (ensures_description hr.1.sound r.2) fun e he => ?_
  exact .bind (ensures_endStatement Dialect.regular_states) fun _ => .pure fun c hc =>
    ⟨he.sound, hc⟩

/-- A transition keeps the draft `d` sound: its source is known when its target is read. -/
theorem ensures_transition (hd : d.Sound) :
    Ensures Scanned (transition d) fun e c => e.Sound ∧ Scanned c := by
  refine .look_bind fun first => ?_
  refine .bind_and (ensures_transitionEnd hd startId) fun r hr => ?_
  obtain ⟨d₁, source⟩ := r
  obtain ⟨hd₁, hsource⟩ := hr
  refine .bind_and (ensures_expect Dialect.regular_states (by decide)) fun _ _ => ?_
  refine .bind_and (ensures_transitionEnd hd₁.sound endId) fun r hr => ?_
  obtain ⟨d₂, target⟩ := r
  obtain ⟨hd₂, htarget⟩ := hr
  refine .bind_and ensures_transitionLabel fun label hlabel => ?_
  refine .bind (ensures_endStatement Dialect.regular_states) fun _ => .pure fun c hc => ⟨?_, hc⟩
  have hreadable : Transition.Readable ⟨source, target, label, some first.start⟩ :=
    ⟨hsource.imp_right And.left, htarget.imp_right And.left, hlabel⟩
  have hadd := hd₂.sound.addTransition hreadable
    (hsource.imp_right fun h => hd₂.mem _ h.2) (htarget.imp_right And.right)
  simpa only [Draft.add, Scope.append, List.append_nil] using hadd

theorem ensures_takeDirection (expected : String) : Ensures
    (fun c => c.peek.kind ≠ .colon ∧ Scanned c) (takeDirection expected)
    fun _ c => Scanned c := by
  refine .bind (ensures_advance Dialect.regular_states) fun t => ?_
  split
  · exact .pure fun c hc => hc
  · exact .failAt _ _

/-- Every statement keeps the draft `d` sound: one case for each kind of line. -/
theorem ensures_statement (hd : d.Sound) :
    Ensures Scanned (statement d) fun e c => e.Sound ∧ Scanned c := by
  let Next (t u : Token) (c : Cursor) : Prop := u = c.ahead 1 ∧ t = c.peek ∧ Scanned c
  -- what each kind of statement needs to know of the tokens it starts with
  have hone : ∀ t u c, t.kind ≠ .colon → Next t u c → c.peek.kind ≠ .colon ∧ Scanned c := by
    rintro t u c ht ⟨rfl, rfl, hc⟩
    exact ⟨ht, hc⟩
  have htwo : ∀ t u c, t.kind ≠ .colon → u.kind ≠ .colon → Next t u c →
      c.peek.kind ≠ .colon ∧ (c.ahead 1).kind ≠ .colon ∧ Scanned c := by
    rintro t u c ht hu ⟨rfl, rfl, hc⟩
    exact ⟨ht, hu, hc⟩
  have hadvance : ∀ t u : Token, t.kind ≠ .colon →
      Ensures (Next t u) advance fun _ c => Scanned c := fun t u ht =>
    (ensures_advance Dialect.regular_states).imp (fun c => hone t u c ht) fun _ _ h => h
  have hend := ensures_endStatement Dialect.regular_states
  refine .bind ensures_peek fun t => .bind (ensures_look _) fun u => ?_
  have hword : ∀ {v : Token} {words}, v.isWord words = true → v.kind ≠ .colon := fun hv => by
    rw [kind_of_isWord hv]
    decide
  refine .bind (ensures_look (Cursor.check · [.newline, .semicolon])) fun b => .ite (fun hb => ?_)
    fun _ => .imp (P := Next t u) ?_ (fun c hc => hc.2) fun _ _ h => h
  · refine .bind ((ensures_advance Dialect.regular_states).imp (fun c hc => ⟨fun hcolon => ?_,
      hc.2.2.2⟩) fun _ _ h => h) fun _ => .pure fun c hc => ⟨hd, hc⟩
    have hcheck : c.check [.newline, .semicolon] = true := hc.1 ▸ hb
    rw [Cursor.check, hcolon] at hcheck
    cases hcheck
  refine .ite (fun hbrace => ?_) fun _ => .ite (fun hstate => ?_) fun _ =>
    .ite (fun hnote => ?_) fun _ => .ite (fun hdirection => ?_) fun _ =>
    .ite (fun hseparator => ?_) fun _ => .ite (fun _ => ?_) fun _ => .ite (fun _ => ?_)
    fun _ => .fail _
  · refine .ite (fun _ => .fail _) fun _ => ?_
    refine .bind (hadvance t u (by rw [hbrace]; decide)) fun _ => .bind hend fun _ =>
      .pure fun c hc => ⟨hd.closeScope, hc⟩
  · rw [Bool.and_eq_true] at hstate
    exact (ensures_declaration hd).imp (fun c => hone t u c (hword hstate.1)) fun _ _ h => h
  · rw [Bool.and_eq_true] at hnote
    exact (ensures_note hd).imp (fun c => htwo t u c (hword hnote.1) (hword hnote.2))
      fun _ _ h => h
  · rw [Bool.and_eq_true, decide_eq_true_eq] at hdirection
    refine .bind (ensures_advance_first.imp (fun c => htwo t u c (hword hdirection.1)
      (by rw [hdirection.2]; decide)) fun _ _ h => h) fun _ => ?_
    exact .bind (ensures_takeDirection _) fun x => .bind hend fun _ => .pure fun c hc =>
      ⟨hd.setDirection x, hc⟩
  · refine .ite (fun _ => .fail _) fun _ => ?_
    exact .bind (hadvance t u (by rw [hseparator]; decide)) fun _ => .bind hend fun _ =>
      .pure fun c hc => ⟨hd.nextRegion, hc⟩
  · exact (ensures_transition hd).imp (fun c hc => hc.2.2) fun _ _ h => h
  · exact (ensures_plainState hd).imp (fun c hc => hc.2.2) fun _ _ h => h

/-! ### The diagram -/

theorem ensures_header :
    Ensures Scanned header fun e c => (e.Sound ∧ e.opened = []) ∧ Scanned c := by
  refine .bind (ensures_skipNewlines Dialect.regular_states) fun _ => ?_
  refine .bind_and (ensures_expect Dialect.regular_states (by decide)) fun t _ => ?_
  have hrest : ∀ version : Version, Ensures Scanned (do
      endStatement
      return { version }) fun (e : Draft) c => (e.Sound ∧ e.opened = []) ∧ Scanned c := by
    intro version
    exact .bind (ensures_endStatement Dialect.regular_states) fun _ => .pure fun c hc =>
      ⟨⟨.empty version, rfl⟩, hc⟩
  split
  · exact hrest .v1
  · exact hrest .v2
  · exact .bind (Q := fun _ _ => False) (.failAt _ _) fun _ _ _ _ h => h.elim

/-- A diagram that was read comes from a sound draft of which all scopes are closed, so what is
known of drafts is known of it. -/
theorem ensures_read : Ensures Scanned read fun d _ =>
    Draft.Sound { version := d.version, direction := d.direction, scope := d.scope } := by
  refine .bind_and ensures_header fun d₀ hd₀ => ?_
  refine .bind_and (p := Draft.Sound) ((Ensures.untilEnd (I := fun d c => Draft.Sound d ∧ Scanned c)
    (fun d => .of_and ensures_statement) d₀).imp (fun c hc => ⟨hd₀.1, hc⟩) fun _ _ h => h)
    fun d hd => ?_
  split
  · next hopened =>
    refine .pure fun c _ => ?_
    obtain ⟨version, direction, scope, opened⟩ := d
    obtain rfl : opened = [] := hopened
    exact hd
  · exact .look_bind fun _ => .failAt _ _

end States
end DiagramText
