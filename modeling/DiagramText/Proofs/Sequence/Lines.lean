import DiagramText.Proofs.Sequence.Alike
import DiagramText.Proofs.Sequence.Row

/-!
# Reading written lines of sequence diagrams

* `Sequence.statement_clause`: the line of a clause is read as the clause.
* `Sequence.statement_open`, `Sequence.statement_branch` and `Sequence.statement_end`: the lines of
  a block open it, start a branch of it and close it.
-/

namespace DiagramText

open Text Reading

namespace Sequence

/-- The clause as it is read from tokens at the origin. Activations have no position. -/
def Clause.atOrigin : Clause → Clause
  | .participant p => .participant { p with position := some .origin }
  | .message m => .message { m with position := some .origin }
  | .note n => .note { n with position := some .origin }
  | .activation id active => .activation id active

theorem Clause.unplaced_atOrigin (c : Clause) : c.atOrigin.unplaced = c.unplaced := by
  cases c <;> rfl

theorem Registry.enter_atOrigin (ps : List Participant) (c : Clause) :
    enter ps c.atOrigin = enter ps c := by
  cases c <;> rfl

/-! ### Parts of a line -/

variable {d : Draft} {past ts : List Token} {t u nl final : Token}

theorem name_cons (ht : t.kind = .identifier) :
    name ⟨past, t :: ts, final⟩ = .ok (t.text, ⟨t :: past, ts, final⟩) := by
  have hexpect : expectAny nameKinds "participant name" ⟨past, t :: ts, final⟩ =
      .ok (t, ⟨t :: past, ts, final⟩) := expectAny_cons (by rw [ht]; decide)
  simp [name, bind_apply, hexpect, Except.bind, pure_apply]

theorem activationMark_markTokens (past ts : List Token) (final : Token)
    (mark : Option ActivationMark) (hu : u.kind = .identifier) :
    ∃ past', activationMark ⟨past, markTokens mark ++ u :: ts, final⟩ =
      .ok (mark, ⟨past', u :: ts, final⟩) := by
  match mark with
  | none =>
    refine ⟨past, ?_⟩
    simp [activationMark, markTokens, bind_apply, accept_cons, hu, Except.bind, pure_apply]
  | some .activate =>
    refine ⟨Token.plain .plus [] ['+'] :: past, ?_⟩
    simp [activationMark, markTokens, bind_apply, accept_cons, Except.bind, pure_apply,
      Token.plain]
  | some .deactivate =>
    refine ⟨Token.plain .minus [] ['-'] :: past, ?_⟩
    simp [activationMark, markTokens, bind_apply, accept_cons, Except.bind, pure_apply,
      Token.plain]

theorem messageText_textTokens (past ts : List Token) (final : Token) {text : Option Content}
    (h : ∀ c ∈ text, IsContent c)
    (hnl : nl.kind = .newline) : ∃ past',
      messageText ⟨past, textTokens text ++ nl :: ts, final⟩ =
        .ok (text, ⟨past', nl :: ts, final⟩) := by
  cases text with
  | none => exact ⟨past, behindColon_of_kind_ne _ (by simp [hnl])⟩
  | some c =>
    have hcontent := content_raw (h c rfl).2
    refine ⟨Token.plain .text [' '] c.raw.toList :: Token.plain .colon [] [':'] :: past,
      (behindColon_cons _ rfl rfl).trans ?_⟩
    simp [contentOf, map_apply, Except.bind, Token.plain, hcontent]

/-- A text behind a keyword is taken whole; no text is no label. The label ends at the line break
`nl`. -/
theorem label_labelTokens (past ts : List Token) (final : Token) {text : Option String}
    (h : ∀ l ∈ text, IsAlias l)
    (hnl : nl.kind = .newline) : ∃ past', label ⟨past, labelTokens text ++ nl :: ts, final⟩ =
      .ok (text, ⟨past', nl :: ts, final⟩) := by
  cases text with
  | none =>
    refine ⟨past, ?_⟩
    rw [label, labelTokens, bind_apply, Option.elim_none, List.nil_append,
      restOfStatement_newline hnl]
    rfl
  | some l =>
    have hl := h l rfl
    have hraw : rawUntil [] ⟨past, Token.ofLine .sequence [' '] l.toList ++ nl :: ts, final⟩ =
        .ok (String.ofList l.toList,
          ⟨(Token.ofLine .sequence [' '] l.toList).reverse ++ past, nl :: ts, final⟩) :=
      rawUntil_ofLine Dialect.regular_sequence hl.isSpan (.inl (by rw [hnl]; rfl))
    have hne : l.isEmpty = false := by simpa using hl.1.1
    refine ⟨(Token.ofLine .sequence [' '] l.toList).reverse ++ past, ?_⟩
    rw [label, labelTokens, bind_apply, restOfStatement, Option.elim_some, hraw]
    simp [Except.bind, hne, pure_apply]

/-! ### Clauses -/

theorem message_tokens (past ts : List Token) (final : Token) {m : Message}
    (h : (Clause.message m).Readable) {s a : Token}
    (hs : Token.Is s .identifier m.source) (ha : Token.Is a .arrow m.arrow.text)
    (hu : Token.Is u .identifier m.target) (hnl : nl.kind = .newline) : ∃ past',
      message ⟨past, s :: a :: (markTokens m.activation ++ u :: (textTokens m.text ++ nl :: ts)),
          final⟩ = .ok ((Clause.message m).atOrigin, ⟨past', ts, final⟩) := by
  obtain ⟨past₁, hmark⟩ := activationMark_markTokens (a :: s :: past)
    (textTokens m.text ++ nl :: ts) final m.activation hu.1
  obtain ⟨past₂, htext⟩ := messageText_textTokens (u :: past₁) ts final h.2.2.2 hnl
  have harrow : Arrow.ofText? m.arrow.text = some m.arrow := by
    cases m.arrow <;> rfl
  refine ⟨nl :: past₂, ?_⟩
  simp [message, bind_apply, peek_apply, Except.bind, name_cons hs.1, expect_cons ha.1, hmark,
    name_cons hu.1, htext, endStatement_cons, hnl, ha.2.1, harrow, map_apply, Clause.atOrigin,
    hs.2.1, hs.2.2, hu.2.1]

theorem moreNames_tokens (past ts : List Token) (final : Token) (names ids : List String)
    (ht : t.kind ≠ .comma) : ∃ past',
    moreNames names ⟨past, (ids.flatMap fun id => [Token.plain .comma [] [','],
        Token.plain .identifier [] id.toList]) ++ t :: ts, final⟩ =
      .ok (names ++ ids, ⟨past', t :: ts, final⟩) := by
  induction ids generalizing names past with
  | nil =>
    refine ⟨past, ?_⟩
    rw [List.flatMap_nil, List.nil_append, List.append_nil, moreNames]
    refine loop_inr ?_
    simp [bind_apply, accept_cons, ht, Except.bind, pure_apply]
  | cons id ids ih =>
    obtain ⟨past', hrest⟩ := ih
      (Token.plain .identifier [] id.toList :: Token.plain .comma [] [','] :: past) (names ++ [id])
    rw [List.append_assoc, List.singleton_append] at hrest
    refine ⟨past', ?_⟩
    rw [← hrest, moreNames, moreNames]
    refine loop_inl ?_
      (by simp only [List.flatMap_cons, List.length_append, List.length_cons]; omega)
    simp [bind_apply, accept_cons, Except.bind, map_apply, name_cons, Token.plain]

theorem placement_across (ht : t.isWord ["over"] = true) :
    placement ⟨past, t :: ts, final⟩ = .ok (.across, ⟨t :: past, ts, final⟩) := by
  simp [placement, bind_apply, acceptWord_cons, ht, Except.bind, pure_apply]

theorem placement_side (hover : t.isWord ["over"] = false)
    (hside : t.isWord ["left", "right"] = true) (hof : u.isWord ["of"] = true) :
    placement ⟨past, t :: u :: ts, final⟩ =
      .ok (if t.isWord ["left"] then .leftOf else .rightOf, ⟨u :: t :: past, ts, final⟩) := by
  simp [placement, bind_apply, acceptWord_cons, hover, checkWord_apply, hside, Except.bind,
    map_apply, advance_cons, expectWord_cons hof]

theorem placement_tokens (past ts : List Token) (final : Token) (p : NotePlacement) : ∃ past',
    placement ⟨past, placementTokens p ++ ts, final⟩ = .ok (p, ⟨past', ts, final⟩) := by
  cases p with
  | leftOf =>
    exact ⟨_, placement_side (t := Token.plain .identifier [' '] "left".toList) (by decide)
      (by decide) (by decide)⟩
  | rightOf =>
    exact ⟨_, placement_side (t := Token.plain .identifier [' '] "right".toList) (by decide)
      (by decide) (by decide)⟩
  | across => exact ⟨_, placement_across (by decide)⟩

theorem note_tokens (past ts : List Token) (final : Token) {n : Note} (h : (Clause.note n).Readable)
    (ht : t.start = .origin)
    (hnl : nl.kind = .newline) : ∃ past',
      note ⟨past, t :: (placementTokens n.placement ++ (Token.names [' '] n.participants ++
          (textTokens (some n.text) ++ nl :: ts))), final⟩ =
        .ok ((Clause.note n).atOrigin, ⟨past', ts, final⟩) := by
  obtain ⟨placement, ids, text, position⟩ := n
  obtain ⟨hne, -, htext⟩ := h
  -- A note is over at least one participant, and the first one has no comma in front of it.
  obtain ⟨id, ids, rfl⟩ := List.exists_cons_of_ne_nil hne
  let colon := Token.plain .colon [] [':']
  let s := Token.plain .text [' '] text.raw.toList
  let first := Token.plain .identifier [' '] id.toList
  obtain ⟨past₁, hplacement⟩ := placement_tokens (t :: past)
    (Token.names [' '] (id :: ids) ++ (textTokens (some text) ++ nl :: ts)) final placement
  obtain ⟨past₂, hnames⟩ := moreNames_tokens (first :: past₁) (s :: nl :: ts) final
    [id] ids (t := colon) (by decide)
  have hfirst : ∀ ts, name ⟨past₁, first :: ts, final⟩ = .ok (id, ⟨first :: past₁, ts, final⟩) := by
    intro ts
    rw [name_cons rfl, (Token.is_plain .identifier [' '] id).2.1]
  have hcolon : ∀ past ts, expect .colon "':'" ⟨past, colon :: ts, final⟩ =
      .ok (colon, ⟨colon :: past, ts, final⟩) := fun _ _ => expect_cons rfl
  have hs : ∀ past ts, expect .text "note text" ⟨past, s :: ts, final⟩ =
      .ok (s, ⟨s :: past, ts, final⟩) := fun _ _ => expect_cons rfl
  have hcontent : ∀ c, content s.text c = .ok (text, c) := by
    intro c
    rw [(Token.is_plain .text [' '] text.raw).2.1]
    exact content_raw htext.2 c
  -- The row in the order in which `note` takes it: the first name stands apart from the others.
  have hrow : Token.names [' '] (id :: ids) ++ (textTokens (some text) ++ nl :: ts) =
      first :: ((ids.flatMap fun id => [Token.plain .comma [] [','],
        Token.plain .identifier [] id.toList]) ++ colon :: s :: nl :: ts) := by
    simp [Token.names, textTokens, first, colon, s]
  have hend : endStatement ⟨s :: colon :: past₂, nl :: ts, final⟩ =
      .ok ((), ⟨nl :: s :: colon :: past₂, ts, final⟩) := by
    rw [endStatement_cons, if_pos (.inl hnl)]
  refine ⟨nl :: s :: colon :: past₂, ?_⟩
  rw [hrow] at hplacement ⊢
  simp only [note, bind_apply, advance_cons, Except.bind, hplacement, hfirst, hnames, hcolon, hs,
    hend, hcontent, pure_apply, ht]
  rfl

theorem participant_tokens (past ts : List Token) (final : Token) {p : Participant}
    (h : ∀ l ∈ p.label, IsAlias l)
    (ht : Token.Is t .identifier p.id) (hnl : nl.kind = .newline) : ∃ past',
      participant p.kind ⟨past, t :: (aliasTokens p.label ++ nl :: ts), final⟩ =
        .ok (({ p with position := some .origin }, false), ⟨past', nl :: ts, final⟩) := by
  obtain ⟨id, text, kind, position⟩ := p
  cases text with
  | none =>
    have hword : nl.isWord ["as"] = false := by simp [Token.isWord, hnl]
    refine ⟨t :: past, ?_⟩
    simp [participant, aliasTokens, bind_apply, peek_apply, Except.bind, name_cons ht.1,
      acceptWord_cons, hword, accept_cons, hnl, ht.2.1, ht.2.2, map_apply]
  | some l =>
    let keyword := Token.plain .identifier [' '] "as".toList
    have hword : keyword.isWord ["as"] = true := by decide
    obtain ⟨past', hlabel⟩ := label_labelTokens (keyword :: t :: past) ts final h hnl
    have hrow : aliasTokens (some l) ++ nl :: ts = keyword :: (labelTokens (some l) ++ nl :: ts) :=
      rfl
    refine ⟨past', ?_⟩
    rw [hrow]
    simp [participant, bind_apply, peek_apply, Except.bind, name_cons ht.1, acceptWord_cons, hword,
      hlabel, pure_apply, ht.2.1, ht.2.2]

theorem declaration_tokens (past ts : List Token) (final : Token) {p : Participant}
    (h : ∀ l ∈ p.label, IsAlias l)
    (hu : Token.Is u .identifier p.id) (hnl : nl.kind = .newline) : ∃ past',
      declaration p.kind ⟨past, t :: u :: (aliasTokens p.label ++ nl :: ts), final⟩ =
        .ok ([(Clause.participant p).atOrigin], ⟨past', ts, final⟩) := by
  obtain ⟨past', hparticipant⟩ := participant_tokens (t :: past) ts final h hu hnl
  have hloop : participants p.kind ⟨t :: past, u :: (aliasTokens p.label ++ nl :: ts), final⟩ =
      .ok ([{ p with position := some .origin }], ⟨past', nl :: ts, final⟩) := by
    rw [participants]
    refine loop_inr ?_
    simp [bind_apply, hparticipant, Except.bind, pure_apply]
  refine ⟨nl :: past', ?_⟩
  simp [declaration, bind_apply, advance_cons, hloop, Except.bind, endStatement_cons, hnl,
    map_apply, Clause.atOrigin]

theorem activation_tokens {id : String} (active : Bool) (hu : Token.Is u .identifier id)
    (hnl : nl.kind = .newline) :
    activation active ⟨past, t :: u :: nl :: ts, final⟩ =
      .ok (.activation id active, ⟨nl :: u :: t :: past, ts, final⟩) := by
  simp [activation, bind_apply, advance_cons, Except.bind, name_cons hu.1, endStatement_cons, hnl,
    map_apply, hu.2.1]

/-! ### Statements -/

/-- A token that is none of some words is none of a part `words` of them. -/
theorem isWord_of_subset {words words' : List String} (hsub : ∀ w ∈ words, w ∈ words')
    (h : t.isWord words' = false) : t.isWord words = false := by
  simp only [Token.isWord, Bool.and_eq_false_iff, List.contains_eq_mem,
    decide_eq_false_iff_not] at h ⊢
  exact h.imp_right (mt (hsub _))

/-- The keywords that open, part and close blocks. -/
def blockWords : List String :=
  ["end", "else", "and", "option"] ++ BlockKind.all.map BlockKind.text

/-- A line that starts with none of the keywords of blocks, or with a name before an arrow, opens
and closes no block. -/
theorem statement_eq_line (ht : t.kind = .identifier)
    (h : t.isWord blockWords = false ∨ u.kind = .arrow) :
    statement d ⟨past, t :: u :: ts, final⟩ = line d ⟨past, t :: u :: ts, final⟩ := by
  have hwords : ∀ words : List String, (∀ w ∈ words, w ∈ blockWords) →
      checkKeyword words ⟨past, t :: u :: ts, final⟩ =
        .ok (false, ⟨past, t :: u :: ts, final⟩) := by
    intro words hsub
    rw [checkKeyword_apply]
    rcases h with h | h
    · rw [Cursor.peek_cons, isWord_of_subset hsub h]
      rfl
    · simp [h]
  have hend := hwords ["end"] (by decide)
  have hbranch := hwords ["else", "and", "option"] (by decide)
  have hblock := hwords (BlockKind.all.map BlockKind.text) (by decide)
  simp [statement, bind_apply, accept_cons, ht, Except.bind, hend, hbranch, blockKind?, hblock,
    pure_apply]

/-- A line that starts with a name and an arrow is a message, whatever the name is. -/
theorem line_message (hu : u.kind = .arrow) : line d ⟨past, t :: u :: ts, final⟩ =
    (message ⟨past, t :: u :: ts, final⟩).bind fun r => .ok (d.add [r.1], r.2) := by
  simp [line, bind_apply, peek_apply, ahead_apply, checkWord_apply, checkKeyword_apply,
    Except.bind, hu, map_apply, nameKinds]

theorem line_declaration {kind : ParticipantKind} (hu : u.kind = .identifier)
    (ht : t.isWord ["participant", "actor"] = true)
    (hkind : ParticipantKind.ofText? (lower t.text) = some kind) :
    line d ⟨past, t :: u :: ts, final⟩ =
      (declaration kind ⟨past, t :: u :: ts, final⟩).bind fun r => .ok (d.add r.1, r.2) := by
  simp [line, bind_apply, peek_apply, ahead_apply, checkWord_apply, Except.bind, hu, map_apply,
    nameKinds, ht, hkind]

theorem line_activation {active : Bool} (hu : u.kind = .identifier)
    (ht : t.isWord ["activate", "deactivate"] = true)
    (hother : t.isWord ["participant", "actor", "autonumber"] = false)
    (hactive : (lower t.text == "activate") = active) :
    line d ⟨past, t :: u :: ts, final⟩ =
      (activation active ⟨past, t :: u :: ts, final⟩).bind fun r => .ok (d.add [r.1], r.2) := by
  have hparticipant : t.isWord ["participant", "actor"] = false :=
    isWord_of_subset (by simp) hother
  have hautonumber : t.isWord ["autonumber"] = false :=
    isWord_of_subset (by simp) hother
  simp [line, bind_apply, peek_apply, ahead_apply, checkWord_apply, checkKeyword_apply,
    Except.bind, hu, map_apply, nameKinds, ht, hparticipant, hautonumber, hactive]

theorem line_note (hu : u.kind = .identifier) (ht : t.isWord ["note"] = true)
    (hother : t.isWord ["participant", "actor", "autonumber", "activate", "deactivate"] = false) :
    line d ⟨past, t :: u :: ts, final⟩ =
      (note ⟨past, t :: u :: ts, final⟩).bind fun r => .ok (d.add [r.1], r.2) := by
  have hparticipant : t.isWord ["participant", "actor"] = false :=
    isWord_of_subset (by simp) hother
  have hautonumber : t.isWord ["autonumber"] = false :=
    isWord_of_subset (by simp) hother
  have hactivate : t.isWord ["activate", "deactivate"] = false :=
    isWord_of_subset (by simp) hother
  simp [line, bind_apply, peek_apply, ahead_apply, checkWord_apply, checkKeyword_apply,
    Except.bind, hu, map_apply, ht, hparticipant, hautonumber, hactivate]

/-- The line of a clause `c` is read as the clause, and adds nothing else to the draft `d`. -/
theorem statement_clause {c : Clause} (h : c.Readable) (gap : List Char)
    (hnl : nl.kind = .newline) : ∃ past',
      statement d ⟨past, Token.ofLine .sequence gap c.text.toList ++ nl :: ts, final⟩ =
        .ok (d.add [c.atOrigin], ⟨past', ts, final⟩) := by
  cases c with
  -- Each clause is told by its first token, and by the next one where the first may be a name.
  | participant p =>
    let t := Token.plain .identifier gap p.kind.text.toList
    let u := Token.plain .identifier [' '] p.id.toList
    have hwords : t.isWord blockWords = false ∧ t.isWord ["participant", "actor"] = true ∧
        ParticipantKind.ofText? (lower t.text) = some p.kind := by
      show _ ∧ _ ∧ ParticipantKind.ofText? (lower (String.ofList p.kind.text.toList)) = _
      rw [Token.isWord_plain, Token.isWord_plain]
      cases p.kind <;> decide
    obtain ⟨past', hdeclaration⟩ := declaration_tokens past ts final (t := t) h.2
      (Token.is_plain _ _ _ : Token.Is u .identifier p.id) hnl
    refine ⟨past', ?_⟩
    rw [ofLine_participant h, List.cons_append, List.cons_append,
      statement_eq_line rfl (.inl hwords.1), line_declaration rfl hwords.2.1 hwords.2.2,
      hdeclaration]
    rfl
  | message m =>
    obtain ⟨past', hmessage⟩ := message_tokens past ts final h
      (Token.is_plain .identifier gap _) (Token.is_plain .arrow [] _)
        (Token.is_plain .identifier [] _) hnl
    refine ⟨past', ?_⟩
    show statement d ⟨past, Token.ofLine .sequence gap m.line.toList ++ nl :: ts, final⟩ = _
    rw [ofLine_readableMessage h, List.cons_append, List.cons_append, List.append_assoc,
      List.cons_append,
      statement_eq_line rfl (.inr rfl), line_message rfl, hmessage]
    rfl
  | note n =>
    let t := Token.plain .identifier gap "note".toList
    have hwords : t.isWord blockWords = false ∧ t.isWord ["note"] = true ∧
        t.isWord ["participant", "actor", "autonumber", "activate", "deactivate"] = false := by
      rw [Token.isWord_plain, Token.isWord_plain, Token.isWord_plain]
      decide
    obtain ⟨past', hnote⟩ := note_tokens past ts final h
      (rfl : t.start = .origin) hnl
    obtain ⟨u, us, hplacement, hu⟩ : ∃ u us, placementTokens n.placement = u :: us ∧
        u.kind = .identifier := by
      cases n.placement <;> exact ⟨_, _, rfl, rfl⟩
    refine ⟨past', ?_⟩
    rw [ofLine_note h, List.cons_append, List.append_assoc, List.append_assoc]
    rw [hplacement, List.cons_append] at hnote ⊢
    rw [statement_eq_line rfl (.inl hwords.1), line_note hu hwords.2.1 hwords.2.2, hnote]
    rfl
  | activation id active =>
    let t := Token.plain .identifier gap (if active then "activate" else "deactivate").toList
    have hwords : t.isWord blockWords = false ∧ t.isWord ["activate", "deactivate"] = true ∧
        t.isWord ["participant", "actor", "autonumber"] = false ∧
        (lower t.text == "activate") = active := by
      show _ ∧ _ ∧ _ ∧ (lower (String.ofList
        (if active then "activate" else "deactivate").toList) == "activate") = active
      rw [Token.isWord_plain, Token.isWord_plain, Token.isWord_plain]
      cases active <;> decide
    let u := Token.plain .identifier [' '] id.toList
    refine ⟨nl :: u :: t :: past, ?_⟩
    rw [ofLine_activation h, List.cons_append, List.singleton_append,
      statement_eq_line rfl (.inl hwords.1), line_activation rfl hwords.2.1 hwords.2.2.1
        hwords.2.2.2, activation_tokens active (Token.is_plain _ _ _) hnl]
    rfl

/-! ### Lines of blocks -/

theorem blockHead_tokens (past ts : List Token) (final : Token) (kind : BlockKind)
    {text : Option String} (h : ∀ l ∈ text, IsAlias l)
    (ht : t.start = .origin) (hnl : nl.kind = .newline) : ∃ past',
      blockHead kind ⟨past, t :: (labelTokens text ++ nl :: ts), final⟩ =
        .ok ({ kind, label := text, position := some .origin }, ⟨past', ts, final⟩) := by
  obtain ⟨past', hlabel⟩ := label_labelTokens (t :: past) ts final h hnl
  refine ⟨nl :: past', ?_⟩
  simp [blockHead, bind_apply, advance_cons, Except.bind, hlabel, endStatement_cons, hnl, map_apply,
    ht]

/-- What stands behind a keyword is no arrow, so the keyword is taken for one. -/
theorem exists_labelTokens (ts : List Token) {text : Option String} (h : ∀ l ∈ text, IsHeading l)
    (hnl : nl.kind = .newline) :
    ∃ u us, labelTokens text ++ nl :: ts = u :: us ∧ u.kind ≠ .arrow := by
  cases text with
  | none => exact ⟨nl, ts, rfl, by rw [hnl]; decide⟩
  | some l =>
    obtain ⟨u, us, hline, hu⟩ := (h l rfl).exists_ofLine [' ']
    exact ⟨u, us ++ nl :: ts, by rw [labelTokens, Option.elim_some, hline, List.cons_append], hu⟩

theorem checkKeyword_cons {words : List String} (hu : u.kind ≠ .arrow) :
    checkKeyword words ⟨past, t :: u :: ts, final⟩ =
      .ok (t.isWord words, ⟨past, t :: u :: ts, final⟩) := by
  rw [checkKeyword_apply, Cursor.ahead_one_cons, Cursor.peek_cons, Cursor.peek_cons,
    bne_iff_ne.2 hu, Bool.and_true]

/-- A line that opens a block is read as its head, with the label `text` that is written on it. -/
theorem statement_open {kind : BlockKind} {text : Option String} (h : ∀ l ∈ text, IsHeading l)
    (gap : List Char) (hnl : nl.kind = .newline) : ∃ past',
      statement d ⟨past, Token.plain .identifier gap kind.text.toList ::
          (labelTokens text ++ nl :: ts), final⟩ =
        .ok (d.openBlock { kind, label := text, position := some .origin },
          ⟨past', ts, final⟩) := by
  let t := Token.plain .identifier gap kind.text.toList
  have hwords : t.isWord ["end"] = false ∧ t.isWord ["else", "and", "option"] = false ∧
      t.isWord (BlockKind.all.map BlockKind.text) = true ∧
      BlockKind.ofText? (lower t.text) = some kind := by
    show _ ∧ _ ∧ _ ∧ BlockKind.ofText? (lower (String.ofList kind.text.toList)) = _
    rw [Token.isWord_plain, Token.isWord_plain, Token.isWord_plain]
    cases kind <;> decide
  obtain ⟨past', hhead⟩ := blockHead_tokens past ts final kind
    (fun l hl => (h l hl).1) (rfl : t.start = .origin) hnl
  obtain ⟨u, us, hrow, hu⟩ := exists_labelTokens ts h hnl
  refine ⟨past', ?_⟩
  change statement d ⟨past, t :: (labelTokens text ++ nl :: ts), final⟩ = _
  rw [hrow] at hhead ⊢
  -- no arrow follows the keyword, so it is taken for one
  have hkind : blockKind? ⟨past, t :: u :: us, final⟩ = .ok
      (some kind, ⟨past, t :: u :: us, final⟩) := by
    simp [blockKind?, bind_apply, checkKeyword_cons hu, hwords.2.2.1, Except.bind, peek_apply,
      map_apply, hwords.2.2.2]
  have hnewline : t.kind ≠ .newline := Token.kind_plain_ne (by decide)
  simp [statement, bind_apply, accept_cons, hnewline, Except.bind, checkKeyword_cons hu,
    hwords.1, hwords.2.1, hkind, hhead, map_apply]

/-- A draft `d` with one more open block, the innermost. -/
def Draft.within (d : Draft) (b : OpenBlock) : Draft := { d with opened := b :: d.opened }

/-- A line that opens a branch of the innermost block `b` is read as the branch, if its word is that
of the block. -/
theorem statement_branch {b : OpenBlock} {keyword : String} {text : Option String}
    (hkeyword : b.head.kind.branchKeyword? = some keyword) (h : ∀ l ∈ text, IsHeading l)
    (gap : List Char) (hnl : nl.kind = .newline) : ∃ past',
      statement (d.within b) ⟨past, Token.plain .identifier gap keyword.toList ::
          (labelTokens text ++ nl :: ts), final⟩ =
        .ok (d.within (b.branch text), ⟨past', ts, final⟩) := by
  let t := Token.plain .identifier gap keyword.toList
  have hwords : t.isWord ["end"] = false ∧ t.isWord ["else", "and", "option"] = true ∧
      lower t.text = keyword := by
    show _ ∧ _ ∧ lower (String.ofList keyword.toList) = _
    rw [Token.isWord_plain, Token.isWord_plain]
    revert hkeyword
    cases b.head.kind <;> rintro ⟨⟩ <;> decide
  obtain ⟨past', hlabel⟩ := label_labelTokens (t :: past) ts final
    (fun l hl => (h l hl).1) hnl
  obtain ⟨u, us, hrow, hu⟩ := exists_labelTokens ts h hnl
  refine ⟨nl :: past', ?_⟩
  change statement _ ⟨past, t :: (labelTokens text ++ nl :: ts), final⟩ = _
  rw [hrow] at hlabel ⊢
  -- the word fits the block, so the line is a branch of it
  have hbranch : branchLine (d.within b).opened ⟨past, t :: u :: us, final⟩ =
      .ok (text, ⟨nl :: past', ts, final⟩) := by
    simp [branchLine, Draft.within, bind_apply, peek_apply, Except.bind, hkeyword, hwords.2.2,
      advance_cons, hlabel, endStatement_cons, hnl, map_apply]
  have hnewline : t.kind ≠ .newline := Token.kind_plain_ne (by decide)
  simp [statement, bind_apply, accept_cons, hnewline, Except.bind, checkKeyword_cons hu,
    hwords.1, hwords.2.1, hbranch, map_apply]
  rfl

/-- The line `end` closes the innermost block. -/
theorem statement_end (b : OpenBlock) (gap : List Char) (hnl : nl.kind = .newline) :
    statement (d.within b) ⟨past, Token.plain .identifier gap "end".toList :: nl :: ts, final⟩ =
      .ok (d.extend [b.close],
        ⟨nl :: Token.plain .identifier gap "end".toList :: past, ts, final⟩) := by
  generalize ht : Token.plain .identifier gap "end".toList = t
  have hend : t.isWord ["end"] = true := by
    rw [← ht, Token.isWord_plain]
    decide
  have hnewline : t.kind ≠ .newline := by
    rw [← ht]
    exact nofun
  have harrow : nl.kind ≠ .arrow := by
    rw [hnl]
    decide
  simp [statement, bind_apply, accept_cons, hnewline, Except.bind, checkKeyword_cons harrow, hend,
    Draft.within, advance_cons, endStatement_cons, hnl, map_apply]
  rfl

/-- The line `autonumber` numbers the messages. -/
theorem statement_autonumber (gap : List Char) (hnl : nl.kind = .newline) :
    statement d ⟨past, Token.plain .identifier gap "autonumber".toList :: nl :: ts, final⟩ =
      .ok ({ d with autonumber := true },
        ⟨nl :: Token.plain .identifier gap "autonumber".toList :: past, ts, final⟩) := by
  generalize ht : Token.plain .identifier gap "autonumber".toList = t
  have hwords : t.isWord blockWords = false ∧ t.isWord ["participant", "actor"] = false ∧
      t.isWord ["autonumber"] = true := by
    rw [← ht, Token.isWord_plain, Token.isWord_plain, Token.isWord_plain]
    decide
  have hkind : t.kind = .identifier := by
    rw [← ht]
    rfl
  have harrow : nl.kind ≠ .arrow := by
    rw [hnl]
    decide
  rw [statement_eq_line hkind (.inl hwords.1)]
  simp [line, bind_apply, peek_apply, ahead_apply, checkWord_apply, Except.bind,
    checkKeyword_cons harrow, hwords.2.1, hwords.2.2, advance_cons, restOfStatement_newline hnl,
    endStatement_cons, hnl, map_apply]

end Sequence
end DiagramText
