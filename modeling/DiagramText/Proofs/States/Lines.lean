import DiagramText.Proofs.Result
import DiagramText.Proofs.States.Draft
import DiagramText.Proofs.Token.Name
import DiagramText.States.Writer
import Mathlib.Data.Option.Basic

/-!
# Reading written lines of state diagrams

* `States.Transition.Readable` and `States.Note.Readable`: the names and texts can stand in a
  document, and `States.Note.Uncut`: no line of a note starts a diagram behind an empty line.
* `States.readsLines_declaration`, `States.readsLines_open`, `States.readsLines_separator` and the
  others: what the lines of a state are read as.
* `States.readsLines_transition`: a transition between states that are there already is put into the
  innermost open scope, and no state is.
-/

namespace DiagramText

open Text Reading

namespace States

/-! ### Parts that can stand in a document -/

/-- A label `l` of one line that its own text means, and that has no control characters in it. -/
structure IsLabel (l : Content) : Prop where
  plain : Plain l.raw.toList
  ofText? : Content.ofText? l.raw = some l

/-- A label `l` that a line can end with: it is not empty, and no blanks are around it. -/
def IsTrimmed (l : Content) : Prop := l.raw ≠ "" ∧ trim l.raw.toList = l.raw.toList

/-- A transition `t` of which all parts can stand in a document. An end is a pseudostate of its side
or an identifier. -/
structure Transition.Readable (t : Transition) : Prop where
  source : t.source = startId ∨ IsHyphenated t.source
  target : t.target = endId ∨ IsHyphenated t.target
  label : ∀ l ∈ t.label, IsLabel l ∧ IsTrimmed l

/-- Whether a row starts with the words `end note`, which end a note. -/
def endsNote : List Token → Bool
  | t :: u :: _ => t.isWord ["end"] && u.isWord ["note"]
  | _ => false

/-- A `line` of a note, which is one span of tokens and does not end the note. -/
structure IsNoteLine (line : List Char) : Prop where
  isSpan : Token.IsSpan .states (fun k => !k.endsStatement && !([] : List TokenKind).contains k)
    line
  endsNote_eq : endsNote (Token.ofLine .states [] line) = false

/-- A note `n` of which all parts can stand in a document. One of a single line is written behind a
colon. -/
structure Note.Readable (n : Note) : Prop where
  state : IsHyphenated n.state
  placement : n.placement ≠ .across
  ofText? : Content.ofText? n.text.raw = some n.text
  lines : '\n' ∈ n.text.raw.toList → ∀ line ∈ n.text.raw.toList.splitOn '\n', IsNoteLine line
  line : '\n' ∉ n.text.raw.toList → Plain n.text.raw.toList ∧ Trimmed n.text.raw.toList

/-- A note `n` of which no line that follows an empty line or a comment starts a diagram. -/
def Note.Uncut (n : Note) : Prop :=
  Document.cuts false ((n.text.raw.toList.splitOn '\n').map (· ++ ['\n'])) = 0

/-! ### Lexemes -/

theorem isBare_name {id : String} (h : IsHyphenated id) :
    Token.IsBare Dialect.stateRules .identifier id.toList := by
  have hfirst : ∀ (c : Char) (cs : List Char), isAsciiWord c = true →
      ∀ r ∈ ([(.pseudostate, Measure.literal ['[', '*', ']']),
        (.transition, Measure.literal ['-', '-', '>']),
        (.regionSeparator, Measure.regionSeparator)] : List Rule), r.2 (c :: cs) = 0 := by
    intro c cs hc
    have hne : ∀ e : Char, isAsciiWord e = false → c ≠ e := by
      rintro e he rfl
      rw [he] at hc
      cases hc
    simp only [List.forall_mem_cons]
    exact ⟨Measure.literal_cons_of_ne (hne '[' (by decide)) _ _,
      Measure.literal_cons_of_ne (hne '-' (by decide)) _ _,
      Measure.regionSeparator_cons_of_ne (hne '-' (by decide)) _, nofun⟩
  have hname := Rule.first_hyphenated h (b := []) nofun hfirst Rule.punctuation
  obtain ⟨c, cs, hcs, hc, -⟩ := h.exists_cons
  refine ⟨h.toList_ne_nil, h.not_isBlank, ?_, ?_, by decide⟩
  · rw [hcs]
    rintro ⟨⟩
    exact absurd hc (by decide)
  · rw [List.append_nil] at hname
    exact hname

theorem isBare_transition : Token.IsBare Dialect.stateRules .transition "-->".toList :=
  ⟨by decide, by decide, by decide, by decide, by decide⟩

theorem isBare_pseudostate : Token.IsBare Dialect.stateRules .pseudostate "[*]".toList :=
  ⟨by decide, by decide, by decide, by decide, by decide⟩

theorem isBare_separator : Token.IsBare Dialect.stateRules .regionSeparator "--".toList :=
  ⟨by decide, by decide, by decide, by decide, by decide⟩

theorem isBare_leftBrace : Token.IsBare Dialect.stateRules .leftBrace ['{'] :=
  ⟨by decide, by decide, by decide, by decide, by decide⟩

theorem isBare_rightBrace : Token.IsBare Dialect.stateRules .rightBrace ['}'] :=
  ⟨by decide, by decide, by decide, by decide, by decide⟩

/-! ### Labels -/

theorem IsTrimmed.trimmed {l : Content} (h : IsTrimmed l) : Trimmed l.raw.toList :=
  .of_trim_eq h.2

/-- `The tokens of a label` behind a colon, which a content is written as. Only its raw text
matters. -/
def labelTokens (label : Option Content) : List Token := Token.labelTokens (label.map Content.raw)

/-- The row of a label is read from its raw text, which `IsTrimmed` keeps from losing blanks. -/
theorem ofLine_labelChars {label : Option Content} (h : ∀ l ∈ label, IsTrimmed l) :
    Token.ofLine .states [] (Token.labelChars (label.map Content.raw)) = labelTokens label := by
  refine Token.ofLine_labelChars Dialect.regular_states (Option.forall_mem_map.2 fun l hl => ?_)
  exact ⟨(h l hl).trimmed, by simpa using (h l hl).1⟩

theorem plain_labelChars {label : Option Content} (h : ∀ l ∈ label, IsLabel l) :
    Plain (Token.labelChars (label.map Content.raw)) :=
  Token.plain_labelChars (Option.forall_mem_map.2 fun l hl => (h l hl).plain)

/-! ### Mentioning states -/

variable {d : Draft} {past ts : List Token} {t u v nl final : Token}

theorem Draft.mention_of_mem (h : t.text ∈ d.ids) : d.mention t = d := by
  rw [mention, if_pos (isSome_state?_iff.2 h)]

theorem Draft.mention_of_not_mem (h : t.text ∉ d.ids) :
    d.mention t = d.add { states := [{ id := t.text, position := some t.start }] } := by
  rw [mention, if_neg (mt isSome_state?_iff.1 h), add]
  simp only [Scope.append, List.append_nil]

theorem stateRef_cons (ht : t.kind = .identifier) : stateRef d ⟨past, t :: ts, final⟩ =
    .ok ((d.mention t, t.text), ⟨t :: past, ts, final⟩) := by
  simp [stateRef, bind_apply, expect_cons ht, Except.bind, pure_apply]

/-! ### Statements -/

theorem isWord_of_kind {words : List String} (h : t.kind ≠ .identifier) :
    t.isWord words = false := by
  rw [Token.isWord, beq_eq_false_iff_ne.2 h, Bool.false_and]

theorem statement_declaration (ht : t.isWord ["state"] = true) (hu : u.kind = .identifier) :
    statement d ⟨past, t :: u :: ts, final⟩ = declaration d ⟨past, t :: u :: ts, final⟩ := by
  simp [statement, bind_apply, peek_apply, ahead_apply, check_apply, Except.bind,
    kind_of_isWord ht, ht, hu]

theorem statement_note (ht : t.isWord ["note"] = true) (ht' : t.isWord ["state"] = false)
    (hu : u.isWord ["left", "right"] = true) :
    statement d ⟨past, t :: u :: ts, final⟩ = note d ⟨past, t :: u :: ts, final⟩ := by
  simp [statement, bind_apply, peek_apply, ahead_apply, check_apply, Except.bind,
    kind_of_isWord ht, ht, ht', hu]

theorem statement_direction {x : Direction} (ht : t.isWord ["direction"] = true)
    (ht' : t.isWord ["state"] = false ∧ t.isWord ["note"] = false) (hu : u.kind = .identifier)
    (hx : Direction.ofText? u.text = some x) (hnl : nl.kind = .newline) :
    statement d ⟨past, t :: u :: nl :: ts, final⟩ =
      .ok (d.setDirection x, ⟨nl :: u :: t :: past, ts, final⟩) := by
  simp [statement, bind_apply, peek_apply, ahead_apply, check_apply, Except.bind,
    kind_of_isWord ht, ht, ht', hu, advance_cons, takeDirection, hx, pure_apply, map_apply,
    endStatement_cons, hnl]

theorem statement_rightBrace (ht : t.kind = .rightBrace) (hd : d.opened ≠ [])
    (hnl : nl.kind = .newline) : statement d ⟨past, t :: nl :: ts, final⟩ =
      .ok (d.closeScope, ⟨nl :: t :: past, ts, final⟩) := by
  simp [statement, bind_apply, peek_apply, ahead_apply, check_apply, Except.bind, ht, hd,
    advance_cons, map_apply, endStatement_cons, hnl]

theorem statement_separator (ht : t.kind = .regionSeparator) (hd : d.opened ≠ [])
    (hnl : nl.kind = .newline) : statement d ⟨past, t :: nl :: ts, final⟩ =
      .ok (d.nextRegion, ⟨nl :: t :: past, ts, final⟩) := by
  have hword : ∀ words, t.isWord words = false := fun words => isWord_of_kind (by rw [ht]; decide)
  simp [statement, bind_apply, peek_apply, ahead_apply, check_apply, Except.bind, ht, hd, hword,
    advance_cons, map_apply, endStatement_cons, hnl]

theorem statement_transition (ht : t.kind = .pseudostate ∨ t.kind = .identifier)
    (hu : u.kind = .transition) :
    statement d ⟨past, t :: u :: ts, final⟩ = transition d ⟨past, t :: u :: ts, final⟩ := by
  have hword : ∀ words, u.isWord words = false := fun words => isWord_of_kind (by rw [hu]; decide)
  rcases ht with ht | ht <;>
    simp [statement, bind_apply, peek_apply, ahead_apply, check_apply, Except.bind, ht, hu, hword]

theorem statement_plainState (ht : t.kind = .identifier) (hu : u.kind = .colon) :
    statement d ⟨past, t :: u :: ts, final⟩ = plainState d ⟨past, t :: u :: ts, final⟩ := by
  have hword : ∀ words, u.isWord words = false := fun words => isWord_of_kind (by rw [hu]; decide)
  simp [statement, bind_apply, peek_apply, ahead_apply, check_apply, Except.bind, ht, hu, hword]

/-! ### Declarations -/

/-- A `kind` as it is written behind a state. The simple one is not written. -/
def kindChars (kind : StateKind) : List Char :=
  if kind = .simple then [] else ' ' :: '<' :: '<' :: (kind.text.toList ++ ['>', '>'])

/-- The tokens of a `kind` behind a state, which are three or none. -/
def kindTokens (kind : StateKind) : List Token :=
  if kind = .simple then []
  else [Token.plain .stereotypeOpen [' '] ['<', '<'], Token.plain .identifier [] kind.text.toList,
    Token.plain .stereotypeClose [] ['>', '>']]

theorem toList_declaration (s : State) : s.declaration.toList =
    Token.spacedChars [(.identifier, "state".toList), (.identifier, s.id.toList)] ++
      kindChars s.kind := by
  obtain ⟨id, label, kind, children, transitions, notes, direction, regions, position⟩ := s
  cases kind <;> simp [State.declaration, kindChars, Token.spacedChars, toString, List.intercalate]

theorem ofLine_kindChars (kind : StateKind) :
    Token.ofLine .states [] (kindChars kind) = kindTokens kind := by
  -- The three kinds other than the simple one differ only in their words.
  have hline : ∀ word : List Char, word ≠ [] → (∀ c ∈ word.head?, isSpaceOrTab c = false) →
      Rule.first (Rule.common ++ Dialect.stateRules) (word ++ ['>', '>']) =
        (.identifier, word.length) →
      Token.ofLine .states [] (' ' :: (['<', '<'] ++ (word ++ ['>', '>']))) =
        [Token.plain .stereotypeOpen [' '] ['<', '<'], Token.plain .identifier [] word,
          Token.plain .stereotypeClose [] ['>', '>']] := by
    intro word hne hhead hword
    have hopen : ∀ b, Rule.first (Rule.common ++ Dialect.stateRules) (['<', '<'] ++ b) =
        (.stereotypeOpen, 2) := fun b => by
      simp [Rule.common, Dialect.stateRules, Rule.punctuation, Rule.first, Measure.comment,
        Measure.quotedString, Measure.literal, Measure.regionSeparator, Measure.firstOf,
        Measure.closedLiteral, Measure.hyphenated, isAsciiWord]
    rw [Token.ofLine_cons_blank Dialect.regular_states rfl,
      Token.ofLine_lexeme Dialect.regular_states (by decide) (by decide) (hopen _) (by decide),
      Token.ofLine_lexeme Dialect.regular_states hne hhead hword (by decide),
      @Token.ofLine_word _ _ Dialect.regular_states .stereotypeClose _ (by decide) (by decide)
        (by decide) (by decide)]
    rfl
  cases kind with
  | simple => exact Token.ofLine_nil _ _
  | choice => exact hline "choice".toList (by decide) (by decide) (by decide)
  | fork => exact hline "fork".toList (by decide) (by decide) (by decide)
  | join => exact hline "join".toList (by decide) (by decide) (by decide)

/-- Without a label in quotes, a declaration starts with the state, and `quotedLabel` takes no
token. -/
theorem quotedLabel_cons (ht : t.kind ≠ .string) :
    quotedLabel ⟨past, t :: ts, final⟩ = .ok (none, ⟨past, t :: ts, final⟩) := by
  simp [quotedLabel, bind_apply, accept_cons, ht, Except.bind, pure_apply]

theorem stateKind_cons (id : String) (ht : t.kind ≠ .stereotypeOpen) :
    stateKind d id ⟨past, t :: ts, final⟩ = .ok (d, ⟨past, t :: ts, final⟩) := by
  simp [stateKind, bind_apply, accept_cons, ht, Except.bind, pure_apply]

theorem description_cons (id : String) (ht : t.kind ≠ .colon) :
    description d id ⟨past, t :: ts, final⟩ = .ok (d, ⟨past, t :: ts, final⟩) := by
  simp [description, bind_apply, accept_cons, ht, Except.bind, pure_apply]

/-- The `kind` behind a state `s` that is new is read as its kind, which changes this state only. -/
theorem stateKind_kindTokens {s : State} (hs : s.id ∉ d.ids) (hkind : s.kind = .simple)
    (kind : StateKind) (past ts : List Token) (final : Token) (hnl : nl.kind = .newline) :
    ∃ past', stateKind (d.add { states := [s] }) s.id
      ⟨past, kindTokens kind ++ nl :: ts, final⟩ =
        .ok (d.add { states := [{ s with kind := kind }] }, ⟨past', nl :: ts, final⟩) := by
  by_cases hsimple : kind = .simple
  · have hsame : { s with kind := kind } = s := by
      rw [hsimple, ← hkind]
      cases s
      rfl
    refine ⟨past, ?_⟩
    rw [kindTokens, if_pos hsimple, hsame]
    exact stateKind_cons _ (by rw [hnl]; decide)
  · have hword : StateKind.ofText? (lower kind.text) = some kind := by
      cases kind <;> first | exact absurd rfl hsimple | decide
    have hmodify := Draft.modify_add hs fun s => { s with kind := kind }
    refine ⟨Token.plain .stereotypeClose [] ['>', '>'] ::
      Token.plain .identifier [] kind.text.toList ::
        Token.plain .stereotypeOpen [' '] ['<', '<'] :: past, ?_⟩
    rw [kindTokens, if_neg hsimple]
    simp [stateKind, bind_apply, accept_cons, expect_cons, Except.bind, Token.plain, hword,
      map_apply, hmodify]

theorem declaration_tokens (hu : Token.Is u .identifier u.text) (hnew : u.text ∉ d.ids)
    (kind : StateKind) (past ts : List Token) (final : Token) (hnl : nl.kind = .newline) :
    ∃ past', declaration d ⟨past, t :: u :: (kindTokens kind ++ nl :: ts), final⟩ =
      .ok (d.add { states := [{ id := u.text, kind, position := some .origin }] },
        ⟨past', ts, final⟩) := by
  obtain ⟨past', hkind⟩ := stateKind_kindTokens
    (s := { id := u.text, position := some u.start }) hnew rfl kind (u :: t :: past) ts final hnl
  refine ⟨nl :: past', ?_⟩
  rw [hu.2.2] at hkind
  simp [declaration, bind_apply, advance_cons, Except.bind, quotedLabel_cons, hu.1, stateRef_cons,
    Draft.mention_of_not_mem hnew, hu.2.2, hkind, description_cons, hnl, accept_cons,
    map_apply, endStatement_cons]

theorem declaration_leftBrace (past ts : List Token) (final : Token)
    (hu : Token.Is u .identifier u.text) (hnew : u.text ∉ d.ids)
    (hv : v.kind = .leftBrace) (hnl : nl.kind = .newline) :
    declaration d ⟨past, t :: u :: v :: nl :: ts, final⟩ =
      .ok (d.inside { id := u.text, children := some [], position := some .origin } 0,
        ⟨nl :: v :: u :: t :: past, ts, final⟩) := by
  have hopen := Draft.openScope_add (s := { id := u.text, position := some u.start }) hnew
  rw [hu.2.2] at hopen
  simp [declaration, bind_apply, advance_cons, Except.bind, quotedLabel_cons, hu.1, stateRef_cons,
    Draft.mention_of_not_mem hnew, hu.2.2, stateKind_cons, description_cons, hv, hnl, accept_cons,
    map_apply, endStatement_cons, hopen]

/-- The label `l` of a new state `s` is put into it, whatever else the draft `d` holds. -/
theorem plainState_tokens (past ts : List Token) (final : Token) {s : State} (hd : d.Ready)
    (hs : s.id ∉ d.ids) {l : Content}
    (hl : IsLabel l) (ht : Token.Is t .identifier s.id) (hu : u.kind = .colon)
    (hv : Token.Is v .text l.raw) (hnl : nl.kind = .newline) :
    plainState (d.add { states := [s] }) ⟨past, t :: u :: v :: nl :: ts, final⟩ =
      .ok (d.add { states := [{ s with label := some l }] },
        ⟨nl :: v :: u :: t :: past, ts, final⟩) := by
  have hmem : t.text ∈ (d.add { states := [s] }).ids := by
    rw [ht.2.1]
    exact hd.mem { states := [s] } _ (by rw [State.idsList_singleton]; exact State.id_mem_ids s)
  have hmodify := Draft.modify_add hs fun s => { s with label := some l }
  have hcontent := content_raw hl.ofText?
  simp [plainState, bind_apply, stateRef_cons ht.1, Draft.mention_of_mem hmem, Except.bind,
    description, accept_cons, hu, expect_cons hv.1, hv.2.1, hcontent, map_apply, endStatement_cons,
    hnl, ht.2.1, hmodify]

/-! ### Lines of states -/

section Lines

variable {layout : Layout} (hlayout : layout.IsBlank) (depth : Nat)

include hlayout

/-- The line that declares a new state `s` without a scope adds the state, at the place of its
token. -/
theorem readsLines_declaration {s : State} (hid : IsHyphenated s.id) (hnew : s.id ∉ d.ids) :
    ReadsLines .states statement d [layout.line depth s.declaration]
      (d.add { states := [{ id := s.id, kind := s.kind, position := some .origin }] }) := by
  have hkind : ∀ t ∈ kindTokens s.kind, t.kind ≠ .comment := by
    cases s.kind <;> simp [kindTokens, Token.plain]
  have hplain : StartsBlank (kindChars s.kind) ∧ Plain (kindChars s.kind) := by
    cases s.kind <;>
      simp [kindChars, StartsBlank, Plain, StateKind.text, isBlank, isSpaceOrTab]
  have hwords : ∀ w ∈ [(TokenKind.identifier, "state".toList), (.identifier, s.id.toList)],
      Token.IsBare Dialect.stateRules w.1 w.2 :=
    List.forall_mem_cons.2 ⟨isBare_name (by decide), List.forall_mem_singleton.2 (isBare_name hid)⟩
  refine .spaced Dialect.regular_states hlayout depth (toList_declaration s) (by simp) hwords
    hplain.1 hplain.2 (ofLine_kindChars s.kind) hkind fun past us nl hnl => ?_
  let t := Token.plain .identifier (layout.pad depth).toList "state".toList
  let u := Token.plain .identifier [' '] s.id.toList
  have ht : t.isWord ["state"] = true := by
    rw [Token.isWord_plain]
    decide
  have hu : Token.Is u .identifier s.id := Token.is_plain _ _ _
  -- the row is read as a declaration with the kind behind it
  obtain ⟨past', hread⟩ := declaration_tokens (t := t) (u := u) ⟨rfl, rfl, rfl⟩
    (by rwa [hu.2.1]) s.kind past us Token.endOfInput hnl
  rw [hu.2.1] at hread
  refine ⟨past', ?_⟩
  show statement d ⟨past, t :: u :: (kindTokens s.kind ++ nl :: us), Token.endOfInput⟩ = _
  rw [statement_declaration ht rfl]
  exact hread

/-- The line that opens the scope of a new state leaves the draft `d` inside its first region. -/
theorem readsLines_open {id : String} (hid : IsHyphenated id) (hnew : id ∉ d.ids) :
    ReadsLines .states statement d [layout.line depth s!"state {id} \x7b"]
      (d.inside { id := id, children := some [], position := some .origin } 0) := by
  have htext : s!"state {id} \x7b".toList = Token.spacedChars [(.identifier, "state".toList),
      (.identifier, id.toList), (.leftBrace, ['\x7b'])] ++ [] := by
    simp [Token.spacedChars, toString, List.intercalate]
  have hwords : ∀ w ∈ [(TokenKind.identifier, "state".toList), (.identifier, id.toList),
      (.leftBrace, ['\x7b'])], Token.IsBare Dialect.stateRules w.1 w.2 := by
    simp only [List.forall_mem_cons]
    exact ⟨isBare_name (by decide), isBare_name hid, isBare_leftBrace, List.forall_mem_nil _⟩
  refine .spaced Dialect.regular_states hlayout depth htext (by simp) hwords startsBlank_nil .nil
    (Token.ofLine_nil _ _) (List.forall_mem_nil _) fun past us nl hnl => ?_
  let t := Token.plain .identifier (layout.pad depth).toList "state".toList
  let u := Token.plain .identifier [' '] id.toList
  let v := Token.plain .leftBrace [' '] ['\x7b']
  have ht : t.isWord ["state"] = true := by
    rw [Token.isWord_plain]
    decide
  have hu : u.text = id := String.ofList_toList
  -- the row is read as a declaration with a brace
  have hread := declaration_leftBrace (t := t) (u := u) (v := v) past us Token.endOfInput
    ⟨rfl, rfl, rfl⟩ (by rwa [hu]) rfl hnl
  rw [hu] at hread
  refine ⟨nl :: v :: u :: t :: past, ?_⟩
  show statement d ⟨past, t :: u :: v :: nl :: us, Token.endOfInput⟩ = _
  rw [statement_declaration ht rfl]
  exact hread

/-- A line of a single lexeme is read as what `statement` makes of its token. -/
theorem readsLines_lexeme {d' : Draft} {kind : TokenKind} {text : String}
    (htext : Token.IsBare Dialect.stateRules kind text.toList)
    (hread : ∀ past us nl, nl.kind = .newline → ∃ past',
      statement d ⟨past, Token.plain kind (layout.pad depth).toList text.toList :: nl :: us,
        Token.endOfInput⟩ = .ok (d', ⟨past', us, Token.endOfInput⟩)) :
    ReadsLines .states statement d [layout.line depth text] d' :=
  have hchars : text.toList = Token.spacedChars [(kind, text.toList)] ++ [] := by
    simp [Token.spacedChars]
  .spaced Dialect.regular_states hlayout depth hchars (by simp) (List.forall_mem_singleton.2 htext)
    nofun .nil (Token.ofLine_nil _ _) (List.forall_mem_nil _) hread

/-- The line behind the last region of a new state `s` leaves it, so the draft `d` is the one with
the state added. -/
theorem readsLines_close (s : State) (region : Nat) :
    ReadsLines .states statement (d.inside s region) [layout.line depth "\x7d"]
      (d.add { states := [s] }) := by
  refine readsLines_lexeme hlayout depth isBare_rightBrace fun past us nl hnl => ?_
  rw [← Draft.closeScope_inside d s region]
  exact ⟨_, statement_rightBrace rfl (List.cons_ne_nil _ _) hnl⟩

/-- The line between two regions of a new state `s` adds an empty region and leaves the draft `d`
inside it. -/
theorem readsLines_separator (hd : d.Ready) {s : State} (hs : s.id ∉ d.ids) (region : Nat) :
    ReadsLines .states statement (d.inside s region) [layout.line depth "--"]
      (d.inside { s with regions := s.regions ++ [{}] } (s.regions.length + 1)) := by
  refine readsLines_lexeme hlayout depth isBare_separator fun past us nl hnl => ?_
  rw [← Draft.nextRegion_inside hd hs region]
  exact ⟨_, statement_separator rfl (List.cons_ne_nil _ _) hnl⟩

/-- The line of a direction `x`, in any scope: it belongs to the owner of the innermost open one. -/
theorem readsLines_direction (d : Draft) (x : Direction) :
    ReadsLines .states statement d [layout.line depth s!"direction {x.name}"]
      (d.setDirection x) := by
  have hx : IsHyphenated x.name ∧ Direction.ofText? x.name = some x := by
    cases x <;> decide
  have htext : s!"direction {x.name}".toList = Token.spacedChars
      [(.identifier, "direction".toList), (.identifier, x.name.toList)] ++ [] := by
    simp [Token.spacedChars, toString, List.intercalate]
  have hwords : ∀ w ∈ [(TokenKind.identifier, "direction".toList), (.identifier, x.name.toList)],
      Token.IsBare Dialect.stateRules w.1 w.2 :=
    List.forall_mem_cons.2 ⟨isBare_name (by decide), List.forall_mem_singleton.2 (isBare_name hx.1)⟩
  refine .spaced Dialect.regular_states hlayout depth htext (by simp) hwords startsBlank_nil .nil
    (Token.ofLine_nil _ _) (List.forall_mem_nil _) fun past us nl hnl => ?_
  let t := Token.plain .identifier (layout.pad depth).toList "direction".toList
  let u := Token.plain .identifier [' '] x.name.toList
  have ht : t.isWord ["direction"] = true ∧ t.isWord ["state"] = false ∧
      t.isWord ["note"] = false := by
    rw [Token.isWord_plain, Token.isWord_plain, Token.isWord_plain]
    decide
  have hu : Direction.ofText? u.text = some x := by
    rw [← hx.2]
    exact congrArg Direction.ofText? String.ofList_toList
  exact ⟨_, statement_direction (t := t) (u := u) ht.1 ht.2 rfl hu hnl⟩

/-- The line that gives a new state `s` its label, if it has one. It stands behind the declaration
of the state, or behind its scope. -/
theorem readsLines_labelLines (hd : d.Ready) {s s' : State} (hid : IsHyphenated s.id)
    (hs : s'.id = s.id) (hs' : s'.label = none) (hnew : s.id ∉ d.ids)
    (hlabel : ∀ l ∈ s.label, IsLabel l ∧ IsTrimmed l) :
    ReadsLines .states statement (d.add { states := [s'] }) (s.labelLines layout depth)
      (d.add { states := [{ s' with label := s.label }] }) := by
  -- Without a label there is no line, and with one there is a line of three tokens.
  cases hl : s.label with
  | none =>
    have hsame : { s' with label := none } = s' := by
      cases s'
      cases hs'
      rfl
    rw [State.labelLines, hl, hsame]
    exact .nil
  | some l =>
    have hlines : s.labelLines layout depth = [layout.line depth s!"{s.id} : {l.raw}"] := by
      rw [State.labelLines, hl]
      rfl
    have htext : s!"{s.id} : {l.raw}".toList =
        Token.spacedChars [(.identifier, s.id.toList)] ++ Token.labelChars (some l.raw) := by
      simp [Token.spacedChars, Token.labelChars, toString]
    have hl' : ∀ l' ∈ some l, IsLabel l' ∧ IsTrimmed l' := hl ▸ hlabel
    rw [hlines]
    refine .spaced Dialect.regular_states hlayout depth htext (by simp)
      (List.forall_mem_singleton.2 (isBare_name hid)) (Token.startsBlank_labelChars _)
      (plain_labelChars fun l h => (hl' l h).1) (ofLine_labelChars fun l h => (hl' l h).2)
      (Token.kind_labelTokens _) fun past us nl hnl => ?_
    let t := Token.plain .identifier (layout.pad depth).toList s.id.toList
    let u := Token.plain .colon [' '] [':']
    let v := Token.plain .text [' '] l.raw.toList
    have hread := plainState_tokens (t := t) (u := u) (v := v) past us Token.endOfInput hd
      (hs ▸ hnew) (hl' l rfl).1 (hs ▸ Token.is_plain _ _ _) rfl (Token.is_plain _ _ _) hnl
    refine ⟨nl :: v :: u :: t :: past, ?_⟩
    show statement _ ⟨past, t :: u :: v :: nl :: us, Token.endOfInput⟩ = _
    rw [statement_plainState rfl rfl]
    exact hread

end Lines

/-! ### Transitions -/

/-- The lexeme for an end `id` of a transition: an identifier, or the bracketed star of a
pseudostate. -/
def endWord (id : String) : TokenKind × List Char :=
  (if isPseudostate id then .pseudostate else .identifier, (reference id).toList)

/-- The ids of pseudostates start with a bracket, so an `id` that starts like a word is none. -/
theorem isPseudostate_of_head {id : String} {c : Char} (h : id.toList.head? = some c)
    (hc : isAsciiWord c = true) : isPseudostate id = false := by
  have hne : ∀ other : String, other.toList.head? = some '[' → (id == other) = false := by
    intro other hother
    rw [beq_eq_false_iff_ne]
    rintro rfl
    rw [h] at hother
    cases hother
    exact absurd hc (by decide)
  rw [isPseudostate, hne _ (by decide), hne _ (by decide)]
  rfl

theorem isPseudostate_of_isHyphenated {id : String} (h : IsHyphenated id) :
    isPseudostate id = false := by
  obtain ⟨c, cs, hcs, hc, -⟩ := h.exists_cons
  exact isPseudostate_of_head (by rw [hcs]; rfl) hc

theorem isBare_endWord {id : String} (h : isPseudostate id = true ∨ IsHyphenated id) :
    Token.IsBare Dialect.stateRules (endWord id).1 (endWord id).2 := by
  rcases h with h | h
  · rw [endWord, reference, if_pos h, if_pos h]
    exact isBare_pseudostate
  · have hpseudo := isPseudostate_of_isHyphenated h
    rw [endWord, reference, if_neg (by simp [hpseudo]), if_neg (by simp [hpseudo])]
    exact isBare_name h

/-- The end `id` of a transition is a pseudostate, or a state that is there already. Neither adds a
state. -/
theorem transitionEnd_endWord {id pseudostate : String} (hpseudo : isPseudostate pseudostate = true)
    (h : id = pseudostate ∨ IsHyphenated id ∧ id ∈ d.ids) (gap : List Char) :
    transitionEnd d pseudostate
      ⟨past, Token.plain (endWord id).1 gap (endWord id).2 :: ts, final⟩ =
        .ok ((d, id), ⟨Token.plain (endWord id).1 gap (endWord id).2 :: past, ts, final⟩) := by
  rcases h with rfl | ⟨hid, hmem⟩
  · have hkind : (endWord id).1 = .pseudostate := if_pos hpseudo
    simp [transitionEnd, bind_apply, accept_cons, Token.plain, hkind, Except.bind, pure_apply]
  · have hnot := isPseudostate_of_isHyphenated hid
    have hword : endWord id = (.identifier, id.toList) := by
      rw [endWord, reference, if_neg (by simp [hnot]), if_neg (by simp [hnot])]
    have htext : (Token.plain .identifier gap id.toList).text = id := String.ofList_toList
    rw [hword]
    simp [transitionEnd, bind_apply, accept_cons, Except.bind, stateRef_cons, Token.plain,
      Draft.mention_of_mem, hmem]

theorem transitionLabel_labelTokens (past ts : List Token) (final : Token)
    {label : Option Content} (h : ∀ l ∈ label, IsLabel l) (hnl : nl.kind = .newline) :
    ∃ past', transitionLabel ⟨past, labelTokens label ++ nl :: ts, final⟩ =
      .ok (label, ⟨past', nl :: ts, final⟩) := by
  cases label with
  | none => exact ⟨past, behindColon_of_kind_ne _ (by simp [hnl])⟩
  | some l =>
    have hcontent := content_raw (h l rfl).ofText?
    refine ⟨Token.plain .text [' '] l.raw.toList :: Token.plain .colon [' '] [':'] :: past,
      (behindColon_cons _ rfl rfl).trans ?_⟩
    simp [contentOf, map_apply, Except.bind, Token.plain, hcontent]

/-- A transition `x` of which the ends put nothing into a scope is all that its line adds. -/
theorem transition_tokens (past ts : List Token) (final : Token) {x : Transition}
    (ht : t.start = .origin)
    (hsource : ∀ past ts, transitionEnd d startId ⟨past, t :: ts, final⟩ =
      .ok ((d, x.source), ⟨t :: past, ts, final⟩))
    (hu : u.kind = .transition)
    (htarget : ∀ past ts, transitionEnd d endId ⟨past, v :: ts, final⟩ =
      .ok ((d, x.target), ⟨v :: past, ts, final⟩))
    (hlabel : ∀ l ∈ x.label, IsLabel l) (hnl : nl.kind = .newline) :
    ∃ past', transition d ⟨past, t :: u :: v :: (labelTokens x.label ++ nl :: ts), final⟩ =
      .ok (d.add { transitions := [{ x with position := some .origin }] },
        ⟨past', ts, final⟩) := by
  obtain ⟨past', htext⟩ := transitionLabel_labelTokens (v :: u :: t :: past) ts final hlabel hnl
  refine ⟨nl :: past', ?_⟩
  simp [transition, bind_apply, peek_apply, Except.bind, hsource, expect_cons hu, htarget, htext,
    endStatement_cons, hnl, map_apply, Draft.add, Scope.append, ht]

/-- The line of a transition `x` between states that are there already adds the transition, and no
state. -/
theorem readsLines_transition {layout : Layout} (hlayout : layout.IsBlank) (depth : Nat)
    {x : Transition} (h : x.Readable) (hsource : x.source = startId ∨ x.source ∈ d.ids)
    (htarget : x.target = endId ∨ x.target ∈ d.ids) :
    ReadsLines .states statement d [layout.line depth x.text]
      (d.add { transitions := [{ x with position := some .origin }] }) := by
  have htext : x.text.toList = Token.spacedChars [endWord x.source, (.transition, "-->".toList),
      endWord x.target] ++ Token.labelChars (x.label.map Content.raw) := by
    obtain ⟨source, target, label, position⟩ := x
    cases label <;>
      simp [Transition.text, endWord, Token.spacedChars, Token.labelChars, toString,
        List.intercalate]
  have hstart : isPseudostate startId = true := by decide
  have hend : isPseudostate endId = true := by decide
  have hwords : ∀ w ∈ [endWord x.source, (.transition, "-->".toList), endWord x.target],
      Token.IsBare Dialect.stateRules w.1 w.2 := by
    simp only [List.forall_mem_cons]
    refine ⟨isBare_endWord (h.source.imp_left ?_), isBare_transition,
      isBare_endWord (h.target.imp_left ?_), List.forall_mem_nil _⟩
    · intro he
      rw [he, hstart]
    · intro he
      rw [he, hend]
  refine .spaced Dialect.regular_states hlayout depth htext (by simp) hwords
    (Token.startsBlank_labelChars _) (plain_labelChars fun l hl => (h.label l hl).1)
    (ofLine_labelChars fun l hl => (h.label l hl).2) (Token.kind_labelTokens _)
      fun past us nl hnl => ?_
  let t := Token.plain (endWord x.source).1 (layout.pad depth).toList (endWord x.source).2
  let u := Token.plain .transition [' '] "-->".toList
  let v := Token.plain (endWord x.target).1 [' '] (endWord x.target).2
  have ht : t.kind = .pseudostate ∨ t.kind = .identifier := by
    show (if _ then _ else _) = _ ∨ (if _ then _ else _) = _
    split
    · exact .inl rfl
    · exact .inr rfl
  -- both ends are there already, so reading them puts nothing into a scope
  have hsource' : x.source = startId ∨ IsHyphenated x.source ∧ x.source ∈ d.ids :=
    h.source.elim .inl fun hid => hsource.imp_right fun hmem => ⟨hid, hmem⟩
  have htarget' : x.target = endId ∨ IsHyphenated x.target ∧ x.target ∈ d.ids :=
    h.target.elim .inl fun hid => htarget.imp_right fun hmem => ⟨hid, hmem⟩
  obtain ⟨past', hread⟩ := transition_tokens past us Token.endOfInput (t := t) (u := u) (v := v)
    rfl (fun _ _ => transitionEnd_endWord hstart hsource' _) rfl
    (fun _ _ => transitionEnd_endWord hend htarget' _) (fun l hl => (h.label l hl).1) hnl
  refine ⟨past', ?_⟩
  show statement d ⟨past, t :: u :: v :: (labelTokens x.label ++ nl :: us), Token.endOfInput⟩ = _
  rw [statement_transition ht rfl, hread]

end States
end DiagramText
