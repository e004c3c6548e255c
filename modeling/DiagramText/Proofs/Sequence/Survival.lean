import DiagramText.Proofs.Program.Failures
import DiagramText.Proofs.Sequence.Nesting
import DiagramText.Proofs.Sequence.Registry
import DiagramText.Proofs.Token.Content

/-!
# Messages that are read back

A message that was read is written on a line without spaces. The names in it are identifiers or
numbers that end before a character of neither, and the text behind the colon is taken as it is, so
the line splits into the tokens of the message. The one exception is a target that starts with an
`x` behind a mark that deactivates it: the two make an arrow, and a line with two arrows is none.

* `Sequence.Message.IsScanned`: what the names and the text of a message that was read are.
* `Sequence.message_readsBack_iff`: a message of a document is read back from its own line unless it
  deactivates a target that starts with an `x`.
* `Sequence.message_lost_cross`: a message of a document that is not read back.
-/

namespace DiagramText

open Text Reading

namespace Sequence

/-! ### Messages that were read -/

/-- A name `id` that is one token, a number or an identifier, and stands on one line. -/
def IsScannedName (id : String) : Prop := (∃ kind, IsNameOf kind id) ∧ OnOneLine id.toList

/-- A message `m` of which the names are tokens, and of which the text is one behind a colon. -/
structure Message.IsScanned (m : Message) : Prop where
  source : IsScannedName m.source
  target : IsScannedName m.target
  text : ∀ t ∈ m.text, Token.IsTail t.raw.toList ∧ OnOneLine t.raw.toList ∧
    Content.ofText? t.raw = some t

/-- The clauses of a line, which are none for a line that is about a block. -/
def Line.toClauses : Line → List Clause
  | .clauses cs => cs
  | .blank | .number | .opening _ | .branch _ _ | .closing => []

/-- A line `l` that is taken adds its clauses, wherever in the tree of open blocks they go. -/
theorem Draft.clauses_take {d d' : Draft} {l : Line} (h : d.take? l = some d') :
    d'.clauses = d.clauses ++ l.toClauses := by
  cases l with
  | blank => cases h; exact (List.append_nil _).symm
  | number => cases h; exact (List.append_nil _).symm
  | clauses cs =>
    cases h
    rw [add, clauses_extend, clausesOf_map_clause]
    rfl
  | opening head =>
    cases h
    simp [openBlock, clauses, OpenBlock.contents, Line.toClauses]
  | branch word label =>
    obtain ⟨-, h⟩ := Option.ite_none_right_eq_some.1 h
    cases h
    rw [clauses_branch]
    exact (List.append_nil _).symm
  | closing =>
    obtain ⟨-, h⟩ := Option.ite_none_left_eq_some.1 h
    cases h
    rw [clauses_closeBlock]
    exact (List.append_nil _).symm

/-- Lines `ls` that are taken add their clauses in document order. -/
theorem Draft.clauses_foldlM {d d' : Draft} {ls : List Line} (h : ls.foldlM take? d = some d') :
    d'.clauses = d.clauses ++ ls.flatMap Line.toClauses := by
  induction ls generalizing d with
  | nil =>
    cases h
    exact (List.append_nil _).symm
  | cons l ls ih =>
    rw [List.foldlM_cons] at h
    obtain ⟨d₁, htake, h⟩ := Option.bind_eq_some_iff.1 h
    rw [ih h, clauses_take htake, List.flatMap_cons, List.append_assoc]

/-- A line `l` that tokens spell starts somewhere among the tokens `ts`, and all of them from there
on are a suffix. -/
theorem Spelled.exists_spells {ts : List Token} {ls : List Line} (h : Spelled ts ls) {l : Line}
    (hl : l ∈ ls) : ∃ us vs, Spells us l vs ∧ us <:+ ts := by
  induction h with
  | nil => cases hl
  | @cons ts us l' ls hspells _ ih =>
    rcases List.mem_cons.1 hl with rfl | hl
    · exact ⟨ts, us, hspells, List.suffix_refl ts⟩
    · obtain ⟨us', vs, h, hsuffix⟩ := ih hl
      obtain ⟨t, ws, rfl, hws⟩ := hspells.exists_cons
      exact ⟨us', vs, h, hsuffix.trans (hws.trans (List.suffix_cons t ws))⟩

/-- The names of a message `m` and its text are tokens of its line. -/
theorem Spells.exists_message {ts us : List Token} {cs : List Clause}
    (h : Spells ts (.clauses cs) us) {m : Message} (hm : .message m ∈ cs) :
    ∃ s ∈ ts, ∃ t ∈ ts, IsName s ∧ IsName t ∧ m.source = s.text ∧ m.target = t.text ∧
      ∀ x ∈ m.text, ∃ u ∈ ts, u.kind = .text ∧ Content.ofText? u.text = some x := by
  cases h with
  | participants _ _ _ =>
    obtain ⟨p, -, hp⟩ := List.mem_map.1 hm
    cases hp
  | activation _ _ _ => cases List.mem_singleton.1 hm
  | note _ _ _ _ _ _ _ _ => cases List.mem_singleton.1 hm
  | @message s a t ts us vs _ arrow mark text hs _ _ hmark ht htext _ =>
    cases List.mem_singleton.1 hm
    have hus : ∀ u ∈ us, u ∈ s :: a :: ts := fun u hu =>
      List.mem_cons_of_mem s (List.mem_cons_of_mem a
        (hmark.suffix.subset (List.mem_cons_of_mem t hu)))
    refine ⟨s, List.mem_cons_self, t, ?_, hs, ht, rfl, rfl, fun x hx => ?_⟩
    · exact List.mem_cons_of_mem s (List.mem_cons_of_mem a (hmark.suffix.subset List.mem_cons_self))
    · cases htext with
      | none => cases hx
      | silent _ => cases hx
      | @text colon u _ _ _ hu hlabel =>
        cases hx
        exact ⟨u, hus u (List.mem_cons_of_mem colon List.mem_cons_self), hu, hlabel⟩

/-- The tokens of a segment `s` are lexemes by themselves, and none but line breaks spans lines. -/
theorem alone_of_mem_row {s : Segment} (hs : s.dialect = .sequence) {t : Token} (ht : t ∈ s.row) :
    Piece.Alone Dialect.sequenceRules t.kind t.text.toList ∧
      (t.kind ≠ .newline → OnOneLine t.text.toList) := by
  have hmem : t ∈ s.tokens := (List.dropLast_sublist _).subset (List.mem_of_mem_filter ht)
  rw [Segment.tokens, hs] at hmem
  exact Token.alone_scan Dialect.regular_sequence hmem (s.below_tokens.inner t ht)

/-- A token `t` that names a participant is a name by itself, since its kind tells which rule
measured it. -/
theorem isScannedName_of_mem_row {s : Segment} (hs : s.dialect = .sequence) {t : Token}
    (ht : t ∈ s.row) (hname : IsName t) : IsScannedName t.text := by
  obtain ⟨halone, hline⟩ := alone_of_mem_row hs ht
  refine ⟨⟨t.kind, hname, ?_⟩, hline (hname.kind_ne (by decide))⟩
  unfold IsName at hname
  generalize t.kind = kind at halone hname
  cases halone with
  | text _ => exact absurd hname (by decide)
  | newline _ => exact absurd hname (by decide)
  | lexeme hfirst => exact hfirst

/-- A token `t` that is a text is one behind a colon, for no other rule gives texts. -/
theorem isTail_of_mem_row {s : Segment} (hs : s.dialect = .sequence) {t : Token} (ht : t ∈ s.row)
    (hkind : t.kind = .text) : Token.IsTail t.text.toList ∧ OnOneLine t.text.toList := by
  obtain ⟨halone, hline⟩ := alone_of_mem_row hs ht
  rw [hkind] at halone hline
  refine ⟨?_, hline (by decide)⟩
  cases halone with
  | text htail => exact htail
  | lexeme hfirst =>
    -- no rule gives a text
    have hrules : ∀ k ∈ (Rule.common ++ Dialect.sequenceRules).map Prod.fst, k ≠ .text := by decide
    obtain ⟨r, hr, hrkind, -⟩ := Rule.exists_of_first hfirst (by decide)
    exact absurd hrkind (hrules r.1 (List.mem_map_of_mem hr))

theorem Opens.suffix {ts us : List Token} (h : Opens ts us) : us <:+ ts := by
  obtain @⟨breaks, ts, us, t, -, -, hend⟩ := h
  exact hend.suffix.trans ((List.suffix_cons t ts).trans (List.suffix_append breaks _))

/-- The messages of a diagram that was read have names and texts that are tokens:
`Message.IsScanned` of each. -/
theorem isScanned_of_isRead {d : SequenceDiagram} (h : (Diagram.sequence d).IsRead) {m : Message}
    (hm : .message m ∈ d.clauses) : m.IsScanned := by
  obtain ⟨s, c, hs, hdiagram⟩ := h.exists_segment
  obtain ⟨⟨d', c'⟩, hread, heq⟩ := Except.map_eq_ok_iff.1 hdiagram
  obtain rfl : d' = d := Diagram.sequence.inj (congrArg Prod.fst heq)
  obtain ⟨ls, draft, ⟨us, hopens, hls⟩, hfold, hopened, rfl⟩ :=
    ((parses_read s.below_tokens.final_kind).sound _ _ _ _ hread).2.1
  -- Clauses of the diagram are those of its lines, of which the tokens are in the row of the
  -- segment.
  have hclauses : draft.clauses = ls.flatMap Line.toClauses := by
    rw [Draft.clauses_foldlM hfold]
    simp [Draft.clauses]
  rw [Draft.clauses, hopened] at hclauses
  have hdiagram : draft.diagram.clauses = clausesOf draft.statements := rfl
  rw [hdiagram, ← List.append_nil (clausesOf _)] at hm
  obtain ⟨l, hl, hm⟩ := List.mem_flatMap.1 (hclauses ▸ hm)
  obtain ⟨cs, rfl⟩ : ∃ cs, l = .clauses cs := by
    cases l with
    | clauses cs => exact ⟨cs, rfl⟩
    | _ => cases hm
  obtain ⟨vs, ws, hspells, hsuffix⟩ := hls.exists_spells hl
  have hrow : vs ⊆ s.row := (hsuffix.trans hopens.suffix).subset
  obtain ⟨source, hsource, target, htarget, hname, hname', hs₁, hs₂, htext⟩ :=
    hspells.exists_message hm
  constructor
  · rw [hs₁]
    exact isScannedName_of_mem_row hs (hrow hsource) hname
  · rw [hs₂]
    exact isScannedName_of_mem_row hs (hrow htarget) hname'
  · intro x hx
    obtain ⟨u, hu, hkind, hlabel⟩ := htext x hx
    have hraw : x.raw = u.text := by rw [Content.eq_ofText hlabel, Content.raw_ofText]
    obtain ⟨htail, hline⟩ := isTail_of_mem_row hs (hrow hu) hkind
    rw [hraw]
    exact ⟨htail, hline, hlabel⟩

/-! ### Lines of messages -/

/-- The diagram of one message `m`, as a program has to hold it to be written. Its participants are
the ends of the message. -/
def Message.alone (m : Message) : SequenceDiagram where
  statements := [.clause (.message m)]
  participants := Registry.enter [] (.message m)

/-- The message `m` is written on one line, behind the header. -/
theorem Message.lines_alone (m : Message) (layout : Layout) :
    m.alone.lines layout = ["sequenceDiagram", layout.line 1 m.line] := by
  rw [SequenceDiagram.lines, Agenda.lines_body, Agenda.lines_nil, agenda_items, alone, bodyItems]
  dsimp only
  rw [List.flatMap_singleton, Statement.items, Agenda.lines_lines, Agenda.lines_nil]
  rfl

variable {m : Message} {layout : Layout}

/-- The line of a message `m` that was read is one line, in every `layout` with a blank indent. -/
theorem Message.IsScanned.onOneLine (h : m.IsScanned) (hlayout : layout.IsBlank) :
    OnOneLine (layout.line 1 m.line).toList := by
  have harrow : Plain m.arrow.text.toList := by
    cases m.arrow <;> decide
  have hmark : Plain (markChars m.activation) := by
    rcases m.activation with _ | _ | _ <;> decide
  have htext : OnOneLine (textChars m.text) := by
    cases ht : m.text with
    | none => exact nofun
    | some t =>
      have hcolon : Plain [':', ' '] := by decide
      exact (onOneLine_of_plain hcolon).append (h.text t ht).2.1
  rw [Layout.line, String.toList_append, toList_message]
  refine (onOneLine_of_blank (Layout.isSpaceOrTab_of_mem_pad hlayout 1)).append
    (h.source.2.append ((onOneLine_of_plain harrow).append ?_))
  exact (onOneLine_of_plain hmark).append (h.target.2.append htext)

/-- The row of the line, unless the message deactivates a target that starts with an `x`. -/
theorem fullLine_message {kind kind' : TokenKind} (hsource : IsNameOf kind m.source)
    (htarget : IsNameOf kind' m.target)
    (hmark : m.activation = some .deactivate → m.target.toList.head? ≠ some 'x')
    (htext : ∀ t ∈ m.text, Token.IsTail t.raw.toList) (hlayout : layout.IsBlank) :
    Token.fullLine .sequence (layout.line 1 m.line) =
      Token.plain kind (layout.pad 1).toList m.source.toList ::
        Token.plain .arrow [] m.arrow.text.toList :: (markTokens m.activation ++
          Token.plain kind' [] m.target.toList :: (textTokens m.text ++
            [Token.lineBreak .sequence (layout.line 1 m.line).toList])) := by
  have hrow := ofLine_message hsource htarget hmark htext (layout.pad 1).toList
  have hname : ∀ {kind : TokenKind} {id : String}, IsNameOf kind id → kind ≠ .comment := by
    rintro kind id h rfl
    exact absurd h.mem (by decide)
  have hmarks : ∀ t ∈ markTokens m.activation, t.kind ≠ .comment := by
    rcases m.activation with _ | _ | _ <;> decide
  have hkinds : ∀ t ∈ Token.plain kind (layout.pad 1).toList m.source.toList ::
      Token.plain .arrow [] m.arrow.text.toList :: (markTokens m.activation ++
        Token.plain kind' [] m.target.toList :: textTokens m.text), t.kind ≠ .comment :=
    List.forall_mem_cons.2 ⟨hname hsource, List.forall_mem_cons.2 ⟨Token.kind_plain_ne (by decide),
      List.forall_mem_append.2 ⟨hmarks, List.forall_mem_cons.2 ⟨hname htarget, kind_textTokens _⟩⟩⟩⟩
  rw [Token.fullLine_line Dialect.regular_sequence.skipsBlanks hlayout 1 hrow hkinds]
  simp

/-- With a target that starts with an `x` behind a minus, the line has two arrows, one after the
other. -/
theorem exists_fullLine_cross {kind kind' : TokenKind} (hsource : IsNameOf kind m.source)
    (htarget : IsNameOf kind' m.target) (hmark : m.activation = some .deactivate)
    (hx : m.target.toList.head? = some 'x') (hlayout : layout.IsBlank) :
    ∃ ts, Token.fullLine .sequence (layout.line 1 m.line) =
      Token.plain kind (layout.pad 1).toList m.source.toList ::
        Token.plain .arrow [] m.arrow.text.toList :: Token.plain .arrow [] ['-', 'x'] :: ts := by
  obtain ⟨cs, hcs⟩ : ∃ cs, m.target.toList = 'x' :: cs := List.head?_eq_some_iff.1 hx
  have hcross : markChars m.activation ++ (m.target.toList ++ textChars m.text) =
      ['-', 'x'] ++ (cs ++ textChars m.text) := by
    rw [hmark, hcs]
    rfl
  have hrow := ofLine_message_start hsource htarget (layout.pad 1).toList
  rw [hcross, Token.ofLine_lexeme Dialect.regular_sequence (by decide) (by decide) (first_cross _)
    (by decide)] at hrow
  have hkind : Token.isRead (Token.plain kind (layout.pad 1).toList m.source.toList) = true := by
    refine bne_iff_ne.2 ?_
    rintro (rfl : kind = .comment)
    exact absurd hsource.mem (by decide)
  rw [Token.fullLine, Layout.line, String.toList_append, Dialect.regular_sequence.skipsBlanks _
    (Layout.isSpaceOrTab_of_mem_pad hlayout 1), List.nil_append, hrow,
    List.filter_cons_of_pos hkind, List.filter_cons_of_pos (by rfl),
    List.filter_cons_of_pos (by rfl)]
  exact ⟨_, rfl⟩

/-! ### Reading the lines -/

/-- Tokens behind a keyword do not start with an arrow, so a keyword before an arrow is a name. -/
theorem not_label_arrow {a : Token} {ts us vs label : List Token} (ha : a.kind = .arrow)
    (hrow : a :: ts = label ++ us) (hlabel : IsLabel label) : ¬Ends us vs := by
  intro hend
  cases label with
  | nil =>
    obtain rfl : a :: ts = us := hrow
    cases hend with
    | line h =>
      rw [ha] at h
      rcases h with h | h <;> cases h
  | cons b label =>
    obtain ⟨rfl, -⟩ := List.cons.inj hrow
    exact hlabel.2 a rfl ha

/-- A name before two arrows starts no line, whatever rule is tried. -/
theorem not_spells_arrows {s a b : Token} {ts us : List Token} {l : Line} (hs : IsName s)
    (ha : a.kind = .arrow) (hb : b.kind = .arrow) : ¬Spells (s :: a :: b :: ts) l us := by
  intro h
  have hname : ∀ t : Token, t.kind = .arrow → ¬IsName t := by
    intro t ht h
    exact h.kind_ne (by decide) ht
  have hends : ∀ vs : List Token, ¬Ends (a :: b :: ts) vs := fun vs =>
    not_label_arrow ha (List.nil_append _).symm ⟨nofun, nofun⟩
  -- Every rule of a line that starts with a name wants something else behind the first arrow.
  generalize hrow : s :: a :: b :: ts = row at h
  cases h with
  | blank ht =>
    cases hrow
    exact hs.kind_ne (by decide) ht
  | closing _ hend =>
    cases hrow
    exact hends _ hend
  | branch _ _ hlabel hend => exact not_label_arrow ha (List.cons.inj hrow).2 hlabel hend
  | opening _ hlabel hend => exact not_label_arrow ha (List.cons.inj hrow).2 hlabel hend
  | number _ hlabel hend => exact not_label_arrow ha (List.cons.inj hrow).2 hlabel hend
  | participants _ hps _ =>
    cases hrow
    cases hps with
    | plain ht => exact hname a ha ht
    | labelled ht _ _ => exact hname a ha ht
    | more ht _ _ => exact hname a ha ht
  | activation _ hu _ =>
    cases hrow
    exact hname a ha hu
  | note _ hplacement _ _ _ _ _ _ =>
    cases hrow
    have hword : ∀ words, ¬a.isWord words = true := by
      intro words h
      have hkind := kind_of_isWord h
      rw [ha] at hkind
      cases hkind
    cases hplacement with
    | across ht => exact hword _ ht
    | leftOf ht _ => exact hword _ ht
    | rightOf ht _ => exact hword _ ht
  | message _ _ _ hmark ht _ _ =>
    cases hrow
    cases hmark with
    | none => exact hname b hb ht
    | activate h =>
      rw [hb] at h
      cases h
    | deactivate h =>
      rw [hb] at h
      cases h

/-- Lines behind the header are read as the lines that their tokens spell, and `Spelled` is all that
has to be shown of them. -/
theorem diagram_lines_iff {ls : List String} {u : Diagram} :
    (∃ e c, diagram .sequence ⟨[], ("sequenceDiagram" :: ls).flatMap (Token.fullLine .sequence),
        Token.endOfInput⟩ = .ok (e, c) ∧ e.unplaced = u) ↔
      ∃ lines d, Spelled (ls.flatMap (Token.fullLine .sequence)) lines ∧
        lines.foldlM Draft.take? {} = some d ∧ d.opened = [] ∧
          (Diagram.sequence d.diagram).unplaced = u := by
  have hfinal : Token.endOfInput.kind = .endOfInput := rfl
  rw [List.flatMap_cons, fullLine_header, List.cons_append, List.singleton_append]
  generalize ls.flatMap (Token.fullLine .sequence) = row
  let header := Token.plain .identifier [] "sequenceDiagram".toList
  let nl := Token.lineBreak .sequence "sequenceDiagram".toList
  -- the header is always read, so only the lines behind it matter
  have hopens : Opens (header :: nl :: row) row := by
    have hword : header.isWord ["sequencediagram"] = true := by decide +kernel
    have hbehind : Opens ([] ++ header :: nl :: row) row := .mk nofun hword (.line (.inl rfl))
    exact hbehind
  constructor
  · rintro ⟨e, c, hdiagram, rfl⟩
    obtain ⟨⟨d, c'⟩, hread, heq⟩ := Except.map_eq_ok_iff.1 hdiagram
    obtain rfl : Diagram.sequence d = e := congrArg Prod.fst heq
    obtain ⟨lines, draft, ⟨us, hopens', hlines⟩, hfold, hopened, rfl⟩ :=
      ((parses_read hfinal).sound _ _ _ _ hread).2.1
    obtain ⟨-, rfl⟩ := (parses_header hfinal).unique (a := ()) (b := ()) hopens hopens'
    exact ⟨lines, draft, hlines, hfold, hopened, rfl⟩
  · rintro ⟨lines, d, hlines, hfold, hopened, rfl⟩
    obtain ⟨past, hread⟩ := (parses_read hfinal).complete [] (header :: nl :: row) d.diagram []
      ⟨⟨lines, d, ⟨row, hopens, hlines⟩, hfold, hopened, rfl⟩, rfl⟩
    refine ⟨.sequence d.diagram, ⟨past, [], Token.endOfInput⟩, ?_, rfl⟩
    show diagram .sequence ⟨[], header :: nl :: row, Token.endOfInput⟩ = _
    rw [diagram, map_apply, hread]
    rfl

/-- The tokens of the line spell the message `m`, if no mark and target make an arrow. -/
theorem spells_message {kind kind' : TokenKind} (hsource : kind ∈ nameKinds)
    (htarget : kind' ∈ nameKinds) (htext : ∀ t ∈ m.text, Content.ofText? t.raw = some t)
    (gap : List Char) {nl : Token} (hnl : nl.kind = .newline) :
    Spells (Token.plain kind gap m.source.toList :: Token.plain .arrow [] m.arrow.text.toList ::
      (markTokens m.activation ++ Token.plain kind' [] m.target.toList ::
        (textTokens m.text ++ [nl]))) (.clauses [(Clause.message m).atOrigin]) [] := by
  have harrow : Arrow.ofText? (String.ofList m.arrow.text.toList) = some m.arrow := by
    rw [String.ofList_toList]
    cases m.arrow <;> rfl
  have hmark : ∀ {t : Token} {us : List Token},
      Marks (markTokens m.activation ++ t :: us) m.activation (t :: us) := by
    intro t us
    match m.activation with
    | none => exact .none
    | some .activate => exact .activate rfl
    | some .deactivate => exact .deactivate rfl
  have hsays : Says (textTokens m.text ++ [nl]) m.text [nl] := by
    cases ht : m.text with
    | none => exact .none
    | some t =>
      have hlabel : Content.ofText? (String.ofList t.raw.toList) = some t := by
        rw [String.ofList_toList]
        exact htext t ht
      exact .text rfl rfl hlabel
  -- the tokens of the line are what the grammar asks for, part by part
  have hspells := Spells.message (s := Token.plain kind gap m.source.toList)
    (a := Token.plain .arrow [] m.arrow.text.toList)
    (t := Token.plain kind' [] m.target.toList) hsource rfl harrow hmark htarget hsays
    (.line (.inl hnl))
  rw [(Token.is_plain _ _ _).2.1, (Token.is_plain _ _ _).2.1] at hspells
  exact hspells

/-- A message of a document is read back from the line that is written for it, if and only if it
does not deactivate a target that starts with an `x`. -/
theorem message_readsBack_iff {layout : Layout} (hlayout : layout.IsBlank) {src : String}
    {p : Program} (hread : Program.read src = .ok p) {d : SequenceDiagram}
    (hd : .sequence d ∈ p.diagrams) {m : Message} (hm : .message m ∈ d.clauses) :
    (∃ e, (Segment.mk .sequence (m.alone.write layout ++ "\n") 1 0).read = .ok e ∧
        e.unplaced = (Diagram.sequence m.alone).unplaced) ↔
      ¬(m.activation = some .deactivate ∧ m.target.toList.head? = some 'x') := by
  have h := isScanned_of_isRead ⟨src, p, hread, hd⟩ hm
  obtain ⟨kind, hsource⟩ := h.source.1
  obtain ⟨kind', htarget⟩ := h.target.1
  have hlines : ∀ l ∈ ["sequenceDiagram", layout.line 1 m.line], OnOneLine l.toList := by
    have hheader : Plain "sequenceDiagram".toList := by decide
    exact List.forall_mem_cons.2 ⟨onOneLine_of_plain hheader,
      List.forall_mem_singleton.2 (h.onOneLine hlayout)⟩
  rw [Segment.read_iff_row, SequenceDiagram.write, m.lines_alone]
  dsimp only
  rw [ofText_lines .sequence hlines, diagram_lines_iff, List.flatMap_singleton]
  constructor
  -- the mark and the target are scanned as a second arrow, and no line has two
  · rintro ⟨ls, e, hspelled, -, -, -⟩ ⟨hmark, hx⟩
    obtain ⟨ts, hrow⟩ := exists_fullLine_cross hsource htarget hmark hx hlayout
    have hname : IsName (Token.plain kind (layout.pad 1).toList m.source.toList) := hsource.mem
    rw [hrow] at hspelled
    cases hspelled with
    | cons hspells _ => exact not_spells_arrows hname rfl rfl hspells
  -- the tokens are those of the message, which is thus all that the line spells
  · intro hcross
    have hrow := fullLine_message hsource htarget (fun hmark hx => hcross ⟨hmark, hx⟩)
      (fun t ht => (h.text t ht).1) hlayout
    have hbreak : (Token.lineBreak .sequence (layout.line 1 m.line).toList).kind = .newline := rfl
    have hspells := spells_message hsource.mem htarget.mem (fun t ht => (h.text t ht).2.2)
      (layout.pad 1).toList hbreak
    rw [← hrow] at hspells
    exact ⟨[.clauses [(Clause.message m).atOrigin]], _, .cons hspells .nil, rfl, rfl, rfl⟩

/-- A number is the name of a participant, a text holds a colon and what would be a comment
elsewhere, and the message stands in a block. -/
theorem message_readsBack_number : ∃ d m e,
    Program.read "sequenceDiagram\nloop\n1.5 --) - end : a: %% b \nend\n" = .ok ⟨[.sequence d]⟩ ∧
    .message m ∈ d.clauses ∧ m.line = "1.5--)-end: a: %% b" ∧
    (Segment.mk .sequence (m.alone.write ⟨"\t"⟩ ++ "\n") 1 0).read = .ok e ∧
    e.unplaced = (Diagram.sequence m.alone).unplaced := by
  let m : Message :=
    ⟨"1.5", "end", .dottedAsync, some (.plain "a: %% b"), some .deactivate, some ⟨3, 0, 21⟩⟩
  let d : SequenceDiagram := ⟨[.block ⟨.loop, none, some ⟨2, 0, 16⟩⟩ [.clause (.message m)] []],
    false, [{ id := "1.5" }, { id := "end" }]⟩
  have hread : Program.read "sequenceDiagram\nloop\n1.5 --) - end : a: %% b \nend\n" =
      .ok ⟨[.sequence d]⟩ := by decide +kernel
  have hm : .message m ∈ d.clauses := by decide +kernel
  have hcross : ¬(m.activation = some .deactivate ∧ m.target.toList.head? = some 'x') := by decide
  have hlayout : Layout.IsBlank ⟨"\t"⟩ := by simp [Layout.IsBlank, isSpaceOrTab]
  obtain ⟨e, he, hu⟩ := (message_readsBack_iff hlayout hread List.mem_cons_self hm).2 hcross
  exact ⟨d, m, e, hread, hm, by decide +kernel, he, hu⟩

/-- A message that deactivates a target that starts with an `x` is lost: a space stands between the
mark and the target in the document, but none is written, and the line with two arrows is not
read. -/
theorem message_lost_cross : ∃ d m, Program.read "sequenceDiagram\nA->>- xB\n" =
      .ok ⟨[.sequence d]⟩ ∧ d.clauses = [.message m] ∧
    Program.write {} ⟨[.sequence d]⟩ = "sequenceDiagram\n    A->>-xB\n" ∧
    ∀ p, Program.read (Program.write {} ⟨[.sequence d]⟩) ≠ .ok p := by
  let m : Message := ⟨"A", "xB", .solidArrow, none, some .deactivate, some ⟨2, 0, 16⟩⟩
  let d : SequenceDiagram := ⟨[.clause (.message m)], false, [{ id := "A" }, { id := "xB" }]⟩
  have hlost : (Program.read (Program.write {} ⟨[.sequence d]⟩)).toOption = none := by
    decide +kernel
  refine ⟨d, m, by decide +kernel, by decide +kernel, by decide +kernel, fun p hp => ?_⟩
  rw [hp] at hlost
  cases hlost

end Sequence
end DiagramText
