import DiagramText.Proofs.Flowchart.Reader
import DiagramText.Proofs.Flowchart.Row

/-!
# Reading written lines of flowcharts

* `Flowchart.statement_clause`: the line of a clause is read as the clause.
* `Flowchart.statement_open`, `Flowchart.statement_direction` and `Flowchart.statement_end`: the
  lines of a subgraph open it, set its direction and close it.
-/

namespace DiagramText

open Text Reading

namespace Flowchart

/-- The clause as it is read from tokens at the origin. A node without a shape has no position. -/
def Clause.atOrigin : Clause → Clause
  | .node n _ => .node n (if n.isBare then none else some .origin)
  | .edge e => .edge { e with position := some .origin }
  | c => c

theorem Clause.unplaced_atOrigin (c : Clause) : c.atOrigin.unplaced = c.unplaced := by
  cases c <;> rfl

theorem Registry.enter_atOrigin (nodes : List Node) (c : Clause) :
    enter nodes c.atOrigin = enter nodes c := by
  cases c <;> rfl

/-! ### Parts of a line -/

variable {d : Draft} {past ts : List Token} {t u nl final : Token}

/-- The label of a token `t` is what was written as its text, if it survives between its
delimiters. -/
theorem labelOf_labelText {closers : List (List Char)} {l : Content} (h : SurvivesAs closers l)
    (ht : t.text = labelText l.raw) (c : Cursor) : labelOf (some t) c = .ok (some l, c) := by
  have hinner := h.1.innerText_labelText
  have hne : l.raw.isEmpty = false := by simpa using h.1.ne_empty
  simp [labelOf, ht, hinner, hne, map_apply, content_raw h.2, Except.bind]

theorem labelOf_none (c : Cursor) : labelOf none c = .ok (none, c) := rfl

theorem reference_bare (past ts : List Token) (final : Token) (ht : t.kind = .identifier)
    (hu : u.kind ≠ .shapeOpen) :
    reference ⟨past, t :: u :: ts, final⟩ = .ok (⟨t.text, none⟩, ⟨t :: past, u :: ts, final⟩) := by
  simp [reference, bind_apply, expect_cons ht, accept_cons, hu, Except.bind, pure_apply]

/-- The delimiters of a shape `s` are those of no other. -/
theorem shapeOf?_delimiters (s : Shape) :
    shapeOf? (delimiters s).1 (delimiters s).2 = some s := by
  cases s <;> decide

theorem reference_shaped {n : Node} (h : ∀ l ∈ n.label, SurvivesAs (closersOf n.shape) l)
    (past ts : List Token) (final : Token) (ht : t.kind = .identifier) (hid : t.text = n.id)
    (hstart : t.start = .origin) :
    ∃ past', reference ⟨past, t :: (shapeTokens n.shape (labelChars n.label) ++ ts), final⟩ =
      .ok (⟨n.id, some (.node n (some .origin))⟩, ⟨past', ts, final⟩) := by
  obtain ⟨id, label, shape⟩ := n
  let opener := Token.plain .shapeOpen [] (delimiters shape).1.toList
  let closer := Token.plain .shapeClose [] (delimiters shape).2.toList
  have hshape : shapeOf? opener.text closer.text = some shape := by
    show shapeOf? (String.ofList _) (String.ofList _) = _
    rw [String.ofList_toList, String.ofList_toList, shapeOf?_delimiters]
  have hopener : opener.kind = .shapeOpen := rfl
  have hcloser : closer.kind = .shapeClose := rfl
  cases label with
  | none =>
    have hrow : shapeTokens shape (labelChars none) = [opener, closer] := rfl
    refine ⟨closer :: opener :: t :: past, ?_⟩
    rw [hrow]
    simp [reference, bind_apply, expect_cons ht, accept_cons, hopener, hcloser, Except.bind,
      expect_cons hcloser, hshape, map_apply, labelOf_none, hid, hstart]
  -- A written label is not empty, so there is a token for it.
  | some l =>
    let text := Token.plain .label [] (labelText l.raw).toList
    have hcontent := h l rfl
    have hrow : shapeTokens shape (labelChars (some l)) = [opener, text, closer] := by
      show _ :: ((if (labelText l.raw).toList = [] then [] else [text]) ++ [closer]) = _
      rw [if_neg (labelText_ne_nil l.raw)]
      rfl
    have htext : text.kind = .label := rfl
    have hlabel := labelOf_labelText (t := text) hcontent String.ofList_toList
    refine ⟨closer :: text :: opener :: t :: past, ?_⟩
    rw [hrow]
    simp [reference, bind_apply, expect_cons ht, accept_cons, hopener, htext, Except.bind,
      expect_cons hcloser, hshape, map_apply, hlabel, hid, hstart]

/-- A group of one reference ends before a token `t` that is no ampersand. -/
theorem group_single {c : Cursor} {r : Reference}
    (h : reference c = .ok (r, ⟨past, t :: ts, final⟩))
    (ht : t.kind ≠ .ampersand) : group c = .ok ([r], ⟨past, t :: ts, final⟩) := by
  have hmore : moreReferences [r] ⟨past, t :: ts, final⟩ = .ok ([r], ⟨past, t :: ts, final⟩) := by
    rw [moreReferences]
    refine loop_inr ?_
    simp [bind_apply, accept_cons, ht, Except.bind, pure_apply]
  simp [group, bind_apply, h, Except.bind, hmore]

/-- A chain ends before a token `t` that is no edge. -/
theorem links_nil (past ts : List Token) (final : Token) (ht : t.kind ≠ .edge) :
    links ⟨past, t :: ts, final⟩ = .ok ([], ⟨past, t :: ts, final⟩) := by
  rw [links]
  refine loop_inr ?_
  simp [bind_apply, accept_cons, ht, Except.bind, pure_apply]

/-! ### Nodes and edges -/

theorem chain_bare (ht : t.kind = .identifier) (hnl : nl.kind = .newline) :
    chain ⟨past, t :: nl :: ts, final⟩ =
      .ok ([.node (Node.bare t.text) none], ⟨nl :: t :: past, ts, final⟩) := by
  have hgroup := group_single (reference_bare past ts final ht
    (by rw [hnl]; decide : nl.kind ≠ .shapeOpen)) (by rw [hnl]; decide)
  have hlinks := links_nil (t :: past) ts final
    (by rw [hnl]; decide : nl.kind ≠ .edge)
  simp [chain, bind_apply, hgroup, Except.bind, hlinks, map_apply, endStatement_cons, hnl,
    chainClauses]

theorem chain_shaped {n : Node} (h : ∀ l ∈ n.label, SurvivesAs (closersOf n.shape) l)
    (past ts : List Token) (final : Token) (ht : Token.Is t .identifier n.id)
    (hnl : nl.kind = .newline) :
    ∃ past', chain ⟨past, t :: (shapeTokens n.shape (labelChars n.label) ++ nl :: ts), final⟩ =
      .ok ([.node n (some .origin)], ⟨past', ts, final⟩) := by
  obtain ⟨past', href⟩ := reference_shaped h past (nl :: ts) final ht.1 ht.2.1 ht.2.2
  have hgroup := group_single href (by rw [hnl]; decide)
  have hlinks := links_nil past' ts final
    (by rw [hnl]; decide : nl.kind ≠ .edge)
  refine ⟨nl :: past', ?_⟩
  simp [chain, bind_apply, hgroup, Except.bind, hlinks, map_apply, endStatement_cons, hnl,
    chainClauses]

theorem ofText?_text (kind : EdgeKind) : EdgeKind.ofText? kind.text = some kind := by
  cases kind <;> rfl

/-- The tokens of an edge `e` behind its source are read as one link, with the target as its only
one. -/
theorem links_edge {e : Edge} (h : (Clause.edge e).Legible) (gap : List Char) (past ts : List Token)
    (final : Token) (hnl : nl.kind = .newline) : ∃ past',
      links ⟨past, (e.tokens gap).tail ++ nl :: ts, final⟩ =
        .ok ([⟨e.kind, e.label, .origin, [⟨e.target, none⟩]⟩], ⟨past', nl :: ts, final⟩) := by
  let op := Token.plain .edge [' '] e.kind.text.toList
  have hop : Token.Is op .edge e.kind.text := Token.is_plain _ _ _
  have hkind : ∀ c, edgeKind op c = .ok (e.kind, c) := by
    intro c
    rw [edgeKind, hop.2.1, ofText?_text]
    rfl
  have htarget : ∀ past gap, group ⟨past, Token.plain .identifier gap e.target.toList :: nl :: ts,
      final⟩ =
      .ok ([⟨e.target, none⟩], ⟨Token.plain .identifier gap e.target.toList :: past, nl :: ts,
        final⟩) := by
    intro past gap
    have hgroup := group_single (reference_bare past ts final
      (t := Token.plain .identifier gap e.target.toList) rfl
      (by rw [hnl]; decide : nl.kind ≠ .shapeOpen)) (by rw [hnl]; decide)
    rw [hgroup, (Token.is_plain .identifier gap e.target).2.1]
  rw [links]
  cases hl : e.label with
  -- Without a label, the target stands right behind the operator.
  | none =>
    let target := Token.plain .identifier [' '] e.target.toList
    have hrow : (e.tokens gap).tail = [op, target] := by
      rw [Edge.tokens, hl]
      rfl
    refine ⟨target :: op :: past, ?_⟩
    rw [hrow]
    have hnone : ∀ past, accept .edgeLabel ⟨past, target :: nl :: ts, final⟩ =
        .ok (none, ⟨past, target :: nl :: ts, final⟩) := fun _ => accept_cons _
    refine (loop_inl (?_ : _ = Except.ok (Sum.inl [⟨e.kind, none, .origin, [⟨e.target, none⟩]⟩],
      ⟨target :: op :: past, nl :: ts, final⟩)) ?_).trans (loop_inr ?_)
    · simp [bind_apply, accept_cons, hop.1, hop.2.2, Except.bind, hkind, hnone, htarget, target,
        labelOf_none, map_apply]
    · simp only [List.cons_append, List.nil_append, List.length_cons]
      omega
    · simp [bind_apply, accept_cons, hnl, Except.bind, pure_apply]
  -- With a label, the token of the label stands between them.
  | some l =>
    let text := Token.plain .edgeLabel ['|'] (labelText l.raw).toList
    let target := Token.plain .identifier ['|', ' '] e.target.toList
    have hrow : (e.tokens gap).tail = [op, text, target] := by
      rw [Edge.tokens, hl]
      rfl
    have hlabel := labelOf_labelText (t := text) (h.2.2 l hl) String.ofList_toList
    refine ⟨target :: text :: op :: past, ?_⟩
    rw [hrow]
    have hsome : ∀ past, accept .edgeLabel ⟨past, text :: target :: nl :: ts, final⟩ =
        .ok (some text, ⟨text :: past, target :: nl :: ts, final⟩) := fun _ => accept_cons _
    refine (loop_inl (?_ : _ = Except.ok (Sum.inl [⟨e.kind, some l, .origin, [⟨e.target, none⟩]⟩],
      ⟨target :: text :: op :: past, nl :: ts, final⟩)) ?_).trans (loop_inr ?_)
    · simp [bind_apply, accept_cons, hop.1, hop.2.2, Except.bind, hkind, hsome, htarget, target,
        hlabel, map_apply]
    · simp only [List.cons_append, List.nil_append, List.length_cons]
      omega
    · simp [bind_apply, accept_cons, hnl, Except.bind, pure_apply]

theorem chain_edge {e : Edge} (h : (Clause.edge e).Legible) (gap : List Char)
    (past ts : List Token) (final : Token) (hnl : nl.kind = .newline) : ∃ past',
      chain ⟨past, e.tokens gap ++ nl :: ts, final⟩ =
        .ok ([(Clause.edge e).atOrigin], ⟨past', ts, final⟩) := by
  let source := Token.plain .identifier gap e.source.toList
  let op := Token.plain .edge [' '] e.kind.text.toList
  obtain ⟨rest, hrest⟩ : ∃ rest, (e.tokens gap).tail = op :: rest := by
    rw [Edge.tokens]
    cases e.label <;> exact ⟨_, rfl⟩
  have hrow : e.tokens gap ++ nl :: ts = source :: ((e.tokens gap).tail ++ nl :: ts) := rfl
  obtain ⟨past', hlinks⟩ := links_edge h gap (source :: past) ts final hnl
  rw [hrest, List.cons_append] at hlinks
  have hop : op.kind ≠ .shapeOpen ∧ op.kind ≠ .ampersand :=
    ⟨Token.kind_plain_ne (by decide), Token.kind_plain_ne (by decide)⟩
  have hgroup := group_single (reference_bare past (rest ++ nl :: ts) final
    (rfl : source.kind = .identifier) hop.1) hop.2
  have hsource : source.text = e.source := String.ofList_toList
  refine ⟨nl :: past', ?_⟩
  rw [hrow, hrest, List.cons_append]
  simp [chain, bind_apply, hgroup, Except.bind, hlinks, map_apply, endStatement_cons, hnl,
    chainClauses, chainEdges, Link.edges, hsource, Clause.atOrigin]

/-! ### Keyword lines -/

/-- Styles are taken as they were written: as the rest of a line, up to its break `nl`. -/
theorem restOfStatement_styles {styles : String} (h : IsStyles styles) (past ts : List Token)
    (final : Token) (hnl : nl.kind = .newline) : ∃ past',
      restOfStatement ⟨past, Token.flow true [' '] styles.toList ++ nl :: ts, final⟩ =
        .ok (styles, ⟨past', nl :: ts, final⟩) := by
  have hpass : ∀ u ∈ Token.flow true [' '] styles.toList,
      u.kind.endsStatement = false ∧ u.kind ∉ ([] : List TokenKind) := fun u hu =>
    ⟨(Token.kind_flow true (by decide) h.isStyle u hu).1, List.not_mem_nil⟩
  refine ⟨(Token.flow true [' '] styles.toList).reverse ++ past, ?_⟩
  rw [restOfStatement, rawUntil_append hpass (.inl (by rw [hnl]; rfl)),
    Token.trim_source_flow true (by decide) h.isStyle (.of_trim_eq h.2.1), String.ofList_toList]

theorem named_tokens (make : String → String → Clause) {name styles : String} (h : IsStyles styles)
    (past ts : List Token) (final : Token) (hu : u.text = name) (hnl : nl.kind = .newline) :
    ∃ past', named make ⟨past, t :: u :: (Token.flow true [' '] styles.toList ++ nl :: ts), final⟩ =
      .ok (make name styles, ⟨past', ts, final⟩) := by
  obtain ⟨past', hrest⟩ := restOfStatement_styles h (u :: t :: past) ts final hnl
  refine ⟨nl :: past', ?_⟩
  simp [named, bind_apply, advance_cons, Except.bind, hrest, map_apply, endStatement_cons, hnl, hu]

theorem moreNodeIds_tokens (past ts : List Token) (final : Token) (names ids : List String)
    (ht : t.kind ≠ .comma) : ∃ past',
      moreNodeIds names ⟨past, (ids.flatMap fun id => [Token.plain .comma [] [','],
          Token.plain .identifier [] id.toList]) ++ t :: ts, final⟩ =
        .ok (names ++ ids, ⟨past', t :: ts, final⟩) := by
  induction ids generalizing names past with
  | nil =>
    refine ⟨past, ?_⟩
    rw [List.flatMap_nil, List.nil_append, List.append_nil, moreNodeIds]
    refine loop_inr ?_
    simp [bind_apply, accept_cons, ht, Except.bind, pure_apply]
  | cons id ids ih =>
    let comma := Token.plain .comma [] [',']
    let u := Token.plain .identifier [] id.toList
    obtain ⟨past', hrest⟩ := ih (u :: comma :: past) (names ++ [id])
    rw [List.append_assoc, List.singleton_append] at hrest
    refine ⟨past', ?_⟩
    have hcomma : comma.kind = .comma := rfl
    have hu : Token.Is u .identifier id := Token.is_plain _ _ _
    show moreNodeIds names ⟨past, comma :: u :: ((ids.flatMap fun id =>
      [Token.plain .comma [] [','], Token.plain .identifier [] id.toList]) ++ t :: ts), final⟩ = _
    rw [← hrest, moreNodeIds, moreNodeIds]
    refine loop_inl ?_ (by simp only [List.length_cons]; omega)
    simp [bind_apply, accept_cons, hcomma, Except.bind, map_apply, expect_cons hu.1, hu.2.1]

theorem classAssignment_tokens {ids : List String} (hne : ids ≠ []) (name : String)
    (past ts : List Token) (final : Token) (hnl : nl.kind = .newline) : ∃ past',
      classAssignment ⟨past, t :: (Token.names [' '] ids ++
          Token.plain .identifier [' '] name.toList :: nl :: ts), final⟩ =
        .ok (.classes ids name, ⟨past', ts, final⟩) := by
  obtain ⟨id, ids, rfl⟩ := List.exists_cons_of_ne_nil hne
  let first := Token.plain .identifier [' '] id.toList
  let last := Token.plain .identifier [' '] name.toList
  have hfirst : Token.Is first .identifier id := Token.is_plain _ _ _
  have hlast : Token.Is last .identifier name := Token.is_plain _ _ _
  obtain ⟨past', hids⟩ := moreNodeIds_tokens (first :: t :: past) (nl :: ts) final [id] ids
    (nofun : last.kind ≠ .comma)
  refine ⟨nl :: last :: past', ?_⟩
  show classAssignment ⟨past, t :: first :: ((ids.flatMap fun id => [Token.plain .comma [] [','],
    Token.plain .identifier [] id.toList]) ++ last :: nl :: ts), final⟩ = _
  simp [classAssignment, bind_apply, advance_cons, Except.bind, expect_cons hfirst.1, hfirst.2.1,
    hids, expect_cons hlast.1, hlast.2.1, map_apply, endStatement_cons, hnl]

/-! ### Clauses -/

/-- Whether a line starts with one of some `words`, given that its name is `word` in lower case. -/
theorem isWord_of_lower (gap : List Char) {id : String} {word : String} (h : lower id = word)
    (words : List String) :
    (Token.plain .identifier gap id.toList).isWord words = words.contains word := by
  rw [Token.isWord_plain, String.ofList_toList, h]

/-- A line that starts with a name and no other name behind it is read as nodes and edges. So a
keyword such as `class` or `style` is the id of a node on such a line. -/
theorem statement_name {id : String} (h : IsName id) (gap : List Char) (past ts : List Token)
    (final : Token) (hu : u.kind ≠ .identifier) :
    statement d ⟨past, Token.plain .identifier gap id.toList :: u :: ts, final⟩ =
      (d.add <$> chain) ⟨past, Token.plain .identifier gap id.toList :: u :: ts, final⟩ := by
  have hword : ∀ w ∈ ["subgraph", "end"],
      (Token.plain .identifier gap id.toList).isWord [w] = false := by
    intro w hw
    rw [isWord_of_lower _ rfl, List.contains_eq_mem, decide_eq_false_iff_not, List.mem_singleton]
    exact fun heq => h.2 (heq ▸ hw)
  have hkind : (Token.plain .identifier gap id.toList).kind = .identifier := rfl
  simp [statement, bind_apply, peek_apply, ahead_apply, check_apply, Except.bind, hkind,
    hword "subgraph" (by simp), hword "end" (by simp), hu, map_apply]

/-- A keyword with a name `u` behind it starts a line of its own, of which the kind depends on the
`word`. -/
theorem statement_keyword {word : String} (ht : t.kind = .identifier)
    (hword : ∀ words, t.isWord words = words.contains word) (hu : u.kind = .identifier)
    {c : Clause} {r : Cursor} :
    (word = "classdef" → named .classDef ⟨past, t :: u :: ts, final⟩ = .ok (c, r) →
      statement d ⟨past, t :: u :: ts, final⟩ = .ok (d.add [c], r)) ∧
    (word = "class" → classAssignment ⟨past, t :: u :: ts, final⟩ = .ok (c, r) →
      statement d ⟨past, t :: u :: ts, final⟩ = .ok (d.add [c], r)) ∧
    (word = "style" → named .style ⟨past, t :: u :: ts, final⟩ = .ok (c, r) →
      statement d ⟨past, t :: u :: ts, final⟩ = .ok (d.add [c], r)) := by
  refine ⟨?_, ?_, ?_⟩
  all_goals
    rintro rfl h
    simp [statement, bind_apply, peek_apply, ahead_apply, check_apply, Except.bind, ht, hword, hu,
      map_apply, h]

/-- The line of a clause `c` is read as the clause, and adds nothing else to the draft `d`. -/
theorem statement_clause {c : Clause} (h : c.Legible) (gap : List Char) (hnl : nl.kind = .newline) :
    ∃ past', statement d ⟨past, c.tokens gap ++ nl :: ts, final⟩ =
      .ok (d.add [c.atOrigin], ⟨past', ts, final⟩) := by
  have hkind : ∀ gap text, (Token.plain .identifier gap text).kind = .identifier := fun _ _ => rfl
  match c with
  | .node n position =>
    let first := Token.plain .identifier gap n.id.toList
    have hfirst : Token.Is first .identifier n.id := Token.is_plain _ _ _
    cases hbare : n.isBare with
    -- A bare node is one name on a line, and no link stands behind it.
    | true =>
      have hrow : (Clause.node n position).tokens gap ++ nl :: ts = first :: nl :: ts := by
        simp [Clause.tokens, Node.tokens, hbare, first]
      have hnode : (Clause.node n position).atOrigin = .node (Node.bare first.text) none := by
        obtain ⟨id, label, shape⟩ := n
        obtain ⟨rfl, rfl⟩ : label = none ∧ shape = .rectangle := by simpa [Node.isBare] using hbare
        simp [Clause.atOrigin, hbare, hfirst.2.1, Node.bare]
      refine ⟨nl :: first :: past, ?_⟩
      rw [hrow, hnode, statement_name h.1 gap past ts final (by rw [hnl]; decide), map_apply,
        chain_bare hfirst.1 hnl]
      rfl
    -- A shaped node: its opening delimiter is no name, so the line is no keyword line.
    | false =>
      obtain ⟨past', hchain⟩ := chain_shaped h.2 past ts final hfirst hnl
      have hrow : (Clause.node n position).tokens gap ++ nl :: ts =
          first :: (shapeTokens n.shape (labelChars n.label) ++ nl :: ts) := by
        simp [Clause.tokens, Node.tokens, hbare, first]
      have hnode : (Clause.node n position).atOrigin = .node n (some .origin) := by
        simp [Clause.atOrigin, hbare]
      have hopener : (Token.plain .shapeOpen [] (delimiters n.shape).1.toList).kind ≠ .identifier :=
        Token.kind_plain_ne (by decide)
      refine ⟨past', ?_⟩
      rw [hrow, hnode, shapeTokens, List.cons_append, statement_name h.1 gap past _ final hopener,
        map_apply]
      rw [shapeTokens, List.cons_append] at hchain
      rw [hchain]
      rfl
  | .edge e =>
    obtain ⟨past', hchain⟩ := chain_edge h gap past ts final hnl
    have hop : (Token.plain .edge [' '] e.kind.text.toList).kind ≠ .identifier :=
      Token.kind_plain_ne (by decide)
    have hline : statement d ⟨past, e.tokens gap ++ nl :: ts, final⟩ =
        (d.add <$> chain) ⟨past, e.tokens gap ++ nl :: ts, final⟩ :=
      statement_name h.1 gap past _ final hop
    rw [map_apply, hchain] at hline
    exact ⟨past', hline⟩
  | .classDef name styles =>
    obtain ⟨past', hnamed⟩ := named_tokens (t := Token.plain .identifier gap "classDef".toList)
      .classDef h.2 past ts final (Token.is_plain .identifier [' '] name).2.1 hnl
    have hword := isWord_of_lower gap (by decide : lower "classDef" = "classdef")
    exact ⟨past', (statement_keyword (hkind _ _) hword (hkind _ _)).1 rfl hnamed⟩
  | .classes ids name =>
    obtain ⟨id, ids, rfl⟩ := List.exists_cons_of_ne_nil h.1
    obtain ⟨past', hclass⟩ := classAssignment_tokens (t :=
      Token.plain .identifier gap "class".toList)
      (List.cons_ne_nil id ids) name past ts final hnl
    have hword := isWord_of_lower gap (by decide : lower "class" = "class")
    refine ⟨past', ?_⟩
    simp only [Clause.tokens, List.cons_append, List.append_assoc, List.nil_append]
    exact (statement_keyword (hkind _ _) hword (hkind _ _)).2.1 rfl hclass
  | .style id styles =>
    obtain ⟨past', hnamed⟩ := named_tokens (t := Token.plain .identifier gap "style".toList)
      .style h.2 past ts final (Token.is_plain .identifier [' '] id).2.1 hnl
    have hword := isWord_of_lower gap (by decide : lower "style" = "style")
    exact ⟨past', (statement_keyword (hkind _ _) hword (hkind _ _)).2.2 rfl hnamed⟩

/-! ### Subgraphs -/

/-- The draft with one more subgraph `s` open, of which statements have been read. -/
def Draft.within (d : Draft) (s : OpenSubgraph) : Draft := { d with opened := s :: d.opened }

/-- The head of a subgraph `s` as it is read from tokens at the origin, before its direction. -/
def Subgraph.atOrigin (s : Subgraph) : Subgraph :=
  { s with direction := none, position := some .origin }

/-- The name of a subgraph `s` is read from its id and label, in the three ways in which they are
written. -/
theorem subgraphName_tokens {s : Subgraph} (h : s.Legible) (gap : List Char) (past ts : List Token)
    (final : Token) (hnl : nl.kind = .newline) : ∃ past',
      subgraphName ⟨past, (s.tokens gap).tail ++ nl :: ts, final⟩ =
        .ok ((s.id, s.label), ⟨past', nl :: ts, final⟩) := by
  obtain ⟨id, label, direction, position⟩ := s
  obtain ⟨hquote, hid, hlabel⟩ := h
  cases label with
  -- An id that is no single token is written in quotes. With a label an id is always a token.
  | none =>
    by_cases hsafe : isSafeId id = true
    · obtain ⟨t, ht, hrow⟩ : ∃ t, Token.Is t .identifier id ∧
          (Subgraph.tokens gap ⟨id, none, direction, position⟩).tail = [t] :=
        ⟨_, Token.is_plain _ [' '] _, by simp [Subgraph.tokens, hsafe]⟩
      refine ⟨t :: past, ?_⟩
      rw [hrow]
      simp [subgraphName, bind_apply, ahead_apply, check_apply, Except.bind, ht.1, ht.2.1, hnl,
        map_apply, advance_cons, TokenKind.endsStatement, subgraphLabel, accept_cons, pure_apply]
    · obtain ⟨t, ht, hrow⟩ : ∃ t, Token.Is t .string (doubleQuoted id) ∧
          (Subgraph.tokens gap ⟨id, none, direction, position⟩).tail = [t] :=
        ⟨_, Token.is_plain _ [' '] _, by simp [Subgraph.tokens, hsafe]⟩
      have hunquote : unquote (doubleQuoted id) = id := by
        simp [unquote, toList_doubleQuoted]
      refine ⟨t :: past, ?_⟩
      rw [hrow]
      simp [subgraphName, bind_apply, ahead_apply, check_apply, Except.bind, ht.1, ht.2.1,
        map_apply, advance_cons, hunquote]
  | some l =>
    have hl : Survives [[']']] l := hlabel l rfl
    obtain ⟨t, opener, text, closer, ht, hopener, htext, hcloser, hrow⟩ :
        ∃ t opener text closer, Token.Is t .identifier id ∧ opener.kind = .shapeOpen ∧
          Token.Is text .label (labelText l) ∧ closer.kind = .shapeClose ∧
          (Subgraph.tokens gap ⟨id, some l, direction, position⟩).tail =
            [t, opener, text, closer] := by
      refine ⟨_, .plain .shapeOpen [] ['['], _, .plain .shapeClose [] [']'],
        Token.is_plain _ [' '] _, rfl, Token.is_plain _ [] _, rfl, ?_⟩
      simp only [Subgraph.tokens, List.tail_cons, shapeTokens, if_neg (labelText_ne_nil l)]
      rfl
    have hinner := hl.innerText_labelText
    refine ⟨closer :: text :: opener :: t :: past, ?_⟩
    rw [hrow]
    simp [subgraphName, bind_apply, ahead_apply, check_apply, Except.bind, ht.1, ht.2.1, hopener,
      map_apply, advance_cons, subgraphLabel, accept_cons, htext.1, htext.2.1, hinner,
      expect_cons hcloser]

/-- A line that starts with the word for it opens a subgraph, whatever stands behind it. -/
theorem statement_subgraph (gap : List Char) (past ts : List Token) (final : Token) :
    statement d ⟨past, Token.plain .identifier gap "subgraph".toList :: ts, final⟩ =
      (d.openSubgraph <$> subgraphHead)
        ⟨past, Token.plain .identifier gap "subgraph".toList :: ts, final⟩ := by
  obtain ⟨keyword, hkeyword⟩ : ∃ t, t = Token.plain .identifier gap "subgraph".toList := ⟨_, rfl⟩
  have hword : ∀ words, keyword.isWord words = words.contains "subgraph" :=
    hkeyword ▸ isWord_of_lower _ (by decide)
  have hkind : keyword.kind = .identifier := hkeyword ▸ rfl
  rw [← hkeyword]
  simp [statement, bind_apply, peek_apply, ahead_apply, check_apply, Except.bind, hkind, hword,
    map_apply]

/-- The line that opens a subgraph `s` is read. It opens the subgraph without a body and without its
direction. -/
theorem statement_open {s : Subgraph} (h : s.Legible) (gap : List Char) (hnl : nl.kind = .newline) :
    ∃ past', statement d ⟨past, s.tokens gap ++ nl :: ts, final⟩ =
      .ok (d.within ⟨s.atOrigin, []⟩, ⟨past', ts, final⟩) := by
  let keyword := Token.plain .identifier gap "subgraph".toList
  have hrow : s.tokens gap ++ nl :: ts = keyword :: ((s.tokens gap).tail ++ nl :: ts) := rfl
  have hstart : keyword.start = .origin := rfl
  obtain ⟨past', hname⟩ := subgraphName_tokens h gap (keyword :: past) ts final hnl
  have hlabel : s.label.filter (!·.isEmpty) = s.label := by
    cases hl : s.label with
    | none => rfl
    | some l =>
      have hne : l.isEmpty = false := by simpa using (h.2.2 l hl).ne_empty
      simp [Option.filter, hne]
  have hhead : subgraphHead ⟨past, keyword :: ((s.tokens gap).tail ++ nl :: ts), final⟩ =
      .ok (s.atOrigin, ⟨nl :: past', ts, final⟩) := by
    simp [subgraphHead, bind_apply, advance_cons, Except.bind, hname, map_apply, endStatement_cons,
      hnl, hlabel, hstart, Subgraph.atOrigin]
  refine ⟨nl :: past', ?_⟩
  rw [hrow, statement_subgraph, map_apply, hhead]
  rfl

/-- A direction line sets the direction of the innermost open subgraph, here `s`. -/
theorem statement_direction (x : Direction) (s : OpenSubgraph) (gap : List Char)
    (hnl : nl.kind = .newline) : ∃ past',
      statement (d.within s) ⟨past, Token.plain .identifier gap "direction".toList ::
          Token.plain .identifier [' '] x.name.toList :: nl :: ts, final⟩ =
        .ok (d.within { s with head := { s.head with direction := some x } },
          ⟨past', ts, final⟩) := by
  obtain ⟨t, ht, hword⟩ : ∃ t, t = Token.plain .identifier gap "direction".toList ∧
      ∀ words, t.isWord words = words.contains "direction" :=
    ⟨_, rfl, isWord_of_lower _ (by decide)⟩
  obtain ⟨u, hu, hname⟩ : ∃ u, u = Token.plain .identifier [' '] x.name.toList ∧
      Direction.ofText? u.text = some x := by
    refine ⟨_, rfl, ?_⟩
    show Direction.ofText? (String.ofList x.name.toList) = some x
    cases x <;> decide
  have htkind : t.kind = .identifier := by rw [ht]; rfl
  have hukind : u.kind = .identifier := by rw [hu]; rfl
  have hline : directionLine ⟨past, t :: u :: nl :: ts, final⟩ =
      .ok (x, ⟨nl :: u :: t :: past, ts, final⟩) := by
    simp [directionLine, bind_apply, advance_cons, Except.bind, takeDirection, hname, pure_apply,
      map_apply, endStatement_cons, hnl]
  refine ⟨nl :: u :: t :: past, ?_⟩
  rw [← ht, ← hu]
  simp [statement, bind_apply, peek_apply, ahead_apply, check_apply, Except.bind, htkind, hword,
    hukind, map_apply, hline, Draft.setDirection, Draft.within]

/-- The closing line of a subgraph `s` makes it a statement of the body around it. -/
theorem statement_end (s : OpenSubgraph) (gap : List Char) (hnl : nl.kind = .newline) : ∃ past',
    statement (d.within s) ⟨past, Token.plain .identifier gap "end".toList :: nl :: ts, final⟩ =
      .ok (d.extend [.subgraph s.head s.body], ⟨past', ts, final⟩) := by
  obtain ⟨t, ht, hword⟩ : ∃ t, t = Token.plain .identifier gap "end".toList ∧
      ∀ words, t.isWord words = words.contains "end" :=
    ⟨_, rfl, isWord_of_lower _ (by decide)⟩
  have htkind : t.kind = .identifier := by rw [ht]; rfl
  have hclose : (d.within s).closeSubgraph = d.extend [.subgraph s.head s.body] := rfl
  have hopened : (d.within s).opened ≠ [] := nofun
  refine ⟨nl :: t :: past, ?_⟩
  rw [← ht, ← hclose]
  simp [statement, bind_apply, peek_apply, ahead_apply, check_apply, Except.bind, htkind, hword,
    hnl, TokenKind.endsStatement, hopened, advance_cons, map_apply, endStatement_cons]

end Flowchart
end DiagramText
