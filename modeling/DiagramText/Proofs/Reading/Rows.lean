import DiagramText.Layout
import DiagramText.Proofs.Program.Single
import DiagramText.Proofs.Reading.Ensures
import DiagramText.Proofs.Token.Word

/-!
# Reading written rows

A written line is an indent, a text and a line break. Reading its row statement by statement takes
what was read before it to what is read with it.

* `Token.fullLine_line`: the row of a written line.
* `Reading.Runs`: statements that use up a row take one result to another, and
  `Reading.ReadsLines` those that use up lines.
* `Reading.rawUntil_ofLine`: a text is taken from its row as it was written.
-/

namespace DiagramText

open Text

variable {d : Dialect} {words : List Rule}

/-! ### Written lines -/

/-- A `layout` that indents with spaces and tabs. All that is said of reading back is said of such
layouts. -/
def Layout.IsBlank (layout : Layout) : Prop := ∀ c ∈ layout.indent.toList, isSpaceOrTab c = true

/-- A `text` that can be written on a line: no line break is in it, and it starts with no blank and
no comment. -/
structure Text.IsWritable (text : List Char) : Prop where
  plain : Plain text
  ne_nil : text ≠ []
  head : ∀ c ∈ text.head?, isBlank c = false
  comment : Measure.comment text = 0

namespace Layout

variable {layout : Layout}

theorem isSpaceOrTab_of_mem_pad (h : layout.IsBlank) (depth : Nat) :
    ∀ c ∈ (layout.pad depth).toList, isSpaceOrTab c = true := by
  induction depth with
  | zero => exact nofun
  | succ n ih =>
    have hpad : layout.pad (n + 1) = layout.indent ++ layout.pad n := by
      simp [pad, List.replicate_succ]
    rw [hpad, String.toList_append]
    exact List.forall_mem_append.2 ⟨h, ih⟩

/-- A written line is a line of its own, which does not separate diagrams, whatever its depth. -/
theorem isOwnLine_line (h : layout.IsBlank) (depth : Nat) {text : String}
    (htext : IsWritable text.toList) : IsOwnLine (layout.line depth text) := by
  refine ⟨?_, ?_⟩
  · rw [line, String.toList_append]
    exact Plain.append.2 ⟨.of_isSpaceOrTab (isSpaceOrTab_of_mem_pad h depth), htext.plain⟩
  obtain ⟨c, cs, hcs⟩ := List.exists_cons_of_ne_nil htext.ne_nil
  have hc : isBlank c = false := htext.head c (by rw [hcs]; rfl)
  have hskip : trimLeft ((layout.line depth text).toList ++ ['\n']) = c :: (cs ++ ['\n']) := by
    rw [line, String.toList_append, hcs, trimLeft, List.append_assoc,
      List.dropWhile_append_of_pos fun c hc =>
        isBlank_of_isSpaceOrTab (isSpaceOrTab_of_mem_pad h depth c hc),
      List.cons_append, List.dropWhile_cons_of_neg (by simp [hc])]
  obtain ⟨b, hb, hblank, -⟩ := exists_trimRight (c :: (cs ++ ['\n']))
  rw [Document.isBlankLine, trim, hskip]
  split
  · next hnil =>
    rw [hnil, List.nil_append] at hb
    rw [hblank c (by rw [← hb]; exact List.mem_cons_self)] at hc
    cases hc
  · next rest hpercent =>
    -- a text that starts with two percent signs is a comment
    rw [hpercent, List.cons_append, List.cons_append] at hb
    have hcomment := htext.comment
    rw [hcs, Measure.comment_eq_zero_iff] at hcomment
    cases cs with
    | nil => cases hb
    | cons e cs =>
      simp only [List.cons_append, List.cons.injEq] at hb
      rw [hb.1, hb.2.1] at hcomment
      cases hcomment
  · rfl

end Layout

namespace Token

/-- A row `ts` without comments is read whole, as only comments are left out. -/
theorem filter_isRead {ts : List Token} (h : ∀ t ∈ ts, t.kind ≠ .comment) :
    ts.filter isRead = ts :=
  List.filter_eq_self.2 fun t ht => by simpa [isRead] using h t ht

/-- A token with the given `kind` and `text` at the origin. Its gap is left open. -/
def Is (t : Token) (kind : TokenKind) (text : String) : Prop :=
  t.kind = kind ∧ t.text = text ∧ t.start = .origin

theorem is_plain (kind : TokenKind) (gap : List Char) (text : String) :
    Is (plain kind gap text.toList) kind text := ⟨rfl, String.ofList_toList, rfl⟩

theorem isWord_plain (gap x : List Char) (words : List String) :
    (plain .identifier gap x).isWord words = words.contains (lower (String.ofList x)) := rfl

/-- The tokens of names, of which each but the first stands behind a comma. Only the first has a
gap. -/
def names (gap : List Char) : List String → List Token
  | [] => []
  | id :: ids => plain .identifier gap id.toList :: ids.flatMap fun id =>
      [plain .comma [] [','], plain .identifier [] id.toList]

/-- The row of names apart by commas, before the characters `cs`, where `row` takes each name and
each comma for one token. It is told whether a name comes last before what it takes. -/
theorem row_names (row : Bool → List Char → List Char → List Token) {ids : List String}
    {cs : List Char} (hne : ids ≠ [])
    (hname : ∀ id ∈ ids, ∀ named gap b, b = cs ∨ b.head? = some ',' →
      row named gap (id.toList ++ b) = plain .identifier gap id.toList :: row true [] b)
    (hcomma : ∀ b, row true [] ([','] ++ b) = plain .comma [] [','] :: row false [] b)
    (named : Bool) (gap : List Char) :
    row named gap ((",".intercalate ids).toList ++ cs) = names gap ids ++ row true [] cs := by
  induction ids generalizing named gap with
  | nil => exact absurd rfl hne
  | cons id ids ih =>
    obtain ⟨hid, hids⟩ := List.forall_mem_cons.1 hname
    cases ids with
    | nil =>
      rw [String.intercalate_singleton, hid named gap cs (.inl rfl)]
      rfl
    | cons id' ids =>
      have hlist : (",".intercalate (id :: id' :: ids)).toList ++ cs =
          id.toList ++ ([','] ++ ((",".intercalate (id' :: ids)).toList ++ cs)) := by
        rw [String.intercalate_cons_cons]
        simp
      rw [hlist, hid named gap _ (.inr rfl), hcomma, ih (by simp) hids false []]
      rfl

/-- The row of a written line is what is read of the row of its text, the indent being skipped
before its first token. -/
theorem fullLine_line_filter (hd : d.SkipsBlanks) {layout : Layout} (h : layout.IsBlank)
    (depth : Nat) (text : String) : fullLine d (layout.line depth text) =
      (ofLine d (layout.pad depth).toList text.toList).filter isRead ++
        [lineBreak d (layout.line depth text).toList] := by
  rw [fullLine, Layout.line, String.toList_append,
    hd _ (Layout.isSpaceOrTab_of_mem_pad h depth), List.nil_append]

/-- The row `ts` of a written line without a comment is the row of its text, and a line break. -/
theorem fullLine_line (hd : d.SkipsBlanks) {layout : Layout} (h : layout.IsBlank) (depth : Nat)
    {text : String} {ts : List Token}
    (hline : ofLine d (layout.pad depth).toList text.toList = ts)
    (hkind : ∀ t ∈ ts, t.kind ≠ .comment) :
    fullLine d (layout.line depth text) =
      ts ++ [lineBreak d (layout.line depth text).toList] := by
  rw [fullLine_line_filter hd h, hline, filter_isRead hkind]

end Token

/-- A text `cs` of which the row has no comment is not a comment itself. -/
theorem Measure.comment_eq_zero (hd : d.Regular words) {gap cs : List Char}
    (hhead : ∀ c ∈ cs.head?, isSpaceOrTab c = false) (hne : cs ≠ [])
    (h : ∀ t ∈ Token.ofLine d gap cs, t.kind ≠ .comment) : Measure.comment cs = 0 := by
  obtain ⟨c, cs, rfl⟩ := List.exists_cons_of_ne_nil hne
  obtain ⟨t, ts, hline, -, hkind⟩ := Token.exists_ofLine hd (hhead c rfl) gap cs
  by_cases h0 : comment (c :: cs) = 0
  · exact h0
  · refine absurd ?_ (h t (by rw [hline]; exact List.mem_cons_self))
    rw [hkind]
    simp [Rule.common, Rule.first, h0]

/-- A text `cs` can be written on a line if its row has no comment and it is plain and not empty. -/
theorem Text.IsWritable.of_row (hd : d.Regular words) {cs : List Char} (hplain : Plain cs)
    (hne : cs ≠ []) (hhead : ∀ c ∈ cs.head?, isSpaceOrTab c = false)
    (h : ∀ t ∈ Token.ofLine d [] cs, t.kind ≠ .comment) : IsWritable cs where
  plain := hplain
  ne_nil := hne
  head c hc := by rw [hplain.isBlank_eq (List.mem_of_head? hc), hhead c hc]
  comment := Measure.comment_eq_zero hd hhead hne h

/-- A text `cs` that was taken from a line as a span can be written on a line of its own. -/
theorem Token.IsSpan.isWritable (hd : d.Regular words) {f : TokenKind → Bool} {cs : List Char}
    (h : IsSpan d f cs) (hne : cs ≠ []) : IsWritable cs :=
  .of_row hd h.plain hne (fun c hc => isSpaceOrTab_of_not_isBlank (h.trimmed.head c hc))
    fun t ht => (h.kinds [] t ht).2

/-- Lexemes `ws` that are joined by spaces are no comments if none of them is. -/
theorem Token.kind_spaced {ws : List (TokenKind × List Char)} (h : ∀ w ∈ ws, w.1 ≠ .comment)
    (gap : List Char) : ∀ t ∈ spaced gap ws, t.kind ≠ .comment := by
  induction ws generalizing gap with
  | nil => exact List.forall_mem_nil _
  | cons w ws ih =>
    obtain ⟨hw, h⟩ := List.forall_mem_cons.1 h
    exact List.forall_mem_cons.2 ⟨hw, ih h _⟩

/-- Lexemes that are joined by spaces can be written on a line, with what stands behind them. -/
theorem Text.IsWritable.of_spaced (hd : d.Regular words) {ws : List (TokenKind × List Char)}
    (hne : ws ≠ []) (hws : ∀ w ∈ ws, Token.IsBare words w.1 w.2) {b : List Char}
    (hb : StartsBlank b) (hplain : Plain b)
    (hcomment : ∀ t ∈ Token.ofLine d [] b, t.kind ≠ .comment) :
    IsWritable (Token.spacedChars ws ++ b) := by
  have hline := Token.ofLine_spaced hd hne hws hb []
  have hwords := Token.plain_spacedChars fun w hw => (hws w hw).plain
  have hkinds := List.forall_mem_append.2
    ⟨Token.kind_spaced (fun w hw => (hws w hw).kind.1) [], hcomment⟩
  obtain ⟨w, ws, rfl⟩ := List.exists_cons_of_ne_nil hne
  obtain ⟨cs, hcs⟩ := Token.exists_spacedChars w ws
  have hw := hws w List.mem_cons_self
  obtain ⟨c, x, hx⟩ := List.exists_cons_of_ne_nil hw.ne_nil
  have hblank : isBlank c = false := hw.blanks c (by rw [hx]; exact List.mem_cons_self)
  refine .of_row hd (Plain.append.2 ⟨hwords, hplain⟩) ?_ ?_ (hline ▸ hkinds)
  · rw [hcs, hx]
    exact List.cons_ne_nil _ _
  · rw [hcs, hx]
    rintro e ⟨⟩
    exact isSpaceOrTab_of_not_isBlank hblank

namespace Reading

/-! ### Statements of a row -/

section Runs

variable {σ : Type} {statement : σ → Reading σ} {s s' s'' : σ} {row row' : List Token}

/-- Statements that use up the tokens `row` take the result `s` to `s'`, whatever stands before and
behind the row. -/
def Runs (statement : σ → Reading σ) (s : σ) (row : List Token) (s' : σ) : Prop :=
  ∀ past ts, ∃ past', untilEnd statement s ⟨past, row ++ ts, Token.endOfInput⟩ =
    untilEnd statement s' ⟨past', ts, Token.endOfInput⟩

namespace Runs

theorem nil : Runs statement s [] s := fun past _ => ⟨past, rfl⟩

theorem append (h : Runs statement s row s') (h' : Runs statement s' row' s'') :
    Runs statement s (row ++ row') s'' := by
  intro past ts
  obtain ⟨past', hrow⟩ := h past (row' ++ ts)
  obtain ⟨past'', hrow'⟩ := h' past' ts
  exact ⟨past'', by rw [List.append_assoc, hrow, hrow']⟩

/-- A single statement that takes all of the `row`. -/
theorem of_statement (hne : row ≠ []) (h : ∀ past ts, ∃ past',
    statement s ⟨past, row ++ ts, Token.endOfInput⟩ =
      .ok (s', ⟨past', ts, Token.endOfInput⟩)) : Runs statement s row s' := by
  intro past ts
  obtain ⟨past', hrow⟩ := h past ts
  obtain ⟨t, row, rfl⟩ := List.exists_cons_of_ne_nil hne
  have hlt : ts.length < (row ++ ts).length + 1 := by
    rw [List.length_append]
    omega
  exact ⟨past', untilEnd_cons hrow hlt⟩

/-- Statements up to the end of input: with nothing behind the row, the result is the one at its
end. -/
theorem untilEnd_eq (h : Runs statement s row s') (past : List Token) : ∃ past',
    untilEnd statement s ⟨past, row, Token.endOfInput⟩ =
      .ok (s', ⟨past', [], Token.endOfInput⟩) := by
  obtain ⟨past', hrow⟩ := h past []
  exact ⟨past', by rw [← List.append_nil row, hrow, untilEnd_nil]⟩

/-- A line of a single statement. It is enough to know what the statement does with the row `ts` of
the `text` and a line break. -/
theorem line (hd : d.SkipsBlanks) {layout : Layout} (hlayout : layout.IsBlank) (depth : Nat)
    {text : String} {ts : List Token}
    (hrow : Token.ofLine d (layout.pad depth).toList text.toList = ts)
    (hcomment : ∀ t ∈ ts, t.kind ≠ .comment)
    (hread : ∀ past us nl, nl.kind = .newline → ∃ past',
      statement s ⟨past, ts ++ nl :: us, Token.endOfInput⟩ =
        .ok (s', ⟨past', us, Token.endOfInput⟩)) :
    Runs statement s (Token.fullLine d (layout.line depth text)) s' := by
  rw [Token.fullLine_line hd hlayout depth hrow hcomment]
  refine of_statement (by simp) fun past us => ?_
  rw [List.append_assoc, List.singleton_append]
  exact hread past us _ rfl

end Runs
end Runs

/-! ### Statements of lines -/

/-- Lines that stay lines, of which the statements take the result `s` to `s'`. -/
structure ReadsLines {σ : Type} (d : Dialect) (statement : σ → Reading σ) (s : σ)
    (lines : List String) (s' : σ) : Prop where
  own : AreOwnLines lines
  runs : Runs statement s (lines.flatMap (Token.fullLine d)) s'

namespace ReadsLines

variable {σ : Type} {statement : σ → Reading σ} {s s' s'' : σ} {ls ls' : List String}

theorem nil : ReadsLines d statement s [] s := ⟨.nil, .nil⟩

theorem append (h : ReadsLines d statement s ls s') (h' : ReadsLines d statement s' ls' s'') :
    ReadsLines d statement s (ls ++ ls') s'' where
  own := h.own.append h'.own
  runs := by
    rw [List.flatMap_append]
    exact h.runs.append h'.runs

/-- A line of a single statement, of which the `text` can be written. -/
theorem line (hd : d.SkipsBlanks) {layout : Layout} (hlayout : layout.IsBlank) (depth : Nat)
    {text : String} (htext : IsWritable text.toList) {ts : List Token}
    (hrow : Token.ofLine d (layout.pad depth).toList text.toList = ts)
    (hcomment : ∀ t ∈ ts, t.kind ≠ .comment)
    (hread : ∀ past us nl, nl.kind = .newline → ∃ past',
      statement s ⟨past, ts ++ nl :: us, Token.endOfInput⟩ =
        .ok (s', ⟨past', us, Token.endOfInput⟩)) :
    ReadsLines d statement s [layout.line depth text] s' where
  own := .cons (Layout.isOwnLine_line hlayout depth htext) .nil
  runs := by
    rw [List.flatMap_singleton]
    exact .line hd hlayout depth hrow hcomment hread

/-- A line of lexemes that are joined by spaces, and of what stands behind them, as a single
statement. -/
theorem spaced (hd : d.Regular words) {layout : Layout} (hlayout : layout.IsBlank) (depth : Nat)
    {text : String} {ws : List (TokenKind × List Char)} {b : List Char} {bs : List Token}
    (htext : text.toList = Token.spacedChars ws ++ b) (hne : ws ≠ [])
    (hws : ∀ w ∈ ws, Token.IsBare words w.1 w.2) (hb : StartsBlank b) (hplain : Plain b)
    (hrow : Token.ofLine d [] b = bs) (hcomment : ∀ t ∈ bs, t.kind ≠ .comment)
    (hread : ∀ past us nl, nl.kind = .newline → ∃ past',
      statement s ⟨past, Token.spaced (layout.pad depth).toList ws ++ (bs ++ nl :: us),
        Token.endOfInput⟩ = .ok (s', ⟨past', us, Token.endOfInput⟩)) :
    ReadsLines d statement s [layout.line depth text] s' := by
  subst hrow
  have hline := Token.ofLine_spaced hd hne hws hb (layout.pad depth).toList
  have hkinds := List.forall_mem_append.2
    ⟨Token.kind_spaced (fun w hw => (hws w hw).kind.1) (layout.pad depth).toList, hcomment⟩
  have hwritable := IsWritable.of_spaced hd hne hws hb hplain hcomment
  refine .line hd.skipsBlanks hlayout depth (htext ▸ hwritable) (by rw [htext, hline]) hkinds
    fun past us nl hnl => ?_
  rw [List.append_assoc]
  exact hread past us nl hnl

end ReadsLines

/-! ### Texts of a row -/

theorem skipNewlines_append (past ts : List Token) {t : Token} (final : Token) {us : List Token}
    (hus : ∀ u ∈ us, u.kind = .newline)
    (ht : t.kind ≠ .newline ∧ t.kind ≠ .semicolon) :
    skipNewlines ⟨past, us ++ t :: ts, final⟩ =
      .ok ((), ⟨us.reverse ++ past, t :: ts, final⟩) := by
  have ht' : (t.kind == .newline || t.kind == .semicolon) = false := by simpa using ht
  have hus' : ∀ u ∈ us, (u.kind == .newline || u.kind == .semicolon) = true := fun u hu => by
    rw [hus u hu]
    rfl
  change Except.ok ((), (⟨(List.takeWhile _ _).reverse ++ past, List.dropWhile _ _, final⟩ :
    Cursor)) = _
  rw [List.takeWhile_append_of_pos hus', List.dropWhile_append_of_pos hus',
    List.takeWhile_cons_of_neg (by simp [ht']), List.dropWhile_cons_of_neg (by simp [ht']),
    List.append_nil]

/-- The closing brace `t` ends a body, be line breaks `us` before it, and the line break `nl` ends
the statement that the body belongs to. -/
theorem bodyRound_close {σ : Type} (line : σ → Reading σ) (cause : ReadError.Cause) (s : σ)
    {past ts : List Token} {t nl final : Token} (us : List Token)
    (hus : ∀ u ∈ us, u.kind = .newline) (ht : t.kind = .rightBrace) (hnl : nl.kind = .newline) :
    bodyRound line cause s ⟨past, us ++ t :: nl :: ts, final⟩ =
      .ok (.inr s, ⟨nl :: t :: (us.reverse ++ past), ts, final⟩) := by
  have hskip := skipNewlines_append past (nl :: ts) (t := t) final hus (by simp [ht])
  simp [bodyRound, bind_apply, hskip, Except.bind, look_apply, Cursor.atEnd, accept_cons, ht,
    map_apply, endStatement_cons, hnl]

/-- A token `t` that is no brace starts a line of a body behind line breaks `us`, and the round goes
on from what `line` gives there. -/
theorem bodyRound_line {σ : Type} {line : σ → Reading σ} (cause : ReadError.Cause) {s s' : σ}
    {past ts : List Token} {t final : Token} {c : Cursor} (us : List Token)
    (hus : ∀ u ∈ us, u.kind = .newline) (ht : t.kind ≠ .newline ∧ t.kind ≠ .semicolon)
    (hbrace : t.kind ≠ .rightBrace)
    (h : line s ⟨us.reverse ++ past, t :: ts, final⟩ = .ok (s', c)) :
    bodyRound line cause s ⟨past, us ++ t :: ts, final⟩ = .ok (.inl s', c) := by
  have hskip := skipNewlines_append past ts final hus ht
  simp [bodyRound, bind_apply, hskip, Except.bind, look_apply, Cursor.atEnd, accept_cons, hbrace, h,
    map_apply]

variable {past ts : List Token} {t final : Token}

/-- The source of the tokens before one that stops it is taken, trimmed. Its gaps are those of the
tokens. -/
theorem rawUntil_append {stops : List TokenKind} {us : List Token}
    (hus : ∀ u ∈ us, u.kind.endsStatement = false ∧ u.kind ∉ stops)
    (ht : t.kind.endsStatement = true ∨ t.kind ∈ stops) :
    rawUntil stops ⟨past, us ++ t :: ts, final⟩ =
      .ok (String.ofList (trim (Token.source us).toList),
        ⟨us.reverse ++ past, t :: ts, final⟩) := by
  let passes := fun u : Token => !u.kind.endsStatement && !stops.contains u.kind
  have hpass : ∀ u ∈ us, passes u = true := fun u hu => by
    obtain ⟨hend, hstop⟩ := hus u hu
    simp [passes, hend, hstop]
  have hstop : ¬passes t = true := by
    rcases ht with ht | ht <;> simp [passes, ht]
  change Except.ok (String.ofList (trim (Token.source (List.takeWhile passes _)).toList),
    (⟨(List.takeWhile passes _).reverse ++ past, List.dropWhile passes _, final⟩ : Cursor)) = _
  rw [List.takeWhile_append_of_pos hpass, List.dropWhile_append_of_pos hpass,
    List.takeWhile_cons_of_neg hstop, List.dropWhile_cons_of_neg hstop, List.append_nil]

/-- Before a line break the rest of the statement is empty, and no token is taken. -/
theorem restOfStatement_newline (ht : t.kind = .newline) :
    restOfStatement ⟨past, t :: ts, final⟩ = .ok ("", ⟨past, t :: ts, final⟩) := by
  have hraw := @rawUntil_append past ts t final [] [] (List.forall_mem_nil _)
    (.inl (by rw [ht]; rfl))
  exact hraw

/-- A text is taken from its row as it was written, up to a token `t` that stops it. -/
theorem rawUntil_ofLine (hd : d.Regular words) {stops : List TokenKind} {gap cs : List Char}
    (h : Token.IsSpan d (fun k => !k.endsStatement && !stops.contains k) cs)
    (ht : t.kind.endsStatement = true ∨ t.kind ∈ stops) :
    rawUntil stops ⟨past, Token.ofLine d gap cs ++ t :: ts, final⟩ =
      .ok (String.ofList cs, ⟨(Token.ofLine d gap cs).reverse ++ past, t :: ts, final⟩) := by
  have hpass : ∀ u ∈ Token.ofLine d gap cs, u.kind.endsStatement = false ∧ u.kind ∉ stops :=
    fun u hu => by simpa using (h.kinds gap u hu).1
  rw [rawUntil_append hpass ht, Token.source_ofLine hd h.plain h.trimmed
    fun u hu => (h.kinds gap u hu).2, String.toList_ofList, h.trimmed.trim_eq]

end Reading
end DiagramText
