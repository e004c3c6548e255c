import Mathlib.Data.List.Infix
import DiagramText.Proofs.States.Alike
import DiagramText.Proofs.States.Lines

/-!
# Reading written notes of state diagrams

A note of several lines stands between the line that opens it and the line that ends it. Its lines
are taken as they stand, and none of them ends the note early.

* `States.noteLines_tokens`: the lines of a note are read back one by one.
* `States.readsLines_note`: a note about a state that is there already is put into the innermost
  open scope.
-/

namespace DiagramText

open Text Document Reading

/-- Neither the spaces and tabs before a `line` nor its line break matter to whether it starts a
diagram. -/
theorem Header.dialect?_line {pad line : List Char} (hpad : ∀ c ∈ pad, isSpaceOrTab c = true)
    (hline : Plain line) : dialect? (pad ++ line ++ ['\n']) = dialect? line :=
  dialect?_relaid hpad (onOneLine_of_plain hline)
    (List.forall_mem_singleton.2 rfl)

namespace States

/-! ### Rows of notes -/

/-- The gap before a line does not matter to whether it ends a note, since `endsNote` looks at words
only. -/
theorem endsNote_ofLine (gap line : List Char) :
    endsNote (Token.ofLine .states gap line) = endsNote (Token.ofLine .states [] line) := by
  have hgap := Token.ofLine_gap .states gap [] line
  rw [List.append_nil] at hgap
  rw [hgap]
  generalize Token.ofLine .states [] line = ts
  match ts with
  | [] => rfl
  | [t] => rfl
  | t :: u :: ts => rfl

/-- A line ends a note if and only if its row does: the line break behind it is no word. -/
theorem isWord_endsNote {nl : Token} (hnl : nl.kind = .newline) (past ts us : List Token)
    (final : Token) :
    ((⟨past, ts ++ nl :: us, final⟩ : Cursor).peek.isWord ["end"] &&
      ((⟨past, ts ++ nl :: us, final⟩ : Cursor).ahead 1).isWord ["note"]) = endsNote ts := by
  have hword : ∀ words, nl.isWord words = false := fun words => isWord_of_kind (by rw [hnl]; decide)
  match ts with
  | [] =>
    show (nl.isWord ["end"] && _) = false
    rw [hword, Bool.false_and]
  | [t] =>
    show (t.isWord ["end"] && nl.isWord ["note"]) = false
    rw [hword, Bool.and_false]
  | t :: u :: ts => rfl

variable {past ts : List Token} {keyword nl e f final : Token}

/-- A `line` of a note is taken as it stands, without the gap before it. -/
theorem noteRound_line {line : List Char} (h : IsNoteLine line) (lines : List String)
    (gap : List Char) (hnl : nl.kind = .newline) : ∃ past',
      noteRound keyword lines ⟨past, Token.ofLine .states gap line ++ nl :: ts, final⟩ =
        .ok (.inl (lines ++ [String.ofList line]), ⟨past', ts, final⟩) := by
  have hend := isWord_endsNote hnl past (Token.ofLine .states gap line) ts final
  rw [endsNote_ofLine, h.endsNote_eq] at hend
  have hraw := @rawUntil_ofLine .states _ past ts nl final Dialect.regular_states [] gap line
    h.isSpan (.inl (by rw [hnl]; rfl))
  have hatEnd : (⟨past, Token.ofLine .states gap line ++ nl :: ts, final⟩ : Cursor).atEnd =
      false := by
    simp [Cursor.atEnd]
  refine ⟨nl :: ((Token.ofLine .states gap line).reverse ++ past), ?_⟩
  simp only [noteRound, bind_apply, checkWord_apply, ahead_apply, look_apply, Except.bind, hend,
    hatEnd, Bool.false_eq_true, if_false, restOfStatement, hraw, endStatement_cons, hnl, true_or,
    if_true, pure_apply]

/-- Behind the last line of a note stands the line that ends it, and no token is taken. -/
theorem noteRound_end (lines : List String) (he : e.isWord ["end"] = true)
    (hf : f.isWord ["note"] = true) :
    noteRound keyword lines ⟨past, e :: f :: ts, final⟩ =
      .ok (.inr lines, ⟨past, e :: f :: ts, final⟩) := by
  simp only [noteRound, bind_apply, checkWord_apply, ahead_apply, Cursor.peek_cons,
    Cursor.ahead_one_cons, Except.bind, he, hf, Bool.and_self, if_true, pure_apply]

/-- The rows of the lines of a note, each with its line break, in the `layout` in which they are
written. -/
def noteRows (layout : Layout) (depth : Nat) (lines : List (List Char)) : List Token :=
  lines.flatMap fun line =>
    Token.fullLine .states (layout.line depth (String.ofList line))

variable {layout : Layout}

theorem fullLine_noteLine (hlayout : layout.IsBlank) (depth : Nat) {line : List Char}
    (h : IsNoteLine line) : ∃ nl, nl.kind = .newline ∧
      Token.fullLine .states (layout.line depth (String.ofList line)) =
        Token.ofLine .states (layout.pad depth).toList line ++ [nl] := by
  refine ⟨Token.lineBreak .states (layout.line depth (String.ofList line)).toList, rfl, ?_⟩
  rw [Token.fullLine_line Dialect.regular_states.skipsBlanks hlayout depth
    (by rw [String.toList_ofList]) fun t ht => (h.isSpan.kinds _ t ht).2]

/-- The `lines` of a note are read back one by one, up to the words that end it. -/
theorem noteLines_tokens (hlayout : layout.IsBlank) (depth : Nat) {lines : List (List Char)}
    (h : ∀ line ∈ lines, IsNoteLine line) (past ts : List Token) (final : Token)
    (he : e.isWord ["end"] = true) (hf : f.isWord ["note"] = true) : ∃ past',
      noteLines keyword ⟨past, noteRows layout depth lines ++ e :: f :: ts, final⟩ =
        .ok (lines.map String.ofList, ⟨past', e :: f :: ts, final⟩) := by
  -- the loop collects the lines behind those that it starts with
  have hloop : ∀ (acc : List String) (past : List Token), ∃ past',
      loop (noteRound keyword) acc ⟨past, noteRows layout depth lines ++ e :: f :: ts, final⟩ =
        .ok (acc ++ lines.map String.ofList, ⟨past', e :: f :: ts, final⟩) := by
    induction lines with
    | nil =>
      intro acc past
      refine ⟨past, ?_⟩
      rw [List.map_nil, List.append_nil]
      exact loop_inr (noteRound_end acc he hf)
    | cons line lines ih =>
      intro acc past
      obtain ⟨hline, h⟩ := List.forall_mem_cons.1 h
      obtain ⟨nl, hnl, hfull⟩ := fullLine_noteLine hlayout depth hline
      have hrows : noteRows layout depth (line :: lines) ++ e :: f :: ts =
          Token.ofLine .states (layout.pad depth).toList line ++
            nl :: (noteRows layout depth lines ++ e :: f :: ts) := by
        rw [noteRows, List.flatMap_cons, hfull, List.append_assoc, List.append_assoc]
        rfl
      obtain ⟨past₁, hround⟩ := @noteRound_line past
        (noteRows layout depth lines ++ e :: f :: ts) keyword nl final line hline acc
        (layout.pad depth).toList hnl
      obtain ⟨past', hrest⟩ := ih h (acc ++ [String.ofList line]) past₁
      refine ⟨past', ?_⟩
      have hlt : (noteRows layout depth lines ++ e :: f :: ts).length <
          (Token.ofLine .states (layout.pad depth).toList line ++
            nl :: (noteRows layout depth lines ++ e :: f :: ts)).length := by
        simp only [List.length_append, List.length_cons]
        omega
      rw [hrows, loop_inl hround hlt, hrest, List.map_cons, List.append_assoc,
        List.singleton_append]
  rw [noteLines_eq]
  exact hloop [] past

/-! ### Reading notes -/

/-- The word for the side that a note stands on. No note of a state diagram stands across. -/
def side : NotePlacement → String
  | .leftOf => "left"
  | _ => "right"

/-- The lexemes that a note `n` starts with, up to the state that it is about. -/
def noteWords (n : Note) : List (TokenKind × List Char) :=
  [(.identifier, "note".toList), (.identifier, (side n.placement).toList),
    (.identifier, "of".toList), (.identifier, n.state.toList)]

theorem isBare_noteWords {n : Note} (h : IsHyphenated n.state) :
    ∀ w ∈ noteWords n, Token.IsBare Dialect.stateRules w.1 w.2 := by
  simp only [noteWords, List.forall_mem_cons]
  have hside : IsHyphenated (side n.placement) := by
    cases n.placement <;> decide
  exact ⟨isBare_name (by decide), isBare_name hside, isBare_name (by decide), isBare_name h,
    List.forall_mem_nil _⟩

/-- The head of a note `n` as it is written, which a text of one line follows behind a colon. -/
def Note.head (n : Note) : String := s!"note {n.placement.text} {n.state}"

theorem toList_noteHead {n : Note} (h : n.placement ≠ .across) :
    n.head.toList = Token.spacedChars (noteWords n) := by
  obtain ⟨state, placement, text⟩ := n
  cases placement <;>
    simp [Note.head, noteWords, side, NotePlacement.text, Token.spacedChars, toString,
      List.intercalate] at h ⊢

variable {d : Draft} {n : Note}

/-- What is read of a note `n` behind its head becomes its text. The state is there, so the note is
all that is added. -/
theorem statement_noteWords (h : n.Readable) (hmem : n.state ∈ d.ids) (gap : List Char)
    (past ts ts' : List Token) (final : Token)
    (htext : ∀ keyword past, ∃ past', noteText keyword ⟨past, ts, final⟩ =
      .ok (n.text.raw, ⟨past', ts', final⟩)) : ∃ past',
      statement d ⟨past, Token.spaced gap (noteWords n) ++ ts, final⟩ =
        .ok (d.add { notes := [n] }, ⟨past', ts', final⟩) := by
  -- The four words of the head, each of which the reader looks at.
  let t := Token.plain .identifier gap "note".toList
  let u := Token.plain .identifier [' '] (side n.placement).toList
  let v := Token.plain .identifier [' '] "of".toList
  let w := Token.plain .identifier [' '] n.state.toList
  have ht : t.isWord ["note"] = true ∧ t.isWord ["state"] = false := by
    rw [Token.isWord_plain, Token.isWord_plain]
    decide
  have hu : u.isWord ["left", "right"] = true ∧
      (if u.isWord ["left"] then NotePlacement.leftOf else .rightOf) = n.placement := by
    have hplacement := h.placement
    show Token.isWord (Token.plain _ _ (side n.placement).toList) _ = true ∧
      (if Token.isWord (Token.plain _ _ (side n.placement).toList) _ then _ else _) = _
    rw [Token.isWord_plain, Token.isWord_plain]
    revert hplacement
    cases n.placement <;> decide
  have hv : v.isWord ["of"] = true := by
    rw [Token.isWord_plain]
    decide
  have hw : w.text = n.state := String.ofList_toList
  obtain ⟨past', hraw⟩ := htext t (w :: v :: u :: t :: past)
  have hcontent := content_raw h.ofText?
  have hstate : d.mention w = d := Draft.mention_of_mem (by rwa [hw])
  refine ⟨past', ?_⟩
  show statement d ⟨past, t :: u :: v :: w :: ts, final⟩ = _
  rw [statement_note ht.1 ht.2 hu.1]
  have href : stateRef d ⟨v :: u :: t :: past, w :: ts, final⟩ =
      .ok ((d, n.state), ⟨w :: v :: u :: t :: past, ts, final⟩) := by
    rw [stateRef_cons rfl, hstate, hw]
  simp only [note, bind_apply, advance_cons, Except.bind, expectWord_cons hv, href, hraw, hcontent,
    pure_apply, hu.2, Draft.add, Scope.append, List.append_nil]

theorem noteText_labelTokens (keyword : Token) (past ts : List Token) (final : Token) (l : Content)
    (hnl : nl.kind = .newline) : ∃ past',
      noteText keyword ⟨past, labelTokens (some l) ++ nl :: ts, final⟩ =
        .ok (l.raw, ⟨past', ts, final⟩) := by
  refine ⟨nl :: Token.plain .text [' '] l.raw.toList :: Token.plain .colon [' '] [':'] :: past, ?_⟩
  simp [noteText, labelTokens, Token.labelTokens, bind_apply, accept_cons, expect_cons, Except.bind,
    Token.plain,
    endStatement_cons, hnl, map_apply]

/-- The text of a note `n` of several lines is their text, joined by line breaks. -/
theorem noteText_noteRows (hlayout : layout.IsBlank) (depth : Nat) {lines : List (List Char)}
    (h : ∀ line ∈ lines, IsNoteLine line) (past ts : List Token) (final : Token)
    {nl' : Token} (hnl : nl.kind = .newline) (he : e.isWord ["end"] = true)
    (hf : f.isWord ["note"] = true) (hnl' : nl'.kind = .newline) : ∃ past',
      noteText keyword
        ⟨past, nl :: (noteRows layout depth lines ++ e :: f :: nl' :: ts), final⟩ =
          .ok ("\n".intercalate (lines.map String.ofList), ⟨past', ts, final⟩) := by
  obtain ⟨past', hlines⟩ := @noteLines_tokens keyword e f layout hlayout depth lines h (nl :: past)
    (nl' :: ts) final he hf
  refine ⟨nl' :: f :: e :: past', ?_⟩
  simp [noteText, bind_apply, accept_cons, hnl, Except.bind, endStatement_cons, hlines,
    advance_cons, hnl', map_apply]

/-! ### Lines of notes -/

/-- The `lines` of a note are blank when indented if they were before, and start diagrams if they
did, so they are cut alike. -/
theorem cuts_line (hlayout : layout.IsBlank) (depth : Nat) {lines : List (List Char)}
    (h : ∀ line ∈ lines, Plain line) (b : Bool) :
    cuts b (lines.map fun line => (layout.line depth (String.ofList line)).toList ++ ['\n']) =
      cuts b (lines.map (· ++ ['\n'])) := by
  induction lines generalizing b with
  | nil => rfl
  | cons line lines ih =>
    obtain ⟨hline, h⟩ := List.forall_mem_cons.1 h
    have hpad := Layout.isSpaceOrTab_of_mem_pad hlayout depth
    have hchars : (layout.line depth (String.ofList line)).toList ++ ['\n'] =
        (layout.pad depth).toList ++ line ++ ['\n'] := by
      rw [Layout.line, String.toList_append, String.toList_ofList]
    -- Neither of the two questions asked of a line depends on the blanks at its start.
    have hdialect : Header.dialect? ((layout.pad depth).toList ++ line ++ ['\n']) =
        Header.dialect? (line ++ ['\n']) := by
      rw [Header.dialect?_line hpad hline]
      exact (@Header.dialect?_line [] line (List.forall_mem_nil _) hline).symm
    have hblank : isBlankLine ((layout.pad depth).toList ++ line ++ ['\n']) =
        isBlankLine (line ++ ['\n']) := by
      have htrim : trimLeft ((layout.pad depth).toList ++ line ++ ['\n']) =
          trimLeft (line ++ ['\n']) := by
        rw [List.append_assoc]
        exact List.dropWhile_append_of_pos fun c hc => isBlank_of_isSpaceOrTab (hpad c hc)
      rw [isBlankLine, isBlankLine, trim, htrim, trim]
    rw [List.map_cons, List.map_cons, cuts, cuts, hchars, hdialect, hblank, ih h]

/-- Lines that nothing cuts stay lines before a line that is none of them, which a line break
ends. -/
theorem areOwnLines_note (hlayout : layout.IsBlank) (depth : Nat) {lines : List (List Char)}
    (h : ∀ line ∈ lines, Plain line) (huncut : cuts false (lines.map (· ++ ['\n'])) = 0)
    {last : String} (hlast : IsWritable last.toList)
    (hheader : Header.dialect? last.toList = none) :
    AreOwnLines (lines.map (fun line => layout.line (depth + 1) (String.ofList line)) ++
      [layout.line depth last]) := by
  have hend := Layout.isOwnLine_line hlayout depth hlast
  refine ⟨?_, ?_, ?_⟩
  · refine List.forall_mem_append.2 ⟨List.forall_mem_map.2 fun line hline => ?_,
      List.forall_mem_singleton.2 hend.1⟩
    rw [Layout.line, String.toList_append, String.toList_ofList]
    exact Plain.append.2 ⟨.of_isSpaceOrTab (Layout.isSpaceOrTab_of_mem_pad hlayout _),
      h line hline⟩
  · have hnone : Header.dialect? ((layout.line depth last).toList ++ ['\n']) = none := by
      rw [Layout.line, String.toList_append,
        Header.dialect?_line (Layout.isSpaceOrTab_of_mem_pad hlayout depth) hlast.plain, hheader]
    have hlines := cuts_line hlayout (depth + 1) h false
    rw [huncut] at hlines
    rw [List.map_append, List.map_map, cuts_append, List.map_singleton, cuts, cuts, hnone]
    simpa [Function.comp_def] using hlines
  · rw [List.map_append, endsBlank, List.foldl_append]
    exact hend.2

/-- The lines of a note of several lines, or of none, between the line of its head and the words
`end note`. -/
theorem readsLines_noteBlock (hlayout : layout.IsBlank) (depth : Nat) (h : n.Readable)
    (hmem : n.state ∈ d.ids) {lines : List (List Char)} (hlines : ∀ line ∈ lines, IsNoteLine line)
    (huncut : cuts false (lines.map (· ++ ['\n'])) = 0)
    (hraw : "\n".intercalate (lines.map String.ofList) = n.text.raw) :
    ReadsLines .states statement d (layout.line depth n.head ::
      lines.map (fun line => layout.line (depth + 1) (String.ofList line)) ++
        [layout.line depth "end note"]) (d.add { notes := [n] }) := by
  have hd := Dialect.regular_states
  let ends : List (TokenKind × List Char) :=
    [(.identifier, "end".toList), (.identifier, "note".toList)]
  have hends : ∀ w ∈ ends, Token.IsBare Dialect.stateRules w.1 w.2 :=
    List.forall_mem_cons.2 ⟨isBare_name (by decide), List.forall_mem_singleton.2
      (isBare_name (by decide))⟩
  -- a line of words is a line of its own, and its row is that of the words
  have hwords : ∀ (text : String) (ws : List (TokenKind × List Char)), ws ≠ [] →
      (∀ w ∈ ws, Token.IsBare Dialect.stateRules w.1 w.2) → text.toList = Token.spacedChars ws →
      IsWritable text.toList ∧ ∃ nl, nl.kind = .newline ∧
        Token.fullLine .states (layout.line depth text) =
          Token.spaced (layout.pad depth).toList ws ++ [nl] := by
    intro text ws hne hws htext
    have hline := Token.ofLine_spaced hd hne hws (b := []) nofun (layout.pad depth).toList
    have hwritable := IsWritable.of_spaced hd hne hws (b := []) nofun .nil
        (by simp [Token.ofLine_nil])
    rw [List.append_nil, ← htext] at hline hwritable
    rw [Token.ofLine_nil, List.append_nil] at hline
    exact ⟨hwritable, Token.lineBreak .states (layout.line depth text).toList, rfl,
      Token.fullLine_line hd.skipsBlanks hlayout depth hline
        (Token.kind_spaced (fun w hw => (hws w hw).kind.1) _)⟩
  obtain ⟨hhead, nl, hnl, hheadRow⟩ := hwords n.head (noteWords n) (by simp [noteWords])
    (isBare_noteWords h.state) (toList_noteHead h.placement)
  obtain ⟨hlast, nl', hnl', hlastRow⟩ := hwords "end note" ends (by simp [ends]) hends
    (by simp [ends, Token.spacedChars, List.intercalate])
  refine ⟨?_, ?_⟩
  · rw [List.cons_append]
    exact .cons (Layout.isOwnLine_line hlayout depth hhead) (areOwnLines_note hlayout depth
      (fun line hline => (hlines line hline).isSpan.plain) huncut hlast (by decide))
  let e := Token.plain .identifier (layout.pad depth).toList "end".toList
  let f := Token.plain .identifier [' '] "note".toList
  have hef : e.isWord ["end"] = true ∧ f.isWord ["note"] = true := by
    rw [Token.isWord_plain, Token.isWord_plain]
    decide
  have hrow : (layout.line depth n.head ::
      lines.map (fun line => layout.line (depth + 1) (String.ofList line)) ++
        [layout.line depth "end note"]).flatMap (Token.fullLine .states) =
      Token.spaced (layout.pad depth).toList (noteWords n) ++
        nl :: (noteRows layout (depth + 1) lines ++ [e, f, nl']) := by
    rw [List.flatMap_append, List.flatMap_cons, List.flatMap_map, hheadRow, List.flatMap_singleton,
      hlastRow, List.append_assoc, List.append_assoc]
    rfl
  rw [hrow]
  refine .of_statement (by simp [noteWords, Token.spaced]) fun past ts => ?_
  rw [List.append_assoc, List.cons_append, List.append_assoc]
  refine statement_noteWords h hmem _ past _ ts _ fun keyword past => ?_
  rw [← hraw]
  exact noteText_noteRows hlayout (depth + 1) hlines past ts _
    hnl hef.1 hef.2 hnl'

/-- The lines of a note `n` about a state that is there already are read as the note, whatever its
text is. -/
theorem readsLines_note (hlayout : layout.IsBlank) (depth : Nat) (h : n.Readable) (huncut : n.Uncut)
    (hmem : n.state ∈ d.ids) :
    ReadsLines .states statement d (n.lines layout depth) (d.add { notes := [n] }) := by
  -- A note is written in one of three ways: without a text, with lines of its own, or on one line.
  by_cases hempty : n.text.raw = ""
  · have hlines : n.lines layout depth = layout.line depth n.head ::
        ([] : List (List Char)).map (fun line => layout.line (depth + 1) (String.ofList line)) ++
          [layout.line depth "end note"] := by
      unfold Note.lines
      simp [hempty, Note.head]
    rw [hlines]
    exact readsLines_noteBlock hlayout depth h hmem (List.forall_mem_nil _) rfl hempty.symm
  have hne : n.text.raw.isEmpty = false := by simpa using hempty
  by_cases hbreak : '\n' ∈ n.text.raw.toList
  · have hlines : n.lines layout depth = layout.line depth n.head ::
        (n.text.raw.toList.splitOn '\n').map
          (fun line => layout.line (depth + 1) (String.ofList line)) ++
            [layout.line depth "end note"] := by
      unfold Note.lines
      have hcontains : n.text.raw.toList.contains '\n' = true := by simpa using hbreak
      simp only [hne, hcontains, Bool.false_eq_true, if_false, if_true]
      rfl
    rw [hlines]
    refine readsLines_noteBlock hlayout depth h hmem (h.lines hbreak) huncut ?_
    have hchars : ((n.text.raw.toList.splitOn '\n').map String.ofList).map String.toList =
        n.text.raw.toList.splitOn '\n' := by
      rw [List.map_map]
      exact List.map_id'' (fun _ => String.toList_ofList) _
    rw [← String.toList_inj, String.toList_intercalate, hchars]
    exact List.intercalate_splitOn '\n'
  · have hplain := h.line hbreak
    have hcontains : n.text.raw.toList.contains '\n' = false := by simpa using hbreak
    have hlines : n.lines layout depth = [layout.line depth s!"{n.head} : {n.text.raw}"] := by
      unfold Note.lines
      simp only [hne, hcontains, Bool.false_eq_true, if_false]
      rfl
    have htext : s!"{n.head} : {n.text.raw}".toList =
        Token.spacedChars (noteWords n) ++ Token.labelChars (some n.text.raw) := by
      rw [← toList_noteHead h.placement]
      simp [Token.labelChars, toString]
    have htrim : ∀ l ∈ some n.text, IsTrimmed l := by
      rintro l ⟨⟩
      exact ⟨hempty, hplain.2.trim_eq⟩
    have hlabel : ∀ l ∈ some n.text, IsLabel l := by
      rintro l ⟨⟩
      exact ⟨hplain.1, h.ofText?⟩
    rw [hlines]
    refine .spaced Dialect.regular_states hlayout depth htext (by simp [noteWords])
      (isBare_noteWords h.state) (Token.startsBlank_labelChars _) (plain_labelChars hlabel)
      (ofLine_labelChars htrim) (Token.kind_labelTokens _) fun past us nl hnl => ?_
    exact statement_noteWords h hmem _ past _ us _ fun keyword past =>
      noteText_labelTokens keyword past us _ n.text hnl

/-! ### Notes of plain lines -/

/-- A `line` that a note of several lines can hold: a text of one line without semicolons and
comments, of which the first word is not the one that ends a note. -/
structure IsInnerLine (line : List Char) : Prop where
  ne_nil : line ≠ []
  plain : Plain line
  trim_eq : trim line = line
  semicolon : ';' ∉ line
  comment : ¬['%', '%'] <:+: line
  word : lower (String.ofList (line.take (Measure.hyphenated line))) ≠ "end"

namespace IsInnerLine

variable {line : List Char}

instance (line : List Char) : Decidable (IsInnerLine line) :=
  decidable_of_iff (line ≠ [] ∧ Plain line ∧ trim line = line ∧ ';' ∉ line ∧
      ¬['%', '%'] <:+: line ∧
      lower (String.ofList (line.take (Measure.hyphenated line))) ≠ "end")
    ⟨fun ⟨h₁, h₂, h₃, h₄, h₅, h₆⟩ => ⟨h₁, h₂, h₃, h₄, h₅, h₆⟩,
      fun ⟨h₁, h₂, h₃, h₄, h₅, h₆⟩ => ⟨h₁, h₂, h₃, h₄, h₅, h₆⟩⟩

/-- Only a semicolon is a token of its kind, which no other character starts. -/
theorem kind_first_ne_semicolon {c : Char} (hc : c ≠ ';') (cs : List Char) :
    (Rule.first (Rule.common ++ Dialect.stateRules) (c :: cs)).1 ≠ .semicolon := by
  have hrule : ∀ r ∈ Rule.common ++ Dialect.stateRules, r.1 = .semicolon →
      r.2 = Measure.literal [';'] := by
    simp [Rule.common, Dialect.stateRules, Rule.punctuation]
  rcases Rule.first_eq_or (Rule.common ++ Dialect.stateRules) (c :: cs) with
    ⟨h, -⟩ | ⟨r, hr, hne, h⟩
  · rw [h]
    decide
  · rw [h]
    intro hkind
    rw [hrule r hr hkind] at hne
    exact hne (Measure.literal_cons_of_ne hc [] cs)

/-- A line starts with the word that is its first identifier, measured as `Measure.hyphenated`
does. -/
theorem isWord_first {c : Char} (hc : isSpaceOrTab c = false) (cs : List Char) {t : Token}
    {ts : List Token} (h : Token.ofLine .states [] (c :: cs) = t :: ts) {words : List String}
    (ht : t.isWord words = true) :
    words.contains (lower (String.ofList ((c :: cs).take (Measure.hyphenated (c :: cs))))) =
      true := by
  have hkind := kind_of_isWord ht
  have hrule : ∀ r ∈ Rule.common ++ Dialect.stateRules, r.1 = .identifier →
      r.2 = Measure.hyphenated := by
    simp [Rule.common, Dialect.stateRules, Rule.punctuation]
  obtain ⟨u, us, hline, -, hu⟩ := Token.exists_ofLine Dialect.regular_states hc [] cs
  rw [h] at hline
  cases hline
  rw [hkind] at hu
  rcases Rule.first_eq_or (Rule.common ++ Dialect.stateRules) (c :: cs) with
    ⟨hfirst, -⟩ | ⟨r, hr, -, hfirst⟩
  · rw [hfirst] at hu
    cases hu
  rw [hfirst] at hu
  rw [hrule r hr hu.symm, ← hu] at hfirst
  rw [Token.ofLine_cons Dialect.regular_states hc hfirst (by decide)] at h
  cases h
  rw [Token.isWord_plain] at ht
  exact ht

theorem trimmed (h : IsInnerLine line) : Trimmed line := .of_trim_eq h.trim_eq

/-- Such a `line` can stand in a note: it is one span, and its first word does not end the note. -/
theorem isNoteLine (h : IsInnerLine line) : IsNoteLine line where
  isSpan := by
    have hspan := Token.isSpan_of_kinds Dialect.regular_states (f := fun _ => true)
      (fun _ _ => rfl) h.plain h.trimmed h.comment
    have hkinds : ∀ k ∈ [.unknown, .string, .colon] ++ Dialect.stateRules.map Prod.fst,
        k ≠ .semicolon → k.endsStatement = false := by
      decide
    refine ⟨h.plain, h.trimmed, fun gap t ht => ⟨?_, (hspan.kinds gap t ht).2⟩⟩
    -- only a semicolon could end the statement, and the line holds none
    have hends : t.kind.endsStatement = false := by
      refine Token.forall_kind_ofLine Dialect.regular_states
        (P := fun k => k.endsStatement = false) rfl (fun c cs hsuffix _ => ?_) gap t ht
      refine hkinds _ (Token.kind_first _ fun hc => h.comment (hc.trans hsuffix.isInfix))
        (kind_first_ne_semicolon ?_ cs)
      rintro rfl
      exact h.semicolon (hsuffix.subset List.mem_cons_self)
    rw [hends]
    rfl
  endsNote_eq := by
    obtain ⟨c, cs, rfl⟩ := List.exists_cons_of_ne_nil h.ne_nil
    have hc : isSpaceOrTab c = false := isSpaceOrTab_of_not_isBlank (h.trimmed.head c rfl)
    cases hrow : Token.ofLine .states [] (c :: cs) with
    | nil => rfl
    | cons t ts =>
      -- the first token is the first word, which is not `end`
      have ht : t.isWord ["end"] = false := by
        by_contra hword
        have hcontains := isWord_first hc cs hrow (by simpa using hword)
        exact h.word (by simpa using hcontains)
      cases ts with
      | nil => rfl
      | cons u us =>
        rw [endsNote, ht]
        rfl

/-- Such a `line` separates no diagrams, since it is neither blank nor a comment. -/
theorem isBlankLine_eq (h : IsInnerLine line) : isBlankLine (line ++ ['\n']) = false := by
  have htrim : trim (line ++ ['\n']) = line := by
    have hblanks := @trim_append_blanks [] ['\n'] nofun (by decide) line
    rw [List.nil_append] at hblanks
    rw [hblanks, h.trim_eq]
  rw [isBlankLine, htrim]
  split
  · exact absurd rfl h.ne_nil
  · next rest => exact absurd ⟨[], rest, rfl⟩ h.comment
  · rfl

end IsInnerLine

/-- Where no line separates diagrams, none starts one, whatever headers there are. -/
theorem cuts_eq_zero {ls : List (List Char)} (h : ∀ l ∈ ls, isBlankLine l = false) :
    cuts false ls = 0 := by
  induction ls with
  | nil => rfl
  | cons l ls ih =>
    obtain ⟨hl, hls⟩ := List.forall_mem_cons.1 h
    rw [cuts, hl, ih hls]
    rfl

end States
end DiagramText
