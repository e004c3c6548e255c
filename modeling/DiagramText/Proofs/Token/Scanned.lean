import DiagramText.Proofs.Token.Span

/-!
# Rows that scanning gives

What is left of the tokens of a text, from any token on but the text after a colon, is again the row
of a part of a line with the rows of the lines after it.

* `Token.Scanned`: such a row. The row of a text is one, as `Token.scanned_ofText` says.
* `Token.Scanned.head`: what its first token can be, and that the rest is such a row again.
* `Token.Scanned.exists_span`: what a reading takes of it as it stands has a source.
-/

namespace DiagramText

open Text

namespace Token

variable {d : Dialect} {words : List Rule}

/-- The row of a part of a line, without a comment, and the rows of the lines after it. -/
inductive Scanned (d : Dialect) : List Token → Prop
  | last (gap : List Char) {cs : List Char} (hcs : Plain cs) :
      Scanned d ((ofLine d gap cs).filter isRead)
  | line (gap : List Char) {cs : List Char} {t : Token} {ts : List Token} (hcs : Plain cs)
      (ht : t.kind = .newline) (hts : Scanned d ts) :
      Scanned d ((ofLine d gap cs).filter isRead ++ t :: ts)

/-- The tokens `us` are the rows of the lines after a part of a line: none, or a line break and a
row. -/
def ScannedRest (d : Dialect) (us : List Token) : Prop :=
  us = [] ∨ ∃ t ts, us = t :: ts ∧ t.kind = .newline ∧ Scanned d ts

theorem scanned_iff {ts : List Token} : Scanned d ts ↔
    ∃ gap cs us, Plain cs ∧ ts = (ofLine d gap cs).filter isRead ++ us ∧ ScannedRest d us := by
  constructor
  · intro h
    cases h with
    | last gap hcs => exact ⟨gap, _, [], hcs, (List.append_nil _).symm, .inl rfl⟩
    | line gap hcs ht hts => exact ⟨gap, _, _, hcs, rfl, .inr ⟨_, _, rfl, ht, hts⟩⟩
  · rintro ⟨gap, cs, us, hcs, rfl, rfl | ⟨t, ts, rfl, ht, hts⟩⟩
    · rw [List.append_nil]
      exact .last gap hcs
    · exact .line gap hcs ht hts

theorem ScannedRest.scanned {us : List Token} (h : ScannedRest d us) : Scanned d us :=
  scanned_iff.2 ⟨[], [], us, .nil, by rw [ofLine_nil]; rfl, h⟩

/-! ### Rows of texts -/

theorem exists_row_ofFullLine (l : Text.Line) (h : l.terminator ≠ []) (ps : List Piece) :
    ∃ g, row [] (Piece.ofFullLine d l ++ ps) =
      ofLine d [] l.content ++ plain .newline g l.terminator :: row [] ps := by
  refine ⟨trailing [] (Piece.ofLine d l.content), ?_⟩
  rw [Piece.ofFullLine, if_neg (by simpa using h), List.append_assoc, row_append]
  rfl

/-- The row of a `text` of which the only blanks are spaces, tabs and line breaks. In other texts a
blank could get lost by trimming. -/
theorem scanned_ofText {text : List Char}
    (htext : ∀ c ∈ text, isBlank c = true → isSpaceOrTab c = true ∨ isLineBreak c = true) :
    Scanned d (Cursor.ofText d text).rest := by
  obtain ⟨ls, l, hlines, hl, hls⟩ := @exists_lines isLineBreak text
  have hmem : ∀ m ∈ lines isLineBreak text, ∀ c ∈ m.content, c ∈ text := by
    intro m hm c hc
    rw [← @flatten_lines isLineBreak text]
    exact List.mem_flatten.2 ⟨m.full, List.mem_map_of_mem hm, List.mem_append_left _ hc⟩
  -- a blank in a line is a space or a tab, as the line holds no break
  have hplain : ∀ m ∈ ls ++ [(⟨l, []⟩ : Text.Line)], (∀ c ∈ m.content, isLineBreak c = false) →
      Plain m.content := fun m hm hbreaks c hc hblank =>
    (htext c (hmem m (hlines ▸ hm) c hc) hblank).resolve_right (by simp [hbreaks c hc])
  rw [Cursor.ofText, Piece.ofText, hlines]
  clear hlines hmem
  dsimp only
  induction ls with
  | nil =>
    have hlast : Piece.ofFullLine d ⟨l, []⟩ = Piece.ofLine d l := by simp [Piece.ofFullLine]
    rw [List.nil_append, List.flatMap_singleton, hlast]
    exact .last [] (hplain ⟨l, []⟩ (by simp) hl)
  | cons m ls ih =>
    obtain ⟨hm, hls⟩ := List.forall_mem_cons.1 hls
    obtain ⟨g, hrow⟩ := exists_row_ofFullLine (d := d) m hm.1
      ((ls ++ [(⟨l, []⟩ : Text.Line)]).flatMap (Piece.ofFullLine d))
    rw [List.cons_append, List.flatMap_cons, hrow, List.filter_append,
      List.filter_cons_of_pos (by rfl)]
    exact .line [] (hplain m (by simp) hm.2) rfl
      (ih hls fun m hm => hplain m (List.mem_cons_of_mem _ hm))

/-! ### The first token -/

/-- What the row of a line starts with, comments left out: nothing, a lexeme, or a colon with its
text. -/
inductive LineHead (d : Dialect) (words : List Rule) : List Token → Prop
  | nil : LineHead d words []
  | lexeme {kind : TokenKind} (gap : List Char) {x cs : List Char}
      (hkind : kind ∉ [.comment, .colon, .text, .newline]) (hx : Plain x)
      (hfirst : Rule.first (Rule.common ++ words) x = (kind, x.length)) (hcs : Plain cs) :
      LineHead d words (plain kind gap x :: (ofLine d [] cs).filter isRead)
  | colon (gap : List Char) : LineHead d words [plain .colon gap [':']]
  | text (gap b : List Char) {x : List Char} (hne : x ≠ []) (hx : Plain x) (htrim : Trimmed x) :
      LineHead d words [plain .colon gap [':'], plain .text b x]

theorem lineHead (hd : d.Regular words) {cs : List Char} (hcs : Plain cs) (gap : List Char) :
    LineHead d words ((ofLine d gap cs).filter isRead) := by
  induction cs generalizing gap with
  | nil => rw [ofLine_nil]; exact .nil
  | cons c cs ih =>
    have hcs' : Plain cs := hcs.of_subset fun _ => List.mem_cons_of_mem _
    -- A blank only makes the gap longer. Else the first lexeme is a comment, a colon, or a token by
    -- itself.
    by_cases hc : isSpaceOrTab c = true
    · rw [ofLine_cons_blank hd hc]
      exact ih hcs' _
    have hc : isSpaceOrTab c = false := by simpa using hc
    cases hfirst : Rule.first (Rule.common ++ words) (c :: cs) with
    | mk kind n =>
      have hcases := Rule.first_cases hd hc cs
      rw [hfirst] at hcases
      cases hcases with
      | comment =>
        rw [ofLine_cons hd hc hfirst (by decide), List.drop_length, ofLine_nil]
        exact .nil
      | colon hcolon =>
        subst hcolon
        obtain ⟨b, x, rest, rfl, hb, hrest, htrim, hafter⟩ := exists_afterColon hcs'
        rw [ofLine_cons_colon hd, hafter]
        by_cases hne : x = []
        · rw [if_pos (by simpa using hne)]
          exact .colon gap
        · rw [if_neg (by simpa using hne)]
          exact .text gap b hne (hcs'.of_subset fun _ h => by simp [h]) htrim
      | @other _ n hkind hn hlast =>
        have hx : Rule.first (Rule.common ++ words) ((c :: cs).take (n + 1)) = (kind, n + 1) := by
          have happ := hd.cut ((c :: cs).take (n + 1)) ((c :: cs).drop (n + 1))
          rw [List.take_append_drop, hfirst, List.length_take, Nat.min_eq_left hn] at happ
          exact happ (Nat.le_refl _) (.inl rfl)
        have hread : isRead (plain kind gap ((c :: cs).take (n + 1))) = true := by
          simp only [List.mem_cons, not_or] at hkind
          simpa [isRead, plain] using hkind.1
        rw [ofLine_cons hd hc hfirst fun h => hkind (by rw [h]; decide),
          List.filter_cons_of_pos hread]
        refine .lexeme gap hkind (hcs.of_subset fun _ => List.mem_of_mem_take) ?_
          (hcs.of_subset fun _ => List.mem_of_mem_drop)
        rw [hx, List.length_take, Nat.min_eq_left hn]

/-- What a row `ts` starts with, and what is known of its rest. -/
inductive Head (d : Dialect) (words : List Rule) : Token → List Token → Prop
  | newline {t : Token} {ts : List Token} (ht : t.kind = .newline) (hts : Scanned d ts) :
      Head d words t ts
  | lexeme {t : Token} {ts : List Token} (hkind : t.kind ∉ [.comment, .colon, .text, .newline])
      (hplain : Plain t.text.toList)
      (hfirst : Rule.first (Rule.common ++ words) t.text.toList = (t.kind, t.text.toList.length))
      (hts : Scanned d ts) : Head d words t ts
  | colon {t : Token} {ts : List Token} (ht : t.kind = .colon) (hts : Scanned d ts) :
      Head d words t ts
  | text {t u : Token} {ts : List Token} (ht : t.kind = .colon) (hu : u.kind = .text)
      (hne : u.text.toList ≠ []) (hplain : Plain u.text.toList) (htrim : Trimmed u.text.toList)
      (hts : Scanned d ts) : Head d words t (u :: ts)

/-- What follows a token `t` is scanned again, but for the text after a colon, which belongs to the
colon. -/
theorem Scanned.head (hd : d.Regular words) {t : Token} {ts : List Token}
    (h : Scanned d (t :: ts)) : Head d words t ts := by
  obtain ⟨gap, cs, us, hcs, hts, hus⟩ := scanned_iff.1 h
  have hhead := lineHead hd hcs gap
  generalize (ofLine d gap cs).filter isRead = row at hts hhead
  cases hhead with
  | nil =>
    obtain rfl | ⟨t', ts', rfl, ht, hts'⟩ := hus
    · cases hts
    · cases hts
      exact .newline ht hts'
  | lexeme gap hkind hx hfirst hcs' =>
    cases hts
    exact .lexeme hkind (by simpa [plain] using hx) (by simpa [plain] using hfirst)
      (scanned_iff.2 ⟨_, _, us, hcs', rfl, hus⟩)
  | colon gap =>
    cases hts
    exact .colon rfl hus.scanned
  | text gap b hne hx htrim =>
    cases hts
    exact .text rfl rfl (by simpa [plain] using hne) (by simpa [plain] using hx)
      (by simpa [plain] using htrim) hus.scanned

/-- Behind any token but a colon a row `ts` is scanned again, so a reading can go on there. -/
theorem Scanned.tail (hd : d.Regular words) {t : Token} {ts : List Token} (h : Scanned d (t :: ts))
    (ht : t.kind ≠ .colon) : Scanned d ts := by
  cases h.head hd with
  | newline _ hts => exact hts
  | lexeme _ _ _ hts => exact hts
  | colon ht' => exact absurd ht' ht
  | text ht' => exact absurd ht' ht

/-- A row `ts` does not start with the text after a colon, since the colon comes first. -/
theorem Scanned.ne_text (hd : d.Regular words) {t : Token} {ts : List Token}
    (h : Scanned d (t :: ts)) : t.kind ≠ .text := by
  intro htext
  cases h.head hd with
  | newline ht => rw [htext] at ht; cases ht
  | lexeme hkind => rw [htext] at hkind; exact absurd (by decide) hkind
  | colon ht => rw [htext] at ht; cases ht
  | text ht => rw [htext] at ht; cases ht

/-- A token `t` that its text gives when it is scanned on its own, so that it can be written
elsewhere. -/
def IsLexeme (words : List Rule) (t : Token) : Prop :=
  Plain t.text.toList ∧
    Rule.first (Rule.common ++ words) t.text.toList = (t.kind, t.text.toList.length)

theorem Scanned.isLexeme (hd : d.Regular words) {t : Token} {ts : List Token}
    (h : Scanned d (t :: ts)) (ht : t.kind ≠ .newline) (ht' : t.kind ≠ .colon) :
    t.IsLexeme words := by
  cases h.head hd with
  | newline hkind => exact absurd hkind ht
  | lexeme _ hplain hfirst => exact ⟨hplain, hfirst⟩
  | colon hkind => exact absurd hkind ht'
  | text hkind => exact absurd hkind ht'

/-- The token `t` is a text after a colon: it is not empty, plain and trimmed. -/
def IsText (t : Token) : Prop :=
  t.text.toList ≠ [] ∧ Plain t.text.toList ∧ Trimmed t.text.toList

/-! ### Spans of a row -/

/-- A comment is the last token `t` of its line, for it takes the rest of it. -/
theorem eq_singleton_of_comment (hd : d.Regular words) {gap cs : List Char} {t : Token}
    {ts : List Token} (h : ofLine d gap cs = t :: ts) (ht : t.kind = .comment) : ts = [] := by
  -- the blanks at the start are nothing to the tokens, so the line starts with the comment
  rw [ofLine_dropWhile hd] at h
  generalize gap ++ cs.takeWhile isSpaceOrTab = gap' at h
  have hhead := List.head?_dropWhile_not isSpaceOrTab cs
  generalize cs.dropWhile isSpaceOrTab = ds at h hhead
  cases ds with
  | nil => rw [ofLine_nil] at h; cases h
  | cons c ds =>
    have hc : isSpaceOrTab c = false := by simpa using hhead
    obtain ⟨u, us, hline, -, hkind⟩ := exists_ofLine hd hc gap' ds
    cases hfirst : Rule.first (Rule.common ++ words) (c :: ds) with
    | mk kind n =>
      have hcases := Rule.first_cases hd hc ds
      rw [h] at hline
      cases hline
      rw [hfirst, ht] at hkind
      rw [hfirst] at hcases
      -- a first lexeme that is a comment is as long as the line
      cases hcases with
      | comment =>
        rw [ofLine_cons hd hc hfirst (by decide), List.drop_length, ofLine_nil] at h
        cases h
        rfl
      | colon => cases hkind
      | other hkind' =>
        obtain rfl : .comment = kind := hkind
        exact absurd (by decide) hkind'

/-- The row of a line `cs` is what is read of it, and maybe a comment, which comes last. -/
theorem exists_comment (hd : d.Regular words) {cs : List Char} (hcs : Plain cs)
    (gap : List Char) :
    ∃ us, ofLine d gap cs = (ofLine d gap cs).filter isRead ++ us ∧
      us.filter isRead = [] ∧ ∀ u ∈ us.head?, u.kind = .comment := by
  obtain ⟨b, span, h⟩ := Token.exists_span hd (f := (· != .comment)) rfl stops_of_comment hcs gap
  obtain ⟨b', gap', cs', -, -, -, hdrop⟩ := h.left
  have hline := (ofLine d gap cs).takeWhile_append_dropWhile (p := isRead)
  have htake : ((ofLine d gap cs).takeWhile isRead).filter isRead =
      (ofLine d gap cs).takeWhile isRead :=
    List.filter_eq_self.2 fun t ht => List.all_eq_true.1 List.all_takeWhile t ht
  -- The line is split at its first comment, behind which nothing is left to scan.
  have hus : ((ofLine d gap cs).dropWhile isRead).filter isRead = [] ∧
      ∀ u ∈ ((ofLine d gap cs).dropWhile isRead).head?, u.kind = .comment := by
    have hhead := List.head?_dropWhile_not isRead (ofLine d gap cs)
    have hdrop : (ofLine d gap cs).dropWhile isRead = ofLine d gap' cs' := hdrop
    generalize (ofLine d gap cs).dropWhile isRead = us at hdrop hhead
    cases us with
    | nil => exact ⟨rfl, by simp⟩
    | cons u us =>
      have hu : u.kind = .comment := by simpa [isRead] using hhead
      rw [eq_singleton_of_comment hd hdrop.symm hu]
      exact ⟨by simp [isRead, hu], by simpa using hu⟩
  refine ⟨(ofLine d gap cs).dropWhile isRead, ?_, hus⟩
  have hfilter : (ofLine d gap cs).filter isRead = (ofLine d gap cs).takeWhile isRead := by
    conv => lhs; rw [← hline]
    rw [List.filter_append, htake, hus.1, List.append_nil]
  rw [hfilter, hline]

/-- Tokens that pass a test `p` are the same before any rest that starts with one that does not,
such as a line break. -/
theorem takeWhile_append_eq {p : Token → Bool} {ts us : List Token}
    (hus : ∀ u ∈ us.head?, p u = false) :
    (ts ++ us).takeWhile p = ts.takeWhile p ∧ (ts ++ us).dropWhile p = ts.dropWhile p ++ us := by
  induction ts with
  | nil =>
    rw [List.nil_append, dropWhile_eq_self hus]
    cases us with
    | nil => exact ⟨rfl, rfl⟩
    | cons u us => exact ⟨List.takeWhile_cons_of_neg (by simp [hus u rfl]), rfl⟩
  | cons t ts ih =>
    simp only [List.cons_append, List.takeWhile_cons, List.dropWhile_cons]
    split
    · exact ⟨by rw [ih.1], ih.2⟩
    · exact ⟨rfl, rfl⟩

/-- A row `ts` holds no comments, since none is read. -/
theorem Scanned.isRead {ts : List Token} (h : Scanned d ts) : ∀ t ∈ ts, isRead t = true := by
  induction h with
  | last gap hcs => exact fun t ht => (List.mem_filter.1 ht).2
  | line gap hcs ht hts ih =>
    refine List.forall_mem_append.2 ⟨fun t ht => (List.mem_filter.1 ht).2,
      List.forall_mem_cons.2 ⟨?_, ih⟩⟩
    simp [Token.isRead, ht]

/-- A text `cs` as a reading takes it from a line: it is trimmed, and its tokens are no comments and
pass a test `f`, whatever gap comes before it. -/
structure IsSpan (d : Dialect) (f : TokenKind → Bool) (cs : List Char) : Prop where
  plain : Plain cs
  trimmed : Trimmed cs
  kinds (gap : List Char) : ∀ t ∈ ofLine d gap cs, f t.kind = true ∧ t.kind ≠ .comment

/-- The first lexeme of a text `cs` is a comment only at two percent signs, and else of one of the
other kinds of the dialect. -/
theorem kind_first (words : List Rule) {cs : List Char} (hcomment : ¬['%', '%'] <:+: cs) :
    (Rule.first (Rule.common ++ words) cs).1 ∈
      [.unknown, .string, .colon] ++ words.map Prod.fst := by
  rcases Rule.first_eq_or (Rule.common ++ words) cs with ⟨h, -⟩ | ⟨r, hr, h0, h⟩
  · rw [h]
    exact List.mem_cons_self
  rw [h]
  rcases List.mem_append.1 hr with hr | hr
  · simp only [Rule.common, List.mem_cons, List.not_mem_nil, or_false] at hr
    obtain rfl | rfl | rfl := hr
    · refine absurd ?_ hcomment
      have hprefix : ['%', '%'].isPrefixOf cs = true := by
        by_contra hne
        exact h0 (if_neg hne)
      exact (List.isPrefixOf_iff_prefix.1 hprefix).isInfix
    · simp
    · simp
  · exact List.mem_append_right _ (List.mem_map_of_mem hr)

/-- What holds of the kind of every first lexeme in a line, and of the text after a colon, holds of
the kinds of all its tokens. The induction is on the length of the line. -/
theorem forall_kind_ofLine (hd : d.Regular words) {P : TokenKind → Prop} (htext : P .text)
    {cs : List Char} (h : ∀ c cs', c :: cs' <:+ cs → isSpaceOrTab c = false →
      P (Rule.first (Rule.common ++ words) (c :: cs')).1) (gap : List Char) :
    ∀ t ∈ ofLine d gap cs, P t.kind := by
  induction hlen : cs.length using Nat.strongRecOn generalizing cs gap with
  | _ len ih =>
    cases cs with
    | nil =>
      rw [ofLine_nil]
      exact List.forall_mem_nil _
    | cons c cs =>
      rw [List.length_cons] at hlen
      -- a blank is no token, and goes into the gap of the next one
      by_cases hc : isSpaceOrTab c = true
      · rw [ofLine_cons_blank hd hc]
        exact ih cs.length (by omega)
          (fun e es he => h e es (he.trans (List.suffix_cons c cs))) _ rfl
      have hc : isSpaceOrTab c = false := by simpa using hc
      have hkind := h c cs List.suffix_rfl hc
      have hpos := Rule.first_pos (Rule.common ++ words) (c :: cs)
      cases hfirst : Rule.first (Rule.common ++ words) (c :: cs) with
      | mk kind n =>
        rw [hfirst] at hkind hpos
        -- a colon takes the rest of the line, any other lexeme leaves a shorter one
        by_cases hcolon : kind = .colon
        · obtain rfl : c = ':' := by
            have hcases := Rule.first_cases hd hc cs
            rw [hfirst, hcolon] at hcases
            cases hcases with
            | colon hc => exact hc
            | other hother => exact absurd (by decide) hother
          rw [ofLine_cons_colon hd]
          refine List.forall_mem_cons.2 ⟨hcolon ▸ hkind, fun t ht => ?_⟩
          rw [kind_of_mem_afterColon ht]
          exact htext
        · rw [ofLine_cons hd hc hfirst hcolon]
          refine List.forall_mem_cons.2 ⟨hkind, ih _ ?_ (fun e es he => h e es
            (he.trans (List.drop_suffix n _))) [] rfl⟩
          rw [List.length_drop, List.length_cons]
          dsimp only at hpos
          omega

/-- A trimmed text `cs` without two percent signs in a row is such a text for a test `f` that every
kind of the dialect `d` passes. -/
theorem isSpan_of_kinds (hd : d.Regular words) {f : TokenKind → Bool}
    (hf : ∀ k ∈ [.unknown, .string, .colon, .text] ++ words.map Prod.fst, f k = true)
    {cs : List Char} (hcs : Plain cs) (htrim : Trimmed cs) (hcomment : ¬['%', '%'] <:+: cs) :
    IsSpan d f cs := by
  refine ⟨hcs, htrim, ?_⟩
  have hkinds : ∀ k ∈ [.unknown, .string, .colon] ++ words.map Prod.fst,
      f k = true ∧ k ≠ .comment := by
    intro k hk
    refine ⟨hf k ?_, ?_⟩
    · simp only [List.mem_append, List.mem_cons, List.not_mem_nil, or_false] at hk ⊢
      tauto
    · rintro rfl
      rcases List.mem_append.1 hk with hk | hk
      · simp at hk
      · obtain ⟨r, hr, hkind⟩ := List.mem_map.1 hk
        exact (hd.isWord r hr).kind (by simp [hkind])
  refine forall_kind_ofLine hd (P := fun k => f k = true ∧ k ≠ .comment) ⟨hf _ (by simp), by decide⟩
    fun c cs' hsuffix _ => hkinds _ (kind_first words fun h => hcomment (h.trans hsuffix.isInfix))

/-- A text that differs from such a text only in the length of its gaps is one, too, for its tokens
have the same kinds. -/
theorem IsSpan.respaced (hd : d.Regular words) {f : TokenKind → Bool} (htext : f .text = true)
    {cs ds : List Char} (h : IsSpan d f cs) (hds : Respaced cs ds) : IsSpan d f ds where
  plain := hds.plain h.plain
  trimmed := hds.trimmed h.plain h.trimmed
  kinds gap t ht := by
    have hall : ∀ t ∈ ofLine d [] cs, (f t.kind && t.kind != .comment) = true := fun t ht => by
      simpa using h.kinds [] t ht
    have hpass := forall_kind_of_respaced hd (f := fun k => f k && k != .comment)
      (by rw [htext]; rfl) hds hall gap t ht
    simpa using hpass

/-- A row without comments is taken as far with the test for comments as without it, and so is what
is left. -/
theorem takeWhile_isRead {f : TokenKind → Bool} {ts : List Token}
    (hts : ∀ t ∈ ts, isRead t = true) :
    ts.takeWhile (fun t => t.kind != .comment && f t.kind) = ts.takeWhile (f ·.kind) ∧
      ts.dropWhile (fun t => t.kind != .comment && f t.kind) = ts.dropWhile (f ·.kind) := by
  induction ts with
  | nil => exact ⟨rfl, rfl⟩
  | cons t ts ih =>
    obtain ⟨ht, hts⟩ := List.forall_mem_cons.1 hts
    rw [isRead] at ht
    simp only [List.takeWhile_cons, List.dropWhile_cons, ht, Bool.true_and, ih hts, and_self]

/-- What a reading takes of the row of a line is the row of a span of the line. The rest of the row
is that of the rest of the line. -/
theorem exists_span_of_row (hd : d.Regular words) {f : TokenKind → Bool}
    (hstops : ∀ kind, f kind = false → kind ∈ TokenKind.stops) {cs : List Char} (hcs : Plain cs)
    (gap : List Char) :
    ∃ b span b' gap' cs', cs = b ++ span ++ (b' ++ cs') ∧ (∀ c ∈ b, isSpaceOrTab c = true) ∧
      (∀ c ∈ b', isSpaceOrTab c = true) ∧ IsSpan d f span ∧
      ((ofLine d gap cs).filter isRead).takeWhile (f ·.kind) = ofLine d (gap ++ b) span ∧
      source (ofLine d (gap ++ b) span) = String.ofList span ∧
      ((ofLine d gap cs).filter isRead).dropWhile (f ·.kind) =
        (ofLine d gap' cs').filter isRead := by
  -- A comment ends a span too, so the span is looked for with both tests, and the one for comments
  -- dropped at the end.
  have hstops' : ∀ kind, (kind != .comment && f kind) = false → kind ∈ TokenKind.stops := by
    intro kind h
    rw [Bool.and_eq_false_iff] at h
    exact h.elim (stops_of_comment kind) (hstops kind)
  have htext : f .text = true := by
    by_contra htext
    exact absurd (hstops .text (by simpa using htext)) (by decide)
  obtain ⟨b, span, hspan⟩ := Token.exists_span hd (f := fun k => k != .comment && f k) rfl hstops'
    hcs gap
  obtain ⟨b', gap', cs', rfl, hb', -, hdrop⟩ := hspan.left
  obtain ⟨us, hline, hfilter, hhead⟩ := exists_comment hd hcs gap
  let row := (ofLine d gap (b ++ span ++ (b' ++ cs'))).filter isRead
  have hrow : ∀ t ∈ row, isRead t = true := fun t ht => (List.mem_filter.1 ht).2
  obtain ⟨htake, hrest⟩ := takeWhile_isRead (f := f) hrow
  have hall : (row ++ us).takeWhile (fun t => t.kind != .comment && f t.kind) =
      row.takeWhile (fun t => t.kind != .comment && f t.kind) ∧
      (row ++ us).dropWhile (fun t => t.kind != .comment && f t.kind) =
        row.dropWhile (fun t => t.kind != .comment && f t.kind) ++ us :=
    takeWhile_append_eq fun u hu => by rw [hhead u hu]; rfl
  rw [← hline, htake, hrest] at hall
  refine ⟨b, span, b', gap', cs', rfl, hspan.blanks, hb',
    ⟨hcs.of_subset fun _ h => by simp [h], hspan.trimmed, fun gap' t ht => ?_⟩,
    hall.1.symm.trans hspan.taken, hspan.source_eq, ?_⟩
  · have hpass : ∀ t ∈ ofLine d (gap ++ b) span, (t.kind != .comment && f t.kind) = true :=
      fun t ht => List.all_eq_true.1 List.all_takeWhile t (hspan.taken ▸ ht)
    have hkind := forall_kind_of_respaced hd (f := fun k => k != .comment && f k)
      (by rw [htext]; rfl) (.refl span) hpass gap' t ht
    rw [Bool.and_eq_true, bne_iff_ne] at hkind
    exact hkind.symm
  · -- what is left of the line is the row of its end, with the comment
    have hself : (row.dropWhile (f ·.kind)).filter isRead = row.dropWhile (f ·.kind) :=
      List.filter_eq_self.2 fun t ht => hrow t ((List.dropWhile_sublist _).subset ht)
    rw [← hdrop, hall.2, List.filter_append, hfilter, List.append_nil, hself]

/-- What a reading takes of a row `ts` up to a line break has a source, and is the row of it, so it
is read back from what is written. -/
theorem Scanned.exists_span (hd : d.Regular words) {f : TokenKind → Bool}
    (hstops : ∀ kind, f kind = false → kind ∈ TokenKind.stops) (hnewline : f .newline = false)
    {ts : List Token} (h : Scanned d ts) :
    ∃ gap span, IsSpan d f span ∧ ts.takeWhile (f ·.kind) = ofLine d gap span ∧
      source (ts.takeWhile (f ·.kind)) = String.ofList span ∧
      Scanned d (ts.dropWhile (f ·.kind)) := by
  obtain ⟨gap, cs, us, hcs, rfl, hus⟩ := scanned_iff.1 h
  obtain ⟨b, span, b', gap', cs', rfl, -, -, hspan, htake, hsource, hdrop⟩ :=
    exists_span_of_row hd hstops hcs gap
  have hus' : ∀ u ∈ us.head?, f u.kind = false := by
    obtain rfl | ⟨t, ts, rfl, ht, -⟩ := hus
    · simp
    · simpa [ht] using hnewline
  obtain ⟨htake', hdrop'⟩ := @takeWhile_append_eq (f ·.kind)
    ((ofLine d gap (b ++ span ++ (b' ++ cs'))).filter Token.isRead) us hus'
  rw [htake', hdrop', htake, hdrop, hsource]
  refine ⟨_, _, hspan, rfl, rfl, scanned_iff.2 ⟨gap', cs', us, hcs.of_subset fun _ h => ?_, rfl,
    hus⟩⟩
  simp [h]

end Token
end DiagramText
