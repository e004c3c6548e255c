import DiagramText.Proofs.Token.Row
import Mathlib.Data.List.Basic
import Mathlib.Data.List.TakeWhile

/-!
# Spans of a line

A span of tokens that a reading takes as they stand has a source. Scanned on its own, the source
gives the same tokens again, and so does the source with other blanks between its words.

* `Token.exists_span`: the tokens of a line up to one of some kinds are the row of their source.
* `Token.source_ofLine`: the source of the row of a trimmed text is the text.
* `Token.forall_kind_of_respaced`: the kinds in a row do not depend on the length of gaps.
-/

namespace DiagramText

open Text

variable {d : Dialect} {words : List Rule}

/-! ### The first lexeme -/

namespace Rule

/-- A text is read up to no token that starts with a part of an arrow, as no kind of
`TokenKind.stops` does. -/
theorem isArrowPart_of_stops (hd : d.Regular words) {c : Char} {cs : List Char}
    (h : (first (common ++ words) (c :: cs)).1 ∈ TokenKind.stops) :
    Measure.isArrowPart c = false := by
  rcases first_eq_or (common ++ words) (c :: cs) with ⟨hfirst, -⟩ | ⟨r, hr, h0, hfirst⟩
  · rw [hfirst] at h
    exact absurd h (by decide)
  rw [hfirst] at h
  by_contra hc
  refine h0 ?_
  have hc : Measure.isArrowPart c = true := by simpa using hc
  have hne : ∀ e, Measure.isArrowPart e = false → c ≠ e := by
    rintro _ he rfl
    rw [hc] at he
    cases he
  rcases List.mem_append.1 hr with hr | hr
  · simp only [common, List.mem_cons, List.not_mem_nil, or_false] at hr
    obtain rfl | rfl | rfl := hr
    · exact Measure.comment_eq_zero_iff.2 (Measure.literal_cons_of_ne (hne '%' (by decide)) _ _)
    · exact Measure.quotedString.eq_2 _ (by simpa using hne '"' (by decide))
    · exact Measure.literal_cons_of_ne (hne ':' (by decide)) _ _
  · exact (hd.isWord r hr).stops h c cs hc

/-- No space or tab is part of what `r` takes, since what follows one does not matter to it. -/
theorem IsWord.not_isSpaceOrTab {r : Rule} (hr : r.IsWord) (cs : List Char) :
    ∀ c ∈ cs.take (r.2 cs), isSpaceOrTab c = false := by
  obtain ⟨a, b, rfl, ha, hb⟩ := exists_word cs
  intro c hc
  rw [hr.inWord a b hb, List.take_append_of_le_length (hr.bounded a)] at hc
  exact ha c (List.mem_of_mem_take hc)

/-- What the first lexeme at a character `c` that is no space or tab can be: a comment, a colon, or
a lexeme that does not end with a space or tab. -/
inductive First (c : Char) (cs : List Char) : TokenKind × Nat → Prop
  | comment : First c cs (.comment, (c :: cs).length)
  | colon (hc : c = ':') : First c cs (.colon, 1)
  | other {kind : TokenKind} {n : Nat} (hkind : kind ∉ [.comment, .colon, .text, .newline])
      (hn : n + 1 ≤ (c :: cs).length)
      (hlast : ∀ e ∈ ((c :: cs).take (n + 1)).getLast?, isSpaceOrTab e = false) :
      First c cs (kind, n + 1)

theorem first_cases (hd : d.Regular words) {c : Char} (hc : isSpaceOrTab c = false)
    (cs : List Char) : First c cs (first (common ++ words) (c :: cs)) := by
  -- No rule matches, or one of the common rules does, or one of the dialect, of which no space or
  -- tab is part.
  rcases first_eq_or (common ++ words) (c :: cs) with ⟨h, -⟩ | ⟨r, hr, h0, h⟩
  · rw [h]
    exact .other (by decide) (by simp) (by simpa using hc)
  rw [h]
  rcases List.mem_append.1 hr with hr | hr
  · simp only [common, List.mem_cons, List.not_mem_nil, or_false] at hr
    obtain rfl | rfl | rfl := hr
    · simp only [Measure.comment_eq_length h0]
      exact .comment
    · by_cases hquote : c = '"'
      · subst hquote
        by_cases hmem : '"' ∈ cs
        · obtain ⟨inner, rest, rfl, hinner⟩ := List.eq_append_cons_of_mem hmem
          simp only [Measure.quotedString_append hinner]
          refine .other (by decide) (by simp) fun e he => ?_
          rw [List.take_succ_cons, List.take_append, List.take_of_length_le (by omega)] at he
          simp only [Nat.add_sub_cancel_left, List.take_succ_cons, List.take_zero,
            ← List.cons_append, List.getLast?_concat, Option.mem_some] at he
          rw [← he]
          decide
        · exact absurd (Measure.quotedString_eq_zero hmem) h0
      · exact absurd (Measure.quotedString.eq_2 _ (by simpa using hquote)) h0
    · obtain rfl : ':' = c := by simpa [Measure.literal] using h0
      exact .colon rfl
  · obtain ⟨n, hn⟩ := Nat.exists_eq_add_one_of_ne_zero h0
    have hword := hd.isWord r hr
    have hle := hword.bounded (c :: cs)
    have hlast := hword.not_isSpaceOrTab (c :: cs)
    rw [hn] at hle hlast ⊢
    exact .other (fun h => hword.kind (by revert h; cases r.1 <;> decide)) hle
      fun e he => hlast e (List.mem_of_getLast? he)

end Rule

/-! ### Sources -/

namespace Token

/-- A line that starts with another character than a space or tab starts with a lexeme, whose kind
the rules `words` tell. -/
theorem exists_ofLine (hd : d.Regular words) {c : Char} (hc : isSpaceOrTab c = false)
    (gap cs : List Char) :
    ∃ t ts, ofLine d gap (c :: cs) = t :: ts ∧ t.gap = String.ofList gap ∧
      t.kind = (Rule.first (Rule.common ++ words) (c :: cs)).1 := by
  cases hfirst : Rule.first (Rule.common ++ words) (c :: cs) with
  | mk kind n =>
    have hcases := Rule.first_cases hd hc cs
    rw [hfirst] at hcases
    cases hcases with
    | comment => exact ⟨_, _, ofLine_cons hd hc hfirst (by decide) gap, rfl, rfl⟩
    | colon hcolon =>
      subst hcolon
      exact ⟨_, _, ofLine_cons_colon hd gap cs, rfl, rfl⟩
    | other hkind =>
      refine ⟨_, _, ofLine_cons hd hc hfirst (fun h => ?_) gap, rfl, rfl⟩
      exact hkind (by rw [h]; decide)

/-- A line `b` of spaces and tabs has no tokens, since all of it is skipped. -/
theorem ofLine_blanks (hd : d.Regular words) {b : List Char}
    (hb : ∀ c ∈ b, isSpaceOrTab c = true) (gap : List Char) : ofLine d gap b = [] := by
  rw [← List.append_nil b, ofLine_append_blanks hd hb, ofLine_nil]

/-- The source of a token `t` and a row after it: the text of the token, the gap, and what the row
is of. -/
theorem source_cons (hd : d.Regular words) (t : Token) (gap span : List Char) (hspan : Trimmed span)
    (hsource : source (ofLine d gap span) = String.ofList span) (hne : span ≠ []) :
    source (t :: ofLine d gap span) = t.text ++ String.ofList (gap ++ span) := by
  obtain ⟨c, cs, rfl⟩ := List.exists_cons_of_ne_nil hne
  have hc : isSpaceOrTab c = false := isSpaceOrTab_of_not_isBlank (hspan.head c rfl)
  obtain ⟨u, us, hus, hgap, -⟩ := exists_ofLine hd hc gap cs
  rw [hus] at hsource ⊢
  rw [source] at hsource ⊢
  rw [List.map_cons, String.join_cons, hgap, String.append_assoc, hsource, String.ofList_append]

/-- The text `cs` after a colon stands between spaces and tabs, and is trimmed. -/
theorem exists_afterColon {cs : List Char} (hcs : Plain cs) :
    ∃ b text rest, cs = b ++ text ++ rest ∧ (∀ c ∈ b, isSpaceOrTab c = true) ∧
      (∀ c ∈ rest, isSpaceOrTab c = true) ∧ Trimmed text ∧
      afterColon cs = if text.isEmpty then [] else [plain .text b text] := by
  obtain ⟨rest, hrest, hblank, hlast⟩ := exists_trimRight (cs.dropWhile isSpaceOrTab)
  have heq : cs = cs.takeWhile isSpaceOrTab ++ trimRight (cs.dropWhile isSpaceOrTab) ++ rest := by
    rw [List.append_assoc, ← hrest, List.takeWhile_append_dropWhile]
  have hsub : ∀ c ∈ trimRight (cs.dropWhile isSpaceOrTab) ++ rest, c ∈ cs := fun c hc => by
    rw [← hrest] at hc
    exact (List.dropWhile_sublist _).subset hc
  refine ⟨cs.takeWhile isSpaceOrTab, _, rest, heq,
    fun c hc => List.all_eq_true.1 List.all_takeWhile c hc,
    fun c hc => hcs c (hsub c (List.mem_append_right _ hc)) (hblank c hc), ⟨fun c hc => ?_, hlast⟩,
    rfl⟩
  have hhead := List.head?_dropWhile_not isSpaceOrTab cs
  rw [hrest, List.head?_append, Option.mem_def.1 hc] at hhead
  rw [hcs.isBlank_eq (hsub c (List.mem_append_left _ (List.mem_of_head? hc)))]
  simpa using hhead

theorem kind_of_mem_afterColon {t : Token} {cs : List Char} (h : t ∈ afterColon cs) :
    t.kind = .text := by
  rw [afterColon] at h
  split at h
  · cases h
  · rw [List.mem_singleton.1 h]
    rfl

/-- A `text` that is taken from behind a colon as it is: it does not start with a space or a tab,
and it does not end with any blank. -/
structure IsTail (text : List Char) : Prop where
  ne_nil : text ≠ []
  head : ∀ c ∈ text.head?, isSpaceOrTab c = false
  last : ∀ c ∈ text.getLast?, isBlank c = false

theorem afterColon_text {b text : List Char} (hb : ∀ c ∈ b, isSpaceOrTab c = true)
    (h : IsTail text) : afterColon (b ++ text) = [plain .text b text] := by
  have hdrop : (b ++ text).dropWhile isSpaceOrTab = text := by
    rw [List.dropWhile_append_of_pos hb, dropWhile_eq_self h.head]
  have htake : (b ++ text).takeWhile isSpaceOrTab = b := by
    rw [List.takeWhile_append_of_pos hb]
    obtain ⟨c, cs, rfl⟩ := List.exists_cons_of_ne_nil h.ne_nil
    rw [List.takeWhile_cons_of_neg (by simp [h.head c rfl]), List.append_nil]
  rw [afterColon, hdrop, htake, trimRight_eq_self h.last]
  simp [h.ne_nil]

theorem isTail_of_trimmed {text : List Char} (h : Trimmed text) (hne : text ≠ []) : IsTail text :=
  ⟨hne, fun c hc => isSpaceOrTab_of_not_isBlank (h.head c hc), h.last⟩

/-- A trimmed `text` is the text after a colon, whatever blanks come before it. -/
theorem afterColon_append {b text : List Char} (hb : ∀ c ∈ b, isSpaceOrTab c = true)
    (htext : Trimmed text) (hne : text ≠ []) : afterColon (b ++ text) = [plain .text b text] :=
  afterColon_text hb (isTail_of_trimmed htext hne)

/-! ### Labels behind a colon -/

/-- A `label` as a writer puts it at the end of a line: a colon between spaces, then the text. A
line without a label ends where it is. -/
def labelChars (label : Option String) : List Char :=
  label.elim [] fun l => ' ' :: ':' :: ' ' :: l.toList

/-- The tokens of `labelChars`: the colon, and the whole text behind it as one token. -/
def labelTokens (label : Option String) : List Token :=
  label.elim [] fun l => [plain .colon [' '] [':'], plain .text [' '] l.toList]

theorem startsBlank_labelChars (label : Option String) : StartsBlank (labelChars label) := by
  cases label with
  | none => exact nofun
  | some l =>
    rintro c ⟨⟩
    rfl

theorem plain_labelChars {label : Option String} (h : ∀ l ∈ label, Plain l.toList) :
    Plain (labelChars label) := by
  cases label with
  | none => exact .nil
  | some l =>
    have hcolon : Plain [' ', ':', ' '] := by simp [Plain, isBlank, isSpaceOrTab]
    exact Plain.append.2 ⟨hcolon, h l rfl⟩

theorem kind_labelTokens (label : Option String) : ∀ t ∈ labelTokens label, t.kind ≠ .comment := by
  cases label with
  | none => exact List.forall_mem_nil _
  | some l => simp [labelTokens, plain]

/-- The row of a `label` whose text is trimmed and not empty is the colon and the text. -/
theorem ofLine_labelChars (hd : d.Regular words) {label : Option String}
    (h : ∀ l ∈ label, Trimmed l.toList ∧ l.toList ≠ []) :
    ofLine d [] (labelChars label) = labelTokens label := by
  cases label with
  | none => exact ofLine_nil _ _
  | some l =>
    obtain ⟨htrim, hne⟩ := h l rfl
    have hafter : afterColon ([' '] ++ l.toList) = [plain .text [' '] l.toList] :=
      afterColon_append (by decide) htrim hne
    show ofLine d [] (' ' :: ':' :: ([' '] ++ l.toList)) = _
    rw [ofLine_cons_blank hd rfl, ofLine_cons_colon hd, hafter]
    rfl

/-! ### Spans -/

/-- The tokens of a line whose kinds pass a test, up to the first that does not, are the row of
`span`, which stands in the line after the spaces and tabs `b`. -/
structure SpanOf (d : Dialect) (f : TokenKind → Bool) (gap cs b span : List Char) : Prop where
  blanks : ∀ c ∈ b, isSpaceOrTab c = true
  trimmed : Trimmed span
  taken : (ofLine d gap cs).takeWhile (f ·.kind) = ofLine d (gap ++ b) span
  source_eq : source (ofLine d (gap ++ b) span) = String.ofList span
  left : ∃ b' gap' cs', cs = b ++ span ++ (b' ++ cs') ∧ (∀ c ∈ b', isSpaceOrTab c = true) ∧
    (∀ c ∈ (b' ++ cs').head?, Measure.isArrowPart c = false) ∧
    (ofLine d gap cs).dropWhile (f ·.kind) = ofLine d gap' cs'

namespace SpanOf

variable {f : TokenKind → Bool} {gap : List Char}

/-- Nothing is taken where the first token does not pass, so the span is empty. -/
theorem nil {cs : List Char} (hcs : ∀ c ∈ cs.head?, Measure.isArrowPart c = false)
    (h : ∀ t ∈ (ofLine d gap cs).head?, f t.kind = false) :
    SpanOf d f gap cs [] [] where
  blanks := nofun
  trimmed := ⟨nofun, fun _ h => nomatch h⟩
  taken := by
    rw [ofLine_nil]
    cases hrow : ofLine d gap cs with
    | nil => rfl
    | cons t ts =>
      rw [hrow] at h
      rw [List.takeWhile_cons_of_neg (by simp [h t rfl])]
  source_eq := by rw [ofLine_nil]; rfl
  left := ⟨[], gap, cs, rfl, nofun, hcs, dropWhile_eq_self h⟩

/-- A space or tab `c` goes to the gap, and the span is that of the rest. -/
theorem blank (hd : d.Regular words) {c : Char} (hc : isSpaceOrTab c = true)
    {cs b span : List Char} (h : SpanOf d f (gap ++ [c]) cs b span) :
    SpanOf d f gap (c :: cs) (c :: b) span where
  blanks := List.forall_mem_cons.2 ⟨hc, h.blanks⟩
  trimmed := h.trimmed
  taken := by
    rw [ofLine_cons_blank hd hc, h.taken, List.append_assoc]
    rfl
  source_eq := by
    rw [← h.source_eq, List.append_assoc]
    rfl
  left := by
    obtain ⟨b', gap', cs', hcs, hb', hcut, hdrop⟩ := h.left
    exact ⟨b', gap', cs', by rw [hcs]; rfl, hb', hcut, by rw [ofLine_cons_blank hd hc, hdrop]⟩

/-- A colon takes the text after it, and nothing is left but what is skipped. -/
theorem colon (hd : d.Regular words) (gap : List Char) (hcolon : f .colon = true)
    (htext : f .text = true)
    {cs : List Char} (hcs : Plain cs) : ∃ span, SpanOf d f gap (':' :: cs) [] span := by
  obtain ⟨b, text, rest, rfl, hb, hrest, htrim, hafter⟩ := exists_afterColon hcs
  have hline := ofLine_cons_colon hd gap (b ++ text ++ rest)
  have hall : ∀ t ∈ ofLine d gap (':' :: (b ++ text ++ rest)), f t.kind = true := by
    rw [hline, hafter]
    refine List.forall_mem_cons.2 ⟨hcolon, ?_⟩
    split
    · exact List.forall_mem_nil _
    · exact List.forall_mem_singleton.2 htext
  have htake : (ofLine d gap (':' :: (b ++ text ++ rest))).takeWhile (f ·.kind) =
      ofLine d gap (':' :: (b ++ text ++ rest)) := by
    rw [← List.append_nil (ofLine d gap _), List.takeWhile_append_of_pos hall, List.takeWhile_nil]
  have hdrop : (ofLine d gap (':' :: (b ++ text ++ rest))).dropWhile (f ·.kind) =
      ofLine d [] [] := by
    rw [ofLine_nil, ← List.append_nil (ofLine d gap _), List.dropWhile_append_of_pos hall,
      List.dropWhile_nil]
  have hblanks : ∀ r : List Char, (∀ c ∈ r, isSpaceOrTab c = true) →
      ∀ c ∈ (r ++ []).head?, Measure.isArrowPart c = false := fun r hr c hc => by
    rw [List.append_nil] at hc
    exact Measure.isArrowPart_of_isSpaceOrTab (hr c (List.mem_of_head? hc))
  -- Behind a colon without a text, the blanks are what is left. Otherwise they are the gap of the
  -- text.
  by_cases hne : text = []
  · subst hne
    have hcolon : ofLine d gap [':'] = [plain .colon gap [':']] := ofLine_cons_colon hd gap []
    refine ⟨[':'], (List.forall_mem_nil _), ⟨?_, ?_⟩, ?_, ?_, b ++ rest, [], [], by simp,
      List.forall_mem_append.2 ⟨hb, hrest⟩,
      hblanks _ (List.forall_mem_append.2 ⟨hb, hrest⟩), hdrop⟩
    · decide
    · decide
    · rw [htake, hline, hafter, List.append_nil gap, hcolon]
      rfl
    · rw [List.append_nil, hcolon]
      rfl
  · have hspan : ofLine d gap (':' :: (b ++ text)) =
        [plain .colon gap [':'], plain .text b text] := by
      rw [ofLine_cons_colon hd, afterColon_append hb htrim hne]
    refine ⟨':' :: (b ++ text), (List.forall_mem_nil _), ?_, ?_, ?_, rest, [], [], by simp, hrest,
      hblanks _ hrest, hdrop⟩
    · exact .append (a := [':']) (by decide) (by simp) htrim hne
    · rw [List.append_nil, htake, hline, hafter, hspan, if_neg (by simpa using hne)]
    · rw [List.append_nil, hspan]
      simp [source, plain, String.ofList_append, String.ofList_cons]

/-- Any other lexeme stands before the span of the rest, if it passes. -/
theorem cons (hd : d.Regular words) (gap : List Char) {c : Char} {cs b span : List Char}
    {kind : TokenKind} {n : Nat}
    (hc : isSpaceOrTab c = false) (hcs : Plain (c :: cs))
    (hfirst : Rule.first (Rule.common ++ words) (c :: cs) = (kind, n + 1))
    (hkind : kind ∉ [.comment, .colon, .text, .newline]) (hf : f kind = true)
    (hn : n + 1 ≤ (c :: cs).length)
    (hlast : ∀ e ∈ ((c :: cs).take (n + 1)).getLast?, isSpaceOrTab e = false)
    (h : SpanOf d f [] ((c :: cs).drop (n + 1)) b span) :
    ∃ span', SpanOf d f gap (c :: cs) [] span' := by
  obtain ⟨b', gap', cs', hrest, hb', hcut, hdrop⟩ := h.left
  have hcolon : kind ≠ .colon := fun hk => hkind (by rw [hk]; decide)
  obtain ⟨x, hx, hlen⟩ : ∃ x, (c :: cs).take (n + 1) = c :: x ∧ x.length = n :=
    ⟨cs.take n, rfl, by rw [List.length_cons] at hn; rw [List.length_take]; omega⟩
  have hcx : c :: cs = c :: x ++ (b ++ span ++ (b' ++ cs')) := by
    rw [← hrest, ← hx, List.take_append_drop]
  -- the lexeme stays the first one if the line ends somewhere behind it
  have hline : ∀ y z, c :: x ++ y ++ z = c :: cs →
      (y = [] ∨ ∀ e ∈ z.head?, Measure.isArrowPart e = false) →
      ofLine d gap (c :: x ++ y) = plain kind gap (c :: x) :: ofLine d [] y := by
    intro y z hz hy
    have hfirst' : Rule.first (Rule.common ++ words) (c :: (x ++ y)) = (kind, n + 1) := by
      rw [← hz] at hfirst
      rw [← List.cons_append, hd.cut (c :: x ++ y) z, hfirst]
      · rw [hfirst, List.length_append, List.length_cons]
        omega
      · refine hy.imp_left ?_
        rintro rfl
        rw [hfirst, List.append_nil, List.length_cons, hlen]
    rw [List.cons_append, ofLine_cons hd hc hfirst' hcolon, ← List.cons_append, List.take_append,
      List.drop_append, List.take_of_length_le (by simp [hlen]), List.length_cons, hlen,
      Nat.sub_self, List.take_zero, List.append_nil, List.drop_zero,
      List.drop_eq_nil_of_le (by simp [hlen]), List.nil_append]
  have hall := hline (b ++ span ++ (b' ++ cs')) [] (by rw [List.append_nil, hcx]) (.inr nofun)
  rw [← hcx, ← hrest] at hall
  have hf' : f (plain kind gap (c :: x)).kind = true := hf
  have htake : (ofLine d gap (c :: cs)).takeWhile (f ·.kind) =
      plain kind gap (c :: x) :: ofLine d b span := by
    simp only [hall, List.takeWhile_cons, hf', if_true, h.taken, List.nil_append]
  have hdrop' : (ofLine d gap (c :: cs)).dropWhile (f ·.kind) = ofLine d gap' cs' := by
    simp only [hall, List.dropWhile_cons, hf', if_true, hdrop]
  have hhead : isBlank c = false := by rw [hcs.isBlank_eq List.mem_cons_self, hc]
  by_cases hne : span = []
  · subst hne
    have hx' := hline [] (b ++ [] ++ (b' ++ cs')) (by rw [List.append_nil, hcx]) (.inl rfl)
    have hcut' : ∀ e ∈ (b ++ b' ++ cs').head?, Measure.isArrowPart e = false := by
      cases b with
      | nil => exact hcut
      | cons e b =>
        rintro _ ⟨⟩
        exact Measure.isArrowPart_of_isSpaceOrTab (h.blanks e List.mem_cons_self)
    rw [List.append_nil, ofLine_nil] at hx'
    refine ⟨c :: x, nofun, ⟨fun e he => ?_, fun e he => ?_⟩, ?_, ?_, b ++ b', gap', cs',
      by rw [hcx]; simp, List.forall_mem_append.2 ⟨h.blanks, hb'⟩, hcut', hdrop'⟩
    · rw [List.head?_cons, Option.mem_some] at he
      rwa [← he]
    · rw [hcs.isBlank_eq, hlast e (hx ▸ he)]
      rw [hcx]
      exact List.mem_append_left _ (List.mem_of_getLast? he)
    · rw [htake, List.append_nil, hx', ofLine_nil]
    · rw [List.append_nil, hx']
      simp [source, plain]
  · have hx' := hline (b ++ span) (b' ++ cs') (by rw [hcx, List.append_assoc]) (.inr hcut)
    rw [ofLine_append_blanks hd h.blanks, List.nil_append, ← List.append_assoc] at hx'
    refine ⟨c :: x ++ b ++ span, nofun, .append (by simpa using hhead) (by simp) h.trimmed hne,
      ?_, ?_, b', gap', cs', by rw [hcx]; simp, hb', hcut, hdrop'⟩
    · rw [htake, List.append_nil, hx']
    · rw [List.append_nil, hx', source_cons hd _ b span h.trimmed h.source_eq hne, plain,
        ← String.ofList_append, List.append_assoc]

end SpanOf

/-- The tokens of a line up to the first that does not pass a test `f` are the row of their source.
A comment must not pass, since it would hide what is behind it. -/
theorem exists_span (hd : d.Regular words) {f : TokenKind → Bool} (hcomment : f .comment = false)
    (hstops : ∀ kind, f kind = false → kind ∈ TokenKind.stops) {cs : List Char} (hcs : Plain cs)
    (gap : List Char) : ∃ b span, SpanOf d f gap cs b span := by
  have htext : f .text = true := by
    by_contra htext
    exact absurd (hstops .text (by simpa using htext)) (by decide)
  -- The induction is on the length of the line, since a lexeme takes several characters at once.
  induction hlen : cs.length using Nat.strongRecOn generalizing cs gap with
  | _ len ih =>
    cases cs with
    | nil => exact ⟨[], [], .nil nofun (by rw [ofLine_nil]; exact fun _ h => nomatch h)⟩
    | cons c cs =>
      rw [List.length_cons] at hlen
      have hcs' : Plain cs := hcs.of_subset fun _ => List.mem_cons_of_mem _
      by_cases hc : isSpaceOrTab c = true
      · obtain ⟨b, span, h⟩ := ih cs.length (by omega) hcs' (gap ++ [c]) rfl
        exact ⟨c :: b, span, .blank hd hc h⟩
      have hc : isSpaceOrTab c = false := by simpa using hc
      cases hfirst : Rule.first (Rule.common ++ words) (c :: cs) with
      | mk kind n =>
        have hcases := Rule.first_cases hd hc cs
        rw [hfirst] at hcases
        by_cases hf : f kind = true
        · cases hcases with
          | comment => rw [hcomment] at hf; cases hf
          | colon hcolon =>
            subst hcolon
            obtain ⟨span, h⟩ := SpanOf.colon hd gap hf htext hcs'
            exact ⟨[], span, h⟩
          | @other _ n hkind hn hlast =>
            have hdrop : Plain ((c :: cs).drop (n + 1)) :=
              hcs.of_subset fun _ => List.mem_of_mem_drop
            obtain ⟨b, span, h⟩ := ih ((c :: cs).drop (n + 1)).length
              (by rw [List.length_drop, List.length_cons]; omega) hdrop [] rfl
            obtain ⟨span', h'⟩ := h.cons hd gap hc hcs hfirst hkind hf hn hlast
            exact ⟨[], span', h'⟩
        · obtain ⟨t, ts, hline, -, hkind⟩ := exists_ofLine hd hc gap cs
          rw [hfirst] at hkind
          have hf : f kind = false := by simpa using hf
          have hstop := Rule.isArrowPart_of_stops hd (by rw [hfirst]; exact hstops kind hf)
          refine ⟨[], [], .nil (fun e he => ?_) fun u hu => ?_⟩
          · rw [List.head?_cons, Option.mem_some] at he
            rwa [← he]
          · rw [hline, List.head?_cons, Option.mem_some] at hu
            rwa [← hu, hkind]

theorem stops_of_comment (kind : TokenKind) (h : (kind != .comment) = false) :
    kind ∈ TokenKind.stops := by
  have hkind : kind = .comment := by simpa using h
  rw [hkind]
  decide

theorem ofLine_eq_nil_iff (hd : d.Regular words) {gap cs : List Char} :
    ofLine d gap cs = [] ↔ ∀ c ∈ cs, isSpaceOrTab c = true := by
  refine ⟨fun h => ?_, fun h => ofLine_blanks hd h gap⟩
  induction cs generalizing gap with
  | nil => nofun
  | cons c cs ih =>
    by_cases hc : isSpaceOrTab c = true
    · rw [ofLine_cons_blank hd hc] at h
      exact List.forall_mem_cons.2 ⟨hc, ih h⟩
    · obtain ⟨t, ts, hline, -⟩ := exists_ofLine hd (by simpa using hc) gap cs
      rw [hline] at h
      cases h

/-- A trimmed text `cs` without a comment is the source of its row, whatever its gap is. -/
theorem source_ofLine (hd : d.Regular words) {gap cs : List Char} (hcs : Plain cs)
    (htrim : Trimmed cs) (hcomment : ∀ t ∈ ofLine d gap cs, t.kind ≠ .comment) :
    source (ofLine d gap cs) = String.ofList cs := by
  obtain ⟨b, span, h⟩ := exists_span hd (f := (· != .comment)) rfl stops_of_comment hcs gap
  obtain ⟨b', gap', cs', heq, hb', -, hdrop⟩ := h.left
  have hall : ∀ t ∈ ofLine d gap cs, (t.kind != .comment) = true := by simpa using hcomment
  have htake := h.taken
  rw [← List.append_nil (ofLine d gap cs), List.takeWhile_append_of_pos hall, List.takeWhile_nil,
    List.append_nil] at htake
  rw [← List.append_nil (ofLine d gap cs), List.dropWhile_append_of_pos hall,
    List.dropWhile_nil] at hdrop
  have hrest : ∀ c ∈ b' ++ cs', isBlank c = true := fun c hc => isBlank_of_isSpaceOrTab
    (List.forall_mem_append.2 ⟨hb', (ofLine_eq_nil_iff hd).1 hdrop.symm⟩ c hc)
  rw [htake, h.source_eq]
  congr 1
  -- blanks around the span would be blanks around the text
  have hnil : b = [] := by
    cases b with
    | nil => rfl
    | cons c b =>
      have hc := htrim.head c (by rw [heq]; rfl)
      rw [isBlank_of_isSpaceOrTab (h.blanks c List.mem_cons_self)] at hc
      cases hc
  have hnil' : b' ++ cs' = [] := by
    generalize b' ++ cs' = r at heq hrest
    obtain rfl | ⟨r, c, rfl⟩ := List.eq_nil_or_concat' r
    · rfl
    · have hc := htrim.last c (by rw [heq, ← List.append_assoc, List.getLast?_concat]; rfl)
      rw [hrest c (by simp)] at hc
      cases hc
  rw [heq, hnil, hnil', List.nil_append, List.append_nil]

end Token

/-! ### Texts with other gaps -/

namespace Text.Respaced

variable {cs ds : List Char}

/-- Texts that differ in their gaps start with the same word, and differ in what is behind it. -/
theorem exists_word (h : Respaced cs ds) :
    ∃ w r r', cs = w ++ r ∧ ds = w ++ r' ∧ (∀ c ∈ w, isSpaceOrTab c = false) ∧ StartsBlank r ∧
      StartsBlank r' ∧ Respaced r r' := by
  induction h with
  | nil => exact ⟨[], [], [], rfl, rfl, nofun, nofun, nofun, .nil⟩
  | @cons c cs ds hc h ih =>
    obtain ⟨w, r, r', rfl, rfl, hw, hr, hr', hrr'⟩ := ih
    exact ⟨c :: w, r, r', rfl, rfl, List.forall_mem_cons.2 ⟨hc, hw⟩, hr, hr', hrr'⟩
  | @gap b b' cs ds hb hb' h =>
    have hblank : ∀ {b cs : List Char}, Gap b → StartsBlank (b ++ cs) := by
      rintro b cs ⟨hne, hb⟩
      obtain ⟨c, b, rfl⟩ := List.exists_cons_of_ne_nil hne
      intro e he
      rw [List.cons_append, List.head?_cons, Option.mem_some] at he
      exact he ▸ hb c List.mem_cons_self
    exact ⟨[], _, _, rfl, rfl, nofun, hblank hb, hblank hb', .gap hb hb' h⟩

theorem symm (h : Respaced cs ds) : Respaced ds cs := by
  induction h with
  | nil => exact .nil
  | cons hc h ih => exact .cons hc ih
  | gap hb hb' h ih => exact .gap hb' hb ih

theorem eq_nil (h : Respaced [] ds) : ds = [] := by
  generalize hcs : [] = cs at h
  cases h with
  | nil => rfl
  | cons => cases hcs
  | gap hb hb' h => exact absurd (List.append_eq_nil_iff.1 hcs.symm).1 hb.1

/-- A text that does not start with a space or tab keeps its first character under `Respaced`. -/
theorem exists_cons {c : Char} (hc : isSpaceOrTab c = false) (h : Respaced (c :: cs) ds) :
    ∃ ds', ds = c :: ds' ∧ Respaced cs ds' := by
  generalize hcs : c :: cs = cs' at h
  cases h with
  | nil => cases hcs
  | cons hc' h =>
    cases hcs
    exact ⟨_, rfl, h⟩
  | @gap b b' cs ds hb hb' h =>
    obtain ⟨e, b, rfl⟩ := List.exists_cons_of_ne_nil hb.1
    cases hcs
    rw [hb.2 c List.mem_cons_self] at hc
    cases hc

/-- A text that starts with spaces and tabs has other ones instead, at least one. -/
theorem exists_gap {c : Char} (hc : isSpaceOrTab c = true) (h : Respaced (c :: cs) ds) :
    ∃ b b' r r', Gap b ∧ Gap b' ∧ c :: cs = b ++ r ∧ ds = b' ++ r' ∧ Respaced r r' := by
  generalize hcs : c :: cs = cs' at h
  cases h with
  | nil => cases hcs
  | cons hc' h =>
    cases hcs
    rw [hc] at hc'
    cases hc'
  | gap hb hb' h => exact ⟨_, _, _, _, hb, hb', rfl, rfl, h⟩

/-- What follows the first character that fails a test `p`, where spaces and tabs pass it, differs
in its gaps too. -/
theorem dropWhile {p : Char → Bool} (hp : ∀ c, isSpaceOrTab c = true → p c = true)
    (h : Respaced cs ds) : Respaced (cs.dropWhile p) (ds.dropWhile p) := by
  induction h with
  | nil => exact .nil
  | @cons c cs ds hc h ih =>
    rw [List.dropWhile_cons, List.dropWhile_cons]
    split
    · exact ih
    · exact .cons hc h
  | gap hb hb' h ih =>
    rwa [List.dropWhile_append_of_pos fun c hc => hp c (hb.2 c hc),
      List.dropWhile_append_of_pos fun c hc => hp c (hb'.2 c hc)]

theorem plain (hcs : Plain cs) (h : Respaced cs ds) : Plain ds := by
  induction h with
  | nil => exact .nil
  | cons hc h ih =>
    obtain ⟨hhead, htail⟩ := List.forall_mem_cons.1 hcs
    exact List.forall_mem_cons.2 ⟨hhead, ih htail⟩
  | gap hb hb' h ih =>
    exact Plain.append.2 ⟨.of_isSpaceOrTab hb'.2, ih (Plain.append.1 hcs).2⟩

/-- A text that does not end with a space or tab still does not with other gaps, since gaps do not
move. -/
theorem last (hcs : ∀ c ∈ cs.getLast?, isSpaceOrTab c = false) (h : Respaced cs ds) :
    ∀ c ∈ ds.getLast?, isSpaceOrTab c = false := by
  induction h with
  | nil => exact nofun
  | @cons c cs ds hc h ih =>
    cases ds with
    | nil => simpa using hc
    | cons e ds =>
      obtain ⟨e', cs, rfl⟩ : ∃ e' cs', cs = e' :: cs' := by
        -- a gap at the end of the one text is one at the end of the other
        cases cs with
        | nil => exact absurd h.eq_nil nofun
        | cons e' cs => exact ⟨e', cs, rfl⟩
      rw [List.getLast?_cons_cons] at hcs ⊢
      exact ih hcs
  | @gap b b' cs ds hb hb' h ih =>
    cases cs with
    | nil =>
      rw [List.append_nil, List.getLast?_eq_some_getLast hb.1] at hcs
      have hlast := hcs _ rfl
      rw [hb.2 _ (List.getLast_mem hb.1)] at hlast
      cases hlast
    | cons c cs =>
      cases ds with
      | nil => exact absurd h.symm.eq_nil (List.cons_ne_nil c cs)
      | cons e ds =>
        rw [List.getLast?_append, List.getLast?_eq_some_getLast (List.cons_ne_nil _ _),
          Option.some_or, ← List.getLast?_eq_some_getLast] at hcs ⊢
        exact ih hcs

theorem trimmed (hcs : Plain cs) (htrim : Trimmed cs) (h : Respaced cs ds) : Trimmed ds where
  head := by
    cases cs with
    | nil =>
      rw [h.eq_nil]
      exact nofun
    | cons c cs =>
      obtain ⟨ds, rfl, -⟩ := h.exists_cons (isSpaceOrTab_of_not_isBlank (htrim.head c rfl))
      exact htrim.head
  last := fun c hc => by
    rw [(h.plain hcs).isBlank_eq (List.mem_of_getLast? hc)]
    exact h.last (fun e he => isSpaceOrTab_of_not_isBlank (htrim.last e he)) c hc

end Text.Respaced

namespace Rule

/-- A rule `r` that finds its form in a text with other gaps too, and leaves the same rest up to
gaps. A text in double quotes may have gaps inside. -/
def Respects (r : Rule) : Prop := ∀ cs ds, Respaced cs ds →
  (r.2 cs = 0 ↔ r.2 ds = 0) ∧ Respaced (cs.drop (r.2 cs)) (ds.drop (r.2 ds))

theorem respects_of_inWord {r : Rule} (hr : r.2.InWord) (hle : r.2.Bounded) : r.Respects := by
  intro cs ds h
  obtain ⟨w, b, b', rfl, rfl, hw, hb, hb', hbb'⟩ := h.exists_word
  rw [hr w b hb, hr w b' hb', List.drop_append_of_le_length (hle w),
    List.drop_append_of_le_length (hle w)]
  exact ⟨Iff.rfl, hbb'.append_left fun c hc => hw c (List.mem_of_mem_drop hc)⟩

theorem respects_comment : Respects (.comment, Measure.comment) := by
  intro cs ds h
  have hliteral : Measure.literal ['%', '%'] cs = Measure.literal ['%', '%'] ds := by
    obtain ⟨w, b, b', rfl, rfl, -, hb, hb', -⟩ := h.exists_word
    rw [Measure.within_literal (by decide) w b hb, Measure.within_literal (by decide) w b' hb']
  have hiff : Measure.comment cs = 0 ↔ Measure.comment ds = 0 := by
    rw [Measure.comment_eq_zero_iff, Measure.comment_eq_zero_iff, hliteral]
  refine ⟨hiff, ?_⟩
  dsimp only
  by_cases h0 : Measure.comment cs = 0
  · rw [h0, hiff.1 h0]
    exact h
  · rw [Measure.comment_eq_length h0, Measure.comment_eq_length (mt hiff.2 h0), List.drop_length,
      List.drop_length]
    exact .nil

theorem respects_quotedString : Respects (.string, Measure.quotedString) := by
  have hzero : ∀ cs : List Char, (∀ cs', cs ≠ '"' :: cs') → Measure.quotedString cs = 0 :=
    fun cs h => Measure.quotedString.eq_2 cs fun cs' hcs' => h cs' hcs'
  intro cs ds h
  by_cases hcs : ∃ cs', cs = '"' :: cs'
  · obtain ⟨cs, rfl⟩ := hcs
    obtain ⟨ds, rfl, htail⟩ := h.exists_cons (by decide)
    have hdrop := htail.dropWhile (p := (· != '"')) fun c hc => by
      obtain rfl | rfl := Measure.eq_of_isSpaceOrTab hc <;> decide
    -- The text in double quotes ends in both texts or in none, and behind it the rest differs in
    -- its gaps.
    by_cases hmem : '"' ∈ cs
    · obtain ⟨inner, rest, rfl, hinner⟩ := List.eq_append_cons_of_mem hmem
      have hpos : ∀ c ∈ inner, (c != '"') = true := fun c hc => by
        simpa using ne_of_mem_of_not_mem hc hinner
      rw [List.dropWhile_append_of_pos hpos, List.dropWhile_cons_of_neg (by simp)] at hdrop
      obtain ⟨rest', hrest', hrest⟩ := hdrop.exists_cons (by decide)
      have hds : ds = ds.takeWhile (· != '"') ++ '"' :: rest' := by
        rw [← hrest', List.takeWhile_append_dropWhile]
      have hinner' : '"' ∉ ds.takeWhile (· != '"') := fun hc => by
        simpa using List.all_eq_true.1 List.all_takeWhile _ hc
      rw [hds]
      simp only [Measure.quotedString_append hinner, Measure.quotedString_append hinner']
      simpa using hrest
    · have hnil : cs.dropWhile (· != '"') = [] := by
        rw [List.dropWhile_eq_nil_iff]
        exact fun c hc => by simpa using ne_of_mem_of_not_mem hc hmem
      rw [hnil] at hdrop
      have hmem' : '"' ∉ ds := fun hmem' => by
        have := List.dropWhile_eq_nil_iff.1 hdrop.eq_nil _ hmem'
        simp at this
      dsimp only
      rw [Measure.quotedString_eq_zero hmem, Measure.quotedString_eq_zero hmem']
      exact ⟨Iff.rfl, h⟩
  · have hds : ∀ ds', ds ≠ '"' :: ds' := by
      rintro ds' rfl
      obtain ⟨cs', rfl, -⟩ := h.symm.exists_cons (by decide)
      exact hcs ⟨cs', rfl⟩
    dsimp only
    rw [hzero cs fun cs' h => hcs ⟨cs', h⟩, hzero ds hds]
    exact ⟨Iff.rfl, h⟩

theorem respects_of_regular (hd : d.Regular words) : ∀ r ∈ common ++ words, r.Respects := by
  intro r hr
  rcases List.mem_append.1 hr with hr | hr
  · simp only [common, List.mem_cons, List.not_mem_nil, or_false] at hr
    obtain rfl | rfl | rfl := hr
    · exact respects_comment
    · exact respects_quotedString
    · exact respects_of_inWord (Measure.within_literal (by decide)) (Measure.literal_le [':'])
  · exact respects_of_inWord (hd.isWord r hr).inWord (hd.isWord r hr).bounded

/-- The first lexeme of a text with other gaps is of the same kind, and so is what is left. -/
theorem first_respaced {rules : List Rule} (hrules : ∀ r ∈ rules, r.Respects) {c : Char}
    {cs ds : List Char} (hc : isSpaceOrTab c = false) (h : Respaced (c :: cs) ds) :
    (first rules (c :: cs)).1 = (first rules ds).1 ∧
      Respaced ((c :: cs).drop (first rules (c :: cs)).2) (ds.drop (first rules ds).2) := by
  induction rules with
  | nil =>
    obtain ⟨ds, rfl, htail⟩ := h.exists_cons hc
    exact ⟨rfl, htail⟩
  | cons r rules ih =>
    obtain ⟨hr, hrules⟩ := List.forall_mem_cons.1 hrules
    obtain ⟨hiff, hdrop⟩ := hr _ _ h
    rw [first, first]
    by_cases h0 : r.2 (c :: cs) = 0
    · rw [if_pos h0, if_pos (hiff.1 h0)]
      exact ih hrules
    · rw [if_neg h0, if_neg (mt hiff.2 h0)]
      exact ⟨rfl, hdrop⟩

end Rule

namespace Token

/-- If all tokens of a row pass a test `f` of their kind, so do those of a text with other gaps. The
texts after colons have to pass in any case. -/
theorem forall_kind_of_respaced (hd : d.Regular words) {f : TokenKind → Bool}
    (htext : f .text = true) {cs ds : List Char}
    (h : Respaced cs ds) {gap : List Char} (hall : ∀ t ∈ ofLine d gap cs, f t.kind = true)
    (gap' : List Char) : ∀ t ∈ ofLine d gap' ds, f t.kind = true := by
  -- As in `exists_span`, the induction is on the length of the first text.
  induction hlen : cs.length using Nat.strongRecOn generalizing cs ds gap gap' with
  | _ len ih =>
    cases cs with
    | nil =>
      rw [h.eq_nil, ofLine_nil]
      exact List.forall_mem_nil _
    | cons c cs =>
      rw [List.length_cons] at hlen
      by_cases hc : isSpaceOrTab c = true
      · obtain ⟨b, b', r, r', hb, hb', hcs, rfl, hr⟩ := h.exists_gap hc
        have hlt : r.length < len := by
          have hpos := List.length_pos_iff.2 hb.1
          have := congrArg List.length hcs
          rw [List.length_append, List.length_cons] at this
          omega
        rw [hcs, ofLine_append_blanks hd hb.2] at hall
        rw [ofLine_append_blanks hd hb'.2]
        exact ih r.length hlt hr hall (gap' ++ b') rfl
      have hc : isSpaceOrTab c = false := by simpa using hc
      obtain ⟨ds, rfl, h'⟩ := h.exists_cons hc
      obtain ⟨hkind, hdrop⟩ := Rule.first_respaced (Rule.respects_of_regular hd) hc h
      have hcases := Rule.first_cases hd hc cs
      cases hfirst : Rule.first (Rule.common ++ words) (c :: cs) with
      | mk kind n =>
        cases hfirst' : Rule.first (Rule.common ++ words) (c :: ds) with
        | mk kind' n' =>
          rw [hfirst, hfirst'] at hkind hdrop
          rw [hfirst] at hcases
          obtain rfl : kind = kind' := hkind
          by_cases hcolon : kind = .colon
          · obtain rfl : c = ':' := by
              subst hcolon
              cases hcases with
              | colon hc => exact hc
              | other hkind => exact absurd (by decide) hkind
            rw [ofLine_cons_colon hd] at hall ⊢
            refine List.forall_mem_cons.2 ⟨(List.forall_mem_cons.1 hall).1, fun t ht => ?_⟩
            rw [kind_of_mem_afterColon ht, htext]
          · rw [ofLine_cons hd hc hfirst hcolon] at hall
            rw [ofLine_cons hd hc hfirst' hcolon]
            obtain ⟨hf, hall⟩ := List.forall_mem_cons.1 hall
            have hn := Rule.first_pos (Rule.common ++ words) (c :: cs)
            rw [hfirst] at hn
            exact List.forall_mem_cons.2 ⟨hf, ih _ (by
              rw [List.length_drop, List.length_cons]; dsimp only at hn; omega) hdrop hall [] rfl⟩

end Token
end DiagramText
