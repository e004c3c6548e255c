import DiagramText.Proofs.Token.Span

/-!
# Lines put together

A part of a line that ends before a space or tab gives its own tokens, whatever follows, if it has
no comment and no colon and leaves no double quote open.

* `Token.ofLine_append`: the row of a line is that of its first part and that of the rest.
* `Token.ofLine_lexeme`, `Token.ofLine_word` and `Token.ofLine_word_append` are the case of a single
  lexeme.
* `Token.ofLine_spaced`: the row of lexemes that are joined by spaces.
* `Token.closed_ofLine_iff`: a part of a line leaves no double quote open if and only if it has an
  even number of them.
-/

namespace DiagramText

open Text

variable {d : Dialect} {words : List Rule}

/-- A space or tab behind a text `a` does not change its first lexeme, unless a double quote is
closed behind it. -/
theorem Rule.first_append_blank (hd : d.Regular words) {a b : List Char} (hb : StartsBlank b)
    (hkind : (first (common ++ words) a).1 ≠ .comment)
    (hquote : Measure.quotedString a ≠ 0 ∨ a.head? ≠ some '"' ∨ '"' ∉ b) :
    first (common ++ words) (a ++ b) = first (common ++ words) a := by
  -- Only the text in double quotes could go on behind the blank: comments and colons do not, nor do
  -- the forms of the dialect.
  have hcomment : Measure.comment a = 0 := by
    by_cases h0 : Measure.comment a = 0
    · exact h0
    · exact absurd (by simp [common, first, h0]) hkind
  have hcomment' : Measure.comment (a ++ b) = 0 := by
    rw [Measure.comment_eq_zero_iff] at hcomment ⊢
    rwa [Measure.within_literal (by decide) a b hb]
  have hstring : Measure.quotedString (a ++ b) = Measure.quotedString a := by
    cases a with
    | nil =>
      cases b with
      | nil => rfl
      | cons c b =>
        have hc : c ≠ '"' := by
          obtain rfl | rfl := Measure.eq_of_isSpaceOrTab (hb c rfl) <;> decide
        exact Measure.quotedString.eq_2 _ (by simpa using hc)
    | cons c a =>
      by_cases hc : c = '"'
      · subst hc
        by_cases hmem : '"' ∈ a
        · obtain ⟨inner, rest, rfl, hinner⟩ := List.eq_append_cons_of_mem hmem
          rw [List.cons_append, List.append_assoc, List.cons_append,
            Measure.quotedString_append hinner, Measure.quotedString_append hinner]
        · rw [Measure.quotedString_eq_zero hmem] at hquote ⊢
          have hb' : '"' ∉ b := by simpa using hquote
          rw [List.cons_append, Measure.quotedString_eq_zero (by simp [hmem, hb'])]
      · rw [List.cons_append, Measure.quotedString.eq_2 _ (by simpa using hc),
          Measure.quotedString.eq_2 _ (by simpa using hc)]
  have hcolon := Measure.within_literal (s := [':']) (by decide) a b hb
  have hwords : ∀ rules : List Rule, (∀ r ∈ rules, r.2.InWord) →
      first rules (a ++ b) = first rules a := by
    intro rules hrules
    induction rules with
    | nil => rfl
    | cons r rules ih =>
      obtain ⟨hr, hrules⟩ := List.forall_mem_cons.1 hrules
      rw [first, first, hr a b hb, ih hrules]
  simp only [common, List.cons_append, List.nil_append, first, hcomment, hcomment', hstring, hcolon,
    hwords words fun r hr => (hd.isWord r hr).inWord]

/-- Only texts in double quotes are string lexemes, so one is measured by `quotedString`. -/
theorem Rule.quotedString_ne_zero (hd : d.Regular words) {cs : List Char}
    (h : (first (common ++ words) cs).1 = .string) : Measure.quotedString cs ≠ 0 := by
  rcases first_eq_or (common ++ words) cs with ⟨hfirst, -⟩ | ⟨r, hr, h0, hfirst⟩
  · rw [hfirst] at h
    cases h
  · rw [hfirst] at h
    rcases List.mem_append.1 hr with hr | hr
    · simp only [common, List.mem_cons, List.not_mem_nil, or_false] at hr
      obtain rfl | rfl | rfl := hr
      · cases h
      · exact h0
      · cases h
    · exact absurd (by rw [show r.1 = .string from h]; decide) (hd.isWord r hr).kind

namespace Token

/-- A row `ts` in which every token that starts with a double quote is a text in double quotes, so
that none is left open. -/
def Closed (ts : List Token) : Prop :=
  ∀ t ∈ ts, t.text.toList.head? = some '"' → t.kind = .string

/-- A part `a` of a line that ends before a space or tab gives its own tokens, unless an open double
quote of it is closed behind it. -/
theorem ofLine_append (hd : d.Regular words) {gap a b : List Char} (hne : a ≠ [])
    (hlast : ∀ c ∈ a.getLast?, isSpaceOrTab c = false) (hb : StartsBlank b)
    (hkind : ∀ t ∈ ofLine d gap a, t.kind ≠ .comment ∧ t.kind ≠ .colon)
    (hquote : Closed (ofLine d gap a) ∨ '"' ∉ b) :
    ofLine d gap (a ++ b) = ofLine d gap a ++ ofLine d [] b := by
  -- The induction is on the length of the part, as a lexeme takes several characters at once.
  induction hlen : a.length using Nat.strongRecOn generalizing a gap with
  | _ len ih =>
    obtain ⟨c, a, rfl⟩ := List.exists_cons_of_ne_nil hne
    rw [List.length_cons] at hlen
    by_cases hc : isSpaceOrTab c = true
    · rw [ofLine_cons_blank hd hc] at hkind hquote ⊢
      rw [List.cons_append, ofLine_cons_blank hd hc]
      have hne' : a ≠ [] := by
        rintro rfl
        rw [hlast c rfl] at hc
        cases hc
      refine ih a.length (by omega) hne' (fun e he => hlast e ?_) hkind hquote rfl
      rwa [List.getLast?_cons_of_ne_nil hne']
    have hc : isSpaceOrTab c = false := by simpa using hc
    cases hfirst : Rule.first (Rule.common ++ words) (c :: a) with
    | mk kind n =>
      have hcases := Rule.first_cases hd hc a
      rw [hfirst] at hcases
      obtain ⟨t, ts, hline, -, htkind⟩ := exists_ofLine hd hc gap a
      rw [hfirst] at htkind
      have ht := hkind t (by rw [hline]; exact List.mem_cons_self)
      rw [htkind] at ht
      cases hcases with
      | comment => exact absurd rfl ht.1
      | colon => exact absurd rfl ht.2
      | @other _ n hk hn hlast' =>
        rw [ofLine_cons hd hc hfirst ht.2] at hkind hquote ⊢
        have hopen : Measure.quotedString (c :: a) ≠ 0 ∨ (c :: a).head? ≠ some '"' ∨ '"' ∉ b := by
          rcases hquote with hclosed | hb
          · by_cases hc' : c = '"'
            · subst hc'
              have hstring : kind = .string := hclosed _ List.mem_cons_self (by simp [plain])
              exact .inl (Rule.quotedString_ne_zero hd (by rw [hfirst, hstring]))
            · exact .inr (.inl (by simpa using hc'))
          · exact .inr (.inr hb)
        have hfirst' := Rule.first_append_blank hd hb (a := c :: a) (by rw [hfirst]; exact ht.1)
          hopen
        rw [hfirst] at hfirst'
        rw [List.cons_append] at hfirst' ⊢
        rw [ofLine_cons hd hc hfirst' ht.2, ← List.cons_append,
          List.take_append_of_le_length hn, List.drop_append_of_le_length hn, List.cons_append]
        congr 1
        obtain ⟨-, hkind⟩ := List.forall_mem_cons.1 hkind
        by_cases hnil : (c :: a).drop (n + 1) = []
        · rw [hnil, List.nil_append, ofLine_nil, List.nil_append]
        · refine ih _ ?_ hnil (fun e he => hlast e ?_) hkind
            (hquote.imp_left fun h t ht => h t (List.mem_cons_of_mem _ ht)) rfl
          · rw [List.length_drop, List.length_cons]
            omega
          · rw [List.getLast?_drop, if_neg (by rw [List.drop_eq_nil_iff] at hnil; omega)] at he
            exact he

/-- A lexeme `x` is the first token of its line, and the rest is scanned behind it. -/
theorem ofLine_lexeme (hd : d.Regular words) {kind : TokenKind} {x b : List Char} (hne : x ≠ [])
    (hhead : ∀ c ∈ x.head?, isSpaceOrTab c = false)
    (hfirst : Rule.first (Rule.common ++ words) (x ++ b) = (kind, x.length)) (hkind : kind ≠ .colon)
    (gap : List Char) : ofLine d gap (x ++ b) = plain kind gap x :: ofLine d [] b := by
  obtain ⟨c, x, rfl⟩ := List.exists_cons_of_ne_nil hne
  rw [List.cons_append] at hfirst ⊢
  rw [ofLine_cons hd (hhead c rfl) hfirst hkind, ← List.cons_append, List.take_left,
    List.drop_left]

/-- A single lexeme `x` is one token, which is all of its line. -/
theorem ofLine_word (hd : d.Regular words) {kind : TokenKind} {x : List Char} (hne : x ≠ [])
    (hhead : ∀ c ∈ x.head?, isSpaceOrTab c = false)
    (hfirst : Rule.first (Rule.common ++ words) x = (kind, x.length)) (hkind : kind ≠ .colon)
    (gap : List Char) : ofLine d gap x = [plain kind gap x] := by
  have hline := ofLine_lexeme hd hne hhead (b := []) (by rwa [List.append_nil]) hkind gap
  rwa [List.append_nil, ofLine_nil] at hline

/-- A lexeme `x` before a space or tab is the first token of its line, if it is one on its own. -/
theorem ofLine_word_append (hd : d.Regular words) {kind : TokenKind} {x b : List Char}
    (hne : x ≠ []) (hx : ∀ c ∈ x, isSpaceOrTab c = false) (hquote : x.head? ≠ some '"')
    (hfirst : Rule.first (Rule.common ++ words) x = (kind, x.length))
    (hkind : kind ≠ .comment ∧ kind ≠ .colon) (hb : StartsBlank b) (gap : List Char) :
    ofLine d gap (x ++ b) = plain kind gap x :: ofLine d [] b := by
  have hword := ofLine_word hd hne (fun c hc => hx c (List.mem_of_head? hc)) hfirst hkind.2 gap
  rw [ofLine_append hd hne (fun c hc => hx c (List.mem_of_getLast? hc)) hb, hword]
  · rfl
  · rw [hword]
    exact List.forall_mem_singleton.2 hkind
  · rw [hword]
    refine .inl (List.forall_mem_singleton.2 fun h => absurd ?_ hquote)
    rwa [plain, String.toList_ofList] at h

/-! ### Lexemes joined by spaces -/

/-- A text `x` without blanks that is one lexeme, so that it can stand between spaces. -/
structure IsBare (words : List Rule) (kind : TokenKind) (x : List Char) : Prop where
  ne_nil : x ≠ []
  blanks : ∀ c ∈ x, isBlank c = false
  quote : x.head? ≠ some '"'
  first : Rule.first (Rule.common ++ words) x = (kind, x.length)
  kind : kind ≠ .comment ∧ kind ≠ .colon

/-- The lexemes `ws` as they are written with single spaces between them. -/
def spacedChars (ws : List (TokenKind × List Char)) : List Char :=
  [' '].intercalate (ws.map Prod.snd)

/-- The tokens of lexemes with single spaces between them, the first one behind `gap`. -/
def spaced (gap : List Char) : List (TokenKind × List Char) → List Token
  | [] => []
  | (kind, x) :: ws => plain kind gap x :: spaced [' '] ws

theorem spacedChars_cons_cons (w w' : TokenKind × List Char) (ws : List (TokenKind × List Char)) :
    spacedChars (w :: w' :: ws) = w.2 ++ ' ' :: spacedChars (w' :: ws) := by
  simp [spacedChars, List.intercalate]

/-- Joined lexemes start with the first of them, `w`, whatever comes next. -/
theorem exists_spacedChars (w : TokenKind × List Char) (ws : List (TokenKind × List Char)) :
    ∃ cs, spacedChars (w :: ws) = w.2 ++ cs := by
  cases ws with
  | nil => exact ⟨[], rfl⟩
  | cons w' ws => exact ⟨_, spacedChars_cons_cons w w' ws⟩

theorem IsBare.plain {kind : TokenKind} {x : List Char} (h : IsBare words kind x) : Plain x :=
  .of_not_isBlank h.blanks

theorem plain_spacedChars {ws : List (TokenKind × List Char)} (h : ∀ w ∈ ws, Plain w.2) :
    Plain (spacedChars ws) := by
  induction ws with
  | nil => exact .nil
  | cons w ws ih =>
    obtain ⟨hw, h⟩ := List.forall_mem_cons.1 h
    cases ws with
    | nil => exact Plain.append.2 ⟨hw, .nil⟩
    | cons w' ws =>
      rw [spacedChars_cons_cons]
      exact Plain.append.2 ⟨hw, List.forall_mem_cons.2 ⟨fun _ => rfl, ih h⟩⟩

/-- The lexemes `ws`, which are joined by spaces, are the first tokens of their line, before what
starts with a blank. -/
theorem ofLine_spaced (hd : d.Regular words) {ws : List (TokenKind × List Char)} (hne : ws ≠ [])
    (h : ∀ w ∈ ws, IsBare words w.1 w.2) {b : List Char} (hb : StartsBlank b) (gap : List Char) :
    ofLine d gap (spacedChars ws ++ b) = spaced gap ws ++ ofLine d [] b := by
  induction ws generalizing gap with
  | nil => exact absurd rfl hne
  | cons w ws ih =>
    obtain ⟨hw, h⟩ := List.forall_mem_cons.1 h
    have hfirst : ∀ b', StartsBlank b' →
        ofLine d gap (w.2 ++ b') = plain w.1 gap w.2 :: ofLine d [] b' := fun b' hb' =>
      ofLine_word_append hd hw.ne_nil (fun c hc => isSpaceOrTab_of_not_isBlank (hw.blanks c hc))
        hw.quote hw.first hw.kind hb' gap
    cases ws with
    | nil =>
      have hchars : spacedChars [w] = w.2 := List.append_nil _
      rw [hchars, hfirst b hb]
      rfl
    | cons w' ws =>
      have hspace : StartsBlank (' ' :: (spacedChars (w' :: ws) ++ b)) := by
        rintro c ⟨⟩
        rfl
      rw [spacedChars_cons_cons, List.append_assoc, List.cons_append, hfirst _ hspace,
        ofLine_cons_blank hd rfl, List.nil_append, ih (List.cons_ne_nil w' ws) h]
      rfl

end Token

/-! ### Double quotes -/

/-- No lexeme of the form `m` has a character `e` in it, wherever it is measured. -/
def Measure.Omits (e : Char) (m : Measure) : Prop := ∀ cs : List Char, e ∉ cs.take (m cs)

theorem Measure.omits_literal {e : Char} {s : List Char} (h : e ∉ s) : Omits e (literal s) := by
  intro cs
  rw [literal]
  split
  · next hprefix =>
    rwa [← List.prefix_iff_eq_take.1 (List.isPrefixOf_iff_prefix.1 hprefix)]
  · exact List.not_mem_nil

theorem Measure.omits_run {e : Char} {p : Char → Bool} (h : p e = false) : Omits e (run p) := by
  intro cs
  rw [run, ← List.prefix_iff_eq_take.1 (List.takeWhile_prefix p)]
  intro hmem
  rw [List.all_eq_true.1 List.all_takeWhile e hmem] at h
  cases h

theorem Measure.omits_wordIdentifier {e : Char} (h : isWord e = false) (h' : e.isAlpha = false) :
    Omits e wordIdentifier := by
  intro cs
  cases cs with
  | nil => exact List.not_mem_nil
  | cons c cs =>
    rw [wordIdentifier]
    split
    · next hc =>
      rw [Nat.add_comm, List.take_succ_cons, List.mem_cons, not_or]
      refine ⟨?_, omits_run h cs⟩
      rintro rfl
      have hunderscore : e = '_' := by simpa [h'] using hc
      subst hunderscore
      exact absurd h (by decide)
    · exact List.not_mem_nil

theorem Measure.omits_number {e : Char} (h : isDecimal e = false) (h' : e ≠ '.') :
    Omits e number := by
  have hfraction : Omits e fraction := by
    intro cs
    unfold fraction
    split
    · split
      · exact List.not_mem_nil
      · rw [Nat.add_comm, List.take_succ_cons, List.mem_cons, not_or]
        exact ⟨h', omits_run h _⟩
    · exact List.not_mem_nil
  intro cs
  rw [number_eq]
  split
  · exact List.not_mem_nil
  · rw [List.take_add, List.mem_append, not_or]
    exact ⟨omits_run h cs, hfraction _⟩


theorem Rule.omits_lineOriented : ∀ r ∈ lineOriented, r.2.Omits '"' := by
  simp only [lineOriented, List.forall_mem_cons]
  refine ⟨?_, ?_, ?_, ?_, ?_, ?_, ?_, ?_, ?_, Measure.omits_number (by decide) (by decide),
    Measure.omits_wordIdentifier (by decide) (by decide), List.forall_mem_nil _⟩
  all_goals exact Measure.omits_literal (by decide)

/-- A lexeme that starts with `c` and not with a double quote holds no double quote, unless it is a
comment. -/
theorem Rule.quote_not_mem_first (hwords : ∀ r ∈ words, r.2.Omits '"') {c : Char} (hc : c ≠ '"')
    {cs : List Char} {kind : TokenKind} {n : Nat}
    (h : first (common ++ words) (c :: cs) = (kind, n)) (hkind : kind ≠ .comment) :
    '"' ∉ (c :: cs).take n := by
  rcases first_eq_or (common ++ words) (c :: cs) with ⟨hfirst, -⟩ | ⟨r, hr, h0, hfirst⟩
  · rw [hfirst] at h
    cases h
    simpa using Ne.symm hc
  rw [hfirst] at h
  cases h
  rcases List.mem_append.1 hr with hr | hr
  · simp only [common, List.mem_cons, List.not_mem_nil, or_false] at hr
    obtain rfl | rfl | rfl := hr
    · exact absurd rfl hkind
    · exact absurd (Measure.quotedString.eq_2 _ (by simpa using hc)) h0
    · exact Measure.omits_literal (by decide) _
  · exact hwords r hr _

/-- A text in double quotes, `inner`, is a lexeme, and ends at the next double quote. -/
theorem Rule.first_quote {inner : List Char} (h : '"' ∉ inner) (rest : List Char) :
    first (common ++ words) ('"' :: (inner ++ '"' :: rest)) = (.string, inner.length + 2) := by
  have hcomment : Measure.comment ('"' :: (inner ++ '"' :: rest)) = 0 :=
    Measure.comment_eq_zero_iff.2 (Measure.literal_cons_of_ne (by decide) _ _)
  simp [common, first, hcomment, Measure.quotedString_append h]

namespace Token

/-- A row leaves no double quote open if and only if there is an even number of them on its line,
since each lexeme holds two or none. -/
theorem closed_ofLine_iff (hd : d.Regular words) (hwords : ∀ r ∈ words, r.2.Omits '"')
    {gap cs : List Char} (hkind : ∀ t ∈ ofLine d gap cs, t.kind ≠ .comment ∧ t.kind ≠ .colon) :
    Closed (ofLine d gap cs) ↔ cs.count '"' % 2 = 0 := by
  induction hlen : cs.length using Nat.strongRecOn generalizing cs gap with
  | _ len ih =>
    cases cs with
    | nil => simp [ofLine_nil, Closed]
    | cons c cs =>
      rw [List.length_cons] at hlen
      by_cases hc : isSpaceOrTab c = true
      · have hne : c ≠ '"' := by
          obtain rfl | rfl := Measure.eq_of_isSpaceOrTab hc <;> decide
        rw [ofLine_cons_blank hd hc] at hkind ⊢
        rw [List.count_cons_of_ne hne]
        exact ih cs.length (by omega) hkind rfl
      have hc : isSpaceOrTab c = false := by simpa using hc
      cases hfirst : Rule.first (Rule.common ++ words) (c :: cs) with
      | mk kind n =>
        obtain ⟨t, ts, hline, -, htkind⟩ := exists_ofLine hd hc gap cs
        rw [hfirst] at htkind
        have ht := hkind t (by rw [hline]; exact List.mem_cons_self)
        rw [htkind] at ht
        have hpos := Rule.first_pos (Rule.common ++ words) (c :: cs)
        rw [hfirst] at hpos
        rw [ofLine_cons hd hc hfirst ht.2] at hkind ⊢
        have hrest := ih ((c :: cs).drop n).length
          (by rw [List.length_drop, List.length_cons]; omega)
          (List.forall_mem_cons.1 hkind).2 rfl
        have htext : (plain kind gap ((c :: cs).take n)).text.toList.head? = some c := by
          obtain ⟨m, rfl⟩ := Nat.exists_eq_add_one_of_ne_zero (Nat.pos_iff_ne_zero.1 hpos)
          rw [plain, String.toList_ofList]
          rfl
        have hcount : (c :: cs).count '"' =
            ((c :: cs).take n).count '"' + ((c :: cs).drop n).count '"' := by
          rw [← List.count_append, List.take_append_drop]
        rw [Closed, List.forall_mem_cons, htext, hcount]
        by_cases hquote : c = '"'
        · subst hquote
          by_cases hmem : '"' ∈ cs
          · -- a text in double quotes holds two of them
            obtain ⟨inner, rest, rfl, hinner⟩ := List.eq_append_cons_of_mem hmem
            rw [Rule.first_quote hinner] at hfirst
            cases hfirst
            have htake : ('"' :: (inner ++ '"' :: rest)).take (inner.length + 2) =
                '"' :: (inner ++ ['"']) := by
              rw [List.take_succ_cons, List.take_append, List.take_of_length_le (by omega)]
              simp
            rw [htake]
            have htwo : ('"' :: (inner ++ ['"'])).count '"' = 2 := by
              simp [List.count_eq_zero.2 hinner]
            rw [htwo, Nat.add_mod_left, ← hrest]
            exact and_iff_right fun _ => rfl
          · -- one that none follows is open
            have hstring : kind ≠ .string := by
              rintro rfl
              exact Rule.quotedString_ne_zero hd (by rw [hfirst])
                (Measure.quotedString_eq_zero hmem)
            have hone : ('"' :: cs).count '"' = 1 := by
              simp [List.count_eq_zero.2 hmem]
            rw [← hcount, hone]
            exact iff_of_false (fun h => hstring (h.1 rfl)) (by decide)
        · have hnone := Rule.quote_not_mem_first hwords hquote hfirst ht.1
          rw [List.count_eq_zero.2 hnone, Nat.zero_add, ← hrest]
          exact and_iff_right fun h => absurd (Option.some.inj h) hquote

/-- Where the row of a part of a line comes first in the row of the line, the part leaves no double
quote open that one behind it closes. This is what makes the condition of `ofLine_append` needed. -/
theorem closed_of_prefix (hd : d.Regular words) {gap gap' a b : List Char}
    (hkind : ∀ t ∈ ofLine d gap a, t.kind ≠ .comment ∧ t.kind ≠ .colon) (hb : '"' ∈ b)
    (h : ofLine d gap a <+: ofLine d gap' (a ++ b)) : Closed (ofLine d gap a) := by
  induction hlen : a.length using Nat.strongRecOn generalizing a gap gap' with
  | _ len ih =>
    cases a with
    | nil => simp [ofLine_nil, Closed]
    | cons c a =>
      rw [List.length_cons] at hlen
      rw [List.cons_append] at h
      by_cases hc : isSpaceOrTab c = true
      · rw [ofLine_cons_blank hd hc] at hkind h ⊢
        rw [ofLine_cons_blank hd hc] at h
        exact ih a.length (by omega) hkind h rfl
      have hc : isSpaceOrTab c = false := by simpa using hc
      cases hfirst : Rule.first (Rule.common ++ words) (c :: a) with
      | mk kind n =>
        obtain ⟨t, ts, hline, -, htkind⟩ := exists_ofLine hd hc gap a
        rw [hfirst] at htkind
        have ht := hkind t (by rw [hline]; exact List.mem_cons_self)
        rw [htkind] at ht
        have hpos := Rule.first_pos (Rule.common ++ words) (c :: a)
        rw [hfirst] at hpos
        rw [ofLine_cons hd hc hfirst ht.2] at hkind h ⊢
        -- the first token of the line is that of the part
        obtain ⟨n', hfirst'⟩ : ∃ n', Rule.first (Rule.common ++ words) (c :: (a ++ b)) =
            (kind, n') := by
          obtain ⟨t', ts', hline', -, htkind'⟩ := exists_ofLine hd hc gap' (a ++ b)
          rw [hline', List.cons_prefix_cons] at h
          rw [← h.1] at htkind'
          exact ⟨_, Prod.ext htkind'.symm rfl⟩
        rw [ofLine_cons hd hc hfirst' ht.2, List.cons_prefix_cons] at h
        obtain ⟨htoken, htail⟩ := h
        have htext : (c :: a).take n = (c :: (a ++ b)).take n' :=
          String.ofList_injective (congrArg Token.text htoken)
        have hdrop : (c :: (a ++ b)).drop n' = (c :: a).drop n ++ b := by
          refine @List.append_cancel_left _ ((c :: a).take n) _ _ ?_
          rw [← List.append_assoc, List.take_append_drop, htext, List.take_append_drop]
          rfl
        rw [hdrop] at htail
        refine List.forall_mem_cons.2 ⟨fun hquote => ?_, ih ((c :: a).drop n).length ?_
          (List.forall_mem_cons.1 hkind).2 htail rfl⟩
        · obtain rfl : c = '"' := by
            obtain ⟨m, rfl⟩ := Nat.exists_eq_add_one_of_ne_zero (Nat.pos_iff_ne_zero.1 hpos)
            rw [plain, String.toList_ofList] at hquote
            exact Option.some.inj hquote
          obtain ⟨inner, rest, heq, hinner⟩ :=
            List.eq_append_cons_of_mem (List.mem_append_right a hb)
          rw [heq, Rule.first_quote hinner] at hfirst'
          exact (congrArg Prod.fst hfirst').symm
        · rw [List.length_drop, List.length_cons]
          omega

end Token
end DiagramText
