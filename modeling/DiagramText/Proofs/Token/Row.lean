import DiagramText.Proofs.Text.Blank
import DiagramText.Proofs.Text.Measure
import DiagramText.Proofs.Token.Place

/-!
# Rows of tokens without places

Since no reading depends on places, the tokens of a text can be taken to stand all at the origin.
The row of a text is then made line by line, and the row of a line character by character.

* `Cursor.alike_ofText`: the row of a text is alike to the tokens of the text wherever it stands.
* `Token.ofLine_cons_blank`, `Token.ofLine_cons_colon` and `Token.ofLine_cons` are the steps of a
  line in a dialect with regular rules.
-/

namespace DiagramText

open Text

namespace Token

/-- The token `t` at the origin, with its kind, its gap and its text. -/
def unplaced (t : Token) : Token := { t with start := .origin, stop := .origin }

/-- A token at the origin, given by characters. -/
def plain (kind : TokenKind) (gap text : List Char) : Token :=
  ⟨kind, String.ofList gap, String.ofList text, .origin, .origin⟩

theorem kind_plain_ne {k l : TokenKind} (h : k ≠ l) {gap text : List Char} :
    (plain k gap text).kind ≠ l := h

/-- The tokens of pieces at the origin, `gap` being skipped before the first. -/
def row (gap : List Char) : List Piece → List Token
  | [] => []
  | .gap cs :: ps => row (gap ++ cs) ps
  | .lexeme kind cs :: ps => plain kind gap cs :: row [] ps

/-- What is skipped at the end of pieces, behind the last lexeme, or all of it with `gap` if there
is none. -/
def trailing (gap : List Char) : List Piece → List Char
  | [] => gap
  | .gap cs :: ps => trailing (gap ++ cs) ps
  | .lexeme _ _ :: ps => trailing [] ps

theorem row_append (gap : List Char) (ps qs : List Piece) :
    row gap (ps ++ qs) = row gap ps ++ row (trailing gap ps) qs := by
  induction ps generalizing gap with
  | nil => rfl
  | cons p ps ih =>
    cases p with
    | gap cs => exact ih _
    | lexeme kind cs => rw [List.cons_append, row, row, trailing, ih, List.cons_append]

/-- Placed anywhere, the pieces `ps` are the row and the end of input, up to positions. -/
theorem place_eq (p : Position) (gap : List Char) (ps : List Piece) :
    ∃ ts e, place p gap ps = ts ++ [e] ∧ ts.map unplaced = row gap ps ∧ e.kind = .endOfInput ∧
      e.text = "" := by
  induction ps generalizing p gap with
  | nil => exact ⟨[], _, rfl, rfl, rfl, rfl⟩
  | cons piece ps ih =>
    cases piece with
    | gap cs => exact ih _ _
    | lexeme kind cs =>
      let q := if kind = .newline then p.down cs.length else p.right cs.length
      obtain ⟨ts, e, hts, hrow, he⟩ := ih q []
      refine ⟨⟨kind, String.ofList gap, String.ofList cs, p, q⟩ :: ts, e, ?_, ?_, he⟩
      · rw [place, hts]
        rfl
      · rw [List.map_cons, hrow]
        rfl

/-- A row `ts` is alike to itself at the origin, as far as places do not matter. -/
theorem alike_unplaced (e : Position) (ts : List Token) :
    Row.Alike AnyPlace e 0 ts (ts.map unplaced) := by
  induction ts with
  | nil => exact .nil
  | cons t ts ih =>
    refine .cons ⟨rfl, fun _ => rfl, trivial⟩ (fun _ => ?_) ih
    cases ts with
    | nil => nofun
    | cons u us => simp [SameGap, unplaced]

/-- The end of input at the origin. -/
def endOfInput : Token := ⟨.endOfInput, "", "", .origin, .origin⟩

end Token

/-- The cursor before the row of a `text`, at the origin and without comments. -/
def Cursor.ofText (d : Dialect) (text : List Char) : Cursor :=
  ⟨[], (Token.row [] (Piece.ofText d text)).filter Token.isRead, Token.endOfInput⟩

/-- The row of a `text` is alike to the tokens of the text wherever it stands, so it can be read in
their place. -/
theorem Cursor.alike_ofText (d : Dialect) (text : String) (line offset : Int) :
    Cursor.Alike Token.AnyPlace 0 (.ofTokens (Token.scan d text line offset))
      (.ofText d text.toList) := by
  obtain ⟨ts, e, hts, hrow, he, htext⟩ :=
    Token.place_eq ⟨line, 0, offset⟩ [] (Piece.ofText d text.toList)
  rw [Token.scan, hts, Token.ofTokens_append, Cursor.ofText, ← hrow, List.filter_map]
  exact ⟨Token.alike_unplaced _ _, ⟨he, fun _ => htext, trivial⟩, he⟩

/-! ### Rows of lines -/

namespace Token

/-- The row of a line, `gap` being skipped before its first token. -/
def ofLine (d : Dialect) (gap cs : List Char) : List Token := row gap (Piece.ofLine d cs)

/-- What is skipped at the start of a row, `gap`, belongs to its first token, if it has one. -/
theorem row_gap (gap gap' : List Char) (ps : List Piece) :
    row (gap ++ gap') ps =
      (row gap' ps).modifyHead fun t => { t with gap := String.ofList gap ++ t.gap } := by
  induction ps generalizing gap' with
  | nil => rfl
  | cons p ps ih =>
    cases p with
    | gap cs => rw [row, row, List.append_assoc, ih]
    | lexeme kind cs => simp [row, plain]

theorem ofLine_gap (d : Dialect) (gap gap' cs : List Char) :
    ofLine d (gap ++ gap') cs =
      (ofLine d gap' cs).modifyHead fun t => { t with gap := String.ofList gap ++ t.gap } :=
  row_gap gap gap' _

end Token

/-! ### Regular rules -/

/-- The kinds of token that texts are read up to, in any of the dialects. -/
def TokenKind.stops : List TokenKind :=
  [.comment, .newline, .endOfInput, .semicolon, .colon, .comma, .rightBrace]

/-- A rule `r` for a form that no space or tab is part of. -/
structure Rule.IsWord (r : Rule) : Prop where
  inWord : r.2.InWord
  bounded : r.2.Bounded
  kind : r.1 ∉ [.comment, .string, .colon, .text, .newline, .endOfInput]
  stops : r.1 ∈ TokenKind.stops → ∀ c cs, Measure.isArrowPart c = true → r.2 (c :: cs) = 0

/-- A dialect `d` with text after a colon, in which all rules but the common ones are for forms that
no space or tab is part of, whatever stands before them. A line can be cut right behind its first
lexeme, or anywhere behind it before a character that is no part of an arrow. -/
structure Dialect.Regular (d : Dialect) (words : List Rule) : Prop where
  colonOpensText : Piece.colonOpensText d = true
  rules (before : Option Char) : Rule.ofDialect d before = Rule.common ++ words
  isWord : ∀ r ∈ words, r.IsWord
  cut (a b : List Char) (h : (Rule.first (Rule.common ++ words) (a ++ b)).2 ≤ a.length)
    (hb : a.length = (Rule.first (Rule.common ++ words) (a ++ b)).2 ∨
      ∀ c ∈ b.head?, Measure.isArrowPart c = false) :
    Rule.first (Rule.common ++ words) a = Rule.first (Rule.common ++ words) (a ++ b)

namespace Rule

theorem isWord_literal {kind : TokenKind} {s : List Char}
    (hkind : kind ∉ [.comment, .string, .colon, .text, .newline, .endOfInput])
    (hs : ∀ c ∈ s, isSpaceOrTab c = false)
    (hstops : kind ∈ TokenKind.stops → ∀ c ∈ s.head?, Measure.isArrowPart c = false)
    (hne : s ≠ []) :
    IsWord (kind, Measure.literal s) where
  inWord := Measure.within_literal hs
  bounded := Measure.literal_le s
  kind := hkind
  stops h c cs hc := by
    obtain ⟨e, s, rfl⟩ := List.exists_cons_of_ne_nil hne
    refine Measure.literal_cons_of_ne ?_ s cs
    rintro rfl
    rw [hstops h c rfl] at hc
    cases hc

/-- The first lexeme of a text `cs` by `rules` that are tried in order: an unknown character where
none matches, else that of a rule that does. -/
theorem first_eq_or (rules : List Rule) (cs : List Char) :
    (first rules cs = (.unknown, 1) ∧ ∀ r ∈ rules, r.2 cs = 0) ∨
      ∃ r ∈ rules, r.2 cs ≠ 0 ∧ first rules cs = (r.1, r.2 cs) := by
  induction rules with
  | nil => exact .inl ⟨rfl, List.forall_mem_nil _⟩
  | cons r rules ih =>
    rw [first]
    split
    · rcases ih with ⟨h, hall⟩ | ⟨r', hr', h⟩
      · exact .inl ⟨h, List.forall_mem_cons.2 ⟨‹_›, hall⟩⟩
      · exact .inr ⟨r', List.mem_cons_of_mem _ hr', h⟩
    · exact .inr ⟨r, List.mem_cons_self, ‹_›, rfl⟩

/-- The first lexeme of a text `cs` is that of one of the `rules`, if any of them applies, and it is
not empty. -/
theorem exists_of_first {rules : List Rule} {cs : List Char} {kind : TokenKind} {n : Nat}
    (h : first rules cs = (kind, n)) (hkind : kind ≠ .unknown) :
    ∃ r ∈ rules, r.1 = kind ∧ r.2 cs = n ∧ n ≠ 0 := by
  rcases first_eq_or rules cs with ⟨hfirst, -⟩ | ⟨r, hr, h0, hfirst⟩
  · rw [h] at hfirst
    exact absurd (congrArg Prod.fst hfirst) hkind
  · rw [h] at hfirst
    cases hfirst
    exact ⟨r, hr, rfl, rfl, h0⟩

/-- A lexeme that `rules` find takes at least one character, so scanning goes on. -/
theorem first_pos (rules : List Rule) (cs : List Char) : 0 < (first rules cs).2 := by
  rcases first_eq_or rules cs with ⟨h, -⟩ | ⟨r, -, h0, h⟩
  · rw [h]
    exact Nat.one_pos
  · rw [h]
    exact Nat.pos_of_ne_zero h0

/-- Where none of the `rules` looks behind the first part of a text, what follows it does not matter
to the first lexeme. -/
theorem first_append {rules : List Rule} {a b : List Char}
    (hrules : ∀ r ∈ rules, r.2 (a ++ b) ≤ a.length → r.2 a = r.2 (a ++ b))
    (h : (first rules (a ++ b)).2 ≤ a.length) :
    first rules a = first rules (a ++ b) := by
  induction rules with
  | nil => rfl
  | cons r rules ih =>
    obtain ⟨hr, hrules⟩ := List.forall_mem_cons.1 hrules
    rw [first, first] at *
    by_cases h0 : r.2 (a ++ b) = 0
    · rw [if_pos h0] at h ⊢
      rw [hr (by omega), if_pos h0]
      exact ih hrules h
    · rw [if_neg h0] at h ⊢
      rw [hr h, if_neg h0]

theorem stable_common : ∀ r ∈ common, r.2.Stable := by
  simp only [common, List.forall_mem_cons]
  exact ⟨Measure.stable_comment, Measure.stable_quotedString, Measure.stable_literal [':'], nofun⟩

/-- What follows a lexeme does not matter where it matters to no rule, that is, if all of them are
`Measure.Stable`. -/
theorem first_append_of_stable {words : List Rule} (hwords : ∀ r ∈ words, r.2.Stable)
    {a b : List Char} (h : (first (common ++ words) (a ++ b)).2 ≤ a.length) :
    first (common ++ words) a = first (common ++ words) (a ++ b) :=
  first_append (fun r hr => (List.forall_mem_append.2 ⟨stable_common, hwords⟩ r hr) a b) h

end Rule

namespace Dialect

/-- The rules of the entity-relationship dialect beside the common ones. -/
def entityRules : List Rule :=
  (.entityRelation, Measure.entityRelation) :: (.identifier, Measure.hyphenated) ::
    Rule.punctuation

theorem isWord_hyphenated : Rule.IsWord (.identifier, Measure.hyphenated) :=
  ⟨Measure.within_hyphenated Measure.parts_isSpaceOrTab, Measure.hyphenated_le, by decide,
    fun h => absurd h (by decide)⟩

theorem isWord_punctuation : ∀ r ∈ Rule.punctuation, r.IsWord := by
  simp only [Rule.punctuation, List.forall_mem_cons]
  refine ⟨?_, ?_, ?_, ?_, ?_, ?_, ?_, nofun⟩
  all_goals exact Rule.isWord_literal (by decide) (by decide) (by decide) (by decide)

theorem regular_entities : Regular .entities entityRules := by
  have hstable : ∀ r ∈ entityRules, r.2.Stable := by
    simp only [entityRules, Rule.punctuation, List.forall_mem_cons]
    refine ⟨Measure.stable_entityRelation, Measure.stable_hyphenated, ?_, ?_, ?_, ?_, ?_, ?_, ?_,
      nofun⟩
    all_goals exact Measure.stable_literal _
  refine ⟨rfl, fun _ => rfl, ?_, fun a b h _ => Rule.first_append_of_stable hstable h⟩
  simp only [entityRules, List.forall_mem_cons]
  exact ⟨⟨Measure.within_entityRelation Measure.parts_isSpaceOrTab, Measure.entityRelation_le,
    by decide, fun h => absurd h (by decide)⟩, isWord_hyphenated, isWord_punctuation⟩

theorem isWord_lineOriented : ∀ r ∈ Rule.lineOriented, r.IsWord := by
  simp only [Rule.lineOriented, List.forall_mem_cons]
  refine ⟨?_, ?_, ?_, ?_, ?_, ?_, ?_, ?_, ?_,
    ⟨Measure.within_number Measure.parts_isSpaceOrTab, Measure.number_le, by decide, fun h =>
      absurd h (by decide)⟩,
    ⟨Measure.within_wordIdentifier Measure.parts_isSpaceOrTab, Measure.wordIdentifier_le, by decide,
      fun h => absurd h (by decide)⟩, nofun⟩
  all_goals exact Rule.isWord_literal (by decide) (by decide) (by decide) (by decide)

theorem stable_lineOriented : ∀ r ∈ Rule.lineOriented, r.2.Stable := by
  simp only [Rule.lineOriented, List.forall_mem_cons]
  refine ⟨?_, ?_, ?_, ?_, ?_, ?_, ?_, ?_, ?_, Measure.stable_number, Measure.stable_wordIdentifier,
    nofun⟩
  all_goals exact Measure.stable_literal _

theorem regular_gantt : Regular .gantt Rule.lineOriented :=
  ⟨rfl, fun _ => rfl, isWord_lineOriented,
    fun _ _ h _ => Rule.first_append_of_stable stable_lineOriented h⟩

/-- The rules of the sequence dialect beside the common ones. -/
def sequenceRules : List Rule := (.arrow, Measure.messageArrow) :: Rule.lineOriented

theorem regular_sequence : Regular .sequence sequenceRules := by
  have hstable : ∀ r ∈ sequenceRules, r.2.Stable :=
    List.forall_mem_cons.2 ⟨Measure.stable_firstOf (by simp [Measure.stable_literal]),
      stable_lineOriented⟩
  refine ⟨rfl, fun _ => rfl, List.forall_mem_cons.2 ⟨⟨?_, ?_, by decide,
    fun h => absurd h (by decide)⟩, isWord_lineOriented⟩, fun _ _ h _ =>
      Rule.first_append_of_stable hstable h⟩
  · refine Measure.within_firstOf ?_
    simp only [List.forall_mem_cons]
    refine ⟨?_, ?_, ?_, ?_, ?_, ?_, ?_, ?_, nofun⟩
    all_goals exact Measure.within_literal (by decide)
  · exact Measure.firstOf_le (by simp [Measure.literal_le])

/-- The rules of the state dialect beside the common ones. -/
def stateRules : List Rule :=
  (.pseudostate, Measure.literal ['[', '*', ']']) ::
    (.transition, Measure.literal ['-', '-', '>']) ::
      (.regionSeparator, Measure.regionSeparator) :: (.identifier, Measure.hyphenated) ::
        Rule.punctuation

/-- What a line of the state dialect can start with at a hyphen: the arrow of a transition or a
separator. -/
theorem first_hyphen (cs : List Char) :
    Rule.first (Rule.common ++ stateRules) ('-' :: cs) =
      Rule.first [(.transition, Measure.literal ['-', '-', '>']),
        (.regionSeparator, Measure.regionSeparator)] ('-' :: cs) := by
  simp [Rule.common, stateRules, Rule.punctuation, Rule.first, Measure.comment,
    Measure.quotedString, Measure.literal, Measure.hyphenated, isAsciiWord]

/-- Right behind the first lexeme a row of hyphens is the same separator as with what follows, since
what makes it longer would be part of the lexeme. -/
theorem regionSeparator_first {a b : List Char}
    (ha : a.length = (Rule.first (Rule.common ++ stateRules) (a ++ b)).2)
    (hle : Measure.regionSeparator (a ++ b) ≤ a.length) :
    Measure.regionSeparator a = Measure.regionSeparator (a ++ b) := by
  -- a separator takes the whole of the text if no arrow does
  have hwhole : ∀ cs, a = '-' :: cs → Measure.literal ['-', '-', '>'] (a ++ b) = 0 →
      1 < a.length → Measure.regionSeparator (a ++ b) = a.length := by
    rintro cs rfl hliteral hlt
    rw [List.cons_append] at hliteral ha ⊢
    rw [first_hyphen, Rule.first, if_pos hliteral, Rule.first] at ha
    split at ha
    · rw [Rule.first] at ha
      omega
    · exact ha.symm
  match a with
  | [] => exact (Nat.le_zero.1 hle).symm
  | [e] =>
    have hzero : Measure.regionSeparator [e] = 0 := by
      by_cases he : e = '-'
      · subst he
        decide
      · exact Measure.regionSeparator_cons_of_ne he []
    rw [hzero]
    have hcases := Measure.regionSeparator_eq_zero_or ([e] ++ b)
    rw [List.length_singleton] at hle
    omega
  | e :: f :: cs =>
    by_cases he : e = '-'
    · subst he
      by_cases hf : f = '-'
      · subst hf
        match cs with
        | [] =>
          cases b with
          | nil => rfl
          | cons c b =>
            by_cases hc : c = '>'
            · subst hc
              rw [List.cons_append, first_hyphen] at ha
              simp [Rule.first, Measure.literal] at ha
            · exact (hwhole ['-'] rfl (by simp [Measure.literal, Ne.symm hc]) (by decide)).symm
        | [g] =>
          by_cases hg : g = '-'
          · subst hg
            exact (hwhole ['-', '-'] rfl (by simp [Measure.literal]) (by decide)).symm
          · simp only [List.cons_append, List.nil_append, Measure.regionSeparator_two hg]
        | g :: k :: cs =>
          by_cases hg : g = '-'
          · subst hg
            simp only [List.cons_append, Measure.regionSeparator_three]
          · simp only [List.cons_append, Measure.regionSeparator_two hg]
      · simp only [List.cons_append, Measure.regionSeparator_hyphen_of_ne hf]
    · simp only [List.cons_append, Measure.regionSeparator_cons_of_ne he]

theorem regular_states : Regular .states stateRules := by
  have hwords : ∀ r ∈ stateRules, r.2 = Measure.regionSeparator ∨ r.2.Stable := by
    simp only [stateRules, Rule.punctuation, List.forall_mem_cons]
    refine ⟨?_, ?_, .inl trivial, .inr Measure.stable_hyphenated, ?_, ?_, ?_, ?_, ?_, ?_, ?_, nofun⟩
    all_goals exact .inr (Measure.stable_literal _)
  refine ⟨rfl, fun _ => rfl, ?_, fun a b h hb => ?_⟩
  · simp only [stateRules, List.forall_mem_cons]
    refine ⟨?_, ?_, ⟨Measure.within_regionSeparator Measure.parts_isSpaceOrTab,
      Measure.regionSeparator_le, by decide,
      fun h => absurd h (by decide)⟩, isWord_hyphenated, isWord_punctuation⟩
    all_goals exact Rule.isWord_literal (by decide) (by decide) (by decide) (by decide)
  · refine Rule.first_append (List.forall_mem_append.2 ⟨fun r hr => Rule.stable_common r hr a b,
      fun r hr hle => ?_⟩) h
    rcases hwords r hr with hregion | hstable
    · rw [hregion] at hle ⊢
      rcases hb with ha | hnext
      · exact regionSeparator_first ha hle
      · exact Measure.regionSeparator_append hnext hle
    · exact hstable a b hle

end Dialect

/-! ### The steps of a line -/

variable {d : Dialect} {words : List Rule}

namespace Piece

/-- In a dialect with regular rules, no step depends on what stands before it, so `next` is
`plain`. -/
theorem next_eq (hd : d.Regular words) (context : Context) (cs : List Char) :
    next d context cs = plain d {} cs := by
  have hlabel : label? d context cs = none := by
    have h := hd.colonOpensText
    rw [colonOpensText] at h
    rw [label?, if_pos h]
  rw [next, hlabel, Option.getD_none, plain, plain, hd.rules, hd.rules]

theorem ofRest_eq (hd : d.Regular words) (context : Context) (cs : List Char) :
    ofRest d context cs = ofLine d cs := by
  rw [ofLine]
  generalize ({} : Context) = context'
  induction hlen : cs.length using Nat.strongRecOn generalizing cs context context' with
  | _ len ih =>
    cases cs with
    | nil => rw [ofRest, ofRest]
    | cons c cs =>
      rw [ofRest, ofRest, next_eq hd, next_eq hd context']
      rw [ih _ (by rw [List.length_drop, ← hlen, List.length_cons]; omega) _ _ _ rfl]

/-- The pieces of a line are those of the first step, and those of the rest, wherever the step
ends. -/
theorem ofLine_cons (hd : d.Regular words) (c : Char) (cs : List Char) :
    ofLine d (c :: cs) = plain d {} (c :: cs) ++
      ofLine d (cs.drop (((plain d {} (c :: cs)).flatMap chars).length - 1)) := by
  rw [ofLine, ofRest, next_eq hd, ofRest_eq hd]

end Piece

namespace Token

theorem ofLine_nil (d : Dialect) (gap : List Char) : ofLine d gap [] = [] := by
  rw [ofLine, Piece.ofLine_nil, row]

/-- Spaces and tabs at the start of a line `cs` are skipped, and go into the gap. -/
theorem ofLine_dropWhile (hd : d.Regular words) (gap cs : List Char) :
    ofLine d gap cs =
      ofLine d (gap ++ cs.takeWhile isSpaceOrTab) (cs.dropWhile isSpaceOrTab) := by
  cases cs with
  | nil => simp
  | cons c cs =>
    by_cases hc : isSpaceOrTab c = true
    · have hplain : Piece.plain d {} (c :: cs) = [.gap ((c :: cs).takeWhile isSpaceOrTab)] := by
        have hrun : Measure.run isSpaceOrTab (c :: cs) ≠ 0 := by simp [Measure.run, hc]
        rw [Piece.plain, if_pos hrun, Measure.run,
          ← List.prefix_iff_eq_take.1 (List.takeWhile_prefix _)]
      rw [ofLine, Piece.ofLine_cons hd, hplain, List.singleton_append, row,
        List.flatMap_singleton, Piece.chars, List.takeWhile_cons_of_pos hc,
        List.dropWhile_cons_of_pos hc, List.length_cons, Nat.add_sub_cancel]
      conv => lhs; arg 2; arg 2; arg 2; rw [← cs.takeWhile_append_dropWhile (p := isSpaceOrTab)]
      rw [List.drop_left]
      rfl
    · rw [List.takeWhile_cons_of_neg hc, List.dropWhile_cons_of_neg hc, List.append_nil]

/-- A space or tab `c` is skipped, and goes into the gap. -/
theorem ofLine_cons_blank (hd : d.Regular words) {c : Char} (hc : isSpaceOrTab c = true)
    (gap cs : List Char) : ofLine d gap (c :: cs) = ofLine d (gap ++ [c]) cs := by
  rw [ofLine_dropWhile hd, ofLine_dropWhile hd (gap ++ [c]), List.takeWhile_cons_of_pos hc,
    List.dropWhile_cons_of_pos hc, List.append_assoc]
  rfl

theorem ofLine_append_blanks (hd : d.Regular words) {b : List Char}
    (hb : ∀ c ∈ b, isSpaceOrTab c = true) (gap cs : List Char) :
    ofLine d gap (b ++ cs) = ofLine d (gap ++ b) cs := by
  induction b generalizing gap with
  | nil => rw [List.nil_append, List.append_nil]
  | cons c b ih =>
    obtain ⟨hc, hb⟩ := List.forall_mem_cons.1 hb
    rw [List.cons_append, ofLine_cons_blank hd hc, ih hb, List.append_assoc]
    rfl

end Token

/-- A dialect `d` in which the spaces and tabs that a line starts with are skipped. -/
def Dialect.SkipsBlanks (d : Dialect) : Prop := ∀ b : List Char,
  (∀ c ∈ b, isSpaceOrTab c = true) →
    ∀ gap cs, Token.ofLine d gap (b ++ cs) = Token.ofLine d (gap ++ b) cs

theorem Dialect.Regular.skipsBlanks (hd : d.Regular words) : d.SkipsBlanks :=
  fun _ hb => Token.ofLine_append_blanks hd hb

namespace Token

/-- The text `cs` after a colon, if it is not empty, without the blanks around it. -/
def afterColon (cs : List Char) : List Token :=
  let text := trimRight (cs.dropWhile isSpaceOrTab)
  if text.isEmpty then [] else [plain .text (cs.takeWhile isSpaceOrTab) text]

/-- A colon takes the rest of the line, `cs`, as text or as what is skipped. -/
theorem ofLine_cons_colon (hd : d.Regular words) (gap cs : List Char) :
    ofLine d gap (':' :: cs) = plain .colon gap [':'] :: afterColon cs := by
  have hplain : Piece.plain d {} (':' :: cs) = .lexeme .colon [':'] :: Piece.colonText cs := by
    have hrun : Measure.run isSpaceOrTab (':' :: cs) = 0 := by simp [Measure.run, isSpaceOrTab]
    have hfirst : Rule.first (Rule.ofDialect d none) (':' :: cs) = (.colon, 1) := by
      rw [hd.rules]
      simp [Rule.common, Rule.first, Measure.comment, Measure.quotedString, Measure.literal]
    rw [Piece.plain]
    simp only [hrun, hfirst, ne_eq, not_true_eq_false, if_false, hd.colonOpensText]
    rfl
  -- The text and what is skipped around it are all of the line.
  have hchars : (Piece.colonText cs).flatMap Piece.chars = cs := by
    obtain ⟨b, hb, -, -⟩ := exists_trimRight (cs.dropWhile isSpaceOrTab)
    have hdrop : (cs.dropWhile isSpaceOrTab).drop
        (trimRight (cs.dropWhile isSpaceOrTab)).length = b := by
      conv => lhs; arg 2; rw [hb]
      exact List.drop_left
    rw [Piece.colonText, hdrop]
    split
    · next h =>
      rw [List.isEmpty_iff] at h
      rw [h, List.nil_append] at hb
      simp [Piece.chars, ← hb]
    · simp [Piece.chars, ← hb]
  have hrest : Piece.ofLine d (cs.drop (((Piece.plain d {} (':' :: cs)).flatMap
      Piece.chars).length - 1)) = [] := by
    rw [hplain, List.flatMap_cons, hchars, Piece.chars, List.singleton_append, List.length_cons,
      Nat.add_sub_cancel, List.drop_length, Piece.ofLine_nil]
  rw [ofLine, Piece.ofLine_cons hd, hrest, hplain, List.append_nil, row, Piece.colonText,
    afterColon]
  split <;> rfl

/-- Any other lexeme is one token, and the rest of the line is scanned behind it. -/
theorem ofLine_cons (hd : d.Regular words) {c : Char} (hc : isSpaceOrTab c = false)
    {cs : List Char} {kind : TokenKind} {n : Nat}
    (h : Rule.first (Rule.common ++ words) (c :: cs) = (kind, n)) (hkind : kind ≠ .colon)
    (gap : List Char) : ofLine d gap (c :: cs) =
      plain kind gap ((c :: cs).take n) :: ofLine d [] ((c :: cs).drop n) := by
  have hplain : Piece.plain d {} (c :: cs) = [.lexeme kind ((c :: cs).take n)] := by
    have hrun : Measure.run isSpaceOrTab (c :: cs) = 0 := by simp [Measure.run, hc]
    rw [Piece.plain]
    simp only [hrun, ne_eq, not_true_eq_false, if_false]
    rw [hd.rules, h]
    simp [hkind]
  have hn : 0 < n := by
    have := Rule.first_pos (Rule.common ++ words) (c :: cs)
    rwa [h] at this
  obtain ⟨n, rfl⟩ : ∃ m, n = m + 1 := ⟨n - 1, by omega⟩
  have hdrop : cs.drop (((c :: cs).take (n + 1)).length - 1) = cs.drop n := by
    rw [List.take_succ_cons, List.length_cons, Nat.add_sub_cancel, List.length_take]
    rcases Nat.le_total n cs.length with hle | hle
    · rw [Nat.min_eq_left hle]
    · rw [Nat.min_eq_right hle, List.drop_length, List.drop_eq_nil_of_le hle]
  rw [ofLine, Piece.ofLine_cons hd, hplain, List.flatMap_singleton, Piece.chars, hdrop]
  rfl

end Token
end DiagramText
