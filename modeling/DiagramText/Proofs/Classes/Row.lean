import DiagramText.Classes.Reader
import DiagramText.Classes.Writer
import DiagramText.Proofs.Classes.Member
import DiagramText.Proofs.Token.Content
import DiagramText.Proofs.Token.Name

/-!
# Rows of the lines of class diagrams

An operator that starts with a circle is one only where no word ends before it. This is all that
matters of what stands before a lexeme in a class diagram, so behind a space or tab a line goes on
as it would at its start.

* `Token.behind`: the row of the rest of a line, with the character before it.
* `Token.behind_blanks`, `Token.behind_lexeme` and `Token.behind_colon` are its steps.
* `Classes.ofLine_header`, `Classes.ofLine_stereotype`, `Classes.ofLine_member` and
  `Classes.ofLine_relation`: the rows of the lines.
-/

namespace DiagramText

open Text

namespace Token

/-- The row of the rest of a line of a class diagram, with the character `before` it. -/
def behind (before : Option Char) (gap cs : List Char) : List Token :=
  row gap (Piece.ofRest .classes { before } cs)

/-- Only whether a word ends before the rest of a line matters to it: operators look no further
back. -/
theorem alike_classes {c c' : Piece.Context}
    (h : c.before.any Text.isWord = c'.before.any Text.isWord) : c.Alike .classes c' where
  before := h
  afterIdentifier := nofun

theorem ofLine_classes (gap cs : List Char) : ofLine .classes gap cs = behind none gap cs := rfl

theorem behind_congr {before before' : Option Char}
    (h : before.any Text.isWord = before'.any Text.isWord)
    (gap cs : List Char) : behind before gap cs = behind before' gap cs :=
  congrArg (row gap) (Piece.ofRest_congr (alike_classes h) cs)

theorem behind_nil (before : Option Char) (gap : List Char) : behind before gap [] = [] := by
  rw [behind, Piece.ofRest, row]

/-! ### Steps -/

theorem behind_step {before : Option Char} {x b : List Char} {ps : List Piece} (hne : x ≠ [])
    (hnext : Piece.plain .classes { before } (x ++ b) = ps) (hchars : ps.flatMap Piece.chars = x)
    (gap : List Char) :
    behind before gap (x ++ b) = row gap ps ++ behind x.getLast? (trailing gap ps) b := by
  have hbefore : (ps.foldl Piece.Context.push { before }).before = x.getLast? := by
    rw [Piece.before_foldl, hchars, List.getLast?_eq_some_getLast hne, Option.some_or]
  obtain ⟨c, x, rfl⟩ := List.exists_cons_of_ne_nil hne
  have hdrop : (x ++ b).drop ((c :: x).length - 1) = b := by
    rw [List.length_cons, Nat.add_sub_cancel, List.drop_left]
  have hrest : Piece.ofRest .classes { before } ((c :: x) ++ b) = ps ++
      Piece.ofRest .classes (ps.foldl Piece.Context.push { before }) b := by
    have hnext' : Piece.next .classes { before } (c :: (x ++ b)) = ps := hnext
    rw [List.cons_append, Piece.ofRest, hnext', hchars, hdrop]
  have hcontext : Piece.ofRest .classes (ps.foldl Piece.Context.push { before }) b =
      Piece.ofRest .classes { before := (c :: x).getLast? } b :=
    Piece.ofRest_congr (alike_classes (by rw [hbefore])) b
  rw [behind, hrest, row_append, hcontext]
  rfl

/-- Behind spaces and tabs a line `cs` goes on as at its start, with these blanks in the next
gap. -/
theorem behind_dropWhile {cs : List Char} (hne : cs.takeWhile isSpaceOrTab ≠ [])
    (before : Option Char) (gap : List Char) : behind before gap cs =
      behind none (gap ++ cs.takeWhile isSpaceOrTab) (cs.dropWhile isSpaceOrTab) := by
  have hplain : Piece.plain .classes { before } cs = [.gap (cs.takeWhile isSpaceOrTab)] := by
    have hrun : Measure.run isSpaceOrTab cs ≠ 0 := by
      rwa [Measure.run, ne_eq, List.length_eq_zero_iff]
    rw [Piece.plain, if_pos hrun, Measure.run, ← List.prefix_iff_eq_take.1
      (List.takeWhile_prefix _)]
  have hlast : (cs.takeWhile isSpaceOrTab).getLast?.any Text.isWord = false := by
    rw [List.getLast?_eq_some_getLast hne]
    exact Measure.isWord_of_isSpaceOrTab
      (List.all_eq_true.1 List.all_takeWhile _ (List.getLast_mem hne))
  conv => lhs; rw [← cs.takeWhile_append_dropWhile (p := isSpaceOrTab)]
  rw [behind_step hne (by rw [List.takeWhile_append_dropWhile, hplain]) (List.append_nil _)]
  exact behind_congr hlast _ _

theorem behind_blanks {b : List Char} (hne : b ≠ []) (hb : ∀ c ∈ b, isSpaceOrTab c = true)
    (before : Option Char) (gap cs : List Char) :
    behind before gap (b ++ cs) = behind none (gap ++ b) cs := by
  have htake : (b ++ cs).takeWhile isSpaceOrTab ≠ [] := by
    rw [List.takeWhile_append_of_pos hb]
    exact List.append_ne_nil_of_left_ne_nil hne _
  rw [behind_dropWhile htake, List.takeWhile_append_of_pos hb, List.dropWhile_append_of_pos hb,
    ← List.append_assoc]
  by_cases hcs : cs.takeWhile isSpaceOrTab = []
  · have hsplit := cs.takeWhile_append_dropWhile (p := isSpaceOrTab)
    rw [hcs, List.nil_append] at hsplit
    rw [hcs, hsplit, List.append_nil]
  · rw [behind_dropWhile hcs none (gap ++ b)]

theorem skipsBlanks_classes : Dialect.classes.SkipsBlanks := by
  intro b hb gap cs
  by_cases hne : b = []
  · rw [hne, List.nil_append, List.append_nil]
  · exact behind_blanks hne hb none gap cs

/-- A text `b` that is empty or starts with a space or tab is as it would be at the start of a
line. -/
theorem behind_startsBlank {b : List Char} (hb : StartsBlank b) (before : Option Char)
    (gap : List Char) : behind before gap b = behind none gap b := by
  cases b with
  | nil => rw [behind_nil, behind_nil]
  | cons c b =>
    have hc : ∀ e ∈ [c], isSpaceOrTab e = true := List.forall_mem_singleton.2 (hb c rfl)
    exact (behind_blanks (List.cons_ne_nil c []) hc before gap b).trans
      (behind_blanks (List.cons_ne_nil c []) hc none gap b).symm

/-- A lexeme `x` is one token, and the line goes on behind its last character. -/
theorem behind_lexeme {before : Option Char} {kind : TokenKind} {x b : List Char} (hne : x ≠ [])
    (hhead : ∀ c ∈ x.head?, isSpaceOrTab c = false)
    (hfirst : Rule.first (Rule.ofDialect .classes before) (x ++ b) = (kind, x.length))
    (hkind : kind ≠ .colon) (gap : List Char) :
    behind before gap (x ++ b) = plain kind gap x :: behind x.getLast? [] b := by
  have hplain : Piece.plain .classes { before } (x ++ b) = [.lexeme kind x] := by
    have hrun : Measure.run isSpaceOrTab (x ++ b) = 0 := by
      obtain ⟨c, x, rfl⟩ := List.exists_cons_of_ne_nil hne
      simp [Measure.run, hhead c rfl]
    rw [Piece.plain]
    simp only [hrun, hfirst, ne_eq, not_true_eq_false, if_false, List.take_left]
    simp [hkind]
  rw [behind_step hne hplain (List.append_nil x)]
  rfl

/-- A colon takes the rest `cs` of the line, whatever stands before it. -/
theorem behind_colon (before : Option Char) (gap cs : List Char) :
    behind before gap (':' :: cs) = plain .colon gap [':'] :: afterColon cs := by
  have hplain : Piece.plain .classes { before } (':' :: cs ++ []) =
      .lexeme .colon [':'] :: Piece.colonText cs := by
    have hrun : Measure.run isSpaceOrTab (':' :: cs) = 0 := by simp [Measure.run, isSpaceOrTab]
    have hfirst : Rule.first (Rule.ofDialect .classes before) (':' :: cs) = (.colon, 1) := by
      simp [Rule.ofDialect, Rule.common, Rule.first, Measure.comment, Measure.quotedString,
        Measure.literal]
    rw [List.append_nil, Piece.plain]
    simp only [hrun, hfirst, ne_eq, not_true_eq_false, if_false]
    rfl
  have hchars : (Piece.lexeme .colon [':'] :: Piece.colonText cs).flatMap Piece.chars =
      ':' :: cs := by
    rw [List.flatMap_cons, Piece.flatMap_colonText]
    rfl
  have hstep := behind_step (List.cons_ne_nil ':' cs) hplain hchars gap
  rw [List.append_nil, behind_nil, List.append_nil] at hstep
  rw [hstep, row, Piece.colonText, afterColon]
  split <;> rfl

/-- The first token of a line is its first lexeme, by the first rule that applies. It starts at the
character `c`. -/
theorem exists_behind {c : Char} (hc : isSpaceOrTab c = false) (before : Option Char)
    (gap cs : List Char) : ∃ t ts, behind before gap (c :: cs) = t :: ts ∧
      t.kind = (Rule.first (Rule.ofDialect .classes before) (c :: cs)).1 := by
  have hrun : Measure.run isSpaceOrTab (c :: cs) = 0 := by simp [Measure.run, hc]
  have hnext : Piece.next .classes { before } (c :: cs) =
      Piece.plain .classes { before } (c :: cs) := rfl
  rw [behind, Piece.ofRest, hnext, Piece.plain]
  simp only [hrun, ne_eq, not_true_eq_false, if_false]
  exact ⟨_, _, rfl, rfl⟩

/-! ### Lexemes joined by spaces -/

/-- A text `x` of one line that is one lexeme before a space or tab and at the end of a line. -/
structure IsSpacedLexeme (kind : TokenKind) (x : List Char) : Prop where
  ne_nil : x ≠ []
  plain : Plain x
  head : ∀ c ∈ x.head?, isSpaceOrTab c = false
  first (b : List Char) (hb : StartsBlank b) :
    Rule.first (Rule.ofDialect .classes none) (x ++ b) = (kind, x.length)
  kind : kind ≠ .comment ∧ kind ≠ .colon

/-- Lexemes that are joined by spaces are the first tokens of their line, in front of any `b` that
starts blank. -/
theorem behind_spaced {ws : List (TokenKind × List Char)} (hne : ws ≠ [])
    (h : ∀ w ∈ ws, IsSpacedLexeme w.1 w.2) {b : List Char} (hb : StartsBlank b) (gap : List Char) :
    behind none gap (spacedChars ws ++ b) = spaced gap ws ++ behind none [] b := by
  induction ws generalizing gap with
  | nil => exact absurd rfl hne
  | cons w ws ih =>
    obtain ⟨hw, h⟩ := List.forall_mem_cons.1 h
    -- The first lexeme stands alone in front of a space as well as in front of `b`.
    have hfirst : ∀ b', StartsBlank b' →
        behind none gap (w.2 ++ b') = Token.plain w.1 gap w.2 :: behind none [] b' :=
          fun b' hb' => by
      rw [behind_lexeme hw.ne_nil hw.head (hw.first b' hb') hw.kind.2, behind_startsBlank hb']
    cases ws with
    | nil =>
      have hchars : spacedChars [w] = w.2 := List.append_nil _
      rw [hchars, hfirst b hb]
      rfl
    | cons w' ws =>
      have hspace : StartsBlank (' ' :: (spacedChars (w' :: ws) ++ b)) := by
        rintro c ⟨⟩
        rfl
      have hblank := behind_blanks (List.cons_ne_nil ' ' []) (by decide) none []
        (spacedChars (w' :: ws) ++ b)
      rw [spacedChars_cons_cons, List.append_assoc, List.cons_append, hfirst _ hspace]
      rw [List.singleton_append, List.nil_append] at hblank
      rw [hblank, ih (List.cons_ne_nil w' ws) h]
      rfl

end Token

namespace Classes

/-! ### Parts that can stand in a document -/

/-- A cardinality `s`, which stands between double quotes and so cannot hold one. -/
structure IsCardinality (s : String) : Prop where
  plain : Plain s.toList
  quote : '"' ∉ s.toList

/-- A label `s` that a line can end with: it is not empty, and no blanks are around it. -/
structure IsLabel (s : String) : Prop where
  ne_nil : s.toList ≠ []
  plain : Plain s.toList
  trim_eq : trim s.toList = s.toList

/-- A class `c` of which all parts can stand in a document. -/
structure Definition.Readable (c : Definition) : Prop where
  name : IsIdentifier c.name
  generic : ∀ g ∈ c.generic, IsIdentifier g
  stereotype : ∀ a ∈ c.stereotype, IsIdentifier a
  members : ∀ m ∈ c.members, m.Readable

/-- A relation `r` of which all parts can stand in a document. -/
structure Relation.Readable (r : Relation) : Prop where
  source : IsIdentifier r.source
  target : IsIdentifier r.target
  sourceCardinality : ∀ s ∈ r.sourceCardinality, IsCardinality s
  targetCardinality : ∀ s ∈ r.targetCardinality, IsCardinality s
  label : ∀ l ∈ r.label, IsLabel l

section Decidable

instance (s : String) : Decidable (IsCardinality s) :=
  decidable_of_iff (Plain s.toList ∧ '"' ∉ s.toList)
    ⟨fun ⟨h₁, h₂⟩ => ⟨h₁, h₂⟩, fun ⟨h₁, h₂⟩ => ⟨h₁, h₂⟩⟩

instance (s : String) : Decidable (IsLabel s) :=
  decidable_of_iff (s.toList ≠ [] ∧ Plain s.toList ∧ trim s.toList = s.toList)
    ⟨fun ⟨h₁, h₂, h₃⟩ => ⟨h₁, h₂, h₃⟩, fun ⟨h₁, h₂, h₃⟩ => ⟨h₁, h₂, h₃⟩⟩

instance (c : Definition) : Decidable c.Readable :=
  decidable_of_iff (IsIdentifier c.name ∧ (∀ g ∈ c.generic, IsIdentifier g) ∧
      (∀ a ∈ c.stereotype, IsIdentifier a) ∧ ∀ m ∈ c.members, m.Readable)
    ⟨fun ⟨h₁, h₂, h₃, h₄⟩ => ⟨h₁, h₂, h₃, h₄⟩, fun ⟨h₁, h₂, h₃, h₄⟩ => ⟨h₁, h₂, h₃, h₄⟩⟩

instance (r : Relation) : Decidable r.Readable :=
  decidable_of_iff (IsIdentifier r.source ∧ IsIdentifier r.target ∧
      (∀ s ∈ r.sourceCardinality, IsCardinality s) ∧
        (∀ s ∈ r.targetCardinality, IsCardinality s) ∧ ∀ l ∈ r.label, IsLabel l)
    ⟨fun ⟨h₁, h₂, h₃, h₄, h₅⟩ => ⟨h₁, h₂, h₃, h₄, h₅⟩,
      fun ⟨h₁, h₂, h₃, h₄, h₅⟩ => ⟨h₁, h₂, h₃, h₄, h₅⟩⟩

end Decidable

/-! ### Lexemes -/

/-- An identifier `id` ends before a character of no word. Before a hyphen, a single circle could be
the start of an operator. -/
theorem first_identifier {id : String} (h : IsIdentifier id) {b : List Char}
    (hb : ∀ c ∈ b.head?, isWord c = false ∧ c ≠ '-') (before : Option Char) :
    Rule.first (Rule.ofDialect .classes before) (id.toList ++ b) =
      (.identifier, id.toList.length) := by
  obtain ⟨c, cs, hcs, -, hword⟩ := h.exists_cons
  have hascii : isAsciiWord c = true := h.2.2 c (by rw [hcs]; exact List.mem_cons_self)
  have hne : ∀ e : Char, isAsciiWord e = false → c ≠ e := by
    rintro e he rfl
    rw [he] at hascii
    cases hascii
  -- no hyphen stands behind the first character
  have hcircle : Measure.literal ['o', '-', '-'] (c :: (cs ++ b)) = 0 := by
    refine if_neg fun hstart => ?_
    obtain ⟨rest, hrest⟩ := List.isPrefixOf_iff_prefix.1 hstart
    have hsecond : (cs ++ b).head? = some '-' := by
      rw [← (List.cons.inj hrest).2]
      rfl
    cases cs with
    | nil => exact (hb '-' hsecond).2 rfl
    | cons e cs =>
      obtain rfl : e = '-' := by simpa using hsecond
      exact absurd (hword '-' List.mem_cons_self) (by decide)
  have hrules : ∀ r ∈ ([(.classRelation, Measure.classRelation before)] : List Rule),
      r.2 (id.toList ++ b) = 0 := by
    rw [hcs]
    simp only [Measure.classRelation, Measure.firstOf, List.cons_append, List.forall_mem_singleton,
      Measure.literal_cons_of_ne (hne '<' (by decide)), hcircle,
      Measure.literal_cons_of_ne (hne '-' (by decide)),
      Measure.literal_cons_of_ne (hne '.' (by decide)),
      Measure.literal_cons_of_ne (hne '*' (by decide)), ite_self, ↓reduceIte]
  exact Rule.first_identifier h (fun c hc => (hb c hc).1) hrules

theorem isSpacedLexeme_identifier {id : String} (h : IsIdentifier id) :
    Token.IsSpacedLexeme .identifier id.toList where
  ne_nil := h.toList_ne_nil
  plain := h.plain
  head c hc := isSpaceOrTab_of_not_isBlank (h.head_not_isBlank c hc)
  first b hb := by
    refine first_identifier h (fun c hc => ?_) none
    obtain rfl | rfl := Measure.eq_of_isSpaceOrTab (hb c hc) <;> decide
  kind := by decide

theorem isSpacedLexeme_kind (k : RelationKind) :
    Token.IsSpacedLexeme .classRelation k.text.toList where
  ne_nil := by cases k <;> decide
  plain := by cases k <;> decide
  head := by cases k <;> decide
  first b hb := by
    cases b with
    | nil => cases k <;> decide
    | cons c b =>
      obtain rfl | rfl := Measure.eq_of_isSpaceOrTab (hb c rfl) <;> cases k <;>
        simp [RelationKind.text, Rule.ofDialect, Rule.common, Rule.first, Measure.comment,
          Measure.quotedString, Measure.literal, Measure.classRelation, Measure.firstOf,
          Measure.startsWord, isWord, isAsciiWord]
  kind := by decide

theorem isSpacedLexeme_doubleQuoted {s : String} (h : IsCardinality s) :
    Token.IsSpacedLexeme .string (doubleQuoted s).toList := by
  have hplain : ∀ cs : List Char, (∀ c ∈ cs, c = '"') → Plain cs := by
    intro cs hcs c hc hblank
    rw [hcs c hc] at hblank
    exact absurd hblank (by decide)
  rw [toList_doubleQuoted]
  refine ⟨List.cons_ne_nil _ _, ?_, ?_, fun b _ => ?_, by decide⟩
  · exact Plain.append.2 ⟨hplain ['"'] (by decide), Plain.append.2 ⟨h.plain, hplain _ (by decide)⟩⟩
  · rintro c ⟨⟩
    decide
  · have hstring := Measure.quotedString_append h.quote b
    have hlength : ('"' :: (s.toList ++ ['"'])).length = s.toList.length + 2 := by simp
    rw [List.cons_append, List.append_assoc, List.singleton_append, hlength]
    simp [Rule.ofDialect, Rule.common, Rule.first, Measure.comment, hstring]

theorem isSpacedLexeme_brace {kind : TokenKind} {c : Char}
    (h : (kind, c) ∈ [(.leftBrace, '{'), (.rightBrace, '}')]) : Token.IsSpacedLexeme kind [c] := by
  simp only [List.mem_cons, Prod.mk.injEq, List.not_mem_nil, or_false] at h
  rcases h with ⟨rfl, rfl⟩ | ⟨rfl, rfl⟩ <;>
    exact ⟨by decide, by decide, by decide, fun b _ => by
      simp [Rule.ofDialect, Rule.common, Rule.lineOriented, Rule.first, Measure.comment,
        Measure.quotedString, Measure.literal, Measure.classRelation, Measure.firstOf], by decide⟩

theorem first_tilde (before : Option Char) (b : List Char) :
    Rule.first (Rule.ofDialect .classes before) (['~'] ++ b) = (.tilde, 1) := by
  simp [Rule.ofDialect, Rule.common, Rule.lineOriented, Rule.first, Measure.comment,
    Measure.quotedString, Measure.literal, Measure.classRelation, Measure.firstOf]

/-- An identifier `id` is one token, whatever stands before it. -/
theorem behind_identifier {id : String} (h : IsIdentifier id) {b : List Char}
    (hb : ∀ c ∈ b.head?, isWord c = false ∧ c ≠ '-') (before : Option Char) (gap : List Char) :
    Token.behind before gap (id.toList ++ b) =
      Token.plain .identifier gap id.toList :: Token.behind id.toList.getLast? [] b :=
  Token.behind_lexeme h.toList_ne_nil
    (fun c hc => isSpaceOrTab_of_not_isBlank (h.head_not_isBlank c hc))
    (first_identifier h hb before) (by decide) gap

/-! ### Classes -/

/-- The parameter `generic` as it is written behind the name of a class, between tildes. -/
def genericChars (generic : Option String) : List Char :=
  generic.elim [] fun g => ['~'] ++ (g.toList ++ ['~'])

/-- The tokens of the parameter `generic` behind the name of a class. -/
def genericTokens (generic : Option String) : List Token :=
  generic.elim [] fun g => [Token.plain .tilde [] ['~'], Token.plain .identifier [] g.toList,
    Token.plain .tilde [] ['~']]

theorem toList_header {c : Definition} (h : c.Readable) :
    c.header.toList = "class".toList ++ ([' '] ++ (c.name.toList ++ genericChars c.generic)) := by
  have hfilter : c.generic.filter (!·.isEmpty) = c.generic := by
    cases hg : c.generic with
    | none => rfl
    | some g =>
      have hne := (h.generic g hg).1
      simpa using hne
  rw [Definition.header, hfilter]
  cases c.generic <;> simp [genericChars, toString]

/-- The parameter `generic` is an identifier between tildes, and three tokens. -/
theorem behind_genericChars {generic : Option String} (h : ∀ g ∈ generic, IsIdentifier g)
    {b : List Char} (hb : StartsBlank b) (before : Option Char) :
    Token.behind before [] (genericChars generic ++ b) =
      genericTokens generic ++ Token.behind none [] b := by
  cases generic with
  | none => exact Token.behind_startsBlank hb before []
  | some g =>
    have htilde : ∀ before cs, Token.behind before [] (['~'] ++ cs) =
        Token.plain .tilde [] ['~'] :: Token.behind (some '~') [] cs := fun before cs =>
      Token.behind_lexeme (by decide) (by decide) (first_tilde before cs) (by decide) []
    have hhead : ∀ c ∈ (['~'] ++ b).head?, isWord c = false ∧ c ≠ '-' := by
      rintro c ⟨⟩
      decide
    rw [genericChars, Option.elim_some, List.append_assoc, List.append_assoc, htilde,
      behind_identifier (h g rfl) hhead, htilde, Token.behind_startsBlank hb]
    rfl

/-- The row of the line that opens a class `c`, with or without a brace behind it. -/
theorem ofLine_header {c : Definition} (h : c.Readable) {b : List Char} (hb : StartsBlank b)
    (gap : List Char) : Token.ofLine .classes gap (c.header.toList ++ b) =
      Token.plain .identifier gap "class".toList :: Token.plain .identifier [' '] c.name.toList ::
        (genericTokens c.generic ++ Token.ofLine .classes [] b) := by
  have hspace : ∀ cs, ∀ e ∈ ([' '] ++ cs : List Char).head?, isWord e = false ∧ e ≠ '-' := by
    rintro cs e ⟨⟩
    decide
  have hgeneric : ∀ e ∈ (genericChars c.generic ++ b).head?, isWord e = false ∧ e ≠ '-' := by
    cases c.generic with
    | none =>
      intro e he
      obtain rfl | rfl := Measure.eq_of_isSpaceOrTab (hb e he) <;> decide
    | some g =>
      rintro e ⟨⟩
      decide
  rw [toList_header h, Token.ofLine_classes, List.append_assoc, List.append_assoc,
    List.append_assoc, behind_identifier (by decide) (hspace _),
    Token.behind_blanks (by decide) (by decide), behind_identifier h.name hgeneric,
    behind_genericChars h.generic hb]
  rfl

/-- The row of a stereotype `a`, which is three tokens. -/
theorem ofLine_stereotype {a : String} (h : IsIdentifier a) (gap : List Char) :
    Token.ofLine .classes gap s!"<<{a}>>".toList = [Token.plain .stereotypeOpen gap ['<', '<'],
      Token.plain .identifier [] a.toList, Token.plain .stereotypeClose [] ['>', '>']] := by
  have hchars : s!"<<{a}>>".toList = ['<', '<'] ++ (a.toList ++ (['>', '>'] ++ [])) := by
    simp [toString]
  have hopen : ∀ b, Rule.first (Rule.ofDialect .classes none) (['<', '<'] ++ b) =
      (.stereotypeOpen, 2) := fun b => by
    simp [Rule.ofDialect, Rule.common, Rule.lineOriented, Rule.first, Measure.comment,
      Measure.quotedString, Measure.literal, Measure.classRelation, Measure.firstOf]
  have hclose : ∀ before, Rule.first (Rule.ofDialect .classes before) (['>', '>'] ++ []) =
      (.stereotypeClose, 2) := fun before => by
    simp [Rule.ofDialect, Rule.common, Rule.lineOriented, Rule.first, Measure.comment,
      Measure.quotedString, Measure.literal, Measure.classRelation, Measure.firstOf]
  have hhead : ∀ c ∈ (['>', '>'] ++ [] : List Char).head?, isWord c = false ∧ c ≠ '-' := by decide
  rw [hchars, Token.ofLine_classes,
    Token.behind_lexeme (by decide) (by decide) (hopen _) (by decide), behind_identifier h hhead,
    Token.behind_lexeme (by decide) (by decide) (hclose _) (by decide), Token.behind_nil]

/-! ### Members -/

/-- The pieces of a text `cs` without comments and closing braces are inner ones: they end no
statement and no body. -/
theorem isInner_next {c : Char} {cs : List Char} (hplain : Plain (c :: cs))
    (h : '%' ∉ c :: cs ∧ '}' ∉ c :: cs) (context : Piece.Context) :
    ∀ p ∈ Piece.next .classes context (c :: cs), p.IsInner [.rightBrace] := by
  -- a rule for a fixed text applies only if the text is there
  have hstart : ∀ s : List Char, Measure.literal s (c :: cs) ≠ 0 → s <+: c :: cs := by
    intro s hs
    by_contra hne
    exact hs (if_neg (mt List.isPrefixOf_iff_prefix.1 hne))
  have hrules : ∀ r ∈ Rule.ofDialect .classes context.before, r = (.comment, Measure.comment) ∨
      r = (.rightBrace, Measure.literal ['}']) ∨
        (r.1.endsStatement = false ∧ r.1 ≠ .comment ∧ r.1 ∉ [.rightBrace]) := by
    simp [Rule.ofDialect, Rule.common, Rule.lineOriented, TokenKind.endsStatement]
  have hfirst : ∀ x, Piece.IsInner [.rightBrace]
      (.lexeme (Rule.first (Rule.ofDialect .classes context.before) (c :: cs)).1 x) := by
    intro x
    rcases Rule.first_eq_or (Rule.ofDialect .classes context.before) (c :: cs) with
      ⟨hfirst, -⟩ | ⟨r, hr, h0, hfirst⟩
    · rw [hfirst]
      exact ⟨rfl, by decide, by decide⟩
    rw [hfirst]
    rcases hrules r hr with rfl | rfl | hkind
    · have hpercent := hstart _ (mt Measure.comment_eq_zero_iff.2 h0)
      exact absurd (hpercent.subset List.mem_cons_self) h.1
    · exact absurd ((hstart _ h0).subset List.mem_cons_self) h.2
    · exact hkind
  show ∀ p ∈ Piece.plain .classes context (c :: cs), _
  rw [Piece.plain]
  -- a run of blanks, or a lexeme with the text that a colon takes behind it
  split
  · have hchars : (c :: cs).take (Measure.run isSpaceOrTab (c :: cs)) =
        (c :: cs).takeWhile isSpaceOrTab := by
      rw [Measure.run, ← List.prefix_iff_eq_take.1 (List.takeWhile_prefix _)]
    rw [hchars]
    exact List.forall_mem_singleton.2 fun e he => List.all_eq_true.1 List.all_takeWhile e he
  · generalize Rule.first (Rule.ofDialect .classes context.before) (c :: cs) = r at hfirst
    obtain ⟨kind, n⟩ := r
    dsimp only
    refine List.forall_mem_cons.2 ⟨hfirst _, ?_⟩
    split
    · obtain ⟨b, text, b', hdrop, hb, hb', hpieces⟩ := Piece.exists_colonText ((c :: cs).drop n)
      have hgap : ∀ e ∈ (c :: cs).drop n, isBlank e = true → isSpaceOrTab e = true := fun e he =>
        hplain e (List.mem_of_mem_drop he)
      rw [hdrop] at hgap
      rw [hpieces]
      refine List.forall_mem_cons.2 ⟨fun e he => hgap e ?_ (hb e he),
        List.forall_mem_append.2 ⟨?_, List.forall_mem_singleton.2 fun e he => hgap e ?_ (hb' e he)⟩⟩
      · exact List.mem_append_left _ he
      · cases text with
        | nil => exact List.forall_mem_nil _
        | cons e text => exact List.forall_mem_singleton.2 ⟨rfl, by decide, by decide⟩
      · exact List.mem_append_right _ (List.mem_append_right _ he)
    · exact List.forall_mem_nil _

/-- The row of a member `m` is read over up to the end of its line, and its source is the member. -/
theorem ofLine_member {m : Member} (h : m.Readable) {gap : List Char}
    (hgap : ∀ c ∈ gap, isSpaceOrTab c = true) : ∃ t ts,
      Token.ofLine .classes gap m.text.toList = t :: ts ∧ t.kind ≠ .stereotypeOpen ∧
        (∀ u ∈ t :: ts, u.kind.endsStatement = false ∧ u.kind ≠ .comment ∧
          u.kind ∉ [.rightBrace]) ∧
          trim (Token.source (t :: ts)).toList = m.text.toList := by
  have hinner : ∀ p ∈ Piece.ofRest .classes {} m.text.toList, p.IsInner [.rightBrace] :=
    Piece.forall_ofRest
      (Q := fun cs => Plain cs ∧ '%' ∉ cs ∧ '}' ∉ cs)
      (fun x b hxb => ⟨(Plain.append.1 hxb.1).2, fun hmem => hxb.2.1 (List.mem_append_right x hmem),
        fun hmem => hxb.2.2 (List.mem_append_right x hmem)⟩)
      (fun context c cs hcs => isInner_next hcs.1 hcs.2 context) {}
      ⟨Member.plain_text h, Member.not_mem_text h⟩
  have hkinds := (Token.row_of_isInner hgap hinner).1
  have hsource := Token.trim_source_row hgap hinner (Piece.cut_ofRest _ _ _).1
    (Member.trimmed_text h.typeFirst)
  -- the first lexeme is a visibility, a type or a name
  obtain ⟨c, cs, hcs, hc⟩ := Member.head_text h
  have hblank : isBlank c = false := (Member.trimmed_text h.typeFirst).head c (by rw [hcs]; rfl)
  have hangle : c ≠ '<' := by
    rintro rfl
    exact absurd hc (by decide)
  obtain ⟨t, ts, hline, hkind⟩ :=
    Token.exists_behind (isSpaceOrTab_of_not_isBlank hblank) none gap cs
  rw [← hcs] at hline
  refine ⟨t, ts, hline, ?_, hline ▸ hkinds, hline ▸ hsource⟩
  have hrules : ∀ r ∈ Rule.ofDialect .classes none, r.1 = .stereotypeOpen →
      r.2 = Measure.literal ['<', '<'] := by
    simp [Rule.ofDialect, Rule.common, Rule.lineOriented]
  rw [hkind]
  intro hopen
  rcases Rule.first_eq_or (Rule.ofDialect .classes none) (c :: cs) with
    ⟨hfirst, -⟩ | ⟨r, hr, h0, hfirst⟩
  · rw [hfirst] at hopen
    cases hopen
  · rw [hfirst] at hopen
    rw [hrules r hr hopen] at h0
    exact h0 (Measure.literal_cons_of_ne hangle _ _)

/-! ### Relations -/

/-- The lexemes of a relation `r`, without its label: the two names, the operator, and the
cardinalities that there are. -/
def relationWords (r : Relation) : List (TokenKind × List Char) :=
  let quoted := fun s : String => (TokenKind.string, (doubleQuoted s).toList)
  [(.identifier, r.source.toList)] ++ (r.sourceCardinality.map quoted).toList ++
    [(.classRelation, r.kind.text.toList)] ++ (r.targetCardinality.map quoted).toList ++
      [(.identifier, r.target.toList)]

theorem isSpacedLexeme_relationWords {r : Relation} (h : r.Readable) :
    ∀ w ∈ relationWords r, Token.IsSpacedLexeme w.1 w.2 := by
  have hquoted : ∀ o : Option String, (∀ s ∈ o, IsCardinality s) →
      ∀ w ∈ (o.map fun s => (TokenKind.string, (doubleQuoted s).toList)).toList,
        Token.IsSpacedLexeme w.1 w.2 := by
    intro o ho
    cases o with
    | none => exact List.forall_mem_nil _
    | some s => exact List.forall_mem_singleton.2 (isSpacedLexeme_doubleQuoted (ho s rfl))
  rw [relationWords]
  refine List.forall_mem_append.2 ⟨List.forall_mem_append.2 ⟨List.forall_mem_append.2
    ⟨List.forall_mem_append.2 ⟨?_, hquoted _ h.sourceCardinality⟩, ?_⟩,
      hquoted _ h.targetCardinality⟩, ?_⟩
  · exact List.forall_mem_singleton.2 (isSpacedLexeme_identifier h.source)
  · exact List.forall_mem_singleton.2 (isSpacedLexeme_kind r.kind)
  · exact List.forall_mem_singleton.2 (isSpacedLexeme_identifier h.target)

theorem toList_relation {r : Relation} (h : r.Readable) :
    r.text.toList = Token.spacedChars (relationWords r) ++ Token.labelChars r.label := by
  have hfilter : r.label.filter (!·.isEmpty) = r.label := by
    cases hl : r.label with
    | none => rfl
    | some l =>
      have hne := (h.label l hl).ne_nil
      simpa using hne
  obtain ⟨source, target, kind, sourceCardinality, targetCardinality, label, position⟩ := r
  rw [Relation.text, hfilter]
  cases label <;> cases sourceCardinality <;> cases targetCardinality <;>
    simp [relationWords, Token.spacedChars, Token.labelChars, toString, List.intercalate]

theorem behind_labelChars {label : Option String} (h : ∀ l ∈ label, IsLabel l) :
    Token.behind none [] (Token.labelChars label) = Token.labelTokens label := by
  cases label with
  | none => exact Token.behind_nil _ _
  | some l =>
    obtain ⟨hne, -, htrim⟩ := h l rfl
    have hafter : Token.afterColon ([' '] ++ l.toList) = [Token.plain .text [' '] l.toList] :=
      Token.afterColon_append (by decide) (.of_trim_eq htrim) hne
    show Token.behind none [] ([' '] ++ ':' :: ([' '] ++ l.toList)) = _
    rw [Token.behind_blanks (by decide) (by decide), Token.behind_colon, hafter]
    rfl

/-- The row of a relation: its `relationWords` and then its label. -/
theorem ofLine_relation {r : Relation} (h : r.Readable) (gap : List Char) :
    Token.ofLine .classes gap r.text.toList =
      Token.spaced gap (relationWords r) ++ Token.labelTokens r.label := by
  rw [toList_relation h, Token.ofLine_classes,
    Token.behind_spaced (by simp [relationWords]) (isSpacedLexeme_relationWords h)
      (Token.startsBlank_labelChars _),
    behind_labelChars h.label]

end Classes
end DiagramText
