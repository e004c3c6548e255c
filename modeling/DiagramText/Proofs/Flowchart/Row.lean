import DiagramText.Flowchart.Writer
import DiagramText.Proofs.Token.Flow
import DiagramText.Proofs.Token.Name

/-!
# Rows of the lines of flowcharts

What the lines of clauses and subgraphs are as tokens. A label without quotes holds none of the
characters that delimiters are made of, and one in quotes is skipped up to its second double quote,
so either ends where the delimiter that was written behind it starts, unless such a delimiter stands
behind a double quote of its own.

* `Flowchart.Clause.Readable` and `Flowchart.Subgraph.Readable`: the names, labels and styles can
  stand in a document.
* `Flowchart.Survives`: a label that is found again between delimiters. Lines of which the labels
  do are `Flowchart.Clause.Legible` and `Flowchart.Subgraph.Legible`.
* `Flowchart.flow_node`, `Flowchart.flow_edge`, `Flowchart.flow_clause` and
  `Flowchart.flow_subgraph`: the rows of the lines.
-/

namespace DiagramText

open Text

namespace Flowchart

/-! ### Parts that can stand in a document -/

/-- A name `id`: words joined by single hyphens, other than those that open and close a subgraph. -/
def IsName (id : String) : Prop := isSafeId id = true ∧ lower id ∉ ["subgraph", "end"]

/-- A text `s` of one line without double quotes that does not end with a blank. -/
def IsLabel (s : String) : Prop :=
  s ≠ "" ∧ '"' ∉ s.toList ∧ Plain s.toList ∧ ∀ c ∈ s.toList.getLast?, isBlank c = false

/-- The label `l` that such a text means. No label is written from anything but its raw text. -/
def IsContent (l : Content) : Prop := IsLabel l.raw ∧ Content.ofText? l.raw = some l

/-- A trimmed text `s` of one statement: no bar, semicolon or comment in it, so the rest of a line
is all of it. -/
def IsStyles (s : String) : Prop :=
  Plain s.toList ∧ trim s.toList = s.toList ∧ '|' ∉ s.toList ∧ ';' ∉ s.toList ∧
    ¬['%', '%'] <:+: s.toList

/-- A clause of which all parts can stand in a document. -/
def Clause.Readable : Clause → Prop
  | .node n _ => IsName n.id ∧ ∀ l ∈ n.label, IsContent l
  | .edge e => IsName e.source ∧ IsName e.target ∧ ∀ l ∈ e.label, IsContent l
  | .classDef name styles => IsName name ∧ IsStyles styles
  | .classes ids name => ids ≠ [] ∧ (∀ id ∈ ids, IsName id) ∧ IsName name
  | .style id styles => IsName id ∧ IsStyles styles

/-- A subgraph `s` of which all parts can stand in a document, without its statements. Its id may be
any text of one line if it has no label. -/
def Subgraph.Readable (s : Subgraph) : Prop :=
  '"' ∉ s.id.toList ∧ Plain s.id.toList ∧ (s.label ≠ none → isSafeId s.id = true) ∧
    ∀ l ∈ s.label, IsLabel l

/-- A statement of which all parts can stand in a document, without the statements it holds. -/
def Statement.Readable : Statement → Prop
  | .clause c => c.Readable
  | .subgraph head _ => head.Readable

section Decidable

instance (id : String) : Decidable (IsName id) := inferInstanceAs (Decidable (_ ∧ _))

instance (s : String) : Decidable (IsLabel s) := inferInstanceAs (Decidable (_ ∧ _ ∧ _ ∧ _))

instance (l : Content) : Decidable (IsContent l) := inferInstanceAs (Decidable (_ ∧ _))

instance (s : String) : Decidable (IsStyles s) :=
  inferInstanceAs (Decidable (_ ∧ _ ∧ _ ∧ _ ∧ _))

instance : (c : Clause) → Decidable c.Readable
  | .node _ _ => inferInstanceAs (Decidable (_ ∧ _))
  | .edge _ => inferInstanceAs (Decidable (_ ∧ _ ∧ _))
  | .classDef _ _ => inferInstanceAs (Decidable (_ ∧ _))
  | .classes _ _ => inferInstanceAs (Decidable (_ ∧ _ ∧ _))
  | .style _ _ => inferInstanceAs (Decidable (_ ∧ _))

instance (s : Subgraph) : Decidable s.Readable := inferInstanceAs (Decidable (_ ∧ _ ∧ _ ∧ _))

instance : (s : Statement) → Decidable s.Readable
  | .clause c => inferInstanceAs (Decidable c.Readable)
  | .subgraph head _ => inferInstanceAs (Decidable head.Readable)

end Decidable

/-! ### Labels that are found again -/

/-- The delimiters that may close a shape, given the one that opened it. The slanted ones come in
pairs. -/
def closersOf : Shape → List (List Char)
  | .parallelogram | .trapezoid => [['/', ']'], ['\\', ']']]
  | .parallelogramAlt | .trapezoidAlt => [['\\', ']'], ['/', ']']]
  | s => [(delimiters s).2.toList]

/-- A label `s` that is found again between delimiters: none that may close it stands behind its
first double quote, and it does not end with a space if it is written without quotes. -/
structure Survives (closers : List (List Char)) (s : String) : Prop where
  ne_empty : s ≠ ""
  closer : ∀ u v, s.toList = u ++ '"' :: v → '"' ∉ u → ∀ k ∈ closers, ¬k <:+: v
  space : isSafeLabel s.toList = true → ∀ c ∈ s.toList.getLast?, c ≠ ' '

/-- A label `l` that is found again and means what it did, since its raw text is its only source. -/
def SurvivesAs (closers : List (List Char)) (l : Content) : Prop :=
  Survives closers l.raw ∧ Content.ofText? l.raw = some l

theorem IsLabel.survives {s : String} (h : IsLabel s) (closers : List (List Char)) :
    Survives closers s where
  ne_empty := h.1
  closer u v hs := absurd (hs ▸ List.mem_append_right _ List.mem_cons_self) h.2.1
  space _ c hc := by
    rintro rfl
    exact absurd (h.2.2.2 _ hc) (by decide)

/-- A clause of which the labels are found again in its line. This is weaker than `Clause.Readable`,
and all that its tokens depend on. -/
def Clause.Legible : Clause → Prop
  | .node n _ => IsName n.id ∧ ∀ l ∈ n.label, SurvivesAs (closersOf n.shape) l
  | .edge e => IsName e.source ∧ IsName e.target ∧ ∀ l ∈ e.label, SurvivesAs [['|']] l
  | c => c.Readable

/-- A subgraph `s` of which the label is found again in its line. Its id is written in quotes if it
is no name. -/
def Subgraph.Legible (s : Subgraph) : Prop :=
  '"' ∉ s.id.toList ∧ (s.label ≠ none → isSafeId s.id = true) ∧
    ∀ l ∈ s.label, Survives [[']']] l

theorem Clause.Readable.legible {c : Clause} (h : c.Readable) : c.Legible := by
  match c with
  | .node n _ => exact ⟨h.1, fun l hl => ⟨(h.2 l hl).1.survives _, (h.2 l hl).2⟩⟩
  | .edge e => exact ⟨h.1, h.2.1, fun l hl => ⟨(h.2.2 l hl).1.survives _, (h.2.2 l hl).2⟩⟩
  | .classDef _ _ => exact h
  | .classes _ _ => exact h
  | .style _ _ => exact h

theorem Subgraph.Readable.legible {s : Subgraph} (h : s.Readable) : s.Legible :=
  ⟨h.1, h.2.2.1, fun l hl => (h.2.2.2 l hl).survives _⟩

/-! ### Lexemes -/

/-- The rules of the dialect, which do not look at the character before a lexeme. -/
abbrev rules : List Rule := Rule.ofDialect .flowchart none

/-- No edge starts with a word character `c`, so no name is cut off by one. -/
theorem edge_eq_zero {c : Char} (hc : isAsciiWord c = true) (cs : List Char) :
    Measure.edge (c :: cs) = 0 := by
  have hne : ∀ e : Char, isAsciiWord e = false → c ≠ e := by
    rintro e he rfl
    rw [he] at hc
    cases hc
  have hrun : ∀ e : Char, isAsciiWord e = false → Measure.run (· == e) (c :: cs) = 0 := by
    intro e he
    simp [Measure.run, hne e he]
  have hbody : Measure.edgeBody (c :: cs) = 0 := by
    rw [Measure.edgeBody.eq_2 _ (by rintro _ ⟨⟩; exact hne '-' (by decide) rfl)]
    simp [Measure.firstOf, Measure.atLeast, hrun '-' (by decide), hrun '=' (by decide),
      hrun '~' (by decide)]
  rw [Measure.edge.eq_2 _ (by rintro _ ⟨⟩; exact hne '<' (by decide) rfl), Measure.edgeFromBody,
    hbody]
  rfl

/-- A name ends before a character that goes on with no word, be it the first of `b` or the end. -/
theorem first_name {id : String} (h : isSafeId id = true) {b : List Char}
    (hb : ∀ c ∈ b.head?, isAsciiWord c = false ∧ c ≠ '-') :
    Rule.first rules (id.toList ++ b) = (.identifier, id.toList.length) := by
  have hedge : ∀ c cs, isAsciiWord c = true →
      ∀ r ∈ ([(.edge, Measure.edge)] : List Rule), r.2 (c :: cs) = 0 := fun c cs hc =>
    List.forall_mem_singleton.2 (edge_eq_zero hc cs)
  exact Rule.first_hyphenated h hb hedge Rule.punctuation

/-- The spelling of an edge `kind` ends before a space or a bar, although some spellings start
others. -/
theorem first_edge (kind : EdgeKind) {c : Char} (hc : c = ' ' ∨ c = '|') (b : List Char) :
    Rule.first rules (kind.text.toList ++ c :: b) = (.edge, kind.text.toList.length) := by
  rcases hc with rfl | rfl <;> cases kind <;>
    simp [EdgeKind.text, rules, Rule.ofDialect, Rule.common, Rule.first, Measure.comment,
      Measure.quotedString, Measure.literal, Measure.edge, Measure.edgeFromBody, Measure.edgeBody,
      Measure.firstOf, Measure.atLeast, Measure.run, Measure.edgeTail, Measure.startsWord, isWord,
      isAsciiWord]

theorem first_comma (b : List Char) : Rule.first rules ([','] ++ b) = (.comma, 1) := by
  simp [rules, Rule.ofDialect, Rule.common, Rule.punctuation, Rule.first, Measure.comment,
    Measure.quotedString, Measure.literal, Measure.edge, Measure.edgeFromBody, Measure.edgeBody,
    Measure.firstOf, Measure.atLeast, Measure.run, Measure.hyphenated, isAsciiWord]

/-! ### Labels -/

theorem toList_doubleQuoted (s : String) : (doubleQuoted s).toList = '"' :: s.toList ++ ['"'] := by
  simp [doubleQuoted, toString]

/-- A text `s` that is written without quotes starts with no blank. Of the characters that it holds
none is part of a delimiter, and none but the space is a blank. -/
theorem isSafeLabel_spec {s : String} (h : isSafeLabel s.toList = true) :
    (∃ c cs, s.toList = c :: cs ∧ isBlank c = false) ∧
      ∀ e ∈ s.toList, e ∉ Piece.delimiterChars ∧ (isBlank e = true → e = ' ') := by
  cases hs : s.toList with
  | nil =>
    rw [hs] at h
    cases h
  | cons c cs =>
    rw [hs, isSafeLabel, Bool.and_eq_true, List.all_eq_true] at h
    obtain ⟨hc, hcs⟩ := h
    -- The characters that need no quotes are those of words and some punctuation marks, and of
    -- these only the space is blank.
    have hword : ∀ e, isWord e = true → isBlank e = false := by
      intro e he
      by_contra hblank
      rw [Measure.isWord_of_isBlank (by simpa using hblank)] at he
      cases he
    have hsafe : ∀ e ∈ c :: cs, isWord e = true ∨ isSafePunctuation e = true :=
      List.forall_mem_cons.2 ⟨.inl hc, fun e he => Bool.or_eq_true_iff.1 (hcs e he)⟩
    refine ⟨⟨c, cs, rfl, hword c hc⟩, fun e he => ⟨fun hmem => ?_, fun hblank => ?_⟩⟩
    · have hquoted := (by decide : ∀ e ∈ Piece.delimiterChars,
        isWord e = false ∧ isSafePunctuation e = false) e hmem
      rcases hsafe e he with h | h
      · rw [hquoted.1] at h
        cases h
      · rw [hquoted.2] at h
        cases h
    · rcases hsafe e he with h | h
      · rw [hword e h] at hblank
        cases hblank
      · rw [isSafePunctuation, List.contains_iff_mem] at h
        exact (by decide : ∀ e ∈ [' ', '.', ',', ';', ':', '!', '?', '\'', '&', '+', '*', '#', '@',
          '$', '%', '=', '-'], isBlank e = true → e = ' ') e h hblank

/-- A label `s` that is written starts with no delimiter: its first character is a quote or that of
a word. -/
theorem exists_labelText (s : String) :
    ∃ e cs, (labelText s).toList = e :: cs ∧ e ∉ ['(', '[', '{', '/', '\\'] := by
  by_cases hsafe : isSafeLabel s.toList = true
  · obtain ⟨⟨c, cs, hcs, -⟩, hall⟩ := isSafeLabel_spec hsafe
    refine ⟨c, cs, by rw [labelText, if_pos hsafe, hcs], fun hmem => ?_⟩
    have hc := (hall c (hcs ▸ List.mem_cons_self)).1
    exact hc ((by decide : ['(', '[', '{', '/', '\\'] ⊆ Piece.delimiterChars) hmem)
  · refine ⟨'"', s.toList ++ ['"'], ?_, by decide⟩
    rw [labelText, if_neg hsafe, toList_doubleQuoted]
    rfl

theorem labelText_ne_nil (s : String) : (labelText s).toList ≠ [] := by
  obtain ⟨e, cs, hcs, -⟩ := exists_labelText s
  rw [hcs]
  exact List.cons_ne_nil e cs

/-- A label `s` as it is written ends at the first delimiter behind it, if it survives. -/
theorem Survives.isLabel {closers : List (List Char)} {s : String} (h : Survives closers s) :
    Piece.IsLabel closers (labelText s).toList := by
  unfold labelText
  split
  · next hsafe =>
    obtain ⟨⟨c, cs, hs, hc⟩, hall⟩ := isSafeLabel_spec hsafe
    refine .bare ?_ fun e he => (hall e he).1
    rw [hs]
    rintro e ⟨⟩
    exact isSpaceOrTab_of_not_isBlank hc
  · rw [toList_doubleQuoted]
    exact .quoted h.closer

/-- The quotes around a text `s` are taken off again, and no blank of the text with them. -/
theorem innerText_doubleQuoted (s : String) : innerText (doubleQuoted s) = s := by
  have htrim : Trimmed (doubleQuoted s).toList := by
    rw [toList_doubleQuoted]
    constructor
    · rintro e ⟨⟩
      decide
    · rw [List.getLast?_concat]
      rintro e ⟨⟩
      decide
  rw [innerText, htrim.trim_eq, String.ofList_toList, unquote_doubleQuoted]

/-- The text `s` of a label as it is written is the label, if it survives. -/
theorem Survives.innerText_labelText {closers : List (List Char)} {s : String}
    (h : Survives closers s) : innerText (labelText s) = s := by
  unfold labelText
  split
  · next hsafe =>
    obtain ⟨⟨c, cs, hs, hc⟩, hall⟩ := isSafeLabel_spec hsafe
    have htrim : Trimmed s.toList := by
      refine ⟨?_, fun e he => ?_⟩
      · rw [hs]
        rintro e ⟨⟩
        exact hc
      · have hspace := h.space hsafe e he
        by_contra hblank
        exact hspace ((hall e (List.mem_of_getLast? he)).2 (by simpa using hblank))
    have hquote : c ≠ '"' := by
      rintro rfl
      exact (hall '"' (hs ▸ List.mem_cons_self)).1 (by decide)
    rw [innerText, htrim.trim_eq, String.ofList_toList, unquote, hs]
    split
    · next heq => exact absurd (List.cons.inj heq).1 hquote
    · rfl
  · exact innerText_doubleQuoted s

/-! ### Shapes -/

theorem areClosers_closersOf (s : Shape) : Piece.AreClosers (closersOf s) := by
  cases s <;> decide

/-- The delimiters that are tried before the one of a shape `s`, in the order of the table. -/
def triedBefore (s : Shape) : List (List Char × List (List Char)) :=
  Piece.shapeDelimiters.takeWhile fun p => p.1 != (delimiters s).1.toList

theorem exists_shapeDelimiters (s : Shape) : ∃ after, Piece.shapeDelimiters =
    triedBefore s ++ ((delimiters s).1.toList, closersOf s) :: after := by
  refine ⟨(Piece.shapeDelimiters.dropWhile fun p => p.1 != (delimiters s).1.toList).tail, ?_⟩
  cases s <;> rfl

/-- The delimiter that opens a shape `s` is the first that stands there: the longer ones come first,
and what stands behind it makes none of them. -/
theorem shape?_of_shapeWith (s : Shape) {e : Char} {inner : List Char} {ps : List Piece}
    (he : e ∉ ['(', '[', '{']) (hslash : s = .rectangle → e ∉ ['/', '\\'])
    (h : Piece.shapeWith ((delimiters s).1.toList ++ e :: inner) (delimiters s).1.toList
      (closersOf s) = some ps) :
    Piece.shape? ((delimiters s).1.toList ++ e :: inner) = some ps := by
  have hskip : ∀ p ∈ triedBefore s,
      p.1.isPrefixOf ((delimiters s).1.toList ++ e :: inner) = false := by
    simp only [List.mem_cons, List.not_mem_nil, or_false, not_or, eq_comm (a := e)] at he hslash
    obtain ⟨h1, h2, h3⟩ := he
    cases s <;> simp_all [triedBefore, Piece.shapeDelimiters, delimiters, List.isPrefixOf_cons_cons]
  obtain ⟨after, hafter⟩ := exists_shapeDelimiters s
  have hnone : (triedBefore s).findSome? (fun p =>
      Piece.shapeWith ((delimiters s).1.toList ++ e :: inner) p.1 p.2) = none := by
    rw [List.findSome?_eq_none_iff]
    intro p hp
    rw [Piece.shapeWith, hskip p hp, if_neg Bool.false_ne_true]
  rw [Piece.shape?, hafter, List.findSome?_append, hnone, Option.none_or, List.findSome?_cons]
  simp only [h]

/-- The row of a shape `s` behind an identifier, whichever delimiter closes it first. What stands
behind the delimiter that opens it must not make another one of it. -/
theorem flow_shape_first (s : Shape) {label closer b inner : List Char} {e : Char}
    (h : Piece.labelBefore (closersOf s) (label ++ (closer ++ b)) =
      some (label.length, closer.length))
    (hinner : label ++ (closer ++ b) = e :: inner) (he : e ∉ ['(', '[', '{'])
    (hslash : s = .rectangle → e ∉ ['/', '\\']) (gap : List Char) :
    Token.flow true gap ((delimiters s).1.toList ++ (label ++ (closer ++ b))) =
      Token.plain .shapeOpen gap (delimiters s).1.toList ::
        ((if label = [] then [] else [Token.plain .label [] label]) ++
          Token.plain .shapeClose [] closer :: Token.flow false [] b) := by
  have hopener : (delimiters s).1.toList ≠ [] ∧ (delimiters s).1.toList.head? ≠ some '|' := by
    cases s <;> decide
  refine Token.flow_shape (fun ps hps => ?_) h hopener.1 hopener.2 gap
  rw [hinner] at hps ⊢
  exact shape?_of_shapeWith s he hslash hps

/-- The tokens of a shape `s`, its label left out if that is empty, as empty lexemes make no
tokens. -/
def shapeTokens (s : Shape) (label : List Char) : List Token :=
  Token.plain .shapeOpen [] (delimiters s).1.toList ::
    ((if label = [] then [] else [Token.plain .label [] label]) ++
      [Token.plain .shapeClose [] (delimiters s).2.toList])

/-- The delimiter of a shape `s` closes it if it is the first that stands there, even where it could
be closed by two. -/
theorem find?_closersOf (s : Shape) (b : List Char) :
    (closersOf s).find? (·.isPrefixOf ((delimiters s).2.toList ++ b)) =
      some (delimiters s).2.toList := by
  cases s <;> rfl

/-- The row of a shape `s` behind an identifier. Only a rectangle needs a label: without one its
brackets would be those of another shape. -/
theorem flow_shaped (s : Shape) {label : List Char} (h : Piece.IsLabel (closersOf s) label)
    (hne : s = .rectangle → label ≠ []) :
    Token.flow true [] ((delimiters s).1.toList ++ (label ++ (delimiters s).2.toList)) =
      shapeTokens s label := by
  have hcloser : (delimiters s).2.toList ∈ closersOf s ∧
      ∀ c ∈ (delimiters s).2.toList.head?, c ∉ ['(', '[', '{'] := by
    -- The label in quotes starts with one, a bare label with a safe character, and an empty one
    -- leaves the closing delimiter right behind the opening one.
    cases s <;> decide
  have hclosers := areClosers_closersOf s
  obtain ⟨e, inner, hinner, he, hslash⟩ : ∃ e inner,
      label ++ ((delimiters s).2.toList ++ []) = e :: inner ∧ e ∉ ['(', '[', '{'] ∧
        (s = .rectangle → e ∉ ['/', '\\']) := by
    cases h with
    | quoted => exact ⟨'"', _, rfl, by decide, fun _ => by decide⟩
    | bare hhead hall =>
      cases label with
      | nil =>
        obtain ⟨e, inner, hinner⟩ := List.exists_cons_of_ne_nil (hclosers _ hcloser.1).1
        exact ⟨e, inner, by rw [List.nil_append, List.append_nil, hinner],
          hcloser.2 e (by rw [hinner]; rfl), fun hs => absurd rfl (hne hs)⟩
      | cons c label =>
        have hc := hall c List.mem_cons_self
        refine ⟨c, _, rfl, fun hmem => hc ?_, fun _ hmem => hc ?_⟩
        · revert hmem
          exact (by decide : ['(', '[', '{'] ⊆ Piece.delimiterChars) (a := c)
        · revert hmem
          exact (by decide : ['/', '\\'] ⊆ Piece.delimiterChars) (a := c)
  have hbefore := Piece.labelBefore_append hclosers hcloser.1 (find?_closersOf s []) h
  have hrow := flow_shape_first s hbefore hinner he hslash []
  rw [List.append_nil, Token.flow_nil] at hrow
  exact hrow

/-! ### Names -/

/-- A name is the first token of the rest of a line, behind the blanks `gap`. -/
theorem flow_name {id : String} (h : isSafeId id = true) {b : List Char}
    (hb : ∀ c ∈ b.head?, isAsciiWord c = false ∧ c ≠ '-') (named : Bool) (gap : List Char) :
    Token.flow named gap (id.toList ++ b) =
      Token.plain .identifier gap id.toList :: Token.flow true [] b := by
  obtain ⟨c, cs, hcs, hc, -⟩ := IsHyphenated.exists_cons h
  refine Token.flow_lexeme (by rw [hcs]; exact List.cons_ne_nil _ _) ?_ (first_name h hb) gap
  rw [hcs]
  rintro e ⟨⟩
  exact ⟨isSpaceOrTab_of_not_isBlank (isBlank_of_isAsciiWord hc),
    Piece.startsLabel_of_isAsciiWord hc named⟩

/-- A space behind a name `id` belongs to the next token, as what is skipped before it. -/
theorem flow_name_space {id : String} (h : isSafeId id = true) (named : Bool)
    (gap b : List Char) : Token.flow named gap (id.toList ++ ' ' :: b) =
      Token.plain .identifier gap id.toList :: Token.flow true [' '] b := by
  have hspace : ∀ c ∈ (' ' :: b).head?, isAsciiWord c = false ∧ c ≠ '-' := by
    rintro c ⟨⟩
    decide
  have hblank := Token.flow_blanks (b := [' ']) (by decide) true [] b
  rw [flow_name h hspace]
  exact congrArg _ hblank

theorem flow_name_end {id : String} (h : isSafeId id = true) (named : Bool) (gap : List Char) :
    Token.flow named gap id.toList = [Token.plain .identifier gap id.toList] := by
  have hline := flow_name h (b := []) (fun _ h => nomatch h) named gap
  rwa [List.append_nil, Token.flow_nil] at hline

/-- The row of names `ids` apart by commas, up to the space behind them. -/
theorem flow_names {ids : List String} (hne : ids ≠ []) (h : ∀ id ∈ ids, isSafeId id = true)
    (named : Bool) (gap b : List Char) :
    Token.flow named gap ((",".intercalate ids).toList ++ ' ' :: b) =
      Token.names gap ids ++ Token.flow true [' '] b := by
  have hblank := Token.flow_blanks (b := [' ']) (by decide) true [] b
  rw [List.nil_append, List.singleton_append] at hblank
  rw [← hblank]
  refine Token.row_names Token.flow hne (fun id hid named gap cs hcs => ?_) (fun cs => ?_) named gap
  · refine flow_name (h id hid) ?_ named gap
    obtain rfl | hcs := hcs
    · rintro c ⟨⟩
      decide
    · rw [hcs]
      rintro c ⟨⟩
      decide
  · exact Token.flow_lexeme (by decide) (by decide) (first_comma cs) []

/-! ### Nodes and edges -/

/-- The characters of a `label` that may be missing, which are none then. -/
def labelChars (label : Option Content) : List Char :=
  label.elim [] fun l => (labelText l.raw).toList

theorem isLabel_labelChars {closers : List (List Char)} {label : Option Content}
    (h : ∀ l ∈ label, SurvivesAs closers l) : Piece.IsLabel closers (labelChars label) := by
  cases label with
  | none => exact .bare nofun nofun
  | some l => exact (h l rfl).1.isLabel

theorem plain_labelText {s : String} (h : Plain s.toList) : Plain (labelText s).toList := by
  have hquote : Plain ['"'] := by simp [Plain, isBlank]
  unfold labelText
  split
  · exact h
  · rw [toList_doubleQuoted]
    exact Plain.append.2 ⟨Plain.append.2 ⟨hquote, h⟩, hquote⟩

/-- Whether a node `n` is written without a shape: it has no label, and the shape that an id alone
means. -/
def Node.isBare (n : Node) : Bool := n.label.isNone && n.shape = .rectangle

/-- The tokens of a declaration of a node `n`: its id, and behind it its shape. -/
def Node.tokens (gap : List Char) (n : Node) : List Token :=
  Token.plain .identifier gap n.id.toList ::
    if n.isBare then [] else shapeTokens n.shape (labelChars n.label)

theorem Node.toList_text (n : Node) : n.text.toList = n.id.toList ++ if n.isBare then [] else
    (delimiters n.shape).1.toList ++ (labelChars n.label ++ (delimiters n.shape).2.toList) := by
  obtain ⟨id, label, shape⟩ := n
  unfold Node.text Node.isBare
  cases label with
  | none =>
    simp only [Option.isNone_none, Bool.true_and, labelChars]
    split <;> simp [toString]
  | some l => simp [labelChars, toString]

/-- A name ends before the delimiter that opens a shape `s`, as no such delimiter starts with a word
character. -/
theorem head_opener (s : Shape) (b : List Char) :
    ∀ c ∈ ((delimiters s).1.toList ++ b).head?, isAsciiWord c = false ∧ c ≠ '-' := by
  cases s <;> rintro c ⟨⟩ <;> decide

/-- The row of a declaration of a node `n` of which the label is found again. -/
theorem flow_node {n : Node} (hid : isSafeId n.id = true)
    (hlabel : ∀ l ∈ n.label, SurvivesAs (closersOf n.shape) l) (gap : List Char) :
    Token.flow false gap n.text.toList = n.tokens gap := by
  rw [n.toList_text, Node.tokens]
  cases hbare : n.isBare with
  | true =>
    simp only [if_true, List.append_nil]
    exact flow_name_end hid false gap
  | false =>
    have hne : n.shape = .rectangle → labelChars n.label ≠ [] := by
      intro hshape
      cases hl : n.label with
      | none => simp [Node.isBare, hl, hshape] at hbare
      | some l => exact labelText_ne_nil l.raw
    simp only [Bool.false_eq_true, if_false]
    rw [flow_name hid (head_opener n.shape _), flow_shaped n.shape (isLabel_labelChars hlabel) hne]

/-- The tokens of an edge `e`. The bars around its label are skipped, so they belong to what comes
behind them. -/
def Edge.tokens (gap : List Char) (e : Edge) : List Token :=
  Token.plain .identifier gap e.source.toList :: Token.plain .edge [' '] e.kind.text.toList ::
    match e.label with
    | none => [Token.plain .identifier [' '] e.target.toList]
    | some l => [Token.plain .edgeLabel ['|'] (labelText l.raw).toList,
        Token.plain .identifier ['|', ' '] e.target.toList]

theorem Edge.toList_text (e : Edge) : e.text.toList = e.source.toList ++ ' ' ::
    (e.kind.text.toList ++
    match e.label with
    | none => ' ' :: e.target.toList
    | some l => '|' :: ((labelText l.raw).toList ++ '|' :: (' ' :: e.target.toList))) := by
  obtain ⟨source, target, kind, label, position⟩ := e
  cases label <;> simp [Edge.text, toString]

/-- The spelling of an edge `kind` is a token, which ends before a space or a bar. -/
theorem flow_edgeKind (kind : EdgeKind) {c : Char} (hc : c = ' ' ∨ c = '|') (b : List Char) :
    Token.flow true [' '] (kind.text.toList ++ c :: b) =
      Token.plain .edge [' '] kind.text.toList :: Token.flow false [] (c :: b) := by
  have hkind : kind.text.toList ≠ [] ∧ ∀ c ∈ kind.text.toList.head?,
      isSpaceOrTab c = false ∧ Piece.startsLabel true c = false := by
    cases kind <;> decide
  exact Token.flow_lexeme hkind.1 hkind.2 (first_edge kind hc b) [' ']

/-- The row of an edge `e` of which the label is found again. -/
theorem flow_edge {e : Edge} (h : (Clause.edge e).Legible) (gap : List Char) :
    Token.flow false gap e.text.toList = e.tokens gap := by
  obtain ⟨hsource, htarget, hlabel⟩ := h
  have hend : ∀ gap, Token.flow false gap (' ' :: e.target.toList) =
      [Token.plain .identifier (gap ++ [' ']) e.target.toList] := by
    intro gap
    have hblank := Token.flow_blanks (b := [' ']) (by decide) false gap e.target.toList
    rw [List.singleton_append] at hblank
    rw [hblank, flow_name_end htarget.1]
  rw [e.toList_text, flow_name_space hsource.1, Edge.tokens]
  cases hl : e.label with
  | none =>
    dsimp only
    rw [flow_edgeKind e.kind (.inl rfl), hend]
    rfl
  | some l =>
    have hbefore := Piece.labelBefore_append (b := ' ' :: e.target.toList)
      (by decide : Piece.AreClosers [['|']]) List.mem_cons_self rfl (hlabel l hl).1.isLabel
    rw [List.singleton_append] at hbefore
    dsimp only
    rw [flow_edgeKind e.kind (.inr rfl), Token.flow_edgeLabel hbefore, hend]
    rfl

/-! ### Clauses -/

theorem IsStyles.isStyle {s : String} (h : IsStyles s) : IsStyle s.toList where
  bar := h.2.2.1
  semicolon := h.2.2.2.1
  comment := h.2.2.2.2

/-- The tokens of a clause, `gap` being skipped before the first. -/
def Clause.tokens (gap : List Char) : Clause → List Token
  | .node n _ => n.tokens gap
  | .edge e => e.tokens gap
  | .classDef name styles => Token.plain .identifier gap "classDef".toList ::
      Token.plain .identifier [' '] name.toList :: Token.flow true [' '] styles.toList
  | .classes ids name => Token.plain .identifier gap "class".toList ::
      (Token.names [' '] ids ++ [Token.plain .identifier [' '] name.toList])
  | .style id styles => Token.plain .identifier gap "style".toList ::
      Token.plain .identifier [' '] id.toList :: Token.flow true [' '] styles.toList

theorem toList_classDef (name styles : String) : (Clause.classDef name styles).text.toList =
    "classDef".toList ++ ' ' :: (name.toList ++ ' ' :: styles.toList) := by
  simp [Clause.text, toString]

theorem toList_classes (ids : List String) (name : String) :
    (Clause.classes ids name).text.toList =
      "class".toList ++ ' ' :: ((",".intercalate ids).toList ++ ' ' :: name.toList) := by
  simp [Clause.text, toString]

theorem toList_style (id styles : String) : (Clause.style id styles).text.toList =
    "style".toList ++ ' ' :: (id.toList ++ ' ' :: styles.toList) := by
  simp [Clause.text, toString]

/-- The row of a clause `c` of which the labels are found again. -/
theorem flow_clause {c : Clause} (h : c.Legible) (gap : List Char) :
    Token.flow false gap c.text.toList = c.tokens gap := by
  match c with
  | .node n _ => exact flow_node h.1.1 h.2 gap
  | .edge e => exact flow_edge h gap
  | .classDef name styles =>
    rw [toList_classDef, flow_name_space (by decide), flow_name_space h.1.1]
    rfl
  | .classes ids name =>
    rw [toList_classes, flow_name_space (by decide),
      flow_names h.1 fun id hid => (h.2.1 id hid).1, flow_name_end h.2.2.1]
    rfl
  | .style id styles =>
    rw [toList_style, flow_name_space (by decide), flow_name_space h.1.1]
    rfl

theorem kind_shapeTokens (s : Shape) (label : List Char) :
    ∀ t ∈ shapeTokens s label, t.kind ≠ .comment := by
  unfold shapeTokens
  split <;> simp [Token.plain]

/-- No token of a clause `c` is a comment, even if two percent signs stand in a label. -/
theorem Clause.kind_ne_comment {c : Clause} (h : c.Legible) (gap : List Char) :
    ∀ t ∈ c.tokens gap, t.kind ≠ .comment := by
  -- Only styles are scanned as they stand; the other tokens of a clause are made with their kinds.
  have hstyles : ∀ s, IsStyles s → ∀ t ∈ Token.flow true [' '] s.toList, t.kind ≠ .comment :=
    fun s hs t ht => (Token.kind_flow true (by decide) hs.isStyle t ht).2
  match c with
  | .node n _ =>
    refine List.forall_mem_cons.2 ⟨Token.kind_plain_ne (by decide), ?_⟩
    split
    · exact List.forall_mem_nil _
    · exact kind_shapeTokens _ _
  | .edge e =>
    simp only [Clause.tokens, Edge.tokens]
    cases e.label <;> simp [Token.plain]
  | .classDef name styles =>
    exact List.forall_mem_cons.2 ⟨Token.kind_plain_ne (by decide),
      List.forall_mem_cons.2 ⟨Token.kind_plain_ne (by decide), hstyles _ h.2⟩⟩
  | .classes ids name =>
    refine List.forall_mem_cons.2 ⟨Token.kind_plain_ne (by decide),
      List.forall_mem_append.2 ⟨?_, by simp [Token.plain]⟩⟩
    cases ids with
    | nil => exact List.forall_mem_nil _
    | cons id ids =>
      refine List.forall_mem_cons.2 ⟨Token.kind_plain_ne (by decide), fun t ht => ?_⟩
      obtain ⟨id, -, ht⟩ := List.mem_flatMap.1 ht
      simp only [List.mem_cons, List.not_mem_nil, or_false] at ht
      rcases ht with rfl | rfl
      · exact Token.kind_plain_ne (by decide)
      · exact Token.kind_plain_ne (by decide)
  | .style id styles =>
    exact List.forall_mem_cons.2 ⟨Token.kind_plain_ne (by decide),
      List.forall_mem_cons.2 ⟨Token.kind_plain_ne (by decide), hstyles _ h.2⟩⟩

/-- A clause `c` can be written on a line, as all of its parts are plain. -/
theorem Clause.Readable.isWritable {c : Clause} (h : c.Readable) : IsWritable c.text.toList := by
  -- every clause starts with a name or a keyword, and what follows has only plain parts
  match c with
  | .node n _ =>
    show IsWritable n.text.toList
    rw [n.toList_text]
    refine IsHyphenated.isWritable_append h.1.1 ?_
    have hdelimiters : Plain (delimiters n.shape).1.toList ∧
        Plain (delimiters n.shape).2.toList := by
      cases n.shape <;> decide
    have hlabel : Plain (labelChars n.label) := by
      cases hl : n.label with
      | none => exact .nil
      | some l => exact plain_labelText (h.2 l hl).1.2.2.1
    split
    · exact .nil
    · exact Plain.append.2 ⟨hdelimiters.1, Plain.append.2 ⟨hlabel, hdelimiters.2⟩⟩
  | .edge e =>
    show IsWritable e.text.toList
    rw [e.toList_text]
    have hkind : Plain e.kind.text.toList := by
      cases e.kind <;> decide
    have htarget : Plain (' ' :: e.target.toList) := Plain.space (IsHyphenated.plain h.2.1.1)
    refine IsHyphenated.isWritable_append h.1.1 (Plain.space (Plain.append.2 ⟨hkind, ?_⟩))
    cases hl : e.label with
    | none => exact htarget
    | some l =>
      have hbar : Plain ['|'] := by decide
      have hlabel : Plain (labelText l.raw).toList := plain_labelText (h.2.2 l hl).1.2.2.1
      exact Plain.append.2 ⟨hbar, Plain.append.2 ⟨hlabel, Plain.append.2 ⟨hbar, htarget⟩⟩⟩
  | .classDef name styles =>
    rw [toList_classDef]
    exact IsHyphenated.isWritable_append (by decide) (Plain.space (Plain.append.2
      ⟨IsHyphenated.plain h.1.1, Plain.space h.2.1⟩))
  | .classes ids name =>
    rw [toList_classes]
    have hids : Plain (",".intercalate ids).toList :=
      Plain.intercalate (by decide) fun id hid => IsHyphenated.plain (h.2.1 id hid).1
    exact IsHyphenated.isWritable_append (by decide) (Plain.space (Plain.append.2
      ⟨hids, Plain.space (IsHyphenated.plain h.2.2.1)⟩))
  | .style id styles =>
    rw [toList_style]
    exact IsHyphenated.isWritable_append (by decide) (Plain.space (Plain.append.2
      ⟨IsHyphenated.plain h.1.1, Plain.space h.2.1⟩))

/-! ### Subgraphs -/

/-- The tokens of the line that opens a subgraph `s`: its id as a name or in quotes, or a name with
its label. -/
def Subgraph.tokens (gap : List Char) (s : Subgraph) : List Token :=
  Token.plain .identifier gap "subgraph".toList ::
    match s.label with
    | none => [if isSafeId s.id then Token.plain .identifier [' '] s.id.toList
        else Token.plain .string [' '] (doubleQuoted s.id).toList]
    | some l => Token.plain .identifier [' '] s.id.toList ::
        shapeTokens .rectangle (labelText l).toList

/-- The characters behind the word that opens a subgraph `s` and the space. -/
def Subgraph.nameChars (s : Subgraph) : List Char :=
  (if isSafeId s.id then s.id else doubleQuoted s.id).toList ++
    s.label.elim [] fun l => '[' :: ((labelText l).toList ++ [']'])

theorem Subgraph.toList_text (s : Subgraph) :
    s.text.toList = "subgraph".toList ++ ' ' :: s.nameChars := by
  obtain ⟨id, label, direction, position⟩ := s
  cases label <;> simp [Subgraph.text, Subgraph.nameChars, toString]

/-- The row of the line that opens a subgraph `s`. -/
theorem flow_subgraph {s : Subgraph} (h : s.Legible) (gap : List Char) :
    Token.flow false gap s.text.toList = s.tokens gap := by
  obtain ⟨hquote, hid, hlabel⟩ := h
  rw [s.toList_text, flow_name_space (by decide), Subgraph.tokens, Subgraph.nameChars]
  congr 1
  cases hl : s.label with
  | none =>
    rw [Option.elim_none, List.append_nil]
    dsimp only
    split
    · next hsafe => exact flow_name_end hsafe true [' ']
    -- An id in quotes is one string, and nothing stands behind it.
    · have hfirst : Rule.first (Rule.ofDialect .flowchart none)
          ('"' :: s.id.toList ++ ['"'] ++ []) =
          (.string, ('"' :: s.id.toList ++ ['"']).length) := by
        rw [List.append_nil, List.cons_append, Rule.ofDialect, Rule.first_quote hquote []]
        simp
      have hhead : ∀ c ∈ ('"' :: s.id.toList ++ ['"']).head?,
          isSpaceOrTab c = false ∧ Piece.startsLabel true c = false := by
        rintro c ⟨⟩
        exact ⟨by decide, by decide⟩
      have hrow := Token.flow_lexeme (by simp) hhead hfirst [' ']
      rw [List.append_nil, Token.flow_nil] at hrow
      rw [toList_doubleQuoted, hrow]
  | some l =>
    have hsafe : isSafeId s.id = true := hid (by rw [hl]; exact Option.some_ne_none l)
    have hne : (labelText l).toList ≠ [] := labelText_ne_nil l
    have hbracket := head_opener .rectangle ((labelText l).toList ++ [']'])
    rw [Option.elim_some, if_pos hsafe]
    refine (flow_name hsafe hbracket true [' ']).trans ?_
    congr 1
    exact flow_shaped .rectangle (hlabel l hl).isLabel fun _ => hne

theorem Subgraph.kind_ne_comment (s : Subgraph) (gap : List Char) :
    ∀ t ∈ s.tokens gap, t.kind ≠ .comment := by
  refine List.forall_mem_cons.2 ⟨nofun, ?_⟩
  split
  · rw [List.forall_mem_singleton]
    split <;> nofun
  · exact List.forall_mem_cons.2 ⟨nofun, kind_shapeTokens _ _⟩

/-- The line that opens a subgraph `s` can be written, if all of its parts can. -/
theorem Subgraph.Readable.isWritable {s : Subgraph} (h : s.Readable) :
    IsWritable s.text.toList := by
  obtain ⟨-, hid, -, hlabel⟩ := h
  have hquote : Plain ['"'] := by decide
  have hname : Plain (if isSafeId s.id then s.id else doubleQuoted s.id).toList := by
    split
    · exact hid
    · rw [toList_doubleQuoted]
      exact Plain.append.2 ⟨Plain.append.2 ⟨hquote, hid⟩, hquote⟩
  have hrest : Plain (s.label.elim [] fun l => '[' :: ((labelText l).toList ++ [']'])) := by
    cases hl : s.label with
    | none => exact .nil
    | some l =>
      have hopen : Plain ['['] := by decide
      have hclose : Plain [']'] := by decide
      exact Plain.append.2 ⟨hopen, Plain.append.2 ⟨plain_labelText (hlabel l hl).2.2.1, hclose⟩⟩
  rw [s.toList_text]
  exact IsHyphenated.isWritable_append (by decide) (Plain.space (Plain.append.2 ⟨hname, hrest⟩))

end Flowchart
end DiagramText
