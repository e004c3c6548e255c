import DiagramText.Entities.Writer
import DiagramText.Proofs.Entities.Readable
import DiagramText.Proofs.Reading.Rows
import Mathlib.Data.Option.Basic

/-!
# Entity-relationship diagrams that are written and read

* `Entities.runs_entity` and `Entities.runs_relationship`: the lines of an entity or a relationship
  are read as it.
* `EntityDiagram.read_rows`: the lines of a readable diagram are read as the diagram.
* `EntityDiagram.readsBack_of_read`: a diagram that was read reads back from what is written.
-/

namespace DiagramText

open Text Reading

namespace EntityDiagram

/-- The diagram as it is read from tokens at the origin, which is where `Reading.Runs` puts all
tokens. -/
def atOrigin (d : EntityDiagram) : EntityDiagram where
  entities := d.entities.map fun e => { e with position := some .origin }
  relationships := d.relationships.map fun r => { r with position := some .origin }

theorem unplaced_atOrigin (d : EntityDiagram) : d.atOrigin.unplaced = d.unplaced := by
  simp [atOrigin, unplaced, Function.comp_def]

end EntityDiagram

namespace Entities

/-! ### Names -/

namespace IsName

variable {name : String}

theorem measure_eq (h : IsName name) :
    Measure.hyphenated name.toList = name.toList.length ∧ name.toList ≠ [] := by
  have hpos := Rule.first_pos (Rule.common ++ Dialect.entityRules) name.toList
  rcases Rule.first_eq_or (Rule.common ++ Dialect.entityRules) name.toList with
    ⟨hfirst, -⟩ | ⟨r, hr, -, hfirst⟩
  · rw [h.lexeme] at hfirst
    cases hfirst
  · rw [h.lexeme, Prod.mk.injEq] at hfirst
    simp only [Rule.common, Dialect.entityRules, Rule.punctuation, List.cons_append,
      List.nil_append, List.mem_cons, List.not_mem_nil, or_false] at hr
    rcases hr with rfl | rfl | rfl | rfl | rfl | rfl | rfl | rfl | rfl | rfl | rfl | rfl
    all_goals first
      | exact absurd hfirst.1 (by decide)
      | exact ⟨hfirst.2.symm, fun hnil =>
          absurd (by rwa [h.lexeme, hnil] at hpos) (by decide : ¬0 < 0)⟩

theorem not_isSpaceOrTab (h : IsName name) : ∀ c ∈ name.toList, isSpaceOrTab c = false := by
  have hword := (Dialect.regular_entities.isWord _
    (List.mem_cons_of_mem _ List.mem_cons_self)).not_isSpaceOrTab name.toList
  dsimp only at hword
  rwa [h.measure_eq.1, List.take_length] at hword

theorem head_ne (h : IsName name) : name.toList.head? ≠ some '"' := by
  obtain ⟨hlength, hne⟩ := h.measure_eq
  obtain ⟨c, cs, hcs⟩ := List.exists_cons_of_ne_nil hne
  rw [hcs] at hlength ⊢
  intro hc
  obtain rfl : c = '"' := by simpa using hc
  simp [Measure.hyphenated, isAsciiWord] at hlength

/-- A name before a space or tab is the first token of its line. What stands behind it is `b`. -/
theorem ofLine_append (h : IsName name) {b : List Char} (hb : StartsBlank b) (gap : List Char) :
    Token.ofLine .entities gap (name.toList ++ b) =
      Token.plain .identifier gap name.toList :: Token.ofLine .entities [] b :=
  Token.ofLine_word_append Dialect.regular_entities h.measure_eq.2 h.not_isSpaceOrTab h.head_ne
    h.lexeme (by decide) hb gap

theorem ofLine (h : IsName name) (gap : List Char) :
    Token.ofLine .entities gap name.toList = [Token.plain .identifier gap name.toList] := by
  have hline := h.ofLine_append (b := []) nofun gap
  rwa [List.append_nil, Token.ofLine_nil] at hline

/-- A line that starts with a `name` can be written, if what stands behind it is plain and its
tokens have no comment. -/
theorem isWritable_append (h : IsName name) {b : List Char} (hb : Plain b)
    (hrow : ∀ t ∈ Token.ofLine .entities [] (name.toList ++ b), t.kind ≠ .comment) :
    IsWritable (name.toList ++ b) := by
  refine .of_row Dialect.regular_entities (Plain.append.2 ⟨h.plain, hb⟩)
    (List.append_ne_nil_of_left_ne_nil h.measure_eq.2 _) (fun c hc => h.not_isSpaceOrTab c ?_) hrow
  obtain ⟨e, cs, hcs⟩ := List.exists_cons_of_ne_nil h.measure_eq.2
  rw [hcs] at hc ⊢
  cases hc
  exact List.mem_cons_self

theorem toList_opening : (s!"{name} \x7b").toList = name.toList ++ [' ', '{'] := by simp [toString]

/-- The tokens of the line that opens the body of the entity `name`. -/
theorem ofLine_opening (h : IsName name) (gap : List Char) :
    Token.ofLine .entities gap (s!"{name} \x7b").toList =
      [Token.plain .identifier gap name.toList, Token.plain .leftBrace [' '] ['{']] := by
  have hbrace : Token.ofLine .entities [' '] ['{'] = [Token.plain .leftBrace [' '] ['{']] :=
    Token.ofLine_word Dialect.regular_entities (by decide) (by decide) (by decide) (by decide) _
  rw [toList_opening, h.ofLine_append (by simp [StartsBlank, isSpaceOrTab]),
    Token.ofLine_cons_blank Dialect.regular_entities rfl, List.nil_append, hbrace]

end IsName

/-- The only token of the line that closes the body of an entity. -/
theorem ofLine_closing (gap : List Char) : Token.ofLine .entities gap ("\x7d").toList =
    [Token.plain .rightBrace gap ['}']] :=
  Token.ofLine_word Dialect.regular_entities (by decide) (by decide) (by decide) (by decide) _

/-! ### Entities -/

theorem Attribute.Readable.ne_nil {a : Attribute} (h : a.Readable) : a.text.toList ≠ [] := by
  intro hnil
  have hparse := h.parse?
  rw [hnil] at hparse
  cases hparse

/-- The row of an attribute `a` starts with a token that ends no statement and no body, so the loop
over a body takes it for an attribute. -/
theorem Attribute.Readable.exists_ofLine {a : Attribute} (h : a.Readable) (gap : List Char) :
    ∃ u us, Token.ofLine .entities gap a.text.toList = u :: us ∧ u.kind ≠ .newline ∧
      u.kind ≠ .semicolon ∧ u.kind ≠ .rightBrace := by
  cases hrow : Token.ofLine .entities gap a.text.toList with
  | nil =>
    rw [Token.ofLine_eq_nil_iff Dialect.regular_entities] at hrow
    obtain ⟨c, cs, hcs⟩ := List.exists_cons_of_ne_nil h.ne_nil
    have hhead := h.isBodyLine.trimmed.head c (by rw [hcs]; rfl)
    rw [isBlank_of_isSpaceOrTab (hrow c (by rw [hcs]; exact List.mem_cons_self))] at hhead
    cases hhead
  | cons u us =>
    have hu := (h.isBodyLine.kinds gap u (by rw [hrow]; exact List.mem_cons_self)).1
    refine ⟨u, us, rfl, ?_, ?_, ?_⟩
    all_goals
      intro hkind
      rw [hkind] at hu
      exact absurd hu (by decide)

variable {d : EntityDiagram} {past ts : List Token} {t final : Token}

theorem statement_entity {nl : Token} (ht : t.kind = .identifier) (hnl : nl.kind = .newline) :
    statement d ⟨past, t :: nl :: ts, final⟩ =
      .ok (d.mention t.text (some t.start), ⟨nl :: t :: past, ts, final⟩) := by
  simp [statement, entity, bind_apply, check_apply, Except.bind, expect_cons ht, ht, hnl,
    accept_cons, map_apply, endStatement_cons]

theorem statement_body {b : Token} (ht : t.kind = .identifier) (hb : b.kind = .leftBrace) :
    statement d ⟨past, t :: b :: ts, final⟩ =
      body t (d.mention t.text (some t.start)) ⟨b :: t :: past, ts, final⟩ := by
  simp [statement, entity, bind_apply, check_apply, Except.bind, expect_cons ht, ht, hb,
    accept_cons]

/-- The diagram with an attribute at the end of those of the entity `name`. -/
def addAttribute (name : String) (d : EntityDiagram) (a : Attribute) : EntityDiagram :=
  d.modify name fun e => { e with attributes := e.attributes ++ [a] }

theorem bodyLine_attribute {name : String} {a : Attribute} {nl : Token} (ha : a.Readable)
    (hnl : nl.kind = .newline) (gap : List Char) :
    bodyLine d name ⟨past, Token.ofLine .entities gap a.text.toList ++ nl :: ts, final⟩ =
      .ok (addAttribute name d a,
        ⟨nl :: ((Token.ofLine .entities gap a.text.toList).reverse ++ past), ts, final⟩) := by
  have hraw : rawUntil [.rightBrace]
      ⟨past, Token.ofLine .entities gap a.text.toList ++ nl :: ts, final⟩ =
        .ok (String.ofList a.text.toList,
          ⟨(Token.ofLine .entities gap a.text.toList).reverse ++ past, nl :: ts, final⟩) :=
    rawUntil_ofLine Dialect.regular_entities ha.isBodyLine (.inl (by rw [hnl]; rfl))
  simp [bodyLine, bind_apply, peek_apply, Except.bind, hraw, attributeOf, ofResult,
    Attribute.ofText, ha.isBodyLine.trimmed.trim_eq, ha.parse?, check_apply, hnl, map_apply,
    endStatement_cons, addAttribute]

/-- The row of attributes, each on a line behind `gap` that ends with its `nl`. -/
def attributesRow (gap : List Char) (nl : Attribute → Token) (attributes : List Attribute) :
    List Token :=
  attributes.flatMap fun a => Token.ofLine .entities gap a.text.toList ++ [nl a]

theorem attributesRow_eq {layout : Layout} (hlayout : layout.IsBlank) {attributes : List Attribute}
    (h : ∀ a ∈ attributes, a.Readable) :
    (attributes.map fun a => layout.line 2 a.text).flatMap (Token.fullLine .entities) =
      attributesRow (layout.pad 2).toList
        (fun a => Token.lineBreak .entities (layout.line 2 a.text).toList) attributes := by
  rw [List.flatMap_map, attributesRow]
  refine List.flatMap_congr fun a ha => ?_
  exact Token.fullLine_line Dialect.regular_entities.skipsBlanks hlayout 2 rfl
    fun t ht => ((h a ha).isBodyLine.kinds _ t ht).2

/-- The body of an entity is read attribute by attribute, up to the brace `close`. The line breaks
`us` may stand before it. -/
theorem body_attributes {close nl' : Token} {gap : List Char} {nl : Attribute → Token}
    {attributes : List Attribute} (hclose : close.kind = .rightBrace) (hnl' : nl'.kind = .newline)
    (hnl : ∀ a ∈ attributes, (nl a).kind = .newline) (h : ∀ a ∈ attributes, a.Readable)
    (us : List Token) (hus : ∀ u ∈ us, u.kind = .newline) : ∃ past',
    body t d ⟨past, us ++ (attributesRow gap nl attributes ++ close :: nl' :: ts), final⟩ =
      .ok (attributes.foldl (addAttribute t.text) d, ⟨past', ts, final⟩) := by
  induction attributes generalizing us past d with
  -- Only the brace is left, which ends the body.
  | nil =>
    rw [body, attributesRow, List.flatMap_nil, List.nil_append]
    exact ⟨_, loop_inr (bodyRound_close _ _ d us hus hclose hnl')⟩
  -- One attribute is read, which leaves its line break to be skipped in the next round.
  | cons a attributes ih =>
    obtain ⟨hnl, hnls⟩ := List.forall_mem_cons.1 hnl
    obtain ⟨ha, hs⟩ := List.forall_mem_cons.1 h
    obtain ⟨u, row, hrow, hu⟩ := ha.exists_ofLine gap
    let rest := attributesRow gap nl attributes ++ close :: nl' :: ts
    have hall : attributesRow gap nl (a :: attributes) ++ close :: nl' :: ts =
        Token.ofLine .entities gap a.text.toList ++ nl a :: rest := by
      simp [attributesRow, rest]
    have hline : bodyLine d t.text
        ⟨us.reverse ++ past, Token.ofLine .entities gap a.text.toList ++ nl a :: rest, final⟩ =
        .ok (addAttribute t.text d a, ⟨nl a ::
          ((Token.ofLine .entities gap a.text.toList).reverse ++
          (us.reverse ++ past)), rest, final⟩) := bodyLine_attribute ha hnl gap
    rw [hrow, List.cons_append] at hline
    obtain ⟨past', hpast⟩ : ∃ past', body t (addAttribute t.text d a)
        ⟨nl a :: ((u :: row).reverse ++ (us.reverse ++ past)), rest, final⟩ =
          .ok (attributes.foldl (addAttribute t.text) (addAttribute t.text d a),
            ⟨past', ts, final⟩) := ih hnls hs [] (List.forall_mem_nil _)
    refine ⟨past', ?_⟩
    rw [List.foldl_cons, ← hpast, hall, hrow, List.cons_append]
    exact loop_inl (bodyRound_line _ us hus ⟨hu.1, hu.2.1⟩ hu.2.2 hline) (by simp [rest]; omega)

/-- Attributes are added one by one to the entity `e` that was mentioned last. -/
theorem foldl_addAttribute {entities : List Entity} {relationships : List Relationship} {e : Entity}
    (h : e.name ∉ entities.map Entity.name) (attributes : List Attribute) :
    attributes.foldl (addAttribute e.name) ⟨entities ++ [e], relationships⟩ =
      ⟨entities ++ [{ e with attributes := e.attributes ++ attributes }], relationships⟩ := by
  induction attributes generalizing e with
  | nil => rw [List.foldl_nil, List.append_nil]
  | cons a attributes ih =>
    have hadd : addAttribute e.name ⟨entities ++ [e], relationships⟩ a =
        ⟨entities ++ [{ e with attributes := e.attributes ++ [a] }], relationships⟩ := by
      have hkeep : (entities.map fun x =>
          if x.name = e.name then { x with attributes := x.attributes ++ [a] } else x) =
            entities := by
        refine (List.map_congr_left fun x hx => if_neg ?_).trans (List.map_id _)
        exact fun hname => h (hname ▸ List.mem_map_of_mem hx)
      rw [addAttribute, EntityDiagram.modify, List.map_append, hkeep, List.map_singleton,
        if_pos rfl]
    have hrest := ih (e := { e with attributes := e.attributes ++ [a] }) h
    dsimp only at hrest
    rw [List.foldl_cons, hadd, hrest, List.append_assoc]
    rfl

/-- The lines of an entity `e` are read as the entity, if the diagram `d` has none of its name. -/
theorem runs_entity {layout : Layout} (hlayout : layout.IsBlank) {e : Entity}
    (hname : IsName e.name) (hattributes : ∀ a ∈ e.attributes, a.Readable)
    (hnew : e.name ∉ d.entities.map Entity.name) :
    Runs statement d ((e.lines layout).flatMap (Token.fullLine .entities))
      { d with entities := d.entities ++ [{ e with position := some .origin }] } := by
  obtain ⟨name, attributes, position⟩ := e
  let t := Token.plain .identifier (layout.pad 1).toList name.toList
  have hmention : d.mention t.text (some t.start) =
      { d with entities := d.entities ++ [{ name, position := some .origin }] } := by
    rw [show t.text = name from String.ofList_toList]
    exact EntityDiagram.mention_of_not_mem hnew _
  rw [Entity.lines]
  split
  -- Without attributes the entity is a name on a line.
  · next hnil =>
    obtain rfl : attributes = [] := List.isEmpty_iff.1 hnil
    rw [List.flatMap_singleton, Token.fullLine_line Dialect.regular_entities.skipsBlanks hlayout 1
      (hname.ofLine _) (List.forall_mem_singleton.2 nofun)]
    refine .of_statement (by simp) fun past ts =>
      ⟨Token.lineBreak .entities (layout.line 1 name).toList :: t :: past, ?_⟩
    rw [← hmention]
    exact statement_entity rfl rfl
  · -- the line that opens the body, the attributes, and the line that closes it
    rw [List.flatMap_append, List.flatMap_cons, attributesRow_eq hlayout hattributes,
      List.flatMap_singleton,
      Token.fullLine_line Dialect.regular_entities.skipsBlanks hlayout 1 (hname.ofLine_opening _)
        (by simp [Token.plain]),
      Token.fullLine_line Dialect.regular_entities.skipsBlanks hlayout 1 (ofLine_closing _)
        (by simp [Token.plain])]
    refine .of_statement (by simp) fun past ts => ?_
    simp only [List.cons_append, List.nil_append, List.append_assoc]
    have hfold : attributes.foldl (addAttribute t.text)
        { d with entities := d.entities ++ [{ name, position := some .origin }] } =
          { d with
            entities := d.entities ++ [{ name, attributes, position := some .origin }] } := by
      rw [show t.text = name from String.ofList_toList]
      exact foldl_addAttribute (e := { name, position := some .origin }) hnew attributes
    rw [statement_body rfl rfl, hmention, ← hfold]
    exact body_attributes rfl rfl (fun _ _ => rfl) hattributes [_] (List.forall_mem_singleton.2 rfl)

/-! ### Relationships -/

/-- The marks of the cardinalities `left` and `right` and the `line` between them, as one text. -/
def marks (left : Cardinality) (line : Identification) (right : Cardinality) : List Char :=
  left.leftText.toList ++ line.text.toList ++ right.rightText.toList

theorem first_marks (left : Cardinality) (line : Identification) (right : Cardinality) :
    Rule.first (Rule.common ++ Dialect.entityRules) (marks left line right) =
      (.entityRelation, (marks left line right).length) := by
  cases left <;> cases line <;> cases right <;> decide

theorem marks_word (left : Cardinality) (line : Identification) (right : Cardinality) :
    marks left line right ≠ [] ∧ (∀ c ∈ marks left line right, isBlank c = false) ∧
      (marks left line right).head? ≠ some '"' := by
  cases left <;> cases line <;> cases right <;> decide

/-- The marks are taken apart as they were put together: the mark on the left has two characters,
and so has the line. -/
theorem relationParts_marks (left : Cardinality) (line : Identification) (right : Cardinality) :
    relationParts (marks left line right) =
      (left.leftText.toList, line.text.toList, right.rightText.toList) := by
  cases left <;> cases line <;> cases right <;> decide

theorem ofMarks?_leftText (c : Cardinality) : Cardinality.ofMarks? c.leftText.toList = some c := by
  cases c <;> rfl

theorem ofMarks?_rightText (c : Cardinality) :
    Cardinality.ofMarks? c.rightText.toList = some c := by
  cases c <;> rfl

theorem identification_of_text (i : Identification) :
    (if i.text.toList = ['.', '.'] then Identification.nonIdentifying else .identifying) = i := by
  cases i <;> rfl

/-- A label `l` as it is written behind a colon: bare if it is one plain word, and otherwise in
quotes. -/
def writtenLabel (l : String) : String := if isBareLabel l then l else doubleQuoted l

/-- A written label is a text after a colon that means the label: `unquote` gives it back. -/
theorem IsLabel.writtenLabel_spec {l : String} (h : IsLabel l) :
    (writtenLabel l).toList ≠ [] ∧ Plain (writtenLabel l).toList ∧
      Trimmed (writtenLabel l).toList ∧ unquote (writtenLabel l) = l := by
  rw [writtenLabel]
  split
  -- A bare label has neither blanks nor quotes, so it is trimmed and means itself.
  · next hbare =>
    rw [isBareLabel, Bool.and_eq_true, List.all_eq_true] at hbare
    have hword : ∀ c ∈ l.toList, isBlank c = false ∧ c ≠ '"' := by
      intro c hc
      have hall := hbare.2 c hc
      refine ⟨?_, by rintro rfl; exact absurd hall (by decide)⟩
      rw [h.2.isBlank_eq hc]
      cases hs : isSpaceOrTab c with
      | false => rfl
      | true =>
        obtain rfl | rfl := Measure.eq_of_isSpaceOrTab hs <;> exact absurd hall (by decide)
    refine ⟨by simpa using h.1, h.2, ⟨fun c hc => (hword c (List.mem_of_head? hc)).1,
      fun c hc => (hword c (List.mem_of_getLast? hc)).1⟩, ?_⟩
    rw [unquote]
    split
    · next cs hcs => exact absurd rfl (hword '"' (by rw [hcs]; exact List.mem_cons_self)).2
    · rfl
  · rw [toList_doubleQuoted]
    refine ⟨List.cons_ne_nil _ _, ?_, ⟨by simp [isBlank], ?_⟩, unquote_doubleQuoted l⟩
    · refine List.forall_mem_cons.2 ⟨by decide, Plain.append.2 ⟨h.2, by simp [Plain, isBlank]⟩⟩
    · intro c hc
      rw [← List.cons_append, List.getLast?_concat] at hc
      cases hc
      decide

theorem toList_relationship_text {r : Relationship} (h : ∀ l ∈ r.label, IsLabel l) :
    r.text.toList = r.source.toList ++ (' ' :: (marks r.sourceCardinality r.identification
      r.targetCardinality ++
        (' ' :: (r.target.toList ++ Token.labelChars (r.label.map writtenLabel))))) := by
  obtain ⟨source, target, left, right, line, label, position⟩ := r
  cases label with
  | none => simp [Relationship.text, marks, Token.labelChars, toString]
  | some l =>
    have hne : (!l.isEmpty) = true := by simpa using (h l rfl).1
    simp [Relationship.text, marks, Token.labelChars, toString, Option.filter, hne, writtenLabel]
    split <;> simp

/-- The tokens of a `label`, which stands behind a colon and in quotes where it needs them. -/
def labelTokens (label : Option String) : List Token := Token.labelTokens (label.map writtenLabel)

theorem ofLine_labelChars {label : Option String} (h : ∀ l ∈ label, IsLabel l) :
    Token.ofLine .entities [] (Token.labelChars (label.map writtenLabel)) = labelTokens label := by
  refine Token.ofLine_labelChars Dialect.regular_entities (Option.forall_mem_map.2 fun l hl => ?_)
  obtain ⟨hne, -, htrim, -⟩ := (h l hl).writtenLabel_spec
  exact ⟨htrim, hne⟩

/-- The row of a relationship `r`: its source, its marks, its target and its label. -/
theorem ofLine_relationship {r : Relationship} (hsource : IsName r.source)
    (htarget : IsName r.target)
    (hlabel : ∀ l ∈ r.label, IsLabel l) (gap : List Char) :
    Token.ofLine .entities gap r.text.toList =
      Token.plain .identifier gap r.source.toList ::
        Token.plain .entityRelation [' ']
          (marks r.sourceCardinality r.identification r.targetCardinality) ::
        Token.plain .identifier [' '] r.target.toList :: labelTokens r.label := by
  obtain ⟨hne, hword, hhead⟩ := marks_word r.sourceCardinality r.identification r.targetCardinality
  have hspace : ∀ cs, StartsBlank (' ' :: cs) := fun cs c hc => by
    cases hc
    rfl
  rw [toList_relationship_text hlabel, hsource.ofLine_append (hspace _),
    Token.ofLine_cons_blank Dialect.regular_entities rfl, List.nil_append,
    Token.ofLine_word_append Dialect.regular_entities hne
      (fun c hc => isSpaceOrTab_of_not_isBlank (hword c hc)) hhead (first_marks _ _ _) (by decide)
      (hspace _), Token.ofLine_cons_blank Dialect.regular_entities rfl, List.nil_append,
    htarget.ofLine_append (Token.startsBlank_labelChars _),
    ofLine_labelChars hlabel]

theorem relationshipLabel_labelTokens (past ts : List Token) (final : Token) {label : Option String}
    (h : ∀ l ∈ label, IsLabel l) {nl : Token} (hnl : nl.kind = .newline) : ∃ past',
    relationshipLabel ⟨past, labelTokens label ++ nl :: ts, final⟩ =
      .ok (label, ⟨past', nl :: ts, final⟩) := by
  cases label with
  | none => exact ⟨past, behindColon_of_kind_ne _ (by simp [hnl])⟩
  | some l =>
    obtain ⟨-, -, -, hunquote⟩ := (h l rfl).writtenLabel_spec
    refine ⟨Token.plain .text [' '] (writtenLabel l).toList ::
      Token.plain .colon [' '] [':'] :: past, (behindColon_cons _ rfl rfl).trans ?_⟩
    simp [pure_apply, Token.plain, hunquote, (h l rfl).1]

/-- A statement of a relationship `r` between entities that are known only adds the relationship. -/
theorem statement_relationship {r : Relationship} {s relation u nl : Token}
    (hs : s.kind = .identifier ∧ s.text = r.source) (hrelation : relation.kind = .entityRelation ∧
      relation.text.toList = marks r.sourceCardinality r.identification r.targetCardinality)
    (hu : u.kind = .identifier ∧ u.text = r.target) (hnl : nl.kind = .newline)
    (hsource : r.source ∈ d.entities.map Entity.name)
    (htarget : r.target ∈ d.entities.map Entity.name) (hlabel : ∀ l ∈ r.label, IsLabel l) :
    ∃ past', statement d ⟨past, s :: relation :: u :: (labelTokens r.label ++ nl :: ts), final⟩ =
      .ok ({ d with relationships := d.relationships ++ [{ r with position := some s.start }] },
        ⟨past', ts, final⟩) := by
  obtain ⟨past', hl⟩ :=
    relationshipLabel_labelTokens (u :: relation :: s :: past) ts final hlabel hnl
  refine ⟨nl :: past', ?_⟩
  simp [statement, relationship, bind_apply, check_apply, Except.bind, expect_cons hs.1, hs.1,
    hrelation.1, hrelation.2, advance_cons, relationParts_marks, cardinality, ofMarks?_leftText,
    ofMarks?_rightText, pure_apply, expect_cons hu.1, hl, map_apply, endStatement_cons, hnl,
    hs.2, hu.2, EntityDiagram.mention_of_mem hsource, EntityDiagram.mention_of_mem htarget,
    identification_of_text]

theorem runs_relationship {layout : Layout} (hlayout : layout.IsBlank) {r : Relationship}
    (hlabel : ∀ l ∈ r.label, IsLabel l)
    (hsource : r.source ∈ d.entities.map Entity.name)
    (htarget : r.target ∈ d.entities.map Entity.name)
    (hnames : ∀ e ∈ d.entities, IsName e.name) :
    Runs statement d (Token.fullLine .entities (layout.line 1 r.text))
      { d with relationships := d.relationships ++ [{ r with position := some .origin }] } := by
  have hname : ∀ name ∈ d.entities.map Entity.name, IsName name := List.forall_mem_map.2 hnames
  have hcomment : ∀ t ∈ labelTokens r.label, t.kind ≠ .comment := Token.kind_labelTokens _
  rw [Token.fullLine_line Dialect.regular_entities.skipsBlanks hlayout 1
    (ofLine_relationship (hname _ hsource) (hname _ htarget) hlabel _)
    (by simpa [Token.plain] using hcomment)]
  refine .of_statement (by simp) fun past ts => ?_
  simp only [List.cons_append, List.append_assoc, List.nil_append]
  exact statement_relationship ⟨rfl, String.ofList_toList⟩ ⟨rfl, String.toList_ofList⟩
    ⟨rfl, String.ofList_toList⟩ rfl hsource htarget hlabel

/-! ### Diagrams -/

theorem runs_entities {layout : Layout} (hlayout : layout.IsBlank) {entities : List Entity}
    (hnames : ∀ e ∈ entities, IsName e.name)
    (hattributes : ∀ e ∈ entities, ∀ a ∈ e.attributes, a.Readable)
    (hnew : ((d.entities ++ entities).map Entity.name).Nodup) :
    Runs statement d ((entities.flatMap (Entity.lines layout)).flatMap (Token.fullLine .entities))
      { d with entities := d.entities ++
          entities.map fun e => { e with position := some .origin } } := by
  induction entities generalizing d with
  | nil =>
    rw [List.map_nil, List.append_nil]
    exact .nil
  | cons e entities ih =>
    obtain ⟨hname, hnames⟩ := List.forall_mem_cons.1 hnames
    obtain ⟨hattribute, hattributes⟩ := List.forall_mem_cons.1 hattributes
    have hnotMem : e.name ∉ d.entities.map Entity.name := by
      rw [List.map_append, List.nodup_append] at hnew
      exact fun hmem => hnew.2.2 _ hmem _ List.mem_cons_self rfl
    have hrest := ih (d := { d with entities := d.entities ++
        [{ e with position := some .origin }] })
      hnames hattributes (by simpa using hnew)
    rw [List.flatMap_cons, List.flatMap_append, List.map_cons, List.append_cons]
    exact (runs_entity hlayout hname hattribute hnotMem).append hrest

theorem runs_relationships {layout : Layout} (hlayout : layout.IsBlank)
    {relationships : List Relationship} (hlabels : ∀ r ∈ relationships, ∀ l ∈ r.label, IsLabel l)
    (hsources : ∀ r ∈ relationships, r.source ∈ d.entities.map Entity.name)
    (htargets : ∀ r ∈ relationships, r.target ∈ d.entities.map Entity.name)
    (hnames : ∀ e ∈ d.entities, IsName e.name) :
    Runs statement d ((relationships.map fun r => layout.line 1 r.text).flatMap
        (Token.fullLine .entities))
      { d with relationships := d.relationships ++
          relationships.map fun r => { r with position := some .origin } } := by
  induction relationships generalizing d with
  | nil =>
    rw [List.map_nil, List.map_nil, List.append_nil]
    exact .nil
  | cons r relationships ih =>
    obtain ⟨hlabel, hlabels⟩ := List.forall_mem_cons.1 hlabels
    obtain ⟨hsource, hsources⟩ := List.forall_mem_cons.1 hsources
    obtain ⟨htarget, htargets⟩ := List.forall_mem_cons.1 htargets
    have hrest := ih (d := { d with relationships := d.relationships ++
      [{ r with position := some .origin }] }) hlabels hsources htargets hnames
    rw [List.map_cons, List.flatMap_cons, List.map_cons, List.append_cons]
    exact (runs_relationship hlayout hlabel hsource htarget hnames).append hrest

end Entities

namespace EntityDiagram

open Entities

/-- The lines of a readable diagram `d` are read as the diagram, with all its parts at the
origin. -/
theorem read_rows {layout : Layout} (hlayout : layout.IsBlank) {d : EntityDiagram}
    (h : d.Readable) :
    ∃ c, Entities.read ⟨[], (d.lines layout).flatMap (Token.fullLine .entities), Token.endOfInput⟩ =
      .ok (d.atOrigin, c) := by
  have hheader : Token.fullLine .entities "erDiagram" =
      [Token.plain .identifier [] "erDiagram".toList, Token.lineBreak .entities
        "erDiagram".toList] := by
    have hword : Token.ofLine .entities [] "erDiagram".toList =
        [Token.plain .identifier [] "erDiagram".toList] :=
      Token.ofLine_word Dialect.regular_entities (by decide) (by decide) (by decide) (by decide) []
    rw [Token.fullLine, hword]
    rfl
  -- the entities are read into nothing, the relationships between these entities
  have hentities := runs_entities (d := {}) hlayout h.names h.attributes (by simpa using h.nodup)
  have hrelationships := runs_relationships
    (d := { entities := d.entities.map fun e => { e with position := some .origin } }) hlayout
    h.labels (by simpa using h.sources) (by simpa using h.targets) (by simpa using h.names)
  obtain ⟨past', hrun⟩ := (hentities.append hrelationships).untilEnd_eq
    [Token.lineBreak .entities "erDiagram".toList, Token.plain .identifier [] "erDiagram".toList]
  refine ⟨⟨past', [], Token.endOfInput⟩, ?_⟩
  have hskip : ∀ ts, skipNewlines
      ⟨[], Token.plain .identifier [] "erDiagram".toList :: ts, Token.endOfInput⟩ =
        .ok ((), ⟨[], Token.plain .identifier [] "erDiagram".toList :: ts, Token.endOfInput⟩) :=
    fun _ => rfl
  have hword : (Token.plain .identifier [] "erDiagram".toList).isWord ["erdiagram"] = true := by
    decide +kernel
  rw [lines, List.cons_append, List.flatMap_cons, List.flatMap_append, hheader, Entities.read]
  simp only [List.nil_append, List.cons_append, bind_apply, hskip, Except.bind,
    expectWord_cons hword, endStatement_cons]
  exact hrun

/-- The lines of an entity `e` stay lines: none has a line break inside, and none is blank. -/
theorem isOwnLine_of_mem_entity {layout : Layout} (hlayout : layout.IsBlank) {e : Entity}
    (hname : IsName e.name) (hattributes : ∀ a ∈ e.attributes, a.Readable) :
    ∀ l ∈ e.lines layout, IsOwnLine l := by
  rw [Entity.lines]
  split
  · refine List.forall_mem_singleton.2 (Layout.isOwnLine_line hlayout 1 ?_)
    simpa using hname.isWritable_append .nil (by simp [hname.ofLine, Token.plain])
  · refine List.forall_mem_append.2 ⟨List.forall_mem_cons.2
      ⟨?_, List.forall_mem_map.2 fun a ha => ?_⟩,
      List.forall_mem_singleton.2 ?_⟩
    · have hrow := hname.ofLine_opening []
      refine Layout.isOwnLine_line hlayout 1 ?_
      rw [IsName.toList_opening] at hrow ⊢
      exact hname.isWritable_append (by simp [Plain, isBlank, isSpaceOrTab])
        (by simp [hrow, Token.plain])
    · have ha := hattributes a ha
      exact Layout.isOwnLine_line hlayout 2 (ha.isBodyLine.isWritable Dialect.regular_entities
        ha.ne_nil)
    · refine Layout.isOwnLine_line hlayout 1 (.of_row Dialect.regular_entities ?_ (by decide) ?_ ?_)
      · simp [Plain, isBlank]
      · simp [isSpaceOrTab]
      · rw [ofLine_closing]
        simp [Token.plain]

/-- The line of a relationship `r` stays a line. -/
theorem isOwnLine_relationship {layout : Layout} (hlayout : layout.IsBlank) {r : Relationship}
    (hsource : IsName r.source) (htarget : IsName r.target) (hlabel : ∀ l ∈ r.label, IsLabel l) :
    IsOwnLine (layout.line 1 r.text) := by
  have hrow := ofLine_relationship hsource htarget hlabel []
  have hcomment : ∀ t ∈ labelTokens r.label, t.kind ≠ .comment := Token.kind_labelTokens _
  have hmarks : Plain (marks r.sourceCardinality r.identification r.targetCardinality) :=
    .of_not_isBlank (marks_word _ _ _).2.1
  have hlabelText : Plain (Token.labelChars (r.label.map writtenLabel)) :=
    Token.plain_labelChars (Option.forall_mem_map.2 fun l hl =>
      (hlabel l hl).writtenLabel_spec.2.1)
  refine Layout.isOwnLine_line hlayout 1 ?_
  rw [toList_relationship_text hlabel] at hrow ⊢
  refine hsource.isWritable_append ?_ (by simpa [hrow, Token.plain] using hcomment)
  refine List.forall_mem_cons.2 ⟨fun _ => rfl, Plain.append.2 ⟨hmarks, ?_⟩⟩
  exact List.forall_mem_cons.2 ⟨fun _ => rfl, Plain.append.2 ⟨htarget.plain, hlabelText⟩⟩

/-- The lines of a readable diagram `d` stay lines when they are put together to a text. -/
theorem isOwnLine_of_mem_lines {layout : Layout} (hlayout : layout.IsBlank) {d : EntityDiagram}
    (h : d.Readable) : ∀ l ∈ d.lines layout, IsOwnLine l := by
  have hname : ∀ name ∈ d.entities.map Entity.name, IsName name := List.forall_mem_map.2 h.names
  refine List.forall_mem_append.2 ⟨List.forall_mem_cons.2 ⟨?_, fun l hl => ?_⟩,
    List.forall_mem_map.2 fun r hr => ?_⟩
  · exact ⟨by simp [Plain, isBlank], by decide⟩
  · obtain ⟨e, he, hl⟩ := List.mem_flatMap.1 hl
    exact isOwnLine_of_mem_entity hlayout (h.names e he) (h.attributes e he) l hl
  · exact isOwnLine_relationship hlayout (hname _ (h.sources r hr)) (hname _ (h.targets r hr))
      (h.labels r hr)

/-- Positions do not matter to whether a diagram `d` is readable, as none of the conditions looks at
them. -/
theorem readable_unplaced_iff {d : EntityDiagram} : d.unplaced.Readable ↔ d.Readable := by
  have hmap : d.unplaced.entities.map Entity.name = d.entities.map Entity.name := by
    simp only [unplaced, List.map_map, Function.comp_def]
  constructor
  · rintro ⟨hnodup, hnames, hattributes, hsources, htargets, hlabels⟩
    rw [hmap] at hnodup hsources htargets
    have hentity : ∀ e ∈ d.entities, { e with position := none } ∈ d.unplaced.entities :=
      fun e he => List.mem_map_of_mem he
    have hrelationship : ∀ r ∈ d.relationships,
        { r with position := none } ∈ d.unplaced.relationships := fun r hr => List.mem_map_of_mem hr
    exact ⟨hnodup, fun e he => (hnames _ (hentity e he) :),
      fun e he => (hattributes _ (hentity e he) :), fun r hr => (hsources _ (hrelationship r hr) :),
      fun r hr => (htargets _ (hrelationship r hr) :),
      fun r hr => (hlabels _ (hrelationship r hr) :)⟩
  · rintro ⟨hnodup, hnames, hattributes, hsources, htargets, hlabels⟩
    rw [← hmap] at hnodup hsources htargets
    exact ⟨hnodup, List.forall_mem_map.2 hnames, List.forall_mem_map.2 hattributes,
      List.forall_mem_map.2 hsources, List.forall_mem_map.2 htargets, List.forall_mem_map.2 hlabels⟩

/-- An entity-relationship diagram `d` reads back from what is written for it if all its parts can
stand in a document, whatever the blank indent of the `layout`. -/
theorem Readable.readsBack {d : EntityDiagram} {layout : Layout} (h : d.Readable)
    (hlayout : layout.IsBlank) : Program.ReadsBack layout ⟨[.entities d]⟩ := by
  obtain ⟨c, hback⟩ := read_rows hlayout h
  rw [Program.readsBack_iff_lines (l := "erDiagram") rfl
    (.of_forall (isOwnLine_of_mem_lines hlayout h))]
  refine ⟨.entities d.atOrigin, c, ?_, by rw [Diagram.unplaced, Diagram.unplaced,
    unplaced_atOrigin]⟩
  rw [Diagram.dialect, Reading.diagram, map_apply]
  exact congrArg (Except.bind · _) hback

/-- The entity-relationship diagrams of a document `src` of which the only blanks are spaces, tabs
and line breaks are readable. -/
theorem readable_of_mem {src : String} {p : Program} {d : EntityDiagram}
    (hblanks : ∀ c ∈ src.toList, isBlank c = true → isSpaceOrTab c = true ∨ isLineBreak c = true)
    (h : Program.read src = .ok p) (hd : .entities d ∈ p.diagrams) : d.Readable := by
  obtain ⟨text, htext, x, c, hread, hsame⟩ := Program.exists_row_of_read h hd
  have hscanned : Entities.Scanned (.ofText .entities text) :=
    ⟨Token.scanned_ofText fun c hc => hblanks c (htext c hc), rfl⟩
  rw [Diagram.dialect, Reading.diagram, map_apply, Except.bind_eq_ok_iff] at hread
  obtain ⟨⟨e, c'⟩, he, hx⟩ := hread
  cases hx
  have hunplaced : e.unplaced = d.unplaced := by simpa [Diagram.unplaced] using hsame
  -- the diagram `e` of the rows differs from `d` only in its positions
  rw [← readable_unplaced_iff, ← hunplaced, readable_unplaced_iff]
  exact ensures_read _ _ _ hscanned he

/-- Every entity-relationship diagram `d` that was read from a document of which the only blanks are
spaces, tabs and line breaks reads back from what is written for it. -/
theorem readsBack_of_read {src : String} {d : EntityDiagram} {layout : Layout}
    (hblanks : ∀ c ∈ src.toList, isBlank c = true → isSpaceOrTab c = true ∨ isLineBreak c = true)
    (hlayout : layout.IsBlank) (h : Program.read src = .ok ⟨[.entities d]⟩) :
    Program.ReadsBack layout ⟨[.entities d]⟩ :=
  (readable_of_mem hblanks h (List.mem_singleton.2 rfl)).readsBack hlayout

/-- An attribute with all its parts and a label that needs quotes read back. -/
theorem readsBack_key_comment_label :
    Program.ReadsBack ⟨"\t"⟩ ⟨[.entities {
      entities := [⟨"A", [⟨"string", "id", some .primary, some "the id"⟩], some ⟨2, 1, 12⟩⟩,
        ⟨"B-c", [], some ⟨3, 10, 53⟩⟩]
      relationships := [⟨"A", "B-c", .exactlyOne, .zeroOrMore, .identifying, some "has; many",
        some ⟨3, 1, 44⟩⟩] }]⟩ :=
  let src := "erDiagram\r\n A\t\x7b string  id PK  \"the id\" \x7d\r\n" ++
    " A ||--o\x7b B-c : \"has; many\""
  have hblanks : ∀ c ∈ src.toList,
      isBlank c = true → isSpaceOrTab c = true ∨ isLineBreak c = true := by decide +kernel
  readsBack_of_read hblanks (by simp [Layout.IsBlank, isSpaceOrTab]) (by decide +kernel)

end EntityDiagram
end DiagramText
