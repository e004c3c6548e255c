import DiagramText.Proofs.Token.Name
import DiagramText.Sequence.Reader
import DiagramText.Sequence.Writer

/-!
# Rows of the lines of sequence diagrams

What the lines of clauses and blocks are as tokens. A message is written without any space, so its
arrow ends where the longest spelling does, and a minus behind it is an activation mark only if no
spelling of an arrow starts with it.

* `Sequence.Clause.Readable` and `Sequence.Statement.Readable`: the names, texts and labels can
  stand in a document.
* `Sequence.IsNameOf`: a name is one token, an identifier or a number.
* `Sequence.ofLine_message`, `Sequence.ofLine_note`, `Sequence.ofLine_participant` and
  `Sequence.ofLine_keywordLine`: the rows of the lines.
-/

namespace DiagramText

open Text Reading

namespace Sequence

/-! ### Parts that can stand in a document -/

/-- A text `s` that stays as it is on one line: it is not empty, plain and trimmed. -/
def IsText (s : String) : Prop := s ≠ "" ∧ Plain s.toList ∧ trim s.toList = s.toList

/-- The label `t` that a text of one line means. Only its raw text is written. -/
def IsContent (t : Content) : Prop := IsText t.raw ∧ Content.ofText? t.raw = some t

/-- A text `s` of one line in which no comment starts, wherever in it. -/
def IsAlias (s : String) : Prop := IsText s ∧ ¬['%', '%'] <:+: s.toList

/-- A text `s` of one line that neither starts a comment nor with the character of an arrow, so that
it can stand behind a keyword. -/
def IsHeading (s : String) : Prop := IsAlias s ∧ s.toList.head? ≠ some '-'

/-- A clause of which all parts can stand in a document. A mark that deactivates a participant is
not written before an `x`, with which it would be an arrow. -/
def Clause.Readable : Clause → Prop
  | .participant p => IsIdentifier p.id ∧ ∀ l ∈ p.label, IsAlias l
  | .message m => IsIdentifier m.source ∧ IsIdentifier m.target ∧
      (m.activation = some .deactivate → m.target.toList.head? ≠ some 'x') ∧
      ∀ t ∈ m.text, IsContent t
  | .note n => n.participants ≠ [] ∧ (∀ id ∈ n.participants, IsIdentifier id) ∧ IsContent n.text
  | .activation id _ => IsIdentifier id

/-- A statement of which all parts can stand in a document, without the statements it holds. -/
def Statement.Readable : Statement → Prop
  | .clause c => c.Readable
  | .block head _ branches => (∀ l ∈ head.label, IsHeading l) ∧
      (∀ b ∈ branches, ∀ l ∈ b.label, IsHeading l) ∧
      (branches ≠ [] → head.kind.branchKeyword?.isSome)

section Decidable

instance (s : String) : Decidable (IsText s) := inferInstanceAs (Decidable (_ ∧ _ ∧ _))

instance (t : Content) : Decidable (IsContent t) := inferInstanceAs (Decidable (_ ∧ _))

instance (s : String) : Decidable (IsAlias s) := inferInstanceAs (Decidable (_ ∧ _))

instance (s : String) : Decidable (IsHeading s) := inferInstanceAs (Decidable (_ ∧ _))

instance : (c : Clause) → Decidable c.Readable
  | .participant _ => inferInstanceAs (Decidable (_ ∧ _))
  | .message _ => inferInstanceAs (Decidable (_ ∧ _ ∧ _ ∧ _))
  | .note _ => inferInstanceAs (Decidable (_ ∧ _ ∧ _))
  | .activation id _ => inferInstanceAs (Decidable (IsIdentifier id))

instance : (s : Statement) → Decidable s.Readable
  | .clause c => inferInstanceAs (Decidable c.Readable)
  | .block .. => inferInstanceAs (Decidable (_ ∧ _ ∧ _))

end Decidable

theorem IsText.trimmed {s : String} (h : IsText s) : Trimmed s.toList := .of_trim_eq h.2.2

theorem IsText.toList_ne_nil {s : String} (h : IsText s) : s.toList ≠ [] := by simpa using h.1

theorem IsText.isTail {s : String} (h : IsText s) : Token.IsTail s.toList :=
  Token.isTail_of_trimmed h.trimmed h.toList_ne_nil

/-! ### Names -/

/-- A name `id` that is one token by itself, an identifier or a number. -/
structure IsNameOf (kind : TokenKind) (id : String) : Prop where
  mem : kind ∈ nameKinds
  first : Rule.first (Rule.common ++ Dialect.sequenceRules) id.toList = (kind, id.toList.length)

/-- A character `c` that an identifier or a number starts with. -/
def startsName (c : Char) : Bool := c.isAlpha || c == '_' || isDecimal c

theorem ne_of_startsName {c : Char} (hc : startsName c = true) {e : Char}
    (he : startsName e = false) : c ≠ e := by
  rintro rfl
  rw [he] at hc
  cases hc

/-- What starts as a name does is measured as a number or as an identifier, since no other rule
begins with such a character `c`. -/
theorem first_of_startsName {c : Char} (hc : startsName c = true) (cs : List Char) :
    Rule.first (Rule.common ++ Dialect.sequenceRules) (c :: cs) = Rule.first
      [(.number, Measure.number), (.identifier, Measure.wordIdentifier)] (c :: cs) := by
  have hliteral : ∀ (e : Char) (s : List Char), startsName e = false →
      Measure.literal (e :: s) (c :: cs) = 0 := fun e s he =>
    Measure.literal_cons_of_ne (ne_of_startsName hc he) s cs
  have hcomment : Measure.comment (c :: cs) = 0 :=
    Measure.comment_eq_zero_iff.2 (hliteral '%' _ (by decide))
  have hstring : Measure.quotedString (c :: cs) = 0 := by
    refine Measure.quotedString.eq_2 _ ?_
    rintro cs' ⟨⟩
    exact ne_of_startsName hc (e := '"') (by decide) rfl
  simp (disch := decide) only [Rule.common, Dialect.sequenceRules, Rule.lineOriented,
    List.cons_append, List.nil_append, Rule.first, hcomment, hstring, hliteral,
    Measure.messageArrow, Measure.firstOf, ↓reduceIte]

/-- A name `id` is not empty, and starts as a name does. -/
theorem IsNameOf.exists_cons {kind : TokenKind} {id : String} (h : IsNameOf kind id) :
    ∃ c cs, id.toList = c :: cs ∧ startsName c = true := by
  have hkind : kind = .identifier ∨ kind = .number := by simpa [nameKinds] using h.mem
  have hrule : ∀ r ∈ Rule.common ++ Dialect.sequenceRules,
      (r.1 = .identifier → r.2 = Measure.wordIdentifier) ∧
        (r.1 = .number → r.2 = Measure.number) := by
    simp [Rule.common, Dialect.sequenceRules, Rule.lineOriented]
  obtain ⟨r, hr, hrkind, hlength, h0⟩ :=
    Rule.exists_of_first h.first (by rcases hkind with rfl | rfl <;> decide)
  obtain ⟨hidentifier, hnumber⟩ := hrule r hr
  cases hid : id.toList with
  | nil =>
    rw [hid] at h0
    exact absurd rfl h0
  -- The first character is that of an identifier or of a number, by the rule that measures the
  -- name.
  | cons c cs =>
    rw [hid, List.length_cons] at hlength
    refine ⟨c, cs, rfl, ?_⟩
    rcases hkind with rfl | rfl
    · rw [hidentifier hrkind, Measure.wordIdentifier] at hlength
      split at hlength
      · next hc => rw [startsName, hc, Bool.true_or]
      · omega
    · rw [hnumber hrkind, Measure.number_eq] at hlength
      split at hlength
      · omega
      · next hrun =>
        have hc : isDecimal c = true := by
          by_contra hc
          simp [Measure.run, hc] at hrun
        rw [startsName, hc, Bool.or_true]

theorem IsNameOf.toList_ne_nil {kind : TokenKind} {id : String} (h : IsNameOf kind id) :
    id.toList ≠ [] := by
  obtain ⟨c, cs, hcs, -⟩ := h.exists_cons
  rw [hcs]
  exact List.cons_ne_nil c cs

/-- Characters that end a name, be it a number or an identifier: the first of `b`, or nothing. -/
def EndsName (b : List Char) : Prop :=
  ∀ c ∈ b.head?, isWord c = false ∧ isDecimal c = false ∧ c ≠ '.'

/-- A name `id` ends before a character of no word and no number, whatever kind of name it is. -/
theorem first_name {kind : TokenKind} {id : String} (h : IsNameOf kind id) {b : List Char}
    (hb : EndsName b) : Rule.first (Rule.common ++ Dialect.sequenceRules) (id.toList ++ b) =
      (kind, id.toList.length) := by
  obtain ⟨c, cs, hcs, hc⟩ := h.exists_cons
  have hnumber := Measure.number_append id.toList fun c hc => (hb c hc).2
  have hidentifier := Measure.wordIdentifier_append h.toList_ne_nil fun c hc => (hb c hc).1
  have hfirst := h.first
  rw [hcs, List.cons_append] at *
  rw [first_of_startsName hc] at hfirst ⊢
  rw [← hfirst]
  simp only [Rule.first, hnumber, hidentifier]

/-! ### Lexemes -/

/-- A name `id` that is an identifier ends before the first character that belongs to no word. -/
theorem first_identifier {id : String} (h : IsIdentifier id) {b : List Char}
    (hb : ∀ c ∈ b.head?, isWord c = false) :
    Rule.first (Rule.common ++ Dialect.sequenceRules) (id.toList ++ b) =
      (.identifier, id.toList.length) := by
  obtain ⟨c, cs, hcs, -, -⟩ := h.exists_cons
  have hne : c ≠ '-' := by
    rintro rfl
    exact absurd (h.2.2 '-' (by rw [hcs]; exact List.mem_cons_self)) (by decide)
  have hrules : ∀ r ∈ ([(.arrow, Measure.messageArrow)] : List Rule), r.2 (id.toList ++ b) = 0 := by
    rw [hcs]
    simp only [Measure.messageArrow, Measure.firstOf, List.cons_append, List.forall_mem_singleton,
      Measure.literal_cons_of_ne hne, ↓reduceIte]
  exact Rule.first_identifier h hb hrules

/-- An identifier `id` of ASCII characters is a name. -/
theorem isNameOf_of_isIdentifier {id : String} (h : IsIdentifier id) : IsNameOf .identifier id := by
  have hfirst := first_identifier h (b := []) nofun
  rw [List.append_nil] at hfirst
  exact ⟨by decide, hfirst⟩

/-- An arrow ends where its spelling does, unless the next character makes it a longer one, which
only `>` can. -/
theorem first_arrow (a : Arrow) {b : List Char} (hb : b.head? ≠ some '>') :
    Rule.first (Rule.common ++ Dialect.sequenceRules) (a.text.toList ++ b) =
      (.arrow, a.text.toList.length) := by
  cases b with
  | nil => cases a <;> decide
  | cons c b =>
    have hc : ¬ '>' = c := fun h => hb (by rw [h]; rfl)
    cases a <;>
      simp [Arrow.text, Rule.common, Dialect.sequenceRules, Rule.first, Measure.comment,
        Measure.quotedString, Measure.literal, Measure.messageArrow, Measure.firstOf, hc]

/-- A minus before a name is one, unless it makes an arrow with an `x`. -/
theorem first_minus {kind : TokenKind} {id : String} (h : IsNameOf kind id)
    (hx : id.toList.head? ≠ some 'x') (b : List Char) :
    Rule.first (Rule.common ++ Dialect.sequenceRules) (['-'] ++ (id.toList ++ b)) =
      (.minus, 1) := by
  obtain ⟨c, cs, hcs, hc⟩ := h.exists_cons
  have hx : ¬ 'x' = c := fun h => hx (by rw [hcs, h]; rfl)
  have hminus : ¬ '-' = c := (ne_of_startsName hc (by decide)).symm
  have hhead : ¬ '>' = c := (ne_of_startsName hc (by decide)).symm
  have hparen : ¬ ')' = c := (ne_of_startsName hc (by decide)).symm
  rw [hcs]
  simp [Rule.common, Dialect.sequenceRules, Rule.lineOriented, Rule.first, Measure.comment,
    Measure.quotedString, Measure.literal, Measure.messageArrow, Measure.firstOf, hx, hminus,
    hhead, hparen]

/-- A minus and an `x` are an arrow. -/
theorem first_cross (b : List Char) :
    Rule.first (Rule.common ++ Dialect.sequenceRules) (['-', 'x'] ++ b) = (.arrow, 2) := by
  simp [Rule.common, Dialect.sequenceRules, Rule.first, Measure.comment, Measure.quotedString,
    Measure.literal, Measure.messageArrow, Measure.firstOf]

theorem first_plus (b : List Char) :
    Rule.first (Rule.common ++ Dialect.sequenceRules) (['+'] ++ b) = (.plus, 1) := by
  simp [Rule.common, Dialect.sequenceRules, Rule.lineOriented, Rule.first, Measure.comment,
    Measure.quotedString, Measure.literal, Measure.messageArrow, Measure.firstOf]

theorem first_comma (b : List Char) :
    Rule.first (Rule.common ++ Dialect.sequenceRules) ([','] ++ b) = (.comma, 1) := by
  simp [Rule.common, Dialect.sequenceRules, Rule.lineOriented, Rule.first, Measure.comment,
    Measure.quotedString, Measure.literal, Measure.messageArrow, Measure.firstOf]

/-! ### Names in lines -/

/-- A name `id` is the first token of its line, and what stands behind it is scanned on its own. -/
theorem ofLine_name {kind : TokenKind} {id : String} (h : IsNameOf kind id) {b : List Char}
    (hb : EndsName b) (gap : List Char) : Token.ofLine .sequence gap (id.toList ++ b) =
      Token.plain kind gap id.toList :: Token.ofLine .sequence [] b := by
  refine Token.ofLine_lexeme Dialect.regular_sequence h.toList_ne_nil (fun c hc => ?_)
    (first_name h hb) ?_ gap
  · obtain ⟨e, cs, hcs, he⟩ := h.exists_cons
    rw [hcs] at hc
    cases hc
    cases hblank : isSpaceOrTab c with
    | false => rfl
    | true => rcases Measure.eq_of_isSpaceOrTab hblank with rfl | rfl <;> cases he
  · rintro rfl
    exact absurd h.mem (by decide)

/-- An identifier `id` is the first token of its line, and what stands behind it is scanned on its
own. -/
theorem ofLine_identifier {id : String} (h : IsIdentifier id) {b : List Char}
    (hb : ∀ c ∈ b.head?, isWord c = false) (gap : List Char) :
    Token.ofLine .sequence gap (id.toList ++ b) =
      Token.plain .identifier gap id.toList :: Token.ofLine .sequence [] b :=
  Token.ofLine_lexeme Dialect.regular_sequence h.toList_ne_nil
    (fun c hc => isSpaceOrTab_of_not_isBlank (h.head_not_isBlank c hc)) (first_identifier h hb)
    (by decide) gap

/-- A name `id` before a space is the first token of its line, and the space belongs to the next. -/
theorem ofLine_identifier_space {id : String} (h : IsIdentifier id) (gap b : List Char) :
    Token.ofLine .sequence gap (id.toList ++ ' ' :: b) =
      Token.plain .identifier gap id.toList :: Token.ofLine .sequence [' '] b := by
  have hspace : ∀ c ∈ (' ' :: b).head?, isWord c = false := by
    rintro c ⟨⟩
    decide
  rw [ofLine_identifier h hspace, Token.ofLine_cons_blank Dialect.regular_sequence rfl]
  rfl

theorem ofLine_identifier_end {id : String} (h : IsIdentifier id) (gap : List Char) :
    Token.ofLine .sequence gap id.toList = [Token.plain .identifier gap id.toList] := by
  have hline := ofLine_identifier h (b := []) nofun gap
  rwa [List.append_nil, Token.ofLine_nil] at hline

/-! ### Messages -/

/-- A text as it is written behind a colon, or nothing without a text. -/
def textChars (text : Option Content) : List Char :=
  text.elim [] fun t => ':' :: ' ' :: t.raw.toList

/-- The tokens of a text behind a colon, or none without a text. -/
def textTokens (text : Option Content) : List Token :=
  text.elim [] fun t => [Token.plain .colon [] [':'], Token.plain .text [' '] t.raw.toList]

theorem ofLine_textChars {text : Option Content} (h : ∀ t ∈ text, Token.IsTail t.raw.toList) :
    Token.ofLine .sequence [] (textChars text) = textTokens text := by
  cases text with
  | none => exact Token.ofLine_nil _ _
  | some t =>
    have hafter : Token.afterColon ([' '] ++ t.raw.toList) =
        [Token.plain .text [' '] t.raw.toList] := Token.afterColon_text (by decide) (h t rfl)
    show Token.ofLine .sequence [] (':' :: ([' '] ++ t.raw.toList)) = _
    rw [Token.ofLine_cons_colon Dialect.regular_sequence, hafter]
    rfl

theorem plain_textChars {text : Option Content} (h : ∀ t ∈ text, IsText t.raw) :
    Plain (textChars text) := by
  cases text with
  | none => exact .nil
  | some t =>
    have hcolon : Plain [':', ' '] := by simp [Plain, isBlank, isSpaceOrTab]
    exact Plain.append.2 ⟨hcolon, (h t rfl).2.1⟩

/-- The tokens of an activation mark, or none without a mark. -/
def markTokens (mark : Option ActivationMark) : List Token :=
  mark.elim [] fun
    | .activate => [Token.plain .plus [] ['+']]
    | .deactivate => [Token.plain .minus [] ['-']]

/-- The characters of an activation mark, or none without a mark. -/
def markChars (mark : Option ActivationMark) : List Char :=
  mark.elim [] fun m => m.text.toList

theorem toList_message (m : Message) : m.line.toList = m.source.toList ++
    (m.arrow.text.toList ++ (markChars m.activation ++ (m.target.toList ++ textChars m.text))) := by
  obtain ⟨source, target, arrow, text, mark, position⟩ := m
  cases text <;> cases mark <;> simp [Message.line, markChars, textChars, toString]

/-- The target of a message is a token of its own behind an activation mark, unless a minus and an
`x` stand together. -/
theorem ofLine_mark {mark : Option ActivationMark} {kind : TokenKind} {target : String}
    (h : IsNameOf kind target) (hmark : mark = some .deactivate → target.toList.head? ≠ some 'x')
    (b : List Char) : Token.ofLine .sequence [] (markChars mark ++ (target.toList ++ b)) =
      markTokens mark ++ Token.ofLine .sequence [] (target.toList ++ b) := by
  match mark with
  | none => rfl
  | some .activate =>
    exact Token.ofLine_lexeme Dialect.regular_sequence (x := ['+']) (by decide) (by decide)
      (first_plus _) (by decide) []
  | some .deactivate =>
    exact Token.ofLine_lexeme Dialect.regular_sequence (x := ['-']) (by decide) (by decide)
      (first_minus h (hmark rfl) b) (by decide) []

theorem endsName_textChars (text : Option Content) : EndsName (textChars text) := by
  cases text with
  | none => exact nofun
  | some t =>
    rintro e ⟨⟩
    decide

/-- The row of a message `m` starts with its source and its arrow, whatever stands behind them. -/
theorem ofLine_message_start {m : Message} {kind kind' : TokenKind}
    (hsource : IsNameOf kind m.source)
    (htarget : IsNameOf kind' m.target) (gap : List Char) :
    Token.ofLine .sequence gap m.line.toList = Token.plain kind gap m.source.toList ::
      Token.plain .arrow [] m.arrow.text.toList ::
        Token.ofLine .sequence [] (markChars m.activation ++
          (m.target.toList ++ textChars m.text)) := by
  obtain ⟨c, cs, hcs, hc⟩ := htarget.exists_cons
  have harrow : ∀ b : List Char, EndsName (m.arrow.text.toList ++ b) := by
    intro b
    cases m.arrow <;> rintro e ⟨⟩ <;> decide
  -- what stands behind the arrow goes on with a mark or with a name
  have hbehind : (markChars m.activation ++ (m.target.toList ++ textChars m.text)).head? ≠
      some '>' := by
    match m.activation with
    | none =>
      rw [hcs]
      rintro ⟨⟩
      exact absurd hc (by decide)
    | some .activate => exact (by decide : some '+' ≠ some '>')
    | some .deactivate => exact (by decide : some '-' ≠ some '>')
  have harrowHead : m.arrow.text.toList ≠ [] ∧
      ∀ e ∈ m.arrow.text.toList.head?, isSpaceOrTab e = false := by
    cases m.arrow <;> decide
  rw [toList_message, ofLine_name hsource (harrow _), Token.ofLine_lexeme Dialect.regular_sequence
    harrowHead.1 harrowHead.2 (first_arrow m.arrow hbehind) (by decide)]

/-- The row of a message `m`, unless a mark that deactivates its target makes an arrow with it. -/
theorem ofLine_message {m : Message} {kind kind' : TokenKind} (hsource : IsNameOf kind m.source)
    (htarget : IsNameOf kind' m.target)
    (hmark : m.activation = some .deactivate → m.target.toList.head? ≠ some 'x')
    (htext : ∀ t ∈ m.text, Token.IsTail t.raw.toList) (gap : List Char) :
    Token.ofLine .sequence gap m.line.toList = Token.plain kind gap m.source.toList ::
      Token.plain .arrow [] m.arrow.text.toList :: (markTokens m.activation ++
        Token.plain kind' [] m.target.toList :: textTokens m.text) := by
  rw [ofLine_message_start hsource htarget, ofLine_mark htarget hmark,
    ofLine_name htarget (endsName_textChars _), ofLine_textChars htext]

/-- The row of a message `m` of which all parts can stand in a document, with identifiers as its
ends. -/
theorem ofLine_readableMessage {m : Message} (h : (Clause.message m).Readable) (gap : List Char) :
    Token.ofLine .sequence gap m.line.toList = Token.plain .identifier gap m.source.toList ::
      Token.plain .arrow [] m.arrow.text.toList :: (markTokens m.activation ++
        Token.plain .identifier [] m.target.toList :: textTokens m.text) :=
  ofLine_message (isNameOf_of_isIdentifier h.1) (isNameOf_of_isIdentifier h.2.1) h.2.2.1
    (fun t ht => (h.2.2.2 t ht).1.isTail) gap

/-! ### Notes -/

theorem ofLine_names {ids : List String} (hne : ids ≠ []) (h : ∀ id ∈ ids, IsIdentifier id)
    {b : List Char} (hb : ∀ c ∈ b.head?, isWord c = false) (gap : List Char) :
    Token.ofLine .sequence gap ((",".intercalate ids).toList ++ b) =
      Token.names gap ids ++ Token.ofLine .sequence [] b := by
  refine Token.row_names (fun _ => Token.ofLine .sequence) hne
    (fun id hid _ gap cs hcs => ?_) (fun cs => ?_) true gap
  · refine ofLine_identifier (h id hid) ?_ gap
    obtain rfl | hcs := hcs
    · exact hb
    · rw [hcs]
      rintro c ⟨⟩
      decide
  · exact Token.ofLine_lexeme Dialect.regular_sequence (by decide) (by decide) (first_comma cs)
      (by decide) []

/-- The tokens of the words for a placement, which are one or two. -/
def placementTokens : NotePlacement → List Token
  | .leftOf => [Token.plain .identifier [' '] "left".toList,
      Token.plain .identifier [' '] "of".toList]
  | .rightOf =>
    [Token.plain .identifier [' '] "right".toList, Token.plain .identifier [' '] "of".toList]
  | .across => [Token.plain .identifier [' '] "over".toList]

theorem ofLine_placement (p : NotePlacement) (b : List Char) :
    Token.ofLine .sequence [' '] (p.text.toList ++ ' ' :: b) =
      placementTokens p ++ Token.ofLine .sequence [' '] b := by
  cases p with
  | leftOf =>
    show Token.ofLine .sequence [' '] ("left".toList ++ ' ' :: ("of".toList ++ ' ' :: b)) = _
    rw [ofLine_identifier_space (by decide), ofLine_identifier_space (by decide)]
    rfl
  | rightOf =>
    show Token.ofLine .sequence [' '] ("right".toList ++ ' ' :: ("of".toList ++ ' ' :: b)) = _
    rw [ofLine_identifier_space (by decide), ofLine_identifier_space (by decide)]
    rfl
  | across =>
    show Token.ofLine .sequence [' '] ("over".toList ++ ' ' :: b) = _
    rw [ofLine_identifier_space (by decide)]
    rfl

theorem toList_note (n : Note) : (Clause.note n).text.toList = "note".toList ++ ' ' ::
    (n.placement.text.toList ++ ' ' ::
      ((",".intercalate n.participants).toList ++ textChars (some n.text))) := by
  simp [Clause.text, textChars, toString]

/-- The row of a note `n` of which all parts can stand in a document. -/
theorem ofLine_note {n : Note} (h : (Clause.note n).Readable) (gap : List Char) :
    Token.ofLine .sequence gap (Clause.note n).text.toList =
      Token.plain .identifier gap "note".toList :: (placementTokens n.placement ++
        (Token.names [' '] n.participants ++ textTokens (some n.text))) := by
  obtain ⟨hne, hnames, htext⟩ := h
  have hcolon : ∀ c ∈ (textChars (some n.text)).head?, isWord c = false := by
    rintro c ⟨⟩
    decide
  rw [toList_note, ofLine_identifier_space (by decide), ofLine_placement,
    ofLine_names hne hnames hcolon, ofLine_textChars (by simpa using htext.1.isTail)]

/-! ### Lines of a keyword -/

/-- A text behind a keyword as it is written, or nothing without a text. -/
def labelChars (label : Option String) : List Char := label.elim [] fun l => ' ' :: l.toList

/-- The tokens of a text behind a keyword. Their number depends on the text. -/
def labelTokens (label : Option String) : List Token :=
  label.elim [] fun l => Token.ofLine .sequence [' '] l.toList

/-- The row of a keyword and a text `label`, of which the first token is the keyword. -/
theorem ofLine_label {keyword : String} (h : IsIdentifier keyword) (label : Option String)
    (gap : List Char) : Token.ofLine .sequence gap (keyword.toList ++ labelChars label) =
      Token.plain .identifier gap keyword.toList :: labelTokens label := by
  cases label with
  | none =>
    rw [labelChars, Option.elim_none, List.append_nil]
    exact ofLine_identifier_end h gap
  | some l => exact ofLine_identifier_space h gap _

theorem toList_keywordLine {keyword : String} {label : Option String}
    (h : ∀ l ∈ label, IsText l) :
    (keywordLine keyword label).toList = keyword.toList ++ labelChars label := by
  cases label with
  | none => simp [keywordLine, labelChars]
  | some l =>
    have hne : l.isEmpty = false := by simpa using (h l rfl).1
    simp [keywordLine, labelChars, hne, toString]

theorem plain_labelChars {label : Option String} (h : ∀ l ∈ label, IsText l) :
    Plain (labelChars label) := by
  cases label with
  | none => exact .nil
  | some l => exact List.forall_mem_cons.2 ⟨fun _ => rfl, (h l rfl).2.1⟩

/-- The row of a line that opens a block or a branch with a `keyword`. -/
theorem ofLine_keywordLine {keyword : String} (hkeyword : IsIdentifier keyword)
    {label : Option String} (h : ∀ l ∈ label, IsText l) (gap : List Char) :
    Token.ofLine .sequence gap (keywordLine keyword label).toList =
      Token.plain .identifier gap keyword.toList :: labelTokens label := by
  rw [toList_keywordLine h, ofLine_label hkeyword]

/-- An alias of a participant as it is written, or nothing without an alias. -/
def aliasChars (label : Option String) : List Char :=
  label.elim [] fun l => ' ' :: ("as".toList ++ ' ' :: l.toList)

/-- The tokens of an alias, the word before it included. -/
def aliasTokens (label : Option String) : List Token :=
  label.elim [] fun l =>
    Token.plain .identifier [' '] "as".toList :: Token.ofLine .sequence [' '] l.toList

theorem toList_participant {p : Participant} (h : ∀ l ∈ p.label, IsText l) :
    (Clause.participant p).text.toList =
      p.kind.text.toList ++ ' ' :: (p.id.toList ++ aliasChars p.label) := by
  obtain ⟨id, label, kind, position⟩ := p
  cases label with
  | none => simp [Clause.text, aliasChars, toString]
  | some l =>
    have hne : l.isEmpty = false := by simpa using (h l rfl).1
    simp [Clause.text, aliasChars, hne, toString, Option.filter]

theorem isIdentifier_kind (k : ParticipantKind) : IsIdentifier k.text := by
  cases k <;> decide

/-- The row of a participant `p` of which all parts can stand in a document. -/
theorem ofLine_participant {p : Participant} (h : (Clause.participant p).Readable)
    (gap : List Char) : Token.ofLine .sequence gap (Clause.participant p).text.toList =
      Token.plain .identifier gap p.kind.text.toList ::
        Token.plain .identifier [' '] p.id.toList :: aliasTokens p.label := by
  obtain ⟨hid, hlabel⟩ := h
  rw [toList_participant fun l hl => (hlabel l hl).1, ofLine_identifier_space (isIdentifier_kind _)]
  cases p.label with
  | none =>
    rw [aliasChars, Option.elim_none, List.append_nil, ofLine_identifier_end hid]
    rfl
  | some l =>
    show _ :: Token.ofLine .sequence [' '] (p.id.toList ++ ' ' ::
        ("as".toList ++ ' ' :: l.toList)) = _
    rw [ofLine_identifier_space hid, ofLine_identifier_space (by decide)]
    rfl

/-- The row of an activation or a deactivation of an identifier `id`. -/
theorem ofLine_activation {id : String} (h : IsIdentifier id) (active : Bool) (gap : List Char) :
    Token.ofLine .sequence gap (Clause.activation id active).text.toList =
      [Token.plain .identifier gap (if active then "activate" else "deactivate").toList,
        Token.plain .identifier [' '] id.toList] := by
  have hlist : (Clause.activation id active).text.toList =
      (if active then "activate" else "deactivate").toList ++ ' ' :: id.toList := by
    simp [Clause.text, toString]
  have hkeyword : IsIdentifier (if active then "activate" else "deactivate") := by
    cases active <;> decide
  rw [hlist, ofLine_identifier_space hkeyword, ofLine_identifier_end h]

/-! ### Texts that are taken as they stand -/

/-- An alias `s` is taken from its row as it was written, since no token of it ends a statement. -/
theorem IsAlias.isSpan {s : String} (h : IsAlias s) :
    Token.IsSpan .sequence (fun k => !k.endsStatement && !([] : List TokenKind).contains k)
      s.toList :=
  Token.isSpan_of_kinds Dialect.regular_sequence (by decide) h.1.2.1 h.1.trimmed h.2

/-- Only a minus starts an arrow. -/
theorem kind_first_ne_arrow {c : Char} (hc : c ≠ '-') (cs : List Char) :
    (Rule.first (Rule.common ++ Dialect.sequenceRules) (c :: cs)).1 ≠ .arrow := by
  have hzero : Measure.messageArrow (c :: cs) = 0 := by
    simp only [Measure.messageArrow, Measure.firstOf, Measure.literal_cons_of_ne hc, ↓reduceIte]
  rcases Rule.first_eq_or (Rule.common ++ Dialect.sequenceRules) (c :: cs) with
    ⟨h, -⟩ | ⟨r, hr, h0, h⟩
  · rw [h]
    decide
  rw [h]
  intro hkind
  have hkinds : ∀ r ∈ Rule.common ++ Rule.lineOriented, r.1 ≠ .arrow := by
    have hall : ∀ k ∈ (Rule.common ++ Rule.lineOriented).map Prod.fst, k ≠ .arrow := by decide
    exact fun r hr => hall r.1 (List.mem_map_of_mem hr)
  rw [Dialect.sequenceRules] at hr
  rcases List.mem_append.1 hr with hr | hr
  · exact hkinds r (List.mem_append_left _ hr) hkind
  · obtain rfl | hr := List.mem_cons.1 hr
    · exact h0 hzero
    · exact hkinds r (List.mem_append_right _ hr) hkind

/-- The row of a heading `s` does not start with an arrow, nor is it empty. -/
theorem IsHeading.exists_ofLine {s : String} (h : IsHeading s) (gap : List Char) :
    ∃ t ts, Token.ofLine .sequence gap s.toList = t :: ts ∧ t.kind ≠ .arrow := by
  obtain ⟨c, cs, hcs⟩ := List.exists_cons_of_ne_nil h.1.1.toList_ne_nil
  have hblank : isSpaceOrTab c = false :=
    isSpaceOrTab_of_not_isBlank (h.1.1.trimmed.head c (by rw [hcs]; rfl))
  have hminus : c ≠ '-' := fun hc => h.2 (by rw [hcs, hc]; rfl)
  obtain ⟨t, ts, hline, -, hkind⟩ := Token.exists_ofLine Dialect.regular_sequence hblank gap cs
  refine ⟨t, ts, by rw [hcs, hline], ?_⟩
  rw [hkind]
  exact kind_first_ne_arrow hminus cs

/-! ### Lines that can be written -/

theorem kind_textTokens (text : Option Content) : ∀ t ∈ textTokens text, t.kind ≠ .comment := by
  cases text with
  | none => exact List.forall_mem_nil _
  | some t => simp [textTokens, Token.plain]

theorem kind_labelTokens {label : Option String} (h : ∀ l ∈ label, IsAlias l) :
    ∀ t ∈ labelTokens label, t.kind ≠ .comment := by
  cases label with
  | none => exact List.forall_mem_nil _
  | some l => exact fun t ht => ((h l rfl).isSpan.kinds [' '] t ht).2

theorem kind_aliasTokens {label : Option String} (h : ∀ l ∈ label, IsAlias l) :
    ∀ t ∈ aliasTokens label, t.kind ≠ .comment := by
  cases label with
  | none => exact List.forall_mem_nil _
  | some l => exact List.forall_mem_cons.2 ⟨nofun, kind_labelTokens h⟩

/-- The row of a clause `c` holds no comment, if all parts of the clause can stand in a document. -/
theorem Clause.Readable.kind_ne_comment {c : Clause} (h : c.Readable) (gap : List Char) :
    ∀ t ∈ Token.ofLine .sequence gap c.text.toList, t.kind ≠ .comment := by
  -- the row of each kind of clause is known token by token
  cases c with
  | participant p =>
    rw [ofLine_participant h]
    exact List.forall_mem_cons.2 ⟨Token.kind_plain_ne (by decide),
      List.forall_mem_cons.2 ⟨Token.kind_plain_ne (by decide), kind_aliasTokens h.2⟩⟩
  | message m =>
    have hmark : ∀ t ∈ markTokens m.activation, t.kind ≠ .comment := by
      rcases m.activation with _ | _ | _
      · exact List.forall_mem_nil _
      · exact List.forall_mem_singleton.2 (Token.kind_plain_ne (by decide))
      · exact List.forall_mem_singleton.2 (Token.kind_plain_ne (by decide))
    show ∀ t ∈ Token.ofLine .sequence gap m.line.toList, t.kind ≠ .comment
    rw [ofLine_readableMessage h]
    refine List.forall_mem_cons.2 ⟨Token.kind_plain_ne (by decide),
      List.forall_mem_cons.2 ⟨Token.kind_plain_ne (by decide),
        List.forall_mem_append.2 ⟨hmark, ?_⟩⟩⟩
    exact List.forall_mem_cons.2 ⟨Token.kind_plain_ne (by decide), kind_textTokens _⟩
  | note n =>
    have hplacement : ∀ t ∈ placementTokens n.placement, t.kind ≠ .comment := by
      cases n.placement <;> simp [placementTokens, Token.plain]
    have hnames : ∀ t ∈ Token.names [' '] n.participants, t.kind ≠ .comment := by
      cases n.participants with
      | nil => exact List.forall_mem_nil _
      | cons id ids =>
        refine List.forall_mem_cons.2 ⟨Token.kind_plain_ne (by decide), fun t ht => ?_⟩
        obtain ⟨id', -, ht⟩ := List.mem_flatMap.1 ht
        obtain rfl | rfl : t = Token.plain .comma [] [','] ∨
            t = Token.plain .identifier [] id'.toList := by simpa using ht
        · exact Token.kind_plain_ne (by decide)
        · exact Token.kind_plain_ne (by decide)
    rw [ofLine_note h]
    refine List.forall_mem_cons.2 ⟨Token.kind_plain_ne (by decide),
      List.forall_mem_append.2 ⟨hplacement, ?_⟩⟩
    exact List.forall_mem_append.2 ⟨hnames, kind_textTokens _⟩
  | activation id active =>
    rw [ofLine_activation h]
    exact List.forall_mem_cons.2 ⟨Token.kind_plain_ne (by decide),
      List.forall_mem_singleton.2 (Token.kind_plain_ne (by decide))⟩

theorem plain_names {ids : List String} (h : ∀ id ∈ ids, IsIdentifier id) :
    Plain (",".intercalate ids).toList := by
  induction ids with
  | nil => exact .nil
  | cons id ids ih =>
    obtain ⟨hid, h⟩ := List.forall_mem_cons.1 h
    cases ids with
    | nil =>
      rw [String.intercalate_singleton]
      exact hid.plain
    | cons id' ids =>
      have hcomma : Plain ",".toList := by simp [Plain, isBlank]
      rw [String.intercalate_cons_cons, String.toList_append, String.toList_append]
      exact Plain.append.2 ⟨Plain.append.2 ⟨hid.plain, hcomma⟩, ih h⟩

/-- The line of a clause `c` can be written, if all parts of the clause can stand in a document. -/
theorem Clause.Readable.isWritable {c : Clause} (h : c.Readable) : IsWritable c.text.toList := by
  have hspace : ∀ cs : List Char, Plain cs → Plain (' ' :: cs) := fun cs hcs =>
    List.forall_mem_cons.2 ⟨fun _ => rfl, hcs⟩
  -- every line starts with an identifier, so only the rest has to be plain
  cases c with
  | participant p =>
    have halias : Plain (aliasChars p.label) := by
      cases hl : p.label with
      | none => exact .nil
      | some l =>
        have has : Plain "as".toList := by simp [Plain, isBlank]
        exact hspace _ (Plain.append.2 ⟨has, hspace _ (h.2 l hl).1.2.1⟩)
    rw [toList_participant fun l hl => (h.2 l hl).1]
    exact (isIdentifier_kind _).isWritable_append
      (hspace _ (Plain.append.2 ⟨h.1.plain, halias⟩))
  | message m =>
    have harrow : Plain m.arrow.text.toList := by
      cases m.arrow <;> simp [Arrow.text, Plain, isBlank]
    have hmark : Plain (markChars m.activation) := by
      cases m.activation with
      | none => exact .nil
      | some mark => cases mark <;> simp [markChars, ActivationMark.text, Plain, isBlank]
    have htext := plain_textChars fun t ht => (h.2.2.2 t ht).1
    show IsWritable m.line.toList
    rw [toList_message]
    refine h.1.isWritable_append (Plain.append.2 ⟨harrow, Plain.append.2 ⟨hmark, ?_⟩⟩)
    exact Plain.append.2 ⟨h.2.1.plain, htext⟩
  | note n =>
    have hplacement : Plain n.placement.text.toList := by
      cases n.placement <;> simp [NotePlacement.text, Plain, isBlank, isSpaceOrTab]
    have htext : Plain (textChars (some n.text)) := plain_textChars (by simpa using h.2.2.1)
    rw [toList_note]
    refine IsIdentifier.isWritable_append (by decide) (hspace _
      (Plain.append.2 ⟨hplacement, hspace _ ?_⟩))
    exact Plain.append.2 ⟨plain_names h.2.1, htext⟩
  | activation id active =>
    have hlist : (Clause.activation id active).text.toList =
        (if active then "activate" else "deactivate").toList ++ ' ' :: id.toList := by
      simp [Clause.text, toString]
    rw [hlist]
    exact IsIdentifier.isWritable_append (by cases active <;> decide)
      (hspace _ (IsIdentifier.plain h))

end Sequence
end DiagramText
