import DiagramText.Proofs.Classes.Row
import DiagramText.Proofs.Roster

/-!
# Reading written lines of class diagrams

A class is written with all it has before any other is, so its members and its stereotype are put
into the class that was added last, and a relation between classes that are there adds none.

* `Classes.ReadsBody`: rows of a class body that take one diagram to another.
* `Classes.readsLines_definition`: the lines of a new class add the class.
* `Classes.readsLines_relation`: the line of a relation adds the relation.
-/

namespace DiagramText

open Text Reading

namespace ClassDiagram

open Classes

variable {d : ClassDiagram} {c : Definition} {name : String}

/-- The names of the classes of a diagram `d`, in order. -/
def names (d : ClassDiagram) : List String := d.classes.map Definition.name

/-- The diagram with a class `c` at its end, whether or not its name is new. -/
def add (d : ClassDiagram) (c : Definition) : ClassDiagram :=
  { d with classes := d.classes ++ [c] }

theorem mention_of_mem (h : name ∈ d.names) (position : Option Position) :
    d.mention name position = d := by
  rw [mention, if_pos (any_key_iff.2 h)]

theorem mention_of_not_mem (h : name ∉ d.names) (position : Option Position) :
    d.mention name position = d.add { name, position } := by
  rw [mention, if_neg (mt any_key_iff.1 h)]
  rfl

/-- A class that was added last is the one to be changed if its name is new: `modify` reaches no
other class. -/
theorem modify_add (h : c.name ∉ d.names) (f : Definition → Definition) :
    (d.add c).modify c.name f = d.add (f c) := by
  have hkeep : (d.classes.map fun x => if x.name = c.name then f x else x) = d.classes := by
    refine (List.map_congr_left fun x hx => if_neg ?_).trans (List.map_id _)
    exact fun hname => h (hname ▸ List.mem_map_of_mem hx)
  rw [modify, add, List.map_append, hkeep, List.map_singleton, if_pos rfl]
  rfl

end ClassDiagram

namespace Classes

open ClassDiagram

variable {d d' d'' : ClassDiagram} {name : String} {past ts row row' : List Token}
  {t u v nl final : Token} {layout : Layout}

/-! ### Members and stereotypes -/

theorem stereotype_cons (ht : t.kind = .stereotypeOpen) (hu : u.kind = .identifier)
    (hv : v.kind = .stereotypeClose) : stereotype ⟨past, t :: u :: v :: ts, final⟩ =
      .ok (u.text, ⟨v :: u :: t :: past, ts, final⟩) := by
  simp [stereotype, bind_apply, map_apply, expect_cons ht, expect_cons hu, expect_cons hv,
    Except.bind]

theorem bodyLine_stereotype {a : String} (ht : t.kind = .stereotypeOpen)
    (hu : u.kind = .identifier) (hv : v.kind = .stereotypeClose) (hnl : nl.kind = .newline)
    (ha : u.text = a) : bodyLine d name ⟨past, t :: u :: v :: nl :: ts, final⟩ =
      .ok (setStereotype d name a, ⟨nl :: v :: u :: t :: past, ts, final⟩) := by
  subst ha
  simp [bodyLine, bind_apply, map_apply, check_apply, Except.bind, ht, stereotype_cons ht hu hv,
    endStatement_cons, hnl]

theorem bodyLine_member {m : Member} (h : m.Readable) (ht : t.kind ≠ .stereotypeOpen)
    (hkinds : ∀ x ∈ t :: row, x.kind.endsStatement = false ∧ x.kind ∉ [.rightBrace])
    (hsource : trim (Token.source (t :: row)).toList = m.text.toList) (hnl : nl.kind = .newline) :
    bodyLine d name ⟨past, t :: row ++ nl :: ts, final⟩ =
      .ok (addMember d name m, ⟨nl :: ((t :: row).reverse ++ past), ts, final⟩) := by
  have hraw : rawUntil [.rightBrace] ⟨past, t :: row ++ nl :: ts, final⟩ =
      .ok (m.text, ⟨(t :: row).reverse ++ past, nl :: ts, final⟩) := by
    rw [rawUntil_append hkinds (.inl (by rw [hnl]; rfl)), hsource, String.ofList_toList]
  rw [List.cons_append] at hraw ⊢
  simp [bodyLine, bind_apply, map_apply, check_apply, peek_apply, Except.bind, ht, hraw, memberOf,
    ofResult, Member.ofText_text h.typeFirst, endStatement_cons, hnl]

/-! ### Bodies -/

/-- Rows of the lines of a class body take one diagram to another: reading the `body` goes on behind
them as if it had started with `d'`. -/
def ReadsBody (name : String) (d : ClassDiagram) (row : List Token) (d' : ClassDiagram) : Prop :=
  ∀ keyword past ts, ∃ past', body keyword name d ⟨past, row ++ ts, Token.endOfInput⟩ =
    body keyword name d' ⟨past', ts, Token.endOfInput⟩

namespace ReadsBody

theorem nil : ReadsBody name d [] d := fun _ past _ => ⟨past, rfl⟩

theorem append (h : ReadsBody name d row d') (h' : ReadsBody name d' row' d'') :
    ReadsBody name d (row ++ row') d'' := by
  intro keyword past ts
  obtain ⟨past', hrow⟩ := h keyword past (row' ++ ts)
  obtain ⟨past'', hrow'⟩ := h' keyword past' ts
  exact ⟨past'', by rw [List.append_assoc, hrow, hrow']⟩

/-- The row of a single line of a body. Reading it with `bodyLine` once is a round of the body. -/
theorem line (ht : t.kind ≠ .newline ∧ t.kind ≠ .semicolon) (hbrace : t.kind ≠ .rightBrace)
    (h : ∀ past ts, ∃ past', bodyLine d name ⟨past, t :: row ++ ts, Token.endOfInput⟩ =
      .ok (d', ⟨past', ts, Token.endOfInput⟩)) : ReadsBody name d (t :: row) d' := by
  intro keyword past ts
  obtain ⟨past', hline⟩ := h past ts
  rw [List.cons_append] at hline ⊢
  have hlt : ts.length < (t :: (row ++ ts)).length := by
    rw [List.length_cons, List.length_append]
    omega
  exact ⟨past', loop_inl (bodyRound_line _ [] nofun ht hbrace hline) hlt⟩

end ReadsBody

/-- A closing brace ends the body of the class `name`, and the line break behind it the
definition. -/
theorem body_close (keyword : Token) (ht : t.kind = .rightBrace) (hnl : nl.kind = .newline) :
    body keyword name d ⟨past, t :: nl :: ts, final⟩ =
      .ok (d, ⟨nl :: t :: past, ts, final⟩) :=
  loop_inr (bodyRound_close _ _ d [] nofun ht hnl)

/-- The line of a stereotype `a` sets it, in a body. -/
theorem readsBody_stereotype (hlayout : layout.IsBlank) {a : String} (h : IsIdentifier a) :
    ReadsBody name d (Token.fullLine .classes (layout.line 2 s!"<<{a}>>"))
      (setStereotype d name a) := by
  rw [Token.fullLine_line Token.skipsBlanks_classes hlayout 2 (ofLine_stereotype h _)
    (by simp [Token.plain])]
  exact .line ⟨Token.kind_plain_ne (by decide), Token.kind_plain_ne (by decide)⟩
    (Token.kind_plain_ne (by decide)) fun past ts =>
    ⟨_, bodyLine_stereotype rfl rfl rfl rfl String.ofList_toList⟩

/-- The line of a member `m` adds it, in a body. -/
theorem readsBody_member (hlayout : layout.IsBlank) {m : Member} (h : m.Readable) :
    ReadsBody name d (Token.fullLine .classes (layout.line 2 m.text)) (addMember d name m) := by
  obtain ⟨t, row, hrow, ht, hkinds, hsource⟩ :=
    ofLine_member h (Layout.isSpaceOrTab_of_mem_pad hlayout 2)
  rw [Token.fullLine_line Token.skipsBlanks_classes hlayout 2 hrow fun u hu => (hkinds u hu).2.1]
  have hfirst := hkinds t List.mem_cons_self
  rw [List.cons_append]
  refine .line ?_ ?_ fun past ts => ?_
  · constructor <;> (intro hk; rw [hk] at hfirst; exact absurd hfirst.1 (by decide))
  · intro hk
    exact hfirst.2.2 (by rw [hk]; exact List.mem_cons_self)
  · rw [← List.cons_append, List.append_assoc]
    exact ⟨_, bodyLine_member h ht (fun x hx => ⟨(hkinds x hx).1, (hkinds x hx).2.2⟩) hsource rfl⟩

/-- Members are put behind those of the class `c` that was added last. -/
theorem readsBody_members (hlayout : layout.IsBlank) {c : Definition} (hnew : c.name ∉ d.names)
    {ms : List Member} (h : ∀ m ∈ ms, m.Readable) :
    ReadsBody c.name (d.add c)
      ((ms.map fun m => layout.line 2 m.text).flatMap (Token.fullLine .classes))
      (d.add { c with members := c.members ++ ms }) := by
  induction ms generalizing c with
  | nil =>
    rw [List.append_nil]
    exact .nil
  | cons m ms ih =>
    obtain ⟨hm, h⟩ := List.forall_mem_cons.1 h
    have hmember : ReadsBody c.name (d.add c) (Token.fullLine .classes (layout.line 2 m.text))
        (addMember (d.add c) c.name m) := readsBody_member hlayout hm
    have hadd : addMember (d.add c) c.name m =
        d.add { c with members := c.members ++ [m] } := modify_add hnew _
    have hrest := ih (c := { c with members := c.members ++ [m] }) hnew h
    rw [List.append_assoc] at hrest
    rw [hadd] at hmember
    exact hmember.append hrest

/-! ### Classes -/

/-- The generic parameter `g` of a class is read between tildes. -/
theorem generic_genericTokens {c : Definition} {g : Option String}
    (hg : ∀ x ∈ g, IsIdentifier x) (hnew : c.name ∉ d.names) (hc : c.generic = none)
    (ht : t.kind ≠ .tilde) : ∃ past',
      generic (d.add c) c.name ⟨past, genericTokens g ++ t :: ts, final⟩ =
        .ok (d.add { c with generic := g }, ⟨past', t :: ts, final⟩) := by
  cases g with
  | none =>
    refine ⟨past, ?_⟩
    have hsame : { c with generic := none } = c := by
      cases c
      cases hc
      rfl
    rw [hsame]
    simp [generic, genericTokens, bind_apply, accept_cons, ht, Except.bind, pure_apply]
  | some x =>
    have hx := hg x rfl
    let tilde := Token.plain .tilde [] ['~']
    let identifier := Token.plain .identifier [] x.toList
    have htilde : tilde.kind = .tilde := rfl
    -- between the tildes stands one token, so the text that is taken there is the parameter
    have hsource : String.ofList (trim (Token.source [identifier]).toList) = x := by
      have htrim : Trimmed x.toList := ⟨hx.head_not_isBlank, fun c hc =>
        hx.not_isBlank c (List.mem_of_getLast? hc)⟩
      have hchars : (Token.source [identifier]).toList = x.toList := by
        simp [Token.source, identifier, Token.plain]
      rw [hchars, htrim.trim_eq, String.ofList_toList]
    have hraw : rawUntil [.tilde] ⟨tilde :: past, identifier :: tilde :: t :: ts, final⟩ =
        .ok (x, ⟨identifier :: tilde :: past, tilde :: t :: ts, final⟩) := by
      have h := @rawUntil_append (tilde :: past) (t :: ts) tilde final [.tilde] [identifier]
        (by simp [identifier, Token.plain, TokenKind.endsStatement]) (.inr (by rw [htilde]; decide))
      rw [hsource] at h
      exact h
    refine ⟨tilde :: identifier :: tilde :: past, ?_⟩
    have hmodify : (d.add c).modify c.name (fun c => { c with generic := some x }) =
        d.add { c with generic := some x } := modify_add hnew _
    show generic (d.add c) c.name ⟨past, tilde :: identifier :: tilde :: t :: ts, final⟩ = _
    simp [generic, bind_apply, accept_cons, htilde, Except.bind, hraw, expect_cons htilde, hx.1,
      hmodify, pure_apply]

theorem statement_definition (ht : t.isWord ["class"] = true) (hu : u.kind = .identifier) :
    statement d ⟨past, t :: u :: ts, final⟩ = definition d ⟨past, t :: u :: ts, final⟩ := by
  simp [statement, bind_apply, peek_apply, ahead_apply, accept_cons, Except.bind,
    kind_of_isWord ht, ht, hu]

/-- The definition of a class `name` without a body adds a class with its name and its generic
parameter. -/
theorem definition_plain {g : Option String} (hg : ∀ x ∈ g, IsIdentifier x) (hname : u.text = name)
    (hnew : name ∉ d.names) (hnl : nl.kind = .newline) : ∃ past',
      definition d ⟨past, t :: u :: (genericTokens g ++ nl :: ts), final⟩ =
        .ok (d.add { name, generic := g, position := some u.start }, ⟨past', ts, final⟩) := by
  subst hname
  have hkind : nl.kind ≠ .tilde := by rw [hnl]; decide
  obtain ⟨past', hgeneric⟩ := @generic_genericTokens d (u :: t :: past) ts nl final
    { name := u.text, position := some u.start } g hg hnew rfl hkind
  refine ⟨nl :: past', ?_⟩
  show (generic (d.mention u.text (some u.start)) u.text
    ⟨u :: t :: past, genericTokens g ++ nl :: ts, final⟩).bind _ = _
  rw [mention_of_not_mem hnew, hgeneric]
  simp [Except.bind, bind_apply, map_apply, check_apply, accept_cons, hnl, endStatement_cons]

/-- A class with a body goes on with the `body`, behind the class that it adds. -/
theorem definition_body {g : Option String} (hg : ∀ x ∈ g, IsIdentifier x) (hname : u.text = name)
    (hnew : name ∉ d.names) (hv : v.kind = .leftBrace) (hnl : nl.kind = .newline) : ∃ past',
      definition d ⟨past, t :: u :: (genericTokens g ++ v :: nl :: ts), final⟩ =
        body t name (d.add { name, generic := g, position := some u.start })
          ⟨past', ts, final⟩ := by
  subst hname
  have hkind : v.kind ≠ .tilde := by rw [hv]; decide
  obtain ⟨past', hgeneric⟩ := @generic_genericTokens d (u :: t :: past) (nl :: ts) v final
    { name := u.text, position := some u.start } g hg hnew rfl hkind
  refine ⟨nl :: v :: past', ?_⟩
  show (generic (d.mention u.text (some u.start)) u.text
    ⟨u :: t :: past, genericTokens g ++ v :: nl :: ts, final⟩).bind _ = _
  rw [mention_of_not_mem hnew, hgeneric]
  simp [Except.bind, bind_apply, check_apply, accept_cons, hv, hnl, endStatement_cons]

/-- The lines between the braces of a class `c`, without their indent. -/
def Definition.bodyTexts (c : Definition) : List String :=
  (c.stereotype.map fun a => s!"<<{a}>>").toList ++ c.members.map Member.text

theorem lines_eq {c : Definition} (h : c.Readable) : c.lines layout =
    if c.bodyTexts.isEmpty then [layout.line 1 c.header]
    else layout.line 1 s!"{c.header} \x7b" :: c.bodyTexts.map (layout.line 2) ++
      [layout.line 1 "\x7d"] := by
  have hfilter : c.stereotype.filter (!·.isEmpty) = c.stereotype := by
    cases ha : c.stereotype with
    | none => rfl
    | some a =>
      have hne := (h.stereotype a ha).1
      simpa using hne
  rw [Definition.lines, hfilter]
  rfl

/-- The stereotype and the members of a class `c` are put into it, one line after the other. -/
theorem readsBody_bodyTexts (hlayout : layout.IsBlank) {c : Definition} (h : c.Readable)
    (hnew : c.name ∉ d.names) : ReadsBody c.name
      (d.add { name := c.name, generic := c.generic, position := some .origin })
      ((c.bodyTexts.map (layout.line 2)).flatMap (Token.fullLine .classes))
      (d.add { c with position := some .origin }) := by
  obtain ⟨name, g, a, ms, position⟩ := c
  have hmembers := @readsBody_members d layout hlayout
    { name, generic := g, stereotype := a, position := some .origin } hnew ms h.members
  rw [Definition.bodyTexts, List.map_append, List.flatMap_append, List.map_map]
  refine ReadsBody.append ?_ hmembers
  cases a with
  | none => exact .nil
  | some a =>
    have hstereotype := @readsBody_stereotype
      (d.add { name, generic := g, position := some .origin }) name layout hlayout a
      (h.stereotype a rfl)
    have hadd : setStereotype (d.add { name, generic := g, position := some .origin }) name a =
        d.add { name, generic := g, stereotype := some a, position := some .origin } :=
      modify_add (c := { name, generic := g, position := some .origin }) hnew _
    rw [hadd] at hstereotype
    simpa using hstereotype

theorem isWritable_header {c : Definition} (h : c.Readable) {b : List Char} (hb : Plain b) :
    IsWritable (c.header.toList ++ b) := by
  have hgeneric : Plain (genericChars c.generic) := by
    cases hg : c.generic with
    | none => exact .nil
    | some g =>
      exact Plain.append.2 ⟨by decide, Plain.append.2 ⟨(h.generic g hg).plain, by decide⟩⟩
  rw [toList_header h, List.append_assoc]
  refine IsIdentifier.isWritable_append (by decide) (Plain.append.2 ⟨?_, hb⟩)
  exact Plain.append.2 ⟨by decide, Plain.append.2 ⟨h.name.plain, hgeneric⟩⟩

theorem isWritable_bodyTexts {c : Definition} (h : c.Readable) :
    ∀ text ∈ c.bodyTexts, IsWritable text.toList := by
  refine List.forall_mem_append.2 ⟨?_, List.forall_mem_map.2 fun m hm => ?_⟩
  · cases ha : c.stereotype with
    | none => exact List.forall_mem_nil _
    | some a =>
      have hchars : s!"<<{a}>>".toList = ['<', '<'] ++ (a.toList ++ ['>', '>']) := by
        simp [toString]
      refine List.forall_mem_singleton.2 ⟨?_, ?_, ?_, ?_⟩
      · rw [hchars]
        exact Plain.append.2 ⟨by decide, Plain.append.2 ⟨(h.stereotype a ha).plain, by decide⟩⟩
      · simp [toString]
      · rw [hchars]
        rintro c ⟨⟩
        decide
      · rw [hchars, Measure.comment_eq_zero_iff]
        exact Measure.literal_cons_of_ne (by decide) _ _
  · have hm := h.members m hm
    obtain ⟨c, cs, hcs, -⟩ := Member.head_text hm
    -- A member could be taken for a comment only if it started with a percent sign.
    have hpercent : c ≠ '%' := by
      rintro rfl
      exact (Member.not_mem_text hm).1 (by rw [hcs]; exact List.mem_cons_self)
    refine ⟨Member.plain_text hm, by rw [hcs]; exact List.cons_ne_nil c cs,
      (Member.trimmed_text hm.typeFirst).head, ?_⟩
    rw [hcs, Measure.comment_eq_zero_iff]
    exact Measure.literal_cons_of_ne hpercent _ _

/-- The tokens of the line that opens a class `c`, up to its end or its brace. -/
def headerTokens (gap : List Char) (c : Definition) : List Token :=
  Token.plain .identifier gap "class".toList :: Token.plain .identifier [' '] c.name.toList ::
    genericTokens c.generic

theorem kind_headerTokens (gap : List Char) (c : Definition) :
    ∀ t ∈ headerTokens gap c, t.kind ≠ .comment := by
  rw [headerTokens, genericTokens]
  cases c.generic <;> simp [Token.plain]

theorem isWord_class (gap : List Char) :
    (Token.plain .identifier gap "class".toList).isWord ["class"] = true := by
  rw [Token.isWord_plain]
  decide

/-- A brace `c` behind blanks is one token, for nothing follows that it could be part of. -/
theorem ofLine_brace {kind : TokenKind} {c : Char}
    (h : (kind, c) ∈ [(.leftBrace, '{'), (.rightBrace, '}')]) (gap : List Char) :
    Token.ofLine .classes gap [c] = [Token.plain kind gap [c]] := by
  have hline := Token.behind_spaced (List.cons_ne_nil (kind, [c]) [])
    (List.forall_mem_singleton.2 (isSpacedLexeme_brace h)) (b := []) nofun gap
  rw [Token.behind_nil, List.append_nil, List.append_nil] at hline
  exact hline

/-- The line of a class `c` without a body adds the class. -/
theorem readsLines_header (hlayout : layout.IsBlank) {c : Definition} (h : c.Readable)
    (hnew : c.name ∉ d.names) :
    ReadsLines .classes statement d [layout.line 1 c.header]
      (d.add { name := c.name, generic := c.generic, position := some .origin }) := by
  let gap := (layout.pad 1).toList
  have hrow : Token.ofLine .classes gap c.header.toList = headerTokens gap c := by
    have hline := ofLine_header h (b := []) nofun gap
    rwa [List.append_nil, Token.ofLine_nil, List.append_nil] at hline
  have hwritable := isWritable_header h (b := []) .nil
  rw [List.append_nil] at hwritable
  refine .line Token.skipsBlanks_classes hlayout 1 hwritable hrow (kind_headerTokens _ _)
    fun past us nl hnl => ?_
  obtain ⟨past', hdefinition⟩ := @definition_plain d c.name past us
    (Token.plain .identifier gap "class".toList) (Token.plain .identifier [' '] c.name.toList) nl
    Token.endOfInput c.generic h.generic String.ofList_toList hnew hnl
  exact ⟨past', (statement_definition (isWord_class gap) rfl).trans hdefinition⟩

/-- The lines of a class with a body add the class with all that its `bodyTexts` say. -/
theorem readsLines_body (hlayout : layout.IsBlank) {c : Definition} (h : c.Readable)
    (hnew : c.name ∉ d.names) :
    ReadsLines .classes statement d (layout.line 1 s!"{c.header} \x7b" ::
        c.bodyTexts.map (layout.line 2) ++ [layout.line 1 "\x7d"])
      (d.add { c with position := some .origin }) := by
  let gap := (layout.pad 1).toList
  let t := Token.plain .identifier gap "class".toList
  let u := Token.plain .identifier [' '] c.name.toList
  let v := Token.plain .leftBrace [' '] ['{']
  have hchars : s!"{c.header} \x7b".toList = c.header.toList ++ [' ', '{'] := by simp [toString]
  have hopen : Token.ofLine .classes gap s!"{c.header} \x7b".toList =
      headerTokens gap c ++ [v] := by
    have hspace : StartsBlank [' ', '{'] := by
      rintro e ⟨⟩
      rfl
    have hbrace := Token.skipsBlanks_classes [' '] (by decide) [] ['{']
    rw [List.singleton_append, @ofLine_brace .leftBrace '{' (by decide)] at hbrace
    rw [hchars, ofLine_header h hspace, hbrace]
    rfl
  have hclose : Token.ofLine .classes gap "\x7d".toList = [Token.plain .rightBrace gap ['}']] :=
    ofLine_brace (by decide) gap
  have hownOpen : IsOwnLine (layout.line 1 s!"{c.header} \x7b") :=
    Layout.isOwnLine_line hlayout 1 (hchars ▸ isWritable_header h (by decide))
  have hownClose : IsOwnLine (layout.line 1 "\x7d") :=
    Layout.isOwnLine_line hlayout 1 ⟨by decide, by decide, by decide, by decide⟩
  have hownBody : AreOwnLines (c.bodyTexts.map (layout.line 2)) :=
    .of_forall (List.forall_mem_map.2 fun text ht =>
      Layout.isOwnLine_line hlayout 2 (isWritable_bodyTexts h text ht))
  refine ⟨(AreOwnLines.cons hownOpen hownBody).append (.cons hownClose .nil), ?_⟩
  rw [List.flatMap_append, List.flatMap_cons, List.flatMap_singleton,
    Token.fullLine_line Token.skipsBlanks_classes hlayout 1 hopen
      (List.forall_mem_append.2 ⟨kind_headerTokens gap c, by simp [v, Token.plain]⟩),
    Token.fullLine_line Token.skipsBlanks_classes hlayout 1 hclose (by simp [Token.plain])]
  -- the header opens the body, which goes on up to the brace that closes it
  refine .of_statement (by simp) fun past us => ?_
  let nl := Token.lineBreak .classes (layout.line 1 s!"{c.header} \x7b").toList
  let closing := Token.plain .rightBrace gap ['}']
  let nl' := Token.lineBreak .classes (layout.line 1 "\x7d").toList
  let rest := (c.bodyTexts.map (layout.line 2)).flatMap (Token.fullLine .classes)
  obtain ⟨past₁, hdefinition⟩ := @definition_body d c.name past (rest ++ closing :: nl' :: us)
    t u v nl Token.endOfInput c.generic h.generic String.ofList_toList hnew rfl rfl
  obtain ⟨past₂, hbody⟩ := readsBody_bodyTexts hlayout h hnew t past₁ (closing :: nl' :: us)
  have hend := @body_close (d.add { c with position := some .origin }) c.name past₂ us closing nl'
    Token.endOfInput t rfl rfl
  have hstatement : statement d ⟨past, t :: u :: (genericTokens c.generic ++
      v :: nl :: (rest ++ closing :: nl' :: us)), Token.endOfInput⟩ = _ :=
    ((statement_definition (isWord_class gap) rfl).trans hdefinition).trans (hbody.trans hend)
  refine ⟨nl' :: closing :: past₂, ?_⟩
  rw [← hstatement]
  simp [headerTokens, t, u, v, nl, closing, nl', rest]

/-- The lines of a new class `c` add the class, be it written with a body or without. -/
theorem readsLines_definition (hlayout : layout.IsBlank) {c : Definition} (h : c.Readable)
    (hnew : c.name ∉ d.names) :
    ReadsLines .classes statement d (c.lines layout)
      (d.add { c with position := some .origin }) := by
  rw [lines_eq h]
  split
  · next hempty =>
    have hheader := readsLines_header hlayout h hnew
    obtain ⟨name, g, a, ms, position⟩ := c
    -- a class without a body has no stereotype and no members
    have hparts : a = none ∧ ms = [] := by
      cases a <;> cases ms <;> simp_all [Definition.bodyTexts]
    obtain ⟨rfl, rfl⟩ := hparts
    exact hheader
  · exact readsLines_body hlayout h hnew

/-! ### Directions -/

theorem statement_direction {x : Direction} (ht : t.isWord ["direction"] = true)
    (ht' : t.isWord ["class"] = false) (hu : u.kind = .identifier)
    (hx : Direction.ofText? u.text = some x) (hnl : nl.kind = .newline) :
    statement d ⟨past, t :: u :: nl :: ts, final⟩ =
      .ok ({ d with direction := some x }, ⟨nl :: u :: t :: past, ts, final⟩) := by
  simp [statement, bind_apply, peek_apply, ahead_apply, accept_cons, Except.bind,
    kind_of_isWord ht, ht, ht', hu, advance_cons, takeDirection, hx, pure_apply, map_apply,
    endStatement_cons, hnl]

/-- The line of a direction `x` sets it. -/
theorem readsLines_direction (hlayout : layout.IsBlank) (d : ClassDiagram) (x : Direction) :
    ReadsLines .classes statement d [layout.line 1 s!"direction {x.name}"]
      { d with direction := some x } := by
  let gap := (layout.pad 1).toList
  let ws := [(TokenKind.identifier, "direction".toList), (.identifier, x.name.toList)]
  have hx : IsIdentifier x.name ∧ Direction.ofText? x.name = some x := by
    cases x <;> decide
  have hdirection : IsIdentifier "direction" := by decide
  -- the two words of the line, which are both identifiers
  have htext : s!"direction {x.name}".toList = Token.spacedChars ws ++ [] := by
    simp [ws, Token.spacedChars, toString, List.intercalate]
  have hwords : ∀ w ∈ ws, Token.IsSpacedLexeme w.1 w.2 :=
    List.forall_mem_cons.2 ⟨isSpacedLexeme_identifier hdirection,
      List.forall_mem_singleton.2 (isSpacedLexeme_identifier hx.1)⟩
  have hrow : Token.ofLine .classes gap s!"direction {x.name}".toList = Token.spaced gap ws := by
    rw [htext, Token.ofLine_classes, Token.behind_spaced (List.cons_ne_nil _ _) hwords
      startsBlank_nil, Token.behind_nil, List.append_nil]
  have hwritable : IsWritable s!"direction {x.name}".toList := by
    have happend := hdirection.isWritable_append (b := [' '] ++ x.name.toList)
      (Plain.append.2 ⟨by decide, hx.1.plain⟩)
    simpa [toString] using happend
  refine .line Token.skipsBlanks_classes hlayout 1 hwritable hrow
    (Token.kind_spaced (by simp [ws]) gap) fun past us nl hnl => ?_
  let t := Token.plain .identifier gap "direction".toList
  let u := Token.plain .identifier [' '] x.name.toList
  have ht : t.isWord ["direction"] = true ∧ t.isWord ["class"] = false := by
    rw [Token.isWord_plain, Token.isWord_plain]
    decide
  have hu : Direction.ofText? u.text = some x := by
    rw [← hx.2]
    exact congrArg Direction.ofText? String.ofList_toList
  exact ⟨_, statement_direction (t := t) (u := u) ht.1 ht.2 rfl hu hnl⟩

/-! ### Relations -/

/-- The tokens of a `cardinality`, which is in double quotes. -/
def cardinalityTokens (cardinality : Option String) : List Token :=
  cardinality.elim [] fun s => [Token.plain .string [' '] (doubleQuoted s).toList]

theorem cardinality_cardinalityTokens (o : Option String) (ht : t.kind ≠ .string) : ∃ past',
    cardinality ⟨past, cardinalityTokens o ++ t :: ts, final⟩ =
      .ok (o, ⟨past', t :: ts, final⟩) := by
  cases o with
  | none =>
    refine ⟨past, ?_⟩
    simp [cardinality, cardinalityTokens, bind_apply, accept_cons, ht, Except.bind, pure_apply]
  | some s =>
    let quoted := Token.plain .string [' '] (doubleQuoted s).toList
    have hkind : quoted.kind = .string := rfl
    have htext : unquote quoted.text = s := by
      have hquoted : quoted.text = doubleQuoted s := String.ofList_toList
      rw [hquoted, unquote_doubleQuoted]
    refine ⟨quoted :: past, ?_⟩
    show cardinality ⟨past, quoted :: t :: ts, final⟩ = _
    simp [cardinality, bind_apply, accept_cons, hkind, htext, Except.bind, pure_apply]

theorem relationLabel_labelTokens (o : Option String) (hnl : nl.kind = .newline) : ∃ past',
    relationLabel ⟨past, Token.labelTokens o ++ nl :: ts, final⟩ =
      .ok (o, ⟨past', nl :: ts, final⟩) := by
  cases o with
  | none => exact ⟨past, behindColon_of_kind_ne _ (by simp [hnl])⟩
  | some l =>
    refine ⟨Token.plain .text [' '] l.toList :: Token.plain .colon [' '] [':'] :: past,
      (behindColon_cons _ rfl rfl).trans ?_⟩
    simp [pure_apply, Token.plain]

/-- The row of a relation `r` goes on from its source to its label; only its operator and its names
are always there. -/
theorem spaced_relationWords (gap : List Char) (r : Relation) :
    Token.spaced gap (relationWords r) = Token.plain .identifier gap r.source.toList ::
      (cardinalityTokens r.sourceCardinality ++
        Token.plain .classRelation [' '] r.kind.text.toList ::
        (cardinalityTokens r.targetCardinality ++
          [Token.plain .identifier [' '] r.target.toList])) := by
  obtain ⟨source, target, kind, sourceCardinality, targetCardinality, label, position⟩ := r
  cases sourceCardinality <;> cases targetCardinality <;> rfl

theorem ofText?_text (k : RelationKind) : RelationKind.ofText? k.text = some k := by
  cases k <;> decide

/-- A relation `r` between classes that are there is put at the end. Neither end adds a class. -/
theorem relation_tokens {r : Relation} (hsource : r.source ∈ d.names) (htarget : r.target ∈ d.names)
    (ht : t.Is .identifier r.source) (hu : u.Is .classRelation r.kind.text)
    (hv : v.Is .identifier r.target) (hnl : nl.kind = .newline) : ∃ past',
      relation d ⟨past, t :: (cardinalityTokens r.sourceCardinality ++
          u :: (cardinalityTokens r.targetCardinality ++
            v :: (Token.labelTokens r.label ++ nl :: ts))), final⟩ =
        .ok ({ d with relations := d.relations ++ [{ r with position := some .origin }] },
          ⟨past', ts, final⟩) := by
  obtain ⟨source, target, kind, sourceCardinality, targetCardinality, label, position⟩ := r
  obtain ⟨-, rfl, hstart⟩ := ht
  obtain ⟨hoperator, hoperatorText, -⟩ := hu
  obtain ⟨hkind, rfl, -⟩ := hv
  have hrelation : RelationKind.ofText? u.text = some kind := by
    rw [hoperatorText]
    exact ofText?_text kind
  -- A cardinality that is left out is told from the kind of the token behind it.
  obtain ⟨past₁, hfirst⟩ := @cardinality_cardinalityTokens (t :: past)
    (cardinalityTokens targetCardinality ++ v :: (Token.labelTokens label ++ nl :: ts)) u final
    sourceCardinality (by rw [hoperator]; decide)
  obtain ⟨past₂, hsecond⟩ := @cardinality_cardinalityTokens (u :: past₁)
    (Token.labelTokens label ++ nl :: ts) v final targetCardinality (by rw [hkind]; decide)
  obtain ⟨past₃, hlabel⟩ := @relationLabel_labelTokens (v :: past₂) ts nl final label hnl
  refine ⟨nl :: past₃, ?_⟩
  have hmention : ∀ p q, (d.mention t.text p).mention v.text q = d := fun p q => by
    rw [mention_of_mem hsource, mention_of_mem htarget]
  simp [relation, bind_apply, advance_cons, hfirst, Except.bind, expect_cons hoperator,
    hrelation, hsecond, expect_cons hkind, hlabel, endStatement_cons, hnl, hmention, hstart,
    map_apply]

theorem statement_relation (ht : t.kind = .identifier)
    (hu : u.kind ≠ .identifier ∧ u.kind ≠ .colon) :
    statement d ⟨past, t :: u :: ts, final⟩ = relation d ⟨past, t :: u :: ts, final⟩ := by
  simp [statement, bind_apply, peek_apply, ahead_apply, accept_cons, Except.bind, ht, hu]

/-- The line of a relation `r` between classes that are there adds the relation. -/
theorem readsLines_relation (hlayout : layout.IsBlank) {r : Relation} (h : r.Readable)
    (hsource : r.source ∈ d.names) (htarget : r.target ∈ d.names) :
    ReadsLines .classes statement d [layout.line 1 r.text]
      { d with relations := d.relations ++ [{ r with position := some .origin }] } := by
  let gap := (layout.pad 1).toList
  have hlabel : Plain (Token.labelChars r.label) :=
    Token.plain_labelChars fun l hl => (h.label l hl).plain
  have hwords := Token.plain_spacedChars fun w hw => (isSpacedLexeme_relationWords h w hw).plain
  -- the line starts with the source
  obtain ⟨rest, hrest⟩ : ∃ rest, Token.spacedChars (relationWords r) = r.source.toList ++ rest :=
    Token.exists_spacedChars _ _
  have hwritable : IsWritable r.text.toList := by
    rw [hrest] at hwords
    rw [toList_relation h, hrest, List.append_assoc]
    exact h.source.isWritable_append (Plain.append.2 ⟨(Plain.append.1 hwords).2, hlabel⟩)
  refine .line Token.skipsBlanks_classes hlayout 1 hwritable (ofLine_relation h gap)
    (List.forall_mem_append.2 ⟨Token.kind_spaced (fun w hw =>
      (isSpacedLexeme_relationWords h w hw).kind.1) gap, Token.kind_labelTokens _⟩)
        fun past us nl hnl => ?_
  obtain ⟨past', hrelation⟩ := @relation_tokens d past us
      (Token.plain .identifier gap r.source.toList)
    (Token.plain .classRelation [' '] r.kind.text.toList)
    (Token.plain .identifier [' '] r.target.toList) nl Token.endOfInput r hsource htarget
    (Token.is_plain ..) (Token.is_plain ..) (Token.is_plain ..) hnl
  refine ⟨past', ?_⟩
  rw [spaced_relationWords, ← hrelation]
  simp only [List.cons_append, List.append_assoc, List.nil_append]
  -- what stands behind the source is a cardinality or the operator
  cases r.sourceCardinality with
  | none =>
    exact statement_relation rfl ⟨Token.kind_plain_ne (by decide), Token.kind_plain_ne (by decide)⟩
  | some s =>
    exact statement_relation rfl ⟨Token.kind_plain_ne (by decide), Token.kind_plain_ne (by decide)⟩

end Classes
end DiagramText
