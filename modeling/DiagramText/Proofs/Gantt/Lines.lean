import DiagramText.Proofs.Gantt.Readable
import DiagramText.Proofs.Token.Name

/-!
# Lines of gantt charts

A line behind a keyword is always read from what is written for it. The line of a task is read as
the name of the task and its details, unless a double quote in the details closes one that the name
leaves open, and with it takes the colon between them.

* `Gantt.readsLines_directive` and `Gantt.readsLines_section`: the lines of directives and sections.
* `Gantt.Task.Survives`: a task that is read from what is written for it in a format.
* `Gantt.exists_statement_task`: a task that survives is read from its line.
* `Gantt.survives_of_statement`: a task that is read from its line survives.
-/

namespace DiagramText.Gantt

open Text Reading

variable {g s e : Gantt} {t u : Task} {format : String} {layout : Layout}

/-! ### Details on one line -/

theorem plain_writeDate (h : Plain format.toList) (m : Moment) :
    Plain (writeDate m format).toList := by
  intro c hc hblank
  have hliteral : c.isAlphanum = false := by
    by_contra halphanum
    rw [Bool.not_eq_false] at halphanum
    rw [isBlank_of_isAsciiWord (by simpa [isAsciiWord] using Or.inl halphanum)] at hblank
    cases hblank
  exact h c (DateFormat.mem_of_literal_mem (DateFormat.literal_mem_of_mem_write hc hliteral)) hblank

theorem plain_taskId {cs : List Char} (h : isTaskId cs = true) : Plain cs := by
  have hword : ∀ c ∈ cs, isWord c = true ∨ c = '-' := by
    cases cs with
    | nil => cases h
    | cons c cs =>
      rw [isTaskId, Bool.and_eq_true, List.all_eq_true] at h
      refine List.forall_mem_cons.2 ⟨.inl (isWord_of_isAsciiWord ?_), fun e he => ?_⟩
      · have hc : c.isAlpha = true ∨ c = '_' := by simpa using h.1
        rcases hc with hc | rfl
        · simp [isAsciiWord, Char.isAlphanum, hc]
        · decide
      · simpa using h.2 e he
  refine .of_not_isBlank fun c hc => ?_
  rcases hword c hc with hc | rfl
  · by_contra hblank
    rw [Measure.isWord_of_isBlank (by simpa using hblank)] at hc
    cases hc
  · decide

/-- What is written for a task `t` behind its colon stays on its line, if the format does. -/
theorem Task.IsSpelled.plain_details (h : t.IsSpelled) (hformat : Plain format.toList) :
    Plain (", ".intercalate (t.parts format)).toList := by
  have hstart : ∀ start, t.start = some start → Plain (start.text format).toList := by
    intro start hstart
    cases start with
    | date m => exact plain_writeDate hformat m
    | after ids =>
      -- No id has a blank, and a line break is one.
      have hids : ∀ id ∈ ids, Plain id.toList := fun id hid =>
        .of_not_isBlank ((h.awaited ids hstart).2 id hid).2.1
      rw [toList_after]
      exact Plain.append.2 ⟨by decide, (Plain.intercalate (by decide) hids).space⟩
  have hfinish : Plain (t.finish.text format).toList := by
    cases hfinish : t.finish with
    | date m => exact plain_writeDate hformat m
    | duration d =>
      exact .of_not_isBlank fun c hc =>
        isBlank_of_isAsciiWord ((h.duration d hfinish).isAsciiWord c hc)
  have hstatus : ∀ p ∈ (t.status.map TaskStatus.text).toList, Plain p.toList := by
    cases t.status with
    | none => exact List.forall_mem_nil _
    | some status => cases status <;> decide
  refine .intercalate (by decide) (List.forall_mem_append.2 ⟨List.forall_mem_append.2
    ⟨hstatus, ?_⟩, List.forall_mem_singleton.2 hfinish⟩)
  cases hs : t.start with
  | none => exact List.forall_mem_nil _
  | some start =>
    refine List.forall_mem_append.2 ⟨fun id hid => ?_, List.forall_mem_singleton.2
      (hstart start hs)⟩
    exact plain_taskId (h.id id (Option.mem_toList.1 hid)).2.1

/-! ### Lines behind a keyword -/

variable {keyword v : String} {nl : Token} {us past : List Token}

/-- The row of a `keyword` and of what stands behind it on the line. -/
theorem ofLine_keyword (h : IsIdentifier keyword) (gap cs : List Char) :
    Token.ofLine .gantt gap (keyword.toList ++ ' ' :: cs) =
      Token.plain .identifier gap keyword.toList :: Token.ofLine .gantt [' '] cs := by
  obtain ⟨c, x, hx, -, -⟩ := h.exists_cons
  have hblanks : ∀ e ∈ keyword.toList, isSpaceOrTab e = false := fun e he =>
    isSpaceOrTab_of_not_isBlank (h.not_isBlank e he)
  have hquote : keyword.toList.head? ≠ some '"' := by
    intro hhead
    exact absurd (h.2.2 '"' (List.mem_of_head? hhead)) (by decide)
  have hfirst := @Rule.first_identifier keyword h [] nofun [] (List.forall_mem_nil _)
  rw [List.append_nil] at hfirst
  have hspace : StartsBlank (' ' :: cs) := by
    rintro e ⟨⟩
    rfl
  rw [Token.ofLine_word_append Dialect.regular_gantt h.toList_ne_nil hblanks hquote hfirst
    (by decide)
    hspace, Token.ofLine_cons_blank Dialect.regular_gantt rfl, List.nil_append]

/-- A keyword with a value `v` behind it tells what line it is, in any letter case. -/
theorem statement_keyword (hv : IsValue v) (gap gap' : List Char) :
    statement g ⟨past, Token.plain .identifier gap keyword.toList ::
        (Token.ofLine .gantt gap' v.toList ++ nl :: us), Token.endOfInput⟩ =
      (do let e ← lineOf g (lower keyword); endStatement; return e)
        ⟨past, Token.plain .identifier gap keyword.toList ::
          (Token.ofLine .gantt gap' v.toList ++ nl :: us), Token.endOfInput⟩ := by
  obtain ⟨c, cs, hcs⟩ := List.exists_cons_of_ne_nil fun h =>
    hv.ne_empty (String.toList_eq_nil_iff.1 h)
  have hblank : isSpaceOrTab c = false :=
    isSpaceOrTab_of_not_isBlank (hv.isSpan.trimmed.head c (by rw [hcs]; rfl))
  obtain ⟨t, ts, hline, -, hkind⟩ := Token.exists_ofLine Dialect.regular_gantt hblank gap' cs
  -- A colon behind the first word would make the line a task; values do not start with one.
  have hcolon : t.kind ≠ .colon := by
    intro ht
    have hcases := Rule.first_cases Dialect.regular_gantt hblank cs
    cases hfirst : Rule.first (Rule.common ++ Rule.lineOriented) (c :: cs) with
    | mk kind n =>
      rw [hfirst, ht] at hkind
      rw [hfirst] at hcases
      cases hcases with
      | comment => cases hkind
      | colon hc => exact hv.head (by rw [hcs, hc]; rfl)
      | other hother => exact hother (by rw [← show TokenKind.colon = kind from hkind]; decide)
  rw [statement_cons _ _ _ (Token.kind_plain_ne (by decide)) rfl, hcs, hline, leadingWord,
    if_pos (by simpa [Token.plain] using hcolon), Token.plain, String.ofList_toList]

theorem toList_keyword (keyword v : String) :
    s!"{keyword} {v}".toList = keyword.toList ++ ' ' :: v.toList := by
  simp [toString]

theorem isWritable_keyword (hkeyword : IsIdentifier keyword) (hv : IsValue v) :
    IsWritable s!"{keyword} {v}".toList := by
  rw [toList_keyword]
  exact hkeyword.isWritable_append hv.isSpan.plain.space

/-- A keyword and the value `v` behind it are taken from their line as they were written, so what
the line does follows from what `lineOf` does. -/
theorem readsLines_keyword (hlayout : layout.IsBlank) (hkeyword : IsIdentifier keyword)
    (hv : IsValue v) (hline : ∀ past us nl gap, nl.kind = .newline → ∃ past',
      lineOf g (lower keyword) ⟨past, Token.plain .identifier gap keyword.toList ::
        (Token.ofLine .gantt [' '] v.toList ++ nl :: us), Token.endOfInput⟩ =
          .ok (e, ⟨past', nl :: us, Token.endOfInput⟩)) :
    ReadsLines .gantt statement g [layout.line 1 s!"{keyword} {v}"] e := by
  refine .line Dialect.regular_gantt.skipsBlanks hlayout 1 (isWritable_keyword hkeyword hv)
    (by rw [toList_keyword, ofLine_keyword hkeyword]) ?_ fun past us nl hnl => ?_
  · exact List.forall_mem_cons.2 ⟨Token.kind_plain_ne (by decide),
      fun t ht => (hv.isSpan.kinds _ t ht).2⟩
  · obtain ⟨past', hread⟩ := hline past us nl (layout.pad 1).toList hnl
    refine ⟨nl :: past', ?_⟩
    rw [List.cons_append, statement_keyword hv]
    simp [bind_apply, hread, Except.bind, map_apply, endStatement_cons, hnl]

theorem restOfStatement_value (hv : IsValue v) (hnl : nl.kind = .newline) (gap : List Char) :
    restOfStatement ⟨past, Token.ofLine .gantt gap v.toList ++ nl :: us, Token.endOfInput⟩ =
      .ok (v, ⟨(Token.ofLine .gantt gap v.toList).reverse ++ past, nl :: us,
        Token.endOfInput⟩) := by
  rw [restOfStatement, rawUntil_ofLine Dialect.regular_gantt hv.isSpan (.inl (by rw [hnl]; rfl)),
    String.ofList_toList]

/-- The line of a directive `keyword` sets its value, if the value is accepted. -/
theorem readsLines_directive (hlayout : layout.IsBlank) (hkeyword : IsIdentifier keyword)
    (hv : IsValue v) {c : Config} (hset : g.config.set? (lower keyword) v = some c) :
    ReadsLines .gantt statement g [layout.line 1 s!"{keyword} {v}"] { g with config := c } := by
  have hdirective : (g.config.set? (lower keyword) "").isSome = true := by
    rw [isSome_set? g.config g.config _ "" v, hset]
    rfl
  refine readsLines_keyword hlayout hkeyword hv fun past us nl gap hnl =>
    ⟨(Token.ofLine .gantt [' '] v.toList).reverse ++
      Token.plain .identifier gap keyword.toList :: past, ?_⟩
  rw [lineOf, if_pos hdirective]
  simp [directiveLine, bind_apply, advance_cons, Except.bind, restOfStatement_value hv hnl,
    hv.ne_empty, hset, Token.plain, pure_apply]

/-- The line of the section `v` starts a section without tasks, which is the one that tasks go to
from then on. -/
theorem readsLines_section (hlayout : layout.IsBlank) (hv : IsValue v) :
    ReadsLines .gantt statement g [layout.line 1 s!"section {v}"]
      { g with sections := g.sections ++ [{ name := v }] } := by
  have hsection : IsIdentifier "section" := by decide
  have hword : lower "section" = "section" := by decide
  refine readsLines_keyword hlayout hsection hv fun past us nl gap hnl =>
    ⟨(Token.ofLine .gantt [' '] v.toList).reverse ++
      Token.plain .identifier gap "section".toList :: past, ?_⟩
  rw [hword, lineOf, if_neg (by rw [isSome_set? g.config {} _ "" ""]; decide), if_pos rfl]
  simp [sectionLine, bind_apply, advance_cons, Except.bind, restOfStatement_value hv hnl,
    hv.ne_empty, pure_apply]

/-! ### The line of a task -/

variable {name : String} {x : List Char}

theorem Task.toList_text (format : String) (t : Task) : (t.text format).toList =
    t.name.toList ++ ' ' :: ':' :: ' ' :: (", ".intercalate (t.parts format)).toList := by
  simp [text, toString]

namespace IsName

theorem toList_ne_nil (h : IsName name) : name.toList ≠ [] :=
  fun hnil => h.ne_empty (String.toList_eq_nil_iff.1 hnil)

theorem exists_cons (h : IsName name) :
    ∃ c cs, name.toList = c :: cs ∧ isSpaceOrTab c = false := by
  obtain ⟨c, cs, hcs⟩ := List.exists_cons_of_ne_nil h.toList_ne_nil
  exact ⟨c, cs, hcs, isSpaceOrTab_of_not_isBlank (h.isSpan.trimmed.head c (by rw [hcs]; rfl))⟩

/-- The tokens of a `name` are neither comments nor colons, so a name is taken up to the colon
behind it. -/
theorem kinds (h : IsName name) (gap : List Char) :
    ∀ t ∈ Token.ofLine .gantt gap name.toList, t.kind ≠ .comment ∧ t.kind ≠ .colon := by
  intro t ht
  obtain ⟨hpass, hcomment⟩ := h.isSpan.kinds gap t ht
  refine ⟨hcomment, fun hcolon => ?_⟩
  rw [hcolon] at hpass
  cases hpass

/-- A line that starts with a `name` can be written, if what stands behind it is plain. -/
theorem isWritable_append (h : IsName name) {b : List Char} (hb : StartsBlank b)
    (hplain : Plain b) :
    IsWritable (name.toList ++ b) := by
  have hname := h.isSpan.isWritable Dialect.regular_gantt h.toList_ne_nil
  obtain ⟨c, cs, hcs, -⟩ := h.exists_cons
  refine ⟨Plain.append.2 ⟨hname.plain, hplain⟩, List.append_ne_nil_of_left_ne_nil hname.ne_nil _,
    ?_,
    ?_⟩
  · have hhead := hname.head
    rw [hcs] at hhead ⊢
    exact hhead
  · have hcomment := hname.comment
    rw [Measure.comment_eq_zero_iff] at hcomment ⊢
    rwa [Measure.within_literal (by decide) _ _ hb]

/-- The first lexeme of a `name`, if it is an identifier, is that of any line that starts with the
name: what stands behind starts with a blank. -/
theorem first_append (h : IsName name) {b : List Char} (hb : StartsBlank b) {n : Nat}
    (hfirst : Rule.first (Rule.common ++ Rule.lineOriented) (name.toList ++ b) = (.identifier, n)) :
    Rule.first (Rule.common ++ Rule.lineOriented) name.toList = (.identifier, n) := by
  obtain ⟨c, cs, hcs, hc⟩ := h.exists_cons
  obtain ⟨t, ts, hline, -, hkind⟩ := Token.exists_ofLine Dialect.regular_gantt hc [] cs
  have ht := h.kinds [] t (by rw [hcs, hline]; exact List.mem_cons_self)
  have hquote : name.toList.head? ≠ some '"' ∨ '"' ∉ b := by
    by_contra hopen
    rw [not_or, not_not, not_not, hcs] at hopen
    obtain rfl : c = '"' := Option.some.inj hopen.1
    obtain ⟨inner, rest, heq, hinner⟩ :=
      List.eq_append_cons_of_mem (List.mem_append_right cs hopen.2)
    rw [hcs, List.cons_append, heq, Rule.first_quote hinner] at hfirst
    cases hfirst
  rw [← Rule.first_append_blank Dialect.regular_gantt hb (by rw [hcs, ← hkind]; exact ht.1)
    (.inr hquote), hfirst]

/-- A line that starts with a `name` and a colon does not start with a keyword, although the first
word of the name may be one of those. -/
theorem not_isKeyword (h : IsName name) {gap : List Char} {w : Token} {ws : List Token}
    (hrow : Token.ofLine .gantt gap (name.toList ++ ' ' :: ':' :: x) = w :: ws) (us : List Token) :
    ¬IsKeyword (leadingWord w (ws.filter Token.isRead ++ us)) := by
  have hempty : ¬IsKeyword "" := by
    rintro (h | h) <;> exact absurd h (by decide)
  -- If the first token is no identifier, the line starts with no word at all.
  by_cases hw : w.kind = .identifier
  swap
  · rwa [leadingWord, if_neg (by simp [hw])]
  obtain ⟨c, cs, hcs, hc⟩ := h.exists_cons
  have hfirst : ∃ n, Rule.first (Rule.common ++ Rule.lineOriented)
      (name.toList ++ ' ' :: ':' :: x) = (.identifier, n) := by
    rw [hcs, List.cons_append] at hrow ⊢
    obtain ⟨t, ts, hline, -, hkind⟩ :=
      Token.exists_ofLine Dialect.regular_gantt hc gap (cs ++ ' ' :: ':' :: x)
    obtain rfl : t = w := (List.cons.inj (hline.symm.trans hrow)).1
    exact ⟨_, Prod.ext (hkind.symm.trans hw) rfl⟩
  -- The first word ends within the name, so it is the same whether a colon stands behind the name
  -- or not.
  obtain ⟨n, hfirst⟩ := hfirst
  have hname := h.first_append (by rintro e ⟨⟩; rfl) hfirst
  have hn : n ≤ name.toList.length := by
    have hcases := Rule.first_cases Dialect.regular_gantt hc cs
    rw [← hcs, hname] at hcases
    cases hcases with
    | other _ hn => exact hcs ▸ hn
  have hrowName : Token.ofLine .gantt [] name.toList =
      Token.plain .identifier [] (name.toList.take n) ::
        Token.ofLine .gantt [] (name.toList.drop n) := by
    rw [hcs] at hname ⊢
    exact Token.ofLine_cons Dialect.regular_gantt hc hname (by decide) []
  have hrowLine : Token.ofLine .gantt gap (name.toList ++ ' ' :: ':' :: x) =
      Token.plain .identifier gap (name.toList.take n) ::
        Token.ofLine .gantt [] (name.toList.drop n ++ ' ' :: ':' :: x) := by
    rw [← List.take_append_of_le_length hn, ← List.drop_append_of_le_length hn]
    rw [hcs, List.cons_append] at hfirst ⊢
    exact Token.ofLine_cons Dialect.regular_gantt hc hfirst (by decide) gap
  rw [hrowLine, List.cons.injEq] at hrow
  obtain ⟨rfl, rfl⟩ := hrow
  by_cases hdrop : name.toList.drop n = []
  · -- the name is a single word, and the colon behind it tells that it is a name
    rw [hdrop, List.nil_append, Token.ofLine_cons_blank Dialect.regular_gantt rfl,
      Token.ofLine_cons_colon Dialect.regular_gantt, List.filter_cons_of_pos (by rfl), leadingWord,
      if_neg (by simp [Token.plain])]
    exact hempty
  -- Something of the name is left behind its first word, and it is no blank, so it makes a token.
  · have hrest : Token.ofLine .gantt [] (name.toList.drop n) ≠ [] := by
      rw [ne_eq, Token.ofLine_eq_nil_iff Dialect.regular_gantt]
      intro hblank
      obtain ⟨as, e, has⟩ : ∃ as e, name.toList.drop n = as ++ [e] :=
        ⟨_, _, (List.dropLast_append_getLast hdrop).symm⟩
      have hlast := h.isSpan.trimmed.last e (by
        rw [← name.toList.take_append_drop n, has, ← List.append_assoc, List.getLast?_concat]
        rfl)
      rw [isBlank_of_isSpaceOrTab (hblank e (by rw [has]; simp))] at hlast
      cases hlast
    obtain ⟨u, us', hrest⟩ := List.exists_cons_of_ne_nil hrest
    have hkeyword := h.keyword _ u us' (by rw [hrowName, hrest]) rfl
    rw [leadingWord]
    split
    · exact hkeyword
    · exact hempty

/-- The row of a line that starts with a `name` is not empty, and starts with neither a comment nor
a line break. -/
theorem exists_row (h : IsName name) (hx : Plain x) (gap : List Char) : ∃ w ws,
    Token.ofLine .gantt gap (name.toList ++ ' ' :: ':' :: x) = w :: ws ∧
      w.kind ≠ .comment ∧ w.kind ≠ .newline := by
  have hwritable := h.isWritable_append (b := ' ' :: ':' :: x) (by rintro e ⟨⟩; rfl)
    (.space (List.forall_mem_cons.2 ⟨by decide, hx⟩))
  obtain ⟨c, cs, hcs, hc⟩ := h.exists_cons
  rw [hcs, List.cons_append] at hwritable ⊢
  obtain ⟨w, ws, hline, -, hkind⟩ :=
    Token.exists_ofLine Dialect.regular_gantt hc gap (cs ++ ' ' :: ':' :: x)
  have hw : w.kind ≠ .comment ∧ w.kind ≠ .newline := by
    have hcases := Rule.first_cases Dialect.regular_gantt hc (cs ++ ' ' :: ':' :: x)
    cases hfirst : Rule.first (Rule.common ++ Rule.lineOriented) (c :: (cs ++ ' ' :: ':' :: x)) with
    | mk kind n =>
      rw [hfirst] at hkind hcases
      rw [hkind]
      -- the line can be written, so no comment starts it
      cases hcases with
      | comment =>
        obtain ⟨r, hr, hrkind, hrlength, -⟩ := Rule.exists_of_first hfirst (by decide)
        have hrule : ∀ r ∈ Rule.common ++ Rule.lineOriented, r.1 = .comment →
            r.2 = Measure.comment := by
          simp [Rule.common, Rule.lineOriented]
        rw [hrule r hr hrkind, hwritable.comment] at hrlength
        cases hrlength
      | colon => exact ⟨by decide, by decide⟩
      | other hother =>
        simp only [List.mem_cons, List.not_mem_nil, or_false, not_or] at hother
        exact ⟨hother.1, hother.2.2.2⟩
  exact ⟨w, ws, hline, hw⟩

/-- What stands behind a `name` is scanned on its own, unless a double quote in it closes one that
the name leaves open. -/
theorem row_append (h : IsName name) (hopen : name.toList.count '"' % 2 = 0 ∨ '"' ∉ x)
    (gap : List Char) :
    (Token.ofLine .gantt gap (name.toList ++ ' ' :: ':' :: x)).filter Token.isRead =
      Token.ofLine .gantt gap name.toList ++
        Token.plain .colon [' '] [':'] :: Token.afterColon x := by
  have hlast : ∀ c ∈ name.toList.getLast?, isSpaceOrTab c = false := fun c hc =>
    isSpaceOrTab_of_not_isBlank (h.isSpan.trimmed.last c hc)
  have hspace : StartsBlank (' ' :: ':' :: x) := by
    rintro c ⟨⟩
    rfl
  have hquote : Token.Closed (Token.ofLine .gantt gap name.toList) ∨ '"' ∉ ' ' :: ':' :: x := by
    rw [Token.closed_ofLine_iff Dialect.regular_gantt Rule.omits_lineOriented (h.kinds gap)]
    simpa using hopen
  rw [Token.ofLine_append Dialect.regular_gantt h.toList_ne_nil hlast hspace (h.kinds gap) hquote,
    Token.ofLine_cons_blank Dialect.regular_gantt rfl, List.nil_append,
    Token.ofLine_cons_colon Dialect.regular_gantt]
  refine Token.filter_isRead (List.forall_mem_append.2 ⟨fun t ht => (h.kinds gap t ht).1,
    List.forall_mem_cons.2 ⟨Token.kind_plain_ne (by decide), fun t ht => ?_⟩⟩)
  rw [Token.kind_of_mem_afterColon ht]
  decide

/-- Where a `name` is taken as it was written, no double quote that it leaves open is closed behind
it: otherwise the colon would be in the quoted text. -/
theorem even_of_rawUntil (h : IsName name) (hplain : Plain x) {gap : List Char} {us : List Token}
    (hnl : nl.kind = .newline) {c : Cursor}
    (hraw : rawUntil [.colon] ⟨past, (Token.ofLine .gantt gap
      (name.toList ++ ' ' :: ':' :: x)).filter Token.isRead ++ nl :: us, Token.endOfInput⟩ =
        .ok (name, c)) : name.toList.count '"' % 2 = 0 ∨ '"' ∉ x := by
  have hline : Plain (name.toList ++ ' ' :: ':' :: x) :=
    Plain.append.2 ⟨h.isSpan.plain, .space (List.forall_mem_cons.2 ⟨by decide, hplain⟩)⟩
  -- the name is taken from the row of its line alone
  let row := (Token.ofLine .gantt gap (name.toList ++ ' ' :: ':' :: x)).filter Token.isRead
  let passes := fun t : Token => !t.kind.endsStatement && ! [TokenKind.colon].contains t.kind
  have htake : (row ++ nl :: us).takeWhile passes = row.takeWhile passes := by
    refine (Token.takeWhile_append_eq ?_).1
    rintro t ⟨⟩
    simp only [passes, hnl]
    rfl
  have htext : String.ofList (trim (Token.source (row.takeWhile passes)).toList) = name := by
    rw [← htake]
    exact congrArg Prod.fst (Except.ok.inj hraw)
  have hrow : rawUntil [.colon] ⟨past, row, Token.endOfInput⟩ =
      .ok (name, ⟨(row.takeWhile passes).reverse ++ past, row.dropWhile passes,
        Token.endOfInput⟩) :=
    congrArg (fun text => Except.ok (text, _)) htext
  have hstops : ∀ kind ∈ [TokenKind.colon], kind ∈ TokenKind.stops := by decide
  obtain ⟨⟨-, gap', hname⟩, -⟩ := ensures_rawUntil_ofLine Dialect.regular_gantt hstops row _ _ _
    ⟨rfl, .last gap hline, rfl⟩ hrow
  obtain ⟨comment, hcomment, -⟩ := Token.exists_comment Dialect.regular_gantt hline gap
  by_cases hquote : '"' ∈ x
  · left
    rw [← Token.closed_ofLine_iff Dialect.regular_gantt Rule.omits_lineOriented (h.kinds gap')]
    have hprefix : Token.ofLine .gantt gap' name.toList <+:
        Token.ofLine .gantt gap (name.toList ++ ' ' :: ':' :: x) := by
      rw [hcomment, ← hname]
      exact (List.takeWhile_prefix _).trans (List.prefix_append _ _)
    exact Token.closed_of_prefix Dialect.regular_gantt (h.kinds gap')
      (List.mem_cons_of_mem _ (List.mem_cons_of_mem _ hquote)) hprefix
  · exact .inr hquote

end IsName

/-- A `name` before a colon is taken as it was written, whatever stands behind the colon. -/
theorem rawUntil_name (h : IsName name) {colon : Token} (hcolon : colon.kind = .colon)
    (gap : List Char) :
    rawUntil [.colon] ⟨past, Token.ofLine .gantt gap name.toList ++ colon :: us, Token.endOfInput⟩ =
      .ok (name, ⟨(Token.ofLine .gantt gap name.toList).reverse ++ past, colon :: us,
        Token.endOfInput⟩) := by
  rw [rawUntil_ofLine Dialect.regular_gantt h.isSpan (.inr (by simp [hcolon])),
    String.ofList_toList]

/-- A `name` and the text behind a colon are read as a task `u`, by reading the text as its
details. -/
theorem taskLine_row (h : IsName name) (hg : g.sections ≠ []) {colon text : Token}
    (hcolon : colon.kind = .colon) (htext : text.kind = .text) (gap : List Char) :
    ∃ past' p, taskLine g ⟨past, Token.ofLine .gantt gap name.toList ++ colon :: text :: us,
        Token.endOfInput⟩ =
      (readTask name text.text g.config.dateFormat g.taskIds p text.start).bind fun u =>
        .ok ((g.addTask? u).getD g, ⟨past', us, Token.endOfInput⟩) := by
  refine ⟨text :: colon :: ((Token.ofLine .gantt gap name.toList).reverse ++ past),
    (Cursor.peek ⟨past, Token.ofLine .gantt gap name.toList ++ colon :: text :: us,
      Token.endOfInput⟩).start, ?_⟩
  simp only [taskLine, bind_apply, peek_apply, Except.bind, rawUntil_name h hcolon,
    expect_cons hcolon, expect_cons htext, List.isEmpty_iff, hg, String.isEmpty_iff, h.ne_empty,
    if_false]
  generalize readTask _ _ _ _ _ _ = read
  cases read <;> rfl

/-- What reading a task `u` takes: a `name`, a colon and a text. A task that is read is put into the
last section. -/
theorem exists_of_taskLine {c c' : Cursor} (h : taskLine g c = .ok (e, c')) :
    ∃ name c₁ colon c₂ text c₃ u p, rawUntil [.colon] c = .ok (name, c₁) ∧
      expect .colon "':' after task name" c₁ = .ok (colon, c₂) ∧
      expect .text "task metadata" c₂ = .ok (text, c₃) ∧
      readTask name text.text g.config.dateFormat g.taskIds p text.start = .ok u ∧
      e = (g.addTask? u).getD g := by
  -- Each step has to succeed, and neither of the two checks between them may fail.
  rw [taskLine, bind_apply, Except.bind_eq_ok_iff] at h
  obtain ⟨⟨first, c₀⟩, hfirst, h⟩ := h
  cases hfirst
  rw [bind_apply, Except.bind_eq_ok_iff] at h
  obtain ⟨⟨name, c₁⟩, hname, h⟩ := h
  dsimp only at h
  split at h
  · exact absurd h (by rw [fail_apply]; nofun)
  rw [bind_apply, Except.bind_eq_ok_iff] at h
  obtain ⟨⟨colon, c₂⟩, hcolon, h⟩ := h
  rw [bind_apply, Except.bind_eq_ok_iff] at h
  obtain ⟨⟨text, c₃⟩, htext, h⟩ := h
  dsimp only at h
  split at h
  · cases h
  rw [bind_apply, Except.bind_eq_ok_iff] at h
  obtain ⟨⟨u, c₄⟩, hread, h⟩ := h
  cases h
  obtain ⟨u', htask, h⟩ := Except.bind_eq_ok_iff.1 hread
  cases h
  exact ⟨name, c₁, colon, c₂, text, c₃, u, _, hname, hcolon, htext, htask, rfl⟩

/-- A line that starts with a `name` and a colon is read as the line of a task and nothing else. -/
theorem statement_name (h : IsName name) (hx : Plain x) (gap : List Char) (us : List Token) :
    statement g ⟨past, (Token.ofLine .gantt gap (name.toList ++ ' ' :: ':' :: x)).filter
        Token.isRead ++ us, Token.endOfInput⟩ =
      (do let e ← taskLine g; endStatement; return e) ⟨past, (Token.ofLine .gantt gap
        (name.toList ++ ' ' :: ':' :: x)).filter Token.isRead ++ us, Token.endOfInput⟩ := by
  obtain ⟨w, ws, hrow, hcomment, hnewline⟩ := h.exists_row hx gap
  have hword := h.not_isKeyword hrow us
  rw [IsKeyword, not_or] at hword
  rw [hrow, List.filter_cons_of_pos (by simpa [Token.isRead] using hcomment), List.cons_append,
    statement_cons _ _ _ hnewline rfl, lineOf,
    if_neg (by rw [isSome_set? g.config {} _ "" ""]; exact hword.1), if_neg hword.2]

/-! ### The details of a task -/

variable {details : String} {known : List String} {p q : Position}

/-- Only its parts matter to what `details` are read as. -/
theorem readTask_congr {details' : String} (h : partsOf details = partsOf details') :
    readTask name details format known p q = .ok u ↔
      readTask name details' format known p q = .ok u := by
  simp only [readTask_eq_ok_iff, h]

/-- Blank details are not read as a task `u`: they have one part, and an end has to be there. -/
theorem readTask_blank (h : partsOf details = [""]) :
    readTask name details format known p q ≠ .ok u := by
  have hempty : partsOf "" = [""] := by decide
  rw [ne_eq, readTask_congr (h.trans hempty.symm)]
  exact nofun

/-- The text that is taken of `details` behind a colon has their parts, unless the details are
blank. -/
theorem exists_text (h : Plain details.toList) :
    (Token.afterColon (' ' :: details.toList) = [] ∧ partsOf details = [""]) ∨
      ∃ text : Token, Token.afterColon (' ' :: details.toList) = [text] ∧ text.kind = .text ∧
        partsOf text.text = partsOf details := by
  obtain ⟨b, text, rest, heq, hb, hrest, -, hafter⟩ := Token.exists_afterColon h.space
  have hparts : partsOf (String.ofList text) = partsOf details := by
    rw [← partsOf_blanks (fun c hc => isBlank_of_isSpaceOrTab (hb c hc))
      (fun c hc => isBlank_of_isSpaceOrTab (hrest c hc)), ← heq]
    have hspace := @partsOf_blanks [' '] [] (by decide) (List.forall_mem_nil _) details.toList
    rwa [List.append_nil, List.singleton_append, String.ofList_toList] at hspace
  by_cases hnil : text = []
  · refine .inl ⟨by rw [hafter, hnil]; rfl, ?_⟩
    rw [← hparts, hnil]
    decide
  · exact .inr ⟨_, by rw [hafter, if_neg (by simpa using hnil)], rfl, hparts⟩

/-! ### Tasks that survive -/

/-- A task that is read from what is written for it in the `format`. -/
structure Task.Survives (format : String) (t : Task) : Prop extends
    Task.DatesSurvive format t where
  /-- The name leaves no double quote open, or no date closes it. -/
  name : t.name.toList.count '"' % 2 = 0 ∨ '"' ∉ (", ".intercalate (t.parts format)).toList

/-- A task `t` that survives is read from its line, up to its position. -/
theorem exists_statement_task (hs : s.sections ≠ []) (hname : IsName t.name) (ht : t.IsSpelled)
    (hknown : t.dependencies ⊆ s.taskIds) (hformat : Plain s.config.dateFormat.toList)
    (h : t.Survives s.config.dateFormat) (hnl : nl.kind = .newline) (gap : List Char) :
    ∃ u past', u.unplaced = t.unplaced ∧ statement s ⟨past, (Token.ofLine .gantt gap
        (t.text s.config.dateFormat).toList).filter Token.isRead ++ nl :: us, Token.endOfInput⟩ =
      .ok ((s.addTask? u).getD s, ⟨past', us, Token.endOfInput⟩) := by
  have hdetails := ht.plain_details hformat
  have hread := fun p q => (@readTask_written_iff t s.taskIds s.config.dateFormat p q ht hknown).2
    h.toDatesSurvive
  have hopen : t.name.toList.count '"' % 2 = 0 ∨
      '"' ∉ ' ' :: (", ".intercalate (t.parts s.config.dateFormat)).toList := by simpa using h.name
  rw [t.toList_text, statement_name hname hdetails.space, hname.row_append hopen]
  obtain ⟨-, hblank⟩ | ⟨text, htext, hkind, hparts⟩ := exists_text hdetails
  · obtain ⟨u, hu, -⟩ := hread .origin .origin
    exact absurd hu (readTask_blank hblank)
  · rw [htext, List.append_assoc]
    obtain ⟨past', p, hline⟩ := @taskLine_row s (nl :: us) past t.name hname hs
      (Token.plain .colon [' '] [':']) text rfl hkind gap
    obtain ⟨u, hu, hsame⟩ := hread p text.start
    rw [(readTask_congr hparts).2 hu] at hline
    refine ⟨u, nl :: past', hsame, ?_⟩
    simp [bind_apply, hline, Except.bind, map_apply, endStatement_cons, hnl]

/-- A task `t` that is read from its line survives. So whether it survives is all that its line
depends on. -/
theorem survives_of_statement (hname : IsName t.name) (ht : t.IsSpelled)
    (hknown : t.dependencies ⊆ s.taskIds) (hformat : Plain s.config.dateFormat.toList)
    (hnl : nl.kind = .newline) {gap : List Char} {c : Cursor}
    (h : statement s ⟨past, (Token.ofLine .gantt gap
        (t.text s.config.dateFormat).toList).filter Token.isRead ++ nl :: us, Token.endOfInput⟩ =
      .ok (e, c)) :
    ∃ u, e = (s.addTask? u).getD s ∧ (u.unplaced = t.unplaced →
      t.Survives s.config.dateFormat) := by
  have hdetails := ht.plain_details hformat
  rw [t.toList_text, statement_name hname hdetails.space, bind_apply, Except.bind_eq_ok_iff] at h
  obtain ⟨⟨e', c'⟩, hline, h⟩ := h
  rw [bind_apply, Except.bind_eq_ok_iff] at h
  obtain ⟨end', -, h⟩ := h
  obtain rfl : e' = e := congrArg Prod.fst (Except.ok.inj h)
  obtain ⟨name, c₁, colon, c₂, text, c₃, u, p, hraw, hcolon, htext, hread, rfl⟩ :=
    exists_of_taskLine hline
  refine ⟨u, rfl, fun hsame => ?_⟩
  -- the name that was taken is that of the task, so it ends where it was written to end
  obtain rfl : name = t.name := by
    obtain ⟨-, -, -, hname, -⟩ := readTask_eq_ok_iff.1 hread
    rw [← hname]
    have hsame : u.unplaced.name = t.unplaced.name := congrArg Task.name hsame
    exact hsame
  have hopen := hname.even_of_rawUntil hdetails.space hnl hraw
  have hkind : (Token.plain .colon [' '] [':']).kind = .colon := rfl
  rw [hname.row_append hopen, List.append_assoc, List.cons_append,
    rawUntil_name hname hkind] at hraw
  cases hraw
  rw [expect_cons hkind] at hcolon
  cases hcolon
  obtain ⟨hnil, -⟩ | ⟨text', htext', hkind, hparts⟩ := exists_text hdetails
  · rw [hnil, List.nil_append, expect_ne (by rw [hnl]; decide)] at htext
    cases htext
  · rw [htext', List.singleton_append, expect_cons hkind] at htext
    cases htext
    have hwritten := (readTask_written_iff ht hknown).1 ⟨u, (readTask_congr hparts).1 hread, hsame⟩
    exact ⟨hwritten, by simpa using hopen⟩

end DiagramText.Gantt
