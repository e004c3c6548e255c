import DiagramText.Proofs.Sequence.Lines
import DiagramText.Sequence.Walk

/-!
# Sequence diagrams that are written and read

A block is read with the lines of its body and of its branches between its own lines, so what is
read of a tree of statements follows by induction over the tree.

* `Sequence.readsLines_body`: the lines of statements are read as the statements, at any depth.
* `SequenceDiagram.readsBack_of_readable`: a diagram of which all parts can stand in a document
  reads back from what is written.
-/

namespace DiagramText

open Text Reading

namespace Sequence

/-! ### Agendas -/

/-- An agenda is walked part by part, so the walk over `ps ++ qs` is that over `ps` and then that
over `qs`. -/
theorem Placed.walk_append (ps qs : List Placed) : walk (ps ++ qs) = walk ps ++ walk qs := by
  induction ps using walk.induct with
  | case1 => rw [walk, List.nil_append, List.nil_append]
  | case2 p ps ih =>
    rw [List.cons_append, walk, walk, ← List.append_assoc, ih, List.cons_append]

/-- A statement `p` is visited before its contents. -/
theorem Placed.walk_singleton (p : Placed) : walk [p] = p :: walk p.contents := by
  rw [walk, List.append_nil]

theorem Placed.walk_all_append (depth : Nat) (ss ts : List Statement) :
    walk (all depth (ss ++ ts)) = walk (all depth ss) ++ walk (all depth ts) := by
  rw [all, List.map_append, walk_append]
  rfl

theorem Placed.walk_all_cons (depth : Nat) (s : Statement) (ss : List Statement) :
    walk (all depth (s :: ss)) = walk [(depth, s)] ++ walk (all depth ss) :=
  walk_append [(depth, s)] _

/-! ### Drafts -/

namespace OpenBlock

theorem extend_nil (b : OpenBlock) : b.extend [] = b := by
  obtain ⟨head, body, branches⟩ := b
  rcases List.eq_nil_or_concat branches with rfl | ⟨branches, last, rfl⟩
  · simp [extend]
  · simp [extend]

theorem extend_extend (b : OpenBlock) (ss ts : List Statement) :
    (b.extend ss).extend ts = b.extend (ss ++ ts) := by
  obtain ⟨head, body, branches⟩ := b
  rcases List.eq_nil_or_concat branches with rfl | ⟨branches, last, rfl⟩
  · simp [extend]
  · simp [extend]

/-- Statements `ss` after the line of a branch belong to it, and not to the body of the block. -/
theorem extend_branch (b : OpenBlock) (label : Option String) (ss : List Statement) :
    (b.branch label).extend ss = { b with branches := b.branches ++ [⟨label, ss⟩] } := by
  simp [branch, extend]

end OpenBlock

namespace Draft

variable (d : Draft)

/-- The draft with the participants of the statements `ps` entered. The statements themselves are
not added. -/
def visit (ps : List Placed) : Draft :=
  { d with participants := (ps.map Prod.snd).foldl Registry.enterStatement d.participants }

theorem visit_append (ps qs : List Placed) : d.visit (ps ++ qs) = (d.visit ps).visit qs := by
  rw [visit, List.map_append, List.foldl_append]
  rfl

theorem visit_extend (ps : List Placed) (ss : List Statement) :
    (d.extend ss).visit ps = (d.visit ps).extend ss := by
  obtain ⟨statements, autonumber, participants, opened⟩ := d
  cases opened <;> rfl

theorem extend_nil : d.extend [] = d := by
  obtain ⟨statements, autonumber, participants, opened⟩ := d
  cases opened with
  | nil => simp [extend]
  | cons b opened => simp [extend, OpenBlock.extend_nil]

theorem extend_extend (ss ts : List Statement) :
    (d.extend ss).extend ts = d.extend (ss ++ ts) := by
  obtain ⟨statements, autonumber, participants, opened⟩ := d
  cases opened with
  | nil => simp [extend]
  | cons b opened => simp [extend, OpenBlock.extend_extend]

/-- A clause `c` is entered and put at the end of the innermost open body, so to add it is to visit
it and to extend the draft `d` by it. -/
theorem add_atOrigin (depth : Nat) (c : Clause) :
    d.add [c.atOrigin] = (d.visit [(depth, .clause c)]).extend [.clause c.atOrigin] := by
  simp [add, visit, Registry.enterStatement, Registry.enter_atOrigin]

end Draft

/-! ### Trees -/

section Trees

variable {layout : Layout}

/-- The line of a clause `c` is read as the clause, at any depth. -/
theorem readsLines_clause (hlayout : layout.IsBlank) (depth : Nat) {c : Clause} (h : c.Readable)
    (d : Draft) :
    ReadsLines .sequence statement d [layout.line depth c.text] (d.add [c.atOrigin]) :=
  .line Dialect.regular_sequence.skipsBlanks hlayout depth h.isWritable rfl (h.kind_ne_comment _)
    fun _ _ _ hnl => statement_clause h _ hnl

/-- A line of a `keyword` and a label is read as its row is, so only the row has to be followed. -/
theorem readsLines_keyword (hlayout : layout.IsBlank) (depth : Nat) {keyword : String}
    (hkeyword : IsIdentifier keyword) (text : Option String) (htext : ∀ l ∈ text, IsHeading l)
    {d d' : Draft}
    (h : ∀ past ts nl, nl.kind = .newline → ∃ past', statement d
      ⟨past, Token.plain .identifier (layout.pad depth).toList keyword.toList ::
        (labelTokens text ++ nl :: ts), Token.endOfInput⟩ =
          .ok (d', ⟨past', ts, Token.endOfInput⟩)) :
    ReadsLines .sequence statement d [layout.line depth (keywordLine keyword text)] d' := by
  have halias : ∀ l ∈ text, IsAlias l := fun l hl => (htext l hl).1
  have hline : ∀ l ∈ text, IsText l := fun l hl => (halias l hl).1
  have hwritable : IsWritable (keywordLine keyword text).toList := by
    rw [toList_keywordLine hline]
    exact hkeyword.isWritable_append (plain_labelChars hline)
  refine .line Dialect.regular_sequence.skipsBlanks hlayout depth hwritable
    (ofLine_keywordLine hkeyword hline _) ?_ h
  exact List.forall_mem_cons.2 ⟨nofun, kind_labelTokens halias⟩

theorem readsLines_end (hlayout : layout.IsBlank) (depth : Nat) (d : Draft) (b : OpenBlock) :
    ReadsLines .sequence statement (d.within b) [layout.line depth "end"] (d.extend [b.close]) :=
  readsLines_keyword hlayout depth (by decide : IsIdentifier "end") none (fun _ h => nomatch h)
    fun _ _ _ hnl => ⟨_, statement_end b _ hnl⟩

mutual

/-- The lines of a statement `s` are read as the statement, up to positions. This and the next two
theorems are one induction over the tree. -/
theorem readsLines_statement (hlayout : layout.IsBlank) (n depth : Nat) (s : Statement)
    (h : ∀ p ∈ Placed.walk [(n, s)], p.2.Readable) (d : Draft) :
    ∃ s', s'.unplaced = s.unplaced ∧
      ReadsLines .sequence statement d ((agenda layout).lines (s.items layout depth))
        ((d.visit (Placed.walk [(n, s)])).extend [s']) := by
  rw [Placed.walk_singleton] at h ⊢
  obtain ⟨hs, h⟩ := List.forall_mem_cons.1 h
  cases s with
  | clause c =>
    refine ⟨.clause c.atOrigin, by simp [Statement.unplaced, Clause.unplaced_atOrigin], ?_⟩
    have hwalk : Placed.walk (Placed.contents (n, .clause c)) = [] := by
      rw [Placed.contents, Statement.contents, Placed.all, List.map_nil, Placed.walk]
    have hlines : (agenda layout).lines (Statement.items layout depth (.clause c)) =
        [layout.line depth c.text] := by
      rw [Statement.items, Agenda.lines_lines, Agenda.lines_nil, List.append_nil]
    rw [hwalk, hlines, ← Draft.add_atOrigin]
    exact readsLines_clause hlayout depth hs d
  | block head body branches =>
    obtain ⟨hlabel, hlabels, hkind⟩ := hs
    rw [Placed.contents, Statement.contents, Placed.walk_all_append] at h ⊢
    obtain ⟨hbody, hbranches⟩ := List.forall_mem_append.1 h
    let head' : Block := { head with position := some .origin }
    have hkeyword : IsIdentifier head.kind.text := by cases head.kind <;> decide
    have hopen : ReadsLines .sequence statement d
        [layout.line depth (keywordLine head.kind.text head.label)] (d.openBlock head') :=
      readsLines_keyword hlayout depth hkeyword _ hlabel fun _ _ _ hnl =>
        statement_open hlabel _ hnl
    obtain ⟨body', hbody', hbody⟩ := readsLines_body hlayout (n + 1) (depth + 1) body hbody
      (d.openBlock head')
    let e := d.visit (Placed.walk (Placed.all (n + 1) body))
    obtain ⟨bs', hbs', hbranches⟩ : ∃ bs',
        Statement.unplacedBranches bs' = Statement.unplacedBranches branches ∧
        ReadsLines .sequence statement (e.within ⟨head', body', []⟩)
          ((agenda layout).lines (branches.flatMap (Branch.items layout depth head.kind)))
          ((e.visit (Placed.walk (Placed.all (n + 1) (branches.flatMap
            Branch.statements)))).within ⟨head', body', bs'⟩) := by
      cases hword : head.kind.branchKeyword? with
      | some keyword =>
        exact readsLines_branches hlayout (n + 1) depth hword branches hlabels hbranches e
          ⟨head', body', []⟩ rfl
      | none =>
        -- a kind without a word for branches has none
        obtain rfl : branches = [] := by
          by_contra hne
          have hsome := hkind hne
          rw [hword] at hsome
          cases hsome
        refine ⟨[], rfl, ?_⟩
        rw [List.flatMap_nil, List.flatMap_nil, Placed.all, List.map_nil, Placed.walk,
          Agenda.lines_nil]
        exact .nil
    refine ⟨.block head' body' bs', ?_, ?_⟩
    · rw [Statement.unplaced, Statement.unplaced, hbody', hbs']
    have hlines : (agenda layout).lines (Statement.items layout depth (.block head body branches)) =
        [layout.line depth (keywordLine head.kind.text head.label)] ++
          ((agenda layout).lines (bodyItems layout (depth + 1) body) ++
            ((agenda layout).lines (branches.flatMap (Branch.items layout depth head.kind)) ++
              [layout.line depth "end"])) := by
      rw [Statement.items]
      simp [Agenda.lines_append]
    rw [hlines]
    -- a block itself mentions no participant
    have hvisit : d.visit ((n, .block head body branches) ::
        (Placed.walk (Placed.all (n + 1) body) ++
        Placed.walk (Placed.all (n + 1) (branches.flatMap Branch.statements)))) =
          e.visit (Placed.walk (Placed.all (n + 1) (branches.flatMap Branch.statements))) := by
      rw [← Draft.visit_append]
      rfl
    rw [hvisit]
    exact hopen.append (hbody.append (hbranches.append (readsLines_end hlayout depth _ _)))

/-- The lines of statements `ss` are read as the statements, one after the other, whatever draft
they are read into. -/
theorem readsLines_body (hlayout : layout.IsBlank) (n depth : Nat) (ss : List Statement)
    (h : ∀ p ∈ Placed.walk (Placed.all n ss), p.2.Readable) (d : Draft) :
    ∃ ss', Statement.unplacedList ss' = Statement.unplacedList ss ∧
      ReadsLines .sequence statement d ((agenda layout).lines (bodyItems layout depth ss))
        ((d.visit (Placed.walk (Placed.all n ss))).extend ss') := by
  cases ss with
  | nil =>
    refine ⟨[], rfl, ?_⟩
    rw [Placed.all, List.map_nil, Placed.walk, bodyItems, List.flatMap_nil, Agenda.lines_nil,
      Draft.extend_nil]
    exact .nil
  | cons s ss =>
    rw [Placed.walk_all_cons] at h ⊢
    obtain ⟨hs, hss⟩ := List.forall_mem_append.1 h
    obtain ⟨s', hs', hfirst⟩ := readsLines_statement hlayout n depth s hs d
    -- the other statements are read into the draft that the first one leaves
    obtain ⟨ss', hss', hrest⟩ := readsLines_body hlayout n depth ss hss
      ((d.visit (Placed.walk [(n, s)])).extend [s'])
    refine ⟨s' :: ss', by rw [Statement.unplacedList, Statement.unplacedList, hs', hss'], ?_⟩
    have hlines : (agenda layout).lines (bodyItems layout depth (s :: ss)) =
        (agenda layout).lines (s.items layout depth) ++
          (agenda layout).lines (bodyItems layout depth ss) := Agenda.lines_append _ _ _
    -- to visit and extend twice is to do so once with both
    have hdraft : (((d.visit (Placed.walk [(n, s)])).extend [s']).visit
        (Placed.walk (Placed.all n ss))).extend ss' =
          (d.visit (Placed.walk [(n, s)] ++ Placed.walk (Placed.all n ss))).extend (s' :: ss') := by
      rw [Draft.visit_extend, Draft.extend_extend, Draft.visit_append]
      rfl
    rw [hlines, ← hdraft]
    exact hfirst.append hrest

/-- The lines of branches are read as branches of the innermost open block `b`, behind those that it
has. -/
theorem readsLines_branches (hlayout : layout.IsBlank) (n depth : Nat) {kind : BlockKind}
    {keyword : String} (hkeyword : kind.branchKeyword? = some keyword)
    (bs : List (Branch Statement)) (hlabels : ∀ b ∈ bs, ∀ l ∈ b.label, IsHeading l)
    (h : ∀ p ∈ Placed.walk (Placed.all n (bs.flatMap Branch.statements)), p.2.Readable)
    (d : Draft) (b : OpenBlock) (hb : b.head.kind = kind) :
    ∃ bs', Statement.unplacedBranches bs' = Statement.unplacedBranches bs ∧
      ReadsLines .sequence statement (d.within b)
        ((agenda layout).lines (bs.flatMap (Branch.items layout depth kind)))
        ((d.visit (Placed.walk (Placed.all n (bs.flatMap Branch.statements)))).within
          { b with branches := b.branches ++ bs' }) := by
  match bs with
  | [] =>
    refine ⟨[], rfl, ?_⟩
    rw [List.flatMap_nil, List.flatMap_nil, Placed.all, List.map_nil, Placed.walk, Agenda.lines_nil,
      List.append_nil]
    exact .nil
  | ⟨label, ss⟩ :: bs =>
    obtain ⟨hlabel, hlabels⟩ := List.forall_mem_cons.1 hlabels
    have hflat : (⟨label, ss⟩ :: bs : List (Branch Statement)).flatMap Branch.statements =
        ss ++ bs.flatMap Branch.statements := List.flatMap_cons
    rw [hflat, Placed.walk_all_append] at h ⊢
    obtain ⟨hss, hbs⟩ := List.forall_mem_append.1 h
    have hword : IsIdentifier keyword := by
      revert hkeyword
      cases kind <;> rintro ⟨⟩ <;> decide
    have hopen : ReadsLines .sequence statement (d.within b)
        [layout.line depth (keywordLine keyword label)] (d.within (b.branch label)) :=
      readsLines_keyword hlayout depth hword _ hlabel fun _ _ _ hnl =>
        statement_branch (hb ▸ hkeyword) hlabel _ hnl
    -- The branch is open: its body is read into it, and the other branches come behind it.
    obtain ⟨ss', hss', hbody⟩ := readsLines_body hlayout n (depth + 1) ss hss
      (d.within (b.branch label))
    obtain ⟨bs', hbs', hrest⟩ := readsLines_branches hlayout n depth hkeyword bs hlabels hbs
      (d.visit (Placed.walk (Placed.all n ss)))
      { b with branches := b.branches ++ [⟨label, ss'⟩] } hb
    refine ⟨⟨label, ss'⟩ :: bs', ?_, ?_⟩
    · rw [Statement.unplacedBranches, Statement.unplacedBranches, hss', hbs']
    have hlines : (agenda layout).lines ((⟨label, ss⟩ :: bs : List (Branch Statement)).flatMap
        (Branch.items layout depth kind)) =
          [layout.line depth (keywordLine keyword label)] ++
            ((agenda layout).lines (bodyItems layout (depth + 1) ss) ++
              (agenda layout).lines (bs.flatMap (Branch.items layout depth kind))) := by
      rw [List.flatMap_cons, Branch.items, BlockKind.branchWord, hkeyword, Option.getD_some,
        List.cons_append, List.singleton_append, Agenda.lines_lines, Agenda.lines_body,
          agenda_items]
    have hbranch : ((d.within (b.branch label)).visit (Placed.walk (Placed.all n ss))).extend ss' =
        (d.visit (Placed.walk (Placed.all n ss))).within
          { b with branches := b.branches ++ [⟨label, ss'⟩] } := by
      rw [← OpenBlock.extend_branch]
      rfl
    rw [hlines, Draft.visit_append]
    rw [List.append_assoc, List.singleton_append] at hrest
    rw [hbranch] at hbody
    exact hopen.append (hbody.append hrest)

end

end Trees

/-! ### The diagram -/

/-- The row of the header, which is one word. -/
theorem fullLine_header : Token.fullLine .sequence "sequenceDiagram" =
    [Token.plain .identifier [] "sequenceDiagram".toList,
      Token.lineBreak .sequence "sequenceDiagram".toList] := by
  rw [Token.fullLine, ofLine_identifier_end (by decide)]
  rfl

/-- Lines `ls` behind the header that close all their blocks are read as a diagram, which is what
they make of the empty draft `d`. -/
theorem read_lines {ls : List String} {d : Draft} (h : ReadsLines .sequence statement {} ls d)
    (hopened : d.opened = []) : ∃ c,
      diagram .sequence ⟨[], ("sequenceDiagram" :: ls).flatMap (Token.fullLine .sequence),
        Token.endOfInput⟩ = .ok (.sequence ⟨d.statements, d.autonumber, d.participants⟩, c) := by
  let header := Token.plain .identifier [] "sequenceDiagram".toList
  let nl := Token.lineBreak .sequence "sequenceDiagram".toList
  have hheader : Token.fullLine .sequence "sequenceDiagram" = [header, nl] := fullLine_header
  have hskip : ∀ ts, skipNewlines ⟨[], header :: ts, Token.endOfInput⟩ =
      .ok ((), ⟨[], header :: ts, Token.endOfInput⟩) := fun _ => rfl
  have hword : header.isWord ["sequencediagram"] = true := by decide +kernel
  have hnl : nl.kind = .newline := rfl
  obtain ⟨past', hrun⟩ := h.runs.untilEnd_eq [nl, header]
  refine ⟨⟨past', [], Token.endOfInput⟩, ?_⟩
  rw [List.flatMap_cons, hheader]
  simp [diagram, map_apply, read, bind_apply, hskip, Except.bind, expectWord_cons hword,
    endStatement_cons, hnl, hrun,
    hopened, pure_apply]

end Sequence

namespace SequenceDiagram

open Sequence

/-- A diagram `d` of which all parts can stand in a document, with the registry that its statements
make in document order. -/
structure Readable (d : SequenceDiagram) : Prop where
  statements : ∀ p ∈ d.walk, p.2.Readable
  participants : d.participants.map Participant.unplaced =
    (d.walk.map Prod.snd).foldl Registry.enterStatement []

/-- The lines of a readable sequence diagram are read as the diagram `d`, in every `layout` with a
blank indent. -/
theorem Readable.readsBack {d : SequenceDiagram} {layout : Layout} (h : d.Readable)
    (hlayout : layout.IsBlank) : Program.ReadsBack layout ⟨[.sequence d]⟩ := by
  let start : Draft := { autonumber := d.autonumber }
  -- The line of `autonumber` is there only if it is set.
  have hnumber : ReadsLines .sequence statement {}
      (if d.autonumber then [layout.line 1 "autonumber"] else []) start := by
    cases hauto : d.autonumber with
    | false =>
      simp only [start, hauto]
      exact .nil
    | true =>
      simp only [start, hauto, if_true]
      exact readsLines_keyword hlayout 1 (by decide : IsIdentifier "autonumber") none nofun
        fun _ _ _ hnl => ⟨_, statement_autonumber _ hnl⟩
  obtain ⟨ss, hss, hbody⟩ := readsLines_body hlayout 0 1 d.statements h.statements start
  have hlines := hnumber.append hbody
  obtain ⟨c, hread⟩ := read_lines hlines rfl
  have hwrite : d.write layout = joinLines ("sequenceDiagram" ::
      ((if d.autonumber then [layout.line 1 "autonumber"] else []) ++
        (agenda layout).lines (bodyItems layout 1 d.statements))) := by
    rw [write, lines, Agenda.lines_body, Agenda.lines_nil, List.append_nil, List.cons_append,
      agenda_items]
  have hown : AreOwnLines ("sequenceDiagram" :: ((if d.autonumber then
      [layout.line 1 "autonumber"] else []) ++
        (agenda layout).lines (bodyItems layout 1 d.statements))) :=
    .cons ⟨by simp [Plain, isBlank], by decide⟩ hlines.own
  rw [Program.readsBack_iff_lines (d := .sequence d) hwrite hown]
  refine ⟨_, c, hread, congrArg Diagram.sequence ?_⟩
  -- Dropping positions once more changes nothing, so `h.participants` may be used under it.
  have hparticipants : (d.participants.map Participant.unplaced).map Participant.unplaced =
      d.participants.map Participant.unplaced := by
    rw [List.map_map]
    rfl
  rw [h.participants] at hparticipants
  have hstatements : Statement.unplacedList ([] ++ ss) = Statement.unplacedList d.statements := hss
  show SequenceDiagram.mk (Statement.unplacedList ([] ++ ss)) d.autonumber
    (((d.walk.map Prod.snd).foldl Registry.enterStatement []).map Participant.unplaced) = _
  rw [hstatements, hparticipants, ← h.participants]
  rfl

/-- A sequence diagram `d` reads back from what is written for it, whatever its blocks hold, if all
its names, texts and labels can stand in a document. -/
theorem readsBack_of_readable {d : SequenceDiagram} {layout : Layout} (hlayout : layout.IsBlank)
    (h : d.Readable) : Program.ReadsBack layout ⟨[.sequence d]⟩ :=
  h.readsBack hlayout

/-- Blocks in a branch, names that are keywords, and a minus before a name. -/
theorem readsBack_nested_keywords :
    Program.ReadsBack ⟨" \t"⟩ ⟨[.sequence {
      autonumber := true
      participants := [⟨"end", some "The end", .actor, none⟩, { id := "note" }, { id := "xy" }]
      statements := [
        .clause (.participant ⟨"end", some "The end", .actor, some ⟨2, 1, 16⟩⟩),
        .block { kind := .alt, label := some "is it; so?" } [
            .clause (.message ⟨"end", "note", .dottedAsync, some (.plain "%% a: b"),
              some .deactivate, none⟩)]
          [{ label := some "else", statements := [
            .block { kind := .loop } [
              .clause (.note ⟨.leftOf, ["note", "xy"], .plain "over", none⟩),
              .clause (.activation "xy" true)] []] }],
        .clause (.message ⟨"xy", "xy", .solidCross, none, some .activate, none⟩)] }]⟩ :=
  readsBack_of_readable (by simp [Layout.IsBlank, isSpaceOrTab])
    ⟨by decide +kernel, by decide +kernel⟩

end SequenceDiagram
end DiagramText
