import DiagramText.Proofs.Flowchart.Lines
import DiagramText.Proofs.Flowchart.Reader

/-!
# Flowcharts that are written and read

A subgraph is read with the lines of its body between its own lines, so what is read of a tree of
statements follows by induction over the tree.

* `Flowchart.readsLines_body`: the lines of statements are read as the statements, at any depth.
* `Flowchart.readsBack_of_parts`: a flowchart of which all parts can stand in a document reads
  back from what is written.
-/

namespace DiagramText

open Text Reading

namespace Flowchart

/-! ### Agendas -/

theorem lines_clause (layout : Layout) (depth : Nat) (c : Clause) :
    (agenda layout).lines (Statement.items layout depth (.clause c)) =
      [layout.line depth c.text] := by
  rw [Statement.items, Agenda.lines_lines, Agenda.lines_nil, List.append_nil]

/-- The line that sets the `direction` of a subgraph, or no line if it has none. -/
def directionLines (layout : Layout) (depth : Nat) (direction : Option Direction) : List String :=
  direction.elim [] fun x => [layout.line depth s!"direction {x.name}"]

/-- A subgraph is a line that opens it, its direction, its statements `body` and a line that closes
it, with what it holds one level deeper. -/
theorem lines_subgraph (layout : Layout) (depth : Nat) (head : Subgraph) (body : List Statement) :
    (agenda layout).lines (Statement.items layout depth (.subgraph head body)) =
      [layout.line depth head.text] ++ (directionLines layout (depth + 1) head.direction ++
        ((agenda layout).lines (bodyItems layout (depth + 1) body) ++
          [layout.line depth "end"])) := by
  rw [Statement.items, directionLines]
  cases head.direction <;> simp

/-! ### Drafts -/

namespace Draft

variable (d : Draft)

/-- The draft with the nodes of the statements `ss` entered. The statements themselves are not
added. -/
def visit (ss : List Statement) : Draft :=
  { d with nodes := ss.foldl Registry.enterStatement d.nodes }

theorem visit_append (ss ts : List Statement) : d.visit (ss ++ ts) = (d.visit ss).visit ts := by
  unfold visit
  rw [List.foldl_append]

theorem visit_extend (ss ts : List Statement) :
    (d.extend ts).visit ss = (d.visit ss).extend ts := by
  obtain ⟨direction, nodes, statements, opened⟩ := d
  cases opened <;> rfl

theorem extend_nil : d.extend [] = d := by
  obtain ⟨direction, nodes, statements, opened⟩ := d
  cases opened <;> simp [extend]

theorem extend_extend (ss ts : List Statement) :
    (d.extend ss).extend ts = d.extend (ss ++ ts) := by
  obtain ⟨direction, nodes, statements, opened⟩ := d
  cases opened <;> simp [extend]

/-- A clause `c` is entered and put at the end of the innermost open body, so to add it is to visit
it and to extend the draft `d` by it. -/
theorem add_atOrigin (c : Clause) :
    d.add [c.atOrigin] = (d.visit [.clause c]).extend [.clause c.atOrigin] := by
  simp [add, visit, Registry.enterStatement, Registry.enter_atOrigin]

/-- Statements that are visited and read in the subgraph `s` belong to its body, while their nodes
are those of the draft. -/
theorem within_visit_extend (s : OpenSubgraph) (ss ts : List Statement) :
    ((d.within s).visit ss).extend ts = (d.visit ss).within { s with body := s.body ++ ts } := rfl

end Draft

/-! ### Trees -/

section Trees

variable {layout : Layout}

/-- The line of a clause `c` is read as the clause, at any depth. -/
theorem readsLines_clause (hlayout : layout.IsBlank) (depth : Nat) {c : Clause} (h : c.Readable)
    (d : Draft) :
    ReadsLines .flowchart statement d [layout.line depth c.text] (d.add [c.atOrigin]) :=
  .line Token.skipsBlanks_flowchart hlayout depth h.isWritable (flow_clause h.legible _)
    (Clause.kind_ne_comment h.legible _) fun _ _ _ hnl => statement_clause h.legible _ hnl

/-- The line that opens a subgraph `s` is read: the subgraph is then open, with no body yet. -/
theorem readsLines_open (hlayout : layout.IsBlank) (depth : Nat) {s : Subgraph} (h : s.Readable)
    (d : Draft) : ReadsLines .flowchart statement d [layout.line depth s.text]
      (d.within ⟨s.atOrigin, []⟩) :=
  .line Token.skipsBlanks_flowchart hlayout depth h.isWritable
    (flow_subgraph h.legible _) (s.kind_ne_comment _) fun _ _ _ hnl =>
      statement_open h.legible _ hnl

/-- The line of a direction `x` is read as the direction of the innermost open subgraph. -/
theorem readsLines_direction (hlayout : layout.IsBlank) (depth : Nat) (x : Option Direction)
    (d : Draft) (s : OpenSubgraph) (hs : s.head.direction = none) :
    ReadsLines .flowchart statement (d.within s) (directionLines layout depth x)
      (d.within { s with head := { s.head with direction := x } }) := by
  obtain ⟨⟨id, label, direction, position⟩, body⟩ := s
  obtain rfl : direction = none := hs
  cases x with
  | none => exact .nil
  | some x =>
    have hlist : s!"direction {x.name}".toList = "direction".toList ++ ' ' :: x.name.toList := by
      simp [toString]
    have hname : isSafeId x.name = true := by
      cases x <;> decide
    have hwritable : IsWritable s!"direction {x.name}".toList := by
      rw [hlist]
      exact IsHyphenated.isWritable_append (by decide) (Plain.space (IsHyphenated.plain hname))
    have hrow : Token.ofLine .flowchart (layout.pad depth).toList s!"direction {x.name}".toList =
        [.plain .identifier (layout.pad depth).toList "direction".toList,
          .plain .identifier [' '] x.name.toList] := by
      rw [hlist, Token.ofLine_flowchart, flow_name_space (by decide), flow_name_end hname]
    exact .line Token.skipsBlanks_flowchart hlayout depth hwritable hrow (by simp [Token.plain])
      fun _ _ _ hnl => statement_direction x _ _ hnl

/-- The line that closes a subgraph `s` is read: the subgraph is then the last statement of what is
around it. -/
theorem readsLines_end (hlayout : layout.IsBlank) (depth : Nat) (d : Draft) (s : OpenSubgraph) :
    ReadsLines .flowchart statement (d.within s) [layout.line depth "end"]
      (d.extend [.subgraph s.head s.body]) := by
  have hwritable : IsWritable "end".toList := by
    have hend := IsHyphenated.isWritable_append (by decide : isSafeId "end" = true) .nil
    rwa [List.append_nil] at hend
  exact .line Token.skipsBlanks_flowchart hlayout depth hwritable (flow_name_end (by decide) _ _)
    (by simp [Token.plain]) fun _ _ _ hnl => statement_end s _ hnl

mutual

/-- The lines of a statement `s` are read as the statement, up to positions. This and the next
theorem are one induction over the tree. -/
theorem readsLines_statement (hlayout : layout.IsBlank) (depth : Nat) (s : Statement)
    (h : ∀ t ∈ Statement.walk [s], t.Readable) (d : Draft) :
    ∃ s', s'.unplaced = s.unplaced ∧
      ReadsLines .flowchart statement d ((agenda layout).lines (s.items layout depth))
        ((d.visit (Statement.walk [s])).extend [s']) := by
  rw [Statement.walk_singleton] at h ⊢
  obtain ⟨hs, h⟩ := List.forall_mem_cons.1 h
  cases s with
  | clause c =>
    refine ⟨.clause c.atOrigin, by simp [Statement.unplaced, Clause.unplaced_atOrigin], ?_⟩
    have hwalk : Statement.walk (Statement.clause c).body = [] := by
      rw [Statement.body, Statement.walk]
    rw [hwalk, lines_clause, ← Draft.add_atOrigin]
    exact readsLines_clause hlayout depth hs d
  | subgraph head body =>
    let head' : Subgraph := { head with position := some .origin }
    obtain ⟨body', hbody', hbody⟩ :=
      readsLines_body hlayout (depth + 1) body h (d.within ⟨head', []⟩)
    refine ⟨.subgraph head' body', by rw [Statement.unplaced, Statement.unplaced, hbody'], ?_⟩
    rw [lines_subgraph]
    -- a subgraph itself mentions no node
    have hvisit : d.visit (.subgraph head body :: Statement.walk body) =
        d.visit (Statement.walk body) := rfl
    rw [Draft.within_visit_extend, List.nil_append] at hbody
    rw [Statement.body, hvisit]
    exact (readsLines_open hlayout depth hs d).append
      ((readsLines_direction hlayout (depth + 1) head.direction d _ rfl).append
        (hbody.append (readsLines_end hlayout depth _ _)))

/-- The lines of statements `ss` are read as the statements, one after the other, whatever draft
they are read into. -/
theorem readsLines_body (hlayout : layout.IsBlank) (depth : Nat) (ss : List Statement)
    (h : ∀ t ∈ Statement.walk ss, t.Readable) (d : Draft) :
    ∃ ss', Statement.unplacedList ss' = Statement.unplacedList ss ∧
      ReadsLines .flowchart statement d ((agenda layout).lines (bodyItems layout depth ss))
        ((d.visit (Statement.walk ss)).extend ss') := by
  cases ss with
  | nil =>
    refine ⟨[], rfl, ?_⟩
    rw [Statement.walk, bodyItems, List.flatMap_nil, Agenda.lines_nil, Draft.extend_nil]
    exact .nil
  | cons s ss =>
    rw [Statement.walk_cons] at h ⊢
    obtain ⟨hs, hss⟩ := List.forall_mem_append.1 h
    obtain ⟨s', hs', hfirst⟩ := readsLines_statement hlayout depth s hs d
    -- the other statements are read into the draft that the first one leaves
    obtain ⟨ss', hss', hrest⟩ := readsLines_body hlayout depth ss hss
      ((d.visit (Statement.walk [s])).extend [s'])
    refine ⟨s' :: ss', by rw [Statement.unplacedList, Statement.unplacedList, hs', hss'], ?_⟩
    have hlines : (agenda layout).lines (bodyItems layout depth (s :: ss)) =
        (agenda layout).lines (s.items layout depth) ++
          (agenda layout).lines (bodyItems layout depth ss) := Agenda.lines_append _ _ _
    -- to visit and extend twice is to do so once with both
    have hdraft : (((d.visit (Statement.walk [s])).extend [s']).visit
        (Statement.walk ss)).extend ss' =
          (d.visit (Statement.walk [s] ++ Statement.walk ss)).extend (s' :: ss') := by
      rw [Draft.visit_extend, Draft.extend_extend, Draft.visit_append]
      rfl
    rw [hlines, ← hdraft]
    exact hfirst.append hrest

end

end Trees

/-! ### The diagram -/

/-- The header line with the direction `x` is read, whatever is behind it. -/
theorem header_line (x : Direction) (ts : List Token) : ∃ past,
    header ⟨[], Token.fullLine .flowchart s!"flowchart {x.name}" ++ ts, Token.endOfInput⟩ =
      .ok ({ direction := x }, ⟨past, ts, Token.endOfInput⟩) := by
  let keyword := Token.plain .identifier [] "flowchart".toList
  let direction := Token.plain .identifier [' '] x.name.toList
  let nl := Token.lineBreak .flowchart s!"flowchart {x.name}".toList
  have hrow : Token.fullLine .flowchart s!"flowchart {x.name}" = [keyword, direction, nl] := by
    have hlist : s!"flowchart {x.name}".toList = "flowchart".toList ++ ' ' :: x.name.toList := by
      simp [toString]
    have hname : isSafeId x.name = true := by
      cases x <;> decide
    have hline : Token.ofLine .flowchart [] s!"flowchart {x.name}".toList =
        [keyword, direction] := by
      rw [hlist, Token.ofLine_flowchart, flow_name_space (by decide), flow_name_end hname]
    rw [Token.fullLine, hline]
    rfl
  have hword : keyword.isWord ["flowchart", "graph"] = true := by
    decide +kernel
  -- The name goes through a token, and each direction is found by its own name.
  have hdirection : Direction.ofText? direction.text = some x := by
    show Direction.ofText? (String.ofList x.name.toList) = some x
    cases x <;> decide +kernel
  have hkind : direction.kind = .identifier := rfl
  have hnl : nl.kind = .newline := rfl
  have hskip : ∀ ts, skipNewlines ⟨[], keyword :: ts, Token.endOfInput⟩ =
      .ok ((), ⟨[], keyword :: ts, Token.endOfInput⟩) := fun _ => rfl
  refine ⟨[nl, direction, keyword], ?_⟩
  rw [hrow]
  simp [header, bind_apply, hskip, Except.bind, acceptWord_cons, hword, check_apply, hkind,
    takeDirection, advance_cons, hdirection, map_apply, pure_apply, endStatement_cons, hnl]

/-- Lines behind the header that close all their subgraphs are read as a flowchart, which is what
they make of the empty draft. -/
theorem read_lines (x : Direction) {row : List Token} {d : Draft}
    (h : Runs statement { direction := x } row d) (hopened : d.opened = []) :
    ∃ c, diagram .flowchart ⟨[], Token.fullLine .flowchart s!"flowchart {x.name}" ++ row,
      Token.endOfInput⟩ = .ok (.flowchart ⟨d.direction, d.statements, d.nodes⟩, c) := by
  obtain ⟨past, hheader⟩ := header_line x row
  obtain ⟨past', hrun⟩ := h.untilEnd_eq past
  refine ⟨⟨past', [], Token.endOfInput⟩, ?_⟩
  simp [diagram, map_apply, read, bind_apply, hheader, Except.bind, hrun, hopened, pure_apply]

/-- A flowchart `e` that is read of lines is what their statements make behind the header, if these
close all their subgraphs. -/
theorem exists_of_diagram_lines (x : Direction) {row : List Token} {e : Flowchart} {c : Cursor}
    (h : diagram .flowchart ⟨[], Token.fullLine .flowchart s!"flowchart {x.name}" ++ row,
      Token.endOfInput⟩ = .ok (.flowchart e, c)) : ∃ past d,
      untilEnd statement { direction := x } ⟨past, row, Token.endOfInput⟩ = .ok (d, c) ∧
        d.opened = [] ∧ e = ⟨d.direction, d.statements, d.nodes⟩ := by
  obtain ⟨past, hheader⟩ := header_line x row
  rw [diagram, map_apply, Except.bind_eq_ok_iff] at h
  obtain ⟨⟨e', c'⟩, hread, h⟩ := h
  cases h
  rw [read, bind_apply, hheader] at hread
  dsimp only [Except.bind] at hread
  rw [bind_apply, Except.bind_eq_ok_iff] at hread
  obtain ⟨⟨d, c₁⟩, hrest, hread⟩ := hread
  cases hopened : d.opened with
  | nil =>
    rw [hopened] at hread
    cases hread
    exact ⟨past, d, hrest, hopened, rfl⟩
  | cons s outer =>
    rw [hopened] at hread
    cases hread

/-- A flowchart `d` of which all parts can stand in a document, with the registry that its
statements make in document order. -/
structure Readable (d : Flowchart) : Prop where
  statements : ∀ s ∈ Statement.walk d.statements, s.Readable
  nodes : d.nodes = Registry.ofStatements d.statements

/-- The lines of a readable flowchart `d` are read as the flowchart, in every `layout` with a blank
indent. -/
theorem Readable.readsBack {d : Flowchart} {layout : Layout} (h : d.Readable)
    (hlayout : layout.IsBlank) : Program.ReadsBack layout ⟨[.flowchart d]⟩ := by
  let start : Draft := { direction := d.direction }
  let headline := s!"flowchart {d.direction.name}"
  obtain ⟨ss, hss, hlines⟩ := readsLines_body hlayout 1 d.statements h.statements start
  obtain ⟨c, hread⟩ := read_lines d.direction hlines.runs rfl
  have hwrite : d.write layout =
      joinLines (headline :: (agenda layout).lines (bodyItems layout 1 d.statements)) := by
    rw [write, lines, Agenda.lines_body, Agenda.lines_nil, List.append_nil, agenda_items]
  have hheadline : IsOwnLine headline := by
    unfold headline IsOwnLine
    cases d.direction <;> decide +kernel
  rw [Program.readsBack_iff_lines (d := .flowchart d) hwrite (.cons hheadline hlines.own)]
  refine ⟨_, c, hread, congrArg Diagram.flowchart ?_⟩
  have hstatements : Statement.unplacedList ([] ++ ss) = Statement.unplacedList d.statements := hss
  show Flowchart.mk d.direction (Statement.unplacedList ([] ++ ss))
    (Registry.ofStatements d.statements) = _
  rw [hstatements, ← h.nodes]
  rfl

/-- A flowchart `d` reads back from what is written for it, whatever its subgraphs hold, if all its
names, labels and styles can stand in a document. -/
theorem readsBack_of_parts {d : Flowchart} {layout : Layout} (hlayout : layout.IsBlank)
    (h : d.Readable) : Program.ReadsBack layout ⟨[.flowchart d]⟩ :=
  h.readsBack hlayout

/-- Subgraphs in subgraphs, names that are keywords, labels that look like delimiters, and an id
that is no name. -/
theorem readsBack_nested_labels :
    Program.ReadsBack ⟨"\t "⟩ ⟨[.flowchart {
      direction := .lr
      nodes := [⟨"class", some (.plain " ]) | %%"), .trapezoidAlt⟩, ⟨"a-b", none, .circle⟩,
        { id := "direction" }]
      statements := [
        .clause (.node ⟨"class", some (.plain " ]) | %%"), .trapezoidAlt⟩ (some ⟨2, 1, 16⟩)),
        .subgraph { id := "my group;", direction := some .bt } [
          .clause (.edge ⟨"class", "a-b", .bothDotted, some (.plain "a|b"), none⟩),
          .subgraph { id := "style", label := some "it's; so" } [
            .clause (.node ⟨"a-b", none, .circle⟩ none),
            .clause (.classes ["a-b", "class"] "x")]],
        .clause (.edge ⟨"a-b", "direction", .circleArrow, none, none⟩),
        .clause (.classDef "x" "fill:#f9f,stroke:[(\"")] }]⟩ :=
  readsBack_of_parts (by simp [Layout.IsBlank, isSpaceOrTab])
    ⟨by decide +kernel, by decide +kernel⟩

end Flowchart
end DiagramText
