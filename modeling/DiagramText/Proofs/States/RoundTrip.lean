import DiagramText.Proofs.States.Nodes
import DiagramText.Proofs.States.Scopes

/-!
# State diagrams that are written and read

What is read of the lines of a state diagram is the diagram as its lines tell it, and that is all of
the diagram if its states are coherent.

* `StateDiagram.read_write_of_readable`: a diagram of which all parts can stand in a document, with
  every state written before it is mentioned, is read as its lines tell it.
* `StateDiagram.readsBack_of_declared`: with coherent states it reads back, for any nesting of
  scopes and regions.
-/

namespace DiagramText

open Text Document Reading

namespace States

/-! ### The header -/

theorem Version.isHyphenated_header (version : Version) : IsHyphenated version.header := by
  cases version <;> decide

/-- The header line is the word of the `version` and a line break. -/
theorem Version.fullLine_header (version : Version) :
    Token.fullLine .states version.header =
      [Token.plain .identifier [] version.header.toList,
        Token.lineBreak .states version.header.toList] := by
  have hword : Token.ofLine .states [] version.header.toList =
      [Token.plain .identifier [] version.header.toList] := by
    have hbare := isBare_name version.isHyphenated_header
    exact Token.ofLine_word Dialect.regular_states hbare.ne_nil
      (fun c hc => isSpaceOrTab_of_not_isBlank (hbare.blanks c (List.mem_of_head? hc))) hbare.first
      hbare.kind.2 []
  rw [Token.fullLine, hword]
  rfl

/-- Lines `ls` behind the header that close all their scopes are read as a diagram, that of the
draft `d` they lead to. -/
theorem read_lines {version : Version} {ls : List String} {d : Draft}
    (h : ReadsLines .states statement { version } ls d) (hopened : d.opened = []) : ∃ c,
      diagram .states ⟨[], (version.header :: ls).flatMap (Token.fullLine .states),
        Token.endOfInput⟩ = .ok (.states ⟨d.version, d.direction, d.scope⟩, c) := by
  let head := Token.plain .identifier [] version.header.toList
  let nl := Token.lineBreak .states version.header.toList
  have hskip : ∀ ts, skipNewlines ⟨[], head :: ts, Token.endOfInput⟩ =
      .ok ((), ⟨[], head :: ts, Token.endOfInput⟩) := fun _ => rfl
  have hnl : nl.kind = .newline := rfl
  -- both words for the version are read in the same way
  have hheader : ∀ ts, header ⟨[], head :: nl :: ts, Token.endOfInput⟩ =
      .ok ({ version }, ⟨[nl, head], ts, Token.endOfInput⟩) := by
    intro ts
    have hhead : head.kind = .identifier := rfl
    cases version with
    | v1 =>
      have hlower : lower head.text = "statediagram" := by decide
      simp [header, bind_apply, hskip, Except.bind, expect_cons hhead, hlower, endStatement_cons,
        hnl, map_apply]
    | v2 =>
      have hlower : lower head.text = "statediagram-v2" := by decide
      simp [header, bind_apply, hskip, Except.bind, expect_cons hhead, hlower, endStatement_cons,
        hnl, map_apply]
  obtain ⟨past', hrun⟩ := h.runs.untilEnd_eq [nl, head]
  refine ⟨⟨past', [], Token.endOfInput⟩, ?_⟩
  rw [List.flatMap_cons, Version.fullLine_header]
  show diagram .states ⟨[], head :: nl :: _, _⟩ = _
  simp [diagram, map_apply, read, bind_apply, hheader, Except.bind, hrun, hopened, pure_apply]

/-! ### Notes of plain lines -/

/-- A note `n` at the left or right of its state, with a text of one line, or of at least two lines
that a note can hold. -/
structure Note.IsPlain (n : Note) : Prop where
  placement : n.placement ≠ .across
  text : IsLabel n.text ∧ IsTrimmed n.text ∨ Content.ofText? n.text.raw = some n.text ∧
    2 ≤ (n.text.raw.toList.splitOn '\n').length ∧
      ∀ line ∈ n.text.raw.toList.splitOn '\n', IsInnerLine line

section Decidable

instance (s : State) : Decidable s.Coherent :=
  decidable_of_iff ((s.children.isSome = true → s.kind = .simple) ∧
      (s.children = none → s.transitions = []) ∧ (s.children = none → s.notes = []) ∧
        (s.children = none → s.direction = none) ∧ (s.children = none → s.regions = []))
    ⟨fun ⟨h₁, h₂, h₃, h₄, h₅⟩ => ⟨h₁, h₂, h₃, h₄, h₅⟩,
      fun ⟨h₁, h₂, h₃, h₄, h₅⟩ => ⟨h₁, h₂, h₃, h₄, h₅⟩⟩

instance (l : Content) : Decidable (IsLabel l) :=
  decidable_of_iff (Plain l.raw.toList ∧ Content.ofText? l.raw = some l)
    ⟨fun ⟨h₁, h₂⟩ => ⟨h₁, h₂⟩, fun ⟨h₁, h₂⟩ => ⟨h₁, h₂⟩⟩

instance (l : Content) : Decidable (IsTrimmed l) := inferInstanceAs (Decidable (_ ∧ _))

instance (n : Note) : Decidable n.IsPlain :=
  decidable_of_iff (n.placement ≠ .across ∧ (IsLabel n.text ∧ IsTrimmed n.text ∨
      Content.ofText? n.text.raw = some n.text ∧ 2 ≤ (n.text.raw.toList.splitOn '\n').length ∧
        ∀ line ∈ n.text.raw.toList.splitOn '\n', IsInnerLine line))
    ⟨fun ⟨h₁, h₂⟩ => ⟨h₁, h₂⟩, fun ⟨h₁, h₂⟩ => ⟨h₁, h₂⟩⟩

end Decidable

namespace Note.IsPlain

variable {n : Note}

/-- A text `cs` without line breaks is a single line when it is split. -/
theorem splitOn_eq_singleton {cs : List Char} (h : '\n' ∉ cs) : cs.splitOn '\n' = [cs] :=
  List.splitOnP_eq_singleton fun c hc => by simpa using ne_of_mem_of_not_mem hc h

theorem readable (h : n.IsPlain) (hstate : IsHyphenated n.state) : n.Readable where
  state := hstate
  placement := h.placement
  ofText? := h.text.elim (fun h => h.1.ofText?) fun h => h.1
  lines hbreak line hline := by
    rcases h.text with ⟨hlabel, -⟩ | ⟨-, -, hlines⟩
    · exact absurd hbreak hlabel.plain.not_mem_lineFeed
    · exact (hlines line hline).isNoteLine
  line hbreak := by
    rcases h.text with ⟨hlabel, htrim⟩ | ⟨-, hlen, -⟩
    · exact ⟨hlabel.plain, htrim.trimmed⟩
    · rw [splitOn_eq_singleton hbreak, List.length_singleton] at hlen
      omega

theorem uncut (h : n.IsPlain) : n.Uncut := by
  unfold Note.Uncut
  rcases h.text with ⟨hlabel, -⟩ | ⟨-, -, hlines⟩
  · rw [splitOn_eq_singleton hlabel.plain.not_mem_lineFeed]
    rfl
  · exact cuts_eq_zero (List.forall_mem_map.2 fun line hline => (hlines line hline).isBlankLine_eq)

end Note.IsPlain
end States

namespace StateDiagram

open States

/-! ### The diagram -/

/-- The diagram `d` as its lines tell it, which forgets what no line says. -/
def written (d : StateDiagram) : StateDiagram :=
  { d with scope := ⟨State.writtenList d.scope.states,
      d.scope.transitions.map Transition.unplaced, d.scope.notes⟩ }

theorem unplaced_written (d : StateDiagram) : d.written.unplaced = d.written := by
  rw [unplaced, written, State.unplacedList_writtenList, State.map_unplaced_unplaced]

/-- A diagram `d` of which all parts can stand in a document, with every state written before it is
mentioned and no id there twice. -/
structure Readable (d : StateDiagram) : Prop where
  states : ∀ s ∈ State.nodesList d.scope.states, s.Readable ∧ s.Clear
  scope : d.scope.Readable
  uncut : ∀ n ∈ d.scope.notes, n.Uncut
  nodup : (State.idsList d.scope.states).Nodup
  ordered : State.isOrderedScopes [] [d.scope] = true

/-- Such a diagram `d` is read as its lines tell it, in every `layout` with a blank indent. -/
theorem read_write_of_readable {d : StateDiagram} {layout : Layout} (hlayout : layout.IsBlank)
    (h : d.Readable) : ∃ q, Program.read (Program.write layout ⟨[.states d]⟩) = .ok q ∧
      q.same ⟨[.states d.written]⟩ = true := by
  -- the direction of the diagram is set first
  let start : Draft := { version := d.version, direction := d.direction }
  have hdirection : ReadsLines .states statement { version := d.version }
      (d.direction.map fun x => layout.line 1 s!"direction {x.name}").toList start := by
    cases hx : d.direction with
    | none =>
      simp only [start, hx]
      exact .nil
    | some x =>
      have hline := readsLines_direction hlayout 1 { version := d.version } x
      simp only [start, hx]
      exact hline
  -- its scope is read behind it
  have hready : start.Ready := .of_opened rfl
  have hordered := h.ordered
  rw [State.isOrderedScopes, Bool.and_eq_true, Bool.and_eq_true] at hordered
  obtain ⟨⟨hstates, hmentioned⟩, -⟩ := hordered
  have hknown : ∀ i ∈ ([] : List String), i ∈ start.ids := List.forall_mem_nil _
  obtain ⟨y, hy, hscope⟩ := readsLines_scope hlayout 1 hready h.scope h.uncut hknown
    (fun i hi => by simpa using List.all_eq_true.1 hmentioned i hi)
    (readsLines_list hlayout d.scope.states 1 start [] hready (List.forall_mem_nil _) h.states
      (fun _ _ hmem => List.not_mem_nil hmem) h.nodup hstates)
  obtain ⟨hys, hyt, hyn⟩ := State.unplacedScopes_singleton_iff.1 hy
  have hlines := hdirection.append hscope
  obtain ⟨c, hread⟩ := read_lines hlines (by rw [Draft.opened_add])
  -- the header stands before the lines
  have hwrite : d.write layout = joinLines (d.version.header ::
      ((d.direction.map fun x => layout.line 1 s!"direction {x.name}").toList ++
        (agenda layout).lines (scopeItems layout 1 d.scope))) := by
    rw [write, lines, Agenda.lines_body, Agenda.lines_nil, List.append_nil, List.cons_append,
      agenda_items]
  have hown : AreOwnLines (d.version.header ::
      ((d.direction.map fun x => layout.line 1 s!"direction {x.name}").toList ++
        (agenda layout).lines (scopeItems layout 1 d.scope))) := by
    refine .cons ?_ hlines.own
    cases d.version <;> exact ⟨by simp [Version.header, Plain, isBlank], by decide⟩
  rw [Program.read_write_iff_lines (d := .states d) (u := .states d.written) hwrite hown]
  refine ⟨_, c, hread, congrArg Diagram.states ?_⟩
  have hwritten : (start.add y).scope = y := by simp [start, Draft.add, Draft.modifyScope,
      Scope.append]
  show unplaced ⟨d.version, d.direction, (start.add y).scope⟩ = d.written.unplaced
  rw [hwritten, unplaced_written, unplaced, hys, hyt, hyn, written]

/-- The scopes of a diagram `d`, the outermost one first, and then those of its states in tree
order. -/
def scopes (d : StateDiagram) : List (Scope State) :=
  d.scope :: (State.nodesList d.scope.states).flatMap State.scopes

/-- A diagram `d` of coherent states with names, labels and notes of plain lines, in which
transitions and notes only mention states that are declared on an earlier line. -/
structure Declared (d : StateDiagram) : Prop where
  ids : ∀ i ∈ State.idsList d.scope.states, IsHyphenated i
  nodup : (State.idsList d.scope.states).Nodup
  coherent : ∀ s ∈ State.nodesList d.scope.states, s.Coherent
  labels : ∀ s ∈ State.nodesList d.scope.states, ∀ l ∈ s.label, IsLabel l ∧ IsTrimmed l
  transitions : ∀ y ∈ d.scopes, ∀ t ∈ y.transitions,
    (t.source = startId ∨ t.source ∈ State.idsList d.scope.states) ∧
      (t.target = endId ∨ t.target ∈ State.idsList d.scope.states) ∧
        ∀ l ∈ t.label, IsLabel l ∧ IsTrimmed l
  notes : ∀ y ∈ d.scopes, ∀ n ∈ y.notes, n.state ∈ State.idsList d.scope.states ∧ n.IsPlain
  ordered : State.isOrderedScopes [] [d.scope] = true

namespace Declared

variable {d : StateDiagram}

/-- The scopes of such a diagram `d` can stand in a document, and nothing cuts their notes. -/
theorem scope_readable (h : d.Declared) {y : Scope State} (hy : y ∈ d.scopes) :
    y.Readable ∧ ∀ n ∈ y.notes, n.Uncut := by
  refine ⟨⟨fun t ht => ?_, fun n hn => ?_⟩, fun n hn => (h.notes y hy n hn).2.uncut⟩
  · obtain ⟨hsource, htarget, hlabel⟩ := h.transitions y hy t ht
    exact ⟨hsource.imp_right (h.ids _), htarget.imp_right (h.ids _), hlabel⟩
  · obtain ⟨hstate, hplain⟩ := h.notes y hy n hn
    exact hplain.readable (h.ids _ hstate)

theorem readable (h : d.Declared) : d.Readable where
  states s hs := by
    have hscopes : ∀ y ∈ s.scopes, y ∈ d.scopes := fun y hy =>
      List.mem_cons_of_mem _ (List.mem_flatMap.2 ⟨s, hs, hy⟩)
    refine ⟨⟨h.ids _ (State.id_mem_idsList hs), fun l hl => (h.labels s hs l hl).1,
      fun y hy => (h.scope_readable (hscopes y hy)).1, (h.coherent s hs).regions⟩,
      fun l hl => (h.labels s hs l hl).2, fun y hy => (h.scope_readable (hscopes y hy)).2⟩
  scope := (h.scope_readable List.mem_cons_self).1
  uncut := (h.scope_readable List.mem_cons_self).2
  nodup := h.nodup
  ordered := h.ordered

/-- The lines of such a diagram `d` tell all of it but the positions. -/
theorem written_eq (h : d.Declared) : d.written = d.unplaced := by
  rw [written, unplaced, State.writtenList_eq_unplacedList _ h.coherent]

end Declared

/-- The lines of a declared diagram `d` are read as the diagram, since they tell all of it. -/
theorem Declared.readsBack {d : StateDiagram} {layout : Layout} (h : d.Declared)
    (hlayout : layout.IsBlank) : Program.ReadsBack layout ⟨[.states d]⟩ := by
  obtain ⟨q, hq, hsame⟩ := read_write_of_readable hlayout h.readable
  refine ⟨q, hq, ?_⟩
  have hunplaced : d.written.unplaced = d.unplaced := by rw [unplaced_written, h.written_eq]
  rw [Program.same, decide_eq_true_eq] at hsame ⊢
  rw [hsame]
  simp only [Program.unplaced, List.map_singleton, Diagram.unplaced, hunplaced]

/-- A state diagram `d` reads back from what is written for it, whatever scopes and regions its
states have, if references follow declarations and all names, labels and notes can stand in a
document. -/
theorem readsBack_of_declared {d : StateDiagram} {layout : Layout} (hlayout : layout.IsBlank)
    (h : d.Declared) : Program.ReadsBack layout ⟨[.states d]⟩ :=
  h.readsBack hlayout

/-- Regions in a region, keywords as names, and a note of lines that look like a header and like a
declaration. -/
theorem readsBack_nested_regions :
    Program.ReadsBack ⟨" \t"⟩ ⟨[.states {
      version := .v1
      direction := some .lr
      scope := {
        states := [
          { id := "note", label := some (.plain "a: b; %% c"), kind := .choice },
          { id := "state", label := some (.plain "--> [*]"), direction := some .td,
            children := some [{ id := "end-note" }],
            transitions := [⟨startId, "end-note", none, none⟩, ⟨"note", endId, none, none⟩],
            regions := [
              {},
              { states := [{ id := "x_1", children := some [], regions := [
                  { states := [{ id := "direction", kind := .join }],
                    transitions := [⟨"direction", "state", some (.plain "\x7d"), none⟩] }] }],
                notes := [⟨"end-note", .leftOf, .plain "gantt\nstate a \x7b\nends here\n:"⟩] }] }],
        transitions := [⟨"direction", "x_1", none, some ⟨7, 0, 40⟩⟩],
        notes := [⟨"state", .rightOf, .plain "end note; a"⟩] } }]⟩ :=
  readsBack_of_declared (by simp [Layout.IsBlank, isSpaceOrTab])
    ⟨by decide, by decide, by decide, by decide, by decide,
      by decide, by decide⟩

end StateDiagram
end DiagramText
