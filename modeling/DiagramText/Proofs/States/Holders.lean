import DiagramText.Proofs.States.Readable
import DiagramText.Proofs.States.RoundTrip

/-!
# The states that hold states

Writing puts the states of a scope before its transitions, and the scopes of a state before all that
follows the state. A state that is mentioned before it is written is read into the scope that
mentions it, so it moves; where every mention follows, no state does.

* `StateDiagram.holders`: the states of a diagram with the states that hold them.
* `StateDiagram.holders_of_read`: a diagram that was read keeps its holders if its states are
  written before they are mentioned.
* `StateDiagram.holders_moved`: a diagram that does not.
-/

namespace DiagramText

open Text Reading

namespace States

namespace State

/-! ### Positions -/

mutual

theorem nodes_unplaced : ∀ s : State, s.unplaced.nodes = s.nodes.map unplaced
  | ⟨_, _, _, children, _, _, _, regions, _⟩ => by
    rw [unplaced, nodes, nodes, List.map_cons, List.map_append, nodesChildren_unplaced children,
      nodesScopes_unplaced regions]
    rfl

theorem nodesChildren_unplaced : ∀ c : Option (List State),
    nodesChildren (unplacedChildren c) = (nodesChildren c).map unplaced
  | none => rfl
  | some ss => nodesList_unplaced ss

theorem nodesList_unplaced : ∀ ss : List State,
    nodesList (unplacedList ss) = (nodesList ss).map unplaced
  | [] => rfl
  | s :: ss => by
    rw [unplacedList, nodesList, nodesList, List.map_append, nodes_unplaced s,
      nodesList_unplaced ss]

theorem nodesScopes_unplaced : ∀ rs : List (Scope State),
    nodesScopes (unplacedScopes rs) = (nodesScopes rs).map unplaced
  | [] => rfl
  | ⟨states, _, _⟩ :: rs => by
    rw [unplacedScopes, nodesScopes, nodesScopes, List.map_append, nodesList_unplaced states,
      nodesScopes_unplaced rs]

end

theorem idsList_unplaced (ss : List State) : idsList (unplacedList ss) = idsList ss := by
  rw [← ids_outlineList, outline_unplacedList, ids_outlineList]

end State

/-- Positions do not matter to whether a transition or note can stand in a document. -/
theorem readable_of_map_unplaced {y z : Scope State}
    (h : z.transitions.map Transition.unplaced = y.transitions.map Transition.unplaced)
    (hnotes : z.notes = y.notes) (hy : y.Readable) : z.Readable := by
  refine ⟨fun t ht => ?_, hnotes ▸ hy.notes⟩
  have hmem : t.unplaced ∈ y.transitions.map Transition.unplaced := h ▸ List.mem_map_of_mem ht
  obtain ⟨u, hu, hunplaced⟩ := List.mem_map.1 hmem
  obtain ⟨source, target, label, position⟩ := t
  obtain ⟨source', target', label', position'⟩ := u
  cases hunplaced
  have hreadable := hy.transitions _ hu
  exact ⟨hreadable.source, hreadable.target, hreadable.label⟩

theorem forall_scopes_of_unplaced {ys zs : List (Scope State)}
    (h : State.unplacedScopes zs = State.unplacedScopes ys) (hys : ∀ y ∈ ys, y.Readable) :
    ∀ z ∈ zs, z.Readable := by
  induction zs generalizing ys with
  | nil => exact List.forall_mem_nil _
  | cons z zs ih =>
    cases ys with
    | nil => cases h
    | cons y ys =>
      obtain ⟨hy, hys⟩ := List.forall_mem_cons.1 hys
      obtain ⟨hhead, hrest⟩ := List.cons.inj h
      obtain ⟨-, htransitions, hnotes⟩ := Scope.mk.inj hhead
      exact List.forall_mem_cons.2
        ⟨readable_of_map_unplaced htransitions hnotes hy, ih hrest hys⟩

/-- A state `t` that differs from `s` in positions only can stand in a document if `s` can. -/
theorem State.Readable.of_unplaced {s t : State} (h : t.unplaced = s.unplaced) (hs : s.Readable) :
    t.Readable := by
  obtain ⟨id, label, kind, children, transitions, notes, direction, regions, position⟩ := s
  obtain ⟨id', label', kind', children', transitions', notes', direction', regions', position'⟩ := t
  simp only [unplaced, State.mk.injEq] at h
  obtain ⟨rfl, rfl, -, hchildren, htransitions, rfl, -, hregions, -⟩ := h
  obtain ⟨hown, hparts⟩ := List.forall_mem_cons.1 hs.scopes
  refine ⟨hs.id, hs.label, List.forall_mem_cons.2 ⟨?_, forall_scopes_of_unplaced hregions hparts⟩,
    fun hnone => ?_⟩
  · exact readable_of_map_unplaced (y := ⟨children.getD [], transitions, notes'⟩)
      (z := ⟨children'.getD [], transitions', notes'⟩) htransitions rfl hown
  · obtain rfl : children' = none := hnone
    have hnone' : children = none := by
      cases children with
      | none => rfl
      | some ss => cases hchildren
    obtain rfl : regions = [] := hs.regions hnone'
    cases regions' with
    | nil => rfl
    | cons r rs => cases hregions

/-! ### Walking -/

namespace State

/-- A list of states and the state that holds it, of which only the `outline`s are left. -/
def outlineGroup (g : Group) : Group := (g.1.map outline, outlineList g.2)

theorem groupsOf_outline (ss : List State) :
    groupsOf (outlineList ss) = (groupsOf ss).map outlineGroup := by
  have hgroups : ∀ s : State, s.outline.groups = s.groups.map outlineGroup := by
    rintro ⟨id, label, kind, children, transitions, notes, direction, regions, position⟩
    let s : State :=
      ⟨id, label, kind, children, transitions, notes, direction, regions, position⟩
    have hregions : ∀ rs : List (Scope State),
        (outlineScopes rs).map (fun r => (some s.outline, r.states)) =
          (rs.map fun r => (some s, r.states)).map outlineGroup := by
      intro rs
      induction rs with
      | nil => rfl
      | cons r rs ih => rw [outlineScopes, List.map_cons, List.map_cons, List.map_cons, ih]; rfl
    show _ ++ (outlineScopes regions).map (fun r => (some s.outline, r.states)) = _
    rw [hregions, groups, List.map_append]
    cases children <;> rfl
  induction ss with
  | nil => rfl
  | cons s ss ih =>
    rw [outlineList, groupsOf, List.flatMap_cons, hgroups s, groupsOf, List.flatMap_cons,
      List.map_append]
    exact congrArg _ ih

/-- The walk over outlines is the outline of the walk, since an outline keeps which states hold
which. -/
theorem walk_outline (gs : List Group) :
    walk (gs.map outlineGroup) = (walk gs).map fun p => (p.1.map outline, p.2.outline) := by
  induction gs using walk.induct with
  | case1 =>
    rw [List.map_nil, walk]
    rfl
  | case2 holder states queue ih =>
    rw [List.map_append, ← groupsOf_outline] at ih
    rw [List.map_cons, outlineGroup, walk, walk, ih, List.map_append, outlineList_eq_map,
      List.map_map, List.map_map]
    rfl

end State

end States

namespace StateDiagram

open States

variable {d e : StateDiagram}

instance (n : Note) : Decidable n.Uncut := inferInstanceAs (Decidable (_ = _))

/-- The ids of all states of `d`, each with the id of the state that holds it, if any. -/
def holders (d : StateDiagram) : List (Option String × String) :=
  d.walk.map fun p => (p.1.map State.id, p.2.id)

/-- The outlines of the states tell which states hold them, so equal outlines give equal
`holders`. -/
theorem holders_congr (h : State.outlineList d.scope.states = State.outlineList e.scope.states) :
    d.holders = e.holders := by
  have hid : ∀ s : State, s.outline.id = s.id := by
    rintro ⟨_, _, _, _, _, _, _, _, _⟩
    rfl
  have houtline : ∀ d : StateDiagram, d.holders =
      (State.walk [(none, State.outlineList d.scope.states)]).map
        fun p => (p.1.map State.id, p.2.id) := by
    intro d
    have hwalk := State.walk_outline [(none, d.scope.states)]
    have hgroup : [(none, d.scope.states)].map State.outlineGroup =
        [(none, State.outlineList d.scope.states)] := rfl
    rw [hgroup] at hwalk
    rw [hwalk, List.map_map, holders, walk]
    refine List.map_congr_left fun p _ => ?_
    simp only [Function.comp_apply, Option.map_map, hid, Prod.mk.injEq, and_true]
    exact congrArg (Option.map · p.1) (funext fun s => (hid s).symm)
  rw [houtline d, houtline e, h]

/-- All parts of a diagram `d` that was read can stand in a document, and no id is there twice.
Blanks are what the scanner takes for them. -/
theorem readable_of_read {src : String}
    (hblanks : ∀ c ∈ src.toList, isBlank c = true → isSpaceOrTab c = true ∨ isLineBreak c = true)
    (h : Program.read src = .ok ⟨[.states d]⟩) :
    (∀ s ∈ State.nodesList d.scope.states, s.Readable) ∧ d.scope.Readable ∧
      (State.idsList d.scope.states).Nodup := by
  -- What was read has the shape of a diagram `e` that a row is read as, at other positions.
  obtain ⟨text, htext, x, c, hread, hsame⟩ :=
    Program.exists_row_of_read h (List.mem_singleton.2 rfl)
  have hscanned : Scanned (.ofText .states text) :=
    ⟨Token.scanned_ofText fun c hc => hblanks c (htext c hc), rfl⟩
  rw [Diagram.dialect, Reading.diagram, map_apply, Except.bind_eq_ok_iff] at hread
  obtain ⟨⟨e, c'⟩, he, hx⟩ := hread
  cases hx
  have hsound := ensures_read _ _ _ hscanned he
  have hunplaced : e.unplaced = d.unplaced := by simpa [Diagram.unplaced] using hsame
  have hscope : State.unplacedScopes [e.scope] = State.unplacedScopes [d.scope] := by
    have hscopes := congrArg StateDiagram.scope hunplaced
    exact congrArg (· :: []) hscopes
  have hstates : State.unplacedList e.scope.states = State.unplacedList d.scope.states :=
    congrArg (fun y => y.scope.states) hunplaced
  -- All three are told without positions, so they go over from `e`.
  refine ⟨fun s hs => ?_, ?_, ?_⟩
  · have hmem : s.unplaced ∈ (State.nodesList e.scope.states).map State.unplaced := by
      rw [← State.nodesList_unplaced, hstates, State.nodesList_unplaced]
      exact List.mem_map_of_mem hs
    obtain ⟨t, ht, hunplaced⟩ := List.mem_map.1 hmem
    exact (hsound.states t ht).readable.of_unplaced hunplaced.symm
  · exact forall_scopes_of_unplaced hscope.symm (List.forall_mem_singleton.2 hsound.scope)
      _ List.mem_cons_self
  · rw [← State.idsList_unplaced, ← hstates, State.idsList_unplaced]
    exact hsound.nodup

/-- A diagram that was read keeps the holders of its states when it is written and read again, if
every state is written before a transition or note mentions it, its labels are trimmed and not
empty, and no line of a note starts a diagram. -/
theorem holders_of_read {src : String} {layout : Layout}
    (hblanks : ∀ c ∈ src.toList, isBlank c = true → isSpaceOrTab c = true ∨ isLineBreak c = true)
    (hlayout : layout.IsBlank) (h : Program.read src = .ok ⟨[.states d]⟩)
    (hordered : State.isOrderedScopes [] [d.scope] = true)
    (hlabels : ∀ s ∈ State.nodesList d.scope.states, ∀ l ∈ s.label, IsTrimmed l)
    (hnotes : ∀ y ∈ d.scopes, ∀ n ∈ y.notes, n.Uncut) :
    ∃ e : StateDiagram, Program.read (Program.write layout ⟨[.states d]⟩) = .ok ⟨[.states e]⟩ ∧
      e.holders = d.holders := by
  obtain ⟨hstates, hscope, hnodup⟩ := readable_of_read hblanks h
  obtain ⟨huncut, hnotes⟩ := List.forall_mem_cons.1 hnotes
  have hclear : ∀ s ∈ State.nodesList d.scope.states, s.Clear := fun s hs =>
    ⟨hlabels s hs, fun y hy => hnotes y (List.mem_flatMap.2 ⟨s, hs, hy⟩)⟩
  have hreadable : d.Readable :=
    ⟨fun s hs => ⟨hstates s hs, hclear s hs⟩, hscope, huncut, hnodup, hordered⟩
  obtain ⟨q, hq, hsame⟩ := read_write_of_readable hlayout hreadable
  rw [Program.same, decide_eq_true_eq] at hsame
  -- what is read is one diagram with the outline that the lines tell
  obtain ⟨diagrams⟩ := q
  have hdiagrams : diagrams.map Diagram.unplaced = [.states d.written.unplaced] :=
    congrArg Program.diagrams hsame
  obtain ⟨x, rfl⟩ : ∃ x, diagrams = [x] := by
    have hlength : diagrams.length = 1 := by simpa using congrArg List.length hdiagrams
    exact List.length_eq_one_iff.1 hlength
  have hx : x.unplaced = .states d.written.unplaced := (List.cons.inj hdiagrams).1
  cases x with
  | states e =>
    refine ⟨e, hq, holders_congr ?_⟩
    have he : e.unplaced = d.written := by
      rw [← unplaced_written]
      exact Diagram.states.inj hx
    exact State.outlineList_congr (congrArg (fun y => y.scope.states) he)
  | flowchart _ => cases hx
  | sequence _ => cases hx
  | classes _ => cases hx
  | entities _ => cases hx
  | gantt _ => cases hx

/-- States of the outermost scope that are mentioned in a composite one stay there, and a composite
state that is opened twice stays where it was. -/
theorem holders_of_read_regions : ∃ d e : StateDiagram,
    Program.read ("stateDiagram\r\nb : B\r\nstate a \x7b\r\n\tc --> b\r\n\t--\r\n" ++
      "\te\r\n\tnote left of b\r\n\t\tx\r\n\t\ty\r\n\tend note\r\n\x7d\r\n" ++
      "state a \x7b\r\n\tf\r\n\x7d\r\n") = .ok ⟨[.states d]⟩ ∧
    Program.read (Program.write ⟨"\t"⟩ ⟨[.states d]⟩) = .ok ⟨[.states e]⟩ ∧
    d.holders = [(none, "b"), (none, "a"), (some "a", "c"), (some "a", "f"), (some "a", "e")] ∧
    e.holders = d.holders := by
  let d : StateDiagram := {
    version := .v1
    scope := {
      states := [
        { id := "b", label := some (.plain "B"), position := some ⟨2, 0, 14⟩ },
        { id := "a"
          children := some [
            { id := "c", position := some ⟨4, 1, 33⟩ },
            { id := "f", position := some ⟨13, 1, 104⟩ }]
          transitions := [⟨"c", "b", none, some ⟨4, 1, 33⟩⟩]
          regions := [{
            states := [{ id := "e", position := some ⟨6, 1, 48⟩ }]
            notes := [⟨"b", .leftOf, .plain "x\ny"⟩] }]
          position := some ⟨3, 6, 27⟩ }] } }
  have hread : Program.read ("stateDiagram\r\nb : B\r\nstate a \x7b\r\n\tc --> b\r\n\t--\r\n" ++
      "\te\r\n\tnote left of b\r\n\t\tx\r\n\t\ty\r\n\tend note\r\n\x7d\r\n" ++
      "state a \x7b\r\n\tf\r\n\x7d\r\n") = .ok ⟨[.states d]⟩ := by decide +kernel
  have hlayout : Layout.IsBlank ⟨"\t"⟩ := by simp [Layout.IsBlank, isSpaceOrTab]
  obtain ⟨e, he, hholders⟩ := holders_of_read (by decide +kernel) hlayout hread (by decide +kernel)
    (by decide +kernel) (by decide +kernel)
  exact ⟨d, e, hread, he, by decide +kernel, hholders⟩

/-- A state that is first mentioned between two states, and then inside the one that is written
before it, moves into that one. So the condition of `holders_of_read` on the order is needed. -/
theorem holders_moved : ∃ d e : StateDiagram,
    Program.read "stateDiagram-v2\nA --> B\nstate A \x7b\n  c --> B\n\x7d\n" = .ok ⟨[.states d]⟩ ∧
      Program.read (Program.write {} ⟨[.states d]⟩) = .ok ⟨[.states e]⟩ ∧
        (none, "B") ∈ d.holders ∧ (some "A", "B") ∈ e.holders := by
  refine ⟨{
      scope := {
        states := [
          { id := "A"
            children := some [{ id := "c", position := some ⟨4, 2, 36⟩ }]
            transitions := [⟨"c", "B", none, some ⟨4, 2, 36⟩⟩]
            position := some ⟨2, 0, 16⟩ },
          { id := "B", position := some ⟨2, 6, 22⟩ }]
        transitions := [⟨"A", "B", none, some ⟨2, 0, 16⟩⟩] } }, {
      scope := {
        states := [
          { id := "A"
            children := some [
              { id := "c", position := some ⟨3, 14, 44⟩ },
              { id := "B", position := some ⟨4, 14, 60⟩ }]
            transitions := [⟨"c", "B", none, some ⟨4, 8, 54⟩⟩]
            position := some ⟨2, 10, 26⟩ }]
        transitions := [⟨"A", "B", none, some ⟨7, 4, 84⟩⟩] } },
    by decide +kernel, by decide +kernel, by decide +kernel, by decide +kernel⟩

end StateDiagram
end DiagramText
