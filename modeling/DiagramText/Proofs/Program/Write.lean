import DiagramText.Program
import DiagramText.Proofs.Document.Segments
import DiagramText.Proofs.Flowchart.Reader
import DiagramText.Proofs.Sequence.Alike
import DiagramText.Proofs.States.Alike

/-!
# What is written

* `Diagram.write_unplaced`: positions take no part in what is written.
* `Diagram.opens_write`: a diagram is written as a text that opens with the header of its dialect.
-/

namespace DiagramText

/-! ### Changes that are not written -/

/-- An item with `f` applied to its body. -/
def Item.map {β : Type} (f : β → β) : Item β → Item β
  | .lines texts => .lines texts
  | .body b depth => .body (f b) depth

/-- A change `f` of bodies that only changes the bodies among their items leaves all lines of an
agenda as they are. -/
theorem Agenda.lines_map {β : Type} (a : Agenda β) {f : β → β}
    (h : ∀ depth b, a.items depth (f b) = (a.items depth b).map (Item.map f))
    (items : List (Item β)) : a.lines (items.map (Item.map f)) = a.lines items := by
  induction items using Agenda.lines.induct a with
  | case1 => rfl
  | case2 texts items ih => rw [List.map_cons, Item.map, lines, lines, ih]
  | case3 b depth items ih => rw [List.map_cons, Item.map, lines, lines, h, ← List.map_append, ih]

/-! ### Positions are not written -/

namespace Flowchart

theorem Clause.text_unplaced (c : Clause) : c.unplaced.text = c.text := by
  cases c <;> rfl

/-- A body without positions, as `Statement.unplaced` leaves each statement. -/
abbrev unplacedBody (ss : List Statement) : List Statement := ss.map Statement.unplaced

theorem items_unplaced (layout : Layout) (depth : Nat) (s : Statement) :
    s.unplaced.items layout depth = (s.items layout depth).map (Item.map unplacedBody) := by
  cases s with
  | clause c => simp [Statement.unplaced, Statement.items, Item.map, Clause.text_unplaced]
  | subgraph head body =>
    simp [Statement.unplaced, Statement.items, Item.map, Subgraph.text,
      Statement.unplacedList_eq_map]

theorem bodyItems_unplaced (layout : Layout) (depth : Nat) (ss : List Statement) :
    bodyItems layout depth (unplacedBody ss) =
      (bodyItems layout depth ss).map (Item.map unplacedBody) := by
  simp only [bodyItems, List.flatMap_map, List.map_flatMap, items_unplaced]

theorem write_unplaced (layout : Layout) (d : Flowchart) :
    d.unplaced.write layout = d.write layout := by
  have h := (agenda layout).lines_map (bodyItems_unplaced layout) [.body d.statements 1]
  rw [write, write, lines, lines, ← h, unplaced, Statement.unplacedList_eq_map]
  rfl

end Flowchart

namespace Sequence

theorem Clause.text_unplaced (c : Clause) : c.unplaced.text = c.text := by
  cases c <;> rfl

/-- A body without positions, as `Statement.unplaced` leaves each statement. -/
abbrev unplacedBody (ss : List Statement) : List Statement := ss.map Statement.unplaced

theorem items_unplaced (layout : Layout) (depth : Nat) (s : Statement) :
    s.unplaced.items layout depth = (s.items layout depth).map (Item.map unplacedBody) := by
  cases s with
  | clause c => simp [Statement.unplaced, Statement.items, Item.map, Clause.text_unplaced]
  | block head body branches =>
    simp only [Statement.unplaced, Statement.items, Statement.unplacedList_eq_map,
      Statement.unplacedBranches_eq_map, List.cons_append, List.map_cons, List.map_append,
      List.flatMap_map, List.map_flatMap]
    rfl

theorem bodyItems_unplaced (layout : Layout) (depth : Nat) (ss : List Statement) :
    bodyItems layout depth (unplacedBody ss) =
      (bodyItems layout depth ss).map (Item.map unplacedBody) := by
  simp only [bodyItems, List.flatMap_map, List.map_flatMap, items_unplaced]

end Sequence

theorem SequenceDiagram.write_unplaced (layout : Layout) (d : SequenceDiagram) :
    d.unplaced.write layout = d.write layout := by
  have h := (Sequence.agenda layout).lines_map (Sequence.bodyItems_unplaced layout)
    [.body d.statements 1]
  rw [write, write, lines, lines, ← h, unplaced, Sequence.Statement.unplacedList_eq_map]
  rfl

namespace States

theorem Transition.text_unplaced (t : Transition) : t.unplaced.text = t.text := rfl

theorem State.items_unplaced (layout : Layout) (depth : Nat) (s : State) :
    s.unplaced.items layout depth = (s.items layout depth).map (Item.map Scope.unplaced) := by
  obtain ⟨i, label, kind, children, transitions, notes, direction, regions, position⟩ := s
  cases children with
  | none => rfl
  | some ss =>
    simp only [State.unplaced, State.items, State.isComposite, State.unplacedChildren,
      Option.isSome_some, if_true, List.cons_append, List.map_cons, List.map_append,
      State.unplacedScopes_eq_map, List.flatMap_map, List.map_flatMap]
    rfl

theorem State.unplacedList_eq_map (ss : List State) : unplacedList ss = ss.map unplaced := by
  induction ss with
  | nil => rfl
  | cons s ss ih => rw [unplacedList, ih, List.map_cons]

theorem scopeItems_unplaced (layout : Layout) (depth : Nat) (s : Scope State) :
    scopeItems layout depth s.unplaced =
      (scopeItems layout depth s).map (Item.map Scope.unplaced) := by
  simp only [scopeItems, Scope.unplaced, State.unplacedList_eq_map, List.flatMap_map,
    List.map_append, List.map_flatMap, State.items_unplaced, List.map_map]
  rfl

end States

theorem StateDiagram.write_unplaced (layout : Layout) (d : StateDiagram) :
    d.unplaced.write layout = d.write layout := by
  have h := (States.agenda layout).lines_map (States.scopeItems_unplaced layout) [.body d.scope 1]
  rw [write, write, lines, lines, ← h]
  rfl

theorem ClassDiagram.write_unplaced (layout : Layout) (d : ClassDiagram) :
    d.unplaced.write layout = d.write layout := by
  rw [write, write, lines, lines]
  simp only [unplaced, List.flatMap_map, List.map_map]
  rfl

theorem EntityDiagram.write_unplaced (layout : Layout) (d : EntityDiagram) :
    d.unplaced.write layout = d.write layout := by
  rw [write, write, lines, lines]
  simp only [unplaced, List.flatMap_map, List.map_map]
  rfl

theorem Gantt.write_unplaced (layout : Layout) (g : Gantt) :
    g.unplaced.write layout = g.write layout := by
  rw [write, write, lines, lines]
  simp only [unplaced, List.flatMap_map, Section.lines, List.map_map]
  rfl

theorem Diagram.write_unplaced (layout : Layout) (d : Diagram) :
    d.unplaced.write layout = d.write layout := by
  cases d with
  | flowchart d => exact d.write_unplaced layout
  | sequence d => exact d.write_unplaced layout
  | classes d => exact d.write_unplaced layout
  | entities d => exact d.write_unplaced layout
  | states d => exact d.write_unplaced layout
  | gantt d => exact d.write_unplaced layout

/-- Programs that are equal without positions are written alike, in every `layout`. -/
theorem Program.write_eq_of_same {p q : Program} (h : p.same q = true) (layout : Layout) :
    p.write layout = q.write layout := by
  have hpq : p.unplaced = q.unplaced := by simpa [same] using h
  have hwrite : ∀ p : Program, p.unplaced.write layout = p.write layout := fun p => by
    simp only [write, unplaced, List.isEmpty_map, List.map_map, Function.comp_def,
      Diagram.write_unplaced]
  rw [← hwrite, hpq, hwrite]

/-! ### Headers -/

/-- Lines that start with a header line of the dialect `x` open a diagram of it, whatever lines
follow. -/
theorem opens_joinLines {x : Dialect} {h : String}
    (hx : Header.dialect? (h.toList ++ ['\n']) = some x)
    (hh : ∀ c ∈ h.toList, Text.isDocumentBreak c = false) (ls : List String) :
    Document.Opens x (joinLines (h :: ls) ++ "\n").toList := by
  have hrest : ∃ rest, (joinLines (h :: ls) ++ "\n").toList = h.toList ++ '\n' :: rest := by
    cases ls with
    | nil => exact ⟨[], by simp [joinLines]⟩
    | cons l ls =>
      refine ⟨(joinLines (l :: ls)).toList ++ ['\n'], ?_⟩
      simp [joinLines, String.intercalate_cons_cons]
  refine ⟨?_, (joinLines (h :: ls)).toList, by simp⟩
  obtain ⟨rest, hrest⟩ := hrest
  exact ⟨_, _, by rw [hrest, Text.documentLines_of_unbroken hh], hx⟩

theorem dialect?_flowchart (d : Direction) :
    Header.dialect? (s!"flowchart {d.name}".toList ++ ['\n']) = some .flowchart ∧
      ∀ c ∈ s!"flowchart {d.name}".toList, Text.isDocumentBreak c = false := by
  cases d <;> decide

theorem dialect?_states (v : States.Version) :
    Header.dialect? (v.header.toList ++ ['\n']) = some .states ∧
      ∀ c ∈ v.header.toList, Text.isDocumentBreak c = false := by
  cases v <;> decide

/-- A diagram `d` is written as a text that opens with the header of its dialect, and it ends with a
line feed. -/
theorem Diagram.opens_write (layout : Layout) (d : Diagram) :
    Document.Opens d.dialect (d.write layout ++ "\n").toList := by
  cases d with
  | flowchart d =>
    obtain ⟨hx, hh⟩ := dialect?_flowchart d.direction
    exact opens_joinLines hx hh _
  | sequence d => exact opens_joinLines (x := .sequence) (by decide) (by decide) _
  | classes d => exact opens_joinLines (x := .classes) (by decide) (by decide) _
  | entities d => exact opens_joinLines (x := .entities) (by decide) (by decide) _
  | states d =>
    obtain ⟨hx, hh⟩ := dialect?_states d.version
    exact opens_joinLines hx hh _
  | gantt d => exact opens_joinLines (x := .gantt) (by decide) (by decide) _

end DiagramText
