import DiagramText.Proofs.Classes.Lines
import DiagramText.Proofs.Program.Write

/-!
# Class diagrams that are written and read

All classes are written before the first relation, so reading the relations adds no classes.

* `Classes.readsLines_classes` and `Classes.readsLines_relations`: the lines of many classes and of
  many relations.
* `ClassDiagram.readsBack_of_distinct`: a diagram of different classes and of relations between them
  reads back from what is written.
-/

namespace DiagramText

open Text Reading

namespace Classes

open ClassDiagram

variable {d : ClassDiagram} {layout : Layout}

/-! ### The lines of a diagram -/

/-- A class at the origin, which is where written lines are read in `Reading.Runs`. -/
def Definition.atOrigin (c : Definition) : Definition := { c with position := some .origin }

/-- A relation `r` at the origin. -/
def Relation.atOrigin (r : Relation) : Relation := { r with position := some .origin }

theorem names_add (d : ClassDiagram) (c : Definition) : (d.add c).names = d.names ++ [c.name] :=
  List.map_append

/-- The lines of classes `cs` with new names add the classes, in their order. -/
theorem readsLines_classes (hlayout : layout.IsBlank) {cs : List Definition}
    (h : ∀ c ∈ cs, c.Readable) (hnodup : (d.names ++ cs.map Definition.name).Nodup) :
    ReadsLines .classes statement d (cs.flatMap (Definition.lines layout))
      { d with classes := d.classes ++ cs.map Definition.atOrigin } := by
  induction cs generalizing d with
  | nil =>
    rw [List.map_nil, List.append_nil]
    exact .nil
  | cons c cs ih =>
    obtain ⟨hc, h⟩ := List.forall_mem_cons.1 h
    have hsplit : (d.names ++ [c.name]) ++ cs.map Definition.name =
        d.names ++ (c :: cs).map Definition.name := by simp
    have hnew : c.name ∉ d.names := fun hmem => by
      have hdisjoint := (List.nodup_append.1 hnodup).2.2
      exact hdisjoint c.name hmem c.name List.mem_cons_self rfl
    have hfirst := readsLines_definition hlayout hc hnew
    have hrest := ih (d := d.add c.atOrigin) h (by rw [names_add]; exact hsplit ▸ hnodup)
    have hclasses : (d.add c.atOrigin).classes ++ cs.map Definition.atOrigin =
        d.classes ++ (c :: cs).map Definition.atOrigin := by simp [add]
    rw [hclasses] at hrest
    rw [List.flatMap_cons]
    exact hfirst.append hrest

/-- The lines of relations `rs` between classes that are there add the relations, in their order. -/
theorem readsLines_relations (hlayout : layout.IsBlank) {rs : List Relation}
    (h : ∀ r ∈ rs, r.Readable ∧ r.source ∈ d.names ∧ r.target ∈ d.names) :
    ReadsLines .classes statement d (rs.map fun r => layout.line 1 r.text)
      { d with relations := d.relations ++ rs.map Relation.atOrigin } := by
  induction rs generalizing d with
  | nil =>
    rw [List.map_nil, List.map_nil, List.append_nil]
    exact .nil
  | cons r rs ih =>
    obtain ⟨⟨hr, hsource, htarget⟩, h⟩ := List.forall_mem_cons.1 h
    have hfirst := readsLines_relation hlayout hr hsource htarget
    have hrest := ih (d := { d with relations := d.relations ++ [r.atOrigin] }) h
    rw [List.append_assoc] at hrest
    exact hfirst.append hrest

/-- Lines `ls` behind the header are read as a diagram `d`, if they take an empty one to it. -/
theorem read_lines {ls : List String} (h : ReadsLines .classes statement {} ls d) : ∃ c,
    diagram .classes ⟨[], ("classDiagram" :: ls).flatMap (Token.fullLine .classes),
      Token.endOfInput⟩ = .ok (.classes d, c) := by
  let header := Token.plain .identifier [] "classDiagram".toList
  let nl := Token.lineBreak .classes "classDiagram".toList
  have hheader : Token.fullLine .classes "classDiagram" = [header, nl] := by
    have hidentifier : IsIdentifier "classDiagram" := by decide
    have hline := behind_identifier hidentifier (b := []) nofun none []
    rw [List.append_nil, Token.behind_nil] at hline
    rw [Token.fullLine, Token.ofLine_classes, hline]
    rfl
  have hskip : ∀ ts, skipNewlines ⟨[], header :: ts, Token.endOfInput⟩ =
      .ok ((), ⟨[], header :: ts, Token.endOfInput⟩) := fun _ => rfl
  have hword : header.isWord ["classdiagram"] = true := by decide
  have hnl : nl.kind = .newline := rfl
  obtain ⟨past', hrun⟩ := h.runs.untilEnd_eq [nl, header]
  refine ⟨⟨past', [], Token.endOfInput⟩, ?_⟩
  rw [List.flatMap_cons, hheader]
  simp [diagram, map_apply, read, bind_apply, hskip, Except.bind, expectWord_cons hword,
    accept_cons, endStatement_cons, hnl, hrun]

end Classes

namespace ClassDiagram

open Classes

/-! ### The diagram -/

/-- A diagram `d` of classes with different names and of relations between them, of which all parts
can stand in a document. -/
structure Distinct (d : ClassDiagram) : Prop where
  classes : ∀ c ∈ d.classes, c.Readable
  nodup : d.names.Nodup
  relations : ∀ r ∈ d.relations, r.Readable ∧ r.source ∈ d.names ∧ r.target ∈ d.names

/-- The lines of a `Distinct` diagram are read as the diagram: a direction, the classes, and then
the relations, which find their classes. -/
theorem Distinct.readsBack {d : ClassDiagram} {layout : Layout} (h : d.Distinct)
    (hlayout : layout.IsBlank) : Program.ReadsBack layout ⟨[.classes d]⟩ := by
  let classes := d.classes.map Definition.atOrigin
  have hdirection : ReadsLines .classes statement {}
      (d.direction.map fun x => layout.line 1 s!"direction {x.name}").toList
      { direction := d.direction } := by
    cases d.direction with
    | none => exact .nil
    | some x => exact readsLines_direction hlayout {} x
  have hclasses : ReadsLines .classes statement { direction := d.direction }
      (d.classes.flatMap (Definition.lines layout)) { direction := d.direction, classes } :=
    readsLines_classes hlayout h.classes h.nodup
  -- Relations are read last, so they find the names of all classes there and add none.
  have hnames : names { direction := d.direction, classes } = d.names := List.map_map
  have hrelations : ReadsLines .classes statement { direction := d.direction, classes }
      (d.relations.map fun r => layout.line 1 r.text)
      { direction := d.direction, classes, relations := d.relations.map Relation.atOrigin } :=
    readsLines_relations hlayout fun r hr => by
      rw [hnames]
      exact h.relations r hr
  have hlines := (hdirection.append hclasses).append hrelations
  obtain ⟨c, hread⟩ := read_lines hlines
  have hheader : IsOwnLine "classDiagram" := ⟨by simp [Plain, isBlank], by decide⟩
  have hown := AreOwnLines.cons hheader hlines.own
  rw [Program.readsBack_iff_lines (d := .classes d) rfl hown]
  refine ⟨_, c, hread, congrArg Diagram.classes ?_⟩
  simp only [unplaced, classes, List.map_map]
  rfl

/-- A class diagram `d` reads back from what is written for it, whatever its classes are called and
whatever members they have, if its relations join classes of the diagram. -/
theorem readsBack_of_distinct {d : ClassDiagram} {layout : Layout} (hlayout : layout.IsBlank)
    (h : d.Distinct) : Program.ReadsBack layout ⟨[.classes d]⟩ :=
  h.readsBack hlayout

/-- All operators between classes that are called as keywords and as part of an operator, and
members with all that a member can have. -/
theorem readsBack_all_operators :
    Program.ReadsBack ⟨" \t"⟩ ⟨[.classes {
      direction := some .bt
      classes := [
        { name := "o", generic := some "T", stereotype := some "class", members := [
          { name := "1", visibility := some .package, type := some "List~int~", isStatic := true },
          { name := "_f", kind := .method, visibility := some .private, type := some "static",
            parameters := some "List~int~ xs[]; <<*>> : $", isAbstract := true },
          { name := "direction", kind := .method, parameters := some "", isStatic := true,
            isAbstract := true }] },
        { name := "class" },
        { name := "direction", members := [{ name := "o", visibility := some .protected }],
          position := some ⟨7, 0, 40⟩ }]
      relations := ⟨"class", "o", .link, some "", some "0..* %%", some "a: %% b \x7d", none⟩ ::
        RelationKind.all.map fun kind => { source := "o", target := "direction", kind } }]⟩ :=
  readsBack_of_distinct (by simp [Layout.IsBlank, isSpaceOrTab])
    ⟨by decide, by decide, by decide⟩

end ClassDiagram
end DiagramText
