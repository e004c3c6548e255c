import DiagramText.Proofs.Classes.Mentions
import DiagramText.Proofs.Entities.Mentions

/-!
# Diagrams of what was mentioned

The classes of a class diagram, and the entities of an entity-relationship diagram, are the names
that its document and then its edits mention, whatever statements these are and in whatever order
they come.

* `Diagram.integrity_of_edits`: the integrity of both dialects over whole runs.
-/

namespace DiagramText.Diagram

/-- Every class diagram that is empty or comes from a document has a history, and so has what is
made of it by accepted edits. Its classes are the names that were mentioned, each once and in the
order of their first mention, with the ends of all relations among them, and no edit removes or
changes what there is. The same is known of the entities and relationships of the other dialect. -/
theorem integrity_of_edits :
    (∀ d : ClassDiagram, (∃ direction, d = { direction }) ∨ (classes d).IsRead →
      ∃ mentioned, d.History mentioned) ∧
    (∀ (d : ClassDiagram) (mentioned : List String), d.History mentioned →
      d.names = mentioned.eraseDups ∧ d.names.Nodup ∧
      (∀ r ∈ d.relations, r.source ∈ d.names ∧ r.target ∈ d.names) ∧
      ∀ names e, d.Edit names e → e.History (mentioned ++ names) ∧ d.Extends e) ∧
    (∀ d : EntityDiagram, d = {} ∨ (entities d).IsRead → ∃ mentioned, d.History mentioned) ∧
    (∀ (d : EntityDiagram) (mentioned : List String), d.History mentioned →
      d.names = mentioned.eraseDups ∧ d.names.Nodup ∧
      (∀ r ∈ d.relationships, r.source ∈ d.names ∧ r.target ∈ d.names) ∧
      ∀ names e, d.Edit names e → e.History (mentioned ++ names) ∧ d.Extends e) := by
  -- classes first, then the same for entities
  refine ⟨?_, ?_, ?_, ?_⟩
  · rintro d (hblank | hread)
    · exact ⟨[], .blank hblank⟩
    · exact hread.exists_history
  · intro d mentioned hd
    have hnames := ClassDiagram.History.registers hd
    refine ⟨hnames.known_eq, hnames.nodup, fun r hr => ?_, fun names e he => ?_⟩
    · obtain ⟨hsource, htarget⟩ := hnames.links_mem _ (List.mem_map_of_mem hr)
      exact ⟨hnames.mem_iff.2 hsource, hnames.mem_iff.2 htarget⟩
    · exact ⟨.edit hd he, he.extends⟩
  · rintro d (hblank | hread)
    · exact ⟨[], .blank hblank⟩
    · exact hread.exists_history
  · intro d mentioned hd
    have hnames := EntityDiagram.History.registers hd
    refine ⟨hnames.known_eq, hnames.nodup, fun r hr => ?_, fun names e he => ?_⟩
    · obtain ⟨hsource, htarget⟩ := hnames.links_mem _ (List.mem_map_of_mem hr)
      exact ⟨hnames.mem_iff.2 hsource, hnames.mem_iff.2 htarget⟩
    · exact ⟨.edit hd he, he.extends⟩

/-- What a class with a body, a member and a relation mention comes before what is then added, and
so does what an entity with a body and a relationship mention. -/
theorem integrity_of_edits_bodies : ∃ (s t : Segment) (d d' : ClassDiagram) (e e' : EntityDiagram),
    Document.segments "classDiagram\nclass B \x7b\n+x\n\x7d\nA : y\nB --> C : r\n" = .ok [s] ∧
      s.read = .ok (.classes d) ∧ d.addRelation "D" "A" = .ok d' ∧
      d'.names = ["B", "A", "C", "D"] ∧ d'.names.Nodup ∧
      (∀ r ∈ d'.relations, r.source ∈ d'.names ∧ r.target ∈ d'.names) ∧ d.Extends d' ∧
    Document.segments "erDiagram\nB \x7b\nint x\n\x7d\nB ||--o\x7b A : has\nC\n" = .ok [t] ∧
      t.read = .ok (.entities e) ∧ e.addRelationship "D" "A" .exactlyOne .oneOrMore = .ok e' ∧
      e'.names = ["B", "A", "C", "D"] ∧ e'.names.Nodup ∧
      (∀ r ∈ e'.relationships, r.source ∈ e'.names ∧ r.target ∈ e'.names) ∧ e.Extends e' := by
  let s : Segment :=
    ⟨.classes, "classDiagram\nclass B \x7b\n+x\n\x7d\nA : y\nB --> C : r\n", 1, 0⟩
  let t : Segment :=
    ⟨.entities, "erDiagram\nB \x7b\nint x\n\x7d\nB ||--o\x7b A : has\nC\n", 1, 0⟩
  let b : Classes.Definition :=
    { name := "B", members := [⟨"x", .attribute, some .public, none, none, false, false⟩],
      position := some ⟨2, 6, 19⟩ }
  let a : Classes.Definition :=
    { name := "A", members := [⟨"y", .attribute, none, none, none, false, false⟩],
      position := some ⟨5, 0, 28⟩ }
  let c : Classes.Definition := { name := "C", position := some ⟨6, 6, 40⟩ }
  let r : Classes.Relation := ⟨"B", "C", .association, none, none, some "r", some ⟨6, 0, 34⟩⟩
  let d : ClassDiagram := ⟨[b, a, c], [r], none⟩
  let d' : ClassDiagram :=
    ⟨d.classes ++ [{ name := "D" }],
      d.relations ++ [⟨"D", "A", .association, none, none, none, none⟩], none⟩
  let e : EntityDiagram :=
    ⟨[⟨"B", [⟨"int", "x", none, none⟩], some ⟨2, 0, 10⟩⟩, ⟨"A", [], some ⟨5, 9, 31⟩⟩,
        ⟨"C", [], some ⟨6, 0, 39⟩⟩],
      [⟨"B", "A", .exactlyOne, .zeroOrMore, .identifying, some "has", some ⟨5, 0, 22⟩⟩]⟩
  let e' : EntityDiagram :=
    ⟨e.entities ++ [⟨"D", [], none⟩],
      e.relationships ++ [⟨"D", "A", .exactlyOne, .oneOrMore, .identifying, none, none⟩]⟩
  have hs : Document.segments s.text = .ok [s] := by decide +kernel
  have ht : Document.segments t.text = .ok [t] := by decide +kernel
  have hd : s.read = .ok (.classes d) := by decide +kernel
  have he : t.read = .ok (.entities e) := by decide +kernel
  have hd' : d.addRelation "D" "A" = .ok d' := by decide +kernel
  have he' : e.addRelationship "D" "A" .exactlyOne .oneOrMore = .ok e' := by decide +kernel
  have hclasses : Classes.mentions (Cursor.ofTokens s.tokens) = ["B", "A", "B", "C"] := by
    decide +kernel
  have hentities : Entities.mentions (Cursor.ofTokens t.tokens) = ["B", "B", "A", "C"] := by
    decide +kernel
  obtain ⟨-, hclass, -, hentity⟩ := integrity_of_edits
  have hdread : d.History ["B", "A", "B", "C"] := by
    rw [← hclasses]
    exact .read hs (List.mem_singleton_self s) hd
  have heread : e.History ["B", "B", "A", "C"] := by
    rw [← hentities]
    exact .read ht (List.mem_singleton_self t) he
  obtain ⟨hdhistory, hdextends⟩ := (hclass d _ hdread).2.2.2 _ _ (.addRelation hd')
  obtain ⟨hdnames, hdnodup, hdends, -⟩ := hclass d' _ hdhistory
  obtain ⟨hehistory, heextends⟩ := (hentity e _ heread).2.2.2 _ _ (.addRelationship he')
  obtain ⟨henames, henodup, heends, -⟩ := hentity e' _ hehistory
  exact ⟨s, t, d, d', e, e', hs, hd, hd', hdnames.trans (by decide), hdnodup, hdends, hdextends,
    ht, he, he', henames.trans (by decide), henodup, heends, heextends⟩

end DiagramText.Diagram
