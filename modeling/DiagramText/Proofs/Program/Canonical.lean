import DiagramText.Proofs.Edit
import DiagramText.Proofs.Gantt.RoundTrip
import DiagramText.Proofs.Program.Together

/-!
# The canonical text of a document

What is written for a program is canonical if it is read as the program and written again as the
same text, which a formatter that runs twice relies on. Positions are left out of the comparison and
never written, so only reading the text can fail to be canonical, and a document is read diagram by
diagram.

The dialects differ in what can be lost. An entity-relationship diagram that was read is always
`EntityDiagram.Readable`. A chart loses exactly the dates that its last format cannot hold. In the
other dialects a name or a label can be read that is not read at the place where it is written, and
a diagram without such parts is `Diagram.Readable`.

* `Program.IsCanonical`: a program is read and written again as the same text.
* `Diagram.Survives`: the parts of a diagram can stand where they are written.
* `Program.format_stable_iff`: the text for a program is canonical if and only if each diagram reads
  back on its own, which all diagrams that survive do.
-/

namespace DiagramText

open Document Text

namespace Program

/-- The text that is written for `p` with `layout` is read as `p`, up to positions, and what was
read is written as the same text. -/
def IsCanonical (layout : Layout) (p : Program) : Prop :=
  ∃ q, read (p.write layout) = .ok q ∧ q.same p = true ∧ q.write layout = p.write layout

variable {layout : Layout} {src : String} {p : Program} {d : Diagram}

/-- A program `p` that reads back is canonical, since positions are not written, and a canonical one
reads back. -/
theorem isCanonical_iff_readsBack : IsCanonical layout p ↔ ReadsBack layout p := by
  constructor
  · rintro ⟨q, hq, hsame, -⟩
    exact ⟨q, hq, hsame⟩
  · rintro ⟨q, hq, hsame⟩
    exact ⟨q, hq, hsame, write_eq_of_same hsame layout⟩

/-- A document `src` that is read holds a diagram, for it is cut into at least one segment, and each
segment is read as one. -/
theorem diagrams_ne_nil_of_read (h : read src = .ok p) :
    p.diagrams ≠ [] := by
  rw [read] at h
  cases hsegs : segments src with
  | error e => simp [hsegs] at h
  | ok segs =>
    simp only [hsegs, Except.map_eq_ok_iff, Except.mapM_eq_ok_iff] at h
    obtain ⟨ds, hds, rfl⟩ := h
    rintro rfl
    cases hds
    exact segments_ne_nil hsegs rfl

end Program

namespace Diagram

/-- All parts of a diagram can stand in a document where they are written. The dates of a chart are
written in the format that it ends with, so each of its tasks must survive in that one. -/
def Survives : Diagram → Prop
  | .gantt g => ∀ t ∈ g.tasks, t.Survives g.config.dateFormat
  | d => d.Readable

variable {layout : Layout} {src : String} {p : Program} {d : Diagram}

/-- A diagram `d` of a document whose parts can stand where they are written reads back, in every
`layout` with a blank indent. -/
theorem Survives.readsBack
    (hblanks : ∀ c ∈ src.toList, isBlank c = true → isSpaceOrTab c = true ∨ isLineBreak c = true)
    (hlayout : layout.IsBlank) (h : Program.read src = .ok p) (hd : d ∈ p.diagrams)
    (hsurvives : d.Survives) : Program.ReadsBack layout ⟨[d]⟩ := by
  cases d with
  | gantt g =>
    obtain ⟨hreadable, hspelled, hordered⟩ := Gantt.readable_of_mem hblanks h hd
    exact (hreadable.readsBack_iff hlayout hspelled hordered).2 hsurvives
  | flowchart _ | sequence _ | classes _ | entities _ | states _ =>
    exact Readable.readsBack hsurvives hlayout

/-- An entity-relationship diagram `d` or a chart of a document reads back only if it survives. -/
theorem survives_of_readsBack
    (hblanks : ∀ c ∈ src.toList, isBlank c = true → isSpaceOrTab c = true ∨ isLineBreak c = true)
    (hlayout : layout.IsBlank) (h : Program.read src = .ok p) (hd : d ∈ p.diagrams)
    (hdialect : d.dialect = .entities ∨ d.dialect = .gantt)
    (hback : Program.ReadsBack layout ⟨[d]⟩) : d.Survives := by
  cases d with
  | entities d => exact .entities (EntityDiagram.readable_of_mem hblanks h hd)
  | gantt g =>
    obtain ⟨hreadable, hspelled, hordered⟩ := Gantt.readable_of_mem hblanks h hd
    exact (hreadable.readsBack_iff hlayout hspelled hordered).1 hback
  | flowchart _ | sequence _ | classes _ | states _ => simp [dialect] at hdialect

end Diagram

namespace Program

/-- The text that is written for a program `p` that was read is canonical if and only if each
diagram of `p` reads back on its own. If the only blanks of the document are spaces, tabs and line
breaks, the text is canonical when all diagrams survive, and an entity-relationship diagram or a
chart reads back exactly if it survives. -/
theorem format_stable_iff (layout : Layout) {src : String} {p : Program} (h : read src = .ok p) :
    (IsCanonical layout p ↔ ∀ d ∈ p.diagrams, ReadsBack layout ⟨[d]⟩) ∧
      (layout.IsBlank →
        (∀ c ∈ src.toList, isBlank c = true → isSpaceOrTab c = true ∨ isLineBreak c = true) →
        ((∀ d ∈ p.diagrams, d.Survives) → IsCanonical layout p) ∧
          ∀ d ∈ p.diagrams, d.dialect = .entities ∨ d.dialect = .gantt →
            (ReadsBack layout ⟨[d]⟩ ↔ d.Survives)) := by
  have hiff : IsCanonical layout p ↔ ∀ d ∈ p.diagrams, ReadsBack layout ⟨[d]⟩ := by
    rw [isCanonical_iff_readsBack, ← readsBack_iff layout (diagrams_ne_nil_of_read h)]
  refine ⟨hiff, fun hlayout hblanks => ⟨fun hall => ?_, fun d hd hdialect => ⟨fun hback => ?_,
    fun hsurvives => ?_⟩⟩⟩
  · exact hiff.2 fun d hd => (hall d hd).readsBack hblanks hlayout h hd
  · exact d.survives_of_readsBack hblanks hlayout h hd hdialect hback
  · exact hsurvives.readsBack hblanks hlayout h hd

/-- The date of a chart survives, and so does the diagram in front of the chart. -/
theorem format_stable_entities : ∃ p,
    read "erDiagram\n A\n\ngantt\n section s\n t : 2024-01-01, 1d" = .ok p ∧
      p.diagrams.map Diagram.dialect = [.entities, .gantt] ∧ IsCanonical ⟨"\t"⟩ p := by
  let entities : EntityDiagram := { entities := [⟨"A", [], some ⟨2, 1, 11⟩⟩] }
  let january : Moment := ⟨63839664000, by decide⟩
  let t : Gantt.Task :=
    { name := "t", finish := .duration ⟨1, .days⟩, start := some (.date january),
      position := some ⟨6, 1, 32⟩ }
  let src := "erDiagram\n A\n\ngantt\n section s\n t : 2024-01-01, 1d"
  have hread : read src = .ok ⟨[.entities entities, .gantt ⟨{}, [⟨"s", [t]⟩]⟩]⟩ := by
    decide +kernel
  have hblanks : ∀ c ∈ src.toList, isBlank c = true → isSpaceOrTab c = true ∨
      isLineBreak c = true := by
    decide +kernel
  have hentities : entities.Readable :=
    EntityDiagram.readable_of_mem hblanks hread List.mem_cons_self
  -- the date means the same in the format of the chart
  have ht : t.Survives "YYYY-MM-DD" := by
    refine ⟨⟨?_, nofun, ?_⟩, .inl (by decide)⟩
    · rintro m ⟨⟩
      decide +kernel
    · intro m hm
      obtain rfl : january = m := Option.some.inj hm
      decide +kernel
  refine ⟨_, hread, rfl, ((format_stable_iff ⟨"\t"⟩ hread).2 ?_ hblanks).1 ?_⟩
  · simp [Layout.IsBlank, isSpaceOrTab]
  · exact List.forall_mem_cons.2
      ⟨.entities hentities, List.forall_mem_singleton.2 (List.forall_mem_singleton.2 ht)⟩

/-- A node that is called `end` can be read only inside a line, but it is written on its own. -/
theorem format_unstable_end :
    ∃ p, read "flowchart TD\nend & A\n" = .ok p ∧ ¬ ReadsBack {} p := by
  have hformat : ((format {} "flowchart TD\nend & A\n").bind read).isOk = false := by
    decide +kernel
  have hread : (read "flowchart TD\nend & A\n").isOk = true := by decide +kernel
  rw [format] at hformat
  cases hp : read "flowchart TD\nend & A\n" with
  | error e => simp [hp, Except.isOk, Except.toBool] at hread
  | ok p =>
    refine ⟨p, rfl, ?_⟩
    rintro ⟨q, hq, -⟩
    rw [hp] at hformat
    simp [Except.map, Except.bind, Except.isOk, Except.toBool, hq] at hformat

end Program
end DiagramText
