import DiagramText.Program
import DiagramText.Proofs.Classes.Reader
import DiagramText.Proofs.Document.Place
import DiagramText.Proofs.Entities.Reader
import DiagramText.Proofs.Flowchart.Reader
import DiagramText.Proofs.Gantt.Reader
import DiagramText.Proofs.Sequence.Located
import DiagramText.Proofs.States.Located
import DiagramText.Proofs.Token.Place
import DiagramText.Proofs.Token.Tile

/-!
# Positions in programs

A token of a segment is at a place of its text, which stands in the document, so it is at an index
of the document. A diagram has only positions of tokens that it was read from.

* `Program.positions`: all positions in a program.
* `Program.isAbsolute_of_read`: in a document of which all lines end as those of tokens do, the
  positions of what is read and of errors are those of its indices.
* `Program.not_isAbsolute_of_verticalTab`: a document with another line break.
-/

namespace DiagramText

open Text

namespace Diagram

/-- All positions in a diagram, whatever its dialect. -/
def positions : Diagram → List Position
  | flowchart d => d.positions
  | sequence d => d.positions
  | classes d => d.positions
  | entities d => d.positions
  | states d => d.positions
  | gantt d => d.positions

end Diagram

namespace Reading

variable {P : Position → Prop}

/-- A diagram of any dialect has positions of its tokens, and so has an error in it. -/
theorem located_diagram (x : Dialect) :
    Located P (fun _ => True) (diagram x) fun d => ∀ p ∈ d.positions, P p := by
  cases x with
  | flowchart => exact .map (Flowchart.located_read trivial)
  | sequence => exact .map (Sequence.located_read fun _ => trivial)
  | classes => exact .map (Classes.located_read trivial)
  | entities => exact .map (Entities.located_read trivial)
  | states => exact .map (States.located_read trivial trivial)
  | gantt => exact .map Gantt.located_read

end Reading

/-! ### Segments -/

namespace Segment

variable {doc : List Char} {s : Segment}

/-- The tokens of a segment `s` that stands in a document are at indices of the document, not only
at those of the segment. -/
theorem startsAt_tokens (h : s.StandsIn doc) :
    (Cursor.ofTokens s.tokens).StartsAt (Position.IsAbsolute doc) := by
  obtain ⟨rest, hrest⟩ := h.drop_eq
  obtain ⟨hchars, hcut⟩ := Piece.cut_ofText s.dialect s.text.toList
  have htiles := Token.tiles_place hcut (IsPlace.start s.text.toList s.line s.offset) hchars.symm []
  obtain ⟨ts, e, htokens, -⟩ := htiles.last
  have hall : ∀ t ∈ ts ++ [e], t.start.IsAbsolute doc := fun t ht => by
    obtain ⟨i, _, _, _, hplace, _⟩ := htiles.slice t (by rw [htokens]; exact ht)
    exact h.place.isAbsolute_of_drop rfl hrest hplace
  rw [tokens, Token.scan, htokens, Token.ofTokens_append]
  exact ⟨fun t ht => hall t (List.mem_append_left _ (List.mem_of_mem_filter ht)),
    hall e (List.mem_append_right _ List.mem_cons_self)⟩

/-- A segment `s` that stands in a document has positions of its indices, in what is read and in
errors. -/
theorem located_read (h : s.StandsIn doc) :
    Except.Located (Position.IsAbsolute doc) (fun _ => True)
      (fun d => ∀ p ∈ d.positions, p.IsAbsolute doc) s.read := by
  have hread := (Reading.located_diagram s.dialect).apply _ (startsAt_tokens h)
  exact .map (hread.imp fun _ hr => hr.1)

end Segment

/-! ### Programs -/

namespace Program

/-- All positions in a program `p`. -/
def positions (p : Program) : List Position := p.diagrams.flatMap Diagram.positions

/-- In a document `src` of which all lines end as those of tokens do, what is read has positions of
its indices, and so has an error that is not about a missing header. -/
theorem isAbsolute_of_read {src : String}
    (h : ∀ c ∈ src.toList, isDocumentBreak c = true → isLineBreak c = true) :
    (∀ p, read src = .ok p → ∀ x ∈ p.positions, x.IsAbsolute src.toList) ∧
      ∀ e, read src = .error (.malformed e) → e.IsPlaced src.toList := by
  have hplaced := Document.placed_segments h
  rw [read]
  -- no segment at all is an error about the header, and any other error is one of a segment
  cases hsegs : Document.segments src with
  | error e =>
    rw [hsegs] at hplaced
    refine ⟨fun p hp => ?_, fun e' he => ?_⟩
    · cases hp
    · cases he
      exact hplaced
  | ok segs =>
    rw [hsegs] at hplaced
    refine ⟨fun p hp x hx => ?_, fun e he => ?_⟩
    · obtain ⟨ds, hds, rfl⟩ := Except.map_eq_ok_iff.1 hp
      obtain ⟨d, hd, hx⟩ := List.mem_flatMap.1 hx
      obtain ⟨s, hs, hread⟩ := Except.exists_of_mem_mapM hds hd
      have hlocated := Segment.located_read (hplaced s hs)
      rw [hread] at hlocated
      exact hlocated x hx
    · obtain ⟨s, hs, hread⟩ := Except.exists_of_mapM_eq_error (Except.map_eq_error_iff.1 he)
      have hlocated := Segment.located_read (hplaced s hs)
      rw [hread] at hlocated
      obtain ⟨⟨x, hposition, hx⟩, -⟩ := hlocated
      exact ⟨x, hposition, .inl hx⟩

/-- Lines of two characters at their ends, and a diagram behind another one. -/
theorem isAbsolute_of_read_carriageReturns : ∃ p,
    read "flowchart LR\r\nA-->B\r\n\r\nerDiagram\nC\n" = .ok p ∧
    p.positions = [⟨2, 1, 15⟩, ⟨5, 0, 33⟩] ∧ ∀ x ∈ p.positions,
      x.IsAbsolute "flowchart LR\r\nA-->B\r\n\r\nerDiagram\nC\n".toList := by
  have hread : read "flowchart LR\r\nA-->B\r\n\r\nerDiagram\nC\n" = .ok ⟨[
      .flowchart {
        direction := .lr
        statements := [.clause (.edge
          { source := "A", target := "B", position := some ⟨2, 1, 15⟩ })]
        nodes := [.bare "A", .bare "B"] },
      .entities { entities := [{ name := "C", position := some ⟨5, 0, 33⟩ }] }]⟩ := by
    decide +kernel
  exact ⟨_, hread, by decide +kernel, (isAbsolute_of_read (by decide +kernel)).1 _ hread⟩

/-- A vertical tab ends a line of a document, but no line of tokens: the edge is on line three. -/
theorem not_isAbsolute_of_verticalTab : ∃ p, read "%% a\x0b\nflowchart LR\nA-->B\n" = .ok p ∧
    ⟨4, 1, 20⟩ ∈ p.positions ∧
      ¬(⟨4, 1, 20⟩ : Position).IsAbsolute "%% a\x0b\nflowchart LR\nA-->B\n".toList := by
  have hnot : ¬(⟨4, 1, 20⟩ : Position).IsAbsolute "%% a\x0b\nflowchart LR\nA-->B\n".toList := by
    rintro ⟨i, -, hi⟩
    obtain rfl : i = 20 := (Int.ofNat.inj (congrArg Position.offset hi)).symm
    exact absurd hi (by decide +kernel)
  exact ⟨⟨[.flowchart {
      direction := .lr
      statements := [.clause (.edge { source := "A", target := "B", position := some ⟨4, 1, 20⟩ })]
      nodes := [.bare "A", .bare "B"] }]⟩, by decide +kernel, by decide +kernel, hnot⟩

end Program
end DiagramText
