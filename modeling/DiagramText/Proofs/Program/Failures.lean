import DiagramText.Program
import DiagramText.Proofs.Classes.Reader
import DiagramText.Proofs.Document.Segments
import DiagramText.Proofs.Entities.Reader
import DiagramText.Proofs.Flowchart.Reader
import DiagramText.Proofs.Gantt.Reader
import DiagramText.Proofs.Sequence.Steady
import DiagramText.Proofs.States.Steady
import DiagramText.Proofs.Token.Tile

/-!
# Why programs are not read

A text that is not read is malformed, sets a date format that names a field twice in a gantt chart,
or has more digits than a number is read with. Reading always comes to its end.

* `Segment.SetsDateFormat`: a directive of a gantt chart sets a date format.
* `Program.isDueTo_of_read`: what the failure to read a text says about the text.
* `Program.read_repeatedDateField`: a text that is not read, and is not malformed either.
-/

namespace DiagramText

open Text

/-! ### Segments -/

namespace Segment

variable {s : Segment}

/-- The tokens of a segment `s` that are read: all but the comments and the end of input. -/
def row (s : Segment) : List Token := (Cursor.ofTokens s.tokens).rest

/-- A directive of a gantt chart sets the date format to `format`. -/
def SetsDateFormat (s : Segment) (format : String) : Prop :=
  s.dialect = .gantt ∧ Token.SetsDateFormat s.row format

/-- The cursor at the start of a segment `s` has the end of input apart, behind the row of the
segment. -/
theorem below_tokens (s : Segment) :
    (Cursor.ofTokens s.tokens).Below s.row (s.row.length + 1) := by
  obtain ⟨hchars, hcut⟩ := Piece.cut_ofText s.dialect s.text.toList
  have htiles := Token.tiles_place hcut (IsPlace.start s.text.toList s.line s.offset) hchars.symm []
  obtain ⟨ts, e, htokens, he, -, hkinds⟩ := htiles.last
  have hcursor : Cursor.ofTokens s.tokens = ⟨[], ts.filter Token.isRead, e⟩ := by
    rw [tokens, Token.scan, htokens, Token.ofTokens_append]
  refine ⟨List.suffix_refl _, Nat.lt_succ_self _, ?_, ?_⟩
  · intro t ht
    rw [row, hcursor] at ht
    exact hkinds t (List.mem_of_mem_filter ht)
  · rw [hcursor]
    exact he

/-- The tokens of a segment `s` have no more digits than its text, as each of them is a part of
it. -/
theorem digitCount_row_le (s : Segment) : Token.digitCount s.row ≤ digitCount s.text.toList := by
  obtain ⟨ts, e, htokens, hrow, -⟩ :=
    Token.place_eq ⟨s.line, 0, s.offset⟩ [] (Piece.ofText s.dialect s.text.toList)
  have hcursor : s.row = ts.filter Token.isRead := by
    rw [row, tokens, Token.scan, htokens, Token.ofTokens_append]
  have hcontent : Token.content ts = Token.content (ts.map Token.unplaced) := by
    rw [Token.content, Token.content, List.flatMap_map]
    rfl
  have htext := Token.content_row [] (Piece.ofText s.dialect s.text.toList)
  rw [List.nil_append, (Piece.cut_ofText s.dialect s.text.toList).1, ← hrow, ← hcontent] at htext
  rw [hcursor]
  refine Nat.le_trans (Token.digitCount_le_of_sublist List.filter_sublist) ?_
  rw [htext, digitCount_append]
  exact Nat.le_add_right _ _

end Segment

namespace Reading

/-- A diagram of any dialect `x` is read, or its text is to blame. -/
theorem steady_diagram (x : Dialect) (ts : List Token) :
    Steady x ts (diagram x) fun _ => True := by
  cases x with
  | flowchart => exact .map Flowchart.steady_read
  | sequence => exact .map Sequence.steady_read
  | classes => exact .map Classes.steady_read
  | entities => exact .map Entities.steady_read
  | states => exact .map States.steady_read
  | gantt => exact .map Gantt.steady_read

end Reading

theorem Segment.meets_read (s : Segment) :
    Except.Meets (Failure.IsDueTo s.dialect s.row) (fun _ => True) s.read := by
  have hread := (Reading.steady_diagram s.dialect s.row _).apply _ s.below_tokens
  exact .map (hread.imp fun _ _ => trivial)

/-! ### Programs -/

/-- What a failure says about a text `src`: a gantt chart in it sets a date format that names a
field twice, or it has more digits than a number is read with. It is never due to a lack of
progress. -/
def Failure.IsDueToText (src : String) : Failure → Prop
  | .malformed _ => True
  | .repeatedDateField => ∃ segs, Document.segments src = .ok segs ∧ ∃ s ∈ segs, ∃ format,
    s.SetsDateFormat format ∧ (DateFormat.ofText format).isSimple = false
  | .oversizedNumber => maxDigits < digitCount src.toList
  | .stalled => False

namespace Program

theorem isDueTo_of_read {src : String} {e : Failure} (h : read src = .error e) :
    e.IsDueToText src := by
  rw [read] at h
  cases hsegs : Document.segments src with
  | error e' =>
    rw [hsegs] at h
    cases h
    trivial
  | ok segs =>
    rw [hsegs] at h
    obtain ⟨s, hs, hread⟩ := Except.exists_of_mapM_eq_error (Except.map_eq_error_iff.1 h)
    have hmeets := s.meets_read
    rw [hread] at hmeets
    cases e with
    | malformed e => trivial
    | stalled => exact hmeets
    | repeatedDateField =>
      obtain ⟨hdialect, format, hsets, htwice⟩ := hmeets
      exact ⟨segs, hsegs, s, hs, format, ⟨hdialect, hsets⟩, htwice⟩
    | oversizedNumber =>
      have hsegment := Nat.lt_of_lt_of_le (show maxDigits < _ from hmeets) s.digitCount_row_le
      have hdoc := digitCount_le_of_sublist (Document.text_sublist hsegs hs)
      exact Nat.lt_of_lt_of_le hsegment hdoc

/-- A text with a date in a format that names the year twice is neither read nor malformed. -/
theorem read_repeatedDateField :
    read "gantt\n dateFormat YYYY YYYY\n section s\n t : 2024 2024, 1d\n" =
      .error .repeatedDateField ∧
    ¬∀ src, (∃ p, read src = .ok p) ∨ ∃ e, read src = .error (.malformed e) := by
  have hread : read "gantt\n dateFormat YYYY YYYY\n section s\n t : 2024 2024, 1d\n" =
      .error .repeatedDateField := by
    decide +kernel
  refine ⟨hread, fun h => ?_⟩
  rcases h "gantt\n dateFormat YYYY YYYY\n section s\n t : 2024 2024, 1d\n" with ⟨p, hp⟩ | ⟨e, he⟩
  · rw [hread] at hp
    cases hp
  · rw [hread] at he
    cases he

end Program
end DiagramText
