import DiagramText.Document
import DiagramText.Proofs.Result
import DiagramText.Proofs.Text.Place

/-!
# Places in documents

A document is cut into segments along lines that end at ten different characters, while the lines of
tokens end at two of them only. Where a document has none of the other eight, its lines are counted
alike, and every segment starts at the place that it names.

* `Position.IsAbsolute`: a position is that of an index of a document.
* `Segment.StandsIn`: a segment stands in a document at its line and offset.
* `Document.placed_segments`: all segments of a document stand in it, and an error is at an index of
  the document unless it is about a missing header.
-/

namespace DiagramText

open Text

/-! ### Absolute positions -/

namespace Position

/-- The position of the index `i` of a text: its line, counted from one, its column and the index
itself. -/
def ofIndex (text : List Char) (i : Nat) : Position :=
  ⟨1 + lineBreaks (text.take i), Text.column (text.take i), i⟩

/-- The position `p` is that of an index of a text, its end included. -/
def IsAbsolute (text : List Char) (p : Position) : Prop :=
  ∃ i ≤ text.length, p = ofIndex text i

end Position

namespace Text

/-- The column at the end of `a ++ b` is that at the end of `b`, if `a` ends a line. What is behind
a line does not know of it. -/
theorem column_append_of_eq_zero {a : List Char} (ha : column a = 0) (b : List Char) :
    column (a ++ b) = column b := by
  rw [column, List.length_eq_zero_iff] at ha
  rw [column, column, List.reverse_append, List.takeWhile_append]
  split
  · next hall => rw [ha, List.append_nil, hall]
  · rfl

namespace IsPlace

variable {doc text rest : List Char} {n i : Nat} {p q : Position}

theorem isAbsolute (h : IsPlace doc 1 0 n p) : p.IsAbsolute doc := by
  obtain ⟨line, column, offset⟩ := p
  refine ⟨n, h.le, ?_⟩
  obtain rfl := h.line_eq
  obtain rfl := h.column_eq
  obtain rfl := h.offset_eq
  rw [Position.ofIndex, Int.zero_add]

/-- A place in a text that starts where a line of a document does is a place of the document: `text`
stands in `doc` at the place `p` at the start of a line, and `q` is a place in it. -/
theorem isAbsolute_of_drop (hp : IsPlace doc 1 0 n p) (hcolumn : p.column = 0)
    (hdoc : doc.drop n = text ++ rest) (hq : IsPlace text p.line p.offset i q) :
    q.IsAbsolute doc := by
  have htext : doc.drop n = text.take i ++ (text.drop i ++ rest) := by
    rw [hdoc, ← List.append_assoc, List.take_append_drop]
  have hlen : (text.take i).length = i := List.length_take_of_le hq.le
  have htake := take_add htext
  have hle := add_le hp.le htext
  rw [hlen] at htake hle
  -- no line break is cut in two where the text starts
  have hapart : Apart (doc.take n) (text.take i) := by
    intro hlast hhead
    refine hp.apart hlast ?_
    rw [htext, List.head?_append, hhead, Option.some_or]
  obtain ⟨line, column, offset⟩ := q
  refine ⟨n + i, hle, ?_⟩
  obtain rfl := hq.line_eq
  obtain rfl := hq.column_eq
  obtain rfl := hq.offset_eq
  rw [Position.ofIndex, htake, lineBreaks_append hapart,
    column_append_of_eq_zero (hp.column_eq.symm.trans hcolumn), hp.line_eq, hp.offset_eq,
    Int.natCast_add, Int.natCast_add, Int.zero_add, Int.add_assoc]

end IsPlace

/-! ### The lines of a document -/

/-- A text `cs` is empty or ends with a line break of the token kind, so that a new line starts
behind it. -/
def EndsLine (cs : List Char) : Prop := ∀ c ∈ cs.getLast?, isLineBreak c = true

/-- The lines of a document, taken apart at the first: there are none, there is one without a break,
or the first has `content` and a break `t`, and the other lines are those of `rest`. -/
theorem documentLines_cases (cs : List Char) :
    cs = [] ∧ documentLines cs = [] ∨
      (cs ≠ [] ∧ documentLines cs = [cs] ∧ ∀ c ∈ cs, isDocumentBreak c = false) ∨
      ∃ content t rest, cs = content ++ (t ++ rest) ∧ t ≠ [] ∧
        documentLines cs = (content ++ t) :: documentLines rest ∧
        (∀ c ∈ content, isDocumentBreak c = false) ∧ (t = ['\r', '\n'] ∨
          ∃ c, t = [c] ∧ isDocumentBreak c = true ∧ (c = '\r' → rest.head? ≠ some '\n')) := by
  rcases @lines_cases isDocumentBreak cs with ⟨hlines, hbreak⟩ |
    ⟨content, t, rest, hcs, hlines, hcontent, ht⟩
  · cases cs with
    | nil => exact .inl ⟨rfl, rfl⟩
    | cons c cs =>
      refine .inr (.inl ⟨List.cons_ne_nil c cs, ?_, hbreak⟩)
      rw [documentLines, hlines, List.map_singleton, Line.full, List.append_nil,
        List.filter_cons_of_pos (by simp), List.filter_nil]
  · have hne : t ≠ [] := by
      rcases ht with rfl | ⟨c, rfl, -⟩ <;> exact List.cons_ne_nil _ _
    refine .inr (.inr ⟨content, t, rest, hcs, hne, ?_, hcontent, ht⟩)
    rw [documentLines, hlines, List.map_cons, Line.full, List.filter_cons_of_pos (by simp [hne])]
    rfl

end Text

namespace Document

/-- The rest of the lines of a document, the first of them at the start of a line, which has the
`number` that a token there would have, and `n` characters before it. -/
inductive Numbered (doc : List Char) : Nat → Nat → List (List Char) → Prop
  | nil {number n : Nat} (hn : n = doc.length)
      (h : EndsLine doc → IsPlace doc 1 0 n ⟨number, 0, n⟩) : Numbered doc number n []
  | cons {number n : Nat} {line : List Char} {lines : List (List Char)}
      (hplace : IsPlace doc 1 0 n ⟨number, 0, n⟩) (hline : doc.drop n = line ++ lines.flatten)
      (h : Numbered doc (number + 1) (n + line.length) lines) :
      Numbered doc number n (line :: lines)

/-- Where all breaks of the document `doc` are breaks of lines of tokens, its lines have the numbers
that the places of tokens have, from any line on. -/
theorem numbered_documentLines {doc cs : List Char} {number n : Nat}
    (hbreaks : ∀ c ∈ doc, isDocumentBreak c = true → isLineBreak c = true)
    (hplace : IsPlace doc 1 0 n ⟨number, 0, n⟩) (hcs : doc.drop n = cs) :
    Numbered doc number n (documentLines cs) := by
  induction hlen : cs.length using Nat.strongRecOn generalizing cs number n with
  | _ len ih =>
    rcases documentLines_cases cs with ⟨rfl, hlines⟩ | ⟨hne, hlines, hbreak⟩ |
      ⟨content, t, rest, htext, hne, hlines, hcontent, ht⟩
    · rw [hlines]
      rw [List.drop_eq_nil_iff] at hcs
      exact .nil (Nat.le_antisymm hplace.le hcs) fun _ => hplace
    · rw [hlines]
      refine .cons hplace (by rw [hcs, List.flatten_nil, List.append_nil]) (.nil ?_ fun hends => ?_)
      · have hlength := congrArg List.length hcs
        have := hplace.le
        rw [List.length_drop] at hlength
        omega
      -- the last line has no break at its end
      · have hlast := List.getLast_mem hne
        have hdoc : doc.getLast? = some (cs.getLast hne) := by
          rw [← List.take_append_drop n doc, hcs, List.getLast?_append,
            List.getLast?_eq_some_getLast hne, Option.some_or]
        have htrue := hends _ hdoc
        rw [isLineBreak_eq_false (hbreak _ hlast)] at htrue
        cases htrue
    · have hmem : ∀ c ∈ t, c ∈ doc := fun c hc => by
        refine List.mem_of_mem_drop (i := n) ?_
        rw [hcs, htext]
        exact List.mem_append_right _ (List.mem_append_left _ hc)
      have hterm := mem_terminators <| ht.imp_right fun ⟨c, hc, hbreak, hseam⟩ =>
        ⟨c, hc, hbreaks c (hmem c (hc ▸ List.mem_cons_self)) hbreak, hseam⟩
      have hdrop := hcs.trans htext
      have hright := hplace.right hdrop fun c hc => isLineBreak_eq_false (hcontent c hc)
      have hdown := hright.down (IsPlace.drop_add hdrop) hterm.1 hterm.2
      have hrest := IsPlace.drop_add (IsPlace.drop_add hdrop)
      have hlt : rest.length < len := by
        have hcount := congrArg List.length htext
        have hpos := List.length_pos_iff.2 hne
        rw [List.length_append, List.length_append] at hcount
        omega
      rw [hlines]
      refine .cons hplace ?_ ?_
      · rw [hdrop, flatten_documentLines, List.append_assoc]
      · rw [List.length_append, ← Nat.add_assoc]
        refine ih rest.length hlt ?_ hrest rfl
        have hposition : ((⟨number, 0, n⟩ : Position).right content.length).down t.length =
            ⟨(number + 1 : Nat), 0, (n + content.length + t.length : Nat)⟩ := by
          rw [Position.right, Position.down, Int.natCast_add, Int.natCast_add, Int.natCast_add]
          rfl
        rwa [hposition] at hdown

end Document

/-! ### Segments -/

/-- The segment `s` stands in the document `doc` at the start of a line, with the line number and
the offset that it names. -/
structure Segment.StandsIn (doc : List Char) (s : Segment) : Prop where
  place : IsPlace doc 1 0 s.offset ⟨s.line, 0, s.offset⟩
  drop_eq : ∃ rest, doc.drop s.offset = s.text.toList ++ rest

/-- Where an error in a document `doc` is: at one of its indices, or, if no header was found, at the
start of the line with something else, or behind a document that does not end its last line. -/
def ReadError.IsPlaced (doc : List Char) (e : ReadError) : Prop :=
  ∃ p, e.position = some p ∧ (p.IsAbsolute doc ∨
    (∃ found, e.cause = .headerExpected found) ∧ { p with column := 0 }.IsAbsolute doc ∨
    e.cause = .headerMissing ∧ ¬EndsLine doc ∧ p.offset = doc.length)

namespace Document

/-- An open segment has the lines of a document from its place up to the index `n`. -/
structure OpenSegment.Holds (doc : List Char) (n : Nat) (s : OpenSegment) : Prop where
  place : IsPlace doc 1 0 s.offset ⟨s.line, 0, s.offset⟩
  drop_eq : doc.drop s.offset = s.lines.flatten ++ doc.drop n

namespace OpenSegment.Holds

variable {doc line rest : List Char} {n : Nat} {s : OpenSegment}

theorem push (h : s.Holds doc n) (hline : doc.drop n = line ++ rest) :
    (s.push line).Holds doc (n + line.length) := by
  refine ⟨h.place, ?_⟩
  rw [IsPlace.drop_add hline, OpenSegment.push, List.flatten_append, List.flatten_singleton,
    List.append_assoc, ← hline]
  exact h.drop_eq

theorem standsIn_close (h : s.Holds doc n) : s.close.StandsIn doc := by
  refine ⟨h.place, doc.drop n, ?_⟩
  rw [OpenSegment.close, String.toList_ofList]
  exact h.drop_eq

end OpenSegment.Holds

/-- What cutting a document `doc` gives: segments that all stand in it, or an error in it. -/
def Placed (doc : List Char) : Except ReadError (List Segment) → Prop
  | .ok segs => ∀ s ∈ segs, s.StandsIn doc
  | .error e => e.IsPlaced doc

/-- Cutting lines with their numbers gives segments that stand in the document, or an error in it.
The open segment `current`, if there is one, has the lines up to there. -/
theorem placed_segmentsFrom {doc : List Char} {number n : Nat} {lines : List (List Char)}
    (h : Numbered doc number n lines) {current : Option OpenSegment}
    (hcurrent : ∀ s ∈ current, s.Holds doc n) (afterBlank : Bool) :
    Placed doc (segmentsFrom current afterBlank number n lines) := by
  -- The induction is on the numbered lines. An open segment takes a line more, a header opens one,
  -- and what is closed stands where it was opened.
  induction h generalizing current afterBlank with
  | @nil number n hn hplace =>
    cases current with
    | some s => exact List.forall_mem_singleton.2 (hcurrent s rfl).standsIn_close
    | none =>
      -- No header was found up to the end. If the last line has no break, the error is on that
      -- line, but behind its start.
      by_cases hends : EndsLine doc
      · exact ⟨_, rfl, .inl (hplace hends).isAbsolute⟩
      · exact ⟨_, rfl, .inr (.inr ⟨rfl, hends, by rw [hn]⟩)⟩
  | @cons number n line lines hplace hline h ih =>
    rw [segmentsFrom.eq_def]
    dsimp only
    split
    · next x _ =>
      -- A header: the segment that opens here has one line, and the one that was open is closed.
      have hopened : (⟨x, number, n, [line]⟩ : OpenSegment).Holds doc (n + line.length) := by
        refine ⟨hplace, ?_⟩
        rw [IsPlace.drop_add hline, List.flatten_singleton]
        exact hline
      have hlater := ih (fun _ ho => Option.mem_some.1 ho ▸ hopened) (isBlankLine line)
      cases hsegs : segmentsFrom (some ⟨x, number, n, [line]⟩) (isBlankLine line) (number + 1)
        (n + line.length) lines with
      | error e =>
        rw [hsegs] at hlater
        exact hlater
      | ok later =>
        rw [hsegs] at hlater
        refine List.forall_mem_append.2 ⟨fun s hs => ?_, hlater⟩
        obtain ⟨o, ho, rfl⟩ := Option.map_eq_some_iff.1 (Option.mem_toList.1 hs)
        exact (hcurrent o ho).standsIn_close
    -- No header. The line goes to the open segment, and where none is open it must be blank.
    · cases current with
      | some s => exact ih (fun _ ho => Option.mem_some.1 ho ▸ (hcurrent s rfl).push hline) _
      | none =>
        dsimp only
        split
        · exact ih (fun _ ho => absurd ho (Option.not_mem_none _)) true
        · exact ⟨_, rfl, .inr (.inl ⟨⟨_, rfl⟩, hplace.isAbsolute⟩)⟩

/-- Where lines end alike for segments and for tokens, the segments of a document `src` stand in it,
and an error is in it. -/
theorem placed_segments {src : String}
    (h : ∀ c ∈ src.toList, isDocumentBreak c = true → isLineBreak c = true) :
    Placed src.toList (segments src) :=
  placed_segmentsFrom (numbered_documentLines h (IsPlace.start src.toList 1 0) rfl)
    (fun _ ho => absurd ho (Option.not_mem_none _)) true

end Document
end DiagramText
