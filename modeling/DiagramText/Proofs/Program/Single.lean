import DiagramText.Proofs.Program.Together
import DiagramText.Proofs.Reading.Ensures
import DiagramText.Proofs.Text.Relaid
import DiagramText.Proofs.Token.Scanned

/-!
# Programs of a single diagram

Whether a diagram reads back is a question about rows of tokens: those that its source was read
from, and those of the lines that are written for it.

* `Program.exists_segment_of_read` and `Program.exists_row_of_read`: a diagram that was read was
  read from a row without places, that of a segment of the document.
* `Program.readsBack_iff_lines`: a diagram reads back if and only if the rows of its lines are read
  as the diagram.

A diagram comes from a document if some text is read as a program that has the diagram in it. What
the reader of a dialect ensures at the start of each segment is then known of the diagram.

* `Diagram.IsRead`: a diagram comes from a document.
* `Diagram.IsRead.of_ensures`: what a reader ensures holds of the diagrams that come from documents.
* `Diagram.History`: a diagram that was read and edited, with all the names that were mentioned.
-/

namespace DiagramText

open Text Document Reading

/-! ### Rows of written lines -/

namespace Token

/-- The line break after the line `l`, with the blanks at the end of the line before it. -/
def lineBreak (d : Dialect) (l : List Char) : Token :=
  plain .newline (trailing [] (Piece.ofLine d l)) ['\n']

/-- The row of a line `l` and its break, a comment left out, as a reader meets it. -/
def fullLine (d : Dialect) (l : String) : List Token :=
  (ofLine d [] l.toList).filter isRead ++ [lineBreak d l.toList]

end Token

theorem toList_joinLines (l : String) (ls : List String) :
    (joinLines (l :: ls) ++ "\n").toList = (l :: ls).flatMap fun l => l.toList ++ ['\n'] := by
  induction ls generalizing l with
  | nil => simp [joinLines]
  | cons m ls ih =>
    have hcons : joinLines (l :: m :: ls) = l ++ ("\n" ++ joinLines (m :: ls)) := by
      rw [joinLines, String.intercalate_cons_cons, String.append_assoc]
      rfl
    rw [hcons, String.append_assoc, String.append_assoc, String.toList_append,
      String.toList_append, ih]
    simp

theorem onOneLine_of_plain {cs : List Char} (h : Plain cs) : OnOneLine cs := by
  intro c hc
  have hr : ∀ e : Char, isBlank e = true → isSpaceOrTab e = false → c ≠ e := by
    rintro e he hs rfl
    rw [h c hc he] at hs
    cases hs
  simp [isLineBreak, hr '\r' (by decide) (by decide), hr '\n' (by decide) (by decide)]

theorem isDocumentBreak_of_plain {cs : List Char} (h : Plain cs) {c : Char} (hc : c ∈ cs) :
    isDocumentBreak c = false := by
  cases hb : isDocumentBreak c with
  | false => rfl
  | true =>
    have hs := h c hc (isBlank_of_isDocumentBreak hb)
    obtain rfl | rfl := Measure.eq_of_isSpaceOrTab hs <;> exact absurd hb (by decide)

/-- Written lines `ls` are read from their rows, put one behind the other. -/
theorem ofText_lines (d : Dialect) {l : String} {ls : List String}
    (h : ∀ m ∈ l :: ls, OnOneLine m.toList) : Cursor.ofText d (joinLines (l :: ls) ++ "\n").toList =
      ⟨[], (l :: ls).flatMap (Token.fullLine d), Token.endOfInput⟩ := by
  rw [toList_joinLines, Cursor.ofText]
  congr 1
  generalize l :: ls = ls at h
  induction ls with
  | nil =>
    rw [List.flatMap_nil, Piece.ofText_nil]
    rfl
  | cons l ls ih =>
    obtain ⟨hl, hls⟩ := List.forall_mem_cons.1 h
    rw [List.flatMap_cons, List.append_assoc, Piece.ofText_break d hl (endsBefore_newline _),
      Token.row_append, Token.row, List.filter_append, List.filter_cons_of_pos (by rfl), ih hls,
      List.flatMap_cons, Token.fullLine, List.append_assoc]
    rfl

/-- A line `l` that stays one line and does not separate diagrams. -/
def Text.IsOwnLine (l : String) : Prop :=
  Plain l.toList ∧ isBlankLine (l.toList ++ ['\n']) = false

/-- Lines that stay lines `ls`, of which none starts a diagram and the last separates none. A
diagram behind them starts behind a blank line of its own. -/
structure Text.AreOwnLines (ls : List String) : Prop where
  plain : ∀ l ∈ ls, Plain l.toList
  uncut : cuts false (ls.map fun l => l.toList ++ ['\n']) = 0
  last : endsBlank false (ls.map fun l => l.toList ++ ['\n']) = false

namespace Text.AreOwnLines

theorem nil : AreOwnLines [] := ⟨nofun, rfl, rfl⟩

theorem append {ls ms : List String} (h : AreOwnLines ls) (h' : AreOwnLines ms) :
    AreOwnLines (ls ++ ms) where
  plain := List.forall_mem_append.2 ⟨h.plain, h'.plain⟩
  uncut := by rw [List.map_append, cuts_append, h.uncut, h.last, h'.uncut]
  last := by
    rw [List.map_append, endsBlank, List.foldl_append]
    exact (congrArg (endsBlank · _) h.last).trans h'.last

theorem cons {l : String} {ls : List String} (h : IsOwnLine l) (h' : AreOwnLines ls) :
    AreOwnLines (l :: ls) where
  plain := List.forall_mem_cons.2 ⟨h.1, h'.plain⟩
  uncut := by
    rw [List.map_cons, cuts, h.2, h'.uncut]
    rfl
  last := by
    rw [List.map_cons, endsBlank, List.foldl_cons, h.2]
    exact h'.last

/-- Lines `ls` of which none separates diagrams are not cut anywhere. -/
theorem of_forall {ls : List String} (h : ∀ l ∈ ls, IsOwnLine l) : AreOwnLines ls := by
  induction ls with
  | nil => exact nil
  | cons l ls ih =>
    obtain ⟨hl, hls⟩ := List.forall_mem_cons.1 h
    exact cons hl (ih hls)

/-- Such lines are not cut behind the first one, which is the header. -/
theorem innerCuts_eq_zero {l : String} {ls : List String} (h : AreOwnLines (l :: ls)) :
    innerCuts (joinLines (l :: ls) ++ "\n").toList = 0 := by
  have hlines : ∀ ls : List String, (∀ m ∈ ls, Plain m.toList) →
      documentLines (ls.flatMap fun l => l.toList ++ ['\n']) =
        ls.map fun l => l.toList ++ ['\n'] := by
    intro ls h
    induction ls with
    | nil => rfl
    | cons l ls ih =>
      obtain ⟨hl, hls⟩ := List.forall_mem_cons.1 h
      rw [List.flatMap_cons, List.append_assoc, List.singleton_append,
        documentLines_of_unbroken fun c hc => isDocumentBreak_of_plain hl hc, ih hls, List.map_cons]
  have hcuts := h.uncut
  rw [List.map_cons, cuts] at hcuts
  rw [toList_joinLines, innerCuts, hlines _ h.plain, List.map_cons]
  dsimp only
  omega

end Text.AreOwnLines

/-! ### Reading from rows -/

/-- A segment `s` is read as its row is: places in the document change nothing but positions. -/
theorem Segment.read_iff_row (s : Segment) (u : Diagram) :
    (∃ e, s.read = .ok e ∧ e.unplaced = u) ↔
      ∃ e c, diagram s.dialect (Cursor.ofText s.dialect s.text.toList) = .ok (e, c) ∧
        e.unplaced = u := by
  -- The two cursors differ in positions only, and readers keep that.
  have halike := alike_diagram s.dialect 0 _ _ trivial
    (Cursor.alike_ofText s.dialect s.text s.line s.offset)
  rw [read, tokens]
  generalize diagram s.dialect (.ofTokens _) = x at halike ⊢
  generalize diagram s.dialect (.ofText _ _) = y at halike ⊢
  cases halike with
  | error h =>
    constructor
    · rintro ⟨_, h, _⟩
      cases h
    · rintro ⟨_, _, h, _⟩
      cases h
  | @ok e e' c c' _ hee' =>
    constructor
    · rintro ⟨_, h, hu⟩
      cases h
      exact ⟨e', c', rfl, hee' ▸ hu⟩
    · rintro ⟨_, _, h, hu⟩
      cases h
      exact ⟨e, rfl, hee'.trans hu⟩

/-- A reading for the dialect `x` gives a diagram of it. -/
theorem Reading.dialect_eq {x : Dialect} {c c' : Cursor} {d : Diagram}
    (h : diagram x c = .ok (d, c')) : d.dialect = x := by
  cases x <;>
    (rw [diagram, map_apply, Except.bind_eq_ok_iff] at h
     obtain ⟨r, -, h⟩ := h
     cases h
     rfl)

theorem Diagram.dialect_unplaced (d : Diagram) : d.unplaced.dialect = d.dialect := by
  cases d <;> rfl

namespace Program

/-- A diagram `d` of a document was read from the row of a segment of the document, up to
positions. -/
theorem exists_segment_of_read {src : String} {p : Program} (h : read src = .ok p) {d : Diagram}
    (hd : d ∈ p.diagrams) :
    ∃ segs, segments src = .ok segs ∧ ∃ s ∈ segs, s.dialect = d.dialect ∧
      ∃ e c, diagram d.dialect (Cursor.ofText d.dialect s.text.toList) = .ok (e, c) ∧
        e.unplaced = d.unplaced := by
  rw [read] at h
  cases hsegs : segments src with
  | error e => simp [hsegs] at h
  | ok segs =>
    simp only [hsegs, Except.map_eq_ok_iff] at h
    obtain ⟨ds, hds, rfl⟩ := h
    obtain ⟨s, hs, hread⟩ := Except.exists_of_mem_mapM hds hd
    obtain ⟨e, c, he, heq⟩ := (s.read_iff_row d.unplaced).1 ⟨d, hread, rfl⟩
    have hdialect : d.dialect = s.dialect := by
      rw [← Reading.dialect_eq he, ← e.dialect_unplaced, heq, d.dialect_unplaced]
    exact ⟨segs, rfl, s, hs, hdialect.symm, e, c, hdialect ▸ he, heq⟩

/-- A diagram `d` of a document was read from a row, of a text `src` that is part of the
document. -/
theorem exists_row_of_read {src : String} {p : Program} (h : read src = .ok p) {d : Diagram}
    (hd : d ∈ p.diagrams) :
    ∃ text : List Char, (∀ c ∈ text, c ∈ src.toList) ∧
      ∃ e c, diagram d.dialect (Cursor.ofText d.dialect text) = .ok (e, c) ∧
        e.unplaced = d.unplaced := by
  obtain ⟨segs, hsegs, s, hs, -, hread⟩ := exists_segment_of_read h hd
  exact ⟨s.text.toList, fun c hc => mem_of_mem_text hsegs hs hc, hread⟩

/-- What is written for the diagram `d` is read as the diagram `u` if and only if the rows of its
lines are. -/
theorem read_write_iff_lines {layout : Layout} {d u : Diagram} {l : String} {ls : List String}
    (hwrite : d.write layout = joinLines (l :: ls))
    (h : AreOwnLines (l :: ls)) :
    (∃ q, read (write layout ⟨[d]⟩) = .ok q ∧ q.same ⟨[u]⟩ = true) ↔
      ∃ e c, diagram d.dialect ⟨[], (l :: ls).flatMap (Token.fullLine d.dialect),
        Token.endOfInput⟩ =
        .ok (e, c) ∧ e.unplaced = u.unplaced := by
  rw [@read_write_iff layout [d] [u] (List.cons_ne_nil d []) rfl,
    List.map_singleton, List.forall₂_cons,
    and_iff_left .nil, Reads, textOf, Segment.alone, Segment.read_iff_row]
  dsimp only
  rw [hwrite, and_iff_right h.innerCuts_eq_zero, String.toList_ofList,
    ofText_lines d.dialect fun m hm => onOneLine_of_plain (h.plain m hm)]

/-- A diagram `d` reads back if and only if the rows of the lines `ls` that are written for it are
read as the diagram. -/
theorem readsBack_iff_lines {layout : Layout} {d : Diagram} {l : String} {ls : List String}
    (hwrite : d.write layout = joinLines (l :: ls)) (h : AreOwnLines (l :: ls)) :
    ReadsBack layout ⟨[d]⟩ ↔
      ∃ e c, diagram d.dialect ⟨[], (l :: ls).flatMap (Token.fullLine d.dialect),
        Token.endOfInput⟩ =
        .ok (e, c) ∧ e.unplaced = d.unplaced :=
  read_write_iff_lines hwrite h

end Program

/-! ### Diagrams that come from documents -/

namespace Diagram

/-- Some text is read as a program that has the diagram `d` in it. -/
def IsRead (d : Diagram) : Prop := ∃ src p, Program.read src = .ok p ∧ d ∈ p.diagrams

/-- A diagram `d` that comes from a document was read from one of its segments, with its
positions. -/
theorem IsRead.exists_mem_segments {d : Diagram} (h : d.IsRead) :
    ∃ src segments, Document.segments src = .ok segments ∧ ∃ s ∈ segments, s.read = .ok d := by
  obtain ⟨src, p, hread, hd⟩ := h
  rw [Program.read] at hread
  cases hsegments : Document.segments src with
  | error e => simp [hsegments] at hread
  | ok segments =>
    simp only [hsegments, Except.map_eq_ok_iff] at hread
    obtain ⟨ds, hds, rfl⟩ := hread
    exact ⟨src, segments, hsegments, Except.exists_of_mem_mapM hds hd⟩

/-- What is read of a segment `s` is read from its tokens, as a diagram `d` of its dialect and no
other. -/
theorem exists_of_segment_read {d : Diagram} {s : Segment} (h : s.read = .ok d) :
    s.dialect = d.dialect ∧
      ∃ c, diagram d.dialect (Cursor.ofTokens s.tokens) = .ok (d, c) := by
  rw [Segment.read, Except.map_eq_ok_iff] at h
  obtain ⟨⟨e, c⟩, hdiagram, rfl⟩ := h
  have hdialect : e.dialect = s.dialect := Reading.dialect_eq hdiagram
  exact ⟨hdialect.symm, c, hdialect ▸ hdiagram⟩

/-- A diagram `d` that comes from a document was read from the tokens of a segment `s`, with its
positions. -/
theorem IsRead.exists_segment {d : Diagram} (h : d.IsRead) :
    ∃ (s : Segment) (c : Cursor), s.dialect = d.dialect ∧
      diagram d.dialect (Cursor.ofTokens s.tokens) = .ok (d, c) := by
  obtain ⟨_, _, -, s, -, hs⟩ := h.exists_mem_segments
  obtain ⟨hdialect, c, hdiagram⟩ := exists_of_segment_read hs
  exact ⟨s, c, hdialect, hdiagram⟩

/-- What the reader of a dialect ensures at the start of each of its segments is known of every
diagram of the dialect that comes from a document. -/
theorem IsRead.of_ensures {α : Type} {make : α → Diagram} (hmake : Function.Injective make)
    {a : α} (h : (make a).IsRead) {x : Reading α} (hx : diagram (make a).dialect = make <$> x)
    {P : Cursor → Prop}
    (hstart : ∀ s : Segment, s.dialect = (make a).dialect → P (Cursor.ofTokens s.tokens))
    {Q : α → Prop} (hensures : Ensures P x fun a _ => Q a) : Q a := by
  obtain ⟨s, c, hdialect, hread⟩ := h.exists_segment
  rw [hx, map_apply, Except.bind_eq_ok_iff] at hread
  obtain ⟨⟨b, c'⟩, hb, heq⟩ := hread
  have hab : b = a := hmake (congrArg Prod.fst (Except.ok.inj heq))
  rw [← hab]
  exact hensures _ b c' (hstart s hdialect) hb

/-! ### Diagrams with their mentions -/

variable {δ : Type} {make : δ → Diagram} {blank : δ → Prop} {mentions : Cursor → List String}
  {edit : δ → List String → δ → Prop} {d : δ} {mentioned : List String}

/-- A diagram that was blank or was read from a segment of a document, and then edited any number of
times, with the names that were mentioned on the way, in their order. -/
inductive History (make : δ → Diagram) (blank : δ → Prop) (mentions : Cursor → List String)
    (edit : δ → List String → δ → Prop) : δ → List String → Prop
  | blank {d : δ} (h : blank d) : History make blank mentions edit d []
  | read {src : String} {segments : List Segment} {s : Segment} {d : δ}
      (hsegments : Document.segments src = .ok segments) (hs : s ∈ segments)
      (hread : s.read = .ok (make d)) :
      History make blank mentions edit d (mentions (Cursor.ofTokens s.tokens))
  | edit {d e : δ} {mentioned names : List String}
      (hd : History make blank mentions edit d mentioned) (hedit : edit d names e) :
      History make blank mentions edit e (mentioned ++ names)

/-- Every diagram that comes from a document has a history, which is that of its own text. -/
theorem IsRead.exists_history (h : (make d).IsRead) :
    ∃ mentioned, History make blank mentions edit d mentioned := by
  obtain ⟨_, _, hsegments, _, hs, hread⟩ := h.exists_mem_segments
  exact ⟨_, .read hsegments hs hread⟩

/-- What holds of blank diagrams, of what is read with its mentions, and behind each edit holds of
every diagram with a history. -/
theorem History.induction {P : δ → List String → Prop} (hmake : Function.Injective make)
    {x : Reading δ} (hx : ∀ d, diagram (make d).dialect = make <$> x)
    (hblank : ∀ d, blank d → P d [])
    (hread : ∀ (s : Segment) (d : δ) (c : Cursor), x (Cursor.ofTokens s.tokens) = .ok (d, c) →
      P d (mentions (Cursor.ofTokens s.tokens)))
    (hedit : ∀ d e mentioned names, P d mentioned → edit d names e → P e (mentioned ++ names))
    (h : History make blank mentions edit d mentioned) : P d mentioned := by
  induction h with
  | blank h => exact hblank _ h
  | @read _ _ s d _ _ h =>
    obtain ⟨-, c, hdiagram⟩ := exists_of_segment_read h
    rw [hx, map_apply, Except.bind_eq_ok_iff] at hdiagram
    obtain ⟨⟨e, c'⟩, he, heq⟩ := hdiagram
    obtain rfl : e = d := hmake (congrArg Prod.fst (Except.ok.inj heq))
    exact hread s e c' he
  | edit _ h ih => exact hedit _ _ _ _ ih h

end Diagram
end DiagramText
