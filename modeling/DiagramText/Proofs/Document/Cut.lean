import DiagramText.Proofs.Document.Segments
import DiagramText.Proofs.Text.Word

/-!
# Where documents are cut

Cutting a document keeps an open segment, the number and offset of the next line and whether the
line before it is blank. What comes out of this can be said without any of it: a diagram starts at
each header line that is the first line or stands right behind a blank one, and its segment goes on
to where the next one starts.

* `Document.starts`: the lines that start a diagram, with their numbers and offsets.
* `Document.IsCut`: segments start there, and each is the slice of the document up to the next one.
* `Document.segments_isCut`: a document is cut if and only if a header comes before all else in it,
  and then it is cut there.
-/

namespace DiagramText

open Text

/-- What a segment says of its start: its line, its offset and its dialect, in the order of
`starts`. -/
def Segment.start (s : Segment) : Nat × Nat × Dialect := (s.line, s.offset, s.dialect)

namespace Document

/-! ### Lines that start a diagram -/

/-- The dialect of the diagram that starts at the line with index `i`: that of a header line which
is the first line or stands right behind a blank one. -/
def startAt? (lines : List (List Char)) (i : Nat) : Option Dialect :=
  if i = 0 ∨ lines[i - 1]?.any isBlankLine then lines[i]?.bind Header.dialect? else none

/-- The `lines` that start a diagram, in order: the number of each, counted from one, the number of
characters before it, and the dialect of its diagram. -/
def starts (lines : List (List Char)) : List (Nat × Nat × Dialect) :=
  (List.range lines.length).filterMap fun i =>
    (startAt? lines i).map fun x => (i + 1, (lines.take i).flatten.length, x)

/-- The `lines` have one that is not blank, and the first such line is a header. So nothing but
blank lines comes before the first header. -/
def StartsWithHeader (lines : List (List Char)) : Prop :=
  ∃ line ∈ lines.find? (!isBlankLine ·), (Header.dialect? line).isSome = true

/-- The starts among `lines` of which the first has a `number` and an `offset`, where `afterBlank`
tells whether the line before them is blank. This goes through the lines as the cutting of a
document does. -/
def startsFrom (afterBlank : Bool) (number offset : Nat) :
    List (List Char) → List (Nat × Nat × Dialect)
  | [] => []
  | line :: lines =>
    (if afterBlank then Header.dialect? line else none).toList.map (number, offset, ·) ++
      startsFrom (isBlankLine line) (number + 1) (offset + line.length) lines

/-- Going through the lines one by one finds all lines that start a diagram: behind the lines
`before`, the recursive `startsFrom` gives the indices at which `startAt?` finds a dialect. -/
theorem startsFrom_append (before lines : List (List Char)) {b : Bool}
    (hb : b = true ↔ before.length = 0 ∨ (before ++ lines)[before.length - 1]?.any isBlankLine) :
    startsFrom b (before.length + 1) before.flatten.length lines =
      (List.range' before.length lines.length).filterMap fun i =>
        (startAt? (before ++ lines) i).map fun x =>
          (i + 1, ((before ++ lines).take i).flatten.length, x) := by
  induction lines generalizing before b with
  | nil => rfl
  | cons line lines ih =>
    have hassoc : before ++ line :: lines = (before ++ [line]) ++ lines := by simp
    have hget : (before ++ line :: lines)[before.length]? = some line := by simp
    have hstart : startAt? (before ++ line :: lines) before.length =
        if b then Header.dialect? line else none := by
      rw [startAt?, hget]
      by_cases hbefore : b = true
      · rw [if_pos (hb.1 hbefore), if_pos hbefore]
        rfl
      · rw [if_neg (mt hb.2 hbefore), if_neg hbefore]
    -- behind the line it is known of the line itself whether it is blank
    have hrest := @ih (before ++ [line]) (isBlankLine line) (by simp)
    rw [← hassoc, List.length_append, List.length_singleton, List.flatten_append,
      List.flatten_singleton, List.length_append] at hrest
    rw [startsFrom, hrest, List.length_cons, List.range'_succ, List.filterMap_cons, hstart,
      List.take_left]
    cases (if b then Header.dialect? line else none) <;> rfl

theorem starts_eq (lines : List (List Char)) : starts lines = startsFrom true 1 0 lines := by
  rw [starts, List.range_eq_range']
  exact (startsFrom_append [] lines (by simp)).symm

/-! ### Header lines -/

/-- A header `line` is not blank, so a blank line starts no diagram. -/
theorem dialect?_of_isBlankLine {line : List Char} (h : isBlankLine line = true) :
    Header.dialect? line = none := by
  obtain ⟨t, ht, hline⟩ : ∃ t, (∀ c ∈ t, isBlank c = true) ∧
      (line.reverse.dropWhile isLineBreak).reverse ++ t = line := by
    refine ⟨(line.reverse.takeWhile isLineBreak).reverse, fun c hc => ?_, ?_⟩
    · have hbreak := List.all_eq_true.1 List.all_takeWhile c (List.mem_reverse.1 hc)
      apply isBlank_of_isDocumentBreak
      rw [isLineBreak, Bool.or_eq_true, beq_iff_eq, beq_iff_eq] at hbreak
      rcases hbreak with rfl | rfl <;> decide
    · rw [← List.reverse_append, List.takeWhile_append_dropWhile, List.reverse_reverse]
  unfold Header.dialect?
  dsimp only
  generalize (line.reverse.dropWhile isLineBreak).reverse = body at hline
  cases hstart : trimLeft body with
  | nil => rfl
  | cons c rest =>
    refine if_neg fun hc => ?_
    replace hc : c.isAlpha = true := by simpa using hc
    have hblank : isBlank c = false :=
      isBlank_of_isAsciiWord (by simp [isAsciiWord, Char.isAlphanum, hc])
    -- the line starts with the letter even when it is trimmed
    have hleft : trimLeft line = c :: (rest ++ t) := by
      have hdrop : body.dropWhile isBlank = c :: rest := hstart
      rw [← hline, trimLeft, List.dropWhile_append, hdrop]
      rfl
    obtain ⟨b, hb, hall, -⟩ := exists_trimRight (c :: (rest ++ t))
    unfold isBlankLine at h
    rw [trim, hleft] at h
    cases hright : trimRight (c :: (rest ++ t)) with
    | nil =>
      rw [hright, List.nil_append] at hb
      have := hall c (hb ▸ List.mem_cons_self)
      rw [hblank] at this
      cases this
    | cons e es =>
      rw [hright] at h hb
      obtain rfl : c = e := (List.cons.inj hb).1
      split at h
      · next heq => cases heq
      · next heq =>
        obtain rfl : c = '%' := (List.cons.inj heq).1
        exact absurd hc (by decide)
      · cases h

/-! ### Segments that adjoin -/

/-- Segments of which each starts where the one before it ends, the first at the offset `n`. -/
def Adjoin : Nat → List Segment → Prop
  | _, [] => True
  | n, s :: segs => s.offset = n ∧ Adjoin (n + s.text.toList.length) segs

/-- Where the segment behind the one with index `k` starts, or where the document ends if that is
the last. -/
def endOf (src : List Char) (segs : List Segment) (k : Nat) : Nat :=
  (segs[k + 1]?.map Segment.offset).getD src.length

/-- Segments that adjoin up to the end of a document are slices of it, each from its own offset to
the offset of the next. -/
theorem Adjoin.text_eq {src before : List Char} {segs : List Segment}
    (h : Adjoin before.length segs) (hsrc : src = before ++ segs.flatMap (·.text.toList)) {k : Nat}
    {s : Segment} (hs : segs[k]? = some s) :
    s.text.toList = (src.take (endOf src segs k)).drop s.offset := by
  induction segs generalizing before k with
  | nil => cases hs
  | cons t segs ih =>
    obtain ⟨hoffset, hrest⟩ := h
    rw [List.flatMap_cons, ← List.append_assoc] at hsrc
    rw [← List.length_append] at hrest
    cases k with
    | succ k => exact ih hrest hsrc hs
    | zero =>
      obtain rfl : t = s := Option.some.inj hs
      have hend : endOf src (t :: segs) 0 = (before ++ t.text.toList).length := by
        cases segs with
        | nil =>
          rw [List.flatMap_nil, List.append_nil] at hsrc
          exact congrArg List.length hsrc
        | cons u segs => exact hrest.1
      rw [hend, hoffset, hsrc, List.take_left, List.drop_left]

/-- An open segment `s` is the first of those that are left. It goes on to the next start, with the
characters `text`, and the segments behind it have all lines that are left. -/
theorem segmentsFrom_some (s : OpenSegment) (b : Bool) (number offset : Nat)
    (lines : List (List Char)) :
    ∃ text segs, segmentsFrom (some s) b number offset lines =
        .ok (⟨s.dialect, String.ofList (s.lines.flatten ++ text), s.line, s.offset⟩ :: segs) ∧
      segs.map Segment.start = startsFrom b number offset lines ∧
      lines.flatten = text ++ segs.flatMap (·.text.toList) ∧
      Adjoin (offset + text.length) segs := by
  induction lines generalizing s b number offset with
  | nil => exact ⟨[], [], by rw [List.append_nil]; rfl, rfl, rfl, trivial⟩
  | cons line lines ih =>
    rw [segmentsFrom.eq_def, startsFrom]
    dsimp only
    cases (if b then Header.dialect? line else none) with
    -- The line starts no diagram and goes to the open segment.
    | none =>
      obtain ⟨text, segs, hsegs, hstarts, hflatten, hadjoin⟩ :=
        ih (s.push line) (isBlankLine line) (number + 1) (offset + line.length)
      refine ⟨line ++ text, segs, ?_, hstarts, ?_, ?_⟩
      · rw [hsegs, OpenSegment.push, List.flatten_append, List.flatten_singleton, List.append_assoc]
      · rw [List.flatten_cons, hflatten, List.append_assoc]
      · rwa [List.length_append, ← Nat.add_assoc]
    -- The line starts a diagram: the open segment ends without it, and it opens the next.
    | some x =>
      obtain ⟨text, segs, hsegs, hstarts, hflatten, hadjoin⟩ :=
        ih ⟨x, number, offset, [line]⟩ (isBlankLine line) (number + 1) (offset + line.length)
      rw [List.flatten_singleton] at hsegs
      refine ⟨[], ⟨x, String.ofList (line ++ text), number, offset⟩ :: segs, ?_, ?_, ?_, rfl, ?_⟩
      · dsimp only
        rw [hsegs, List.append_nil]
        rfl
      · rw [List.map_cons, hstarts]
        rfl
      · rw [List.flatten_cons, hflatten, List.flatMap_cons, String.toList_ofList, List.append_assoc,
          List.nil_append]
      · rwa [String.toList_ofList, List.length_append, List.length_nil, Nat.add_zero,
          ← Nat.add_assoc]

/-- Before the first header only blank lines are passed. If they are followed by a header, the
segments adjoin from there to the end, and otherwise there is an error. -/
theorem segmentsFrom_none (number offset : Nat) (lines : List (List Char)) :
    match segmentsFrom none true number offset lines with
    | .ok segs => StartsWithHeader lines ∧
        segs.map Segment.start = startsFrom true number offset lines ∧
        ∃ before, lines.flatten = before ++ segs.flatMap (·.text.toList) ∧
          Adjoin (offset + before.length) segs
    | .error _ => ¬StartsWithHeader lines := by
  induction lines generalizing number offset with
  | nil =>
    rintro ⟨_, h, -⟩
    cases h
  | cons line lines ih =>
    cases hblank : isBlankLine line with
    -- A blank line is passed and counted, but it is in no segment.
    | true =>
      have hnone := dialect?_of_isBlankLine hblank
      have hfirst : StartsWithHeader (line :: lines) ↔ StartsWithHeader lines := by
        rw [StartsWithHeader, StartsWithHeader, List.find?_cons_of_neg (by simp [hblank])]
      have hrest := ih (number + 1) (offset + line.length)
      rw [segmentsFrom_blank hblank hnone, startsFrom, if_pos rfl, hnone, hblank, hfirst]
      cases hsegs : segmentsFrom none true (number + 1) (offset + line.length) lines with
      | error e =>
        rw [hsegs] at hrest
        exact hrest
      | ok segs =>
        rw [hsegs] at hrest
        obtain ⟨hheader, hstarts, before, hflatten, hadjoin⟩ := hrest
        refine ⟨hheader, hstarts, line ++ before, ?_, ?_⟩
        · rw [List.flatten_cons, hflatten, List.append_assoc]
        · rwa [List.length_append, ← Nat.add_assoc]
    -- The first line that is not blank must be a header.
    | false =>
      have hfirst : StartsWithHeader (line :: lines) ↔ (Header.dialect? line).isSome = true := by
        rw [StartsWithHeader, List.find?_cons_of_pos (by simp [hblank])]
        simp
      cases hx : Header.dialect? line with
      | none =>
        rw [segmentsFrom.eq_def]
        simp only [if_true, hx, hblank, Bool.false_eq_true, if_false]
        rw [hfirst, hx]
        exact Bool.false_ne_true
      | some x =>
        obtain ⟨text, segs, hsegs, hstarts, hflatten, hadjoin⟩ := segmentsFrom_some
          ⟨x, number, offset, [line]⟩ (isBlankLine line) (number + 1) (offset + line.length) lines
        rw [List.flatten_singleton] at hsegs
        rw [segmentsFrom_header hx, hsegs]
        refine ⟨hfirst.2 (by rw [hx]; rfl), ?_, [], ?_, rfl, ?_⟩
        · show Segment.start _ :: segs.map Segment.start = _
          rw [hstarts, startsFrom, if_pos rfl, hx]
          rfl
        · show _ = (String.ofList (line ++ text)).toList ++ segs.flatMap (·.text.toList)
          rw [List.flatten_cons, hflatten, String.toList_ofList, List.append_assoc]
        · rwa [String.toList_ofList, List.length_append, List.length_nil, Nat.add_zero,
            ← Nat.add_assoc]

/-- A document that is not cut into segments has no header where one is needed. -/
theorem cause_of_segmentsFrom {b : Bool} {number offset : Nat} {lines : List (List Char)}
    {e : ReadError} (h : segmentsFrom none b number offset lines = .error e) :
    e.cause = .headerMissing ∨ ∃ found, e.cause = .headerExpected found := by
  induction lines generalizing b number offset with
  | nil =>
    cases h
    exact .inl rfl
  | cons line lines ih =>
    rw [segmentsFrom.eq_def] at h
    dsimp only at h
    split at h
    · next x _ =>
      obtain ⟨text, segs, hsegs, -⟩ := segmentsFrom_some ⟨x, number, offset, [line]⟩
        (isBlankLine line) (number + 1) (offset + line.length) lines
      rw [hsegs] at h
      cases h
    · split at h
      · exact ih h
      · cases h
        exact .inr ⟨_, rfl⟩

/-! ### Whole documents -/

/-- What it means that a document `src` is cut into the segments `segs`. -/
structure IsCut (src : List Char) (segs : List Segment) : Prop where
  /-- Each line that starts a diagram has a segment with its number, offset and dialect. -/
  starts_eq : segs.map Segment.start = starts (documentLines src)
  /-- The text of a segment is the slice of the document up to the next segment. -/
  text_eq : ∀ k s, segs[k]? = some s → s.text.toList = (src.take (endOf src segs k)).drop s.offset
  /-- From the first segment on, all characters are in the segments, in their order. -/
  flatten_eq : ∃ n, n ∈ segs.head?.map Segment.offset ∧
    segs.flatMap (·.text.toList) = src.drop n

/-- A document `src` is cut into segments if and only if a header line comes before all other lines
that are not blank. The segments then start exactly at the header lines that are the first line or
follow a blank one. -/
theorem segments_isCut (src : String) :
    ((∃ segs, segments src = .ok segs) ↔ StartsWithHeader (documentLines src.toList)) ∧
      ∀ segs ∈ (segments src).toOption, IsCut src.toList segs := by
  have hcut := segmentsFrom_none 1 0 (documentLines src.toList)
  rw [show segmentsFrom none true 1 0 (documentLines src.toList) = segments src from rfl] at hcut
  cases hsegs : segments src with
  | error e =>
    rw [hsegs] at hcut
    exact ⟨⟨fun ⟨_, h⟩ => (nomatch h), fun h => absurd h hcut⟩, fun _ h => (nomatch h)⟩
  | ok segs =>
    rw [hsegs] at hcut
    obtain ⟨hheader, hstarts, before, hflatten, hadjoin⟩ := hcut
    rw [Nat.zero_add] at hadjoin
    rw [flatten_documentLines] at hflatten
    refine ⟨⟨fun _ => hheader, fun _ => ⟨segs, rfl⟩⟩, ?_⟩
    rintro _ ⟨⟩
    refine ⟨hstarts.trans (starts_eq _).symm, fun k s hs => hadjoin.text_eq hflatten hs, ?_⟩
    obtain ⟨s, segs, rfl⟩ := List.exists_cons_of_ne_nil (segments_ne_nil hsegs)
    refine ⟨before.length, ?_, ?_⟩
    · rw [List.head?_cons, Option.map_some, hadjoin.1]
      exact Option.mem_some_self _
    · rw [hflatten, List.drop_left]

/-- Of the header lines of this document, the third does not follow a blank line, so it starts no
diagram. -/
theorem exists_segments_isCut :
    ∃ segs, segments "%% a\ngraph LR\nA\n%% b\ngantt\nerDiagram\n\nflowchart" = .ok segs ∧
      IsCut "%% a\ngraph LR\nA\n%% b\ngantt\nerDiagram\n\nflowchart".toList segs ∧
      segs.map Segment.start = [(2, 5, .flowchart), (5, 21, .gantt), (8, 38, .flowchart)] := by
  obtain ⟨hcut, hall⟩ := segments_isCut "%% a\ngraph LR\nA\n%% b\ngantt\nerDiagram\n\nflowchart"
  obtain ⟨segs, hsegs⟩ := hcut.2 ⟨"graph LR\n".toList, by decide, by decide⟩
  have hisCut := hall segs (by rw [hsegs]; exact Option.mem_some_self _)
  exact ⟨segs, hsegs, hisCut, hisCut.starts_eq.trans (by decide)⟩

end Document

end DiagramText
