import Mathlib.Algebra.GroupWithZero.Nat
import DiagramText.Document
import DiagramText.Proofs.Result
import DiagramText.Proofs.Text.Relaid

/-!
# Segments of documents put together

A document that is put together from texts which each open with a header line, with blank lines
between them, is cut at least where the texts start. The number of its segments tells whether it is
cut anywhere else.

* `Document.length_segments` counts the segments by the headers inside the texts.
* `Document.segments_of_uncut` gives the segments of texts with no header inside.
-/

namespace DiagramText

open Text

/-! ### Header lines -/

/-- Only the line breaks `t` at the end of a line `x` are taken off it. -/
theorem Text.reverse_dropWhile_isLineBreak {x t : List Char} (hx : OnOneLine x)
    (ht : ∀ c ∈ t, isLineBreak c = true) :
    ((x ++ t).reverse.dropWhile isLineBreak).reverse = x := by
  have hstop : x.reverse.dropWhile isLineBreak = x.reverse := dropWhile_eq_self fun c hc =>
    hx c (List.mem_reverse.1 (List.mem_of_head? hc))
  rw [List.reverse_append, List.dropWhile_append_of_pos fun c hc => ht c (List.mem_reverse.1 hc),
    hstop, List.reverse_reverse]

/-- Neither the spaces and tabs before a line `x` nor its break matter to whether it starts a
diagram. -/
theorem Header.dialect?_relaid {b x t : List Char} (hb : ∀ c ∈ b, isSpaceOrTab c = true)
    (hx : OnOneLine x) (ht : ∀ c ∈ t, isLineBreak c = true) :
    dialect? (b ++ x ++ t) = dialect? x := by
  have hfull := reverse_dropWhile_isLineBreak ((onOneLine_of_blank hb).append hx) ht
  have hself := reverse_dropWhile_isLineBreak hx (List.forall_mem_nil _)
  rw [List.append_nil] at hself
  have htrim : trimLeft (b ++ x) = trimLeft x :=
    List.dropWhile_append_of_pos fun c hc => isBlank_of_isSpaceOrTab (hb c hc)
  unfold dialect?
  dsimp only
  rw [hfull, hself, htrim]

namespace Document

/-! ### Counting cuts -/

/-- The number of headers that start a segment among lines, where `afterBlank` tells whether the
line before them is blank. -/
def cuts (afterBlank : Bool) : List (List Char) → Nat
  | [] => 0
  | line :: lines =>
    (if afterBlank && (Header.dialect? line).isSome then 1 else 0) + cuts (isBlankLine line) lines

/-- Whether the last of some lines is blank, where `afterBlank` tells it of the line before them, in
case there are none. -/
def endsBlank (afterBlank : Bool) (lines : List (List Char)) : Bool :=
  lines.foldl (fun _ line => isBlankLine line) afterBlank

theorem cuts_append (b : Bool) (ls ms : List (List Char)) :
    cuts b (ls ++ ms) = cuts b ls + cuts (endsBlank b ls) ms := by
  induction ls generalizing b with
  | nil => simp [cuts, endsBlank]
  | cons l ls ih =>
    rw [List.cons_append, cuts, cuts, ih, Nat.add_assoc]
    rfl

/-- After a blank line `l`, a header starts a segment. What was open is closed. -/
theorem segmentsFrom_header {l : List Char} {x : Dialect} (hx : Header.dialect? l = some x)
    (current : Option OpenSegment) (number offset : Nat) (ls : List (List Char)) :
    segmentsFrom current true number offset (l :: ls) =
      (segmentsFrom (some ⟨x, number, offset, [l]⟩) (isBlankLine l) (number + 1)
        (offset + l.length) ls).map ((current.map OpenSegment.close).toList ++ ·) := by
  rw [segmentsFrom.eq_def]
  simp only [if_true, hx]
  cases segmentsFrom (some ⟨x, number, offset, [l]⟩) (isBlankLine l) (number + 1)
    (offset + l.length) ls <;> rfl

/-- Before the first header, a blank line `l` is skipped. It only counts for the numbers of what
follows. -/
theorem segmentsFrom_blank {l : List Char} (hl : isBlankLine l = true)
    (hd : Header.dialect? l = none) (number offset : Nat) (ls : List (List Char)) :
    segmentsFrom none true number offset (l :: ls) =
      segmentsFrom none true (number + 1) (offset + l.length) ls := by
  rw [segmentsFrom.eq_def]
  simp only [if_true, hd, hl]

/-- An open segment `s` goes on to the end or to the next cut, so reading it never fails, and each
cut is one segment more. -/
theorem length_segmentsFrom_some (s : OpenSegment) (b : Bool) (number offset : Nat)
    (ls : List (List Char)) :
    ∃ segs, segmentsFrom (some s) b number offset ls = .ok segs ∧
      segs.length = 1 + cuts b ls := by
  induction ls generalizing s b number offset with
  | nil => exact ⟨[s.close], rfl, rfl⟩
  | cons l ls ih =>
    cases b with
    | false =>
      obtain ⟨segs, hsegs, hlen⟩ := ih (s.push l) (isBlankLine l) (number + 1) (offset + l.length)
      exact ⟨segs, hsegs, by simpa [cuts] using hlen⟩
    | true =>
      cases hd : Header.dialect? l with
      | none =>
        obtain ⟨segs, hsegs, hlen⟩ :=
          ih (s.push l) (isBlankLine l) (number + 1) (offset + l.length)
        exact ⟨segs, by simpa [segmentsFrom, hd] using hsegs, by simpa [cuts, hd] using hlen⟩
      | some x =>
        obtain ⟨segs, hsegs, hlen⟩ :=
          ih ⟨x, number, offset, [l]⟩ (isBlankLine l) (number + 1) (offset + l.length)
        refine ⟨s.close :: segs, ?_, by simp [cuts, hd, hlen]; omega⟩
        simp [segmentsFrom, hd, hsegs, bind, Except.bind]

/-- Lines `ls` without a cut are put at the end of an open segment, which goes on with the lines
`ms`. -/
theorem segmentsFrom_of_cuts_eq_zero (s : OpenSegment) {b : Bool} (number offset : Nat)
    {ls : List (List Char)} (h : cuts b ls = 0) (ms : List (List Char)) :
    ∃ number' offset', segmentsFrom (some s) b number offset (ls ++ ms) =
      segmentsFrom (some { s with lines := s.lines ++ ls })
        (endsBlank b ls) number' offset' ms := by
  induction ls generalizing s b number offset with
  | nil => exact ⟨number, offset, by simp [endsBlank]⟩
  | cons l ls ih =>
    rw [cuts, Nat.add_eq_zero_iff] at h
    obtain ⟨number', offset', h'⟩ := ih (s.push l) (number + 1) (offset + l.length) h.2
    refine ⟨number', offset', ?_⟩
    have hcut : (if b then Header.dialect? l else none) = none := by
      cases b <;> simp_all
    rw [List.cons_append, segmentsFrom, hcut]
    refine h'.trans ?_
    simp [OpenSegment.push, endsBlank]

/-! ### Texts of diagrams -/

/-- A `text` that opens a diagram of a dialect `x` on its first line and ends with a line feed. -/
structure Opens (x : Dialect) (text : List Char) : Prop where
  head : ∃ h ls, documentLines text = h :: ls ∧ Header.dialect? h = some x
  last : ∃ cs, text = cs ++ ['\n']

/-- The number of headers that start a segment inside a `text`, after its first line, which is a
header itself. -/
def innerCuts (text : List Char) : Nat :=
  match documentLines text with
  | [] => 0
  | h :: ls => cuts (isBlankLine h) ls

/-- A line with nothing but a line feed. -/
def emptyLine : List Char := ['\n']

theorem dialect?_emptyLine : Header.dialect? emptyLine = none := by
  decide

theorem Opens.documentLines_append {x : Dialect} {text : List Char} (h : Opens x text)
    (ys : List Char) : documentLines (text ++ ys) = documentLines text ++ documentLines ys := by
  obtain ⟨cs, rfl⟩ := h.last
  obtain ⟨ls, hls⟩ := Text.documentLines_append cs
  rw [List.append_assoc, List.singleton_append, hls, hls, List.append_assoc]
  rfl

theorem documentLines_newlines_append (k : Nat) (ys : List Char) :
    documentLines (List.replicate k '\n' ++ ys) =
      List.replicate k emptyLine ++ documentLines ys := by
  induction k with
  | zero => rfl
  | succ k ih =>
    rw [List.replicate_succ, List.cons_append, ← List.nil_append (_ :: _),
      documentLines_of_unbroken (by simp), ih]
    rfl

theorem documentLines_newlines (k : Nat) :
    documentLines (List.replicate k '\n') = List.replicate k emptyLine := by
  have h := documentLines_newlines_append k []
  have hnil : documentLines [] = [] := rfl
  rwa [List.append_nil, hnil, List.append_nil] at h

theorem cuts_emptyLines (b : Bool) (k : Nat) : cuts b (List.replicate k emptyLine) = 0 := by
  induction k generalizing b with
  | zero => rfl
  | succ k ih => rw [List.replicate_succ, cuts, ih, dialect?_emptyLine]; simp

theorem endsBlank_emptyLines (b : Bool) (k : Nat) :
    endsBlank b (List.replicate (k + 1) emptyLine) = true := by
  have hblank : isBlankLine emptyLine = true := by decide
  rw [endsBlank, List.replicate_succ', List.foldl_append, List.foldl_cons, hblank]
  rfl

/-- Texts of diagrams one after the other, with empty lines between them and maybe after them. -/
inductive Spaced : List (Dialect × List Char) → List Char → Prop
  | last {x : Dialect} {text : List Char} (h : Opens x text) (k : Nat) :
      Spaced [(x, text)] (text ++ List.replicate k '\n')
  | cons {x : Dialect} {text : List Char} (h : Opens x text) (k : Nat)
      {rest : List (Dialect × List Char)} {doc : List Char} (hrest : Spaced rest doc) :
      Spaced ((x, text) :: rest) (text ++ (List.replicate (k + 1) '\n' ++ doc))

/-- A document of `texts` starts with a header line, that of its first text. -/
theorem Spaced.exists_header {texts : List (Dialect × List Char)} {doc : List Char}
    (h : Spaced texts doc) :
    ∃ l ls x, documentLines doc = l :: ls ∧ Header.dialect? l = some x := by
  cases h with
  | @last x text h k =>
    obtain ⟨l, ls, hls, hx⟩ := h.head
    exact ⟨l, _, x, by rw [h.documentLines_append, hls, List.cons_append], hx⟩
  | @cons x text h k rest doc hrest =>
    obtain ⟨l, ls, hls, hx⟩ := h.head
    exact ⟨l, _, x, by rw [h.documentLines_append, hls, List.cons_append], hx⟩

theorem Spaced.opens {texts : List (Dialect × List Char)} {doc : List Char}
    (h : Spaced texts doc) : ∀ p ∈ texts, Opens p.1 p.2 := by
  induction h with
  | last h k => exact List.forall_mem_singleton.2 h
  | cons h k hrest ih => exact List.forall_mem_cons.2 ⟨h, ih⟩

/-- After a blank line, every text starts a segment, and so does each header inside a text. Since
each text ends with a line feed and an empty line follows, the next text starts after a blank
line. -/
theorem Spaced.cuts_eq {texts : List (Dialect × List Char)} {doc : List Char}
    (h : Spaced texts doc) :
    cuts true (documentLines doc) = (texts.map fun p => 1 + innerCuts p.2).sum := by
  induction h with
  | @last x text h k =>
    obtain ⟨l, ls, hls, hx⟩ := h.head
    rw [h.documentLines_append, documentLines_newlines, cuts_append, cuts_emptyLines, hls]
    simp [cuts, hx, innerCuts, hls]
  | @cons x text h k rest doc hrest ih =>
    obtain ⟨l, ls, hls, hx⟩ := h.head
    rw [h.documentLines_append, documentLines_newlines_append, cuts_append, cuts_append,
      cuts_emptyLines, endsBlank_emptyLines, ih, hls]
    simp [cuts, hx, innerCuts, hls]

/-- Empty lines may follow a document `doc`. They go to its last text. -/
theorem Spaced.append_newlines {texts : List (Dialect × List Char)} {doc : List Char}
    (h : Spaced texts doc) (n : Nat) : Spaced texts (doc ++ List.replicate n '\n') := by
  induction h with
  | last h k =>
    rw [List.append_assoc, List.replicate_append_replicate]
    exact .last h (k + n)
  | cons h k hrest ih =>
    rw [List.append_assoc, List.append_assoc]
    exact .cons h k ih

/-- Documents with at least one empty line between them are a document of the texts of both. -/
theorem Spaced.append {texts texts' : List (Dialect × List Char)} {doc doc' : List Char}
    (h : Spaced texts doc) (n : Nat) (h' : Spaced texts' doc') :
    Spaced (texts ++ texts') (doc ++ (List.replicate (n + 1) '\n' ++ doc')) := by
  induction h with
  | last h k =>
    rw [List.append_assoc, ← List.append_assoc (List.replicate k _),
      List.replicate_append_replicate, ← Nat.add_assoc]
    exact .cons h (k + n) h'
  | cons h k hrest ih =>
    rw [List.append_assoc, List.append_assoc]
    exact .cons h k ih

/-- The segment `s` of a text, with some of the empty lines that follow it. -/
def IsSegmentOf (p : Dialect × List Char) (s : Segment) : Prop :=
  s.dialect = p.1 ∧ ∃ k, s.text = String.ofList (p.2 ++ List.replicate k '\n')

theorem flatten_emptyLines (k : Nat) :
    (List.replicate k emptyLine).flatten = List.replicate k '\n' := by
  induction k with
  | zero => rfl
  | succ k ih => rw [List.replicate_succ, List.flatten_cons, ih]; rfl

/-- A text with no header inside opens a segment, which is still open after it and after `k` empty
lines. -/
theorem Opens.segmentsFrom_append {x : Dialect} {text : List Char} (h : Opens x text)
    (huncut : innerCuts text = 0) (k : Nat) (current : Option OpenSegment) (number offset : Nat)
    (ms : List (List Char)) :
    ∃ s number' offset', IsSegmentOf (x, text) s.close ∧
      segmentsFrom current true number offset
          (documentLines text ++ List.replicate k emptyLine ++ ms) =
        (segmentsFrom (some s) (endsBlank (endsBlank true (documentLines text))
          (List.replicate k emptyLine)) number' offset' ms).map
            ((current.map OpenSegment.close).toList ++ ·) := by
  obtain ⟨l, ls, hls, hx⟩ := h.head
  have hcuts : cuts (isBlankLine l) (ls ++ List.replicate k emptyLine) = 0 := by
    rw [cuts_append, cuts_emptyLines]
    simpa [innerCuts, hls] using huncut
  obtain ⟨number', offset', h'⟩ := segmentsFrom_of_cuts_eq_zero
    ⟨x, number, offset, [l]⟩ (number + 1) (offset + l.length) hcuts ms
  refine ⟨⟨x, number, offset, l :: (ls ++ List.replicate k emptyLine)⟩, number', offset',
    ⟨rfl, k, ?_⟩, ?_⟩
  · rw [OpenSegment.close, ← List.cons_append, ← hls, List.flatten_append, flatten_documentLines,
      flatten_emptyLines]
  · rw [hls, List.append_assoc, List.cons_append, segmentsFrom_header hx, ← List.append_assoc, h',
      endsBlank, endsBlank, endsBlank, List.foldl_append]
    rfl

/-- The `texts` with no header inside have one segment each, in their order. -/
theorem Spaced.segmentsFrom_of_uncut {texts : List (Dialect × List Char)} {doc : List Char}
    (h : Spaced texts doc) (huncut : ∀ p ∈ texts, innerCuts p.2 = 0)
    (current : Option OpenSegment) (number offset : Nat) :
    ∃ segs, segmentsFrom current true number offset (documentLines doc) =
        .ok ((current.map OpenSegment.close).toList ++ segs) ∧
      List.Forall₂ IsSegmentOf texts segs := by
  induction h generalizing current number offset with
  | @last x text h k =>
    obtain ⟨s, number', offset', hs, h'⟩ := h.segmentsFrom_append (huncut (x, text) (by simp)) k
      current number offset []
    refine ⟨[s.close], ?_, .cons hs .nil⟩
    rw [h.documentLines_append, documentLines_newlines, ← List.append_nil (_ ++ _), h']
    rfl
  | @cons x text h k rest doc hrest ih =>
    obtain ⟨hcut, hcuts⟩ := List.forall_mem_cons.1 huncut
    obtain ⟨s, number', offset', hs, h'⟩ := h.segmentsFrom_append hcut (k + 1)
      current number offset (documentLines doc)
    obtain ⟨segs, hsegs, hall⟩ := ih hcuts (some s) number' offset'
    refine ⟨s.close :: segs, ?_, .cons hs hall⟩
    rw [h.documentLines_append, documentLines_newlines_append, ← List.append_assoc, h',
      endsBlank_emptyLines, hsegs]
    rfl

/-! ### Whole documents -/

/-- Where there are no more segments than `texts`, no text has a header inside, because each text
has at least one. -/
theorem uncut_of_sum_eq {texts : List (Dialect × List Char)}
    (h : (texts.map fun p => 1 + innerCuts p.2).sum ≤ texts.length) :
    ∀ p ∈ texts, innerCuts p.2 = 0 := by
  have hle : ∀ texts : List (Dialect × List Char),
      texts.length ≤ (texts.map fun p => 1 + innerCuts p.2).sum := by
    intro texts
    induction texts with
    | nil => simp
    | cons p texts ih => simp only [List.map_cons, List.sum_cons, List.length_cons]; omega
  induction texts with
  | nil => nofun
  | cons p texts ih =>
    have := hle texts
    simp only [List.map_cons, List.sum_cons, List.length_cons] at h
    exact List.forall_mem_cons.2 ⟨by omega, ih (by omega)⟩

/-- Empty lines at the start of a document belong to no segment. -/
theorem segmentsFrom_none_emptyLines (k number offset : Nat) (ls : List (List Char)) :
    segmentsFrom none true number offset (List.replicate k emptyLine ++ ls) =
      segmentsFrom none true (number + k) (offset + k) ls := by
  induction k generalizing number offset with
  | zero => rfl
  | succ k ih =>
    have hblank : isBlankLine emptyLine = true := by decide
    rw [List.replicate_succ, List.cons_append, segmentsFrom_blank hblank dialect?_emptyLine, ih,
      emptyLine, List.length_singleton]
    congr 1 <;> omega

/-- A document has one segment for each of its texts, and one for each header inside a text. Empty
lines may come before it. -/
theorem Spaced.length_segments {texts : List (Dialect × List Char)} {doc : List Char}
    (h : Spaced texts doc) (k : Nat) :
    ∃ segs, segments (String.ofList (List.replicate k '\n' ++ doc)) = .ok segs ∧
      segs.length = (texts.map fun p => 1 + innerCuts p.2).sum := by
  rw [segments, String.toList_ofList, documentLines_newlines_append, segmentsFrom_none_emptyLines,
    ← h.cuts_eq]
  obtain ⟨l, ls, x, hls, hx⟩ := h.exists_header
  rw [hls, segmentsFrom_header hx]
  obtain ⟨segs, hsegs, hlen⟩ := length_segmentsFrom_some ⟨x, 1 + k, 0 + k, [l]⟩ (isBlankLine l)
    (1 + k + 1) (0 + k + l.length) ls
  rw [hsegs]
  exact ⟨segs, rfl, by simp [hlen, cuts, hx]⟩

/-- A document of `texts` with no header inside has one segment for each of them. -/
theorem Spaced.segments_of_uncut {texts : List (Dialect × List Char)} {doc : List Char}
    (h : Spaced texts doc) (huncut : ∀ p ∈ texts, innerCuts p.2 = 0) (k : Nat) :
    ∃ segs, segments (String.ofList (List.replicate k '\n' ++ doc)) = .ok segs ∧
      List.Forall₂ IsSegmentOf texts segs := by
  rw [segments, String.toList_ofList, documentLines_newlines_append, segmentsFrom_none_emptyLines]
  exact h.segmentsFrom_of_uncut huncut none _ _

/-- A document `src` that is cut at all has a segment. -/
theorem segments_ne_nil {src : String} {segs : List Segment} (h : segments src = .ok segs) :
    segs ≠ [] := by
  have hopen : ∀ (ls : List (List Char)) (number offset : Nat),
      segmentsFrom none true number offset ls = .ok segs → segs ≠ [] := by
    intro ls
    induction ls with
    | nil => exact fun _ _ h => nomatch h
    | cons l ls ih =>
      intro number offset h
      cases hd : Header.dialect? l with
      | some x =>
        obtain ⟨segs', hsegs', hlen⟩ := length_segmentsFrom_some ⟨x, number, offset, [l]⟩
          (isBlankLine l) (number + 1) (offset + l.length) ls
        rw [segmentsFrom_header hd, hsegs'] at h
        cases h
        rintro hnil
        rw [List.append_eq_nil_iff] at hnil
        rw [hnil.2, List.length_nil] at hlen
        omega
      | none =>
        cases hblank : isBlankLine l with
        | true => exact ih _ _ ((segmentsFrom_blank hblank hd number offset ls).symm.trans h)
        | false => simp [segmentsFrom, hd, hblank] at h
  exact hopen _ _ _ h

/-- The text `src` of a segment `s` is part of its document: its lines are some of the lines
there. -/
theorem text_sublist {src : String} {segs : List Segment} (h : segments src = .ok segs)
    {s : Segment} (hs : s ∈ segs) : s.text.toList.Sublist src.toList := by
  -- a segment is made of the lines of an open segment and of those that are still to be read
  have hopen : ∀ (ls : List (List Char)) (current : Option OpenSegment) (b : Bool)
      (number offset : Nat) (segs : List Segment),
      segmentsFrom current b number offset ls = .ok segs → ∀ s ∈ segs,
        s.text.toList.Sublist
          ((current.toList.flatMap fun o => o.lines.flatten) ++ ls.flatten) := by
    have hclose : ∀ o : OpenSegment, o.close.text.toList = o.lines.flatten :=
      fun o => String.toList_ofList
    intro ls
    induction ls with
    | nil =>
      intro current b number offset segs h s hs
      cases current with
      | none => cases h
      | some o =>
        cases h
        rw [List.mem_singleton.1 hs, hclose]
        simp
    | cons l ls ih =>
      intro current b number offset segs h s hs
      rw [segmentsFrom.eq_def] at h
      dsimp only at h
      split at h
      · next x hx =>
        obtain ⟨later, hlater, hsegs⟩ := Except.bind_eq_ok_iff.1 h
        cases hsegs
        rcases List.mem_append.1 hs with hs | hs
        · obtain ⟨o, ho, rfl⟩ := Option.map_eq_some_iff.1 (Option.mem_toList.1 hs)
          rw [hclose, ho]
          simp
        · have hrest := ih _ _ _ _ _ hlater s hs
          refine List.Sublist.trans ?_ (List.sublist_append_right _ _)
          simpa using hrest
      · cases current with
        | some o =>
          have hrest := ih _ _ _ _ _ h s hs
          simpa [OpenSegment.push] using hrest
        | none =>
          dsimp only at h
          split at h
          · exact (ih _ _ _ _ _ h s hs).trans (List.sublist_append_right l _)
          · cases h
  have hrest := hopen _ _ _ _ _ _ h s hs
  rwa [flatten_documentLines] at hrest

/-- What stands in a segment `s` stands in its document, whatever character it is. -/
theorem mem_of_mem_text {src : String} {segs : List Segment} (h : segments src = .ok segs)
    {s : Segment} (hs : s ∈ segs) {c : Char} (hc : c ∈ s.text.toList) : c ∈ src.toList :=
  (text_sublist h hs).mem hc

end Document

end DiagramText
