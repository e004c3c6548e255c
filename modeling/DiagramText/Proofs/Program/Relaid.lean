import DiagramText.Proofs.Document.Relaid
import DiagramText.Proofs.Program.Layout
import DiagramText.Proofs.Program.Together

/-!
# Layout has no meaning

Documents that are the same but for their layout are cut into segments that are, these are scanned
into alike tokens, and reading is alike on alike tokens. So they are read as the same program, or
both fail with an error of the same kind.

* `Program.agree_read`: reading documents that are the same but for their layout.
* `Program.agree_indented`: spaces and tabs at the starts of lines, and the indent that a program is
  written with, do not matter.
* `Program.agree_line_breaks`: the breaks between lines do not matter, not even to where an error
  is.
* `Program.agree_without_comment`: a comment that stands on a line alone does not matter.
-/

namespace DiagramText

open Text

variable {P : Position → Position → Prop}

/-- Elements that are related by `S` are read one by one, with results that are related by `R`. -/
theorem Reading.Agree.mapM {α β γ δ : Type} {S : α → β → Prop} {R : γ → δ → Prop}
    {f : α → Except Failure γ} {g : β → Except Failure δ}
    (hfg : ∀ a b, S a b → Agree P R (f a) (g b)) {as : List α} {bs : List β}
    (h : List.Forall₂ S as bs) : Agree P (List.Forall₂ R) (as.mapM f) (bs.mapM g) := by
  induction h with
  | nil => exact .ok .nil
  | @cons a b as bs hab has ih =>
    rw [List.mapM_cons, List.mapM_cons]
    exact (hfg a b hab).bind fun c d hcd => ih.bind fun cs ds hcds => .ok (.cons hcd hcds)

/-- The segments `s` and `s'`, which are the same but for their layout, are read alike: as diagrams
that are equal without positions, or with errors at related ones. -/
theorem Segment.Relaid.agree_read (hP : Position.Stable P) {s s' : Segment} (h : s.Relaid P s') :
    Reading.Agree P (fun d e => d.unplaced = e.unplaced) s.read s'.read := by
  rw [read, read, tokens, tokens, ← h.dialect]
  exact (Reading.alike_diagram s.dialect 0 _ _ trivial
    (Cursor.alike_of_relaid hP h.text h.start s.dialect)).agree

namespace Program

/-- Two results of reading are the same program, positions ignored, or errors of the same kind at
related positions. -/
abbrev SameOutcome (P : Position → Position → Prop) (r r' : Except Failure Program) : Prop :=
  Reading.Agree P (fun p q => p.same q = true) r r'

theorem read_eq (src : String) : read src =
    ((Document.segments src).mapError .malformed).bind fun segments =>
      (segments.mapM Segment.read).map mk := by
  rw [read]
  cases Document.segments src <;> rfl

/-- Documents that are the same but for their layout are read alike, if `P` relates their starts. -/
theorem agree_read (hP : Position.Stable P) (hstart : P ⟨1, 0, 0⟩ ⟨1, 0, 0⟩) {src src' : String}
    (h : Relaid P src.toList src'.toList) : SameOutcome P (read src) (read src') := by
  rw [read_eq, read_eq]
  refine (Document.agree_segments hP h hstart).bind fun segs segs' hsegs => ?_
  refine (Reading.Agree.mapM (fun s s' hs => hs.agree_read hP) hsegs).map fun ds es hds => ?_
  have hmap : ds.map Diagram.unplaced = es.map Diagram.unplaced := by
    induction hds with
    | nil => rfl
    | cons hde _ ih => rw [List.map_cons, List.map_cons, hde, ih]
  simp [same, unplaced, hmap]

/-! ### Indents -/

/-- Spaces and tabs at the starts of lines do not matter to what is read, so neither does the indent
that a program `p` is written with. -/
theorem agree_indented :
    (∀ (src : String) (pads : Nat → List Char), (∀ i, ∀ c ∈ pads i, isSpaceOrTab c = true) →
      SameOutcome Token.AnyPlace (read src)
        (read (String.ofList (indentLines pads src.toList)))) ∧
    ∀ (p : Program) (layout layout' : Layout), layout.IsBlank → layout'.IsBlank →
      SameOutcome Token.AnyPlace (read (p.write layout)) (read (p.write layout')) := by
  constructor
  · intro src pads hpads
    refine agree_read Position.stable_anyPlace trivial ?_
    rw [String.toList_ofList]
    exact .indentLines (fun _ _ => trivial) hpads src.toList
  · intro p layout layout' hlayout hlayout'
    exact agree_read Position.stable_anyPlace trivial (relaid_write hlayout hlayout' p)

/-- A diagram with a block, indented by two spaces and a tab on its second line, and written with
tabs and with no indent. -/
theorem agree_indented_entities :
    SameOutcome Token.AnyPlace (read "erDiagram\nA \x7b\nint b\n\x7d")
      (read "erDiagram\n  \tA \x7b\nint b\n\x7d") ∧
    SameOutcome Token.AnyPlace
      (read (write ⟨"\t"⟩ ⟨[.entities { entities := [{ name := "A" }] }]⟩))
      (read (write ⟨""⟩ ⟨[.entities { entities := [{ name := "A" }] }]⟩)) := by
  constructor
  · have h := agree_indented.1 "erDiagram\nA \x7b\nint b\n\x7d"
      (fun i => if i = 1 then [' ', ' ', '\t'] else []) fun i c hc => by
        split at hc
        · revert c
          decide
        · cases hc
    have htext : indentLines (fun i => if i = 1 then [' ', ' ', '\t'] else [])
        "erDiagram\nA \x7b\nint b\n\x7d".toList = "erDiagram\n  \tA \x7b\nint b\n\x7d".toList := by
          decide
    rwa [htext, String.ofList_toList] at h
  · refine agree_indented.2 _ ⟨"\t"⟩ ⟨""⟩ ?_ ?_
    · unfold Layout.IsBlank
      decide
    · unfold Layout.IsBlank
      decide

/-! ### Line breaks -/

/-- It does not matter to what is read, nor to the line and column of an error, whether all lines
end with a line feed, with a carriage return, or with both. -/
theorem agree_line_breaks (src : String) (hsrc : '\r' ∉ src.toList) (t : List Char)
    (ht : t = ['\r', '\n'] ∨ t = ['\r']) :
    SameOutcome Position.SameSpot (read src)
      (read (String.ofList (breakLines t src.toList))) := by
  refine agree_read Position.stable_sameSpot ⟨rfl, rfl⟩ ?_
  rw [String.toList_ofList]
  exact .breakLines hsrc ht

/-- An error in the third line, with either of the other breaks. -/
theorem agree_line_breaks_error :
    SameOutcome Position.SameSpot (read "gantt\nsection s\n t : 1")
      (read "gantt\r\nsection s\r\n t : 1") ∧
    SameOutcome Position.SameSpot (read "gantt\nsection s\n t : 1")
      (read "gantt\rsection s\r t : 1") := by
  have hcrlf := agree_line_breaks "gantt\nsection s\n t : 1" (by decide) ['\r', '\n'] (.inl rfl)
  have hcr := agree_line_breaks "gantt\nsection s\n t : 1" (by decide) ['\r'] (.inr rfl)
  have htext : breakLines ['\r', '\n'] "gantt\nsection s\n t : 1".toList =
      "gantt\r\nsection s\r\n t : 1".toList := by decide
  have htext' : breakLines ['\r'] "gantt\nsection s\n t : 1".toList =
      "gantt\rsection s\r t : 1".toList := by decide
  rw [htext, String.ofList_toList] at hcrlf
  rw [htext', String.ofList_toList] at hcr
  exact ⟨hcrlf, hcr⟩

/-! ### Comments -/

/-- A comment that stands on a line `l` alone, maybe after spaces and tabs, can be taken off its
line. -/
theorem agree_without_comment (src : String) (hsrc : '\r' ∉ src.toList) (before after : List Line)
    (l : Line) (hlines : lines isLineBreak src.toList = before ++ l :: after) (b x : List Char)
    (hl : l.content = b ++ ('%' :: '%' :: x)) (hb : ∀ c ∈ b, isSpaceOrTab c = true)
    (hx : Plain x) :
    SameOutcome Token.AnyPlace (read src)
      (read (String.ofList ((before ++ ⟨[], l.terminator⟩ :: after).flatMap Line.full))) := by
  refine agree_read Position.stable_anyPlace trivial ?_
  have hcomment := isSilent_comment hb hx
  rw [← hl] at hcomment
  rw [String.toList_ofList]
  exact .replaceLine hsrc hlines (List.forall_mem_nil _)
    (.silent (fun _ _ => trivial) hcomment (isSilent_of_blank (List.forall_mem_nil _)))

/-- A comment between two diagrams, which keeps them apart as the empty line does. -/
theorem agree_without_comment_between :
    SameOutcome Token.AnyPlace (read "erDiagram\n  %% next\ngantt\n")
      (read "erDiagram\n\ngantt\n") := by
  let before : List Line := [⟨"erDiagram".toList, ['\n']⟩]
  let after : List Line := [⟨"gantt".toList, ['\n']⟩, ⟨[], []⟩]
  have h := agree_without_comment "erDiagram\n  %% next\ngantt\n" (by decide) before after
    ⟨"  %% next".toList, ['\n']⟩ (by decide) [' ', ' '] " next".toList (by decide) (by decide)
    (by decide)
  have htext : (before ++ ⟨[], ['\n']⟩ :: after).flatMap Line.full =
      "erDiagram\n\ngantt\n".toList := by decide
  rwa [htext, String.ofList_toList] at h

end Program
end DiagramText
