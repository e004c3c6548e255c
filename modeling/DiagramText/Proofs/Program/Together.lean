import DiagramText.Proofs.Classes.Reader
import DiagramText.Proofs.Entities.Reader
import DiagramText.Proofs.Gantt.Reader
import DiagramText.Proofs.Program.Write
import DiagramText.Proofs.Result
import DiagramText.Proofs.Token.Place

/-!
# Diagrams written together

A document of several written diagrams reads back exactly if each of the diagrams does on its own:
the document is cut where the diagrams start, and neither its place nor the empty lines after it
matter to a diagram.

* `Program.readsBack_iff`: a program reads back if and only if its diagrams do, one by one.
* `Program.read_together`: documents of such diagrams can also be joined.
-/

namespace DiagramText

/-! ### Single diagrams -/

/-- Reading a diagram does not depend on places, whatever its dialect. -/
theorem Reading.alike_diagram {P : Position → Position → Prop} (x : Dialect) :
    Alike P (fun d e => d.unplaced = e.unplaced) (diagram x) (diagram x) := by
  cases x with
  | flowchart => exact Flowchart.alike_read.map fun _ _ h => congrArg Diagram.flowchart h
  | sequence => exact Sequence.alike_read.map fun _ _ h => congrArg Diagram.sequence h
  | classes => exact Classes.alike_read.map fun _ _ h => congrArg Diagram.classes h
  | entities => exact Entities.alike_read.map fun _ _ h => congrArg Diagram.entities h
  | states => exact States.alike_read.map fun _ _ h => congrArg Diagram.states h
  | gantt => exact Gantt.alike_read.map fun _ _ h => congrArg Diagram.gantt h

open Document Reading

/-- The segment of the text in `p` that stands alone, with its dialect: it starts on the first
line. -/
def Segment.alone (p : Dialect × List Char) : Segment := ⟨p.1, String.ofList p.2, 1, 0⟩

/-- A `text` is read in the same way alone and in a document, where empty lines may follow it. -/
theorem Segment.agree_read {x : Dialect} {text : List Char} (h : Opens x text) {s : Segment}
    (hs : IsSegmentOf (x, text) s) :
    Agree Token.AnyPlace (fun d e => d.unplaced = e.unplaced) (alone (x, text)).read s.read := by
  obtain ⟨cs, rfl⟩ := h.last
  obtain ⟨hx, k, htext⟩ := hs
  rw [read, read, tokens, tokens, hx, htext]
  exact (alike_diagram x k _ _ trivial (Token.alike_scan x cs k _ _ _ _)).agree

/-- A text alone is a single diagram, that of `d` up to positions. -/
def Reads (p : Dialect × List Char) (d : Diagram) : Prop :=
  innerCuts p.2 = 0 ∧ ∃ e, (Segment.alone p).read = .ok e ∧ e.unplaced = d.unplaced

/-! ### Documents -/

/-- A `text` is read as a diagram `d` alone if and only if it is in a document, up to positions. -/
theorem Segment.read_alone_iff {x : Dialect} {text : List Char} (h : Opens x text) {s : Segment}
    (hs : IsSegmentOf (x, text) s) (d : Diagram) :
    (∃ e, (alone (x, text)).read = .ok e ∧ e.unplaced = d) ↔
      ∃ e, s.read = .ok e ∧ e.unplaced = d := by
  have hagree := agree_read h hs
  generalize (alone (x, text)).read = r at hagree ⊢
  generalize s.read = r' at hagree ⊢
  cases hagree with
  | error _ =>
    constructor
    · rintro ⟨_, h, _⟩
      cases h
    · rintro ⟨_, h, _⟩
      cases h
  | @ok e e' hee' =>
    constructor
    · rintro ⟨_, h, hd⟩
      cases h
      exact ⟨e', rfl, by rw [← hee', hd]⟩
    · rintro ⟨_, h, hd⟩
      cases h
      exact ⟨e, rfl, by rw [hee', hd]⟩

/-- The segments of texts are read as the diagrams `ds` if and only if each text is read as the one
in its place. -/
theorem read_segments_iff {texts : List (Dialect × List Char)} {segs : List Segment}
    (hopens : ∀ p ∈ texts, Opens p.1 p.2) (hsegs : List.Forall₂ IsSegmentOf texts segs)
    (ds : List Diagram) :
    (∃ es, segs.mapM Segment.read = .ok es ∧
      es.map Diagram.unplaced = ds.map Diagram.unplaced) ↔
      List.Forall₂ (fun p d => ∃ e, (Segment.alone p).read = .ok e ∧ e.unplaced = d.unplaced)
        texts ds := by
  simp only [Except.mapM_eq_ok_iff]
  -- The induction is on the texts with their segments; the diagrams are given by either side.
  induction hsegs generalizing ds with
  | nil =>
    constructor
    · rintro ⟨es, hes, hds⟩
      cases hes
      rw [List.map_eq_nil_iff.1 hds.symm]
      exact .nil
    · intro h
      cases h
      exact ⟨[], .nil, rfl⟩
  | @cons p s texts segs hp hsegs ih =>
    obtain ⟨hopen, hopens⟩ := List.forall_mem_cons.1 hopens
    constructor
    · rintro ⟨_, hes, hds⟩
      cases hes with
      | @cons _ e _ es he hes =>
        obtain ⟨d, ds, rfl, hd, hds⟩ := List.map_eq_cons_iff.1 hds.symm
        exact .cons ((Segment.read_alone_iff hopen hp _).2 ⟨e, he, hd.symm⟩)
          ((ih hopens ds).1 ⟨es, hes, hds.symm⟩)
    · intro h
      cases h with
      | @cons _ d _ ds hd hds =>
        obtain ⟨e, he, hed⟩ := (Segment.read_alone_iff hopen hp _).1 hd
        obtain ⟨es, hes, heds⟩ := (ih hopens ds).2 hds
        exact ⟨e :: es, .cons he hes, by rw [List.map_cons, List.map_cons, hed, heds]⟩

/-- A document of texts is read as the diagrams `ds` if and only if each text is read as the one in
its place. So no text is cut, and none runs into the next. -/
theorem read_spaced_iff {texts : List (Dialect × List Char)} {doc : List Char}
    (h : Spaced texts doc) (k : Nat) {ds : List Diagram} (hlen : texts.length = ds.length) :
    (∃ q, Program.read (String.ofList (List.replicate k '\n' ++ doc)) = .ok q ∧
      q.same ⟨ds⟩ = true) ↔ List.Forall₂ Reads texts ds := by
  obtain ⟨segs, hsegs, hcount⟩ := h.length_segments k
  have hread : (∃ q, Program.read (String.ofList (List.replicate k '\n' ++ doc)) = .ok q ∧
      q.same ⟨ds⟩ = true) ↔ ∃ es, segs.mapM Segment.read = .ok es ∧
        es.map Diagram.unplaced = ds.map Diagram.unplaced := by
    simp only [Program.read, hsegs, Except.map_eq_ok_iff, Program.same, Program.unplaced,
      Program.mk.injEq, decide_eq_true_eq]
    constructor
    · rintro ⟨_, ⟨es, hes, rfl⟩, hds⟩
      exact ⟨es, hes, hds⟩
    · rintro ⟨es, hes, hds⟩
      exact ⟨_, ⟨es, hes, rfl⟩, hds⟩
  -- the segments are as many as the texts only if no text is cut inside
  have huncut : (∃ es, segs.mapM Segment.read = .ok es ∧
      es.map Diagram.unplaced = ds.map Diagram.unplaced) → ∀ p ∈ texts, innerCuts p.2 = 0 := by
    rintro ⟨es, hes, hds⟩
    have hlength := (Except.mapM_eq_ok_iff.1 hes).length_eq
    have hlength' : es.length = ds.length := by simpa using congrArg List.length hds
    exact uncut_of_sum_eq (by omega)
  have hsplit : (∀ p ∈ texts, innerCuts p.2 = 0) →
      ((∃ es, segs.mapM Segment.read = .ok es ∧
        es.map Diagram.unplaced = ds.map Diagram.unplaced) ↔
      List.Forall₂ (fun p d => ∃ e, (Segment.alone p).read = .ok e ∧ e.unplaced = d.unplaced)
        texts ds) := by
    intro huncut
    obtain ⟨segs', hsegs', hall⟩ := h.segments_of_uncut huncut k
    obtain rfl : segs = segs' := by
      rw [hsegs] at hsegs'
      exact Except.ok.inj hsegs'
    exact read_segments_iff h.opens hall ds
  rw [hread]
  constructor
  · intro hes
    have hcuts := huncut hes
    exact (List.forall₂_and_left _ _).2 ⟨hcuts, (hsplit hcuts).1 hes⟩
  · intro hall
    obtain ⟨hcuts, hall⟩ := (List.forall₂_and_left _ _).1 hall
    exact (hsplit hcuts).2 hall

namespace Program

/-- Reading what is written for a program `p` gives the program, up to positions. -/
def ReadsBack (layout : Layout) (p : Program) : Prop :=
  ∃ q, read (p.write layout) = .ok q ∧ q.same p = true

instance (layout : Layout) (p : Program) : Decidable (ReadsBack layout p) :=
  match h : read (p.write layout) with
  | .error _ => isFalse fun ⟨_, hq, _⟩ => nomatch h.symm.trans hq
  | .ok q =>
    if hsame : q.same p = true then isTrue ⟨q, h, hsame⟩
    else isFalse fun ⟨_, hq, hsame'⟩ => by cases h.symm.trans hq; exact hsame hsame'

/-- The text of a diagram `d`, with its dialect. Its last line ends with a line feed. -/
def textOf (layout : Layout) (d : Diagram) : Dialect × List Char :=
  (d.dialect, (d.write layout ++ "\n").toList)

/-- A program is written as its diagrams, one by one, with an empty line between them, if it has
any. -/
theorem spaced_write (layout : Layout) {ds : List Diagram} (hds : ds ≠ []) :
    Spaced (ds.map (textOf layout)) (write layout ⟨ds⟩).toList := by
  have hempty : ds.isEmpty = false := by simpa using hds
  rw [write, hempty, if_neg (by simp)]
  clear hempty
  induction ds with
  | nil => exact absurd rfl hds
  | cons d ds ih =>
    have hopens := d.opens_write layout
    cases ds with
    | nil => simpa [textOf] using Spaced.last hopens 0
    | cons e ds =>
      have h := Spaced.cons hopens 0 (ih (by simp))
      simpa [textOf, String.intercalate_cons_cons] using h

/-- What is written for a program is read as other diagrams `es` if and only if each of its diagrams
is read as the one in the same place. -/
theorem read_write_iff (layout : Layout) {ds es : List Diagram} (hds : ds ≠ [])
    (hlength : ds.length = es.length) :
    (∃ q, read (write layout ⟨ds⟩) = .ok q ∧ q.same ⟨es⟩ = true) ↔
      List.Forall₂ Reads (ds.map (textOf layout)) es := by
  have hlength : (ds.map (textOf layout)).length = es.length := by rw [List.length_map, hlength]
  have h := read_spaced_iff (spaced_write layout hds) 0 hlength
  rwa [List.replicate_zero, List.nil_append, String.ofList_toList] at h

theorem readsBack_iff_reads (layout : Layout) {ds : List Diagram} (hds : ds ≠ []) :
    ReadsBack layout ⟨ds⟩ ↔ List.Forall₂ Reads (ds.map (textOf layout)) ds :=
  read_write_iff layout hds rfl

/-- A program reads back if and only if its diagrams `ds` do, one by one. -/
theorem readsBack_iff (layout : Layout) {ds : List Diagram} (hds : ds ≠ []) :
    ReadsBack layout ⟨ds⟩ ↔ ∀ d ∈ ds, ReadsBack layout ⟨[d]⟩ := by
  rw [readsBack_iff_reads layout hds, List.forall₂_map_left_iff, List.forall₂_same]
  refine forall₂_congr fun d _ => ?_
  rw [readsBack_iff_reads layout (by simp), List.forall₂_map_left_iff, List.forall₂_same,
    List.forall_mem_singleton]

/-- What is written for a program `p` is nothing, or a document of its diagrams. -/
theorem spaced_write_or_empty (layout : Layout) (p : Program) :
    (p.diagrams = [] ∧ p.write layout = "") ∨
      Spaced (p.diagrams.map (textOf layout)) (p.write layout).toList := by
  obtain ⟨ds⟩ := p
  cases ds with
  | nil => exact .inl ⟨rfl, rfl⟩
  | cons d ds => exact .inr (spaced_write layout (by simp))

/-- Programs `ps` that are joined by a line feed are empty lines, or a document of their diagrams
that empty lines may precede. An empty program adds no more than an empty line. -/
theorem spaced_join (layout : Layout) (ps : List Program) :
    ∃ k, (ps.flatMap diagrams = [] ∧
        ("\n".intercalate (ps.map (write layout))).toList = List.replicate k '\n') ∨
      ∃ doc, ("\n".intercalate (ps.map (write layout))).toList = List.replicate k '\n' ++ doc ∧
        Spaced ((ps.flatMap diagrams).map (textOf layout)) doc := by
  induction ps with
  | nil => exact ⟨0, .inl ⟨rfl, rfl⟩⟩
  | cons p ps ih =>
    have hp := spaced_write_or_empty layout p
    cases ps with
    | nil =>
      rw [List.map_singleton, String.intercalate_singleton, List.flatMap_singleton]
      obtain ⟨hp, hempty⟩ | hp := hp
      · exact ⟨0, .inl ⟨hp, by rw [hempty]; rfl⟩⟩
      · exact ⟨0, .inr ⟨_, rfl, hp⟩⟩
    | cons q ps =>
      rw [List.map_cons, List.map_cons, String.intercalate_cons_cons, List.flatMap_cons,
        ← List.map_cons, String.toList_append, String.toList_append]
      -- The first program is written as nothing, or it comes before what is written for the others.
      obtain ⟨hp, hempty⟩ | hp := hp
      · obtain ⟨k, ⟨hnil, hjoin⟩ | ⟨doc, hjoin, hdoc⟩⟩ := ih
        · refine ⟨k + 1, .inl ⟨by rw [hp, hnil]; rfl, ?_⟩⟩
          rw [hempty, hjoin]
          rfl
        · refine ⟨k + 1, .inr ⟨doc, ?_, by rwa [hp]⟩⟩
          rw [hempty, hjoin]
          rfl
      · obtain ⟨k, ⟨hnil, hjoin⟩ | ⟨doc, hjoin, hdoc⟩⟩ := ih
        · have hdoc := hp.append_newlines (k + 1)
          rw [hnil, hjoin, List.append_nil, List.append_assoc]
          exact ⟨0, .inr ⟨_, rfl, hdoc⟩⟩
        · have hdoc := hp.append k hdoc
          rw [hjoin, List.append_assoc, List.map_append]
          exact ⟨0, .inr ⟨_, rfl, hdoc⟩⟩

/-- Diagrams that read back on their own do so in one program, and in several programs `ps` whose
texts are joined by a line feed. -/
theorem read_together (layout : Layout) (ps : List Program) (hps : ps.flatMap diagrams ≠ [])
    (h : ∀ d ∈ ps.flatMap diagrams, ReadsBack layout ⟨[d]⟩) :
    ReadsBack layout ⟨ps.flatMap diagrams⟩ ∧
      ∃ q, read ("\n".intercalate (ps.map (write layout))) = .ok q ∧
        q.same ⟨ps.flatMap diagrams⟩ = true := by
  have hback := (readsBack_iff layout hps).2 h
  refine ⟨hback, ?_⟩
  obtain ⟨k, ⟨hnil, -⟩ | ⟨doc, hjoin, hdoc⟩⟩ := spaced_join layout ps
  · exact absurd hnil hps
  · have hread := (read_spaced_iff hdoc k (by simp)).2 ((readsBack_iff_reads layout hps).1 hback)
    rwa [← hjoin, String.ofList_toList] at hread

/-- An empty program and programs of two dialects are read together. -/
theorem read_together_entities_gantt :
    ∃ q, read ("\n".intercalate ([⟨[.entities { entities := [{ name := "A" }] }]⟩, ⟨[]⟩,
        ⟨[.gantt {}]⟩].map (write {}))) = .ok q ∧
      q.same ⟨[.entities { entities := [{ name := "A" }] }, .gantt {}]⟩ :=
  (read_together {} [⟨[.entities { entities := [{ name := "A" }] }]⟩, ⟨[]⟩, ⟨[.gantt {}]⟩]
    (by decide) (by decide +kernel)).2

end Program
end DiagramText
