import DiagramText.Document
import DiagramText.Proofs.Token.Relaid

/-!
# Documents in another layout

The lines of a document end at more characters than those of a text of tokens, so a line of tokens
may be several lines of a document. Of two documents that are the same but for their layout, all
these lines are the same but for the first in each line of tokens, which may be indented otherwise,
and the last, which may end otherwise; and at the very end one of the documents may have a further
line with nothing to read.

* `Document.RelaidLines P`: lines of documents that are the same but for their layout.
* `Document.agree_segments`: documents that are the same but for their layout have segments that
  are, or both have an error of one kind.
-/

namespace DiagramText

open Text

variable {P : Position → Position → Prop}

namespace Document

theorem isBlankLine_congr {l l' : List Char} (h : trim l = trim l') :
    isBlankLine l = isBlankLine l' := by
  unfold isBlankLine
  rw [h]

/-- A silent line `x` counts as a blank one, whatever its break `t`. Comments count as blank too. -/
theorem isBlankLine_of_isSilent {x t : List Char} (hx : IsSilent x)
    (ht : ∀ c ∈ t, isBlank c = true) : isBlankLine (x ++ t) = true := by
  obtain ⟨b, y, rfl, hb, hy⟩ := hx.split
  rw [isBlankLine_congr (trim_append_blanks (fun c hc => isBlank_of_isSpaceOrTab (hb c hc)) ht y)]
  rcases hy with rfl | ⟨z, rfl⟩
  · rfl
  · have hleft : trimLeft (['%', '%'] ++ z) = ['%', '%'] ++ z :=
      List.dropWhile_cons_of_neg (by decide)
    unfold isBlankLine trim
    rw [hleft, trimRight_append (by decide)]
    rfl

/-- A silent line `x` starts no diagram, whatever its break `t`. -/
theorem dialect?_of_isSilent {x t : List Char} (hx : IsSilent x)
    (ht : ∀ c ∈ t, isLineBreak c = true) : Header.dialect? (x ++ t) = none := by
  have honeLine := hx.onOneLine
  obtain ⟨b, y, rfl, hb, hy⟩ := hx.split
  have hline := reverse_dropWhile_isLineBreak honeLine.of_append.2 (List.forall_mem_nil _)
  rw [List.append_nil] at hline
  have hhead : (trimLeft y).head?.any Char.isAlpha = false := by
    rcases hy with rfl | ⟨z, rfl⟩
    · rfl
    · rw [trimLeft, List.cons_append, List.dropWhile_cons_of_neg (by decide)]
      rfl
  rw [Header.dialect?_relaid hb honeLine.of_append.2 ht]
  unfold Header.dialect?
  dsimp only
  rw [hline, hhead]
  rfl

/-- Lines that are cut off alike from documents: they are blank or a header together, and what is
not blank starts in the same column, unless `P` holds of all positions. -/
structure SameLine (P : Position → Position → Prop) (l l' : List Char) : Prop where
  blank : isBlankLine l = isBlankLine l'
  header : Header.dialect? l = Header.dialect? l'
  column : (∀ p q, P p q) ∨ (isBlankLine l = false →
    l.length - (trimLeft l).length = l'.length - (trimLeft l').length)

/-- What the break `t` of a line, or none, consists of. -/
theorem forall_mem_break {t : List Char} (ht : t = [] ∨ t ∈ terminators) :
    ∀ c ∈ t, isLineBreak c = true ∧ isBlank c = true := by
  rcases ht with rfl | ht
  · exact List.forall_mem_nil _
  · revert t
    decide

/-- Behind a line that is not blank, its break `t` does not matter to where the line starts. -/
theorem column_append {x t : List Char} (ht : ∀ c ∈ t, isBlank c = true)
    (hx : isBlankLine (x ++ t) = false) :
    (x ++ t).length - (trimLeft (x ++ t)).length = x.length - (trimLeft x).length := by
  have hne : (x.dropWhile isBlank).isEmpty = false := by
    by_contra hnil
    have hnil : trimLeft x = [] := by simpa [trimLeft] using hnil
    have htrim := trim_append_blanks (List.forall_mem_nil _) ht x
    rw [List.nil_append] at htrim
    rw [isBlankLine, htrim, trim, hnil] at hx
    cases hx
  have hskip : trimLeft (x ++ t) = trimLeft x ++ t := by
    rw [trimLeft, List.dropWhile_append, hne]
    rfl
  rw [hskip, List.length_append, List.length_append]
  omega

theorem sameLine_of_indented {x x' t t' : List Char} (h : Indented P x x') (hx : OnOneLine x)
    (ht : t = [] ∨ t ∈ terminators) (ht' : t' = [] ∨ t' ∈ terminators) :
    SameLine P (x ++ t) (x' ++ t') := by
  have hbreak := forall_mem_break ht
  have hbreak' := forall_mem_break ht'
  cases h with
  -- the breaks behind the line are blanks, and trimmed away
  | same =>
    have htrim : ∀ t : List Char, (∀ c ∈ t, isBlank c = true) → trim (x ++ t) = trim x :=
      fun t ht => trim_append_blanks (List.forall_mem_nil _) ht x
    have hblank := isBlankLine_congr
      ((htrim t fun c hc => (hbreak c hc).2).trans (htrim t' fun c hc => (hbreak' c hc).2).symm)
    refine ⟨hblank, ?_, .inr fun hnot => ?_⟩
    · have hheader := Header.dialect?_relaid (List.forall_mem_nil _) hx fun c hc => (hbreak c hc).1
      have hheader' := Header.dialect?_relaid (List.forall_mem_nil _) hx fun c hc =>
        (hbreak' c hc).1
      rw [List.nil_append] at hheader hheader'
      rw [hheader, hheader']
    · rw [column_append (fun c hc => (hbreak c hc).2) hnot,
        column_append (fun c hc => (hbreak' c hc).2) (hblank ▸ hnot)]
  | @blanks hP b b' hb hb' x =>
    have hx := hx.of_append.2
    refine ⟨isBlankLine_congr ?_, ?_, .inl hP⟩
    · rw [trim_append_blanks (fun c hc => isBlank_of_isSpaceOrTab (hb c hc))
          fun c hc => (hbreak c hc).2,
        trim_append_blanks (fun c hc => isBlank_of_isSpaceOrTab (hb' c hc))
          fun c hc => (hbreak' c hc).2]
    · rw [Header.dialect?_relaid hb hx fun c hc => (hbreak c hc).1,
        Header.dialect?_relaid hb' hx fun c hc => (hbreak' c hc).1]

theorem sameLine_of_sameContent {x x' t t' : List Char} (h : SameContent P x x')
    (hx : OnOneLine x) (ht : t ∈ terminators) (ht' : t' ∈ terminators) :
    SameLine P (x ++ t) (x' ++ t') := by
  cases h with
  | indented h => exact sameLine_of_indented h hx (.inr ht) (.inr ht')
  | silent hP hx hx' =>
    have hbreak := forall_mem_break (.inr ht)
    have hbreak' := forall_mem_break (.inr ht')
    refine ⟨?_, ?_, .inl hP⟩
    · rw [isBlankLine_of_isSilent hx fun c hc => (hbreak c hc).2,
        isBlankLine_of_isSilent hx' fun c hc => (hbreak' c hc).2]
    · rw [dialect?_of_isSilent hx fun c hc => (hbreak c hc).1,
        dialect?_of_isSilent hx' fun c hc => (hbreak' c hc).1]

/-! ### Rows of lines -/

/-- What may be left over at the end of a document: nothing, or a line with nothing to read. -/
def SilentEnd (ls : List (List Char)) : Prop := ls = [] ∨ ∃ x, IsSilent x ∧ ls = [x]

theorem silentEnd_documentLines {x : List Char} (hx : IsSilent x) :
    SilentEnd (documentLines x) := by
  by_cases hnil : x = []
  · rw [hnil]
    exact .inl rfl
  · exact .inr ⟨x, hx, documentLines_singleton hx.unbroken hnil⟩

/-- Lines of documents that are the same but for their layout. The flag `start` tells whether they
start where a line of tokens does; elsewhere nothing may be written before them. -/
inductive RelaidLines (P : Position → Position → Prop) :
    Bool → List (List Char) → List (List Char) → Prop
  | nil {start : Bool} : RelaidLines P start [] []
  | finish (hP : ∀ p q, P p q) {ls ls' : List (List Char)} (h : SilentEnd ls)
      (h' : SilentEnd ls') : RelaidLines P true ls ls'
  | part {start : Bool} {x x' : List Char} {ls ls' : List (List Char)} (h : Indented P x x')
      (hstart : start = false → x = x') (hx : OnOneLine x) (hx' : OnOneLine x')
      (rest : RelaidLines P false ls ls') : RelaidLines P start (x :: ls) (x' :: ls')
  | whole {start : Bool} {x x' t t' : List Char} {ls ls' : List (List Char)}
      (h : SameContent P x x') (hstart : start = false → x = x') (hx : OnOneLine x)
      (hx' : OnOneLine x') (ht : EndsBefore t ls.flatten) (ht' : EndsBefore t' ls'.flatten)
      (rest : RelaidLines P true ls ls') :
      RelaidLines P start ((x ++ t) :: ls) ((x' ++ t') :: ls')

/-- Texts that make relaid lines behind the same part of a line: `y` and `y'` are what already
stands on that line in either document. -/
def Follows (P : Position → Position → Prop) (cs cs' : List Char) : Prop :=
  ∀ (start : Bool) (y y' : List Char), Indented P y y' → (start = false → y = y') →
    (∀ c ∈ y, isDocumentBreak c = false) → (∀ c ∈ y', isDocumentBreak c = false) →
    RelaidLines P start (documentLines (y ++ cs)) (documentLines (y' ++ cs'))

theorem onOneLine_of_unbroken {x : List Char} (hx : ∀ c ∈ x, isDocumentBreak c = false) :
    OnOneLine x := fun c hc => isLineBreak_eq_false (hx c hc)

/-- A line may end here, or both documents. If nothing stands before, there is no line at all, and
if only blanks do, the last lines are silent. -/
theorem follows_nil : Follows P [] [] := by
  intro start y y' h hstart hy hy'
  rw [List.append_nil, List.append_nil]
  by_cases hne : y = [] ∨ y' = []
  -- Either line may be over only if both are, up to blanks.
  · cases h with
    | same =>
      rw [or_self] at hne
      rw [hne]
      exact .nil
    | @blanks hP b b' hb hb' z =>
      have hz : z = [] := by
        rcases hne with hne | hne
        · exact (List.append_eq_nil_iff.1 hne).2
        · exact (List.append_eq_nil_iff.1 hne).2
      subst hz
      rw [List.append_nil, List.append_nil] at *
      cases start with
      | true =>
        exact .finish hP (silentEnd_documentLines (isSilent_of_blank hb))
          (silentEnd_documentLines (isSilent_of_blank hb'))
      | false =>
        obtain rfl := hstart rfl
        rw [or_self] at hne
        rw [hne]
        exact .nil
  · rw [not_or] at hne
    rw [documentLines_singleton hy hne.1, documentLines_singleton hy' hne.2]
    exact .part h hstart (onOneLine_of_unbroken hy) (onOneLine_of_unbroken hy') .nil

/-- A line of tokens may end here, with any breaks `t` and `t'`. -/
theorem follows_break {t t' cs cs' : List Char} (ht : EndsBefore t cs) (ht' : EndsBefore t' cs')
    (h : RelaidLines P true (documentLines cs) (documentLines cs')) :
    Follows P (t ++ cs) (t' ++ cs') := by
  intro start y y' hyy hstart hy hy'
  rw [documentLines_break hy (ht.cases (by decide) (by decide)),
    documentLines_break hy' (ht'.cases (by decide) (by decide))]
  refine .whole (.indented hyy) hstart (onOneLine_of_unbroken hy)
    (onOneLine_of_unbroken hy') ?_ ?_ h
  · rwa [flatten_documentLines]
  · rwa [flatten_documentLines]

/-- More of the same line, `x`, may stand before. A break that only documents know cuts it. -/
theorem Follows.append {cs cs' : List Char} (h : Follows P cs cs') {x : List Char}
    (hx : OnOneLine x) : Follows P (x ++ cs) (x ++ cs') := by
  -- Character by character: one that only documents take for a break ends a line of both, and any
  -- other is added to what stands before.
  induction x with
  | nil => exact h
  | cons c x ih =>
    obtain ⟨hc, hx⟩ := List.forall_mem_cons.1 hx
    intro start y y' hyy hstart hy hy'
    rw [List.cons_append, List.cons_append]
    by_cases hbreak : isDocumentBreak c = true
    · have hr : c ≠ '\r' := by
        rintro rfl
        cases hc
      have ht : ∀ rest : List Char, [c] = ['\r', '\n'] ∨ ∃ d, [c] = [d] ∧
          isDocumentBreak d = true ∧ (d = '\r' → rest.head? ≠ some '\n') :=
        fun rest => .inr ⟨c, rfl, hbreak, fun h => absurd h hr⟩
      have hsplit : ∀ z rest : List Char, (∀ e ∈ z, isDocumentBreak e = false) →
          documentLines (z ++ c :: rest) = (z ++ [c]) :: documentLines rest :=
        fun z rest hz => documentLines_break hz (ht rest)
      rw [hsplit y _ hy, hsplit y' _ hy']
      refine .part (hyy.append [c]) (fun hs => by rw [hstart hs]) ?_ ?_
        (ih hx false [] [] (.same []) (fun _ => rfl) (List.forall_mem_nil _)
          (List.forall_mem_nil _))
      · exact (onOneLine_of_unbroken hy).append (List.forall_mem_singleton.2 hc)
      · exact (onOneLine_of_unbroken hy').append (List.forall_mem_singleton.2 hc)
    · have hsingle : ∀ e ∈ [c], isDocumentBreak e = false :=
        List.forall_mem_singleton.2 (by simpa using hbreak)
      rw [List.append_cons, List.append_cons y']
      exact ih hx start _ _ (hyy.append [c]) (fun hs => by rw [hstart hs])
        (List.forall_mem_append.2 ⟨hy, hsingle⟩) (List.forall_mem_append.2 ⟨hy', hsingle⟩)

/-- An indented line may start here, at the start of a line of tokens. -/
theorem Follows.relaidLines {x x' cs cs' : List Char} (h : Follows P cs cs')
    (hxx : Indented P x x') (hx : OnOneLine x) :
    RelaidLines P true (documentLines (x ++ cs)) (documentLines (x' ++ cs')) := by
  cases hxx with
  | same =>
    exact h.append hx true [] [] (.same []) (fun _ => rfl) (List.forall_mem_nil _)
      (List.forall_mem_nil _)
  | @blanks hP b b' hb hb' z =>
    have hindent := Indented.blanks hP hb hb' []
    rw [List.append_nil, List.append_nil] at hindent
    rw [List.append_assoc, List.append_assoc]
    exact h.append hx.of_append.2 true b b' hindent nofun (isSilent_of_blank hb).unbroken
      (isSilent_of_blank hb').unbroken

/-- The lines of the documents `cs` and `cs'`, which are the same but for their layout, are
relaid. -/
theorem relaidLines_documentLines {cs cs' : List Char} (h : Relaid P cs cs') :
    RelaidLines P true (documentLines cs) (documentLines cs') := by
  induction h with
  | @last x x' h hx hx' =>
    cases h with
    | indented h =>
      have hlines := follows_nil.relaidLines h hx
      rwa [List.append_nil, List.append_nil] at hlines
    | silent hP hx hx' =>
      exact .finish hP (silentEnd_documentLines hx) (silentEnd_documentLines hx')
  | @cons x x' t t' cs cs' h hx hx' ht ht' rest ih =>
    cases h with
    | indented h => exact (follows_break ht ht' ih).relaidLines h hx
    | silent hP hs hs' =>
      rw [documentLines_break hs.unbroken (ht.cases (by decide) (by decide)),
        documentLines_break hs'.unbroken (ht'.cases (by decide) (by decide))]
      refine .whole (.silent hP hs hs') nofun hx hx' ?_ ?_ ih
      · rwa [flatten_documentLines]
      · rwa [flatten_documentLines]

namespace RelaidLines

/-- Put together again, relaid lines are texts in another layout, also behind the parts `y` and `y'`
of a line. -/
theorem append_flatten {start : Bool} {ls ls' : List (List Char)} (h : RelaidLines P start ls ls')
    {y y' : List Char} (hyy : Indented P y y') (hy : OnOneLine y) (hy' : OnOneLine y')
    (hstart : start = true → y = [] ∧ y' = []) :
    Relaid P (y ++ ls.flatten) (y' ++ ls'.flatten) := by
  induction h generalizing y y' with
  | nil =>
    rw [List.flatten_nil, List.append_nil, List.append_nil]
    exact .last (.indented hyy) hy hy'
  -- The silent ends start where a line of tokens does, so nothing stands before them.
  | finish hP h h' =>
    obtain ⟨rfl, rfl⟩ := hstart rfl
    have hsilent : ∀ {ls : List (List Char)}, SilentEnd ls → IsSilent ls.flatten := by
      rintro ls (rfl | ⟨x, hx, rfl⟩)
      · exact isSilent_of_blank (List.forall_mem_nil _)
      · rwa [List.flatten_singleton]
    exact .last (.silent hP (hsilent h) (hsilent h')) (hsilent h).onOneLine (hsilent h').onOneLine
  -- A part of a line is joined to what stands before it, and no line of tokens ends.
  | @part start x x' ls ls' h hsame hx hx' rest ih =>
    rw [List.flatten_cons, List.flatten_cons, ← List.append_assoc, ← List.append_assoc]
    refine ih ?_ (hy.append hx) (hy'.append hx') nofun
    cases start with
    | true =>
      obtain ⟨rfl, rfl⟩ := hstart rfl
      exact h
    | false =>
      obtain rfl := hsame rfl
      exact hyy.append x
  -- The line of tokens ends here, and the next one starts at its start.
  | @whole start x x' t t' ls ls' h hsame hx hx' ht ht' rest ih =>
    have hrest := ih (.same []) (List.forall_mem_nil _) (List.forall_mem_nil _) fun _ => ⟨rfl, rfl⟩
    have hline : SameContent P (y ++ x) (y' ++ x') := by
      cases start with
      | true =>
        obtain ⟨rfl, rfl⟩ := hstart rfl
        exact h
      | false =>
        obtain rfl := hsame rfl
        exact .indented (hyy.append x)
    have hassoc : ∀ y x t r : List Char, y ++ ((x ++ t) ++ r) = (y ++ x) ++ (t ++ r) := by
      simp
    rw [List.flatten_cons, List.flatten_cons, hassoc, hassoc]
    exact .cons hline (hy.append hx) (hy'.append hx') ht ht' hrest

/-- Put together again, relaid lines are texts in another layout. Wherever the lines start, what
they make up is read from the start of a line. -/
theorem relaid {start : Bool} {ls ls' : List (List Char)} (h : RelaidLines P start ls ls') :
    Relaid P ls.flatten ls'.flatten :=
  h.append_flatten (.same []) (List.forall_mem_nil _) (List.forall_mem_nil _) fun _ => ⟨rfl, rfl⟩

/-- As many first lines of relaid lines are relaid on their own. A segment has such lines. -/
theorem left {start : Bool} {ls ls' ms ms' : List (List Char)}
    (h : RelaidLines P start (ls ++ ms) (ls' ++ ms')) (hlength : ls.length = ls'.length) :
    RelaidLines P start ls ls' := by
  induction ls generalizing start ls' with
  | nil =>
    rw [List.eq_nil_of_length_eq_zero hlength.symm]
    exact .nil
  | cons l ls ih =>
    obtain ⟨l', ls', rfl⟩ := List.exists_cons_of_length_eq_add_one hlength.symm
    have hls : ls.length = ls'.length := Nat.succ.inj hlength
    rw [List.cons_append, List.cons_append] at h
    have hflatten : ∀ {t : List Char} {as bs : List (List Char)},
        EndsBefore t (as ++ bs).flatten → EndsBefore t as.flatten := by
      refine fun h => ⟨h.1, fun hr hhead => h.2 hr ?_⟩
      rw [List.flatten_append, List.head?_append, hhead, Option.some_or]
    generalize hl : l :: (ls ++ ms) = as at h
    generalize hl' : l' :: (ls' ++ ms') = as' at h
    cases h with
    | nil => nomatch hl
    | finish hP h h' =>
      subst hl hl'
      -- If the last line is left over for all lines, it is for the first of them, or those have
      -- none left.
      have hsingle : ∀ {l : List Char} {as bs : List (List Char)}, SilentEnd (l :: (as ++ bs)) →
          SilentEnd (l :: as) := by
        rintro l as bs (h | ⟨x, hx, h⟩)
        · cases h
        · obtain ⟨rfl, hnil⟩ := List.cons.inj h
          rw [(List.append_eq_nil_iff.1 hnil).1]
          exact .inr ⟨l, hx, rfl⟩
      exact .finish hP (hsingle h) (hsingle h')
    | part h hsame hx hx' rest =>
      obtain ⟨rfl, rfl⟩ := List.cons.inj hl
      obtain ⟨rfl, rfl⟩ := List.cons.inj hl'
      exact .part h hsame hx hx' (ih rest hls)
    | whole h hsame hx hx' ht ht' rest =>
      obtain ⟨rfl, rfl⟩ := List.cons.inj hl
      obtain ⟨rfl, rfl⟩ := List.cons.inj hl'
      exact .whole h hsame hx hx' (hflatten ht) (hflatten ht') (ih rest hls)

end RelaidLines

end Document

/-! ### Segments -/

/-- Segments of one dialect that start at related places and are the same but for their layout. -/
structure Segment.Relaid (P : Position → Position → Prop) (s s' : Segment) : Prop where
  dialect : s.dialect = s'.dialect
  start : P ⟨s.line, 0, s.offset⟩ ⟨s'.line, 0, s'.offset⟩
  text : Text.Relaid P s.text.toList s'.text.toList

namespace Document

/-- Open segments that are relaid together with the lines `ls` and `ls'` that follow. -/
structure OpenSegment.Relaid (P : Position → Position → Prop) (ls ls' : List (List Char))
    (s s' : OpenSegment) : Prop where
  dialect : s.dialect = s'.dialect
  start : P ⟨s.line, 0, s.offset⟩ ⟨s'.line, 0, s'.offset⟩
  length_eq : s.lines.length = s'.lines.length
  lines : ∃ start, RelaidLines P start (s.lines ++ ls) (s'.lines ++ ls')

namespace OpenSegment.Relaid

variable {s s' : OpenSegment} {l l' : List Char} {ls ls' : List (List Char)}

/-- The next line is pushed on both segments, which are relaid with the lines behind it. -/
theorem push (h : s.Relaid P (l :: ls) (l' :: ls') s') :
    (s.push l).Relaid P ls ls' (s'.push l') where
  dialect := h.dialect
  start := h.start
  length_eq := by simp [OpenSegment.push, h.length_eq]
  lines := by
    obtain ⟨start, hlines⟩ := h.lines
    exact ⟨start, by simpa [OpenSegment.push] using hlines⟩

/-- Both segments are closed before what follows. They have as many lines, so these are relaid on
their own. -/
theorem close (h : s.Relaid P ls ls' s') : s.close.Relaid P s'.close where
  dialect := h.dialect
  start := h.start
  text := by
    obtain ⟨start, hlines⟩ := h.lines
    have hleft := (hlines.left h.length_eq).relaid
    rwa [OpenSegment.close, OpenSegment.close, String.toList_ofList, String.toList_ofList]

end OpenSegment.Relaid

/-- Before the first header, what is left over at the end of a document is skipped. -/
theorem segmentsFrom_none_of_silentEnd {ls : List (List Char)} (h : SilentEnd ls) (b : Bool)
    (number offset : Nat) :
    ∃ p, segmentsFrom none b number offset ls = .error ⟨.headerMissing, some p⟩ := by
  rcases h with rfl | ⟨x, hx, rfl⟩
  · exact ⟨_, rfl⟩
  · have hheader := dialect?_of_isSilent hx (List.forall_mem_nil _)
    have hblank := isBlankLine_of_isSilent hx (List.forall_mem_nil _)
    rw [List.append_nil] at hheader hblank
    refine ⟨⟨(number + 1 : Nat), 0, (offset + x.length : Nat)⟩, ?_⟩
    rw [segmentsFrom.eq_def]
    simp only [hheader, hblank, ite_self, if_true]
    rfl

/-- An open segment takes what is left over at the end of a document. -/
theorem segmentsFrom_some_of_silentEnd {ls : List (List Char)} (h : SilentEnd ls)
    (s : OpenSegment) (b : Bool) (number offset : Nat) :
    segmentsFrom (some s) b number offset ls = .ok [{ s with lines := s.lines ++ ls }.close] := by
  rcases h with rfl | ⟨x, hx, rfl⟩
  · rw [List.append_nil]
    rfl
  · have hheader := dialect?_of_isSilent hx (List.forall_mem_nil _)
    rw [List.append_nil] at hheader
    have huncut : (if b then Header.dialect? x else none) = none := by
      rw [hheader, ite_self]
    rw [segmentsFrom, huncut]
    rfl

/-- What segments are cut off, as far as documents in another layout agree on it: relaid segments,
or errors at related places. -/
abbrev AgreeOnSegments (P : Position → Position → Prop)
    (r r' : Except ReadError (List Segment)) : Prop :=
  Reading.Agree P (List.Forall₂ (Segment.Relaid P)) (r.mapError .malformed) (r'.mapError .malformed)

/-- The segments that are closed are more segments on both sides. -/
theorem agree_close {r r' : Except ReadError (List Segment)} (h : AgreeOnSegments P r r')
    {closed closed' : List Segment} (hclosed : List.Forall₂ (Segment.Relaid P) closed closed') :
    AgreeOnSegments P (r.bind fun later => .ok (closed ++ later))
      (r'.bind fun later => .ok (closed' ++ later)) := by
  cases r with
  | error e =>
    cases r' with
    | error e' => exact h
    | ok => nomatch h
  | ok segs =>
    cases r' with
    | error => nomatch h
    | ok segs' =>
      cases h with
      | ok h => exact .ok (List.rel_append hclosed h)

/-- Cutting off one line from each document. With the induction hypothesis `ih` for the lines behind
them, the documents agree from these lines on. -/
theorem agree_segmentsFrom_cons (hP : Position.Stable P) {l l' : List Char}
    {ls ls' : List (List Char)} (hline : SameLine P l l')
    (hlines : ∃ start, RelaidLines P start (l :: ls) (l' :: ls'))
    (ih : ∀ (current current' : Option OpenSegment) (b : Bool)
      (number offset number' offset' : Nat),
      Option.Rel (OpenSegment.Relaid P ls ls') current current' →
      P ⟨number, 0, offset⟩ ⟨number', 0, offset'⟩ →
      AgreeOnSegments P (segmentsFrom current b number offset ls)
        (segmentsFrom current' b number' offset' ls'))
    {current current' : Option OpenSegment}
    (hcurrent : Option.Rel (OpenSegment.Relaid P (l :: ls) (l' :: ls')) current current') (b : Bool)
    {number offset number' offset' : Nat}
    (hplace : P ⟨number, 0, offset⟩ ⟨number', 0, offset'⟩) :
    AgreeOnSegments P (segmentsFrom current b number offset (l :: ls))
      (segmentsFrom current' b number' offset' (l' :: ls')) := by
  have hnext : P ⟨(number + 1 : Nat), 0, (offset + l.length : Nat)⟩
      ⟨(number' + 1 : Nat), 0, (offset' + l'.length : Nat)⟩ := by
    have hdown := hP.down l.length l'.length hplace
    push_cast
    exact hdown
  rw [segmentsFrom.eq_def, segmentsFrom.eq_def current']
  dsimp only
  rw [← hline.header, ← hline.blank]
  split
  -- A header opens segments at related places, and those that were open are closed.
  · next x _ =>
    have hopened : OpenSegment.Relaid P ls ls' ⟨x, number, offset, [l]⟩
        ⟨x, number', offset', [l']⟩ := ⟨rfl, hplace, rfl, hlines⟩
    refine agree_close (ih _ _ _ _ _ _ _ (.some hopened) hnext) ?_
    cases hcurrent with
    | none => exact .nil
    | some h => exact .cons h.close .nil
  · cases hcurrent with
    | some h => exact ih _ _ _ _ _ _ _ (.some h.push) hnext
    | none =>
      -- Before the first header blank lines are passed, and at any other line both are refused at
      -- its first character.
      dsimp only
      split
      · exact ih _ _ _ _ _ _ _ .none hnext
      · next hblank =>
        have hcolumn : P ⟨number, (l.length - (trimLeft l).length : Nat), offset⟩
            ⟨number', (l'.length - (trimLeft l').length : Nat), offset'⟩ := by
          rcases hline.column with hall | hcolumn
          · exact hall _ _
          · rw [← hcolumn (by simpa using hblank)]
            exact hP.column _ hplace
        exact .error (.malformed rfl (.some hcolumn))

/-- Relaid lines are cut into segments that are relaid, or both have an error of one kind at related
places. -/
theorem agree_segmentsFrom (hP : Position.Stable P) {start : Bool} {ls ls' : List (List Char)}
    (h : RelaidLines P start ls ls') {current current' : Option OpenSegment}
    (hcurrent : Option.Rel (OpenSegment.Relaid P ls ls') current current') (b : Bool)
    {number offset number' offset' : Nat}
    (hplace : P ⟨number, 0, offset⟩ ⟨number', 0, offset'⟩) :
    AgreeOnSegments P (segmentsFrom current b number offset ls)
      (segmentsFrom current' b number' offset' ls') := by
  induction h generalizing current current' b number offset number' offset' with
  | nil =>
    cases hcurrent with
    | none => exact .error (.malformed rfl (.some hplace))
    | some h => exact .ok (.cons h.close .nil)
  | @finish hall ls ls' h h' =>
    cases hcurrent with
    -- One document may have a silent line more, so the places of the errors have nothing in common.
    | none =>
      obtain ⟨p, hp⟩ := segmentsFrom_none_of_silentEnd h b number offset
      obtain ⟨q, hq⟩ := segmentsFrom_none_of_silentEnd h' b number' offset'
      rw [hp, hq]
      exact .error (.malformed rfl (.some (hall p q)))
    | @some s s' hs =>
      rw [segmentsFrom_some_of_silentEnd h, segmentsFrom_some_of_silentEnd h']
      refine .ok (.cons ⟨hs.dialect, hs.start, ?_⟩ .nil)
      obtain ⟨start, hlines⟩ := hs.lines
      rw [OpenSegment.close, OpenSegment.close, String.toList_ofList, String.toList_ofList]
      exact hlines.relaid
  | @part start x x' ls ls' h hsame hx hx' rest ih =>
    have hline := sameLine_of_indented h hx (.inl rfl) (.inl rfl)
    rw [List.append_nil, List.append_nil] at hline
    exact agree_segmentsFrom_cons hP hline ⟨start, .part h hsame hx hx' rest⟩
      (fun _ _ b _ _ _ _ hcurrent hplace => ih hcurrent b hplace) hcurrent b hplace
  | @whole start x x' t t' ls ls' h hsame hx hx' ht ht' rest ih =>
    exact agree_segmentsFrom_cons hP (sameLine_of_sameContent h hx ht.1 ht'.1)
      ⟨start, .whole h hsame hx hx' ht ht' rest⟩
      (fun _ _ b _ _ _ _ hcurrent hplace => ih hcurrent b hplace) hcurrent b hplace

/-- Documents that are the same but for their layout have segments that are, or both have an error
of one kind. The relation `P` must hold between the starts. -/
theorem agree_segments (hP : Position.Stable P) {src src' : String}
    (h : Relaid P src.toList src'.toList) (hstart : P ⟨1, 0, 0⟩ ⟨1, 0, 0⟩) :
    AgreeOnSegments P (segments src) (segments src') :=
  agree_segmentsFrom hP (relaidLines_documentLines h) .none true hstart

end Document
end DiagramText
