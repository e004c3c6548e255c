import DiagramText.Proofs.Text.Blank
import DiagramText.Proofs.Text.Place

/-!
# Texts in another layout

Two texts are the same but for their layout if their lines are, one by one. Any break may end a
line. Where places do not matter, a line may also be indented otherwise, and a comment may stand on
a line with nothing else on it.

* `Text.Relaid P`: two texts are the same but for their layout, `P` being the positions that count
  as related.
* `Text.Relaid.refl`, `Text.Relaid.indent`, `Text.Relaid.after_newline`: the same text, the same
  text with blanks before it, and what comes behind a line feed.
-/

namespace DiagramText.Text

/-! ### Breaks between lines -/

/-- A break `t` that ends a line before what follows: a carriage return does so unless a line feed
follows it, with which it is one break. -/
def EndsBefore (t rest : List Char) : Prop :=
  t ∈ terminators ∧ (t = ['\r'] → rest.head? ≠ some '\n')

theorem endsBefore_newline (rest : List Char) : EndsBefore ['\n'] rest :=
  ⟨by decide, fun h => absurd h (by decide)⟩

/-- A break is that of a line of tokens and that of a line of a document, since every class of
breaks has `'\n'` and `'\r'`. -/
theorem EndsBefore.cases {breaks : Char → Bool} (hlf : breaks '\n' = true)
    (hcr : breaks '\r' = true) {t rest : List Char} (h : EndsBefore t rest) :
    t = ['\r', '\n'] ∨ ∃ c, t = [c] ∧ breaks c = true ∧ (c = '\r' → rest.head? ≠ some '\n') := by
  obtain ⟨ht, hseam⟩ := h
  simp only [terminators, List.mem_cons, List.not_mem_nil, or_false] at ht
  rcases ht with rfl | rfl | rfl
  · exact .inr ⟨'\n', rfl, hlf, fun h => absurd h (by decide)⟩
  · exact .inl rfl
  · exact .inr ⟨'\r', rfl, hcr, fun _ => hseam rfl⟩

theorem EndsBefore.ne_nil {t rest : List Char} (h : EndsBefore t rest) : t ≠ [] := by
  rintro rfl
  exact absurd h.1 (by decide)

/-- Characters that break no line belong to the first line `l`, whatever that was before. -/
theorem lines_append_of_unbroken {breaks : Char → Bool} (hcr : breaks '\r' = true)
    {x : List Char} (hx : ∀ c ∈ x, breaks c = false) {cs : List Char} {l : Line} {ls : List Line}
    (h : lines breaks cs = l :: ls) :
    lines breaks (x ++ cs) = ⟨x ++ l.content, l.terminator⟩ :: ls := by
  induction x with
  | nil => exact h
  | cons c x ih =>
    obtain ⟨hc, hx⟩ := List.forall_mem_cons.1 hx
    have hr : c ≠ '\r' := by
      rintro rfl
      rw [hcr] at hc
      cases hc
    rw [List.cons_append, lines_cons fun h => absurd h hr, if_neg (by simp [hc]), ih hx]
    rfl

theorem lines_singleton {breaks : Char → Bool} (hcr : breaks '\r' = true) {x : List Char}
    (hx : ∀ c ∈ x, breaks c = false) : lines breaks x = [⟨x, []⟩] := by
  have h := @lines_append_of_unbroken breaks hcr x hx [] _ _ rfl
  rwa [List.append_nil] at h

/-- A break `t` behind characters that break no line ends the first line, and the lines of the rest
follow. -/
theorem lines_break {breaks : Char → Bool} (hcr : breaks '\r' = true) {x t rest : List Char}
    (hx : ∀ c ∈ x, breaks c = false) (ht : t = ['\r', '\n'] ∨
      ∃ c, t = [c] ∧ breaks c = true ∧ (c = '\r' → rest.head? ≠ some '\n')) :
    lines breaks (x ++ (t ++ rest)) = ⟨x, t⟩ :: lines breaks rest := by
  have hfirst : lines breaks (t ++ rest) = ⟨[], t⟩ :: lines breaks rest := by
    rcases ht with rfl | ⟨c, rfl, hc, hseam⟩
    · exact lines_crlf rest
    · rw [List.singleton_append, lines_cons hseam, if_pos hc]
  have h := lines_append_of_unbroken hcr hx hfirst
  rwa [List.append_nil] at h

theorem documentLines_break {x t rest : List Char} (hx : ∀ c ∈ x, isDocumentBreak c = false)
    (ht : t = ['\r', '\n'] ∨
      ∃ c, t = [c] ∧ isDocumentBreak c = true ∧ (c = '\r' → rest.head? ≠ some '\n')) :
    documentLines (x ++ (t ++ rest)) = (x ++ t) :: documentLines rest := by
  have hne : t ≠ [] := by
    rcases ht with rfl | ⟨c, rfl, -⟩ <;> exact List.cons_ne_nil _ _
  rw [documentLines, lines_break (by decide) hx ht, List.map_cons, Line.full,
    List.filter_cons_of_pos (by simp [hne])]
  rfl

theorem documentLines_singleton {x : List Char} (hx : ∀ c ∈ x, isDocumentBreak c = false)
    (hne : x ≠ []) : documentLines x = [x] := by
  rw [documentLines, lines_singleton (by decide) hx, List.map_singleton, Line.full,
    List.append_nil, List.filter_cons_of_pos (by simp [hne]), List.filter_nil]

/-! ### Lines in another layout -/

/-- Characters `cs` that all stand on one line of tokens. -/
def OnOneLine (cs : List Char) : Prop := ∀ c ∈ cs, isLineBreak c = false

theorem OnOneLine.append {a b : List Char} (ha : OnOneLine a) (hb : OnOneLine b) :
    OnOneLine (a ++ b) := List.forall_mem_append.2 ⟨ha, hb⟩

theorem OnOneLine.of_append {a b : List Char} (h : OnOneLine (a ++ b)) :
    OnOneLine a ∧ OnOneLine b := List.forall_mem_append.1 h

/-- A text `cs` is its first line alone, or its first line with a break, and a shorter text. Proofs
about two layouts go by this, and not by characters. -/
theorem inductionOnLines {motive : List Char → Prop} (last : ∀ x, OnOneLine x → motive x)
    (cons : ∀ x t cs, OnOneLine x → EndsBefore t cs → motive cs → motive (x ++ (t ++ cs)))
    (cs : List Char) : motive cs := by
  induction hlen : cs.length using Nat.strongRecOn generalizing cs with
  | _ len ih =>
    rcases @lines_cases isLineBreak cs with ⟨-, hx⟩ | ⟨x, t, rest, rfl, -, hx, ht⟩
    · exact last cs hx
    · have hends : EndsBefore t rest := mem_terminators ht
      refine cons x t rest hx hends (ih rest.length ?_ rest rfl)
      have hpos := List.length_pos_iff.2 hends.ne_nil
      rw [List.length_append, List.length_append] at hlen
      omega

/-- Spaces and tabs break no line, not even one of a document. -/
theorem isDocumentBreak_of_isSpaceOrTab {c : Char} (h : isSpaceOrTab c = true) :
    isDocumentBreak c = false := by
  obtain rfl | rfl : c = ' ' ∨ c = '\t' := by simpa [isSpaceOrTab] using h
  · decide
  · decide

theorem onOneLine_of_blank {b : List Char} (hb : ∀ c ∈ b, isSpaceOrTab c = true) : OnOneLine b :=
  fun c hc => isLineBreak_eq_false (isDocumentBreak_of_isSpaceOrTab (hb c hc))

/-- Every break of a line of a document is a blank, so a trimmed text may lose it. -/
theorem isBlank_of_isDocumentBreak {c : Char} (h : isDocumentBreak c = true) :
    isBlank c = true := by
  simp only [isDocumentBreak, Bool.or_eq_true, Bool.and_eq_true, decide_eq_true_eq,
    beq_iff_eq] at h
  simp only [isBlank, Bool.or_eq_true, Bool.and_eq_true, decide_eq_true_eq, beq_iff_eq]
  omega

/-- A line `cs` with nothing to read: spaces and tabs, and maybe a comment behind them. -/
structure IsSilent (cs : List Char) : Prop where
  unbroken : ∀ c ∈ cs, isDocumentBreak c = false
  split : ∃ b y, cs = b ++ y ∧ (∀ c ∈ b, isSpaceOrTab c = true) ∧ (y = [] ∨ ['%', '%'] <+: y)

theorem isSilent_of_blank {b : List Char} (hb : ∀ c ∈ b, isSpaceOrTab c = true) : IsSilent b where
  unbroken c hc := isDocumentBreak_of_isSpaceOrTab (hb c hc)
  split := ⟨b, [], (List.append_nil b).symm, hb, .inl rfl⟩

/-- A comment after spaces and tabs is nothing to read. -/
theorem isSilent_comment {b x : List Char} (hb : ∀ c ∈ b, isSpaceOrTab c = true) (hx : Plain x) :
    IsSilent (b ++ ('%' :: '%' :: x)) where
  unbroken := by
    refine List.forall_mem_append.2 ⟨(isSilent_of_blank hb).unbroken, ?_⟩
    refine List.forall_mem_cons.2 ⟨by decide, List.forall_mem_cons.2 ⟨by decide, fun c hc => ?_⟩⟩
    cases hbreak : isDocumentBreak c with
    | false => rfl
    | true =>
      have hblank := isDocumentBreak_of_isSpaceOrTab (hx c hc (isBlank_of_isDocumentBreak hbreak))
      rw [hbreak] at hblank
      exact hblank
  split := ⟨b, _, rfl, hb, .inr ⟨x, rfl⟩⟩

theorem IsSilent.onOneLine {cs : List Char} (h : IsSilent cs) : OnOneLine cs :=
  fun c hc => isLineBreak_eq_false (h.unbroken c hc)

/-- Blanks `b` before a line with nothing to read leave it one, so silent lines may be indented. -/
theorem IsSilent.indent {b cs : List Char} (hb : ∀ c ∈ b, isSpaceOrTab c = true)
    (h : IsSilent cs) : IsSilent (b ++ cs) := by
  obtain ⟨b', y, rfl, hb', hy⟩ := h.split
  refine ⟨List.forall_mem_append.2 ⟨(isSilent_of_blank hb).unbroken, h.unbroken⟩, b ++ b', y, ?_,
    List.forall_mem_append.2 ⟨hb, hb'⟩, hy⟩
  rw [List.append_assoc]

section

variable (P : Position → Position → Prop)

/-- The same characters, with other spaces and tabs before them if places do not matter, that is, if
`P` relates all positions. -/
inductive Indented : List Char → List Char → Prop
  | same (x : List Char) : Indented x x
  | blanks (hP : ∀ p q, P p q) {b b' : List Char} (hb : ∀ c ∈ b, isSpaceOrTab c = true)
      (hb' : ∀ c ∈ b', isSpaceOrTab c = true) (x : List Char) : Indented (b ++ x) (b' ++ x)

/-- What stands on two lines that are read alike. -/
inductive SameContent : List Char → List Char → Prop
  | indented {x x' : List Char} (h : Indented P x x') : SameContent x x'
  | silent (hP : ∀ p q, P p q) {x x' : List Char} (hx : IsSilent x) (hx' : IsSilent x') :
      SameContent x x'

/-- Texts that are the same but for their layout: as many lines, of which each is read like its
counterpart. -/
inductive Relaid : List Char → List Char → Prop
  | last {x x' : List Char} (h : SameContent P x x') (hx : OnOneLine x) (hx' : OnOneLine x') :
      Relaid x x'
  | cons {x x' t t' cs cs' : List Char} (h : SameContent P x x') (hx : OnOneLine x)
      (hx' : OnOneLine x') (ht : EndsBefore t cs) (ht' : EndsBefore t' cs')
      (rest : Relaid cs cs') : Relaid (x ++ (t ++ cs)) (x' ++ (t' ++ cs'))

end

variable {P : Position → Position → Prop}

theorem Indented.append {x x' : List Char} (h : Indented P x x') (y : List Char) :
    Indented P (x ++ y) (x' ++ y) := by
  cases h with
  | same x => exact .same _
  | blanks hP hb hb' x =>
    rw [List.append_assoc, List.append_assoc]
    exact .blanks hP hb hb' _

/-- Where places do not matter, any blanks `b` and `b'` may stand before a line, in the one text and
in the other. -/
theorem SameContent.indent (hP : ∀ p q, P p q) {b b' x x' : List Char}
    (hb : ∀ c ∈ b, isSpaceOrTab c = true) (hb' : ∀ c ∈ b', isSpaceOrTab c = true)
    (h : SameContent P x x') : SameContent P (b ++ x) (b' ++ x') := by
  cases h with
  | silent _ hx hx' => exact .silent hP (hx.indent hb) (hx'.indent hb')
  | indented h =>
    refine .indented ?_
    cases h with
    | same => exact .blanks hP hb hb' x
    | @blanks _ d d' hd hd' x =>
      rw [← List.append_assoc, ← List.append_assoc]
      exact .blanks hP (List.forall_mem_append.2 ⟨hb, hd⟩) (List.forall_mem_append.2 ⟨hb', hd'⟩) x

namespace Relaid

theorem refl (cs : List Char) : Relaid P cs cs := by
  induction cs using inductionOnLines with
  | last x hx => exact .last (.indented (.same x)) hx hx
  | cons x t cs hx ht ih => exact .cons (.indented (.same x)) hx hx ht ht ih

/-- Where places do not matter, texts may be indented by blanks `b` and `b'`, each by its own. -/
theorem indent (hP : ∀ p q, P p q) {b b' cs cs' : List Char}
    (hb : ∀ c ∈ b, isSpaceOrTab c = true) (hb' : ∀ c ∈ b', isSpaceOrTab c = true)
    (h : Relaid P cs cs') : Relaid P (b ++ cs) (b' ++ cs') := by
  have hline := onOneLine_of_blank hb
  have hline' := onOneLine_of_blank hb'
  cases h with
  | last h hx hx' => exact .last (h.indent hP hb hb') (hline.append hx) (hline'.append hx')
  | cons h hx hx' ht ht' rest =>
    rw [← List.append_assoc b, ← List.append_assoc b']
    exact .cons (h.indent hP hb hb') (hline.append hx) (hline'.append hx') ht ht' rest

/-- What comes behind a line feed may be laid out otherwise, and what comes before it, `y`,
stays. -/
theorem after_newline {cs cs' : List Char} (h : Relaid P cs cs') (y : List Char) :
    Relaid P (y ++ '\n' :: cs) (y ++ '\n' :: cs') := by
  have hbreak : ∀ (x cs : List Char), x ++ '\n' :: cs = x ++ (['\n'] ++ cs) := fun _ _ => rfl
  induction y using inductionOnLines with
  | last x hx =>
    rw [hbreak, hbreak]
    exact .cons (.indented (.same x)) hx hx (endsBefore_newline _) (endsBefore_newline _) h
  | cons x t ys hx ht ih =>
    by_cases hseam : t = ['\r'] ∧ ys = []
    · -- the line feed belongs to the break before it
      obtain ⟨rfl, rfl⟩ := hseam
      have hcrlf : ∀ cs, x ++ (['\r'] ++ []) ++ '\n' :: cs = x ++ (['\r', '\n'] ++ cs) :=
        fun cs => by simp
      rw [hcrlf, hcrlf]
      exact .cons (.indented (.same x)) hx hx ⟨by decide, nofun⟩ ⟨by decide, nofun⟩ h
    · have hends : ∀ cs, EndsBefore t (ys ++ '\n' :: cs) := by
        refine fun cs => ⟨ht.1, fun hr => ?_⟩
        obtain ⟨c, ys, rfl⟩ := List.exists_cons_of_ne_nil fun hnil => hseam ⟨hr, hnil⟩
        exact ht.2 hr
      rw [List.append_assoc, List.append_assoc, List.append_assoc, List.append_assoc]
      exact .cons (.indented (.same x)) hx hx (hends cs) (hends cs') ih

end Relaid

/-! ### Changing the layout -/

/-- A text `cs` with the given characters before its lines, which may differ from line to line. -/
def indentLines (pads : Nat → List Char) (cs : List Char) : List Char :=
  ((lines isLineBreak cs).mapIdx fun i l => pads i ++ l.full).flatten

theorem indentLines_break (pads : Nat → List Char) {x t rest : List Char} (hx : OnOneLine x)
    (ht : EndsBefore t rest) : indentLines pads (x ++ (t ++ rest)) =
      pads 0 ++ x ++ (t ++ indentLines (fun i => pads (i + 1)) rest) := by
  rw [indentLines, lines_break (by decide) hx (ht.cases (by decide) (by decide)), List.mapIdx_cons,
    List.flatten_cons, Line.full, indentLines]
  simp

theorem indentLines_of_onOneLine (pads : Nat → List Char) {x : List Char} (hx : OnOneLine x) :
    indentLines pads x = pads 0 ++ x := by
  rw [indentLines, lines_singleton (by decide) hx, List.mapIdx_cons]
  simp [Line.full]

/-- Spaces and tabs before lines start no text with a line feed, so a break `t` ends its line as
before. -/
theorem EndsBefore.indentLines {pads : Nat → List Char}
    (hpads : ∀ i, ∀ c ∈ pads i, isSpaceOrTab c = true) {t cs : List Char} (h : EndsBefore t cs) :
    EndsBefore t (indentLines pads cs) := by
  refine ⟨h.1, fun hr hhead => h.2 hr ?_⟩
  -- only an empty indent lets a line feed stand first
  have hpad : ∀ rest : List Char, (pads 0 ++ rest).head? = some '\n' → rest.head? = some '\n' := by
    intro rest hrest
    cases hpad : pads 0 with
    | nil => rwa [hpad] at hrest
    | cons c b =>
      rw [hpad] at hrest
      obtain rfl : c = '\n' := by simpa using hrest
      exact absurd (hpads 0 '\n' (by rw [hpad]; exact List.mem_cons_self)) (by decide)
  have hends : ∀ {x t : List Char} (rest rest' : List Char), t ≠ [] →
      (x ++ (t ++ rest)).head? = (x ++ (t ++ rest')).head? := by
    intro x t rest rest' hne
    cases x with
    | nil =>
      obtain ⟨c, t, rfl⟩ := List.exists_cons_of_ne_nil hne
      rfl
    | cons c x => rfl
  induction cs using inductionOnLines with
  | last x hx =>
    rw [indentLines_of_onOneLine pads hx] at hhead
    exact hpad x hhead
  | cons x s cs hx hs ih =>
    rw [indentLines_break pads hx hs, List.append_assoc] at hhead
    rw [hends _ (Text.indentLines (fun i => pads (i + 1)) cs) hs.ne_nil]
    exact hpad _ hhead

/-- A text with the break `t` in place of every line feed. -/
def breakLines (t : List Char) (cs : List Char) : List Char :=
  cs.flatMap fun c => if c = '\n' then t else [c]

namespace Relaid

/-- Where places do not matter, spaces and tabs may be inserted before lines, and the text `cs` is
the same but for its layout. -/
theorem indentLines (hP : ∀ p q, P p q) {pads : Nat → List Char}
    (hpads : ∀ i, ∀ c ∈ pads i, isSpaceOrTab c = true) (cs : List Char) :
    Relaid P cs (indentLines pads cs) := by
  induction cs using inductionOnLines generalizing pads with
  | last x hx =>
    rw [indentLines_of_onOneLine pads hx]
    exact .last (.indented (.blanks hP (List.forall_mem_nil _) (hpads 0) x)) hx
      ((onOneLine_of_blank (hpads 0)).append hx)
  | cons x t cs hx ht ih =>
    have hpads' : ∀ i, ∀ c ∈ pads (i + 1), isSpaceOrTab c = true := fun i => hpads (i + 1)
    rw [indentLines_break pads hx ht]
    exact .cons (.indented (.blanks hP (List.forall_mem_nil _) (hpads 0) x)) hx
      ((onOneLine_of_blank (hpads 0)).append hx) ht (ht.indentLines hpads') (ih hpads')

/-- Every line feed may be written as the break `t`, if there is no carriage return that could join
it. -/
theorem breakLines {cs : List Char} (hcs : '\r' ∉ cs) {t : List Char}
    (ht : t = ['\r', '\n'] ∨ t = ['\r']) : Relaid P cs (breakLines t cs) := by
  have hkeep : ∀ x : List Char, OnOneLine x → Text.breakLines t x = x := by
    intro x hx
    induction x with
    | nil => rfl
    | cons c x ih =>
      obtain ⟨hc, hx⟩ := List.forall_mem_cons.1 hx
      have hne : c ≠ '\n' := by
        rintro rfl
        cases hc
      rw [Text.breakLines, List.flatMap_cons, if_neg hne, ← Text.breakLines, ih hx]
      rfl
  have hhead : ∀ cs : List Char, (Text.breakLines t cs).head? ≠ some '\n' := by
    intro cs
    cases cs with
    | nil => nofun
    | cons c cs =>
      rw [Text.breakLines, List.flatMap_cons]
      by_cases hc : c = '\n'
      · rw [if_pos hc]
        rcases ht with rfl | rfl
        · simp
        · simp
      · rw [if_neg hc]
        simpa using hc
  induction cs using inductionOnLines with
  | last x hx =>
    rw [hkeep x hx]
    exact .last (.indented (.same x)) hx hx
  | cons x s cs hx hs ih =>
    -- without carriage returns the break is a line feed
    obtain rfl : s = ['\n'] := by
      have hmem := hs.1
      simp only [terminators, List.mem_cons, List.not_mem_nil, or_false] at hmem
      rcases hmem with rfl | rfl | rfl
      · rfl
      · simp at hcs
      · simp at hcs
    have hbreak : Text.breakLines t (x ++ (['\n'] ++ cs)) = x ++ (t ++ Text.breakLines t cs) := by
      rw [Text.breakLines, List.flatMap_append, ← Text.breakLines, hkeep x hx]
      rfl
    have hends : EndsBefore t (Text.breakLines t cs) := by
      refine ⟨?_, fun _ => hhead cs⟩
      rcases ht with rfl | rfl <;> decide
    rw [hbreak]
    refine .cons (.indented (.same x)) hx hx hs hends (ih fun hmem => hcs ?_)
    simp [hmem]

/-- One line `l` may be replaced, where no carriage return can join the break before it to its own.
The other lines stay as they are. -/
theorem replaceLine {cs : List Char} (hcs : '\r' ∉ cs) {before after : List Line} {l : Line}
    (hlines : lines isLineBreak cs = before ++ l :: after) {y : List Char} (hy : OnOneLine y)
    (h : SameContent P l.content y) :
    Relaid P cs ((before ++ ⟨y, l.terminator⟩ :: after).flatMap Line.full) := by
  induction cs using inductionOnLines generalizing before with
  | last x hx =>
    rw [lines_singleton (by decide) hx] at hlines
    cases before with
    | nil =>
      obtain ⟨rfl, rfl⟩ := List.cons.inj hlines
      simp only [List.nil_append, List.flatMap_singleton, Line.full, List.append_nil]
      exact .last h hx hy
    | cons m before => simp at hlines
  | cons x t cs hx ht ih =>
    have hbreak : lines isLineBreak (x ++ (t ++ cs)) = ⟨x, t⟩ :: lines isLineBreak cs :=
      lines_break (by decide) hx (ht.cases (by decide) (by decide))
    have hcr : t ≠ ['\r'] := by
      rintro rfl
      simp at hcs
    have hends : ∀ rest : List Char, EndsBefore t rest := fun _ => ⟨ht.1, fun hr => absurd hr hcr⟩
    rw [hbreak] at hlines
    -- The line is the first one, or it is one of the rest.
    cases before with
    | nil =>
      obtain ⟨rfl, rfl⟩ := List.cons.inj hlines
      rw [List.nil_append, List.flatMap_cons, Line.full, List.append_assoc]
      have hrest : (lines isLineBreak cs).flatMap Line.full = cs := by
        rw [List.flatMap_def, flatten_lines]
      rw [hrest]
      exact .cons h hx hy ht ht (.refl cs)
    | cons m before =>
      obtain ⟨rfl, hrest⟩ := List.cons.inj hlines
      rw [List.cons_append, List.flatMap_cons, Line.full, List.append_assoc]
      exact .cons (.indented (.same x)) hx hx ht (hends _)
        (ih (fun hmem => hcs (by simp [hmem])) hrest)

end Relaid
end DiagramText.Text
