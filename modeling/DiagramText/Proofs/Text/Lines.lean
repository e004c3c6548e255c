import DiagramText.Proofs.Text.Digits
import DiagramText.Text.Line

/-!
# Lines and fields of texts put together

A line feed ends a line whatever stands before it, so the lines of a text with a line feed in it are
those up to the line feed and those after it. In the same way the fields of a text are those before
a separator in it and those behind it, and its words are those before a blank and those behind it.

* `Text.lines_append` and `Text.documentLines_append` state this for both kinds of line.
* `Text.lines_of_unbroken` is the case of a single line.
* `Text.fields_append` and `Text.words_append` state it for fields and words.
* `Text.map_trim_fields`: blanks around a text do not matter to its trimmed fields.
-/

namespace DiagramText.Text

variable {breaks : Char → Bool}

/-- A text `cs` starts with a character `c` of its first line, unless that ends the line. A carriage
return with a line feed behind it is looked at elsewhere. -/
theorem lines_cons {c : Char} {cs : List Char} (h : c = '\r' → cs.head? ≠ some '\n') :
    lines breaks (c :: cs) = if breaks c then ⟨[], [c]⟩ :: lines breaks cs
      else match lines breaks cs with
        | [] => [⟨[c], []⟩]
        | l :: ls => ⟨c :: l.content, l.terminator⟩ :: ls := by
  exact lines.eq_3 breaks c cs fun ds hc hds => h hc (by rw [hds, List.head?_cons])

theorem lines_crlf (cs : List Char) :
    lines breaks ('\r' :: '\n' :: cs) = ⟨[], ['\r', '\n']⟩ :: lines breaks cs := by
  rw [lines]

theorem lines_newline (h : breaks '\n' = true) (cs : List Char) :
    lines breaks ('\n' :: cs) = ⟨[], ['\n']⟩ :: lines breaks cs := by
  rw [lines_cons fun hr => absurd hr (by decide), if_pos h]

/-- The lines of a text `xs` up to a line feed do not depend on what follows, whatever else breaks
lines. -/
theorem lines_append (h : breaks '\n' = true) (xs : List Char) :
    ∃ l ls, ∀ ys, lines breaks (xs ++ '\n' :: ys) = l :: ls ++ lines breaks ys := by
  -- The induction is on the length, since a carriage return and a line feed are taken together.
  induction hlen : xs.length using Nat.strongRecOn generalizing xs with
  | _ len ih =>
    cases xs with
    | nil => exact ⟨⟨[], ['\n']⟩, [], lines_newline h⟩
    | cons c cs =>
      rw [List.length_cons] at hlen
      by_cases hcrlf : c = '\r' ∧ cs.head? = some '\n'
      · obtain ⟨rfl, hcs⟩ := hcrlf
        obtain ⟨cs, rfl⟩ := List.head?_eq_some_iff.1 hcs
        obtain ⟨l, ls, hls⟩ := ih cs.length (by rw [List.length_cons] at hlen; omega) cs rfl
        refine ⟨⟨[], ['\r', '\n']⟩, l :: ls, fun ys => ?_⟩
        rw [List.cons_append, List.cons_append, lines_crlf, hls]
        rfl
      -- The last carriage return makes one break with the line feed that follows.
      by_cases hcr : c = '\r' ∧ cs = []
      · obtain ⟨rfl, rfl⟩ := hcr
        exact ⟨⟨[], ['\r', '\n']⟩, [], lines_crlf⟩
      have hc : ∀ ys, c = '\r' → (cs ++ '\n' :: ys).head? ≠ some '\n' := by
        intro ys hr
        cases cs with
        | nil => exact absurd ⟨hr, rfl⟩ hcr
        | cons d ds => exact fun hd => hcrlf ⟨hr, hd⟩
      obtain ⟨l, ls, hls⟩ := ih cs.length (by omega) cs rfl
      by_cases hb : breaks c = true
      · refine ⟨⟨[], [c]⟩, l :: ls, fun ys => ?_⟩
        rw [List.cons_append, lines_cons (hc ys), if_pos hb, hls]
        rfl
      · refine ⟨⟨c :: l.content, l.terminator⟩, ls, fun ys => ?_⟩
        rw [List.cons_append, lines_cons (hc ys), if_neg hb, hls]
        rfl

/-- A text `xs` without a line break is one line with the line feed after it, which ends it. -/
theorem lines_of_unbroken (h : breaks '\n' = true) {xs : List Char}
    (hxs : ∀ c ∈ xs, breaks c = false ∧ c ≠ '\r') (ys : List Char) :
    lines breaks (xs ++ '\n' :: ys) = ⟨xs, ['\n']⟩ :: lines breaks ys := by
  induction xs with
  | nil => exact lines_newline h ys
  | cons c cs ih =>
    obtain ⟨hc, hcs⟩ := List.forall_mem_cons.1 hxs
    rw [List.cons_append, lines_cons fun hr => absurd hr hc.2, if_neg (by simp [hc.1]), ih hcs]

/-- Put together again, the lines of a text are the text, so `lines` loses no character. -/
theorem flatten_lines (cs : List Char) : ((lines breaks cs).map Line.full).flatten = cs := by
  induction cs using lines.induct breaks with
  | case1 => rfl
  | case2 cs ih =>
    rw [lines_crlf, List.map_cons, List.flatten_cons, ih]
    rfl
  | case3 c cs hcs hc ih =>
    rw [lines, if_pos hc, List.map_cons, List.flatten_cons, ih]
    · rfl
    · exact hcs
  | case4 c cs hcs hc hnil ih =>
    rw [hnil] at ih
    rw [lines, if_neg hc, hnil, ← ih]
    · rfl
    · exact hcs
  | case5 c cs hcs hc l ls hls ih =>
    rw [hls, List.map_cons, List.flatten_cons] at ih
    rw [lines, if_neg hc, hls, ← ih]
    · rfl
    · exact hcs

/-- All lines of a text `cs` but the last end with a break, and there is no break inside a line. -/
theorem exists_lines (cs : List Char) :
    ∃ ls l, lines breaks cs = ls ++ [⟨l, []⟩] ∧ (∀ c ∈ l, breaks c = false) ∧
      ∀ m ∈ ls, m.terminator ≠ [] ∧ ∀ c ∈ m.content, breaks c = false := by
  -- The cases are those of `lines`: the end, the three kinds of break, and a character of a line.
  induction cs using lines.induct breaks with
  | case1 => exact ⟨[], [], rfl, nofun, nofun⟩
  | case2 cs ih =>
    obtain ⟨ls, l, h, hl, hls⟩ := ih
    refine ⟨⟨[], ['\r', '\n']⟩ :: ls, l, by rw [lines_crlf, h]; rfl, hl, ?_⟩
    exact List.forall_mem_cons.2 ⟨⟨by simp, nofun⟩, hls⟩
  | case3 c cs hcs hc ih =>
    obtain ⟨ls, l, h, hl, hls⟩ := ih
    refine ⟨⟨[], [c]⟩ :: ls, l, ?_, hl, List.forall_mem_cons.2 ⟨⟨by simp, nofun⟩, hls⟩⟩
    rw [lines, if_pos hc, h]
    · rfl
    · exact hcs
  | case4 c cs hcs hc hnil ih =>
    obtain ⟨ls, l, h, -⟩ := ih
    rw [hnil] at h
    simp at h
  | case5 c cs hcs hc m ms hms ih =>
    obtain ⟨ls, l, h, hl, hls⟩ := ih
    have hc : breaks c = false := by simpa using hc
    rw [lines, if_neg (by simp [hc]), hms]
    · rw [hms] at h
      cases ls with
      | nil =>
        obtain ⟨rfl, rfl⟩ : m = ⟨l, []⟩ ∧ ms = [] := by simpa using h
        exact ⟨[], c :: l, rfl, List.forall_mem_cons.2 ⟨hc, hl⟩, nofun⟩
      | cons n ls =>
        obtain ⟨rfl, rfl⟩ : m = n ∧ ms = ls ++ [⟨l, []⟩] := by simpa using h
        obtain ⟨hm, hls⟩ := List.forall_mem_cons.1 hls
        exact ⟨⟨c :: m.content, m.terminator⟩ :: ls, l, rfl, hl,
          List.forall_mem_cons.2 ⟨⟨hm.1, List.forall_mem_cons.2 ⟨hc, hm.2⟩⟩, hls⟩⟩
    · exact hcs

/-! ### Lines of a document -/

theorem flatten_documentLines (cs : List Char) : (documentLines cs).flatten = cs := by
  have h : ∀ ls : List (List Char), (ls.filter (!·.isEmpty)).flatten = ls.flatten := by
    intro ls
    induction ls with
    | nil => rfl
    | cons l ls ih => cases l <;> simp [ih]
  rw [documentLines, h, flatten_lines]

/-- The lines of a document up to a line feed behind `xs` do not depend on what follows. An empty
last line is no line of a document. -/
theorem documentLines_append (xs : List Char) :
    ∃ ls, ∀ ys, documentLines (xs ++ '\n' :: ys) = ls ++ documentLines ys := by
  obtain ⟨l, ls, hls⟩ := @lines_append isDocumentBreak (by decide) xs
  refine ⟨((l :: ls).map Line.full).filter (!·.isEmpty), fun ys => ?_⟩
  rw [documentLines, hls, List.map_append, List.filter_append]
  rfl

theorem documentLines_of_unbroken {xs : List Char} (hxs : ∀ c ∈ xs, isDocumentBreak c = false)
    (ys : List Char) : documentLines (xs ++ '\n' :: ys) = (xs ++ ['\n']) :: documentLines ys := by
  have hcr : ∀ c ∈ xs, isDocumentBreak c = false ∧ c ≠ '\r' := fun c hc =>
    ⟨hxs c hc, fun hr => by rw [hr] at hc; exact absurd (hxs _ hc) (by decide)⟩
  rw [documentLines, lines_of_unbroken (by decide) hcr, List.map_cons,
    List.filter_cons_of_pos (by simp [Line.full])]
  rfl

/-! ### Fields and words -/

variable {separates : Char → Bool}

theorem fields_ne_nil (cs : List Char) : fields separates cs ≠ [] := by
  cases cs with
  | nil => exact List.cons_ne_nil _ _
  | cons c cs =>
    rw [fields]
    split
    · exact List.cons_ne_nil _ _
    · split <;> exact List.cons_ne_nil _ _

/-- A text is split at a separator `c` in it, so its fields are those before it and those behind
it. -/
theorem fields_append {c : Char} (hc : separates c = true) (a b : List Char) :
    fields separates (a ++ c :: b) = fields separates a ++ fields separates b := by
  induction a with
  | nil =>
    simp [fields, hc]
  | cons e a ih =>
    rw [List.cons_append, fields, fields, ih]
    split
    · rfl
    · obtain ⟨f, fs, hfields⟩ := List.exists_cons_of_ne_nil (@fields_ne_nil separates a)
      rw [hfields]
      rfl

theorem fields_eq_self {cs : List Char} (h : ∀ c ∈ cs, separates c = false) :
    fields separates cs = [cs] := by
  induction cs with
  | nil => rfl
  | cons c cs ih =>
    obtain ⟨hc, hcs⟩ := List.forall_mem_cons.1 h
    rw [fields, if_neg (by simp [hc]), ih hcs]

/-- No separator is in what stands between them, for `fields` splits at each. -/
theorem separates_of_mem_fields {f cs : List Char} (h : f ∈ fields separates cs) {c : Char}
    (hc : c ∈ f) : separates c = false := by
  induction cs generalizing f with
  | nil =>
    rw [fields, List.mem_singleton] at h
    rw [h] at hc
    cases hc
  | cons e cs ih =>
    obtain ⟨g, gs, hfields⟩ := List.exists_cons_of_ne_nil (@fields_ne_nil separates cs)
    rw [hfields] at ih
    rw [fields, hfields] at h
    split at h
    · rcases List.mem_cons.1 h with rfl | h
      · cases hc
      · exact ih h hc
    · next he =>
      rcases List.mem_cons.1 h with rfl | h
      · rcases List.mem_cons.1 hc with rfl | hc
        · simpa using he
        · exact ih List.mem_cons_self hc
      · exact ih (List.mem_cons_of_mem g h) hc

/-- Characters `b` before a text that separate nothing belong to its first field, which there always
is. -/
theorem fields_append_left {b : List Char} (hb : ∀ c ∈ b, separates c = false) (cs : List Char) :
    ∃ f fs, fields separates cs = f :: fs ∧ fields separates (b ++ cs) = (b ++ f) :: fs := by
  induction b with
  | nil =>
    obtain ⟨f, fs, hfields⟩ := List.exists_cons_of_ne_nil (@fields_ne_nil separates cs)
    exact ⟨f, fs, hfields, hfields⟩
  | cons c b ih =>
    obtain ⟨hc, hb⟩ := List.forall_mem_cons.1 hb
    obtain ⟨f, fs, hfields, happend⟩ := ih hb
    refine ⟨f, fs, hfields, ?_⟩
    rw [List.cons_append, fields, if_neg (by simp [hc]), happend]
    rfl

/-- Characters `b` behind a text that separate nothing belong to its last field. -/
theorem fields_append_right {b : List Char} (hb : ∀ c ∈ b, separates c = false) (cs : List Char) :
    ∃ fs f, fields separates cs = fs ++ [f] ∧ fields separates (cs ++ b) = fs ++ [f ++ b] := by
  induction cs with
  | nil => exact ⟨[], [], rfl, fields_eq_self hb⟩
  | cons c cs ih =>
    obtain ⟨fs, f, hfields, happend⟩ := ih
    rw [List.cons_append, fields, fields, hfields, happend]
    by_cases hc : separates c = true
    · exact ⟨[] :: fs, f, by simp [hc], by simp [hc]⟩
    · cases fs with
      | nil => exact ⟨[], c :: f, by simp [hc], by simp [hc]⟩
      | cons g fs => exact ⟨(c :: g) :: fs, f, by simp [hc], by simp [hc]⟩

/-- Blanks around a text do not matter to its fields, but for the blanks around these, which `trim`
takes away. -/
theorem map_trim_fields {b b' : List Char} (hb : ∀ c ∈ b, isBlank c = true)
    (hb' : ∀ c ∈ b', isBlank c = true) (hblank : ∀ c, isBlank c = true → separates c = false)
    (cs : List Char) :
    (fields separates (b ++ cs ++ b')).map trim = (fields separates cs).map trim := by
  obtain ⟨fs, f, hfields, happend⟩ := fields_append_right (fun c hc => hblank c (hb' c hc))
      (b ++ cs)
  obtain ⟨g, gs, hfields', happend'⟩ := fields_append_left (fun c hc => hblank c (hb c hc)) cs
  have hf : trim (f ++ b') = trim f := trim_append_blanks (b := []) nofun hb' f
  have hg : trim (b ++ g) = trim g := by
    rw [← List.append_nil (b ++ g), trim_append_blanks hb (List.forall_mem_nil _) g]
  rw [happend, hfields', List.map_append, List.map_singleton, hf, ← List.map_singleton,
    ← List.map_append, ← hfields, happend', List.map_cons, List.map_cons, hg]

/-- The words of a text are those before a blank `c` in it and those behind. Empty words are left
out. -/
theorem words_append {c : Char} (hc : isBlank c = true) (a b : List Char) :
    words (a ++ c :: b) = words a ++ words b := by
  rw [words, fields_append hc, List.filter_append]
  rfl

theorem words_eq_self {cs : List Char} (hne : cs ≠ []) (h : ∀ c ∈ cs, isBlank c = false) :
    words cs = [cs] := by
  rw [words, fields_eq_self h]
  simp [hne]

/-- A word `w` is not empty, and no blank is in it. Its characters are those of the text. -/
theorem of_mem_words {w cs : List Char} (h : w ∈ words cs) :
    w ≠ [] ∧ (∀ c ∈ w, isBlank c = false) ∧ ∀ c ∈ w, c ∈ cs := by
  obtain ⟨hfields, hne⟩ := List.mem_filter.1 h
  exact ⟨by simpa using hne, fun c hc => separates_of_mem_fields hfields hc,
    fun c hc => (sublist_of_mem_fields hfields).subset hc⟩

end DiagramText.Text
