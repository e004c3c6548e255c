import DiagramText.Content.Markup
import DiagramText.Proofs.Text.Word

/-!
# Tags

A tag has a bracket at each end and none in between, so two tags never overlap, and it does not
matter in which order the tags of a text are looked for. When every tag has become a space, what
was no tag may have become one: a bracket with a name around whole tags.

* `Markup.IsTag`: the texts that are tags, and `Markup.hasTag_iff`: a text has one anywhere.
* `Markup.tagInduction`: induction over a text tag by tag, and where there is no tag character by
  character.
* `Markup.IsNest`: brackets around tags that would be a tag if those tags were spaces.
* `Markup.hasTag_stripTags_iff`: the text without its tags has a tag if and only if there is a nest
  in the text.
-/

namespace DiagramText.Markup

open Text DiagramText.Measure

/-! ### The form of a tag -/

/-- An angle bracket, `<` or `>`. -/
def isBracket (c : Char) : Bool := c == '<' || c == '>'

/-- How a tag opens, `o`: a bracket, a slash if it is a closing tag, and a name of ASCII letters and
digits that starts with a letter. -/
def IsOpening (o : List Char) : Prop :=
  ∃ slash c name, (slash = [] ∨ slash = ['/']) ∧ c.isAlpha = true ∧
    (∀ d ∈ name, d.isAlphanum = true) ∧ o = '<' :: (slash ++ c :: name)

/-- What stands between the name of a tag and the bracket that closes it, `a`: nothing, a slash, or
a blank and anything behind it but brackets. -/
def IsAttributes (a : List Char) : Prop :=
  a = [] ∨ a = ['/'] ∨ ∃ b r, a = b :: r ∧ isBlank b = true ∧ ∀ c ∈ r, isBracket c = false

/-- A tag `t`: an opening, what may stand behind a name, and a closing bracket. -/
def IsTag (t : List Char) : Prop :=
  ∃ o a, IsOpening o ∧ IsAttributes a ∧ t = o ++ a ++ ['>']

section Characters

variable {c : Char}

theorem isBracket_iff : isBracket c = true ↔ c = '<' ∨ c = '>' := by
  rw [isBracket, Bool.or_eq_true, beq_iff_eq, beq_iff_eq]

theorem ne_of_isBracket_eq_false (h : isBracket c = false) : c ≠ '<' ∧ c ≠ '>' := by
  simpa [isBracket] using h

theorem isBracket_of_isBlank (h : isBlank c = true) : isBracket c = false := by
  rw [Bool.eq_false_iff, ne_eq, isBracket_iff]
  rintro (rfl | rfl)
  · exact absurd h (by decide)
  · exact absurd h (by decide)

theorem isAsciiWord_of_isAlphanum (h : c.isAlphanum = true) : isAsciiWord c = true := by
  rw [isAsciiWord, h, Bool.true_or]

theorem isAlphanum_of_isAlpha (h : c.isAlpha = true) : c.isAlphanum = true := by
  rw [Char.isAlphanum, h, Bool.true_or]

/-- If `c` is a letter, a digit or a slash, it is neither a bracket nor a blank. These are the
characters of an opening behind its bracket. -/
theorem of_isAlphanum_or_slash (h : c.isAlphanum = true ∨ c = '/') :
    isBracket c = false ∧ isBlank c = false := by
  rcases h with h | rfl
  · refine ⟨?_, isBlank_of_isAsciiWord (isAsciiWord_of_isAlphanum h)⟩
    rw [Bool.eq_false_iff, ne_eq, isBracket_iff]
    rintro (rfl | rfl)
    · exact absurd h (by decide)
    · exact absurd h (by decide)
  · decide

end Characters

namespace IsOpening

variable {o : List Char}

/-- An opening `o` starts with its only bracket, and none of its characters is a blank. -/
theorem exists_cons (h : IsOpening o) :
    ∃ r, o = '<' :: r ∧ ∀ c ∈ r, isBracket c = false ∧ isBlank c = false := by
  obtain ⟨slash, c, name, hslash, hc, hname, rfl⟩ := h
  refine ⟨slash ++ c :: name, rfl, fun d hd => of_isAlphanum_or_slash ?_⟩
  rcases List.mem_append.1 hd with hd | hd
  · rcases hslash with rfl | rfl
    · cases hd
    · exact .inr (List.mem_singleton.1 hd)
  · rcases List.mem_cons.1 hd with rfl | hd
    · exact .inl (isAlphanum_of_isAlpha hc)
    · exact .inl (hname d hd)

theorem not_isBlank (h : IsOpening o) : ∀ c ∈ o, isBlank c = false := by
  obtain ⟨r, rfl, hr⟩ := h.exists_cons
  exact List.forall_mem_cons.2 ⟨by decide, fun c hc => (hr c hc).2⟩

theorem not_mem_space (h : IsOpening o) : ' ' ∉ o := fun hmem =>
  absurd (h.not_isBlank ' ' hmem) (by decide)

end IsOpening

theorem IsAttributes.not_isBracket {a : List Char} (h : IsAttributes a) :
    ∀ c ∈ a, isBracket c = false := by
  rcases h with rfl | rfl | ⟨b, r, rfl, hb, hr⟩
  · exact List.forall_mem_nil _
  · decide
  · exact List.forall_mem_cons.2 ⟨isBracket_of_isBlank hb, hr⟩

/-- A tag has a bracket at each end and none in between, in `r`. -/
theorem IsTag.exists_inside {t : List Char} (h : IsTag t) :
    ∃ r, t = '<' :: (r ++ ['>']) ∧ ∀ c ∈ r, isBracket c = false := by
  obtain ⟨o, a, ho, ha, rfl⟩ := h
  obtain ⟨r, rfl, hr⟩ := ho.exists_cons
  refine ⟨r ++ a, by simp, List.forall_mem_append.2 ⟨fun c hc => (hr c hc).1, ha.not_isBracket⟩⟩

/-! ### Tags at the start of a text -/

theorem tagEnd_append {a : List Char} (ha : IsAttributes a) (v : List Char) :
    tagEnd (a ++ '>' :: v) = a.length + 1 := by
  rcases ha with rfl | rfl | ⟨b, r, rfl, hb, hr⟩
  · rfl
  · rfl
  · have hrun : run (fun d => d != '<' && d != '>') (r ++ '>' :: v) = r.length :=
      run_append_of_all (fun c hc => by simpa using ne_of_isBracket_eq_false (hr c hc)) (by simp)
    have hbracket : b ≠ '>' := (ne_of_isBracket_eq_false (isBracket_of_isBlank hb)).2
    have hslash : b ≠ '/' := by
      rintro rfl
      exact absurd hb (by decide)
    rw [List.cons_append]
    unfold tagEnd
    split
    · next heq => exact absurd (List.cons.inj heq).1 hbracket
    · next heq => exact absurd (List.cons.inj heq).1 hslash
    · next heq =>
      obtain ⟨rfl, rfl⟩ := List.cons.inj heq
      rw [if_pos hb, hrun]
      simp
    · next heq => cases heq

theorem exists_of_tagEnd {cs : List Char} (h : tagEnd cs ≠ 0) :
    ∃ a v, IsAttributes a ∧ cs = a ++ '>' :: v := by
  unfold tagEnd at h
  split at h
  · next v => exact ⟨[], v, .inl rfl, rfl⟩
  · next v => exact ⟨['/'], v, .inr (.inl rfl), rfl⟩
  · next b cs _ _ =>
    split at h
    · next hb =>
      obtain ⟨r, v, rfl, hr, -, hrun⟩ := exists_run (fun d => d != '<' && d != '>') cs
      have hclose : v.head? = some '>' := by
        simp only [hrun, List.drop_left] at h
        exact Decidable.byContradiction fun hne => h (if_neg hne)
      obtain ⟨v, rfl⟩ := List.head?_eq_some_iff.1 hclose
      exact ⟨b :: r, v, .inr (.inr ⟨b, r, rfl, hb, fun c hc => by simpa [isBracket] using hr c hc⟩),
        rfl⟩
    · exact absurd rfl h
  · exact absurd rfl h

/-- What closes a tag, be it attributes `a` or the bracket, does not go on with the letters and
digits of its name. -/
theorem head_not_isAlphanum {a : List Char} (ha : IsAttributes a) (v : List Char) :
    ∀ c ∈ (a ++ '>' :: v).head?, c.isAlphanum = false := by
  rcases ha with rfl | rfl | ⟨b, r, rfl, hb, -⟩
  · simp
  · simp
  · rintro c ⟨⟩
    rw [Bool.eq_false_iff]
    intro hc
    rw [(of_isAlphanum_or_slash (.inl hc)).2] at hb
    cases hb

theorem tagName_append {c : Char} {name a : List Char} (hc : c.isAlpha = true)
    (hname : ∀ d ∈ name, d.isAlphanum = true) (ha : IsAttributes a) (v : List Char) :
    tagName (c :: (name ++ (a ++ '>' :: v))) = name.length + a.length + 2 := by
  have hrun : run Char.isAlphanum (name ++ (a ++ '>' :: v)) = name.length :=
    run_append_of_all hname (head_not_isAlphanum ha v)
  rw [tagName, if_pos hc, hrun]
  simp only [List.drop_left, tagEnd_append ha]
  rw [if_neg (Nat.succ_ne_zero _)]
  omega

theorem exists_of_tagName {cs : List Char} (h : tagName cs ≠ 0) :
    ∃ c name a v, c.isAlpha = true ∧ (∀ d ∈ name, d.isAlphanum = true) ∧ IsAttributes a ∧
      cs = c :: (name ++ (a ++ '>' :: v)) := by
  unfold tagName at h
  split at h
  · exact absurd rfl h
  · next c cs =>
    split at h
    · next hc =>
      obtain ⟨name, rest, rfl, hname, -, hrun⟩ := exists_run Char.isAlphanum cs
      simp only [hrun, List.drop_left] at h
      obtain ⟨a, v, ha, rfl⟩ := exists_of_tagEnd fun h₀ => h (if_pos h₀)
      exact ⟨c, name, a, v, hc, hname, ha, rfl⟩
    · exact absurd rfl h

/-- A tag `t` is measured whole, whatever stands behind it: `tag` gives its length. -/
theorem tag_append {t : List Char} (ht : IsTag t) (v : List Char) : tag (t ++ v) = t.length := by
  obtain ⟨o, a, ⟨slash, c, name, hslash, hc, hname, rfl⟩, ha, rfl⟩ := ht
  have hmeasure := tagName_append hc hname ha v
  rcases hslash with rfl | rfl
  · have hc' : c ≠ '/' := by
      rintro rfl
      exact absurd hc (by decide)
    simp only [List.nil_append, List.cons_append, List.append_assoc]
    rw [tag.eq_2 _ fun _ h => hc' (List.cons.inj h).1]
    simp [hmeasure]
    omega
  · simp only [List.nil_append, List.cons_append, List.append_assoc]
    rw [tag]
    simp [hmeasure]
    omega

theorem exists_of_tag {cs : List Char} (h : tag cs ≠ 0) : ∃ t v, IsTag t ∧ cs = t ++ v := by
  have hform : ∀ {slash r : List Char}, slash = [] ∨ slash = ['/'] → tagName r ≠ 0 →
      ∃ t v, IsTag t ∧ '<' :: (slash ++ r) = t ++ v := by
    intro slash r hslash hr
    obtain ⟨c, name, a, v, hc, hname, ha, rfl⟩ := exists_of_tagName hr
    exact ⟨_, v, ⟨_, a, ⟨slash, c, name, hslash, hc, hname, rfl⟩, ha, rfl⟩, by simp⟩
  unfold tag at h
  split at h
  · exact hform (.inr rfl) fun h₀ => h (if_pos h₀)
  · exact hform (.inl rfl) fun h₀ => h (if_pos h₀)
  · exact absurd rfl h

theorem tag_cons_of_ne {c : Char} (hc : c ≠ '<') (cs : List Char) : tag (c :: cs) = 0 := by
  refine Decidable.byContradiction fun h => ?_
  obtain ⟨t, v, ht, heq⟩ := exists_of_tag h
  obtain ⟨r, rfl, -⟩ := ht.exists_inside
  exact hc (List.cons.inj heq).1

theorem tag_ne_zero_iff {cs : List Char} : tag cs ≠ 0 ↔ ∃ t, IsTag t ∧ t <+: cs := by
  constructor
  · intro h
    obtain ⟨t, v, ht, rfl⟩ := exists_of_tag h
    exact ⟨t, ht, List.prefix_append t v⟩
  · rintro ⟨t, ht, v, rfl⟩
    obtain ⟨r, rfl, -⟩ := ht.exists_inside
    rw [tag_append ht, List.length_cons]
    exact Nat.succ_ne_zero _

/-! ### Tags anywhere in a text -/

theorem hasTag_cons (c : Char) (cs : List Char) :
    hasTag (c :: cs) = true ↔ tag (c :: cs) ≠ 0 ∨ hasTag cs = true := by
  rw [hasTag, Bool.or_eq_true, bne_iff_ne]

/-- The recursive search `hasTag` finds a tag if and only if some part of the text is one. -/
theorem hasTag_iff {cs : List Char} : hasTag cs = true ↔ ∃ t, IsTag t ∧ t <:+: cs := by
  induction cs with
  | nil =>
    refine iff_of_false nofun ?_
    rintro ⟨t, ht, hinfix⟩
    obtain ⟨r, rfl, -⟩ := ht.exists_inside
    exact absurd (List.eq_nil_of_infix_nil hinfix) (List.cons_ne_nil _ _)
  | cons c cs ih =>
    rw [hasTag_cons, tag_ne_zero_iff, ih]
    constructor
    · rintro (⟨t, ht, hprefix⟩ | ⟨t, ht, hinfix⟩)
      · exact ⟨t, ht, hprefix.isInfix⟩
      · exact ⟨t, ht, hinfix.trans (List.suffix_cons c cs).isInfix⟩
    · rintro ⟨t, ht, hinfix⟩
      rcases List.infix_cons_iff.1 hinfix with hprefix | hinfix
      · exact .inl ⟨t, ht, hprefix⟩
      · exact .inr ⟨t, ht, hinfix⟩

theorem hasTag_append_right (a : List Char) {b : List Char} (h : hasTag b = true) :
    hasTag (a ++ b) = true := by
  obtain ⟨t, ht, hinfix⟩ := hasTag_iff.1 h
  exact hasTag_iff.2 ⟨t, ht, hinfix.trans (List.suffix_append a b).isInfix⟩

/-- Induction over a text that is taken apart tag by tag, and where it starts with no tag character
by character. This is how `stripTags` goes through a text, but without the measuring. -/
@[elab_as_elim]
theorem tagInduction {P : List Char → Prop} (nil : P [])
    (char : ∀ c cs, tag (c :: cs) = 0 → P cs → P (c :: cs))
    (tag : ∀ t cs, IsTag t → P cs → P (t ++ cs)) (cs : List Char) : P cs := by
  induction hlen : cs.length using Nat.strongRecOn generalizing cs with
  | _ len ih =>
    cases cs with
    | nil => exact nil
    | cons c cs =>
      rw [List.length_cons] at hlen
      by_cases h : Markup.tag (c :: cs) = 0
      · exact char c cs h (ih _ (by omega) cs rfl)
      · obtain ⟨t, v, ht, heq⟩ := exists_of_tag h
        obtain ⟨r, hr, -⟩ := ht.exists_inside
        have hlt := congrArg List.length heq
        rw [hr] at hlt
        simp only [List.length_cons, List.length_append] at hlt
        rw [heq]
        exact tag t v ht (ih v.length (by omega) v rfl)

/-! ### A text without its tags -/

theorem stripTags_nil : stripTags [] = [] := by rw [stripTags]

theorem stripTags_cons {c : Char} {cs : List Char} (h : tag (c :: cs) = 0) :
    stripTags (c :: cs) = c :: stripTags cs := by
  rw [stripTags]
  exact if_pos h

theorem stripTags_append {t : List Char} (ht : IsTag t) (cs : List Char) :
    stripTags (t ++ cs) = ' ' :: stripTags cs := by
  have hlen := tag_append ht cs
  obtain ⟨r, rfl, -⟩ := ht.exists_inside
  rw [List.cons_append] at hlen ⊢
  rw [stripTags, hlen]
  simp

/-- Characters `a` that open no tag stay as they are, and the rest is taken on its own. -/
theorem stripTags_append_of_not_mem {a : List Char} (ha : '<' ∉ a) (cs : List Char) :
    stripTags (a ++ cs) = a ++ stripTags cs := by
  induction a with
  | nil => rfl
  | cons c a ih =>
    rw [List.mem_cons, not_or] at ha
    have hnone : tag (c :: (a ++ cs)) = 0 := tag_cons_of_ne (Ne.symm ha.1) _
    rw [List.cons_append, stripTags_cons hnone, ih ha.2, List.cons_append]

/-- No tag goes on behind an opening bracket: a tag at the start of `c :: u ++ '<' :: y` ends within
`c :: u`. -/
theorem IsTag.prefix_of_bracket {t u y : List Char} {c : Char} (ht : IsTag t)
    (h : t <+: c :: u ++ '<' :: y) : t <+: c :: u := by
  rcases List.prefix_or_prefix_of_prefix h (List.prefix_append (c :: u) ('<' :: y)) with h | hlong
  · exact h
  · obtain ⟨w, rfl⟩ := hlong
    rcases (List.prefix_append_right_inj _).1 h with ⟨v, hv⟩
    cases w with
    | nil => exact (List.append_nil (c :: u)).symm ▸ List.prefix_refl _
    | cons d w =>
      -- the bracket would stand inside the tag
      obtain ⟨rfl, -⟩ := List.cons.inj hv
      obtain ⟨r, hr, hnone⟩ := ht.exists_inside
      have hmem : '<' ∈ r ++ ['>'] := by
        rw [← (List.cons.inj hr).2]
        exact List.mem_append_right u List.mem_cons_self
      rcases List.mem_append.1 hmem with hmem | hmem
      · exact absurd (hnone _ hmem) (by decide)
      · exact absurd hmem (by decide)

/-- A text `u` may be taken apart before an opening bracket, since no tag reaches over it. -/
theorem stripTags_append_bracket (u y : List Char) :
    stripTags (u ++ '<' :: y) = stripTags u ++ stripTags ('<' :: y) := by
  induction u using tagInduction with
  | nil => rw [stripTags_nil, List.nil_append, List.nil_append]
  | char c u h ih =>
    have hnone : tag (c :: u ++ '<' :: y) = 0 := by
      refine Decidable.byContradiction fun hne => ?_
      obtain ⟨t, ht, hprefix⟩ := tag_ne_zero_iff.1 hne
      exact tag_ne_zero_iff.2 ⟨t, ht, ht.prefix_of_bracket hprefix⟩ h
    rw [stripTags_cons h, List.cons_append, List.cons_append, ← ih]
    exact stripTags_cons hnone
  | tag t u ht ih =>
    rw [List.append_assoc, stripTags_append ht, stripTags_append ht, ih, List.cons_append]

/-! ### What the text without its tags was -/

/-- `Loses cs ds`: the second text is the first with spaces for some of its tags. -/
inductive Loses : List Char → List Char → Prop
  | nil : Loses [] []
  | char (c : Char) {cs ds : List Char} (h : Loses cs ds) : Loses (c :: cs) (c :: ds)
  | tag {t cs ds : List Char} (ht : IsTag t) (h : Loses cs ds) : Loses (t ++ cs) (' ' :: ds)

theorem loses_stripTags (cs : List Char) : Loses cs (stripTags cs) := by
  induction cs using tagInduction with
  | nil =>
    rw [stripTags_nil]
    exact .nil
  | char c cs h ih =>
    rw [stripTags_cons h]
    exact .char c ih
  | tag t cs ht ih =>
    rw [stripTags_append ht]
    exact .tag ht ih

namespace Loses

variable {cs ds x y : List Char}

/-- Each part of what is left comes from a part of the text: where `cs` loses tags and becomes `x ++
y`, it splits into `a`, which becomes `x`, and `b`, which becomes `y`. -/
theorem append (h : Loses cs (x ++ y)) : ∃ a b, cs = a ++ b ∧ Loses a x ∧ Loses b y := by
  induction x generalizing cs with
  | nil => exact ⟨[], cs, rfl, .nil, h⟩
  | cons c x ih =>
    cases h with
    | char c h =>
      obtain ⟨a, b, rfl, ha, hb⟩ := ih h
      exact ⟨c :: a, b, rfl, .char c ha, hb⟩
    | @tag t cs _ ht h =>
      obtain ⟨a, b, rfl, ha, hb⟩ := ih h
      exact ⟨t ++ a, b, (List.append_assoc t a b).symm, .tag ht ha, hb⟩

theorem eq_of_not_mem_space (h : Loses cs ds) (hspace : ' ' ∉ ds) : cs = ds := by
  induction h with
  | nil => rfl
  | char c h ih => rw [ih fun hmem => hspace (List.mem_cons_of_mem c hmem)]
  | tag ht h ih => exact absurd List.mem_cons_self hspace

theorem eq_of_not_mem_bracket (h : Loses cs ds) (hbracket : '<' ∉ cs) : cs = ds := by
  induction h with
  | nil => rfl
  | char c h ih => rw [ih fun hmem => hbracket (List.mem_cons_of_mem c hmem)]
  | tag ht h ih =>
    obtain ⟨r, rfl, -⟩ := ht.exists_inside
    exact absurd List.mem_cons_self hbracket

end Loses

/-! ### Nests -/

/-- A filling is made of characters that are no brackets, and of whole tags. -/
inductive IsFilling : List Char → Prop
  | nil : IsFilling []
  | char {c : Char} {cs : List Char} (hc : isBracket c = false) (h : IsFilling cs) :
      IsFilling (c :: cs)
  | tag {t cs : List Char} (ht : IsTag t) (h : IsFilling cs) : IsFilling (t ++ cs)

/-- A nest `w`: the opening of a tag, then a blank or a tag, and anything but single brackets up to
the bracket that closes it, with at least one tag inside. -/
def IsNest (w : List Char) : Prop :=
  ∃ o f, IsOpening o ∧ IsFilling f ∧ '<' ∈ f ∧ (∀ c ∈ f.head?, isBlank c = true ∨ c = '<') ∧
    w = o ++ f ++ ['>']

theorem Loses.isFilling {cs ds : List Char} (h : Loses cs ds)
    (hds : ∀ c ∈ ds, isBracket c = false) : IsFilling cs := by
  induction h with
  | nil => exact .nil
  | char c h ih =>
    obtain ⟨hc, hds⟩ := List.forall_mem_cons.1 hds
    exact .char hc (ih hds)
  | tag ht h ih => exact .tag ht (ih (List.forall_mem_cons.1 hds).2)

/-- Of a filling `f`, only characters that are no brackets are left, in `g`, and `g` starts with a
blank if `f` starts with a blank or a tag. -/
theorem IsFilling.exists_stripTags {f : List Char} (hf : IsFilling f) (v : List Char) :
    ∃ g, stripTags (f ++ v) = g ++ stripTags v ∧ (∀ c ∈ g, isBracket c = false) ∧
      ((∀ c ∈ f.head?, isBlank c = true ∨ c = '<') → ∀ c ∈ g.head?, isBlank c = true) := by
  induction hf with
  | nil => exact ⟨[], rfl, List.forall_mem_nil _, fun _ => nofun⟩
  | @char c cs hc h ih =>
    obtain ⟨g, hg, hbracket, -⟩ := ih
    have hne := (ne_of_isBracket_eq_false hc).1
    refine ⟨c :: g, ?_, List.forall_mem_cons.2 ⟨hc, hbracket⟩, fun hhead => ?_⟩
    · rw [List.cons_append, stripTags_cons (tag_cons_of_ne hne _), hg, List.cons_append]
    · rintro d ⟨⟩
      exact (hhead c rfl).resolve_right hne
  | tag ht h ih =>
    obtain ⟨g, hg, hbracket, -⟩ := ih
    refine ⟨' ' :: g, ?_, List.forall_mem_cons.2 ⟨by decide, hbracket⟩, fun _ => ?_⟩
    · rw [List.append_assoc, stripTags_append ht, hg, List.cons_append]
    · rintro d ⟨⟩
      decide

/-- The first bracket of a filling `f` opens a tag, if the filling has a bracket at all. -/
theorem IsFilling.find?_isBracket {f : List Char} (hf : IsFilling f) (hmem : '<' ∈ f) :
    f.find? isBracket = some '<' := by
  induction hf with
  | nil => cases hmem
  | @char c cs hc h ih =>
    have hne := (ne_of_isBracket_eq_false hc).1
    rw [List.find?_cons_of_neg (by simp [hc])]
    exact ih ((List.mem_cons.1 hmem).resolve_left (Ne.symm hne))
  | tag ht h ih =>
    obtain ⟨r, rfl, -⟩ := ht.exists_inside
    rfl

/-- The opening of a nest `w` opens no tag, since the next bracket does not close it. -/
theorem IsNest.tag_append {w : List Char} (hw : IsNest w) (v : List Char) : tag (w ++ v) = 0 := by
  obtain ⟨o, f, ho, hf, hmem, -, rfl⟩ := hw
  obtain ⟨r, rfl, hr⟩ := ho.exists_cons
  refine Decidable.byContradiction fun hne => ?_
  obtain ⟨t, u, ht, heq⟩ := exists_of_tag hne
  obtain ⟨s, rfl, hs⟩ := ht.exists_inside
  have hrest : r ++ (f ++ '>' :: v) = s ++ '>' :: u := by simpa using heq
  have hr' : r.find? isBracket = none := List.find?_eq_none.2 fun c hc => by simp [(hr c hc).1]
  have hs' : s.find? isBracket = none := List.find?_eq_none.2 fun c hc => by simp [hs c hc]
  have hfirst := congrArg (List.find? isBracket) hrest
  rw [List.find?_append, List.find?_append, List.find?_append, hr', hs',
    hf.find?_isBracket hmem] at hfirst
  cases hfirst

/-- Without its tags, a nest `w` is a tag: the opening stays, and the filling becomes attributes
without brackets. -/
theorem IsNest.exists_stripTags {w : List Char} (hw : IsNest w) (v : List Char) :
    ∃ t, IsTag t ∧ stripTags (w ++ v) = t ++ stripTags v := by
  have hnone := hw.tag_append v
  obtain ⟨o, f, ho, hf, hmem, hhead, rfl⟩ := hw
  obtain ⟨g, hg, hbracket, hblank⟩ := hf.exists_stripTags ('>' :: v)
  have hattributes : IsAttributes g := by
    cases g with
    | nil => exact .inl rfl
    | cons b g =>
      refine .inr (.inr ⟨b, g, rfl, hblank hhead b rfl, ?_⟩)
      exact (List.forall_mem_cons.1 hbracket).2
  refine ⟨o ++ g ++ ['>'], ⟨o, g, ho, hattributes, rfl⟩, ?_⟩
  obtain ⟨r, rfl, hr⟩ := ho.exists_cons
  have hr' : '<' ∉ r := fun hmem => absurd (hr _ hmem).1 (by decide)
  have hclose : stripTags ('>' :: v) = '>' :: stripTags v :=
    stripTags_cons (tag_cons_of_ne (by decide) v)
  have hsplit : '<' :: r ++ f ++ ['>'] ++ v = '<' :: (r ++ (f ++ '>' :: v)) := by simp
  rw [hsplit] at hnone ⊢
  rw [stripTags_cons hnone, stripTags_append_of_not_mem hr', hg, hclose]
  simp

/-- What becomes a tag when tags become spaces is a nest: if a tag `t` starts `stripTags cs`
although none starts `cs`, then a nest starts `cs`. -/
theorem exists_isNest {cs t : List Char} (hnone : tag cs = 0) (ht : IsTag t)
    (hstart : t <+: stripTags cs) : ∃ w, IsNest w ∧ w <+: cs := by
  obtain ⟨v, hv⟩ := hstart
  obtain ⟨o, a, ho, ha, rfl⟩ := ht
  have hloses : Loses cs (o ++ (a ++ (['>'] ++ v))) := by
    have := loses_stripTags cs
    rwa [← hv, List.append_assoc, List.append_assoc] at this
  obtain ⟨o', r, rfl, ho', hr⟩ := hloses.append
  obtain ⟨f, r, rfl, hf, hr⟩ := hr.append
  obtain ⟨close, r, rfl, hclose, -⟩ := hr.append
  obtain rfl := ho'.eq_of_not_mem_space ho.not_mem_space
  obtain rfl := hclose.eq_of_not_mem_space (by decide)
  -- without a tag inside, this would have been a tag before
  have hmem : '<' ∈ f := by
    refine Decidable.byContradiction fun hnot => ?_
    obtain rfl := hf.eq_of_not_mem_bracket hnot
    exact tag_ne_zero_iff.2 ⟨_, ⟨o', f, ho, ha, rfl⟩, r, by simp⟩ hnone
  have hhead : ∀ c ∈ f.head?, isBlank c = true ∨ c = '<' := by
    rcases ha with rfl | rfl | ⟨b, a, rfl, hb, -⟩
    · cases hf with
      | nil => nofun
    · rw [hf.eq_of_not_mem_space (by decide)] at hmem
      exact absurd hmem (by decide)
    · cases hf with
      | char c h =>
        rintro c ⟨⟩
        exact .inl hb
      | tag ht h =>
        obtain ⟨s, rfl, -⟩ := ht.exists_inside
        rintro c ⟨⟩
        exact .inr rfl
  exact ⟨_, ⟨o', f, ho, hf.isFilling ha.not_isBracket, hmem, hhead, rfl⟩, r, by simp⟩

/-- A text `cs` in which every tag has become a space has a tag if and only if there was a nest. -/
theorem hasTag_stripTags_iff {cs : List Char} :
    hasTag (stripTags cs) = true ↔ ∃ w, IsNest w ∧ w <:+: cs := by
  constructor
  · intro h
    -- A tag that is there behind the step starts at a character that stays, or is further behind.
    -- Where it starts at that character, it was a nest.
    induction cs using tagInduction with
    | nil =>
      rw [stripTags_nil] at h
      cases h
    | char c cs hnone ih =>
      rw [stripTags_cons hnone, hasTag_cons] at h
      rcases h with h | h
      · obtain ⟨t, ht, hprefix⟩ := tag_ne_zero_iff.1 h
        rw [← stripTags_cons hnone] at hprefix
        obtain ⟨w, hw, hprefix⟩ := exists_isNest hnone ht hprefix
        exact ⟨w, hw, hprefix.isInfix⟩
      · obtain ⟨w, hw, hinfix⟩ := ih h
        exact ⟨w, hw, hinfix.trans (List.suffix_cons c cs).isInfix⟩
    -- A tag has become a space, and no tag starts with a space.
    | tag t cs ht ih =>
      rw [stripTags_append ht, hasTag_cons] at h
      obtain ⟨w, hw, hinfix⟩ := ih (h.resolve_left fun h => h (tag_cons_of_ne (by decide) _))
      exact ⟨w, hw, hinfix.trans (List.suffix_append t cs).isInfix⟩
  · rintro ⟨w, hw, u, v, rfl⟩
    -- What stands before a nest may be taken on its own, and the nest becomes a tag.
    obtain ⟨t, ht, hstrip⟩ := hw.exists_stripTags v
    obtain ⟨r, hr⟩ : ∃ r, w ++ v = '<' :: r := by
      obtain ⟨o, f, ho, -, -, -, rfl⟩ := hw
      obtain ⟨r, rfl, -⟩ := ho.exists_cons
      exact ⟨_, rfl⟩
    rw [List.append_assoc, hr, stripTags_append_bracket, ← hr, hstrip]
    exact hasTag_append_right _ (hasTag_iff.2 ⟨t, ht, (List.prefix_append t _).isInfix⟩)

end DiagramText.Markup
