import DiagramText.Content
import DiagramText.Proofs.Content.Tag
import DiagramText.Proofs.Text.Lines

/-!
# Labels in inline HTML as plain text

A label in inline HTML is rendered by one pass over its tags, and then its runs of blanks become
single spaces. No space matters to a tag, so the rendering has a tag where the text without its tags
has one, that is, where a nest is in the label. What is rendered can be taken for a label again.

* `Text.SameWords`: texts that differ in the length of their runs of blanks, and
  `Markup.hasTag_congr`: they have tags alike.
* `Text.visible`: the characters of a text that are no blanks.
* `Markup.stripEmphasis_sublist`: emphasis is removed without adding characters.
* `Content.rendering_iff`: when a label without ampersands is rendered without a tag, and
  when its rendering taken for a label is rendered as it is, but for blanks.
-/

namespace DiagramText.Text

/-! ### Texts that differ in blanks -/

/-- `SameWords cs ds`: the texts differ only in the length of their runs of blanks, and in the
blanks at the end. -/
inductive SameWords : List Char → List Char → Prop
  | blanks {b b' : List Char} (hb : ∀ c ∈ b, isBlank c = true) (hb' : ∀ c ∈ b', isBlank c = true) :
      SameWords b b'
  | char {c : Char} {cs ds : List Char} (hc : isBlank c = false) (h : SameWords cs ds) :
      SameWords (c :: cs) (c :: ds)
  | gap {b b' cs ds : List Char} (hne : b ≠ []) (hb : ∀ c ∈ b, isBlank c = true) (hne' : b' ≠ [])
      (hb' : ∀ c ∈ b', isBlank c = true) (h : SameWords cs ds) : SameWords (b ++ cs) (b' ++ ds)

/-- The characters of a text `cs` that are no blanks, in their order. -/
def visible (cs : List Char) : List Char := cs.filter (!isBlank ·)

theorem visible_append (a b : List Char) : visible (a ++ b) = visible a ++ visible b :=
  List.filter_append a b

theorem visible_eq_nil {b : List Char} (hb : ∀ c ∈ b, isBlank c = true) : visible b = [] :=
  List.filter_eq_nil_iff.2 fun c hc => by simp [hb c hc]

theorem mem_visible {c : Char} {cs : List Char} : c ∈ visible cs ↔ c ∈ cs ∧ isBlank c = false := by
  rw [visible, List.mem_filter, Bool.not_eq_true']

namespace SameWords

variable {cs ds w : List Char}

theorem symm (h : SameWords cs ds) : SameWords ds cs := by
  induction h with
  | blanks hb hb' => exact .blanks hb' hb
  | char hc h ih => exact .char hc ih
  | gap hne hb hne' hb' h ih => exact .gap hne' hb' hne hb ih

theorem append_left (hw : ∀ c ∈ w, isBlank c = false) (h : SameWords cs ds) :
    SameWords (w ++ cs) (w ++ ds) := by
  induction w with
  | nil => exact h
  | cons c w ih =>
    obtain ⟨hc, hw⟩ := List.forall_mem_cons.1 hw
    exact .char hc (ih hw)

theorem visible_eq (h : SameWords cs ds) : visible cs = visible ds := by
  induction h with
  | blanks hb hb' => rw [visible_eq_nil hb, visible_eq_nil hb']
  | char hc h ih => rw [visible, visible, List.filter_cons_of_pos (by simp [hc]),
      List.filter_cons_of_pos (by simp [hc]), ← visible, ih, visible]
  | gap hne hb hne' hb' h ih =>
    rw [visible_append, visible_append, visible_eq_nil hb, visible_eq_nil hb', ih]

/-- A character `c` that is no blank stands at the start of both texts. -/
theorem exists_cons {c : Char} (hc : isBlank c = false) (h : SameWords (c :: cs) ds) :
    ∃ es, ds = c :: es ∧ SameWords cs es := by
  generalize heq : c :: cs = all at h
  cases h with
  | blanks hb hb' =>
    rw [← heq] at hb
    rw [hb c List.mem_cons_self] at hc
    cases hc
  | char hc h =>
    cases heq
    exact ⟨_, rfl, h⟩
  | @gap b b' cs' ds hne hb hne' hb' h =>
    obtain ⟨e, b, rfl⟩ := List.exists_cons_of_ne_nil hne
    obtain ⟨rfl, -⟩ := List.cons.inj heq
    rw [hb c List.mem_cons_self] at hc
    cases hc

theorem exists_append (hw : ∀ c ∈ w, isBlank c = false) (h : SameWords (w ++ cs) ds) :
    ∃ es, ds = w ++ es ∧ SameWords cs es := by
  induction w generalizing ds with
  | nil => exact ⟨ds, rfl, h⟩
  | cons c w ih =>
    obtain ⟨hc, hw⟩ := List.forall_mem_cons.1 hw
    obtain ⟨rest, rfl, hrest⟩ := h.exists_cons hc
    obtain ⟨es, rfl, hes⟩ := ih hw hrest
    exact ⟨es, rfl, hes⟩

/-- Where words go on behind a blank `b`, the other text starts with a blank as well, although it
need not be the same one. -/
theorem exists_blank {b : Char} (hb : isBlank b = true) (hne : visible cs ≠ [])
    (h : SameWords (b :: cs) ds) : ∃ b' es, ds = b' :: es ∧ isBlank b' = true := by
  generalize heq : b :: cs = all at h
  cases h with
  | blanks hall hb' =>
    rw [← heq] at hall
    exact absurd (visible_eq_nil (List.forall_mem_cons.1 hall).2) hne
  | char hc h =>
    cases heq
    rw [hb] at hc
    cases hc
  | @gap b b' cs' ds hne hb hne' hb' h =>
    obtain ⟨e, b', rfl⟩ := List.exists_cons_of_ne_nil hne'
    exact ⟨e, b' ++ ds, rfl, hb' e List.mem_cons_self⟩

end SameWords

end DiagramText.Text

namespace DiagramText.Markup

open Text DiagramText.Measure

/-! ### Single spaces -/

theorem words_of_blank {b : List Char} (hb : ∀ c ∈ b, isBlank c = true) (cs : List Char) :
    words (b ++ cs) = words cs := by
  induction b with
  | nil => rfl
  | cons c b ih =>
    obtain ⟨hc, hb⟩ := List.forall_mem_cons.1 hb
    have hsplit := words_append hc [] (b ++ cs)
    rw [List.nil_append] at hsplit
    rw [List.cons_append, hsplit, ih hb]
    rfl

theorem singleSpaced_of_blank {b : List Char} (hb : ∀ c ∈ b, isBlank c = true) (cs : List Char) :
    singleSpaced (b ++ cs) = singleSpaced cs := by
  rw [singleSpaced, singleSpaced, words_of_blank hb]

/-- A word `w` with blanks `b` behind it becomes the word. -/
theorem singleSpaced_word {w b : List Char} (hne : w ≠ []) (hw : ∀ c ∈ w, isBlank c = false)
    (hb : ∀ c ∈ b, isBlank c = true) : singleSpaced (w ++ b) = w := by
  have hwords : words (w ++ b) = [w] := by
    cases b with
    | nil => rw [List.append_nil, words_eq_self hne hw]
    | cons e b =>
      obtain ⟨he, hb⟩ := List.forall_mem_cons.1 hb
      rw [words_append he, words_eq_self hne hw, ← List.append_nil b, words_of_blank hb]
      rfl
  rw [singleSpaced, hwords]
  simp [List.intercalate]

/-- A word `w` with blanks `b` behind it, and other words behind those, becomes the word, one space
and the other words. -/
theorem singleSpaced_append {w b cs : List Char} (hne : w ≠ []) (hw : ∀ c ∈ w, isBlank c = false)
    (hb : b ≠ []) (hblank : ∀ c ∈ b, isBlank c = true) (hcs : words cs ≠ []) :
    singleSpaced (w ++ b ++ cs) = w ++ ' ' :: singleSpaced cs := by
  obtain ⟨e, b, rfl⟩ := List.exists_cons_of_ne_nil hb
  obtain ⟨he, hblank⟩ := List.forall_mem_cons.1 hblank
  obtain ⟨v, vs, hwords⟩ := List.exists_cons_of_ne_nil hcs
  have hsplit := words_append he w (b ++ cs)
  rw [words_eq_self hne hw, words_of_blank hblank, hwords] at hsplit
  rw [List.append_assoc, List.cons_append, singleSpaced, singleSpaced, hsplit, hwords]
  simp [List.intercalate]

theorem words_ne_nil {c : Char} (hc : isBlank c = false) (cs : List Char) :
    words (c :: cs) ≠ [] := by
  obtain ⟨f, fs, -, hfields⟩ := fields_append_left (b := [c]) (by simpa using hc) cs
  rw [words, show c :: cs = [c] ++ cs from rfl, hfields, List.filter_cons_of_pos (by simp)]
  exact List.cons_ne_nil _ _

/-- A text `cs` that does not start with a blank keeps its words when its runs of blanks become
single spaces. -/
theorem sameWords_singleSpaced {cs : List Char} (hhead : ∀ c ∈ cs.head?, isBlank c = false) :
    SameWords cs (singleSpaced cs) := by
  induction hlen : cs.length using Nat.strongRecOn generalizing cs with
  | _ len ih =>
    cases cs with
    | nil => exact .blanks (List.forall_mem_nil _) (List.forall_mem_nil _)
    | cons c cs =>
      -- the rest `w` of the first word, the blanks `b` behind it, and the other words
      obtain ⟨w, r, rfl, hw, hr, -⟩ := exists_run (!isBlank ·) cs
      obtain ⟨b, r, rfl, hb, hhead', -⟩ := exists_run isBlank r
      have hword : ∀ e ∈ c :: w, isBlank e = false :=
        List.forall_mem_cons.2 ⟨hhead c rfl, fun e he => by simpa using hw e he⟩
      have hne := List.cons_ne_nil c w
      rw [← List.append_assoc, ← List.cons_append, ← List.cons_append]
      cases r with
      | nil =>
        rw [List.append_nil, singleSpaced_word hne hword hb]
        have := (SameWords.blanks hb (List.forall_mem_nil _)).append_left hword
        rwa [List.append_nil] at this
      | cons e r =>
        have hb' : b ≠ [] := by
          rintro rfl
          have hclash := hr e rfl
          rw [hhead' e rfl] at hclash
          cases hclash
        have hrest := ih (e :: r).length (by simp at hlen ⊢; omega) hhead' rfl
        rw [singleSpaced_append hne hword hb' hb (words_ne_nil (hhead' e rfl) r), List.append_assoc]
        apply SameWords.append_left hword
        exact @SameWords.gap _ [' '] _ _ hb' hb (by simp) (by decide) hrest

/-! ### Tags do not depend on blanks -/

/-- The first bracket of a text `cs` is found among its visible characters, since no bracket is a
blank. -/
theorem find?_visible (cs : List Char) : (visible cs).find? isBracket = cs.find? isBracket := by
  rw [visible, List.find?_filter]
  congr 1
  funext c
  cases hc : isBlank c with
  | true => simp [isBracket_of_isBlank hc]
  | false => simp

/-- A tag at the start of the text `cs` is one in every text with the same words: no name of a tag
has a blank in it, and any number of blanks may stand behind the name. -/
theorem tag_ne_zero_of_sameWords {cs ds : List Char} (h : SameWords cs ds) (htag : tag cs ≠ 0) :
    tag ds ≠ 0 := by
  obtain ⟨t, v, ⟨o, a, ho, ha, rfl⟩, rfl⟩ := exists_of_tag htag
  rw [List.append_assoc, List.append_assoc] at h
  obtain ⟨es, rfl, hes⟩ := h.exists_append ho.not_isBlank
  -- with its opening the tag needs attributes up to the next bracket, and that it closes the tag
  obtain ⟨a', v', ha', rfl⟩ : ∃ a' v', IsAttributes a' ∧ es = a' ++ '>' :: v' := by
    rcases ha with rfl | rfl | ⟨b, r, rfl, hb, hr⟩
    · obtain ⟨v', rfl, -⟩ := hes.exists_cons (by decide)
      exact ⟨[], v', .inl rfl, rfl⟩
    · obtain ⟨rest, rfl, hrest⟩ := hes.exists_cons (by decide)
      obtain ⟨v', rfl, -⟩ := hrest.exists_cons (by decide)
      exact ⟨['/'], v', .inr (.inl rfl), rfl⟩
    · have hmem : '>' ∈ visible (r ++ (['>'] ++ v)) := mem_visible.2 ⟨by simp, by decide⟩
      obtain ⟨b', rest, rfl, hb'⟩ := hes.exists_blank hb (List.ne_nil_of_mem hmem)
      have hr' : (b :: r).find? isBracket = none :=
        List.find?_eq_none.2 fun c hc => by simp [(List.forall_mem_cons.2
          ⟨isBracket_of_isBlank hb, hr⟩ : ∀ c ∈ b :: r, isBracket c = false) c hc]
      have hfirst : (b' :: rest).find? isBracket = some '>' := by
        rw [← find?_visible, ← hes.visible_eq, find?_visible, List.find?_append, hr']
        rfl
      obtain ⟨-, a', v', heq, ha'⟩ := List.find?_eq_some_iff_append.1 hfirst
      cases a' with
      | nil =>
        obtain ⟨rfl, -⟩ := List.cons.inj heq
        exact absurd hb' (by decide)
      | cons e a' =>
        obtain ⟨rfl, rfl⟩ := List.cons.inj heq
        refine ⟨b' :: a', v', .inr (.inr ⟨b', a', rfl, hb', fun c hc => ?_⟩), rfl⟩
        simpa using ha' c (List.mem_cons_of_mem _ hc)
  exact tag_ne_zero_iff.2 ⟨o ++ a' ++ ['>'], ⟨o, a', ho, ha', rfl⟩, v', by simp⟩

theorem hasTag_blanks {b : List Char} (hb : ∀ c ∈ b, isBlank c = true) (cs : List Char) :
    hasTag (b ++ cs) = hasTag cs := by
  induction b with
  | nil => rfl
  | cons c b ih =>
    obtain ⟨hc, hb⟩ := List.forall_mem_cons.1 hb
    have hne := (ne_of_isBracket_eq_false (isBracket_of_isBlank hc)).1
    rw [List.cons_append, hasTag, tag_cons_of_ne hne, ih hb]
    rfl

theorem hasTag_of_sameWords {cs ds : List Char} (h : SameWords cs ds) (htag : hasTag cs = true) :
    hasTag ds = true := by
  induction h with
  | @blanks b b' hb hb' =>
    rw [← List.append_nil b, hasTag_blanks hb] at htag
    cases htag
  | char hc h ih =>
    rcases (hasTag_cons _ _).1 htag with htag | htag
    · exact (hasTag_cons _ _).2 (.inl (tag_ne_zero_of_sameWords (.char hc h) htag))
    · exact (hasTag_cons _ _).2 (.inr (ih htag))
  | gap hne hb hne' hb' h ih =>
    rw [hasTag_blanks hb] at htag
    rw [hasTag_blanks hb']
    exact ih htag

/-- A text has a tag if and only if it has one with single spaces between its words. So it does not
matter whether tags are looked for in what `stripTags` leaves or in what is rendered. -/
theorem hasTag_singleSpaced (cs : List Char) : hasTag (singleSpaced cs) = hasTag cs := by
  obtain ⟨b, r, rfl, hb, hhead, -⟩ := exists_run isBlank cs
  have h := sameWords_singleSpaced hhead
  rw [singleSpaced_of_blank hb, hasTag_blanks hb, Bool.eq_iff_iff]
  exact ⟨hasTag_of_sameWords h.symm, hasTag_of_sameWords h⟩

theorem visible_singleSpaced (cs : List Char) : visible (singleSpaced cs) = visible cs := by
  obtain ⟨b, r, rfl, hb, hhead, -⟩ := exists_run isBlank cs
  rw [singleSpaced_of_blank hb, visible_append, visible_eq_nil hb, List.nil_append,
    (sameWords_singleSpaced hhead).visible_eq]

/-! ### What a pass over the tags removes -/

theorem Loses.mem {cs ds : List Char} (h : Loses cs ds) {c : Char} (hc : c ≠ ' ') (hmem : c ∈ ds) :
    c ∈ cs := by
  induction h with
  | nil => exact hmem
  | char d h ih =>
    rcases List.mem_cons.1 hmem with rfl | hmem
    · exact List.mem_cons_self
    · exact List.mem_cons_of_mem d (ih hmem)
  | tag ht h ih => exact List.mem_append_right _ (ih ((List.mem_cons.1 hmem).resolve_left hc))

theorem count_stripTags_le (cs : List Char) : (stripTags cs).count '<' ≤ cs.count '<' := by
  induction cs using tagInduction with
  | nil => exact Nat.le_of_eq (congrArg (List.count '<') stripTags_nil)
  | char c cs h ih =>
    rw [stripTags_cons h, List.count_cons, List.count_cons]
    omega
  | tag t cs ht ih =>
    rw [stripTags_append ht, List.count_append, List.count_cons_of_ne (by decide)]
    omega

/-- Each tag of `cs` takes its opening bracket with it, so fewer brackets are left. -/
theorem count_stripTags_lt {cs : List Char} (h : hasTag cs = true) :
    (stripTags cs).count '<' < cs.count '<' := by
  induction cs using tagInduction with
  | nil => cases h
  | char c cs hnone ih =>
    have hlt := ih (((hasTag_cons c cs).1 h).resolve_left fun hne => hne hnone)
    rw [stripTags_cons hnone, List.count_cons, List.count_cons]
    omega
  | tag t cs ht ih =>
    have hle := count_stripTags_le cs
    have hpos : 0 < t.count '<' := by
      obtain ⟨r, rfl, -⟩ := ht.exists_inside
      exact List.count_pos_iff.2 List.mem_cons_self
    rw [stripTags_append ht, List.count_append, List.count_cons_of_ne (by decide)]
    omega

/-- Emphasis is removed without adding characters: what is left is a sublist of `cs`. -/
theorem stripEmphasis_sublist (cs : List Char) : (stripEmphasis cs).Sublist cs := by
  fun_induction stripEmphasis cs with
  | case1 => exact List.Sublist.refl _
  | case2 c rest mark text h ih =>
    -- the mark, the text and the rest, of which the mark at its start is left out
    have hrest : (rest.drop (2 * mark + text - 1)).Sublist (((c :: rest).drop mark).drop text) := by
      rw [List.drop_drop, ← List.drop_succ_cons (a := c)]
      exact List.drop_sublist_drop_left _ (by omega)
    have hparts := (List.Sublist.refl (((c :: rest).drop mark).take text)).append (ih.trans hrest)
    rw [List.take_append_drop] at hparts
    exact hparts.trans (List.drop_sublist mark (c :: rest))
  | case3 c rest h ih => exact ih.cons_cons c

theorem eq_of_markdownBody? {cs body : List Char} (h : markdownBody? cs = some body) :
    cs = backtick :: (body ++ [backtick]) ∧ backtick ∉ body := by
  unfold markdownBody? at h
  split at h
  · next c cs =>
    split at h
    · next hc =>
      cases h
      simp only [Bool.and_eq_true, decide_eq_true_eq, Bool.not_eq_true', List.contains_eq_mem,
        decide_eq_false_iff_not] at hc
      obtain ⟨⟨rfl, hlast⟩, hnone⟩ := hc
      obtain ⟨body, rfl⟩ := List.getLast?_eq_some_iff.1 hlast
      rw [List.dropLast_concat] at hnone ⊢
      exact ⟨rfl, hnone⟩
    · cases h
  · cases h

end DiagramText.Markup

namespace DiagramText

open Text Markup

/-! ### Texts without ampersands -/

theorem Reference.resolve_eq_self {cs : List Char} (h : '&' ∉ cs) : resolve cs = cs := by
  induction cs with
  | nil => rw [resolve]
  | cons c cs ih =>
    rw [List.mem_cons, not_or] at h
    rw [resolve, if_neg (Ne.symm h.1), ih h.2]

theorem Reference.hasOversizedNumber_eq_false {cs : List Char} (h : '&' ∉ cs) :
    hasOversizedNumber cs = false := by
  fun_induction hasOversizedNumber cs with
  | case1 => rfl
  | case2 cs ih => exact absurd List.mem_cons_self h
  | case3 c cs _ ih => exact ih fun hmem => h (List.mem_cons_of_mem c hmem)

namespace Content

variable {text : String}

theorem ofText?_eq_some (h : '&' ∉ text.toList) : ofText? text = some (ofText text) := by
  have hstrip : '&' ∉ stripTags text.toList := fun hmem =>
    h ((loses_stripTags _).mem (by decide) hmem)
  rw [ofText?, isOversized, Reference.hasOversizedNumber_eq_false hstrip, Bool.and_false]
  rfl

/-- A label of kind `html` is no markdown and has a tag. -/
theorem of_kind_html (h : (ofText text).kind = .html) :
    markdownBody? text.toList = none ∧ hasTag text.toList = true := by
  unfold ofText at h
  split at h
  · cases h
  · next hbody =>
    split at h
    · next htag => exact ⟨hbody, htag⟩
    · cases h

/-- The rendering of a label of kind `html`: its tags become spaces, and then its runs of blanks
single spaces. Entities play no part where there is no ampersand. -/
theorem toList_text_of_kind_html (hamp : '&' ∉ text.toList) (h : (ofText text).kind = .html) :
    (ofText text).text.toList = singleSpaced (stripTags text.toList) := by
  obtain ⟨hbody, htag⟩ := of_kind_html h
  have hstrip : '&' ∉ stripTags text.toList := fun hmem =>
    hamp ((loses_stripTags _).mem (by decide) hmem)
  rw [ofText, hbody]
  simp [htag, Content.text, plainOfHtml, Reference.resolve_eq_self hstrip]

/-- A label `text` without markup, neither between backticks nor with a tag, is rendered as it
is. -/
theorem text_eq_self (hbody : markdownBody? text.toList = none)
    (htag : hasTag text.toList = false) : (ofText text).text = text := by
  rw [ofText, hbody]
  simp [htag, Content.text, plain]

/-- A label `text` in markdown is rendered without its backticks, so its visible characters do not
stay the same. -/
theorem visible_text_ne_of_markdown {body : List Char}
    (hbody : markdownBody? text.toList = some body) :
    visible (ofText text).text.toList ≠ visible text.toList := by
  intro heq
  obtain ⟨htext, hnone⟩ := eq_of_markdownBody? hbody
  have hmem : backtick ∈ visible text.toList :=
    mem_visible.2 ⟨htext ▸ List.mem_cons_self, by decide⟩
  rw [← heq, mem_visible, ofText, hbody] at hmem
  have hrendered : backtick ∈ stripEmphasis body := by simpa [Content.text] using hmem.1
  exact hnone ((stripEmphasis_sublist body).subset hrendered)

/-- A label of kind `html` is rendered with fewer brackets, so its visible characters do not stay
the same. -/
theorem visible_text_ne_of_html (hamp : '&' ∉ text.toList) (h : (ofText text).kind = .html) :
    visible (ofText text).text.toList ≠ visible text.toList := by
  intro heq
  have hlt := count_stripTags_lt (of_kind_html h).2
  have hcount : ∀ cs, (visible cs).count '<' = cs.count '<' := fun cs =>
    List.count_filter (by decide)
  rw [toList_text_of_kind_html hamp h, visible_singleSpaced] at heq
  rw [← hcount, ← hcount text.toList, heq] at hlt
  exact Nat.lt_irrefl _ hlt

/-- A `text` that is taken for a label keeps its visible characters if and only if it has no tag and
does not stand between backticks. Then it is rendered as it is. -/
theorem visible_text_eq_iff (hamp : '&' ∉ text.toList) :
    visible (ofText text).text.toList = visible text.toList ↔
      hasTag text.toList = false ∧ markdownBody? text.toList = none := by
  constructor
  · intro heq
    cases hbody : markdownBody? text.toList with
    | some body => exact absurd heq (visible_text_ne_of_markdown hbody)
    | none =>
      refine ⟨Bool.eq_false_iff.2 fun htag => visible_text_ne_of_html hamp ?_ heq, rfl⟩
      rw [ofText, hbody]
      simp [htag]
  · rintro ⟨htag, hbody⟩
    rw [text_eq_self hbody htag]

/-- A label `text` in inline HTML without ampersands is always rendered. The rendering has a tag if
and only if there is a nest in the label. Taken for a label again, it is rendered with the same
visible characters if and only if there is no nest in the label and no backticks make it markdown,
and then it stays as it is. -/
theorem rendering_iff (hamp : '&' ∉ text.toList) (hkind : (ofText text).kind = .html) :
    ∃ label again, ofText? text = some label ∧ label.kind = .html ∧
      ofText? label.text = some again ∧
      ((∃ t, IsTag t ∧ t <:+: label.text.toList) ↔ ∃ w, IsNest w ∧ w <:+: text.toList) ∧
      (visible again.text.toList = visible label.text.toList ↔
        (¬∃ w, IsNest w ∧ w <:+: text.toList) ∧ markdownBody? label.text.toList = none) ∧
      (visible again.text.toList = visible label.text.toList → again.text = label.text) := by
  have hrendered := toList_text_of_kind_html hamp hkind
  have hamp' : '&' ∉ (ofText text).text.toList := fun hmem => by
    have hvisible : '&' ∈ visible (singleSpaced (stripTags text.toList)) :=
      mem_visible.2 ⟨hrendered ▸ hmem, by decide⟩
    rw [visible_singleSpaced, mem_visible] at hvisible
    exact hamp ((loses_stripTags _).mem (by decide) hvisible.1)
  have htag : hasTag (ofText text).text.toList = true ↔ ∃ w, IsNest w ∧ w <:+: text.toList := by
    rw [hrendered, hasTag_singleSpaced, hasTag_stripTags_iff]
  have hagain := visible_text_eq_iff hamp'
  refine ⟨ofText text, ofText (ofText text).text, ofText?_eq_some hamp, hkind,
    ofText?_eq_some hamp', by rw [← htag, hasTag_iff], ?_, fun heq => ?_⟩
  · rw [hagain, ← htag, Bool.not_eq_true]
  · obtain ⟨hnone, hbody⟩ := hagain.1 heq
    exact text_eq_self hbody hnone

/-- Nothing is nested in `a<br/>b`, so its rendering has no tag and is rendered as it is. -/
theorem rendering_iff_break : '&' ∉ "a<br/>b".toList ∧ (ofText "a<br/>b").kind = .html ∧
    ∃ label again, ofText? "a<br/>b" = some label ∧ ofText? label.text = some again ∧
      (¬∃ t, IsTag t ∧ t <:+: label.text.toList) ∧ (¬∃ w, IsNest w ∧ w <:+: "a<br/>b".toList) ∧
      again.text = label.text := by
  have hamp : '&' ∉ "a<br/>b".toList := by decide
  have hkind : (ofText "a<br/>b").kind = .html := by decide +kernel
  obtain ⟨label, again, hlabel, -, hagain, htag, hsame, heq⟩ := rendering_iff hamp hkind
  obtain rfl : label = ⟨"a<br/>b", .html, some "a b"⟩ := by
    rw [ofText?_eq_some hamp] at hlabel
    rw [← Option.some.inj hlabel]
    decide +kernel
  have hnone : ¬∃ t, IsTag t ∧ t <:+: "a b".toList := by
    rw [← hasTag_iff]
    decide
  have hnest : ¬∃ w, IsNest w ∧ w <:+: "a<br/>b".toList := fun h => hnone (htag.2 h)
  exact ⟨hamp, hkind, _, again, hlabel, hagain, hnone, hnest, heq (hsame.2 ⟨hnest, by decide⟩)⟩

/-- A tag inside a tag leaves a space there, and with it the one around it is a tag that is rendered
as well. When that is taken for a label again, nothing is left. -/
theorem tag_left_over : '&' ∉ "<a<b>>".toList ∧ (ofText "<a<b>>").kind = .html ∧
    hasTag (ofText "<a<b>>").text.toList = true ∧
      visible (ofText (ofText "<a<b>>").text).text.toList ≠ visible (ofText "<a<b>>").text.toList :=
  ⟨by decide, by decide +kernel, by decide +kernel, by decide +kernel⟩

end Content
end DiagramText
