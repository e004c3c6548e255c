import DiagramText.Entities.Notation
import DiagramText.Proofs.Text.Blank

/-!
# Attributes that are written and read

* `Entities.Attribute.parse?_text`: an attribute is read from the text that is written for it.
* `Entities.Attribute.respaced_of_parse?`: a text that is read as an attribute is the one that is
  written for it, up to the length of its gaps.
* `Entities.Attribute.ofText_text_iff_wellFormed`: which attributes are read, and read back.
-/

namespace DiagramText.Entities

open Text

/-- The key `k` is what its text is read as, whatever stands behind it. -/
theorem AttributeKey.split?_text (k : AttributeKey) (cs : List Char) :
    split? (k.text.toList ++ cs) = some (k, cs) := by
  cases k <;> rfl

theorem AttributeKey.eq_of_split? {cs rest : List Char} {k : AttributeKey}
    (h : split? cs = some (k, rest)) : cs = k.text.toList ++ rest := by
  unfold split? at h
  split at h <;> cases h <;> rfl

theorem AttributeKey.not_isBlank (k : AttributeKey) :
    ∀ c ∈ k.text.toList, isBlank c = false := by
  cases k <;> decide

namespace Attribute

/-- What reading an attribute `a` makes sure of: the type and the name are words, and no double
quote is in the comment. -/
structure WellFormed (a : Attribute) : Prop where
  type_ne : a.type.toList ≠ []
  type_word : ∀ c ∈ a.type.toList, isBlank c = false
  name_ne : a.name.toList ≠ []
  name_word : ∀ c ∈ a.name.toList, isBlank c = false
  comment : ∀ c ∈ a.comment, '"' ∉ c.toList

/-! ### The text of an attribute -/

/-- A `comment` as it is written: behind a space, between double quotes. -/
def commentText (comment : Option String) : List Char :=
  comment.elim [] fun c => ' ' :: '"' :: (c.toList ++ ['"'])

/-- A `key` and a `comment` as they are written, each behind a space, if they are there. -/
def tailText (key : Option AttributeKey) (comment : Option String) : List Char :=
  (key.elim [] fun k => ' ' :: k.text.toList) ++ commentText comment

theorem toList_text (a : Attribute) : a.text.toList =
    a.type.toList ++ ([' '] ++ (a.name.toList ++ tailText a.key a.comment)) := by
  obtain ⟨type, name, key, comment⟩ := a
  cases key <;> cases comment <;> simp [text, tailText, commentText, toList_doubleQuoted]

/-! ### Reading what is written -/

/-- The blanks before the text `cs` are skipped, if there is at least one. -/
theorem afterBlanks?_cons {c : Char} {cs : List Char} (hcs : ∀ e ∈ cs.head?, isBlank e = false)
    (hc : isBlank c = true) : afterBlanks? (c :: cs) = some cs := by
  simp [afterBlanks?, trimLeft, hc, dropWhile_eq_self hcs]

theorem comment?_quoted {cs : List Char} (h : '"' ∉ cs) :
    comment? ('"' :: (cs ++ ['"'])) = some (String.ofList cs) := by
  simp [comment?, h]

theorem commentPart?_text {comment : Option String} (h : ∀ c ∈ comment, '"' ∉ c.toList) :
    commentPart? (commentText comment) = some comment := by
  cases comment with
  | none => rfl
  | some c =>
    rw [commentText, Option.elim_some, commentPart?, if_neg (by simp),
      afterBlanks?_cons (by simp [isBlank]) (by decide), Option.bind_some,
      comment?_quoted (h c rfl), String.ofList_toList]
    rfl

theorem tail?_text {key : Option AttributeKey} {comment : Option String}
    (h : ∀ c ∈ comment, '"' ∉ c.toList) :
    tail? (tailText key comment) = some (key, comment) := by
  cases key with
  | none =>
    have hsplit : (afterBlanks? (commentText comment)).bind AttributeKey.split? = none := by
      cases comment with
      | none => rfl
      | some c =>
        rw [commentText, Option.elim_some, afterBlanks?_cons (by simp [isBlank]) (by decide)]
        rfl
    rw [tailText, Option.elim_none, List.nil_append, tail?, hsplit]
    dsimp only
    rw [commentPart?_text h, Option.map_some]
  | some k =>
    have hhead : ∀ c ∈ (k.text.toList ++ commentText comment).head?, isBlank c = false := by
      cases k <;> simp [AttributeKey.text, isBlank]
    rw [tailText, Option.elim_some, List.cons_append, tail?, afterBlanks?_cons hhead (by decide),
      Option.bind_some, AttributeKey.split?_text]
    dsimp only
    rw [commentPart?_text h, Option.map_some]

theorem head?_tailText (key : Option AttributeKey) (comment : Option String) :
    ∀ c ∈ (tailText key comment).head?, isBlank c = true := by
  cases key <;> cases comment <;> simp [tailText, commentText, isBlank]

/-- A text that starts with a word `w` does not start with a blank. -/
theorem head_word {w : List Char} (hne : w ≠ []) (hw : ∀ c ∈ w, isBlank c = false)
    (cs : List Char) : ∀ c ∈ (w ++ cs).head?, isBlank c = false := by
  obtain ⟨e, w, rfl⟩ := List.exists_cons_of_ne_nil hne
  rintro c ⟨⟩
  exact hw e List.mem_cons_self

/-- A well-formed attribute `a` is read from the text that is written for it, with the same key and
comment. -/
theorem parse?_text {a : Attribute} (h : a.WellFormed) : parse? a.text.toList = some a := by
  have hspace : ∀ c ∈ ([' '] ++ (a.name.toList ++ tailText a.key a.comment)).head?,
      isBlank c = true := by simp [isBlank]
  obtain ⟨htype, hrest⟩ := takeWhile_word h.type_word hspace
  obtain ⟨hname, htail⟩ := takeWhile_word h.name_word (head?_tailText a.key a.comment)
  have hskip : trimLeft ([' '] ++ (a.name.toList ++ tailText a.key a.comment)) =
      a.name.toList ++ tailText a.key a.comment := by
    rw [trimLeft, List.singleton_append, List.dropWhile_cons_of_pos (by decide)]
    exact dropWhile_eq_self (head_word h.name_ne h.name_word _)
  rw [toList_text, parse?]
  simp only [htype, hrest, hskip, hname, htail, tail?_text h.comment, String.ofList_toList]
  rw [if_neg (by simp [h.type_ne, h.name_ne])]
  rfl

/-! ### What is read -/

/-- What stands before the `rest` of a plain text is a gap `b`, since something had to be
skipped. -/
theorem exists_gap_of_afterBlanks? {cs rest : List Char} (hcs : Plain cs)
    (h : afterBlanks? cs = some rest) : ∃ b, Gap b ∧ cs = b ++ rest := by
  rw [afterBlanks?] at h
  split at h
  · next hhead =>
    cases h
    refine ⟨cs.takeWhile isBlank, ⟨?_, fun c hc => ?_⟩, List.takeWhile_append_dropWhile.symm⟩
    · cases cs with
      | nil => cases hhead
      | cons c cs => rw [List.takeWhile_cons_of_pos (by simpa using hhead)]; nofun
    · exact hcs c ((List.takeWhile_sublist _).subset hc)
        (List.all_eq_true.1 List.all_takeWhile c hc)
  · cases h

theorem eq_of_comment? {cs : List Char} {s : String} (h : comment? cs = some s) :
    cs = '"' :: (s.toList ++ ['"']) ∧ '"' ∉ s.toList := by
  unfold comment? at h
  split at h
  · next cs =>
    split at h
    · next hq =>
      rw [Bool.and_eq_true, decide_eq_true_eq, Bool.not_eq_true', List.contains_eq_mem,
        decide_eq_false_iff_not] at hq
      cases h
      rw [String.toList_ofList]
      refine ⟨?_, hq.2⟩
      obtain ⟨hne, hlast⟩ := List.getLast?_eq_some_iff.1 hq.1
      rw [hlast, List.dropLast_concat]
    · cases h
  · cases h

/-- No double quote is in a `comment` that was read, since a comment ends at the first. -/
theorem quoteless_of_commentPart? {cs : List Char} {comment : Option String}
    (h : commentPart? cs = some comment) : ∀ c ∈ comment, '"' ∉ c.toList := by
  rw [commentPart?] at h
  split at h
  · cases h
    exact nofun
  · obtain ⟨rest, -, h⟩ := Option.bind_eq_some_iff.1 h
    obtain ⟨s, hs, rfl⟩ := Option.map_eq_some_iff.1 h
    rintro _ ⟨⟩
    exact (eq_of_comment? hs).2

theorem quoteless_of_tail? {cs : List Char} {key : Option AttributeKey} {comment : Option String}
    (h : tail? cs = some (key, comment)) : ∀ c ∈ comment, '"' ∉ c.toList := by
  unfold tail? at h
  split at h
  all_goals
    obtain ⟨comment, hcomment, hpair⟩ := Option.map_eq_some_iff.1 h
    cases hpair
    exact quoteless_of_commentPart? hcomment

/-- The parts of a text that is read as the attribute `a`: its type, a gap, its name, and the tail
that the key and the comment are read from. -/
theorem exists_parts_of_parse? {cs : List Char} {a : Attribute} (h : parse? cs = some a) :
    a.WellFormed ∧ ∃ rest tail, cs = a.type.toList ++ rest ∧
      afterBlanks? rest = some (a.name.toList ++ tail) ∧ tail? tail = some (a.key, a.comment) := by
  have hword : ∀ cs : List Char, ∀ c ∈ cs.takeWhile (!isBlank ·), isBlank c = false :=
    fun cs c hc => by simpa using List.all_eq_true.1 List.all_takeWhile c hc
  rw [parse?] at h
  generalize htype : cs.takeWhile (!isBlank ·) = type at h
  generalize hrest : cs.dropWhile (!isBlank ·) = rest at h
  generalize hname : (trimLeft rest).takeWhile (!isBlank ·) = name at h
  generalize htail : (trimLeft rest).dropWhile (!isBlank ·) = tail at h
  dsimp only at h
  split at h
  · cases h
  rename_i hne
  obtain ⟨⟨key, comment⟩, hkey, ha⟩ := Option.bind_eq_some_iff.1 h
  cases ha
  -- Both words have characters, or nothing would have been read.
  simp only [Bool.or_eq_true, List.isEmpty_iff, not_or] at hne
  have hrest' : trimLeft rest = name ++ tail := by
    rw [← hname, ← htail, List.takeWhile_append_dropWhile]
  -- The type ends at a blank, so there is one before the name.
  have hblank : afterBlanks? rest = some (name ++ tail) := by
    have hhead := List.head?_dropWhile_not (!isBlank ·) cs
    rw [hrest] at hhead
    cases rest with
    | nil => exact absurd (List.append_eq_nil_iff.1 hrest'.symm).1 hne.2
    | cons c rest => rw [afterBlanks?, if_pos (by simpa using hhead), hrest']
  have htypeWord := htype ▸ hword cs
  have hnameWord := hname ▸ hword (trimLeft rest)
  simp only [String.toList_ofList]
  refine ⟨⟨?_, ?_, ?_, ?_, quoteless_of_tail? hkey⟩, rest, tail, ?_, hblank, hkey⟩
  · rw [String.toList_ofList]
    exact hne.1
  · rwa [String.toList_ofList]
  · rw [String.toList_ofList]
    exact hne.2
  · rwa [String.toList_ofList]
  · rw [← htype, ← hrest, List.takeWhile_append_dropWhile]

/-! ### Gaps -/

theorem respaced_of_commentPart? {cs : List Char} {comment : Option String} (hcs : Plain cs)
    (h : commentPart? cs = some comment) : Respaced cs (commentText comment) := by
  rw [commentPart?] at h
  split at h
  · next hnil =>
    cases h
    rw [List.isEmpty_iff.1 hnil]
    exact .nil
  · obtain ⟨rest, hrest, h⟩ := Option.bind_eq_some_iff.1 h
    obtain ⟨s, hs, rfl⟩ := Option.map_eq_some_iff.1 h
    obtain ⟨b, hb, rfl⟩ := exists_gap_of_afterBlanks? hcs hrest
    obtain ⟨rfl, -⟩ := eq_of_comment? hs
    exact .gap hb gap_space (.refl _)

theorem respaced_of_tail? {cs : List Char} {key : Option AttributeKey} {comment : Option String}
    (hcs : Plain cs) (h : tail? cs = some (key, comment)) : Respaced cs (tailText key comment) := by
  unfold tail? at h
  split at h
  · next k rest hkey =>
    obtain ⟨afterGap, hgap, hsplit⟩ := Option.bind_eq_some_iff.1 hkey
    obtain ⟨comment, hcomment, hpair⟩ := Option.map_eq_some_iff.1 h
    cases hpair
    obtain ⟨b, hb, rfl⟩ := exists_gap_of_afterBlanks? hcs hgap
    obtain rfl := AttributeKey.eq_of_split? hsplit
    have hrest := respaced_of_commentPart? (hcs.of_subset (by simp +contextual)) hcomment
    show Respaced (b ++ (k.text.toList ++ rest)) ([' '] ++ (k.text.toList ++ commentText comment))
    apply Respaced.gap hb gap_space
    exact .append_left (fun c hc => isSpaceOrTab_of_not_isBlank (k.not_isBlank c hc)) hrest
  · obtain ⟨comment, hcomment, hpair⟩ := Option.map_eq_some_iff.1 h
    cases hpair
    exact respaced_of_commentPart? hcs hcomment

/-- A plain text `cs` that is read as an attribute `a` is the one that is written for it, up to the
length of its gaps. -/
theorem respaced_of_parse? {cs : List Char} {a : Attribute} (hcs : Plain cs)
    (h : parse? cs = some a) : a.WellFormed ∧ Respaced cs a.text.toList := by
  obtain ⟨hwell, rest, tail, rfl, hblank, htail⟩ := exists_parts_of_parse? h
  rw [Plain.append] at hcs
  obtain ⟨b, hb, rfl⟩ := exists_gap_of_afterBlanks? hcs.2 hblank
  have htailPlain : Plain tail := hcs.2.of_subset (by simp +contextual)
  refine ⟨hwell, ?_⟩
  rw [toList_text]
  exact .append_left (fun c hc => isSpaceOrTab_of_not_isBlank (hwell.type_word c hc))
    (.gap hb gap_space
      (.append_left (fun c hc => isSpaceOrTab_of_not_isBlank (hwell.name_word c hc))
        (respaced_of_tail? htailPlain htail)))

/-! ### The attributes that are read -/

theorem last_tailText (key : Option AttributeKey) (comment : Option String) :
    ∀ c ∈ (tailText key comment).getLast?, isBlank c = false := by
  apply last_append
  · cases key with
    | none => exact nofun
    | some k => cases k <;> decide
  · cases comment with
    | none => exact nofun
    | some c =>
      rw [commentText, Option.elim_some, ← List.cons_append, ← List.cons_append,
        List.getLast?_concat]
      decide

/-- What is written for an attribute `a` neither starts nor ends with a blank. -/
theorem WellFormed.trimmed_text {a : Attribute} (h : a.WellFormed) : Trimmed a.text.toList := by
  have htype : ∀ c ∈ a.type.toList.head?, isBlank c = false := fun c hc =>
    h.type_word c (List.mem_of_head? hc)
  have hname : Trimmed (a.name.toList ++ tailText a.key a.comment) :=
    ⟨head_word h.name_ne h.name_word _,
      last_append (fun c hc => h.name_word c (List.mem_of_getLast? hc)) (last_tailText _ _)⟩
  rw [toList_text, ← List.append_assoc]
  exact Trimmed.append htype h.type_ne hname (List.append_ne_nil_of_left_ne_nil h.name_ne _)

theorem ofText_eq_ok_iff {text : String} {position : Option Position} {a : Attribute} :
    ofText text position = .ok a ↔ parse? (trim text.toList) = some a := by
  unfold ofText
  dsimp only
  split
  · next b hb => rw [hb, Except.ok.injEq, Option.some.injEq]
  · next hnone => simp [hnone]

/-- What is written for an attribute `a` is read as it exactly if its type and its name are words
and no double quote is in its comment; and only such attributes are read, whatever the text. -/
theorem ofText_text_iff_wellFormed (a : Attribute) (position : Option Position) :
    (ofText a.text position = .ok a ↔ a.WellFormed) ∧
      ∀ text, ofText text position = .ok a → a.WellFormed := by
  have hread : ∀ text, ofText text position = .ok a → a.WellFormed := fun text h =>
    (exists_parts_of_parse? (ofText_eq_ok_iff.1 h)).1
  refine ⟨⟨hread a.text, fun h => ?_⟩, hread⟩
  rw [ofText_eq_ok_iff, h.trimmed_text.trim_eq]
  exact parse?_text h

/-- A type, a name and a comment that look like other parts are told apart by their places. -/
example : ofText "PK \"FK\"  UK \"\"" none = .ok ⟨"PK", "\"FK\"", some .unique, some ""⟩ := by
  cbv

end Attribute
end DiagramText.Entities
