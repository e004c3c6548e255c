import DiagramText.Classes.Member
import DiagramText.Proofs.Text.Word

/-!
# Members that are written and read

A written member is taken apart from both ends: its visibility is told by a mark that no name starts
with, its parameters start at the first opening parenthesis, and the marks at its end are in no
name. So a type is there exactly if a space stands before the name.

* `Classes.Member.TypeFirst`: the type, if there is one, can stand before the name.
* `Classes.Member.ofText_text`: such a member is read from the text that is written for it.
* `Classes.Member.Readable`: the member can also stand in a document.
-/

namespace DiagramText.Classes

open Text

namespace Member

/-! ### Parts that can be told apart -/

/-- A type: ASCII word characters, with tildes behind the first, as in `List~int~`. -/
structure IsType (type : List Char) : Prop where
  ne_nil : type ≠ []
  head : ∀ c ∈ type.head?, isAsciiWord c = true
  tail : ∀ c ∈ type, isAsciiWord c = true ∨ c = '~'

/-- The characters that no parameters can hold: the one that ends them, and those that would end or
start another lexeme of the line. -/
def parameterStops : List Char := [')', '{', '}', '%', '"']

/-- Parameters: any text of one line without the characters of `parameterStops`, and without blanks
around it. -/
structure IsParameters (parameters : List Char) : Prop where
  plain : Plain parameters
  trim_eq : trim parameters = parameters
  stops : ∀ c ∈ parameters, c ∉ parameterStops

/-- A member `m` that can be told apart: a method with parameters, or an attribute without. -/
structure Readable (m : Member) : Prop where
  name : IsAsciiWord m.name.toList
  type : ∀ t ∈ m.type, IsType t.toList
  kind : m.kind = if m.parameters.isSome then .method else .attribute
  parameters : ∀ p ∈ m.parameters, IsParameters p.toList

/-- A member `m` with a type that can stand before the name, or with none: neither the type nor
the name has a blank or a parenthesis, and a member without a visibility does not start with its
mark. -/
structure TypeFirst (m : Member) : Prop where
  name : m.name.toList ≠ [] ∧ ∀ c ∈ m.name.toList, isBlank c = false ∧ c ≠ '('
  type : ∀ t ∈ m.type, t.toList ≠ [] ∧ ∀ c ∈ t.toList, isBlank c = false ∧ c ≠ '('
  kind : m.kind = if m.parameters.isSome then .method else .attribute
  parameters : ∀ p ∈ m.parameters, trim p.toList = p.toList ∧ ')' ∉ p.toList
  unmarked : m.parameters = none → ∀ c ∈ m.name.toList, isModifier c = false
  visibility : m.visibility = none →
    ∀ c ∈ (m.type.elim m.name.toList String.toList).head?, Visibility.ofMark? c = none

section Decidable

instance (type : List Char) : Decidable (IsType type) :=
  decidable_of_iff (type ≠ [] ∧ (∀ c ∈ type.head?, isAsciiWord c = true) ∧
      ∀ c ∈ type, isAsciiWord c = true ∨ c = '~')
    ⟨fun ⟨h₁, h₂, h₃⟩ => ⟨h₁, h₂, h₃⟩, fun ⟨h₁, h₂, h₃⟩ => ⟨h₁, h₂, h₃⟩⟩

instance (parameters : List Char) : Decidable (IsParameters parameters) :=
  decidable_of_iff (Plain parameters ∧ trim parameters = parameters ∧
      ∀ c ∈ parameters, c ∉ parameterStops)
    ⟨fun ⟨h₁, h₂, h₃⟩ => ⟨h₁, h₂, h₃⟩, fun ⟨h₁, h₂, h₃⟩ => ⟨h₁, h₂, h₃⟩⟩

instance (m : Member) : Decidable m.Readable :=
  decidable_of_iff (IsAsciiWord m.name.toList ∧ (∀ t ∈ m.type, IsType t.toList) ∧
      (m.kind = if m.parameters.isSome then .method else .attribute) ∧
        ∀ p ∈ m.parameters, IsParameters p.toList)
    ⟨fun ⟨h₁, h₂, h₃, h₄⟩ => ⟨h₁, h₂, h₃, h₄⟩, fun ⟨h₁, h₂, h₃, h₄⟩ => ⟨h₁, h₂, h₃, h₄⟩⟩

end Decidable

theorem IsType.isBlank_eq {type : List Char} (h : IsType type) :
    ∀ c ∈ type, isBlank c = false := by
  intro c hc
  rcases h.tail c hc with hword | rfl
  · exact isBlank_of_isAsciiWord hword
  · decide

theorem isModifier_eq_false {c : Char} (h : isAsciiWord c = true) : isModifier c = false := by
  have hne : ∀ e : Char, isAsciiWord e = false → c ≠ e := by
    rintro e he rfl
    rw [he] at h
    cases h
  simp [isModifier, hne '$' (by decide), hne '*' (by decide)]

/-- No word character `c` is the mark of a visibility. -/
theorem ofMark?_eq_none {c : Char} (h : isAsciiWord c = true) : Visibility.ofMark? c = none := by
  have hne : ∀ e : Char, isAsciiWord e = false → c ≠ e := by
    rintro e he rfl
    rw [he] at h
    cases h
  exact Visibility.ofMark?.eq_5 c (hne '+' (by decide)) (hne '-' (by decide)) (hne '#' (by decide))
    (hne '~' (by decide))

theorem Readable.typeFirst {m : Member} (h : m.Readable) : m.TypeFirst := by
  have hword : ∀ c, isAsciiWord c = true → isBlank c = false ∧ c ≠ '(' := by
    intro c hc
    refine ⟨isBlank_of_isAsciiWord hc, ?_⟩
    rintro rfl
    exact absurd hc (by decide)
  refine ⟨⟨h.name.1, fun c hc => hword c (h.name.2 c hc)⟩, fun t ht => ?_, h.kind, fun p hp => ?_,
    fun _ c hc => isModifier_eq_false (h.name.2 c hc), fun _ c hc => ofMark?_eq_none ?_⟩
  · obtain ⟨hne, -, hall⟩ := h.type t ht
    refine ⟨hne, fun c hc => ?_⟩
    rcases hall c hc with hc | rfl
    · exact hword c hc
    · decide
  · obtain ⟨-, htrim, hstops⟩ := h.parameters p hp
    exact ⟨htrim, fun hmem => hstops _ hmem (by decide)⟩
  · cases htype : m.type with
    | none =>
      rw [htype] at hc
      exact h.name.2 c (List.mem_of_head? hc)
    | some t =>
      rw [htype] at hc
      exact (h.type t htype).head c hc

/-! ### What is written -/

/-- A `type` as it is written before a name, with the space between them. -/
def typeChars (type : Option String) : List Char := type.elim [] fun t => t.toList ++ [' ']

/-- The `parameters` as they are written behind a name, in parentheses. -/
def parameterChars (parameters : Option String) : List Char :=
  parameters.elim [] fun p => '(' :: (p.toList ++ [')'])

/-- The marks at the end of a member, `$` before `*`. -/
def marks (isStatic isAbstract : Bool) : List Char :=
  (if isStatic then ['$'] else []) ++ if isAbstract then ['*'] else []

/-- A member `m` as it is written behind the mark of its visibility. -/
def chars (m : Member) : List Char := typeChars m.type ++
  (m.name.toList ++ (parameterChars m.parameters ++ marks m.isStatic m.isAbstract))

theorem toList_text_of_kind {m : Member} (htype : ∀ t ∈ m.type, t.toList ≠ [])
    (hkind : m.kind = if m.parameters.isSome then .method else .attribute) :
    m.text.toList = m.visibility.elim [] (fun v => [v.mark]) ++ m.chars := by
  obtain ⟨name, kind, visibility, type, parameters, isStatic, isAbstract⟩ := m
  have hfilter : type.filter (!·.isEmpty) = type := by
    cases type with
    | none => rfl
    | some t => simpa using htype t rfl
  rw [text, hfilter, hkind]
  cases visibility <;> cases type <;> cases parameters <;> cases isStatic <;> cases isAbstract <;>
    simp [chars, typeChars, parameterChars, marks, toString]

theorem toList_text {m : Member} (h : m.TypeFirst) :
    m.text.toList = m.visibility.elim [] (fun v => [v.mark]) ++ m.chars :=
  toList_text_of_kind (fun t ht => (h.type t ht).1) h.kind

/-! ### Characters of a member -/

/-- What holds of the characters that members are made of, and of those of its parameters, holds of
all characters of a member `m`. -/
theorem forall_mem_text {P : Char → Prop} {m : Member} (h : m.Readable)
    (hword : ∀ c, isAsciiWord c = true → P c)
    (hfixed : ∀ c ∈ ['+', '-', '#', '~', ' ', '(', ')', '$', '*'], P c)
    (hparameters : ∀ p ∈ m.parameters, ∀ c ∈ p.toList, P c) : ∀ c ∈ m.text.toList, P c := by
  have hone : ∀ c ∈ ['+', '-', '#', '~', ' ', '(', ')', '$', '*'], ∀ e ∈ [c], P e := fun c hc =>
    List.forall_mem_singleton.2 (hfixed c hc)
  rw [toList_text h.typeFirst, chars]
  refine List.forall_mem_append.2 ⟨?_, List.forall_mem_append.2 ⟨?_, List.forall_mem_append.2
    ⟨fun c hc => hword c (h.name.2 c hc), List.forall_mem_append.2 ⟨?_, ?_⟩⟩⟩⟩
  -- the visibility, the type, the parameters and the marks; the name stands above
  · cases m.visibility with
    | none => exact List.forall_mem_nil _
    | some v => exact hone _ (by cases v <;> decide)
  · cases htype : m.type with
    | none => exact List.forall_mem_nil _
    | some t =>
      refine List.forall_mem_append.2 ⟨fun c hc => ?_, hone ' ' (by decide)⟩
      rcases (h.type t htype).tail c hc with hc | rfl
      · exact hword c hc
      · exact hfixed '~' (by decide)
  · cases hp : m.parameters with
    | none => exact List.forall_mem_nil _
    | some p =>
      exact List.forall_mem_cons.2 ⟨hfixed '(' (by decide), List.forall_mem_append.2
        ⟨hparameters p hp, hone ')' (by decide)⟩⟩
  · refine List.forall_mem_append.2 ⟨?_, ?_⟩
    · cases m.isStatic
      · exact List.forall_mem_nil _
      · exact hone '$' (by decide)
    · cases m.isAbstract
      · exact List.forall_mem_nil _
      · exact hone '*' (by decide)

/-- A member stands on one line: no character of `m.text` breaks it. -/
theorem plain_text {m : Member} (h : m.Readable) : Plain m.text.toList := by
  refine forall_mem_text h (fun c hc hblank => ?_) (by decide) fun p hp => (h.parameters p hp).plain
  rw [isBlank_of_isAsciiWord hc] at hblank
  cases hblank

/-- Neither a comment nor a closing brace is in a member `m`, so its line is not cut short in a
body. -/
theorem not_mem_text {m : Member} (h : m.Readable) : '%' ∉ m.text.toList ∧ '}' ∉ m.text.toList := by
  have hall : ∀ e ∈ parameterStops, e ∉ ['+', '-', '#', '~', ' ', '(', ')', '$', '*'] →
      isAsciiWord e = false → e ∉ m.text.toList := by
    intro e he hfixed hword hmem
    refine forall_mem_text h (P := (· ≠ e)) ?_ ?_ ?_ e hmem rfl
    · rintro c hc rfl
      rw [hword] at hc
      cases hc
    · rintro c hc rfl
      exact hfixed hc
    · rintro p hp c hc rfl
      exact (h.parameters p hp).stops c hc he
  exact ⟨hall '%' (by decide) (by decide) (by decide), hall '}' (by decide) (by decide) (by decide)⟩

theorem marks_spec (isStatic isAbstract : Bool) :
    (marks isStatic isAbstract).all isModifier = true ∧
      (marks isStatic isAbstract).contains '$' = isStatic ∧
        (marks isStatic isAbstract).contains '*' = isAbstract := by
  cases isStatic <;> cases isAbstract <;> decide

/-- No parenthesis is in the type or the name of a member `m`, so the first one of a method opens
its parameters. -/
theorem not_mem_head {m : Member} (h : m.TypeFirst) :
    ∀ c ∈ typeChars m.type ++ m.name.toList, c ≠ '(' := by
  refine List.forall_mem_append.2 ⟨?_, fun c hc => (h.name.2 c hc).2⟩
  cases htype : m.type with
  | none => exact nofun
  | some t =>
    exact List.forall_mem_append.2 ⟨fun c hc => ((h.type t htype).2 c hc).2, by decide⟩

/-! ### Reading what is written -/

/-- The type is told from the `name` by the space between them. Neither has a blank itself. -/
theorem typeAndName?_typeChars {type : Option String} {name : List Char}
    (htype : ∀ t ∈ type, t.toList ≠ [] ∧ ∀ c ∈ t.toList, isBlank c = false) (hne : name ≠ [])
    (hname : ∀ c ∈ name, isBlank c = false) :
    typeAndName? (typeChars type ++ name) = some (type, name) := by
  cases type with
  | none =>
    obtain ⟨htake, -⟩ := @takeWhile_word name [] hname nofun
    rw [List.append_nil] at htake
    rw [typeChars, Option.elim_none, List.nil_append, typeAndName?, htake]
    simp [hne]
  | some t =>
    obtain ⟨htne, ht⟩ := htype t rfl
    have hspace : ∀ c ∈ (' ' :: name).head?, isBlank c = true := by
      rintro c ⟨⟩
      decide
    obtain ⟨htake, hdrop⟩ := takeWhile_word ht hspace
    -- behind the type stands the space and the name, which is trimmed
    have htrim : trimLeft (' ' :: name) = name := by
      rw [trimLeft, List.dropWhile_cons_of_pos (by decide),
        dropWhile_eq_self fun c hc => hname c (List.mem_of_head? hc)]
    have hany : name.any isBlank = false := by
      rw [List.any_eq_false]
      exact fun c hc => by simp [hname c hc]
    rw [typeChars, Option.elim_some, List.append_assoc, List.singleton_append, typeAndName?,
      htake, hdrop, htrim]
    simp [htne, hne, hany]

/-- The marks at the end are told from a `body` that has none. -/
theorem splitModifiers?_append {body marks : List Char} (hne : body ≠ [])
    (hbody : ∀ c ∈ body, isModifier c = false) (hmarks : marks.all isModifier = true) :
    splitModifiers? (body ++ marks) = some (body, marks) := by
  have hbody' : ∀ c ∈ body, (!isModifier c) = true := fun c hc => by
    rw [hbody c hc]
    rfl
  have hfirst : ∀ c ∈ marks, (!isModifier c) = false := fun c hc => by
    rw [List.all_eq_true.1 hmarks c hc]
    rfl
  have htake : marks.takeWhile (!isModifier ·) = [] := by
    cases marks with
    | nil => rfl
    | cons c marks => rw [List.takeWhile_cons_of_neg (by simp [hfirst c List.mem_cons_self])]
  rw [splitModifiers?, List.takeWhile_append_of_pos hbody', List.dropWhile_append_of_pos hbody',
    htake, dropWhile_eq_self fun c hc => hfirst c (List.mem_of_head? hc), List.append_nil]
  simp [hne, hmarks]

/-- An attribute `m` is read behind the mark of its visibility. -/
theorem attribute?_chars {m : Member} (h : m.TypeFirst) (hm : m.parameters = none) :
    attribute? m.visibility m.chars = some m := by
  obtain ⟨hmodifier, hstatic, habstract⟩ := marks_spec m.isStatic m.isAbstract
  have hne : m.name.toList ++ marks m.isStatic m.isAbstract ≠ [] :=
    List.append_ne_nil_of_left_ne_nil h.name.1 _
  have hblank : ∀ c ∈ m.name.toList ++ marks m.isStatic m.isAbstract, isBlank c = false := by
    refine List.forall_mem_append.2 ⟨fun c hc => (h.name.2 c hc).1, ?_⟩
    cases m.isStatic <;> cases m.isAbstract <;> decide
  have hkind : m.kind = .attribute := by rw [h.kind, hm]; rfl
  rw [attribute?, chars, hm, parameterChars, Option.elim_none, List.nil_append,
    typeAndName?_typeChars (fun t ht => ⟨(h.type t ht).1, fun c hc => ((h.type t ht).2 c hc).1⟩)
      hne hblank]
  show (splitModifiers? _).bind _ = _
  rw [splitModifiers?_append h.name.1 (h.unmarked hm) hmodifier]
  obtain ⟨name, kind, visibility, type, parameters, isStatic, isAbstract⟩ := m
  simp_all

/-- The parameters of a method start at the first opening parenthesis, behind `head`, and end at the
first closing one behind it, whatever comes after that. -/
theorem method?_append (visibility : Option Visibility) {head inside : List Char}
    (hhead : ∀ c ∈ head, c ≠ '(') (hinside : ')' ∉ inside) (rest : List Char) :
    method? visibility (head ++ '(' :: (inside ++ ')' :: rest)) =
      (typeAndName? head).bind fun (before, name) =>
        (returnType? (rest.dropWhile isModifier)).bind fun (after, modifiers) =>
          if before.isSome && after.isSome then none
          else some {
            name := String.ofList name
            kind := .method
            visibility
            type := before.or after
            parameters := some (String.ofList (trim inside))
            isStatic := (rest.takeWhile isModifier ++ modifiers).contains '$'
            isAbstract := (rest.takeWhile isModifier ++ modifiers).contains '*' } := by
  have hhead' : ∀ c ∈ head, (c != '(') = true := fun c hc => by simpa using hhead c hc
  have hinside' : ∀ c ∈ inside, (c != ')') = true := fun c hc => by
    simpa using ne_of_mem_of_not_mem hc hinside
  rw [method?, List.takeWhile_append_of_pos hhead', List.dropWhile_append_of_pos hhead',
    List.takeWhile_cons_of_neg (by simp), List.dropWhile_cons_of_neg (by simp), List.append_nil]
  simp only [List.drop_succ_cons, List.drop_zero, List.takeWhile_append_of_pos hinside',
    List.dropWhile_append_of_pos hinside', bne_self_eq_false, Bool.false_eq_true,
    not_false_eq_true, List.takeWhile_cons_of_neg, List.dropWhile_cons_of_neg, List.append_nil,
    List.isEmpty_cons, if_false]
  rfl

/-- A method `m` is read behind the mark of its visibility. -/
theorem method?_chars {m : Member} (h : m.TypeFirst) {p : String} (hm : m.parameters = some p) :
    method? m.visibility m.chars = some m := by
  obtain ⟨hmodifier, hstatic, habstract⟩ := marks_spec m.isStatic m.isAbstract
  obtain ⟨htrim, hclose⟩ := h.parameters p hm
  have hkind : m.kind = .method := by rw [h.kind, hm]; rfl
  have hchars : m.chars = (typeChars m.type ++ m.name.toList) ++
      '(' :: (p.toList ++ ')' :: marks m.isStatic m.isAbstract) := by
    simp [chars, hm, parameterChars]
  generalize marks m.isStatic m.isAbstract = tail at hchars hmodifier hstatic habstract
  -- behind the parameters stand marks only, so no type is there
  have hmarks : tail.takeWhile isModifier = tail ∧ tail.dropWhile isModifier = [] := by
    have htail : ∀ c ∈ tail, isModifier c = true := List.all_eq_true.1 hmodifier
    have htake := @List.takeWhile_append_of_pos _ isModifier tail [] htail
    have hdrop := @List.dropWhile_append_of_pos _ isModifier tail [] htail
    rw [List.append_nil] at htake hdrop
    exact ⟨by rw [htake, List.takeWhile_nil, List.append_nil], hdrop⟩
  have hreturn : returnType? [] = some (none, []) := rfl
  rw [hchars, method?_append _ (not_mem_head h) hclose, typeAndName?_typeChars
    (fun t ht => ⟨(h.type t ht).1, fun c hc => ((h.type t ht).2 c hc).1⟩) h.name.1
    fun c hc => (h.name.2 c hc).1, hmarks.1, hmarks.2, hreturn, htrim]
  obtain ⟨name, kind, visibility, type, parameters, isStatic, isAbstract⟩ := m
  simp_all

/-! ### The ends of a member -/

theorem chars_ne_nil {m : Member} (h : m.TypeFirst) : m.chars ≠ [] := by
  refine List.append_ne_nil_of_right_ne_nil _ ?_
  exact List.append_ne_nil_of_left_ne_nil h.name.1 _

/-- A member `m` starts with its type, or with its name if it has none. -/
theorem head?_chars {m : Member} (h : m.TypeFirst) :
    m.chars.head? = (m.type.elim m.name.toList String.toList).head? := by
  cases htype : m.type with
  | none =>
    obtain ⟨c, cs, hcs⟩ := List.exists_cons_of_ne_nil h.name.1
    rw [chars, htype, typeChars, Option.elim_none, List.nil_append, Option.elim_none, hcs]
    rfl
  | some t =>
    obtain ⟨c, cs, hcs⟩ := List.exists_cons_of_ne_nil (h.type t htype).1
    rw [chars, htype, typeChars, Option.elim_some, Option.elim_some, hcs]
    rfl

/-- A member `m` ends with its name, a closing parenthesis or a mark, none of which is a blank. -/
theorem trimmed_chars {m : Member} (h : m.TypeFirst) : Trimmed m.chars := by
  have hname : ∀ c ∈ m.name.toList, isBlank c = false := fun c hc => (h.name.2 c hc).1
  have hparameters : ∀ c ∈ (parameterChars m.parameters).getLast?, isBlank c = false := by
    cases m.parameters with
    | none => exact nofun
    | some p =>
      rw [parameterChars, Option.elim_some, ← List.cons_append, List.getLast?_concat]
      rintro c ⟨⟩
      decide
  have hmarks : ∀ c ∈ (marks m.isStatic m.isAbstract).getLast?, isBlank c = false := by
    cases m.isStatic <;> cases m.isAbstract <;> decide
  have hlast := last_append (fun c hc => hname c (List.mem_of_getLast? hc))
    (last_append hparameters hmarks)
  have hne : m.name.toList ++ (parameterChars m.parameters ++ marks m.isStatic m.isAbstract) ≠ [] :=
    List.append_ne_nil_of_left_ne_nil h.name.1 _
  refine ⟨fun c hc => ?_, fun c hc => ?_⟩
  · rw [head?_chars h] at hc
    cases htype : m.type with
    | none =>
      rw [htype] at hc
      exact hname c (List.mem_of_head? hc)
    | some t =>
      rw [htype] at hc
      exact ((h.type t htype).2 c (List.mem_of_head? hc)).1
  · -- what stands behind the type is not empty
    rw [chars, List.getLast?_append, List.getLast?_eq_some_getLast hne, Option.some_or,
      ← List.getLast?_eq_some_getLast hne] at hc
    exact hlast c hc

/-- A member `m` starts with the mark of its visibility or with a word character. -/
theorem head_text {m : Member} (h : m.Readable) :
    ∃ c cs, m.text.toList = c :: cs ∧ (isAsciiWord c = true ∨ c ∈ ['+', '-', '#', '~']) := by
  obtain ⟨c, cs, hcs⟩ := List.exists_cons_of_ne_nil (chars_ne_nil h.typeFirst)
  have hhead := head?_chars h.typeFirst
  rw [hcs] at hhead
  have hc : isAsciiWord c = true := by
    cases htype : m.type with
    | none =>
      rw [htype] at hhead
      exact h.name.2 c (List.mem_of_head? hhead.symm)
    | some t =>
      rw [htype] at hhead
      exact (h.type t htype).head c hhead.symm
  rw [toList_text h.typeFirst, hcs]
  cases m.visibility with
  | none => exact ⟨c, cs, rfl, .inl hc⟩
  | some v => exact ⟨v.mark, c :: cs, rfl, .inr (by cases v <;> decide)⟩

theorem ofMark?_mark (v : Visibility) : Visibility.ofMark? v.mark = some v := by
  cases v <;> rfl

/-- A written member `m` neither starts nor ends with a blank, so trimming leaves it as it is. -/
theorem trimmed_text {m : Member} (h : m.TypeFirst) : Trimmed m.text.toList := by
  have htrimmed := trimmed_chars h
  rw [toList_text h]
  cases m.visibility with
  | none => exact htrimmed
  | some v =>
    refine Trimmed.append (a := [v.mark]) (b := []) ?_ (by simp) htrimmed (chars_ne_nil h)
    cases v <;> decide

/-- What stands behind the mark of a `visibility` is read as a method if it has a parenthesis, and
as an attribute otherwise. -/
theorem ofText_of_body {text : String} {visibility : Option Visibility} {body : List Char}
    {m : Member} (htext : text.toList = visibility.elim [] (fun v => [v.mark]) ++ body)
    (hbody : Trimmed body) (hne : body ≠ [])
    (hhead : visibility = none → ∀ c ∈ body.head?, Visibility.ofMark? c = none)
    (h : (if body.contains '(' then method? visibility body else attribute? visibility body) =
      some m) (position : Option Position) : ofText text position = .ok m := by
  -- the visibility is told by the first character
  have hvisibility : text.toList.head?.bind Visibility.ofMark? = visibility := by
    rw [htext]
    cases hv : visibility with
    | none =>
      obtain ⟨c, cs, hcs⟩ := List.exists_cons_of_ne_nil hne
      rw [hcs] at hhead ⊢
      exact hhead hv c rfl
    | some v => exact ofMark?_mark v
  have hrest : (if visibility.isSome then trim (text.toList.drop 1) else text.toList) = body := by
    rw [htext]
    cases visibility with
    | none => rfl
    | some v => exact hbody.trim_eq
  have htrimmed : Trimmed text.toList := by
    rw [htext]
    cases visibility with
    | none => exact hbody
    | some v =>
      refine Trimmed.append (a := [v.mark]) (b := []) ?_ (by simp) hbody hne
      cases v <;> decide
  rw [ofText, htrimmed.trim_eq]
  dsimp only
  rw [hvisibility, hrest, h]

/-- A member is read from the text that is written for it, at any `position`. -/
theorem ofText_text {m : Member} (h : m.TypeFirst) (position : Option Position) :
    ofText m.text position = .ok m := by
  refine ofText_of_body (toList_text h) (trimmed_chars h) (chars_ne_nil h)
    (fun hv c hc => h.visibility hv c (by rwa [head?_chars h] at hc)) ?_ position
  have hmethod : m.chars.contains '(' = m.parameters.isSome := by
    rw [Bool.eq_iff_iff, List.contains_iff_mem, chars, ← List.append_assoc, List.mem_append,
      List.mem_append]
    have hhead : '(' ∉ typeChars m.type ++ m.name.toList := fun hmem => not_mem_head h _ hmem rfl
    have hmarks : '(' ∉ marks m.isStatic m.isAbstract := by
      cases m.isStatic <;> cases m.isAbstract <;> decide
    cases m.parameters with
    | none => simpa [hmarks, parameterChars] using hhead
    | some p => simp [parameterChars]
  rw [hmethod]
  cases hm : m.parameters with
  | none =>
    rw [Option.isSome_none, if_neg Bool.false_ne_true, attribute?_chars h hm]
  | some p =>
    rw [Option.isSome_some, if_pos rfl, method?_chars h hm]

end Member
end DiagramText.Classes
