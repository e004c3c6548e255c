import Mathlib.Data.List.Basic
import Mathlib.Data.List.Perm.Subperm
import DiagramText.Proofs.Classes.Member
import DiagramText.Proofs.Text.Digits

/-!
# Members that are read back

A type is read before the name or behind the parameters, but it is always written before the name. A
type before the name is one word, and behind the parameters it is any text, so some of the members
that are read are written as other members or as none.

* `Classes.Member.TypeLast`: what a member is read from if its type stands behind its parameters.
* `Classes.Member.typeFirst_or_typeLast`: all that a member can be read from.
* `Classes.Member.TypeSurvives`: the type can stand in both places.
* `Classes.Member.ofText_text_iff`: a member that was read is read back from what is written for it
  exactly if its type survives.
-/

namespace DiagramText.Classes

open Text

/-! ### What the parts are read from -/

section Parts

variable {cs : List Char}

/-- A name is all that is read, or what stands at the end, with its `type` at the start. -/
theorem exists_of_typeAndName? {type : Option String} {name : List Char}
    (h : typeAndName? cs = some (type, name)) :
    (∃ gap, cs = type.elim name fun t => t.toList ++ (gap ++ name)) ∧
      (name ≠ [] ∧ ∀ c ∈ name, isBlank c = false) ∧
      ∀ t ∈ type, t.toList ≠ [] ∧ ∀ c ∈ t.toList, isBlank c = false := by
  have hword : ∀ c ∈ cs.takeWhile (!isBlank ·), isBlank c = false := fun c hc => by
    simpa using List.all_eq_true.1 List.all_takeWhile c hc
  have hcs : cs.takeWhile (!isBlank ·) ++ cs.dropWhile (!isBlank ·) = cs :=
    List.takeWhile_append_dropWhile
  unfold typeAndName? at h
  dsimp only at h
  split at h
  · cases h
  · next hne =>
    rw [List.isEmpty_iff] at hne
    split at h
    · next hlen =>
      -- one word
      cases h
      have hrest : cs.dropWhile (!isBlank ·) = [] := by
        have hsum := congrArg List.length hcs
        rw [List.length_append] at hsum
        exact List.eq_nil_of_length_eq_zero (by omega)
      rw [hrest, List.append_nil] at hcs
      exact ⟨⟨[], hcs.symm⟩, ⟨hne, hword⟩, nofun⟩
    · split at h
      · cases h
      · next hsecond =>
        -- two words
        simp only [Bool.or_eq_true, List.isEmpty_iff, not_or, Bool.not_eq_true,
          List.any_eq_false] at hsecond
        cases h
        refine ⟨⟨(cs.dropWhile (!isBlank ·)).takeWhile isBlank, ?_⟩,
          ⟨hsecond.1, fun c hc => by simpa using hsecond.2 c hc⟩, ?_⟩
        · rw [Option.elim_some, String.toList_ofList, trimLeft, List.takeWhile_append_dropWhile,
            hcs]
        · rintro t ⟨⟩
          rw [String.toList_ofList]
          exact ⟨hne, hword⟩

theorem splitModifiers?_eq_some {body modifiers : List Char}
    (h : splitModifiers? cs = some (body, modifiers)) :
    cs = body ++ modifiers ∧ (body ≠ [] ∧ ∀ c ∈ body, isModifier c = false) ∧
      ∀ c ∈ modifiers, isModifier c = true := by
  unfold splitModifiers? at h
  dsimp only at h
  split at h
  · cases h
  · next hcond =>
    simp only [Bool.or_eq_true, List.isEmpty_iff, Bool.not_eq_true', not_or,
      Bool.not_eq_false] at hcond
    cases h
    refine ⟨List.takeWhile_append_dropWhile.symm, ⟨hcond.1, fun c hc => ?_⟩,
      List.all_eq_true.1 hcond.2⟩
    simpa using List.all_eq_true.1 List.all_takeWhile c hc

theorem isModifier_of_isBlank {c : Char} (h : isBlank c = true) : isModifier c = false := by
  cases hm : isModifier c with
  | false => rfl
  | true =>
    obtain rfl | rfl : c = '$' ∨ c = '*' := by simpa [isModifier] using hm
    · exact absurd h (by decide)
    · exact absurd h (by decide)

/-- Behind the parameters stands nothing, or a `type` behind blanks and before `modifiers`. -/
theorem returnType?_eq_some {type : Option String} {modifiers : List Char}
    (h : returnType? cs = some (type, modifiers)) :
    (cs = [] ∧ type = none ∧ modifiers = []) ∨
      ∃ blanks t, type = some t ∧ cs = blanks ++ (t.toList ++ modifiers) ∧
        (blanks ≠ [] ∧ ∀ c ∈ blanks, isBlank c = true) ∧
        (t.toList ≠ [] ∧ ∀ c ∈ t.toList, isModifier c = false) ∧
        ∀ c ∈ modifiers, isModifier c = true := by
  have hblank : ∀ c ∈ cs.takeWhile isBlank, isBlank c = true := fun c hc =>
    List.all_eq_true.1 List.all_takeWhile c hc
  have hcs : cs.takeWhile isBlank ++ cs.dropWhile isBlank = cs := List.takeWhile_append_dropWhile
  unfold returnType? at h
  dsimp only at h
  split at h
  · next hnil =>
    cases h
    exact .inl ⟨List.isEmpty_iff.1 hnil, rfl, rfl⟩
  · split at h
    · cases h
    · next hne =>
      rw [List.isEmpty_iff] at hne
      right
      split at h
      · next type modifiers' hsplit =>
        cases h
        obtain ⟨hrest, htype, hmodifiers⟩ := splitModifiers?_eq_some hsplit
        refine ⟨_, _, rfl, ?_, ⟨hne, hblank⟩, ?_, hmodifiers⟩
        · rw [String.toList_ofList, ← hrest, hcs]
        · rwa [String.toList_ofList]
      · split at h
        · next hcond =>
          -- only modifiers follow the blanks, and the last blank is the type
          simp only [Bool.and_eq_true, decide_eq_true_eq] at hcond
          obtain ⟨⟨htwo, -⟩, hmodifiers⟩ := hcond
          cases h
          have hsplit := List.take_append_drop ((cs.takeWhile isBlank).length - 1)
            (cs.takeWhile isBlank)
          refine ⟨(cs.takeWhile isBlank).take ((cs.takeWhile isBlank).length - 1), _, rfl, ?_,
            ⟨?_, fun c hc => hblank c (List.mem_of_mem_take hc)⟩, ?_,
            List.all_eq_true.1 hmodifiers⟩
          · rw [String.toList_ofList, ← List.append_assoc, hsplit, hcs]
          · refine List.ne_nil_of_length_pos ?_
            rw [List.length_take]
            omega
          · rw [String.toList_ofList]
            refine ⟨List.ne_nil_of_length_pos ?_, fun c hc =>
              isModifier_of_isBlank (hblank c (List.mem_of_mem_drop hc))⟩
            rw [List.length_drop]
            omega
        · cases h

end Parts

namespace Member

/-! ### What members are read from -/

/-- A method that can have its type behind its parameters, given with its `type` and its
`parameters`. -/
structure TypeLast (m : Member) (type parameters : String) : Prop where
  kind : m.kind = .method
  name : m.name.toList ≠ [] ∧ ∀ c ∈ m.name.toList, isBlank c = false ∧ c ≠ '('
  unmarked : m.visibility = none → ∀ c ∈ m.name.toList.head?, Visibility.ofMark? c = none
  type_eq : m.type = some type
  type_spec : type.toList ≠ [] ∧ ∀ c ∈ type.toList, isModifier c = false
  parameters_eq : m.parameters = some parameters
  parameters_spec : trim parameters.toList = parameters.toList ∧ ')' ∉ parameters.toList

/-- A text `cs` of a method with its type behind its parameters: modifiers stand before the blanks
in front of the type and behind the type. -/
structure IsTypeLastText (m : Member) (type parameters : String) (cs : List Char) : Prop where
  parts : ∃ inside before blanks behind, cs = m.name.toList ++
      '(' :: (inside ++ ')' :: (before ++ (blanks ++ (type.toList ++ behind)))) ∧
    trim inside = parameters.toList ∧ blanks ≠ [] ∧ (∀ c ∈ behind, isModifier c = true) ∧
    m.isStatic = (before ++ behind).contains '$' ∧ m.isAbstract = (before ++ behind).contains '*'

section Reading

variable {visibility : Option Visibility} {cs : List Char} {m : Member}

/-- A `name` before which its type stands starts with no mark if the text `cs` that it is read from
does not. -/
theorem head?_elim {type : Option String} {name : List Char}
    (hcs : ∃ gap, cs = type.elim name fun t => t.toList ++ (gap ++ name))
    (htype : ∀ t ∈ type, t.toList ≠ []) : cs.head? = (type.elim name String.toList).head? := by
  obtain ⟨gap, rfl⟩ := hcs
  cases type with
  | none => rfl
  | some t =>
    obtain ⟨c, t', ht⟩ := List.exists_cons_of_ne_nil (htype t rfl)
    rw [Option.elim_some, Option.elim_some, ht]
    rfl

/-- The characters of a `name` and of a type before it stand in the text `cs` that they are read
from. -/
theorem mem_of_elim {type : Option String} {name : List Char}
    (hcs : ∃ gap, cs = type.elim name fun t => t.toList ++ (gap ++ name)) :
    (∀ c ∈ name, c ∈ cs) ∧ ∀ t ∈ type, ∀ c ∈ t.toList, c ∈ cs := by
  obtain ⟨gap, rfl⟩ := hcs
  cases type with
  | none => exact ⟨fun c hc => hc, nofun⟩
  | some t =>
    refine ⟨fun c hc => ?_, ?_⟩
    · rw [Option.elim_some, List.mem_append, List.mem_append]
      exact .inr (.inr hc)
    · rintro t' ⟨⟩ c hc
      rw [Option.elim_some, List.mem_append]
      exact .inl hc

/-- A method is read from a text `cs` with parameters, of which both parentheses are there. -/
theorem exists_parameters (h : method? visibility cs = some m) :
    ∃ head inside rest, cs = head ++ '(' :: (inside ++ ')' :: rest) ∧ (∀ c ∈ head, c ≠ '(') ∧
      ')' ∉ inside := by
  have hbefore : ∀ (e : Char) (ds : List Char), ∀ c ∈ ds.takeWhile (· != e), c ≠ e :=
    fun e ds c hc =>
    by simpa using List.all_eq_true.1 List.all_takeWhile c hc
  -- What is left behind a search is empty, or starts with the character looked for.
  have hbehind : ∀ (e : Char) (ds : List Char), ds.dropWhile (· != e) ≠ [] →
      ds.dropWhile (· != e) = e :: (ds.dropWhile (· != e)).drop 1 := by
    intro e ds hne
    obtain ⟨c, ds', hds⟩ := List.exists_cons_of_ne_nil hne
    have hstop := List.head?_dropWhile_not (· != e) ds
    rw [hds] at hstop ⊢
    obtain rfl : c = e := by simpa using hstop
    rfl
  have hclose : ((cs.dropWhile (· != '(')).drop 1).dropWhile (· != ')') ≠ [] := by
    intro hnil
    simp only [method?, hnil, List.isEmpty_nil, if_true, Option.bind_eq_bind, Option.bind_none,
      Option.bind_fun_none, reduceCtorEq] at h
  -- A closing parenthesis is looked for behind the opening one only.
  have hopen : cs.dropWhile (· != '(') ≠ [] := by
    intro hnil
    rw [hnil] at hclose
    exact hclose rfl
  refine ⟨cs.takeWhile (· != '('), ((cs.dropWhile (· != '(')).drop 1).takeWhile (· != ')'),
    (((cs.dropWhile (· != '(')).drop 1).dropWhile (· != ')')).drop 1, ?_, hbefore _ _,
    fun hmem => hbefore _ _ _ hmem rfl⟩
  rw [← hbehind _ _ hclose, List.takeWhile_append_dropWhile, ← hbehind _ _ hopen,
    List.takeWhile_append_dropWhile]

/-- The type of a method `m` that is read stands before its name or behind its parameters, never on
both sides. -/
theorem typeFirst_or_typeLast_of_method? (h : method? visibility cs = some m)
    (hhead : visibility = none → ∀ c ∈ cs.head?, Visibility.ofMark? c = none) :
    m.visibility = visibility ∧
      (m.TypeFirst ∨ ∃ t p, TypeLast m t p ∧ IsTypeLastText m t p cs) := by
  obtain ⟨head, inside, rest, rfl, hopen, hclose⟩ := exists_parameters h
  rw [method?_append _ hopen hclose] at h
  obtain ⟨⟨before, name⟩, hhead', h⟩ := Option.bind_eq_some_iff.1 h
  obtain ⟨⟨after, modifiers⟩, hreturn, h⟩ := Option.bind_eq_some_iff.1 h
  obtain ⟨hparts, ⟨hne, hblank⟩, htype⟩ := exists_of_typeAndName? hhead'
  obtain ⟨hnameIn, htypeIn⟩ := mem_of_elim hparts
  have hstart := head?_elim hparts fun t ht => (htype t ht).1
  have hheadNe : head ≠ [] := by
    obtain ⟨c, name, rfl⟩ := List.exists_cons_of_ne_nil hne
    exact List.ne_nil_of_mem (hnameIn c List.mem_cons_self)
  rw [List.head?_append_of_ne_nil _ hheadNe, hstart] at hhead
  have hname : name ≠ [] ∧ ∀ c ∈ name, isBlank c = false ∧ c ≠ '(' :=
    ⟨hne, fun c hc => ⟨hblank c hc, hopen c (hnameIn c hc)⟩⟩
  dsimp only at h
  split at h
  · cases h
  next htypes =>
  cases h
  refine ⟨rfl, ?_⟩
  have htrim := (trimmed_trim inside).trim_eq
  -- behind the parameters stands nothing, or the type
  rcases returnType?_eq_some hreturn with ⟨-, rfl, rfl⟩ |
    ⟨blanks, t, rfl, hrest, hblanks, ht, hbehind⟩
  · left
    refine ⟨?_, fun t ht => ?_, rfl, ?_, nofun, ?_⟩
    · rwa [String.toList_ofList]
    · rw [Option.or_none] at ht
      exact ⟨(htype t ht).1, fun c hc => ⟨(htype t ht).2 c hc, hopen c (htypeIn t ht c hc)⟩⟩
    · rintro p ⟨⟩
      rw [String.toList_ofList]
      exact ⟨htrim, fun hmem => hclose ((trim_sublist inside).mem hmem)⟩
    · rwa [Option.or_none, String.toList_ofList]
  · -- the type behind the parameters is the only one
    obtain rfl : before = none := by simpa using htypes
    obtain ⟨gap, rfl⟩ := hparts
    refine .inr ⟨t, String.ofList (trim inside), ⟨rfl, ?_, ?_, rfl, ht, rfl, ?_⟩,
      ⟨inside, rest.takeWhile isModifier, blanks, modifiers, ?_, ?_, hblanks.1, hbehind, rfl, rfl⟩⟩
    · rwa [String.toList_ofList]
    · rwa [String.toList_ofList]
    · rw [String.toList_ofList]
      exact ⟨htrim, fun hmem => hclose ((trim_sublist inside).mem hmem)⟩
    · rw [String.toList_ofList, ← hrest, List.takeWhile_append_dropWhile]
    · rw [String.toList_ofList]

/-- An attribute `m` that is read has its type before its name, since nothing stands behind an
attribute but modifiers. -/
theorem typeFirst_of_attribute? (h : attribute? visibility cs = some m) (hopen : '(' ∉ cs)
    (hhead : visibility = none → ∀ c ∈ cs.head?, Visibility.ofMark? c = none) :
    m.visibility = visibility ∧ m.TypeFirst := by
  obtain ⟨⟨type, rest⟩, hname, h⟩ := Option.bind_eq_some_iff.1 h
  obtain ⟨⟨name, marks⟩, hmarks, h⟩ := Option.bind_eq_some_iff.1 h
  cases h
  obtain ⟨hparts, ⟨-, hblank⟩, htype⟩ := exists_of_typeAndName? hname
  obtain ⟨hnameIn, htypeIn⟩ := mem_of_elim hparts
  obtain ⟨rfl, ⟨hne, hplain⟩, -⟩ := splitModifiers?_eq_some hmarks
  have hin : ∀ c ∈ cs, c ≠ '(' := fun c hc => ne_of_mem_of_not_mem hc hopen
  rw [head?_elim hparts fun t ht => (htype t ht).1] at hhead
  refine ⟨rfl, ?_, fun t ht => ?_, rfl, nofun, fun _ => ?_, ?_⟩
  · rw [String.toList_ofList]
    refine ⟨hne, fun c hc => ?_⟩
    have hc' := List.mem_append_left marks hc
    exact ⟨hblank c hc', hin c (hnameIn c hc')⟩
  · exact ⟨(htype t ht).1, fun c hc => ⟨(htype t ht).2 c hc, hin c (htypeIn t ht c hc)⟩⟩
  · rwa [String.toList_ofList]
  · rw [String.toList_ofList]
    cases type with
    | none => rwa [Option.elim_none, List.head?_append_of_ne_nil _ hne] at hhead
    | some t => exact hhead

theorem mark_of_ofMark? {c : Char} {v : Visibility} (h : Visibility.ofMark? c = some v) :
    c = v.mark := by
  unfold Visibility.ofMark? at h
  split at h <;> cases h <;> rfl

/-- A member `m` is read with its type before its name, or from a text `cs` in which its type stands
behind its parameters. Such a text is part of what was read. -/
theorem typeFirst_or_typeLast {text : String} {position : Option Position}
    (h : ofText text position = .ok m) : m.TypeFirst ∨ ∃ t p cs, TypeLast m t p ∧
      IsTypeLastText m t p cs ∧
        (m.visibility.elim [] (fun v => [v.mark]) ++ cs).Sublist text.toList := by
  -- both are known of what stands behind the mark of a visibility
  have hbody : ∀ (visibility : Option Visibility) (body : List Char),
      (visibility = none → ∀ c ∈ body.head?, Visibility.ofMark? c = none) →
      (visibility.elim [] (fun v => [v.mark]) ++ body).Sublist text.toList →
      (if body.contains '(' then method? visibility body else attribute? visibility body) =
        some m →
      m.TypeFirst ∨ ∃ t p cs, TypeLast m t p ∧ IsTypeLastText m t p cs ∧
        (m.visibility.elim [] (fun v => [v.mark]) ++ cs).Sublist text.toList := by
    intro visibility body hhead hsub hm
    split at hm
    · obtain ⟨rfl, hfirst | ⟨t, p, hlast, hbody⟩⟩ := typeFirst_or_typeLast_of_method? hm hhead
      · exact .inl hfirst
      · exact .inr ⟨t, p, body, hlast, hbody, hsub⟩
    · next hopen =>
      rw [List.contains_iff_mem] at hopen
      exact .inl (typeFirst_of_attribute? hm hopen hhead).2
  have hsub := trim_sublist text.toList
  unfold ofText at h
  dsimp only at h
  split at h
  · next m' hm =>
    cases h
    generalize trim text.toList = trimmed at hsub hm
    cases hv : trimmed.head?.bind Visibility.ofMark? with
    | none =>
      rw [hv] at hm
      refine hbody none trimmed (fun _ c hc => ?_) hsub hm
      rw [Option.mem_def.1 hc] at hv
      exact hv
    | some v =>
      rw [hv] at hm
      refine hbody (some v) (trim (trimmed.drop 1)) nofun ?_ hm
      obtain ⟨c, hc, hmark⟩ := Option.bind_eq_some_iff.1 hv
      obtain ⟨trimmed, rfl⟩ := List.head?_eq_some_iff.1 hc
      rw [mark_of_ofMark? hmark] at hsub
      exact ((trim_sublist trimmed).cons_cons v.mark).trans hsub
  · cases h

end Reading

/-! ### Types that survive -/

/-- A member `m` as it is written behind its type and before its marks. -/
def signature (m : Member) : List Char := m.name.toList ++ parameterChars m.parameters

/-- The type of a member survives if it can stand before the name, as one word that is not taken for
parameters or for the mark of a visibility, or if it makes no difference on which side of the name
and the parameters it stands, as in `f() f()`. -/
def TypeSurvives (m : Member) : Prop := ∀ t ∈ m.type,
  ((∀ c ∈ t.toList, isBlank c = false ∧ c ≠ '(') ∧
    (m.visibility = none → ∀ c ∈ t.toList.head?, Visibility.ofMark? c = none)) ∨
  t.toList ++ ' ' :: m.signature = m.signature ++ ' ' :: t.toList

instance (m : Member) : Decidable m.TypeSurvives :=
  inferInstanceAs (Decidable (∀ t ∈ m.type,
    ((∀ c ∈ t.toList, isBlank c = false ∧ c ≠ '(') ∧
      (m.visibility = none → ∀ c ∈ t.toList.head?, Visibility.ofMark? c = none)) ∨
    t.toList ++ ' ' :: m.signature = m.signature ++ ' ' :: t.toList))

section Survival

variable {cs : List Char} {m : Member} {t p : String}

theorem TypeFirst.typeSurvives (h : m.TypeFirst) : m.TypeSurvives := by
  intro t ht
  refine .inl ⟨(h.type t ht).2, fun hv c hc => h.visibility hv c ?_⟩
  rw [Option.mem_def.1 ht]
  exact hc

theorem TypeLast.signature_eq (h : m.TypeLast t p) :
    m.signature = m.name.toList ++ '(' :: (p.toList ++ [')']) := by
  rw [signature, h.parameters_eq, parameterChars, Option.elim_some]

/-- A method `m` with its type behind its parameters is written with its type before its name. -/
theorem TypeLast.chars_eq (h : m.TypeLast t p) :
    m.chars = t.toList ++ ' ' :: (m.signature ++ marks m.isStatic m.isAbstract) := by
  simp [chars, signature, h.type_eq, typeChars]

theorem TypeLast.toList_text (h : m.TypeLast t p) :
    m.text.toList = m.visibility.elim [] (fun v => [v.mark]) ++ m.chars := by
  refine toList_text_of_kind ?_ ?_
  · rw [h.type_eq]
    rintro t ⟨⟩
    exact h.type_spec.1
  · rw [h.kind, h.parameters_eq]
    rfl

/-- The marks that are written for some `modifiers` are not more than the modifiers, since each is
written once. -/
theorem length_marks_le (modifiers : List Char) :
    (marks (modifiers.contains '$') (modifiers.contains '*')).length ≤ modifiers.length := by
  have hnodup : (marks (modifiers.contains '$') (modifiers.contains '*')).Nodup := by
    cases modifiers.contains '$' <;> cases modifiers.contains '*' <;> decide
  refine (List.subperm_of_subset hnodup fun c hc => ?_).length_le
  rcases List.mem_append.1 hc with hc | hc
  · split at hc
    · next hmem =>
      obtain rfl := List.mem_singleton.1 hc
      exact List.contains_iff_mem.1 hmem
    · cases hc
  · split at hc
    · next hmem =>
      obtain rfl := List.mem_singleton.1 hc
      exact List.contains_iff_mem.1 hmem
    · cases hc

/-- The modifiers `x` at the end of a text are told from what ends without one, so both are
determined by the text. -/
theorem append_modifiers_inj {a b x y : List Char}
    (ha : ∀ c ∈ a.getLast?, isModifier c = false) (hb : ∀ c ∈ b.getLast?, isModifier c = false)
    (hx : ∀ c ∈ x, isModifier c = true) (hy : ∀ c ∈ y, isModifier c = true)
    (h : a ++ x = b ++ y) : a = b ∧ x = y := by
  -- what one text has more than the other is at the end of the one and of its modifiers
  have hnil : ∀ {a e : List Char}, (∀ c ∈ (a ++ e).getLast?, isModifier c = false) →
      (∀ c ∈ e, isModifier c = true) → e = [] := by
    intro a e hlast hall
    by_contra hne
    have hc := hlast (e.getLast hne) (by
      rw [List.getLast?_append_of_ne_nil _ hne, List.getLast?_eq_some_getLast hne]
      rfl)
    rw [hall _ (List.getLast_mem hne)] at hc
    cases hc
  rcases List.append_eq_append_iff.1 h with ⟨e, rfl, rfl⟩ | ⟨e, rfl, rfl⟩
  · obtain rfl := hnil hb fun c hc => hx c (List.mem_append_left y hc)
    exact ⟨(List.append_nil a).symm, rfl⟩
  · obtain rfl := hnil ha fun c hc => hy c (List.mem_append_left x hc)
    exact ⟨List.append_nil b, rfl⟩

/-- If a method `m` with its type behind its parameters is read from what is written for it, nothing
of what is written is left out, and so the type stands on both sides. -/
theorem TypeLast.commutes (h : m.TypeLast t p) (hcs : m.IsTypeLastText t p cs)
    (hsub : cs.Sublist m.chars) :
    t.toList ++ ' ' :: m.signature = m.signature ++ ' ' :: t.toList := by
  obtain ⟨inside, before, blanks, behind, rfl, hinside, hblanks, hbehind, hstatic, habstract⟩ :=
    hcs.parts
  have hchars := h.chars_eq
  have hmarks : (marks m.isStatic m.isAbstract).length ≤ before.length + behind.length := by
    rw [hstatic, habstract, ← List.length_append]
    exact length_marks_le _
  have htail := List.all_eq_true.1 (marks_spec m.isStatic m.isAbstract).1
  generalize marks m.isStatic m.isAbstract = tail at hchars hmarks htail
  rw [h.signature_eq] at hchars ⊢
  generalize m.name.toList = name at *
  -- what is read is not longer than what is written, and none of its parts is shorter
  have hblanks' := List.length_pos_of_ne_nil hblanks
  have htrim := (trim_sublist inside).length_le
  rw [hinside] at htrim
  have hlength := hsub.length_le
  rw [hchars] at hsub hlength
  have heq := hsub.eq_of_length_le (by
    simp only [List.length_append, List.length_cons, List.length_nil]
    omega)
  simp only [List.length_append, List.length_cons, List.length_nil] at hlength
  obtain rfl : p.toList = inside := by
    rw [← hinside]
    exact (trim_sublist inside).eq_of_length_le (by rw [hinside]; omega)
  obtain ⟨b, rfl⟩ := List.length_eq_one_iff.1 (show blanks.length = 1 by omega)
  have hlast : ∀ c ∈ (name ++ '(' :: (p.toList ++ ')' :: (before ++ b :: t.toList))).getLast?,
      isModifier c = false := by
    intro c hc
    have happ : name ++ '(' :: (p.toList ++ ')' :: (before ++ b :: t.toList)) =
        (name ++ '(' :: (p.toList ++ ')' :: (before ++ [b]))) ++ t.toList := by simp
    rw [happ, List.getLast?_append_of_ne_nil _ h.type_spec.1] at hc
    exact h.type_spec.2 c (List.mem_of_getLast? hc)
  have hlast' : ∀ c ∈ (t.toList ++ ' ' :: (name ++ '(' :: (p.toList ++ [')']))).getLast?,
      isModifier c = false := by
    intro c hc
    have happ : t.toList ++ ' ' :: (name ++ '(' :: (p.toList ++ [')'])) =
        (t.toList ++ ' ' :: (name ++ '(' :: p.toList)) ++ [')'] := by simp
    rw [happ, List.getLast?_concat] at hc
    cases hc
    decide
  -- the modifiers at the end are the marks, so none stand before the type
  obtain ⟨hends, rfl⟩ := append_modifiers_inj hlast hlast' hbehind htail (by simpa using heq)
  obtain rfl : before = [] := List.eq_nil_of_length_eq_zero (by omega)
  -- the blank is a space, as the number of spaces is the same
  have hcount := congrArg (List.count ' ') hends
  simp only [List.count_append, List.count_cons, List.count_nil] at hcount
  obtain rfl : b = ' ' := by
    by_contra hb
    simp [hb] at hcount
    omega
  simpa using hends.symm

/-- A method `m` with its type behind its parameters is the same with its type before its name, if
the type is one word. -/
theorem TypeLast.typeFirst (h : m.TypeLast t p)
    (htype : ∀ c ∈ t.toList, isBlank c = false ∧ c ≠ '(')
    (hmark : m.visibility = none → ∀ c ∈ t.toList.head?, Visibility.ofMark? c = none) :
    m.TypeFirst where
  name := h.name
  type := by
    rw [h.type_eq]
    rintro t ⟨⟩
    exact ⟨h.type_spec.1, htype⟩
  kind := by
    rw [h.kind, h.parameters_eq]
    rfl
  parameters := by
    rw [h.parameters_eq]
    rintro p ⟨⟩
    exact h.parameters_spec
  unmarked := by
    rw [h.parameters_eq]
    exact nofun
  visibility := by
    rw [h.type_eq]
    exact hmark

/-- A `type` is read behind a space and before modifiers, whatever words it has. -/
theorem returnType?_append {type modifiers : List Char}
    (htype : type ≠ [] ∧ ∀ c ∈ type, isModifier c = false)
    (hhead : ∀ c ∈ type.head?, isBlank c = false) (hmodifiers : modifiers.all isModifier = true) :
    returnType? (' ' :: (type ++ modifiers)) = some (some (String.ofList type), modifiers) := by
  obtain ⟨c, type, rfl⟩ := List.exists_cons_of_ne_nil htype.1
  have hc : ¬ isBlank c = true := by simp [hhead c rfl]
  have hspace : isBlank ' ' = true := by decide
  rw [returnType?, List.takeWhile_cons_of_pos hspace, List.dropWhile_cons_of_pos hspace,
    List.cons_append, List.takeWhile_cons_of_neg hc, List.dropWhile_cons_of_neg hc,
    ← List.cons_append, splitModifiers?_append htype.1 htype.2 hmodifiers]
  rfl

/-- A method with the same text on both sides of its name and its parameters is read with its type
behind the parameters. This is what `commutes` leaves. -/
theorem TypeLast.ofText_text (h : m.TypeLast t p)
    (hcommutes : t.toList ++ ' ' :: m.signature = m.signature ++ ' ' :: t.toList)
    (position : Option Position) : ofText m.text position = .ok m := by
  obtain ⟨hmodifier, hstatic, habstract⟩ := marks_spec m.isStatic m.isAbstract
  have hchars : m.chars = m.name.toList ++
      '(' :: (p.toList ++ ')' :: (' ' :: (t.toList ++ marks m.isStatic m.isAbstract))) := by
    rw [h.chars_eq, ← List.cons_append, ← List.append_assoc, hcommutes, h.signature_eq]
    simp
  have hhead : m.chars.head? = m.name.toList.head? := by
    rw [hchars, List.head?_append_of_ne_nil _ h.name.1]
  -- the type starts as the name does
  have htype : t.toList.head? = m.name.toList.head? := by
    rw [← hhead, h.chars_eq, List.head?_append_of_ne_nil _ h.type_spec.1]
  have hblank : ∀ c ∈ m.name.toList.head?, isBlank c = false := fun c hc =>
    (h.name.2 c (List.mem_of_head? hc)).1
  have hlast : ∀ c ∈ m.chars.getLast?, isBlank c = false := by
    have happ : m.chars = (t.toList ++ ' ' :: (m.name.toList ++ '(' :: p.toList)) ++
        ([')'] ++ marks m.isStatic m.isAbstract) := by
      rw [h.chars_eq, h.signature_eq]
      simp
    rw [happ, List.getLast?_append_of_ne_nil _ (by simp)]
    cases m.isStatic <;> cases m.isAbstract <;> decide
  refine ofText_of_body h.toList_text ⟨by rwa [hhead], hlast⟩ ?_ (by rw [hhead]; exact h.unmarked)
    ?_ position
  · rw [hchars]
    exact List.append_ne_nil_of_left_ne_nil h.name.1 _
  · have hopen : m.chars.contains '(' = true := by simp [hchars]
    have hname : typeAndName? m.name.toList = some (none, m.name.toList) :=
      @typeAndName?_typeChars none _ nofun h.name.1 fun c hc => (h.name.2 c hc).1
    have hspace : ¬ isModifier ' ' = true := by decide
    rw [hopen, if_pos rfl, hchars, method?_append _ (fun c hc => (h.name.2 c hc).2)
      h.parameters_spec.2, List.dropWhile_cons_of_neg hspace, List.takeWhile_cons_of_neg hspace,
      returnType?_append h.type_spec (by rwa [htype]) hmodifier, hname, h.parameters_spec.1]
    obtain ⟨hkind, -, -, htypeEq, -, hparameters, -⟩ := h
    obtain ⟨name, kind, visibility, type, parameters, isStatic, isAbstract⟩ := m
    simp_all

/-- A member `m` that was read is read back from what is written for it exactly if its type
survives, wherever it is written. -/
theorem ofText_text_iff {text : String} {position : Option Position}
    (h : ofText text position = .ok m)
    (position' : Option Position) : ofText m.text position' = .ok m ↔ m.TypeSurvives := by
  rcases typeFirst_or_typeLast h with hfirst | ⟨t, p, -, hlast, -⟩
  · exact ⟨fun _ => hfirst.typeSurvives, fun _ => Member.ofText_text hfirst position'⟩
  · constructor
    · intro hback
      rcases typeFirst_or_typeLast hback with hfirst | ⟨t', p', cs, hlast', hcs, hsub⟩
      · exact hfirst.typeSurvives
      · intro t'' ht
        obtain rfl : t' = t'' := Option.some.inj (hlast'.type_eq.symm.trans ht)
        rw [hlast'.toList_text] at hsub
        exact .inr (hlast'.commutes hcs ((List.append_sublist_append_left _).1 hsub))
    · intro hsurvives
      rcases hsurvives t hlast.type_eq with ⟨htype, hmark⟩ | hcommutes
      · exact Member.ofText_text (hlast.typeFirst htype hmark) position'
      · exact hlast.ofText_text hcommutes position'

end Survival

/-- A mark stands before the type, and it is written behind the parameters. -/
theorem ofText_text_typeLast : ∃ m, ofText "#area( double r )* double" none = .ok m ∧
    m.text = "#double area(double r)*" ∧ ofText m.text none = .ok m :=
  have hread : ofText "#area( double r )* double" none = .ok {
      name := "area"
      kind := .method
      visibility := some .protected
      type := some "double"
      parameters := some "double r"
      isAbstract := true } := by decide
  ⟨_, hread, by decide, (ofText_text_iff hread none).2 (by decide)⟩

/-- A type of two words is read behind the parameters, but not before the name. -/
theorem ofText_text_twoWords : ∃ m, ofText "foo() unsigned int" none = .ok m ∧
    m.text = "unsigned int foo()" ∧ (ofText m.text none).isOk = false := by
  refine ⟨{ name := "foo", kind := .method, type := some "unsigned int", parameters := some "" },
    ?_, ?_, ?_⟩ <;> decide

end Member
end DiagramText.Classes
