import DiagramText.Gantt.Writer
import DiagramText.Proofs.Calendar.Format
import DiagramText.Proofs.Gantt.Order
import DiagramText.Proofs.Text.Lines
import DiagramText.Proofs.Text.Word
import Mathlib.Data.Nat.Digits.Defs

/-!
# Details of tasks

What stands behind the colon of a task are parts between commas: a status, an id, a start and an
end. Each of them is read from what is written for it, but for dates, which may mean something else
in the format that they are written in.

* `Gantt.partsOf_intercalate`: the parts that are written are found again, one by one.
* `Gantt.readTask_eq_ok_iff`: what task the parts are read as.
* `Gantt.Duration.IsSpelled.readFinish_text`: a duration is read from what is written for it.
* `Gantt.readStart_after`: so is a start after known tasks.
* `Gantt.readDate_writeDate_iff`: a date is read from what is written for it in its format, if no
  null character is in the format.
* `Gantt.readStart_date_iff` and `Gantt.readFinish_date_iff`: when a part is read as a date.
-/

namespace DiagramText.Gantt

open Text

/-! ### Parts -/

/-- A text `s` that is one part: no comma is in it, and no blank around it. -/
def IsPart (s : String) : Prop := ',' ∉ s.toList ∧ Trimmed s.toList

theorem partsOf_eq_singleton {s : String} (h : IsPart s) : partsOf s = [s] := by
  have hcomma : ∀ c ∈ s.toList, (c == ',') = false := by
    intro c hc
    simpa using ne_of_mem_of_not_mem hc h.1
  rw [partsOf, fields_eq_self hcomma, List.map_singleton, h.2.trim_eq, String.ofList_toList]

theorem isPart_of_not_isBlank {s : String} (hblank : ∀ c ∈ s.toList, isBlank c = false)
    (hcomma : ',' ∉ s.toList) : IsPart s :=
  ⟨hcomma, fun c hc => hblank c (List.mem_of_mem_head? hc),
    fun c hc => hblank c (List.mem_of_mem_getLast? hc)⟩

theorem isPart_of_mem_partsOf {s details : String} (h : s ∈ partsOf details) : IsPart s := by
  obtain ⟨f, hf, rfl⟩ := List.mem_map.1 h
  rw [IsPart, String.toList_ofList]
  refine ⟨fun hcomma => ?_, trimmed_trim f⟩
  have hfield := separates_of_mem_fields hf ((trim_sublist f).subset hcomma)
  exact absurd hfield (by decide)

theorem partsOf_ne_nil (details : String) : partsOf details ≠ [] :=
  mt List.map_eq_nil_iff.1 (fields_ne_nil _)

/-- Blanks around the details `cs` do not matter to the parts, as each part is trimmed. -/
theorem partsOf_blanks {b b' : List Char} (hb : ∀ c ∈ b, isBlank c = true)
    (hb' : ∀ c ∈ b', isBlank c = true) (cs : List Char) :
    partsOf (String.ofList (b ++ cs ++ b')) = partsOf (String.ofList cs) := by
  have hblank : ∀ c, isBlank c = true → (c == ',') = false := by
    intro c hc
    refine beq_eq_false_iff_ne.2 ?_
    rintro rfl
    exact absurd hc (by decide)
  have hfields := congrArg (List.map String.ofList) (map_trim_fields hb hb' hblank cs)
  rw [List.map_map, List.map_map] at hfields
  rw [partsOf, partsOf, String.toList_ofList, String.toList_ofList]
  exact hfields

/-- Parts `ps` that are written behind each other are found again, one by one. A part with commas of
its own would be found as several. -/
theorem partsOf_intercalate {ps : List String} (hne : ps ≠ []) :
    partsOf (", ".intercalate ps) = ps.flatMap partsOf := by
  induction ps with
  | nil => exact absurd rfl hne
  | cons p ps ih =>
    cases ps with
    | nil => rw [String.intercalate_singleton, List.flatMap_singleton]
    | cons q ps =>
      have hlist : (", ".intercalate (p :: q :: ps)).toList =
          p.toList ++ ',' :: ([' '] ++ (", ".intercalate (q :: ps)).toList ++ []) := by
        rw [String.intercalate_cons_cons]
        simp
      have hspace : partsOf (String.ofList ([' '] ++ (", ".intercalate (q :: ps)).toList ++ [])) =
          partsOf (String.ofList (", ".intercalate (q :: ps)).toList) :=
        partsOf_blanks (by decide) (List.forall_mem_nil _) _
      rw [partsOf, String.toList_ofList] at hspace
      rw [List.flatMap_cons, ← ih (List.cons_ne_nil q ps), partsOf, hlist,
        fields_append (by rfl), List.map_append, hspace, String.ofList_toList]
      rfl

/-! ### The status of a task -/

/-- A `status` is a word in front of the parts that are left, of which the first is no status.
Otherwise all parts are left. -/
theorem takeStatus_eq_ok_iff {q : Position} {parts rest : List String}
    {status : Option TaskStatus} : takeStatus q parts = .ok (status, rest) ↔
      (∀ p ∈ rest.head?, statusOf? p = none) ∧ ((status = none ∧ parts = rest) ∨
        ∃ p s, statusOf? p = some s ∧ status = some s ∧ parts = p :: rest) := by
  cases parts with
  | nil =>
    constructor
    · intro h
      cases h
      exact ⟨nofun, .inl ⟨rfl, rfl⟩⟩
    · rintro ⟨-, ⟨rfl, rfl⟩ | ⟨p, s, -, -, h⟩⟩
      · rfl
      · cases h
  | cons p ps =>
    rw [takeStatus]
    cases hp : statusOf? p with
    | none =>
      constructor
      · intro h
        cases h
        exact ⟨by rintro _ ⟨⟩; exact hp, .inl ⟨rfl, rfl⟩⟩
      · rintro ⟨-, ⟨rfl, rfl⟩ | ⟨p', s, hs, -, h⟩⟩
        · rfl
        · cases h
          rw [hp] at hs
          cases hs
    | some s =>
      -- the status is taken only if no other one follows
      have hnext : ps.head?.filter (fun r => (statusOf? r).isSome) = none ↔
          ∀ r ∈ ps.head?, statusOf? r = none := by
        simp [Option.filter_eq_none_iff]
      dsimp only
      split
      · next r hr =>
        constructor
        · intro h
          cases h
        · rintro ⟨hrest, ⟨rfl, rfl⟩ | ⟨p', s', -, rfl, h⟩⟩
          · rw [hrest p rfl] at hp
            cases hp
          · cases h
            rw [hnext.2 hrest] at hr
            cases hr
      · next hr =>
        constructor
        · intro h
          cases h
          exact ⟨hnext.1 hr, .inr ⟨p, s, hp, rfl, rfl⟩⟩
        · rintro ⟨hrest, ⟨rfl, rfl⟩ | ⟨p', s', hs', rfl, h⟩⟩
          · rw [hrest p rfl] at hp
            cases hp
          · cases h
            rw [hp] at hs'
            cases hs'
            rfl

/-- What the parts behind the status are read as: an end, a start and an end, or an id before
them. -/
inductive Shapes (format : String) (known : List String) (q : Position) :
    List String → Option String → Option Start → Finish → Prop
  | finish {f : String} {finish : Finish} (hfinish : readFinish f format q = .ok finish) :
      Shapes format known q [f] none none finish
  | start {s f : String} {start : Start} {finish : Finish}
      (hstart : readStart s format known q = .ok start)
      (hfinish : readFinish f format q = .ok finish) :
      Shapes format known q [s, f] none (some start) finish
  | id {id s f : String} {start : Start} {finish : Finish} (hid : isTaskId id.toList = true)
      (hstart : readStart s format known q = .ok start)
      (hfinish : readFinish f format q = .ok finish) :
      Shapes format known q [id, s, f] (some id) (some start) finish

section Shapes

variable {format : String} {known : List String} {q : Position} {parts : List String}
  {start : Start} {finish : Finish} {id : String}

theorem shapes_finish_iff : Shapes format known q parts none none finish ↔
    ∃ f, parts = [f] ∧ readFinish f format q = .ok finish := by
  constructor
  · rintro ⟨hfinish⟩
    exact ⟨_, rfl, hfinish⟩
  · rintro ⟨f, rfl, hfinish⟩
    exact .finish hfinish

theorem shapes_start_iff : Shapes format known q parts none (some start) finish ↔
    ∃ s f, parts = [s, f] ∧ readStart s format known q = .ok start ∧
      readFinish f format q = .ok finish := by
  constructor
  · rintro (_ | ⟨hstart, hfinish⟩)
    exact ⟨_, _, rfl, hstart, hfinish⟩
  · rintro ⟨s, f, rfl, hstart, hfinish⟩
    exact .start hstart hfinish

theorem shapes_id_iff : Shapes format known q parts (some id) (some start) finish ↔
    isTaskId id.toList = true ∧ ∃ s f, parts = [id, s, f] ∧
      readStart s format known q = .ok start ∧ readFinish f format q = .ok finish := by
  constructor
  · rintro (_ | _ | ⟨hid, hstart, hfinish⟩)
    exact ⟨hid, _, _, rfl, hstart, hfinish⟩
  · rintro ⟨hid, s, f, rfl, hstart, hfinish⟩
    exact .id hid hstart hfinish

end Shapes

/-- A task `t` is read from the parts behind a status, told by their number. Reading succeeds if and
only if each of them is read. -/
theorem readTask_eq_ok_iff {name details format : String} {known : List String} {p q : Position}
    {t : Task} : readTask name details format known p q = .ok t ↔
      ∃ parts, takeStatus q (partsOf details) = .ok (t.status, parts) ∧
        Shapes format known q parts t.id t.start t.finish ∧ t.name = name ∧
          t.position = some p := by
  -- One case for each number of parts: one, two or three. Any other number is refused.
  constructor
  · intro h
    rw [readTask] at h
    obtain ⟨⟨status, parts⟩, hstatus, h⟩ := Except.bind_eq_ok_iff.1 h
    dsimp only at h
    split at h
    · obtain ⟨finish, hfinish, h⟩ := Except.bind_eq_ok_iff.1 h
      cases h
      exact ⟨_, hstatus, .finish hfinish, rfl, rfl⟩
    · obtain ⟨start, hstart, h⟩ := Except.bind_eq_ok_iff.1 h
      obtain ⟨finish, hfinish, h⟩ := Except.bind_eq_ok_iff.1 h
      cases h
      exact ⟨_, hstatus, .start hstart hfinish, rfl, rfl⟩
    · split at h
      · cases h
      · next hid =>
        obtain ⟨start, hstart, h⟩ := Except.bind_eq_ok_iff.1 h
        obtain ⟨finish, hfinish, h⟩ := Except.bind_eq_ok_iff.1 h
        cases h
        exact ⟨_, hstatus, .id (by simpa using hid) hstart hfinish, rfl, rfl⟩
    · cases h
  · obtain ⟨name', finish, id, status, start, position⟩ := t
    rintro ⟨parts, hstatus, hshapes, rfl, rfl⟩
    rw [readTask, hstatus]
    cases hshapes with
    | finish hfinish => simp [bind, Except.bind, hfinish, pure, Except.pure]
    | start hstart hfinish => simp [bind, Except.bind, hstart, hfinish, pure, Except.pure]
    | id hid hstart hfinish => simp [bind, Except.bind, hid, hstart, hfinish, pure, Except.pure]

/-! ### Words for a status -/

theorem eq_text_of_ofText? {word : String} {s : TaskStatus} (h : TaskStatus.ofText? word = some s) :
    word = s.text := by
  unfold TaskStatus.ofText? at h
  split at h <;> cases h <;> rfl

theorem statusOf?_text (s : TaskStatus) : statusOf? s.text = some s := by
  cases s <;> decide +kernel

/-- ASCII characters `cs` at the start of a text are made lower one by one, and the characters
`before` them do not matter. -/
theorem lowerAfter_append {cs : List Char} (hcs : ∀ c ∈ cs, c.toNat < 128)
    (before rest : List Char) : lowerAfter before (cs ++ rest) =
      cs.map Char.toLower ++ lowerAfter (cs.reverse ++ before) rest := by
  induction cs generalizing before with
  | nil => rfl
  | cons c cs ih =>
    obtain ⟨hc, hcs⟩ := List.forall_mem_cons.1 hcs
    rw [List.cons_append, lowerAfter, lowerBetween, if_pos hc, ih hcs, List.map_cons,
      List.reverse_cons, List.append_assoc]
    rfl

/-- A text is no status if already its start `cs` is not the start of one. -/
theorem statusOf?_eq_none {s : String} {cs rest : List Char} (hs : s.toList = cs ++ rest)
    (hcs : ∀ c ∈ cs, c.toNat < 128)
    (h : ∀ t : TaskStatus, ¬cs.map Char.toLower <+: t.text.toList) : statusOf? s = none := by
  rw [Option.eq_none_iff_forall_ne_some]
  intro t ht
  have hword : (lower s).toList = t.text.toList := congrArg String.toList (eq_text_of_ofText? ht)
  rw [lower, String.toList_ofList, hs, lowerAfter_append hcs] at hword
  exact h t ⟨_, hword⟩

/-! ### Durations -/

/-- Digits spell a number that has no more digits than there are. -/
theorem decimalValue_lt (cs : List Char) : decimalValue cs < 10 ^ cs.length := by
  induction cs using List.reverseRecOn with
  | nil => exact Nat.one_pos
  | append_singleton cs c ih =>
    have hdigit := DateFormat.getD_digitValue?_le c
    rw [decimalValue, List.foldl_append, List.length_append, List.length_singleton, Nat.pow_succ]
    show 10 * decimalValue cs + (digitValue? c).getD 0 < _
    omega

/-- A duration `d` of which the number can be read: it is not negative and has at most as many
digits as a number may have. -/
def Duration.IsSpelled (d : Duration) : Prop := ∃ n : Nat, d.amount = n ∧ n < 10 ^ maxDigits

theorem Duration.toList_text {d : Duration} {n : Nat} (h : d.amount = n) :
    d.text.toList = (toString n).toList ++ [d.unit.letter] := by
  have hamount : toString (n : Int) = toString n := rfl
  have hletter : toString d.unit.letter = String.singleton d.unit.letter := rfl
  rw [text, h, hamount, String.toList_append, hletter, String.toList_singleton]

theorem ofLetter?_letter (u : DurationUnit) : DurationUnit.ofLetter? u.letter = some u := by
  cases u <;> rfl

/-- A duration `d` is read from what is written for it, in every `format`. -/
theorem Duration.IsSpelled.readFinish_text {d : Duration} (h : d.IsSpelled) (format : String)
    (q : Position) : readFinish d.text format q = .ok (.duration d) := by
  obtain ⟨n, hn, hlt⟩ := h
  have hlength : (toString n).toList.length ≤ maxDigits := by
    rw [String.length_toList]
    exact Nat.repr_length n maxDigits (by decide) hlt
  have hne : (toString n).toList.isEmpty = false := by
    rw [Nat.toString_eq_ofList_toDigits, String.toList_ofList, List.isEmpty_eq_false_iff]
    exact Nat.toDigits_ne_nil
  have hparts : durationParts? d.text.toList = some ((toString n).toList, d.unit) := by
    rw [Duration.toList_text hn, durationParts?, List.getLast?_concat, List.dropLast_concat,
      Option.bind_eq_bind, Option.bind_some, ofLetter?_letter, Option.bind_eq_bind,
      Option.bind_some]
    dsimp only
    rw [hne, all_isDecimal_toString]
    rfl
  rw [readFinish, hparts]
  dsimp only
  rw [if_neg (by omega), decimalValue_toString, ← hn]

theorem Duration.IsSpelled.isAsciiWord {d : Duration} (h : d.IsSpelled) :
    ∀ c ∈ d.text.toList, isAsciiWord c = true := by
  obtain ⟨n, hn, -⟩ := h
  rw [Duration.toList_text hn, List.forall_mem_append, List.forall_mem_singleton]
  constructor
  · intro c hc
    simp [Text.isAsciiWord, Char.isAlphanum, isDigit_of_mem_toString c hc]
  · cases d.unit <;> rfl

theorem Duration.IsSpelled.isPart {d : Duration} (h : d.IsSpelled) : IsPart d.text :=
  isPart_of_not_isBlank (fun c hc => isBlank_of_isAsciiWord (h.isAsciiWord c hc)) fun hcomma =>
    absurd (h.isAsciiWord ',' hcomma) (by decide)

/-- What is written for a duration `d` is no status, since it starts with a digit. -/
theorem Duration.IsSpelled.statusOf?_text {d : Duration} (h : d.IsSpelled) :
    statusOf? d.text = none := by
  obtain ⟨n, hn, -⟩ := h
  obtain ⟨c, cs, hcs⟩ : ∃ c cs, (toString n).toList = c :: cs := by
    rw [Nat.toString_eq_ofList_toDigits, String.toList_ofList]
    exact List.exists_cons_of_ne_nil Nat.toDigits_ne_nil
  have hdigit : c.isDigit = true := isDigit_of_mem_toString c (hcs ▸ List.mem_cons_self)
  have hcode := isDigit_iff.1 hdigit
  have htext : d.text.toList = [c] ++ (cs ++ [d.unit.letter]) := by
    rw [Duration.toList_text hn, hcs]
    rfl
  have hlower : c.toLower = c := by
    refine dif_neg fun hupper => ?_
    have hle : c.toNat ≤ 90 := hupper.2
    have hge : 65 ≤ c.toNat := hupper.1
    omega
  refine statusOf?_eq_none htext (by simp; omega) fun t ht => ?_
  rw [List.map_singleton, hlower] at ht
  cases t <;> (obtain rfl := (List.cons_prefix_cons.1 ht).1; exact absurd hdigit (by decide))

theorem isSpelled_of_readFinish {text format : String} {q : Position} {d : Duration}
    (h : readFinish text format q = .ok (.duration d)) : d.IsSpelled := by
  unfold readFinish at h
  dsimp only at h
  split at h
  · next digits unit _ =>
    split at h
    · cases h
    · next hlength =>
      cases h
      refine ⟨_, rfl, Nat.lt_of_lt_of_le (decimalValue_lt digits) ?_⟩
      exact Nat.pow_le_pow_right (by decide) (by omega)
  · split at h
    · cases h
    split at h
    · cases h
    · obtain ⟨m, -, hm⟩ := Except.map_eq_ok_iff.1 h
      cases hm

/-! ### Starts after other tasks -/

/-- An `id` that a task can wait for: a word without a comma, so that it stands alone among the
words of a part. -/
def IsAwaited (id : String) : Prop :=
  id.toList ≠ [] ∧ (∀ c ∈ id.toList, isBlank c = false) ∧ ',' ∉ id.toList

theorem words_after {ids : List String} (hne : ids ≠ []) (h : ∀ id ∈ ids, IsAwaited id) :
    words (" ".intercalate ids).toList = ids.map String.toList := by
  induction ids with
  | nil => exact absurd rfl hne
  | cons id ids ih =>
    obtain ⟨hid, h⟩ := List.forall_mem_cons.1 h
    cases ids with
    | nil => rw [String.intercalate_singleton, words_eq_self hid.1 hid.2.1]; rfl
    | cons id' ids =>
      have hlist : (" ".intercalate (id :: id' :: ids)).toList =
          id.toList ++ ' ' :: (" ".intercalate (id' :: ids)).toList := by
        rw [String.intercalate_cons_cons]
        simp
      rw [hlist, words_append (by rfl), words_eq_self hid.1 hid.2.1,
        ih (List.cons_ne_nil id' ids) h]
      rfl

theorem isPart_ids {ids : List String} (hne : ids ≠ []) (h : ∀ id ∈ ids, IsAwaited id) :
    IsPart (" ".intercalate ids) ∧ (" ".intercalate ids).toList ≠ [] := by
  induction ids with
  | nil => exact absurd rfl hne
  | cons id ids ih =>
    obtain ⟨⟨hid, hblank, hcomma⟩, h⟩ := List.forall_mem_cons.1 h
    have hpart : IsPart id := isPart_of_not_isBlank hblank hcomma
    cases ids with
    | nil =>
      rw [String.intercalate_singleton]
      exact ⟨hpart, hid⟩
    | cons id' ids =>
      obtain ⟨⟨hcomma', htrimmed'⟩, hne'⟩ := ih (List.cons_ne_nil id' ids) h
      have hlist : (" ".intercalate (id :: id' :: ids)).toList =
          id.toList ++ [' '] ++ (" ".intercalate (id' :: ids)).toList := by
        rw [String.intercalate_cons_cons]
        simp
      rw [IsPart, hlist]
      refine ⟨⟨?_, .append hpart.2.head hid htrimmed' hne'⟩, by simp⟩
      simp only [List.mem_append, List.mem_singleton, not_or]
      exact ⟨⟨hcomma, by decide⟩, hcomma'⟩

theorem toList_after (ids : List String) (format : String) :
    (Start.text format (.after ids)).toList =
    "after".toList ++ ' ' :: (" ".intercalate ids).toList := by
  simp [Start.text]

theorem isPart_after {ids : List String} (hne : ids ≠ []) (h : ∀ id ∈ ids, IsAwaited id)
    (format : String) : IsPart (Start.text format (.after ids)) := by
  obtain ⟨⟨hcomma, htrimmed⟩, hne'⟩ := isPart_ids hne h
  rw [IsPart, toList_after, List.append_cons]
  refine ⟨?_, .append (by decide) (by decide) htrimmed hne'⟩
  simp only [List.mem_append, not_or]
  exact ⟨by decide, hcomma⟩

/-- What is written for a start after other tasks is no status, as it starts with `after`. -/
theorem statusOf?_after (ids : List String) (format : String) :
    statusOf? (Start.text format (.after ids)) = none := by
  have htext : (Start.text format (.after ids)).toList =
      ['a', 'f'] ++ (['t', 'e', 'r'] ++ ' ' :: (" ".intercalate ids).toList) :=
        toList_after ids format
  refine statusOf?_eq_none htext (by decide) fun t => ?_
  cases t <;> decide

/-- Tasks that are `known` are found again in what is written for a start after them, in their
order. -/
theorem readStart_after {ids known : List String} (hne : ids ≠ []) (h : ∀ id ∈ ids, IsAwaited id)
    (hknown : ids ⊆ known) (format : String) (q : Position) :
    readStart (Start.text format (.after ids)) format known q = .ok (.after ids) := by
  have hwords : (words (Start.text format (.after ids)).toList).map String.ofList = "after" ::
      ids := by
    rw [toList_after, words_append (by rfl), words_after hne h,
      words_eq_self (by decide) (by decide), List.map_append, List.map_map]
    simp [Function.comp_def]
  have hlower : (lower "after" != "after") = false := by decide +kernel
  have hfind : ids.find? (fun id => !known.contains id) = none :=
    List.find?_eq_none.2 fun id hid => by simpa using hknown hid
  rw [readStart, hwords]
  dsimp only
  rw [hlower, hfind]
  simp [hne]

theorem of_readStart_after {text format : String} {known ids : List String} {q : Position}
    (h : readStart text format known q = .ok (.after ids)) (htext : ',' ∉ text.toList) :
    ids ≠ [] ∧ ∀ id ∈ ids, IsAwaited id := by
  unfold readStart at h
  split at h
  · next word ids' hwords =>
    split at h
    · obtain ⟨m, -, hm⟩ := Except.map_eq_ok_iff.1 h
      cases hm
    split at h
    · cases h
    next hne =>
    split at h
    · cases h
    cases h
    refine ⟨by simpa using hne, fun id hid => ?_⟩
    obtain ⟨w, hw, rfl⟩ := List.mem_map.1 (hwords ▸ List.mem_cons_of_mem word hid)
    obtain ⟨hne, hblank, hsub⟩ := of_mem_words hw
    rw [IsAwaited, String.toList_ofList]
    exact ⟨hne, hblank, fun hcomma => htext (hsub _ hcomma)⟩
  · obtain ⟨m, -, hm⟩ := Except.map_eq_ok_iff.1 h
    cases hm

/-! ### Dates -/

section Dates

variable {text format : String} {position position' : Option Position} {m : Moment}

/-- A date that was read from a `text` fits its `format`, which names no field twice. Blanks around
it are left out. -/
theorem exists_of_readDate (h : readDate text format position = .ok m) :
    (DateFormat.ofText format).isSimple = true ∧
      (DateFormat.ofText format).read? (trim text.toList) = some m := by
  simp only [readDate] at h
  split at h
  · cases h
  · next hsimple =>
    split at h
    · next n hread =>
      cases h
      exact ⟨by simpa using hsimple, hread⟩
    · cases h

theorem readDate_eq_ok (hsimple : (DateFormat.ofText format).isSimple = true)
    (hread : (DateFormat.ofText format).read? (trim text.toList) = some m)
    (position : Option Position) : readDate text format position = .ok m := by
  simp [readDate, hsimple, hread]

theorem null_mem_ofText : .literal '\x00' ∈ DateFormat.ofText format ↔ '\x00' ∈ format.toList :=
  DateFormat.literal_mem_ofChars (by decide) format.toList

/-- A date `m` that was read in a `format` without a null character is read from what is written for
it in the same format. If the year is written, it has to be in four digits. -/
theorem readDate_writeDate (h : readDate text format position = .ok m)
    (hnull : '\x00' ∉ format.toList)
    (hyear : .year ∈ (DateFormat.ofText format).fields →
      (DateFormat.Field.text m.reading .year).length = 4) (position' : Option Position) :
    readDate (writeDate m format) format position' = .ok m := by
  obtain ⟨hsimple, hread⟩ := exists_of_readDate h
  have hnull := mt null_mem_ofText.1 hnull
  have htrim := (DateFormat.trimmed_write hread hnull (trimmed_trim _)).trim_eq
  refine readDate_eq_ok hsimple ?_ position'
  rw [writeDate, htrim]
  exact DateFormat.read?_write hread hnull hyear

/-- A date `m` that was read in a `format` is read from what is written for it in the same format if
and only if the format has no null character, provided that the year is written in four digits. -/
theorem readDate_writeDate_iff (h : readDate text format position = .ok m)
    (hyear : .year ∈ (DateFormat.ofText format).fields →
      (DateFormat.Field.text m.reading .year).length = 4) (position' : Option Position) :
    readDate (writeDate m format) format position' = .ok m ↔ '\x00' ∉ format.toList := by
  refine ⟨fun hwritten hnull => ?_, fun hnull => readDate_writeDate h hnull hyear position'⟩
  obtain ⟨-, hread⟩ := exists_of_readDate hwritten
  rw [writeDate, DateFormat.read?_write_of_null (null_mem_ofText.2 hnull) m (trim_sublist _)]
    at hread
  cases hread

/-- A moment before noon, with the hour of a half day behind the half, fields without anything
between them, and the year twice. -/
theorem readDate_writeDate_halfDay :
    let format := "A hhmmss, YY/DDMMMYYYY"
    ∃ m, readDate "am 115959, 99/29feb2024" format none = .ok m ∧
      (DateFormat.Field.text m.reading .year).length = 4 ∧ '\x00' ∉ format.toList ∧
        readDate (writeDate m format) format none = .ok m := by
  have hread : readDate "am 115959, 99/29feb2024" "A hhmmss, YY/DDMMMYYYY" none =
      .ok ⟨63844804799, by decide⟩ := by decide +kernel
  refine ⟨_, hread, by decide +kernel, by decide, ?_⟩
  exact (readDate_writeDate_iff hread (fun _ => by decide +kernel) none).2 (by decide)

/-- A year in a format that ends with a null character is not read from what is written for it. -/
theorem readDate_writeDate_null : ∃ m, readDate "2024\x00" "YYYY\x00" none = .ok m ∧
    writeDate m "YYYY\x00" = "2024" ∧ readDate "2024" "YYYY\x00" none ≠ .ok m :=
  ⟨⟨63839664000, by decide⟩, by decide +kernel, by decide +kernel, by decide +kernel⟩

end Dates

/-- Where a date is read does not matter to it: the position `q` is only for errors. -/
theorem readDate_anywhere {text format : String} {q : Option Position} {m : Moment} :
    readDate text format q = .ok m ↔ readDate text format none = .ok m := by
  constructor
  · intro h
    obtain ⟨hsimple, hread⟩ := exists_of_readDate h
    exact readDate_eq_ok hsimple hread none
  · intro h
    obtain ⟨hsimple, hread⟩ := exists_of_readDate h
    exact readDate_eq_ok hsimple hread q

/-- A start is a date `m` if its first word does not say that it is a start after other tasks, and
if it is read as one. -/
theorem readStart_date_iff {text format : String} {known : List String} {q : Position}
    {m : Moment} : readStart text format known q = .ok (.date m) ↔
      (∀ w ∈ (words text.toList).head?, lower (String.ofList w) ≠ "after") ∧
        readDate text format none = .ok m := by
  have hdate : (readDate text format (some q)).map Start.date = .ok (.date m) ↔
      readDate text format none = .ok m := by
    rw [Except.map_eq_ok_iff, ← readDate_anywhere (q := some q)]
    simp
  unfold readStart
  dsimp only
  cases words text.toList with
  | nil =>
    rw [List.map_nil]
    exact hdate.trans (by simp)
  | cons w ws =>
    rw [List.map_cons]
    dsimp only
    by_cases hafter : lower (String.ofList w) = "after"
    · rw [if_neg (by simpa using hafter)]
      -- Behind `after` there is a list of ids or an error, but no date.
      refine iff_of_false ?_ fun h => h.1 w rfl hafter
      split
      · nofun
      · split <;> nofun
    · rw [if_pos (by simpa using hafter)]
      exact hdate.trans (by simpa using fun _ => hafter)

/-- An end is a date `m` if it is there, neither is a duration nor looks like one, and is read as
one. -/
theorem readFinish_date_iff {text format : String} {q : Position} {m : Moment} :
    readFinish text format q = .ok (.date m) ↔ durationParts? text.toList = none ∧
      looksLikeDuration text.toList = false ∧ text ≠ "" ∧ readDate text format none = .ok m := by
  have hdate : (readDate text format (some q)).map Finish.date = .ok (.date m) ↔
      readDate text format none = .ok m := by
    rw [Except.map_eq_ok_iff, ← readDate_anywhere (q := some q)]
    simp
  constructor
  · intro h
    unfold readFinish at h
    dsimp only at h
    split at h
    · split at h <;> cases h
    next hparts =>
    split at h
    · cases h
    next hlooks =>
    split at h
    · cases h
    next hne =>
    exact ⟨hparts, by simpa using hlooks, by simpa using hne, hdate.1 h⟩
  · rintro ⟨hparts, hlooks, hne, h⟩
    rw [readFinish, hparts]
    dsimp only
    rw [hlooks, if_neg Bool.false_ne_true, if_neg (by simpa using hne)]
    exact hdate.2 h

end DiagramText.Gantt
