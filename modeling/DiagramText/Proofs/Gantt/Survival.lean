import DiagramText.Proofs.Gantt.Reader
import DiagramText.Proofs.Gantt.Details

/-!
# Tasks that survive

A task is read from what is written for it, unless a date of it is not read as itself where it
stands: it is taken apart at a comma, or taken for a status, a duration or a start after other
tasks, or means another date in the format that it is written in.

* `Gantt.Task.IsSpelled`: a task as it can be read.
* `Gantt.Task.DatesSurvive`: each date of a task is read from what is written for it.
* `Gantt.readTask_written_iff`: a task is read from what is written for it if and only if its dates
  survive.
-/

namespace DiagramText.Gantt

open Text

/-! ### Tasks that can be read -/

/-- A task `t` as it can be read: it has an id only with a start, and its id, the ids that it waits
for and its duration are what parts can be read as. -/
structure Task.IsSpelled (t : Task) : Prop where
  id : ∀ id ∈ t.id, IsPart id ∧ isTaskId id.toList = true ∧ statusOf? id = none ∧ t.start ≠ none
  awaited : ∀ ids, t.start = some (.after ids) → ids ≠ [] ∧ ∀ id ∈ ids, IsAwaited id
  duration : ∀ d, t.finish = .duration d → d.IsSpelled

theorem isSpelled_of_readTask {name details format : String} {known : List String}
    {p q : Position} {t : Task} (h : readTask name details format known p q = .ok t) :
    t.IsSpelled := by
  obtain ⟨parts, hstatus, hshapes, -, -⟩ := readTask_eq_ok_iff.1 h
  obtain ⟨hhead, hparts⟩ := takeStatus_eq_ok_iff.1 hstatus
  -- A status is taken off the front of the parts, so what is left are still parts.
  have hpart : ∀ s ∈ parts, IsPart s := by
    intro s hs
    have hmem : s ∈ partsOf details := by
      rcases hparts with ⟨-, hparts⟩ | ⟨p, s', -, -, hparts⟩
      · exact hparts ▸ hs
      · exact hparts ▸ List.mem_cons_of_mem p hs
    exact isPart_of_mem_partsOf hmem
  obtain ⟨name', finish, id, status, start, position⟩ := t
  dsimp only at hshapes
  cases hshapes with
  | finish hfinish =>
    exact ⟨nofun, nofun, by rintro d rfl; exact isSpelled_of_readFinish hfinish⟩
  | @start s f start finish hstart hfinish =>
    refine ⟨nofun, ?_, by rintro d rfl; exact isSpelled_of_readFinish hfinish⟩
    rintro ids ⟨⟩
    exact of_readStart_after hstart (hpart s (by simp)).1
  | @id id s f start finish hid hstart hfinish =>
    refine ⟨?_, ?_, by rintro d rfl; exact isSpelled_of_readFinish hfinish⟩
    · rintro _ ⟨⟩
      exact ⟨hpart id (by simp), hid, hhead id rfl, nofun⟩
    · rintro ids ⟨⟩
      exact of_readStart_after hstart (hpart s (by simp)).1

/-! ### Tasks that survive -/

/-- The date that stands first among the parts behind the status of a task `t`, if a date does. Only
there can it be taken for a status. -/
def Task.leadingDate? (t : Task) : Option Moment :=
  match t.id, t.start, t.finish with
  | none, some (.date m), _ => some m
  | _, none, .date m => some m
  | _, _, _ => none

/-- A task of which each date is read as the same date from what is written for it in the
`format`. -/
structure Task.DatesSurvive (format : String) (t : Task) : Prop where
  /-- A date at the start is one part, and is read as a start. -/
  start : ∀ m, t.start = some (.date m) →
    (partsOf (writeDate m format)).map (readStart · format [] .origin) = [.ok (.date m)]
  /-- A date at the end is one part, and is read as an end. -/
  finish : ∀ m, t.finish = .date m →
    (partsOf (writeDate m format)).map (readFinish · format .origin) = [.ok (.date m)]
  /-- A date that stands first is not taken for a status. -/
  leading : ∀ m ∈ t.leadingDate?, ∀ s ∈ (partsOf (writeDate m format)).head?, statusOf? s = none

variable {t : Task} {known : List String} {format : String} {p q : Position}

/-- The parts that are written for a task `t` behind its status, each before it is taken apart. -/
def Task.ownParts (format : String) (t : Task) : List String :=
  (match t.start with
    | none => []
    | some start => t.id.toList ++ [start.text format]) ++ [t.finish.text format]

theorem Task.parts_eq (format : String) (t : Task) :
    t.parts format = (t.status.map TaskStatus.text).toList ++ t.ownParts format :=
  List.append_assoc _ _ _

theorem Task.ownParts_ne_nil (format : String) (t : Task) : t.ownParts format ≠ [] :=
  List.append_ne_nil_of_right_ne_nil _ (List.cons_ne_nil _ _)

theorem isPart_text (s : TaskStatus) : IsPart s.text := by
  cases s <;> exact ⟨by decide, .of_trim_eq (by decide)⟩

/-- The parts that are written for a task `t` are the status and the parts that the others are taken
apart to, which are more if a date has a comma. -/
theorem partsOf_parts (format : String) (t : Task) : partsOf (", ".intercalate (t.parts format)) =
    (t.status.map TaskStatus.text).toList ++ (t.ownParts format).flatMap partsOf := by
  have hne : t.parts format ≠ [] := by
    rw [t.parts_eq]
    exact List.append_ne_nil_of_right_ne_nil _ (t.ownParts_ne_nil format)
  rw [partsOf_intercalate hne, t.parts_eq, List.flatMap_append]
  cases t.status with
  | none => rfl
  | some s =>
    show [s.text].flatMap partsOf ++ _ = _
    rw [List.flatMap_singleton, partsOf_eq_singleton (isPart_text s)]
    rfl

/-- A task `t` is read from its parts if the parts behind the status are read as its id, its start
and its end, and the first of them is no status. -/
theorem readTask_parts_iff :
    (∃ u, readTask t.name (", ".intercalate (t.parts format)) format known p q = .ok u ∧
        u.unplaced = t.unplaced) ↔
      (∀ s ∈ ((t.ownParts format).flatMap partsOf).head?, statusOf? s = none) ∧
        Shapes format known q ((t.ownParts format).flatMap partsOf) t.id t.start t.finish := by
  have hparts := partsOf_parts format t
  constructor
  · rintro ⟨u, hu, hsame⟩
    have hstatus : u.unplaced.status = t.unplaced.status := congrArg Task.status hsame
    have hid : u.unplaced.id = t.unplaced.id := congrArg Task.id hsame
    have hstart : u.unplaced.start = t.unplaced.start := congrArg Task.start hsame
    have hfinish : u.unplaced.finish = t.unplaced.finish := congrArg Task.finish hsame
    dsimp only [Task.unplaced] at hstatus hid hstart hfinish
    obtain ⟨rest, htake, hshapes, -, -⟩ := readTask_eq_ok_iff.1 hu
    rw [hstatus, hparts] at htake
    rw [hid, hstart, hfinish] at hshapes
    obtain ⟨hhead, hrest⟩ := takeStatus_eq_ok_iff.1 htake
    -- What is left behind the status are all its own parts: the status that was read is the one of
    -- the task.
    obtain rfl : (t.ownParts format).flatMap partsOf = rest := by
      rcases hrest with ⟨hnone, hrest⟩ | ⟨r, s, -, hsome, hrest⟩
      · rw [hnone] at hrest
        exact hrest
      · rw [hsome] at hrest
        exact (List.cons.inj hrest).2
    exact ⟨hhead, hshapes⟩
  · rintro ⟨hhead, hshapes⟩
    refine ⟨{ t with position := some p }, readTask_eq_ok_iff.2 ⟨_, ?_, hshapes, rfl, rfl⟩, rfl⟩
    rw [takeStatus_eq_ok_iff, hparts]
    refine ⟨hhead, ?_⟩
    cases hs : t.status with
    | none => exact .inl ⟨rfl, rfl⟩
    | some s => exact .inr ⟨s.text, s, statusOf?_text s, rfl, rfl⟩

/-! The parts that are no dates are always read. -/

/-- A list whose only member is mapped to the value `b`. -/
theorem map_eq_singleton_iff {α β : Type} {f : α → β} {as : List α} {b : β} :
    as.map f = [b] ↔ ∃ a, as = [a] ∧ f a = b := by
  cases as with
  | nil => simp
  | cons a as => cases as <;> simp

/-- A `start` is one part and read as itself, if it is so for a date. A start after other tasks
always is. -/
theorem start_iff {start : Start} (hawaited : ∀ ids, start = .after ids →
    (ids ≠ [] ∧ ∀ id ∈ ids, IsAwaited id) ∧ ids ⊆ known) :
    (∃ s, partsOf (start.text format) = [s] ∧ readStart s format known q = .ok start) ↔
      ∀ m, start = .date m →
        (partsOf (writeDate m format)).map (readStart · format [] .origin) = [.ok (.date m)] := by
  cases start with
  | date m =>
    simp only [Start.date.injEq, forall_eq', map_eq_singleton_iff, readStart_date_iff, Start.text]
  | after ids =>
    obtain ⟨⟨hne, hids⟩, hknown⟩ := hawaited ids rfl
    exact iff_of_true ⟨_, partsOf_eq_singleton (isPart_after hne hids format),
      readStart_after hne hids hknown format q⟩ fun m hm => by cases hm

/-- The end `finish` is one part and read as itself, if it is so for a date. A duration always
is. -/
theorem finish_iff {finish : Finish} (hduration : ∀ d, finish = .duration d → d.IsSpelled) :
    (∃ s, partsOf (finish.text format) = [s] ∧ readFinish s format q = .ok finish) ↔
      ∀ m, finish = .date m →
        (partsOf (writeDate m format)).map (readFinish · format .origin) = [.ok (.date m)] := by
  cases finish with
  | date m =>
    simp only [Finish.date.injEq, forall_eq', map_eq_singleton_iff, readFinish_date_iff,
      Finish.text]
  | duration d =>
    have hd := hduration d rfl
    exact iff_of_true ⟨_, partsOf_eq_singleton hd.isPart, hd.readFinish_text format q⟩ nofun

theorem append_eq_pair_iff {α : Type} {as bs : List α} {a b : α} (has : as ≠ []) (hbs : bs ≠ []) :
    as ++ bs = [a, b] ↔ as = [a] ∧ bs = [b] := by
  constructor
  · intro h
    have hlength := congrArg List.length h
    have hpos := List.length_pos_iff.2 has
    have hpos' := List.length_pos_iff.2 hbs
    rw [List.length_append, List.length_cons, List.length_singleton] at hlength
    exact List.append_inj h (by simp; omega)
  · rintro ⟨rfl, rfl⟩
    rfl

/-- A `start` and an end `finish` are read from two parts if and only if each of them is one part,
since neither is written as none. -/
theorem parts_pair_iff {start : Start} {finish : Finish} :
    (∃ s f, partsOf (start.text format) ++ partsOf (finish.text format) = [s, f] ∧
        readStart s format known q = .ok start ∧ readFinish f format q = .ok finish) ↔
      (∃ s, partsOf (start.text format) = [s] ∧ readStart s format known q = .ok start) ∧
        ∃ f, partsOf (finish.text format) = [f] ∧ readFinish f format q = .ok finish := by
  simp only [append_eq_pair_iff (partsOf_ne_nil _) (partsOf_ne_nil _)]
  constructor
  · rintro ⟨s, f, ⟨hs, hf⟩, hstart, hfinish⟩
    exact ⟨⟨s, hs, hstart⟩, f, hf, hfinish⟩
  · rintro ⟨⟨s, hs, hstart⟩, f, hf, hfinish⟩
    exact ⟨s, f, ⟨hs, hf⟩, hstart, hfinish⟩

namespace Task.IsSpelled

theorem id_eq_none (h : t.IsSpelled) (hstart : t.start = none) : t.id = none := by
  cases hid : t.id with
  | none => rfl
  | some id => exact absurd hstart (h.id id hid).2.2.2

/-- A task `t` without a start is written as its end, as it has no id either. -/
theorem flatMap_ownParts_none (hstart : t.start = none) :
    (t.ownParts format).flatMap partsOf = partsOf (t.finish.text format) := by
  rw [ownParts, hstart, List.nil_append, List.flatMap_singleton]

/-- A task `t` with a start is written as its id, which is one part, its start and its end. -/
theorem flatMap_ownParts_some (h : t.IsSpelled) {start : Start}
    (hstart : t.start = some start) : (t.ownParts format).flatMap partsOf =
      t.id.toList ++ (partsOf (start.text format) ++ partsOf (t.finish.text format)) := by
  have hid : t.id.toList.flatMap partsOf = t.id.toList := by
    cases hid : t.id with
    | none => rfl
    | some id => exact (List.flatMap_singleton _ _).trans (partsOf_eq_singleton (h.id id hid).1)
  simp only [ownParts, hstart, List.flatMap_append, List.flatMap_singleton, hid, List.append_assoc]

/-- The parts of a task `t` are read as its id, its start and its end, if and only if its dates are
parts that are read as these. -/
theorem shapes_iff (h : t.IsSpelled) (hknown : t.dependencies ⊆ known) :
    Shapes format known q ((t.ownParts format).flatMap partsOf) t.id t.start t.finish ↔
      (∀ m, t.start = some (.date m) →
        (partsOf (writeDate m format)).map (readStart · format [] .origin) = [.ok (.date m)]) ∧
      ∀ m, t.finish = .date m →
        (partsOf (writeDate m format)).map (readFinish · format .origin) = [.ok (.date m)] := by
  rw [← finish_iff (q := q) h.duration]
  cases hstart : t.start with
  | none =>
    rw [flatMap_ownParts_none hstart, h.id_eq_none hstart, shapes_finish_iff]
    exact (and_iff_right nofun).symm
  | some start =>
    have hdates := @start_iff known format q start fun ids hids => by
      rw [hids] at hstart
      refine ⟨h.awaited ids hstart, ?_⟩
      rwa [dependencies, hstart] at hknown
    simp only [Option.some.injEq]
    rw [h.flatMap_ownParts_some hstart, ← hdates, ← parts_pair_iff]
    cases hid : t.id with
    | none => exact shapes_start_iff
    | some id =>
      rw [shapes_id_iff, and_iff_right (h.id id hid).2.1]
      simp only [Option.toList_some, List.singleton_append, List.cons.injEq, true_and]

/-- The first part of a task is no status if this holds for a date that stands first, as no id,
duration or `after` is one. -/
theorem head_iff (h : t.IsSpelled) :
    (∀ s ∈ ((t.ownParts format).flatMap partsOf).head?, statusOf? s = none) ↔
      ∀ m ∈ t.leadingDate?, ∀ s ∈ (partsOf (writeDate m format)).head?, statusOf? s = none := by
  rw [leadingDate?]
  -- The first part is that of the end if there is no start, and else that of the id or the start.
  cases hstart : t.start with
  | none =>
    rw [flatMap_ownParts_none hstart]
    cases hfinish : t.finish with
    | date m => simp [Finish.text]
    | duration d =>
      have hd := h.duration d hfinish
      rw [Finish.text, partsOf_eq_singleton hd.isPart]
      simp [hd.statusOf?_text]
  | some start =>
    rw [h.flatMap_ownParts_some hstart]
    cases hid : t.id with
    | some id => simp [(h.id id hid).2.2.1]
    | none =>
      rw [Option.toList_none, List.nil_append, List.head?_append_of_ne_nil _ (partsOf_ne_nil _)]
      cases start with
      | date m => simp [Start.text]
      | after ids =>
        obtain ⟨hne, hids⟩ := h.awaited ids hstart
        rw [partsOf_eq_singleton (isPart_after hne hids format)]
        simp [statusOf?_after]

end Task.IsSpelled

/-- A task `t` is read from what is written for it if and only if its dates survive, with the tasks
known that it waits for. -/
theorem readTask_written_iff (h : t.IsSpelled) (hknown : t.dependencies ⊆ known) :
    (∃ u, readTask t.name (", ".intercalate (t.parts format)) format known p q = .ok u ∧
      u.unplaced = t.unplaced) ↔ t.DatesSurvive format := by
  rw [readTask_parts_iff, h.head_iff, h.shapes_iff hknown]
  constructor
  · rintro ⟨hleading, hstart, hfinish⟩
    exact ⟨hstart, hfinish, hleading⟩
  · rintro ⟨hstart, hfinish, hleading⟩
    exact ⟨hleading, hstart, hfinish⟩

end DiagramText.Gantt
