import DiagramText.Gantt.Edit
import DiagramText.Proofs.Gantt.Order
import DiagramText.Proofs.Identifier
import Mathlib.Logic.Relation

/-!
# The integrity of gantt charts

A new task comes to the end of its section, which may lie before other sections. This moves no task
that was there ahead of one that it waits for, and the new task waits only for tasks before its own
place, so a chart in order stays in order.

* `Gantt.exists_of_place`: where a new task stands.
* `Gantt.InOrder.place`: a chart in order stays in order.
* `Gantt.valid_of_edits`: charts that are made of tasks added one by one are accepted, and a task
  that is added to a chart in order never closes a circle.
-/

namespace DiagramText.Gantt

variable {g e : Gantt} {name : String} {t : Task}

/-! ### The place of a new task -/

/-- A new task stands between the tasks up to the end of its section and those of later sections.
The tasks `earlier` are those that it may wait for. -/
theorem exists_of_place {sections sections' : List Section} {earlier : List Task}
    (h : place name t sections = (sections', earlier)) : ∃ later,
      sections.flatMap Section.tasks = earlier ++ later ∧
        sections'.flatMap Section.tasks = earlier ++ t :: later := by
  induction sections generalizing sections' earlier with
  | nil =>
    cases h
    exact ⟨[], rfl, rfl⟩
  | cons s ss ih =>
    rw [place] at h
    split at h
    · cases h
      refine ⟨ss.flatMap Section.tasks, rfl, ?_⟩
      rw [List.flatMap_cons, List.append_assoc]
      rfl
    · generalize hplace : place name t ss = r at h
      obtain ⟨ss', before⟩ := r
      cases h
      obtain ⟨later, htasks, htasks'⟩ := ih hplace
      refine ⟨later, ?_, ?_⟩
      · rw [List.flatMap_cons, htasks, List.append_assoc]
      · rw [List.flatMap_cons, htasks', List.append_assoc]

/-- A task `t` that waits only for tasks before its place can be put there, since those behind it
have no fewer tasks before them. -/
theorem ordered_insert {known : List String} {before after : List Task}
    (h : Ordered known (before ++ after)) (ht : t.dependencies ⊆ before.filterMap Task.id) :
    Ordered known (before ++ t :: after) := by
  obtain ⟨hbefore, hafter⟩ := ordered_append.1 h
  rw [ordered_append]
  refine ⟨hbefore, ?_, ?_⟩
  · exact List.Subset.trans ht (List.subset_append_right _ _)
  · exact hafter.mono (List.subset_append_left _ _)

/-- A chart in order stays in order if the new task `t` has a new id, or none, and waits only for
tasks `earlier` before its place. -/
theorem InOrder.place {sections : List Section} {earlier : List Task} (hg : g.InOrder)
    (h : place name t g.sections = (sections, earlier)) (hid : ∀ id ∈ t.id, id ∉ g.taskIds)
    (ht : t.dependencies ⊆ earlier.filterMap Task.id) : InOrder { g with sections } := by
  -- The new task stands between the `earlier` tasks and the `later` ones, which keep their order.
  obtain ⟨later, htasks, htasks'⟩ := exists_of_place h
  have hids : g.taskIds = earlier.filterMap Task.id ++ later.filterMap Task.id := by
    rw [taskIds, tasks, htasks, List.filterMap_append]
  have hids' : taskIds { g with sections } =
      earlier.filterMap Task.id ++ (t.id.toList ++ later.filterMap Task.id) := by
    rw [taskIds, tasks, htasks', List.filterMap_append, filterMap_id_cons]
  rw [inOrder_iff] at hg ⊢
  obtain ⟨hnodup, hordered⟩ := hg
  constructor
  · rw [hids']
    cases htid : t.id with
    | none =>
      rw [hids] at hnodup
      exact hnodup
    | some id =>
      have hnew := hid id (by rw [htid]; rfl)
      rw [hids] at hnodup hnew
      show (earlier.filterMap Task.id ++ id :: later.filterMap Task.id).Nodup
      rw [List.nodup_middle]
      exact List.nodup_cons.2 ⟨hnew, hnodup⟩
  · rw [tasks, htasks']
    rw [tasks, htasks] at hordered
    -- The later tasks may wait for more ids than before.
    exact ordered_insert hordered ht

/-! ### Checks of a new task -/

/-- An `id` is accepted only if it is new to the chart `g`. -/
theorem notMem_of_checkTaskId {start : Option Start} {id : Option String}
    (h : g.checkTaskId start id = .ok ()) : ∀ i ∈ id, i ∉ g.taskIds := by
  intro i hi
  obtain rfl : id = some i := hi
  obtain ⟨j, hj, hrest⟩ := Except.bind_eq_ok_iff.1 h
  obtain rfl := (Identifier.of_checkFor hj).1
  split at hrest
  · cases hrest
  split at hrest
  · cases hrest
  · next hnew => exact fun hmem => hnew (List.contains_iff_mem.2 hmem)

/-- The check of an `id` says what is wrong with the id alone, and never that tasks wait in a
circle. -/
theorem checkTaskId_ne_circular {start : Option Start} {id : Option String} (ids : List String) :
    g.checkTaskId start id ≠ .error (.circular ids) := by
  intro h
  cases id with
  | none => cases h
  | some id =>
    rcases Except.bind_eq_error_iff.1 h with h | ⟨i, -, h⟩
    · unfold Identifier.checkFor Identifier.check at h
      split at h
      · cases h
      split at h
      · cases h
      · cases h
    · split at h
      · cases h
      split at h
      · cases h
      · cases h

theorem subset_of_checkAwaited {earlier : List Task} (h : checkAwaited earlier t = .ok ()) :
    t.dependencies ⊆ earlier.filterMap Task.id := by
  unfold checkAwaited at h
  split at h
  · cases h
  · next hfind =>
    rw [List.find?_eq_none] at hfind
    intro id hid
    simpa using hfind id hid

theorem checkAwaited_ne_circular {earlier : List Task} (ids : List String) :
    checkAwaited earlier t ≠ .error (.circular ids) := by
  intro h
  unfold checkAwaited at h
  split at h
  · cases h
  · cases h

/-! ### Adding a task -/

/-- A task `t` with a `name` is added by three steps: the check of its id, the check of what it
waits for, and the search for a circle in the chart with the task. -/
theorem addTask_eq (hname : isTaskName t.name = true) : g.addTask name t =
    (g.checkTaskId t.start t.id).bind fun _ =>
      (checkAwaited (Gantt.place name t g.sections).2 t).bind fun _ =>
        (checkCycle { g with sections := (Gantt.place name t g.sections).1 }).bind fun _ =>
          .ok { g with sections := (Gantt.place name t g.sections).1 } := by
  unfold addTask
  rw [hname]
  rfl

theorem addTask_of_not_isTaskName (hname : ¬isTaskName t.name = true) :
    g.addTask name t = .error (.invalidTaskName t.name) := by
  unfold addTask
  rw [Bool.not_eq_true] at hname
  rw [hname]
  rfl

theorem InOrder.addTask (hg : g.InOrder) (h : g.addTask name t = .ok e) : e.InOrder := by
  by_cases hname : isTaskName t.name = true
  · rw [addTask_eq hname] at h
    obtain ⟨_, hid, h⟩ := Except.bind_eq_ok_iff.1 h
    obtain ⟨_, hawaited, h⟩ := Except.bind_eq_ok_iff.1 h
    obtain ⟨_, -, h⟩ := Except.bind_eq_ok_iff.1 h
    cases h
    exact hg.place rfl (notMem_of_checkTaskId hid) (subset_of_checkAwaited hawaited)
  · rw [addTask_of_not_isTaskName hname] at h
    cases h

/-- No task that is added to a chart in order closes a circle: where the search for one is made, the
chart with the task `t` is in order, and the search finds nothing there. -/
theorem InOrder.addTask_ne_circular (hg : g.InOrder) (ids : List String) :
    g.addTask name t ≠ .error (.circular ids) := by
  intro h
  by_cases hname : isTaskName t.name = true
  · rw [addTask_eq hname] at h
    rcases Except.bind_eq_error_iff.1 h with h | ⟨_, hid, h⟩
    · exact checkTaskId_ne_circular ids h
    rcases Except.bind_eq_error_iff.1 h with h | ⟨_, hawaited, h⟩
    · exact checkAwaited_ne_circular ids h
    have horder := hg.place rfl (notMem_of_checkTaskId hid) (subset_of_checkAwaited hawaited)
    rw [horder.checkCycle_eq] at h
    cases h
  · rw [addTask_of_not_isTaskName hname] at h
    cases h

/-! ### Edits -/

/-- The chart `e` is `g` after an accepted edit. There is only one kind of edit. -/
inductive Edit (g : Gantt) : Gantt → Prop
  | addTask {e : Gantt} {name : String} {t : Task} (h : g.addTask name t = .ok e) : Edit g e

/-- A chart that is made of tasks added one by one to an empty one is in order and accepted: task
ids are different and a task waits only for tasks before it. And no task that is added to a chart in
order is rejected because tasks wait for each other in a circle. -/
theorem valid_of_edits :
    (∀ (config : Config) (g : Gantt), Relation.ReflTransGen Edit { config } g →
      g.InOrder ∧ g.validate = .ok ()) ∧
    ∀ g : Gantt, g.InOrder → ∀ (name : String) (t : Task) (ids : List String),
      g.addTask name t ≠ .error (.circular ids) := by
  constructor
  · intro config g h
    have horder : g.InOrder := by
      induction h with
      | refl => exact inOrder_iff.2 ⟨List.nodup_nil, trivial⟩
      | tail _ hedit ih =>
        obtain ⟨hadd⟩ := hedit
        exact ih.addTask hadd
    exact ⟨horder, horder.validate_eq⟩
  · intro g hg name t ids
    exact hg.addTask_ne_circular ids

/-- The third task comes to the first section, before the second task, and waits for the first. What
is then added to the second section cannot close a circle, whatever it waits for. -/
theorem valid_of_edits_sections : ∃ (a b c d : Task) (g₁ g₂ g₃ : Gantt),
    addTask {} "s" a = .ok g₁ ∧ g₁.addTask "t" b = .ok g₂ ∧ g₂.addTask "s" c = .ok g₃ ∧
      g₃.taskIds = ["a", "c", "b"] ∧ c.dependencies = ["a"] ∧ d.dependencies = ["c", "b"] ∧
      (g₃.InOrder ∧ g₃.validate = .ok ()) ∧
      ∀ ids, g₃.addTask "t" d ≠ .error (.circular ids) := by
  let day : Finish := .duration ⟨1, .days⟩
  let a : Task :=
    { name := "A", finish := day, id := some "a", start := some (.date ⟨0, by decide⟩) }
  let b : Task := { name := "B", finish := day, id := some "b", start := some (.after ["a"]) }
  let c : Task := { name := "C", finish := day, id := some "c", start := some (.after ["a"]) }
  let d : Task := { name := "D", finish := day, id := some "d", start := some (.after ["c", "b"]) }
  let g₁ : Gantt := ⟨{}, [⟨"s", [a]⟩]⟩
  let g₂ : Gantt := ⟨{}, [⟨"s", [a]⟩, ⟨"t", [b]⟩]⟩
  let g₃ : Gantt := ⟨{}, [⟨"s", [a, c]⟩, ⟨"t", [b]⟩]⟩
  have h₁ : addTask {} "s" a = .ok g₁ := by decide +kernel
  have h₂ : g₁.addTask "t" b = .ok g₂ := by decide +kernel
  have h₃ : g₂.addTask "s" c = .ok g₃ := by decide +kernel
  have hruns : Relation.ReflTransGen Edit {} g₃ :=
    ((Relation.ReflTransGen.single (.addTask h₁)).tail (.addTask h₂)).tail (.addTask h₃)
  obtain ⟨hvalid, hcircular⟩ := valid_of_edits
  obtain ⟨horder, haccepted⟩ := hvalid {} g₃ hruns
  exact ⟨a, b, c, d, g₁, g₂, g₃, h₁, h₂, h₃, by decide, rfl, rfl, ⟨horder, haccepted⟩,
    hcircular g₃ horder "t" d⟩

end DiagramText.Gantt
