import DiagramText.Proofs.Gantt.Schedule

/-!
# Delays

If some tasks of a chart take longer, and some start or end at later dates, then no task starts or
ends earlier than before. A delay spreads to the tasks that wait for a delayed one or follow it, and
where an id is used again, to those that wait for the later task with the id.

* `Gantt.Delayed`: the tasks of a chart are those of another one, with delays.
* `Gantt.StartsAt.mono`, `Gantt.EndsAt.mono`: where the tasks before a task are delayed, its start
  and its end are no earlier.
* `Gantt.schedule_mono`: no entry of a schedule is earlier.
-/

namespace DiagramText.Gantt

/-! ### Charts with delays -/

/-- A start at the same or at a later date, or behind the same tasks. -/
inductive Start.Delayed : Start → Start → Prop
  | date {m n : Moment} (h : m.seconds ≤ n.seconds) : Delayed (.date m) (.date n)
  | after (ids : List String) : Delayed (.after ids) (.after ids)

/-- An end at the same or at a later date, or after a duration in the same unit that is no shorter.
-/
inductive Finish.Delayed : Finish → Finish → Prop
  | date {m n : Moment} (h : m.seconds ≤ n.seconds) : Delayed (.date m) (.date n)
  | duration {a b : Int} {unit : DurationUnit} (h : a ≤ b) :
    Delayed (.duration ⟨a, unit⟩) (.duration ⟨b, unit⟩)

/-- A task `t` with the same id and the same dependencies, of which the dates are no earlier and the
duration is no shorter. -/
structure Task.Delayed (t u : Task) : Prop where
  id : t.id = u.id
  start : Option.Rel Start.Delayed t.start u.start
  finish : Finish.Delayed t.finish u.finish

/-- The chart `e` has the tasks of `g`, in the same order, some of them with delays. -/
def Delayed (g e : Gantt) : Prop := List.Forall₂ Task.Delayed g.tasks e.tasks

/-- An entry `x` of a task with the same id that neither starts nor ends earlier. -/
structure ScheduledTask.Delayed (x y : ScheduledTask) : Prop where
  id : x.task.id = y.task.id
  start : x.start.seconds ≤ y.start.seconds
  finish : x.finish.seconds ≤ y.finish.seconds

variable {done done' s s' : List ScheduledTask} {t u : Task} {ts us : List Task}
  {m m' n n' : Moment} {g e : Gantt}

/-! ### The entries so far -/

theorem rel_getLast? {α : Type} {R : α → α → Prop} {as bs : List α} (h : List.Forall₂ R as bs) :
    Option.Rel R as.getLast? bs.getLast? := by
  have hreverse := List.forall₂_reverse_iff.2 h
  rw [← List.head?_reverse, ← List.head?_reverse]
  generalize as.reverse = as', bs.reverse = bs' at hreverse
  cases hreverse with
  | nil => exact .none
  | cons hlast _ => exact .some hlast

/-- Delays carry over to the ends that other tasks wait for, be they those of the first or of a
later task with the `id`. -/
theorem rel_endOf? (h : List.Forall₂ ScheduledTask.Delayed done done') (id : String) :
    Option.Rel (fun m n : Moment => m.seconds ≤ n.seconds) (endOf? done id) (endOf? done' id) := by
  have hfilter : List.Forall₂ ScheduledTask.Delayed
      (done.filter fun x => x.task.id = some id) (done'.filter fun x => x.task.id = some id) := by
    apply List.rel_filter _ h
    intro x y hxy
    dsimp only
    rw [hxy.id]
  have hlast := rel_getLast? hfilter
  unfold endOf?
  generalize (done.filter _).getLast? = x, (done'.filter _).getLast? = y at hlast
  cases hlast with
  | none => exact .none
  | some hxy => exact .some hxy.finish

/-! ### One task -/

theorem IsLatestEnd.mono {ids : List String}
    (hdone : List.Forall₂ ScheduledTask.Delayed done done') (hm : IsLatestEnd done ids m)
    (hn : IsLatestEnd done' ids n) : m.seconds ≤ n.seconds := by
  -- the task that ended last ends no earlier with delays
  obtain ⟨id, hid, hend⟩ := hm.attained
  obtain ⟨k, hk, hle⟩ := hn.le id hid
  have hrel := rel_endOf? hdone id
  rw [hend, hk] at hrel
  cases hrel with
  | some hmk => omega

/-- A task `t` with delays, behind tasks with delays, starts no earlier, whatever its start depends
on. -/
theorem StartsAt.mono (hdone : List.Forall₂ ScheduledTask.Delayed done done') (ht : t.Delayed u)
    (hm : StartsAt done t m) (hn : StartsAt done' u n) : m.seconds ≤ n.seconds := by
  have hstart := ht.start
  -- Delays do not change what a start depends on, so only equal kinds of starts meet.
  cases hm with
  | date h =>
    rw [h] at hstart
    cases hn with
    | date h' =>
      rw [h'] at hstart
      cases hstart with
      | some hdate =>
        cases hdate with
        | date hle => exact hle
    | after h' _ => rw [h'] at hstart; nomatch hstart
    | next h' _ _ => rw [h'] at hstart; nomatch hstart
  | after h hlatest =>
    rw [h] at hstart
    cases hn with
    | date h' => rw [h'] at hstart; nomatch hstart
    | after h' hlatest' =>
      rw [h'] at hstart
      cases hstart with
      | some hids =>
        cases hids with
        | after => exact hlatest.mono hdone hlatest'
    | next h' _ _ => rw [h'] at hstart; nomatch hstart
  | next h hx hfinish =>
    rw [h] at hstart
    cases hn with
    | date h' => rw [h'] at hstart; nomatch hstart
    | after h' _ => rw [h'] at hstart; nomatch hstart
    | next h' hy hfinish' =>
      have hlast := rel_getLast? hdone
      rw [hx, hy] at hlast
      cases hlast with
      | some hxy =>
        rw [← hfinish, ← hfinish']
        exact hxy.finish

theorem Duration.seconds?_mono {a b i j : Int} {unit : DurationUnit} (h : a ≤ b)
    (hi : Duration.seconds? ⟨a, unit⟩ = some i) (hj : Duration.seconds? ⟨b, unit⟩ = some j) :
    i ≤ j := by
  unfold Duration.seconds? at hi hj
  dsimp only at hi hj
  split at hi
  · split at hj
    · rw [← Option.some.inj hi, ← Option.some.inj hj]
      apply Int.mul_le_mul_of_nonneg_right h
      omega
    · cases hj
  · cases hi

/-- A task `t` with delays that starts no earlier ends no earlier. -/
theorem EndsAt.mono (ht : t.Delayed u) (hle : m.seconds ≤ m'.seconds) (hn : EndsAt t m n)
    (hn' : EndsAt u m' n') : n.seconds ≤ n'.seconds := by
  have hfinish := ht.finish
  cases hn with
  | date h =>
    rw [h] at hfinish
    cases hn' with
    | date h' =>
      rw [h'] at hfinish
      cases hfinish with
      | date hdate => exact hdate
    | duration h' _ _ => rw [h'] at hfinish; nomatch hfinish
  | duration h hi hsum =>
    rw [h] at hfinish
    cases hn' with
    | date h' => rw [h'] at hfinish; nomatch hfinish
    | duration h' hj hsum' =>
      rw [h'] at hfinish
      cases hfinish with
      | duration hab =>
        have hij := Duration.seconds?_mono hab hi hj
        omega

/-! ### All tasks -/

/-- The entries so far and those to come are delayed together. The induction is on the tasks to
come, with both schedules side by side. -/
theorem Schedules.mono (hdone : List.Forall₂ ScheduledTask.Delayed done done')
    (hts : List.Forall₂ Task.Delayed ts us) (hs : Schedules done ts s)
    (hs' : Schedules done' us s') : List.Forall₂ ScheduledTask.Delayed s s' := by
  induction hts generalizing done done' s s' with
  | nil =>
    rw [schedules_nil.1 hs, schedules_nil.1 hs']
    exact .nil
  | cons ht _ ih =>
    obtain ⟨m, n, r, rfl, hm, hn, hr⟩ := schedules_cons.1 hs
    obtain ⟨m', n', r', rfl, hm', hn', hr'⟩ := schedules_cons.1 hs'
    have hstart := hm.mono hdone ht hm'
    have hentry : ScheduledTask.Delayed ⟨_, m, n⟩ ⟨_, m', n'⟩ :=
      ⟨ht.id, hstart, hn.mono ht hstart hn'⟩
    exact .cons hentry (ih (List.rel_append hdone (.cons hentry .nil)) hr hr')

/-- If the chart `g` and the same chart with delays both have a schedule, then no task starts or
ends earlier in that of the chart with delays. -/
theorem schedule_mono (h : g.Delayed e) (hs : g.schedule = .ok s) (hs' : e.schedule = .ok s') :
    List.Forall₂ ScheduledTask.Delayed s s' :=
  Schedules.mono .nil h ((Schedule.resolve_eq_ok_iff Schedule.keeps_nil).1 hs)
    ((Schedule.resolve_eq_ok_iff Schedule.keeps_nil).1 hs')

/-- The first task starts later and takes longer, and the third one ends at a later date. The delay
reaches the last task through two tasks with one id. -/
theorem schedule_mono_chain : ∃ (g e : Gantt) (s s' : List ScheduledTask),
    g.Delayed e ∧ g.schedule = .ok s ∧ e.schedule = .ok s' ∧
      s.map (fun x => (x.start.seconds, x.finish.seconds)) =
        [(0, 86400), (86400, 129600), (129600, 200000), (129600, 216000), (216000, 219600)] ∧
      s'.map (fun x => (x.start.seconds, x.finish.seconds)) =
        [(3600, 176400), (176400, 219600), (219600, 300000), (219600, 306000),
          (306000, 309600)] ∧
      List.Forall₂ ScheduledTask.Delayed s s' := by
  let moment (n : Nat) (h : n < Calendar.limit) : Moment := ⟨n, h⟩
  let task₁ (start : Moment) (days : Int) : Task :=
    { name := "a", finish := .duration ⟨days, .days⟩, id := some "x", start := some (.date start) }
  let task₂ : Task :=
    { name := "b", finish := .duration ⟨12, .hours⟩, id := some "y", start := some (.after ["x"]) }
  let task₃ (finish : Moment) : Task := { name := "c", finish := .date finish }
  let task₄ : Task :=
    { name := "d", finish := .duration ⟨1, .days⟩, id := some "x",
      start := some (.after ["x", "y"]) }
  let task₅ : Task :=
    { name := "e", finish := .duration ⟨1, .hours⟩, start := some (.after ["x"]) }
  let chart (start : Moment) (days : Int) (finish : Moment) : Gantt :=
    ⟨{}, [⟨"s", [task₁ start days, task₂]⟩, ⟨"t", [task₃ finish, task₄, task₅]⟩]⟩
  -- task by task: later, longer, or the same
  have hdelayed : (chart (moment 0 (by decide)) 1 (moment 200000 (by decide))).Delayed
      (chart (moment 3600 (by decide)) 2 (moment 300000 (by decide))) := by
    apply List.Forall₂.cons ⟨rfl, .some (.date (by decide)), .duration (by decide)⟩
    apply List.Forall₂.cons ⟨rfl, .some (.after _), .duration (Int.le_refl _)⟩
    apply List.Forall₂.cons ⟨rfl, .none, .date (by decide)⟩
    apply List.Forall₂.cons ⟨rfl, .some (.after _), .duration (Int.le_refl _)⟩
    exact .cons ⟨rfl, .some (.after _), .duration (Int.le_refl _)⟩ .nil
  have hs : (chart (moment 0 (by decide)) 1 (moment 200000 (by decide))).schedule = .ok [
      ⟨task₁ (moment 0 (by decide)) 1, moment 0 (by decide), moment 86400 (by decide)⟩,
      ⟨task₂, moment 86400 (by decide), moment 129600 (by decide)⟩,
      ⟨task₃ (moment 200000 (by decide)), moment 129600 (by decide), moment 200000 (by decide)⟩,
      ⟨task₄, moment 129600 (by decide), moment 216000 (by decide)⟩,
      ⟨task₅, moment 216000 (by decide), moment 219600 (by decide)⟩] := by decide +kernel
  have hs' : (chart (moment 3600 (by decide)) 2 (moment 300000 (by decide))).schedule = .ok [
      ⟨task₁ (moment 3600 (by decide)) 2, moment 3600 (by decide), moment 176400 (by decide)⟩,
      ⟨task₂, moment 176400 (by decide), moment 219600 (by decide)⟩,
      ⟨task₃ (moment 300000 (by decide)), moment 219600 (by decide), moment 300000 (by decide)⟩,
      ⟨task₄, moment 219600 (by decide), moment 306000 (by decide)⟩,
      ⟨task₅, moment 306000 (by decide), moment 309600 (by decide)⟩] := by decide +kernel
  exact ⟨_, _, _, _, hdelayed, hs, hs', rfl, rfl, schedule_mono hdelayed hs hs'⟩

end DiagramText.Gantt
