import DiagramText.Gantt.Schedule
import DiagramText.Proofs.Gantt.RoundTrip

/-!
# Schedules

A schedule is resolved from the first task to the last. All that a task needs of the tasks before it
is the end of the last one with each id and the end of the one right before it, and these are told
by the entries of the schedule so far. So a schedule is known by its entries alone, and resolving
stops only where a task has no start or has its end outside the calendar.

* `Gantt.IsSchedule`: entries for the tasks of a chart, each of which starts where the entries
  before it put it.
* `Gantt.Schedule.resolve_eq_ok_iff`: resolving gives exactly these entries.
* `Gantt.Schedule.resolve_eq_outOfRange_iff`: when resolving runs out of the calendar.
* `Gantt.schedule_of_isRead`: what can keep a chart that was read from having a schedule.
-/

namespace DiagramText

/-! ### The latest moment -/

namespace Moment

theorem eq_of_seconds_eq {m n : Moment} (h : m.seconds = n.seconds) : m = n := by
  obtain ⟨m, hm⟩ := m
  obtain ⟨n, hn⟩ := n
  obtain rfl : m = n := h
  rfl

theorem later_spec (m n : Moment) : (m.later n = m ∨ m.later n = n) ∧
    m.seconds ≤ (m.later n).seconds ∧ n.seconds ≤ (m.later n).seconds := by
  unfold later
  split
  · exact ⟨.inr rfl, by omega, Nat.le_refl _⟩
  · exact ⟨.inl rfl, Nat.le_refl _, by omega⟩

theorem foldl_later_spec (m : Moment) (ms : List Moment) :
    ms.foldl later m ∈ m :: ms ∧ ∀ n ∈ m :: ms, n.seconds ≤ (ms.foldl later m).seconds := by
  induction ms generalizing m with
  | nil => exact ⟨List.mem_singleton_self m, List.forall_mem_singleton.2 (Nat.le_refl _)⟩
  | cons k ms ih =>
    obtain ⟨hmem, hle⟩ := ih (m.later k)
    obtain ⟨hcases, hm, hk⟩ := later_spec m k
    obtain ⟨hhead, htail⟩ := List.forall_mem_cons.1 hle
    rw [List.foldl_cons]
    constructor
    · rcases List.mem_cons.1 hmem with heq | hmem
      · rcases hcases with hcase | hcase
        · rw [heq, hcase]
          exact List.mem_cons_self
        · rw [heq, hcase]
          exact List.mem_cons_of_mem _ List.mem_cons_self
      · exact List.mem_cons_of_mem _ (List.mem_cons_of_mem _ hmem)
    · rw [List.forall_mem_cons, List.forall_mem_cons]
      exact ⟨by omega, by omega, htail⟩

/-- The latest of some moments `ms` is the one of them that none of them is behind. -/
theorem latest?_eq_some_iff {ms : List Moment} {m : Moment} :
    latest? ms = some m ↔ m ∈ ms ∧ ∀ n ∈ ms, n.seconds ≤ m.seconds := by
  cases ms with
  | nil => simp [latest?]
  | cons k ms =>
    obtain ⟨hmem, hle⟩ := foldl_later_spec k ms
    rw [latest?, Option.some.injEq]
    constructor
    · rintro rfl
      exact ⟨hmem, hle⟩
    · rintro ⟨hm, hmle⟩
      apply eq_of_seconds_eq
      have h₁ := hle m hm
      have h₂ := hmle _ hmem
      omega

theorem latest?_eq_none_iff {ms : List Moment} : latest? ms = none ↔ ms = [] := by
  cases ms <;> simp [latest?]

end Moment

namespace Gantt

open Reading

/-! ### What a schedule is -/

/-- The end of the last task with the id `id` among the entries `done`. -/
def endOf? (done : List ScheduledTask) (id : String) : Option Moment :=
  (done.filter fun x => x.task.id = some id).getLast?.map ScheduledTask.finish

/-- The moment `m` when the last of some awaited tasks has ended: of each id the last task
counts. -/
structure IsLatestEnd (done : List ScheduledTask) (ids : List String) (m : Moment) : Prop where
  attained : ∃ id ∈ ids, endOf? done id = some m
  le : ∀ id ∈ ids, ∃ n, endOf? done id = some n ∧ n.seconds ≤ m.seconds

/-- When the task `t` starts, given the entries `done` of the tasks before it. -/
inductive StartsAt (done : List ScheduledTask) (t : Task) (m : Moment) : Prop
  /-- A task may start at a date. -/
  | date (h : t.start = some (.date m))
  /-- It may wait for other tasks. -/
  | after {ids : List String} (h : t.start = some (.after ids)) (hm : IsLatestEnd done ids m)
  /-- Else it follows the task before it. -/
  | next {x : ScheduledTask} (h : t.start = none) (hx : done.getLast? = some x) (hm : x.finish = m)

/-- When the task `t` ends that starts at the moment `start`. -/
inductive EndsAt (t : Task) (start finish : Moment) : Prop
  | date (h : t.finish = .date finish)
  | duration {d : Duration} {n : Int} (h : t.finish = .duration d) (hn : d.seconds? = some n)
      (hfinish : (finish.seconds : Int) = start.seconds + n)

/-- Entries `s` for the tasks `ts`, given those of the tasks before them. -/
structure Schedules (done : List ScheduledTask) (ts : List Task) (s : List ScheduledTask) :
    Prop where
  /-- There is one entry for each task, in the order of the tasks. -/
  tasks : s.map ScheduledTask.task = ts
  starts : ∀ before x after, s = before ++ x :: after → StartsAt (done ++ before) x.task x.start
  ends : ∀ x ∈ s, EndsAt x.task x.start x.finish

/-- Entries for the tasks of a chart `g`, each of which starts and ends where it should. -/
def IsSchedule (g : Gantt) (s : List ScheduledTask) : Prop := Schedules [] g.tasks s

/-- The tasks `ts` before some task can be scheduled and tell when it starts, but its end lies
outside the calendar: there is no moment at which it ends. -/
def RunsOut (done : List ScheduledTask) (ts : List Task) : Prop :=
  ∃ before t after s m, ts = before ++ t :: after ∧ Schedules done before s ∧
    StartsAt (done ++ s) t m ∧ ∀ n, ¬EndsAt t m n

variable {done s : List ScheduledTask} {x : ScheduledTask} {t : Task} {ts : List Task}
  {ids : List String} {m n : Moment}

theorem endOf?_concat (done : List ScheduledTask) (x : ScheduledTask) (id : String) :
    endOf? (done ++ [x]) id = if x.task.id = some id then some x.finish else endOf? done id := by
  unfold endOf?
  rw [List.filter_append]
  split
  · next h => simp [h]
  · next h => simp [h]

theorem filterMap_id_concat (done : List ScheduledTask) (x : ScheduledTask) :
    (done ++ [x]).filterMap (·.task.id) = done.filterMap (·.task.id) ++ x.task.id.toList := by
  rw [List.filterMap_append]
  cases h : x.task.id <;> simp [h]

/-- The end of a task with an `id` is known if there is such a task among the entries. -/
theorem isSome_endOf?_iff {id : String} :
    (endOf? done id).isSome = true ↔ id ∈ done.filterMap (·.task.id) := by
  induction done using List.reverseRecOn with
  | nil => simp [endOf?]
  | append_singleton done x ih =>
    rw [endOf?_concat, filterMap_id_concat, List.mem_append, ← ih, Option.mem_toList]
    split
    · next h => simp [h]
    · next h => simp [h]

theorem schedules_nil : Schedules done [] s ↔ s = [] := by
  constructor
  · intro h
    exact List.map_eq_nil_iff.1 h.tasks
  · rintro rfl
    exact ⟨rfl, by simp, List.forall_mem_nil _⟩

/-- Entries for tasks `ts` are one for the first of them, and behind it entries for the others. -/
theorem schedules_cons : Schedules done (t :: ts) s ↔ ∃ m n s', s = ⟨t, m, n⟩ :: s' ∧
    StartsAt done t m ∧ EndsAt t m n ∧ Schedules (done ++ [⟨t, m, n⟩]) ts s' := by
  constructor
  · rintro ⟨htasks, hstarts, hends⟩
    obtain ⟨⟨u, m, n⟩, s', rfl, rfl, hs'⟩ := List.map_eq_cons_iff.1 htasks
    have hstart := hstarts [] ⟨u, m, n⟩ s' rfl
    rw [List.append_nil] at hstart
    obtain ⟨hend, hends⟩ := List.forall_mem_cons.1 hends
    refine ⟨m, n, s', rfl, hstart, hend, hs', ?_, hends⟩
    rintro before x after rfl
    rw [List.append_assoc]
    exact hstarts (⟨u, m, n⟩ :: before) x after rfl
  · rintro ⟨m, n, s', rfl, hstart, hend, hs'⟩
    refine ⟨by rw [List.map_cons, hs'.tasks], ?_, List.forall_mem_cons.2 ⟨hend, hs'.ends⟩⟩
    intro before x after h
    rcases List.cons_eq_append_iff.1 h with ⟨rfl, heq⟩ | ⟨before', rfl, heq⟩
    · cases heq
      rw [List.append_nil]
      exact hstart
    · have hx := hs'.starts before' x after heq
      rwa [List.append_assoc] at hx

/-! ### Steps of resolving -/

/-- Where a task `t` has an end, it is that of a date or of a duration, and only these are moments
of the calendar. -/
theorem finishFrom_eq_ok_iff : t.finishFrom m = .ok n ↔ EndsAt t m n := by
  unfold Task.finishFrom
  constructor
  · intro h
    split at h
    · next d hd =>
      unfold Duration.after at h
      split at h
      · next k hk =>
        cases h
        obtain ⟨seconds, hseconds, hadd⟩ := Option.bind_eq_some_iff.1 hk
        refine .duration hd hseconds ?_
        simp only [Moment.add?, Moment.ofSeconds?, Option.ite_none_left_eq_some,
          Option.dite_none_right_eq_some, Option.some.injEq] at hadd
        -- The sum is not negative, so it is the same as a natural number.
        obtain ⟨hpos, hlt, rfl⟩ := hadd
        show ((Int.toNat _ : Nat) : Int) = _
        omega
      · cases h
    · next hd =>
      cases h
      exact .date hd
  · intro h
    cases h with
    | date h => rw [h]
    | @duration d k h hk hfinish =>
      have hadd : m.add? k = some n := by
        have hlt := n.inRange
        have htoNat : (m.seconds + k : Int).toNat = n.seconds := by omega
        simp only [Moment.add?, Moment.ofSeconds?, htoNat]
        rw [if_neg (by omega), dif_pos hlt]
      rw [h]
      show d.after m = .ok n
      unfold Duration.after
      rw [hk, Option.bind_some, hadd]

/-- Where a task `t` has no end, it is outside the calendar, before or behind it. -/
theorem finishFrom_eq_error {e : ScheduleFailure} (h : t.finishFrom m = .error e) :
    e = .outOfRange := by
  unfold Task.finishFrom Duration.after at h
  split at h
  · split at h
    · cases h
    · exact (Except.error.inj h).symm
  · cases h

namespace Schedule

/-- What resolving keeps of the entries so far `done`: the ends of ids, and the end of the entry
right before. -/
structure Keeps (done : List ScheduledTask) (ends : Ends) (previous : Option Moment) : Prop where
  lookup : ∀ id, ends.lookup id = endOf? done id
  previous : previous = done.getLast?.map ScheduledTask.finish

variable {ends : Ends} {previous : Option Moment}

theorem keeps_nil : Keeps [] [] none := ⟨fun _ => rfl, rfl⟩

/-- A task `x` with an id takes the place of earlier tasks with the same id, since its end is looked
up first. -/
theorem Keeps.concat (h : Keeps done ends previous) (x : ScheduledTask) :
    Keeps (done ++ [x]) ((x.task.id.map fun id => (id, x.finish)).toList ++ ends)
      (some x.finish) := by
  constructor
  · intro id
    rw [endOf?_concat, ← h.lookup]
    cases hid : x.task.id with
    | none => rfl
    | some i =>
      show List.lookup id ((i, x.finish) :: ends) = _
      rw [List.lookup_cons]
      by_cases heq : id = i
      · simp [heq]
      · rw [beq_false_of_ne heq]
        simp [Ne.symm heq]
  · simp

theorem lastEnd_eq_ok_iff (h : Keeps done ends previous) (name : String) :
    lastEnd name ends ids = .ok m ↔ IsLatestEnd done ids m := by
  -- The ends that are looked up are those of the entries, and none is missing if each id has one.
  have hmem : ∀ k, k ∈ ids.filterMap (fun id => ends.lookup id) ↔
      ∃ id ∈ ids, endOf? done id = some k := by
    intro k
    simp only [List.mem_filterMap, h.lookup]
  have hmissing : (ids.filter fun id => (ends.lookup id).isNone) = [] ↔
      ∀ id ∈ ids, ∃ k, endOf? done id = some k := by
    rw [List.filter_eq_nil_iff]
    simp only [h.lookup, Bool.not_eq_true, Option.isNone_eq_false_iff, Option.isSome_iff_exists]
  constructor
  · intro hlast
    unfold lastEnd at hlast
    split at hlast
    · next hnone =>
      split at hlast
      · next k hk =>
        cases hlast
        obtain ⟨hm, hle⟩ := Moment.latest?_eq_some_iff.1 hk
        refine ⟨(hmem m).1 hm, fun id hid => ?_⟩
        obtain ⟨k, hk⟩ := hmissing.1 hnone id hid
        exact ⟨k, hk, hle k ((hmem k).2 ⟨id, hid, hk⟩)⟩
      · cases hlast
    · cases hlast
  · rintro ⟨hattained, hle⟩
    have hnone := hmissing.2 fun id hid => (hle id hid).imp fun _ hk => hk.1
    have hlatest : Moment.latest? (ids.filterMap fun id => ends.lookup id) = some m := by
      apply Moment.latest?_eq_some_iff.2 ⟨(hmem m).2 hattained, _⟩
      intro k hk
      obtain ⟨id, hid, hend⟩ := (hmem k).1 hk
      obtain ⟨k', hend', hk'⟩ := hle id hid
      rw [hend] at hend'
      cases hend'
      exact hk'
    unfold lastEnd
    rw [hnone]
    dsimp only
    rw [hlatest]

/-- A task `t` starts where the entries so far put it, by one of the three rules for starts. -/
theorem startOf_eq_ok_iff (h : Keeps done ends previous) :
    startOf t ends previous = .ok m ↔ StartsAt done t m := by
  unfold startOf
  constructor
  · intro hstart
    split at hstart
    · next hdate =>
      cases hstart
      exact .date hdate
    · next hids => exact .after hids ((lastEnd_eq_ok_iff h _).1 hstart)
    · next hnone =>
      split at hstart
      · cases hstart
        obtain ⟨x, hx, hfinish⟩ := Option.map_eq_some_iff.1 h.previous.symm
        exact .next hnone hx hfinish
      · cases hstart
  · intro hstart
    -- A task has at most one kind of start, and only without one is it put behind the previous
    -- task.
    cases hstart with
    | date hdate => rw [hdate]
    | after hids hlatest =>
      rw [hids]
      exact (lastEnd_eq_ok_iff h _).2 hlatest
    | @next x hnone hx hfinish =>
      rw [hnone, h.previous, hx, Option.map_some, hfinish]

theorem startOf_ne_outOfRange : startOf t ends previous ≠ .error .outOfRange := by
  intro h
  unfold startOf lastEnd at h
  split at h
  · cases h
  · split at h
    · split at h
      · cases h
      · cases h
    · cases h
  · split at h
    · cases h
    · cases h

/-- Resolving stops at a task `t` without an end, with what is wrong with the end. -/
theorem resolve_cons_of_finish_error {e : ScheduleFailure} (hm : startOf t ends previous = .ok m)
    (hn : t.finishFrom m = .error e) : resolve ends previous (t :: ts) = .error e := by
  unfold resolve
  rw [hm]
  show (t.finishFrom m).bind _ = _
  rw [hn]
  rfl

/-- Behind a task `t` with a start and an end, resolving goes on with the tasks `ts` behind it, to
which its end is known. -/
theorem resolve_cons_of_ok (hm : startOf t ends previous = .ok m) (hn : t.finishFrom m = .ok n) :
    resolve ends previous (t :: ts) =
      (resolve ((t.id.map fun id => (id, n)).toList ++ ends) (some n) ts).map
        (⟨t, m, n⟩ :: ·) := by
  rw [resolve, hm]
  show (t.finishFrom m).bind _ = _
  rw [hn]
  rfl

/-! ### Whole runs -/

/-- Resolving tasks `ts` gives the entries that are put where they should be, and fails where there
are none. -/
theorem resolve_eq_ok_iff (h : Keeps done ends previous) :
    resolve ends previous ts = .ok s ↔ Schedules done ts s := by
  induction ts generalizing done ends previous s with
  | nil =>
    rw [schedules_nil, resolve, Except.ok.injEq]
    exact eq_comm
  | cons t ts ih =>
    rw [schedules_cons, resolve]
    constructor
    · intro hresolve
      obtain ⟨m, hm, hresolve⟩ := Except.bind_eq_ok_iff.1 hresolve
      obtain ⟨n, hn, hresolve⟩ := Except.bind_eq_ok_iff.1 hresolve
      obtain ⟨s', hs', hresolve⟩ := Except.bind_eq_ok_iff.1 hresolve
      cases hresolve
      exact ⟨m, n, s', rfl, (startOf_eq_ok_iff h).1 hm, finishFrom_eq_ok_iff.1 hn,
        (ih (h.concat ⟨t, m, n⟩)).1 hs'⟩
    · rintro ⟨m, n, s', rfl, hm, hn, hs'⟩
      apply Except.bind_eq_ok_iff.2 ⟨m, (startOf_eq_ok_iff h).2 hm, _⟩
      apply Except.bind_eq_ok_iff.2 ⟨n, finishFrom_eq_ok_iff.2 hn, _⟩
      exact Except.bind_eq_ok_iff.2 ⟨s', (ih (h.concat ⟨t, m, n⟩)).2 hs', rfl⟩

/-- Behind a task `t` with a start and an end, the tasks `ts` run out of the calendar if and only if
those behind it do. -/
theorem runsOut_cons (h : Keeps done ends previous) (hm : StartsAt done t m) (hn : EndsAt t m n) :
    RunsOut done (t :: ts) ↔ RunsOut (done ++ [⟨t, m, n⟩]) ts := by
  -- a task starts and ends in one way only
  have hstart : ∀ {m'}, StartsAt done t m' → m' = m := fun hm' =>
    Except.ok.inj (((startOf_eq_ok_iff h).2 hm').symm.trans ((startOf_eq_ok_iff h).2 hm))
  have hend : ∀ {n'}, EndsAt t m n' → n' = n := fun hn' =>
    Except.ok.inj ((finishFrom_eq_ok_iff.2 hn').symm.trans (finishFrom_eq_ok_iff.2 hn))
  constructor
  · rintro ⟨before, u, after, s, k, htasks, hs, hk, hnone⟩
    rcases List.cons_eq_append_iff.1 htasks with ⟨rfl, heq⟩ | ⟨before', rfl, heq⟩
    · cases heq
      rw [schedules_nil] at hs
      rw [hs, List.append_nil] at hk
      obtain rfl := hstart hk
      exact absurd hn (hnone n)
    · obtain ⟨m', n', s', rfl, hm', hn', hs'⟩ := schedules_cons.1 hs
      obtain rfl := hstart hm'
      obtain rfl := hend hn'
      refine ⟨before', u, after, s', k, heq, hs', ?_, hnone⟩
      rwa [List.append_assoc]
  · rintro ⟨before, u, after, s, k, rfl, hs, hk, hnone⟩
    refine ⟨t :: before, u, after, ⟨t, m, n⟩ :: s, k, rfl,
      schedules_cons.2 ⟨m, n, s, rfl, hm, hn, hs⟩, ?_, hnone⟩
    rwa [List.append_assoc] at hk

/-- Resolving runs out of the calendar exactly where the end of a task does. -/
theorem resolve_eq_outOfRange_iff (h : Keeps done ends previous) :
    resolve ends previous ts = .error .outOfRange ↔ RunsOut done ts := by
  induction ts generalizing done ends previous with
  | nil =>
    constructor
    · nofun
    · rintro ⟨before, u, after, s, k, htasks, -⟩
      simp at htasks
  | cons t ts ih =>
    cases hstart : startOf t ends previous with
    | error e =>
      -- without a start of the first task there are no entries at all
      have hnone : ∀ m, ¬StartsAt done t m := by
        intro m hm
        rw [(startOf_eq_ok_iff h).2 hm] at hstart
        cases hstart
      constructor
      · intro he
        rw [resolve, hstart] at he
        obtain rfl : e = .outOfRange := Except.error.inj he
        exact absurd hstart startOf_ne_outOfRange
      · rintro ⟨before, u, after, s, k, htasks, hs, hk, -⟩
        rcases List.cons_eq_append_iff.1 htasks with ⟨rfl, heq⟩ | ⟨before', rfl, -⟩
        · cases heq
          rw [schedules_nil] at hs
          rw [hs, List.append_nil] at hk
          exact absurd hk (hnone k)
        · obtain ⟨m, -, -, -, hm, -⟩ := schedules_cons.1 hs
          exact absurd hm (hnone m)
    | ok m =>
      have hm := (startOf_eq_ok_iff h).1 hstart
      cases hfinish : t.finishFrom m with
      | error e =>
        obtain rfl := finishFrom_eq_error hfinish
        rw [resolve_cons_of_finish_error hstart hfinish]
        apply iff_of_true rfl
        refine ⟨[], t, ts, [], m, rfl, schedules_nil.2 rfl, by rwa [List.append_nil], ?_⟩
        intro n hn
        rw [finishFrom_eq_ok_iff.2 hn] at hfinish
        cases hfinish
      | ok n =>
        rw [resolve_cons_of_ok hstart hfinish, Except.map_eq_error_iff,
          runsOut_cons h hm (finishFrom_eq_ok_iff.1 hfinish)]
        exact ih (h.concat ⟨t, m, n⟩)

/-- Where tasks `ts` wait only for tasks before them, and for one at least, and none of them lacks a
start, resolving stops nowhere but at the end of the calendar. -/
theorem resolve_of_ordered (h : Keeps done ends previous)
    (hordered : Ordered (done.filterMap (·.task.id)) ts)
    (hawaited : ∀ t ∈ ts, ∀ ids, t.start = some (.after ids) → ids ≠ [])
    (hfirst : done = [] → ∀ t ∈ ts.head?, t.start ≠ none) :
    (∃ s, resolve ends previous ts = .ok s) ∨ resolve ends previous ts = .error .outOfRange := by
  induction ts generalizing done ends previous with
  | nil => exact .inl ⟨[], rfl⟩
  | cons t ts ih =>
    obtain ⟨hne, hawaited⟩ := List.forall_mem_cons.1 hawaited
    obtain ⟨hdependencies, hordered⟩ := hordered
    have hstart : ∃ m, startOf t ends previous = .ok m := by
      unfold startOf
      split
      · exact ⟨_, rfl⟩
      · next ids hids =>
        -- the end of each task that is awaited is known, and there is one
        have hknown : ∀ id ∈ ids, (ends.lookup id).isSome = true := by
          intro id hid
          rw [h.lookup, isSome_endOf?_iff]
          apply hdependencies
          unfold Task.dependencies
          rw [hids]
          exact hid
        have hmissing : (ids.filter fun id => (ends.lookup id).isNone) = [] := by
          rw [List.filter_eq_nil_iff]
          intro id hid
          rw [Bool.not_eq_true, Option.isNone_eq_false_iff]
          exact hknown id hid
        unfold lastEnd
        rw [hmissing]
        dsimp only
        split
        · exact ⟨_, rfl⟩
        · next hlatest =>
          obtain ⟨id, is, rfl⟩ := List.exists_cons_of_ne_nil (hne ids hids)
          rw [Moment.latest?_eq_none_iff, List.filterMap_eq_nil_iff] at hlatest
          have hid := hknown id List.mem_cons_self
          rw [hlatest id List.mem_cons_self] at hid
          cases hid
      · next hnone =>
        have hdone : done ≠ [] := fun hnil => hfirst hnil t rfl hnone
        rw [h.previous, List.getLast?_eq_some_getLast hdone]
        exact ⟨_, rfl⟩
    obtain ⟨m, hm⟩ := hstart
    cases hn : t.finishFrom m with
    | error e =>
      obtain rfl := finishFrom_eq_error hn
      exact .inr (resolve_cons_of_finish_error hm hn)
    | ok n =>
      have hids : Ordered ((done ++ [(⟨t, m, n⟩ : ScheduledTask)]).filterMap (·.task.id)) ts := by
        rw [filterMap_id_concat]
        exact hordered
      have hrest := ih (h.concat ⟨t, m, n⟩) hids hawaited (by simp)
      rw [resolve_cons_of_ok hm hn, Except.map_eq_error_iff]
      exact hrest.imp_left fun ⟨s, hs⟩ => ⟨_, Except.map_eq_ok_iff.2 ⟨s, hs, rfl⟩⟩

end Schedule

/-! ### Charts -/

variable {g : Gantt}

/-- A chart is rejected if its first task `t` has no start, which is then named. -/
theorem schedule_eq_noStart (ht : g.tasks.head? = some t) (h : t.start = none) :
    g.schedule = .error (.rejected (.noStart t.name)) := by
  obtain ⟨ts, hts⟩ := List.head?_eq_some_iff.1 ht
  have hstart : Schedule.startOf t [] none = .error (.rejected (.noStart t.name)) := by
    unfold Schedule.startOf
    rw [h]
  unfold schedule
  rw [hts, Schedule.resolve, hstart]
  rfl

/-- The end of a task is the one that it has without the other tasks, where it has one of its own:
`finishDate?` gives it or nothing. -/
theorem finishDate_of_endsAt (hstart : StartsAt done t m) (hend : EndsAt t m n) :
    ∃ o, t.finishDate? = .ok o ∧ ∀ k ∈ o, n = k := by
  have hfinish := finishFrom_eq_ok_iff.2 hend
  unfold Task.finishDate?
  unfold Task.finishFrom at hfinish
  split
  · next k hk =>
    rw [hk] at hfinish
    refine ⟨some k, rfl, fun i hi => ?_⟩
    obtain rfl : k = i := Option.some.inj hi
    exact (Except.ok.inj hfinish).symm
  · next d k hd hk =>
    -- the task starts at its date
    obtain rfl : k = m := by
      cases hstart with
      | date h => exact Start.date.inj (Option.some.inj (hk.symm.trans h))
      | after h => exact nomatch hk.symm.trans h
      | next h => exact nomatch hk.symm.trans h
    rw [hd] at hfinish
    exact ⟨some n, Except.map_eq_ok_iff.2 ⟨n, hfinish, rfl⟩, fun _ hi => Option.some.inj hi⟩
  · exact ⟨none, rfl, by simp⟩

/-- A chart `g` that was read is rejected exactly if its first task has no start. Else it has a
schedule, unless the end of a task lies outside the calendar: an entry for each task, which starts
at its date, when the last of the tasks that it waits for has ended, or when the task before it has,
and ends at its date or after its duration. -/
theorem schedule_of_isRead (h : (Diagram.gantt g).IsRead) :
    (∀ cause, g.schedule = .error (.rejected cause) ↔
      ∃ t, g.tasks.head? = some t ∧ t.start = none ∧ cause = .noStart t.name) ∧
    (g.schedule = .error .outOfRange ↔ RunsOut [] g.tasks) ∧
    ((∀ t ∈ g.tasks.head?, t.start ≠ none) → ¬RunsOut [] g.tasks → ∃ s, g.schedule = .ok s) ∧
    ∀ s, g.schedule = .ok s → g.IsSchedule s ∧
      ∀ x ∈ s, ∃ o, x.task.finishDate? = .ok o ∧ ∀ m ∈ o, x.finish = m := by
  have hordered := ordered_of_isRead h
  have hspelled : ∀ t ∈ g.tasks, t.IsSpelled :=
    h.of_ensures (x := read) (Q := fun g : Gantt => ∀ t ∈ g.tasks, t.IsSpelled)
      (P := fun _ => True) (fun _ _ => Diagram.gantt.inj) rfl (fun _ _ => trivial)
      ensures_read_isSpelled
  have houtOfRange : g.schedule = .error .outOfRange ↔ RunsOut [] g.tasks :=
    Schedule.resolve_eq_outOfRange_iff Schedule.keeps_nil
  have hcases : (∀ t ∈ g.tasks.head?, t.start ≠ none) →
      (∃ s, g.schedule = .ok s) ∨ g.schedule = .error .outOfRange := fun hfirst =>
    Schedule.resolve_of_ordered Schedule.keeps_nil hordered
      (fun t ht ids hids => ((hspelled t ht).awaited ids hids).1) fun _ => hfirst
  refine ⟨fun cause => ⟨fun hcause => ?_, ?_⟩, houtOfRange, fun hfirst hnot => ?_, fun s hs => ?_⟩
  -- If the first task has a start, the chart has a schedule or runs out of the calendar.
  · by_contra hnone
    have hfirst : ∀ t ∈ g.tasks.head?, t.start ≠ none := by
      intro t ht hstart
      rw [schedule_eq_noStart ht hstart] at hcause
      cases hcause
      exact hnone ⟨t, ht, hstart, rfl⟩
    rcases hcases hfirst with ⟨s, hs⟩ | he
    · exact nomatch hcause.symm.trans hs
    · exact nomatch hcause.symm.trans he
  · rintro ⟨t, ht, hstart, rfl⟩
    exact schedule_eq_noStart ht hstart
  · exact (hcases hfirst).resolve_right fun he => hnot (houtOfRange.1 he)
  · have hschedule : g.IsSchedule s := (Schedule.resolve_eq_ok_iff Schedule.keeps_nil).1 hs
    refine ⟨hschedule, fun x hx => ?_⟩
    obtain ⟨before, after, hsplit⟩ := List.append_of_mem hx
    exact finishDate_of_endsAt (hschedule.starts before x after hsplit) (hschedule.ends x hx)

/-- Two tasks have the same id, and each task that waits for it waits for the last one before it. A
chart of a task without a start is rejected. -/
theorem schedule_of_isRead_repeated : ∃ (g₁ g₂ : Gantt) (s : List ScheduledTask),
    Program.read "gantt\nsection s\na : 1d\n" = .ok ⟨[.gantt g₁]⟩ ∧
      g₁.schedule = .error (.rejected (.noStart "a")) ∧
      Program.read ("gantt\nsection s\na : x, 0001-01-01, 2d\nb : 1d\n" ++
        "section t\nc : x, after x, 12h\nd : after x, 1w\n") = .ok ⟨[.gantt g₂]⟩ ∧
      g₂.schedule = .ok s ∧ g₂.IsSchedule s ∧
      s.map (fun t => (t.start.seconds, t.finish.seconds)) =
        [(0, 172800), (172800, 259200), (172800, 216000), (216000, 820800)] := by
  let moment (n : Nat) (h : n < Calendar.limit) : Moment := ⟨n, h⟩
  let g₁ : Gantt := ⟨{}, [⟨"s", [
    { name := "a", finish := .duration ⟨1, .days⟩, position := some ⟨3, 0, 16⟩ }]⟩]⟩
  let a : Task :=
    { name := "a", finish := .duration ⟨2, .days⟩, id := some "x",
      start := some (.date (moment 0 (by decide))), position := some ⟨3, 0, 16⟩ }
  let b : Task :=
    { name := "b", finish := .duration ⟨1, .days⟩, position := some ⟨4, 0, 38⟩ }
  let c : Task :=
    { name := "c", finish := .duration ⟨12, .hours⟩, id := some "x", start := some (.after ["x"]),
      position := some ⟨6, 0, 55⟩ }
  let d : Task :=
    { name := "d", finish := .duration ⟨1, .weeks⟩, start := some (.after ["x"]),
      position := some ⟨7, 0, 75⟩ }
  let g₂ : Gantt := ⟨{}, [⟨"s", [a, b]⟩, ⟨"t", [c, d]⟩]⟩
  have hread₁ : Program.read "gantt\nsection s\na : 1d\n" = .ok ⟨[.gantt g₁]⟩ := by
    decide +kernel
  have hread₂ : Program.read ("gantt\nsection s\na : x, 0001-01-01, 2d\nb : 1d\n" ++
      "section t\nc : x, after x, 12h\nd : after x, 1w\n") = .ok ⟨[.gantt g₂]⟩ := by
    decide +kernel
  have hschedule : g₂.schedule = .ok [
      ⟨a, moment 0 (by decide), moment 172800 (by decide)⟩,
      ⟨b, moment 172800 (by decide), moment 259200 (by decide)⟩,
      ⟨c, moment 172800 (by decide), moment 216000 (by decide)⟩,
      ⟨d, moment 216000 (by decide), moment 820800 (by decide)⟩] := by decide +kernel
  refine ⟨g₁, g₂, _, hread₁, ?_, hread₂, hschedule, ?_, rfl⟩
  · exact ((schedule_of_isRead ⟨_, _, hread₁, List.mem_singleton_self _⟩).1 _).2
      ⟨_, rfl, rfl, rfl⟩
  · exact ((schedule_of_isRead ⟨_, _, hread₂, List.mem_singleton_self _⟩).2.2.2 _ hschedule).1

end Gantt
end DiagramText
