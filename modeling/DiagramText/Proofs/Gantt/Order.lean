import DiagramText.Gantt.Reader
import DiagramText.Gantt.Schedule
import DiagramText.Proofs.Digraph.Acyclic
import DiagramText.Proofs.Program.Single

/-!
# Tasks in order

Where each task waits only for tasks before it, the order of the chart shows that no tasks wait for
each other in a circle: along an arc of the dependency graph the place in the chart goes up. A
schedule needs this order, since it is resolved from the first task to the last, and so does
reading, since a task can only wait for ids that were read before it.

In any chart the search for a circle runs over the graph of task ids, in which an arc leads from
each id to those of the tasks that wait for it. So it finds ids that are each a dependency of the
next one, and it finds some wherever an id depends on itself over any number of tasks.

* `Gantt.Ordered`: tasks wait only for known tasks and for those before them.
* `Gantt.InOrder`: the tasks of a chart have different ids and wait only for tasks before them.
* `Gantt.InOrder.validate_eq`: a chart in order is accepted.
* `Gantt.validate_of_schedule`: so is a chart with different ids that has a schedule, or is read.
* `Gantt.IsDependency`: a task with one id waits directly for another id.
* `Gantt.dependencyCycle?_spec`: what the search for a circle finds, and when it finds nothing.
-/

namespace DiagramText.Gantt

open Reading

/-! ### Order -/

/-- Tasks wait only for those with `known` ids and for those before them in the row. -/
def Ordered (known : List String) : List Task → Prop
  | [] => True
  | t :: ts => t.dependencies ⊆ known ∧ Ordered (known ++ t.id.toList) ts

variable {known known' : List String} {t : Task} {ts us : List Task}

theorem Ordered.mono (h : Ordered known ts) (hknown : known ⊆ known') : Ordered known' ts := by
  induction ts generalizing known known' with
  | nil => trivial
  | cons t ts ih =>
    refine ⟨List.Subset.trans h.1 hknown, ih h.2 ?_⟩
    intro id hid
    rw [List.mem_append] at hid ⊢
    exact hid.imp_left (hknown ·)

theorem filterMap_id_cons (t : Task) (ts : List Task) :
    (t :: ts).filterMap Task.id = t.id.toList ++ ts.filterMap Task.id := by
  cases h : t.id with
  | none => rw [List.filterMap_cons_none h]; rfl
  | some id => rw [List.filterMap_cons_some h]; rfl

/-- Tasks in a row `ts ++ us` are in order if each part of the row is, given the ids of the tasks
before it. -/
theorem ordered_append :
    Ordered known (ts ++ us) ↔ Ordered known ts ∧ Ordered (known ++ ts.filterMap Task.id) us := by
  induction ts generalizing known with
  | nil => simp [Ordered]
  | cons t ts ih =>
    rw [List.cons_append, Ordered, Ordered, ih, filterMap_id_cons, List.append_assoc, and_assoc]

/-- Tasks are in order if each of them is behind those that it waits for, or waits for `known`
ones. -/
theorem ordered_iff : Ordered known ts ↔ ∀ before t after, ts = before ++ t :: after →
    t.dependencies ⊆ known ++ before.filterMap Task.id := by
  constructor
  · rintro h before t after rfl
    exact (ordered_append.1 h).2.1
  · intro h
    induction ts generalizing known with
    | nil => trivial
    | cons t ts ih =>
      constructor
      · simpa using h [] t ts rfl
      · apply ih
        rintro before u after rfl
        have hu := h (t :: before) u after rfl
        rwa [filterMap_id_cons, ← List.append_assoc] at hu

/-- The tasks of a chart `g` have different ids, and each waits only for tasks before it. -/
structure InOrder (g : Gantt) : Prop where
  nodup : g.taskIds.Nodup
  awaited : ∀ before t after, g.tasks = before ++ t :: after →
    ∀ id ∈ t.dependencies, ∃ u ∈ before, u.id = some id

variable {g : Gantt}

theorem inOrder_iff : g.InOrder ↔ g.taskIds.Nodup ∧ Ordered [] g.tasks := by
  have hmem : ∀ (before : List Task) (id : String),
      id ∈ before.filterMap Task.id ↔ ∃ u ∈ before, u.id = some id := fun before id =>
    List.mem_filterMap
  simp only [ordered_iff, List.nil_append]
  constructor
  · intro h
    refine ⟨h.nodup, fun before t after heq id hid => ?_⟩
    rw [hmem]
    exact h.awaited before t after heq id hid
  · rintro ⟨hnodup, hordered⟩
    refine ⟨hnodup, fun before t after heq id hid => ?_⟩
    rw [← hmem]
    exact hordered before t after heq hid

/-! ### The dependency graph -/

section

variable {d : Digraph} {a : Arc} {source target : String}

theorem mem_arcs_addArc :
    a ∈ (d.addArc source target).arcs ↔ a ∈ d.arcs ∨ a = (source, target) := by
  have hnodes : ((d.addNode source).addNode target).arcs = d.arcs := by
    rw [Digraph.arcs_addNode, Digraph.arcs_addNode]
  unfold Digraph.addArc
  dsimp only
  split
  · next h =>
    rw [hnodes] at h ⊢
    constructor
    · exact .inl
    · rintro (ha | rfl)
      · exact ha
      · exact List.contains_iff_mem.1 h
  · rw [hnodes, List.mem_append, List.mem_singleton]

/-- A task `t` with an id brings an arc from each task that it waits for, and no others. A task
without an id brings none. -/
theorem mem_arcs_addDependencies : a ∈ (addDependencies d t).arcs ↔
    a ∈ d.arcs ∨ (t.id = some a.2 ∧ a.1 ∈ t.dependencies) := by
  unfold addDependencies
  cases hid : t.id with
  | none => simp
  | some id =>
    have hfold : ∀ (deps : List String) (d : Digraph),
        a ∈ (deps.foldl (fun d dep => d.addArc dep id) d).arcs ↔
          a ∈ d.arcs ∨ (id = a.2 ∧ a.1 ∈ deps) := by
      intro deps
      induction deps with
      | nil => simp
      | cons dep deps ih =>
        intro d
        rw [List.foldl_cons, ih, mem_arcs_addArc, List.mem_cons, Prod.ext_iff]
        tauto
    dsimp only
    rw [hfold, Digraph.arcs_addNode, Option.some.injEq]

/-- The arcs of the dependency graph lead from a task that is awaited to one that waits for it, as
their ids say. -/
theorem mem_arcs_dependencyGraph : a ∈ g.dependencyGraph.arcs ↔
    ∃ t ∈ g.tasks, t.id = some a.2 ∧ a.1 ∈ t.dependencies := by
  have hfold : ∀ (ts : List Task) (d : Digraph), a ∈ (ts.foldl addDependencies d).arcs ↔
      a ∈ d.arcs ∨ ∃ t ∈ ts, t.id = some a.2 ∧ a.1 ∈ t.dependencies := by
    intro ts
    induction ts with
    | nil => simp
    | cons t ts ih =>
      intro d
      rw [List.foldl_cons, ih, mem_arcs_addDependencies, or_assoc]
      simp only [List.mem_cons, exists_eq_or_imp]
  rw [dependencyGraph, hfold]
  simp

end

/-- In a chart `g` in order the place of the id goes up along each arc, so the search finds no
circle. -/
theorem InOrder.dependencyCycle?_eq (h : g.InOrder) : g.dependencyCycle? = none := by
  apply Digraph.cycle?_eq_none_of_rank (g.taskIds.idxOf ·)
  intro a ha
  obtain ⟨t, ht, hid, hdep⟩ := mem_arcs_dependencyGraph.1 ha
  obtain ⟨before, after, heq⟩ := List.append_of_mem ht
  have hbefore : a.1 ∈ before.filterMap Task.id :=
    List.mem_filterMap.2 (h.awaited before t after heq _ hdep)
  have hids : g.taskIds = before.filterMap Task.id ++ a.2 :: after.filterMap Task.id := by
    rw [taskIds, heq, List.filterMap_append, List.filterMap_cons_some hid]
  have hnew : a.2 ∉ before.filterMap Task.id := by
    have hnodup := h.nodup
    rw [hids, List.nodup_middle] at hnodup
    exact fun hmem => (List.nodup_cons.1 hnodup).1 (List.mem_append_left _ hmem)
  have hlt : List.idxOf a.1 (before.filterMap Task.id) < (before.filterMap Task.id).length :=
    List.idxOf_lt_length_of_mem hbefore
  rw [hids, List.idxOf_append_of_mem hbefore, List.idxOf_append_of_notMem hnew,
    List.idxOf_cons_self]
  omega

/-! ### Validation -/

theorem checkDistinct_eq {seen ids : List String} (hnodup : ids.Nodup)
    (hseen : ∀ id ∈ ids, id ∉ seen) : checkDistinct seen ids = .ok () := by
  induction ids generalizing seen with
  | nil => rfl
  | cons id ids ih =>
    obtain ⟨hnew, hnodup⟩ := List.nodup_cons.1 hnodup
    obtain ⟨hid, hids⟩ := List.forall_mem_cons.1 hseen
    rw [checkDistinct, if_neg fun hc => hid (List.contains_iff_mem.1 hc)]
    apply ih hnodup
    intro i hi hmem
    rcases List.mem_cons.1 hmem with rfl | hmem
    · exact hnew hi
    · exact hids i hi hmem

theorem checkDependencies_eq (h : t.dependencies ⊆ known) : checkDependencies known t = .ok () := by
  have hfind : (t.dependencies.find? fun id => !known.contains id) = none := by
    rw [List.find?_eq_none]
    intro id hid
    simpa using h hid
  rw [checkDependencies, hfind]

theorem InOrder.checkCycle_eq (h : g.InOrder) : g.checkCycle = .ok () := by
  rw [checkCycle, h.dependencyCycle?_eq]

/-- A chart `g` in order is accepted: its ids are different, all of them are known where they are
awaited, and there is no circle. -/
theorem InOrder.validate_eq (h : g.InOrder) : g.validate = .ok () := by
  have hdistinct : checkDistinct [] g.taskIds = .ok () :=
    checkDistinct_eq h.nodup fun _ _ => List.not_mem_nil
  have hknown : g.tasks.forM (checkDependencies g.taskIds) = .ok () := by
    apply Except.forM_eq_ok
    intro t ht
    apply checkDependencies_eq
    intro id hid
    obtain ⟨before, after, heq⟩ := List.append_of_mem ht
    obtain ⟨u, hu, huid⟩ := h.awaited before t after heq id hid
    have hmem : u ∈ g.tasks := heq ▸ List.mem_append_left _ hu
    exact List.mem_filterMap.2 ⟨u, hmem, huid⟩
  rw [validate, hdistinct]
  show (g.tasks.forM (checkDependencies g.taskIds) >>= fun _ => g.checkCycle) = .ok ()
  rw [hknown]
  exact h.checkCycle_eq

/-! ### Schedules -/

namespace Schedule

variable {ends : Ends} {previous : Option Moment} {start : Moment}

/-- A task `t` with a start waits only for tasks of which the end is known, since the start is the
latest of those ends. -/
theorem isSome_lookup_of_startOf (h : startOf t ends previous = .ok start) :
    ∀ id ∈ t.dependencies, (ends.lookup id).isSome := by
  unfold startOf at h
  intro id hid
  unfold Task.dependencies at hid
  cases hstart : t.start with
  | none =>
    rw [hstart] at hid
    cases hid
  | some s =>
    rw [hstart] at hid h
    cases s with
    | date m => cases hid
    | after ids =>
      dsimp only [lastEnd] at hid h
      split at h
      · next hnone =>
        rw [List.filter_eq_nil_iff] at hnone
        simpa [Option.isSome_iff_ne_none] using hnone id hid
      · cases h

/-- What has a schedule is in order: the `ends` that are known are those of earlier tasks. -/
theorem ordered_of_resolve {s : List ScheduledTask} (h : resolve ends previous ts = .ok s)
    (hknown : ∀ id, (ends.lookup id).isSome → id ∈ known) : Ordered known ts := by
  induction ts generalizing ends previous known s with
  | nil => trivial
  | cons t ts ih =>
    rw [resolve] at h
    obtain ⟨start, hstart, h⟩ := Except.bind_eq_ok_iff.1 h
    obtain ⟨finish, -, h⟩ := Except.bind_eq_ok_iff.1 h
    obtain ⟨rest, hrest, -⟩ := Except.bind_eq_ok_iff.1 h
    constructor
    · exact fun id hid => hknown id (isSome_lookup_of_startOf hstart id hid)
    · apply ih hrest
      intro id hid
      rw [List.mem_append]
      cases htask : t.id with
      | none =>
        rw [htask] at hid
        exact .inl (hknown id hid)
      | some i =>
        rw [htask] at hid
        -- An id that is known now is that of `t` itself, or was known before.
        by_cases heq : id = i
        · exact .inr (by simp [heq])
        · have hlookup : List.lookup id ((i, finish) :: ends) = ends.lookup id := by
            rw [List.lookup_cons, show (id == i) = false by simpa using heq]
          exact .inl (hknown id (hlookup ▸ hid))

end Schedule

theorem ordered_of_schedule {s : List ScheduledTask} (h : g.schedule = .ok s) :
    Ordered [] g.tasks :=
  Schedule.ordered_of_resolve h nofun

/-! ### Reading -/

theorem subset_of_readStart {text format : String} {p : Position} {ids : List String}
    (h : readStart text format known p = .ok (.after ids)) : ids ⊆ known := by
  unfold readStart at h
  split at h
  · next word words _ =>
    split at h
    · obtain ⟨m, -, hm⟩ := Except.map_eq_ok_iff.1 h
      cases hm
    split at h
    · cases h
    split at h
    · cases h
    · next hfind =>
      cases h
      rw [List.find?_eq_none] at hfind
      intro id hid
      simpa using hfind id hid
  · obtain ⟨m, -, hm⟩ := Except.map_eq_ok_iff.1 h
    cases hm

/-- A task that is read waits only for tasks with `known` ids. -/
theorem dependencies_subset_of_readTask {name details format : String} {p q : Position}
    (h : readTask name details format known p q = .ok t) : t.dependencies ⊆ known := by
  -- Only a start can wait for tasks, and reading it has looked for all of them.
  have hstart : ∀ {text : String} {start : Start}, readStart text format known q = .ok start →
      ∀ u : Task, u.start = some start → u.dependencies ⊆ known := by
    intro text start hread u hu
    unfold Task.dependencies
    rw [hu]
    cases start with
    | date m => exact List.nil_subset _
    | after ids => exact subset_of_readStart hread
  unfold readTask at h
  obtain ⟨⟨status, parts⟩, -, h⟩ := Except.bind_eq_ok_iff.1 h
  dsimp only at h
  split at h
  · obtain ⟨finish, -, h⟩ := Except.bind_eq_ok_iff.1 h
    cases h
    exact List.nil_subset _
  · obtain ⟨start, hread, h⟩ := Except.bind_eq_ok_iff.1 h
    obtain ⟨finish, -, h⟩ := Except.bind_eq_ok_iff.1 h
    cases h
    exact hstart hread _ rfl
  · split at h
    · cases h
    · obtain ⟨start, hread, h⟩ := Except.bind_eq_ok_iff.1 h
      obtain ⟨finish, -, h⟩ := Except.bind_eq_ok_iff.1 h
      cases h
      exact hstart hread _ rfl
  · cases h

/-- A task `t` that is read comes to the end of the chart, as it goes to the last section. -/
theorem tasks_addTask? {e : Gantt} (h : g.addTask? t = some e) : e.tasks = g.tasks ++ [t] := by
  obtain ⟨s, hs, rfl⟩ := Option.map_eq_some_iff.1 h
  have hsections : g.sections = g.sections.dropLast ++ [s] :=
    (List.dropLast_append_getLast? s hs).symm
  have htasks : g.tasks = g.sections.dropLast.flatMap Section.tasks ++ s.tasks := by
    rw [tasks]
    conv_lhs => rw [hsections]
    rw [List.flatMap_append, List.flatMap_singleton]
  rw [htasks]
  simp [tasks]

theorem ensures_lift_eq {α : Type} {P : Cursor → Prop} (x : Except Failure α) :
    Ensures P (StateT.lift x) fun a c => x = .ok a ∧ P c := by
  intro c a c' hc hx
  obtain ⟨b, hb, h⟩ := Except.bind_eq_ok_iff.1 hx
  cases h
  exact ⟨hb, hc⟩

/-- How the tasks of a chart `g` change with a statement: they stay, or one that is read comes to
their end. The format and the known ids are those of the chart before. -/
inductive TasksStep (g e : Gantt) : Prop
  | same (h : e.tasks = g.tasks)
  | added {name details : String} {p q : Position} {t : Task}
      (hread : readTask name details g.config.dateFormat g.taskIds p q = .ok t)
      (h : e.tasks = g.tasks ++ [t])

theorem ensures_taskLine_step (g : Gantt) :
    Ensures (fun _ => True) (taskLine g) fun e _ => TasksStep g e := by
  unfold taskLine
  apply Ensures.look_bind
  intro first
  refine .bind .unknown fun name => .ite (fun _ => .fail _) fun _ => ?_
  refine .bind .unknown fun _ => .bind .unknown fun text => .ite (fun _ => .failAt _ _) fun _ => ?_
  refine .bind (ensures_lift_eq _) fun t => .pure fun c ht => ?_
  cases hadd : g.addTask? t with
  | none => exact .same rfl
  | some e => exact .added ht.1 (tasks_addTask? hadd)

theorem ensures_statement_step (g : Gantt) :
    Ensures (fun _ => True) (statement g) fun e _ => TasksStep g e := by
  -- The end of the line changes nothing, whatever its statement was.
  have hend : ∀ e : Gantt, Ensures (fun _ => TasksStep g e) (do endStatement; return e)
      fun e _ => TasksStep g e := by
    intro e
    have hkeep : TasksStep g e → Ensures (fun _ => True) (do endStatement; return e)
        fun e _ => TasksStep g e := fun he => .bind .unknown fun _ => .pure fun _ _ => he
    exact (Ensures.of_and hkeep).imp (fun _ he => ⟨he, trivial⟩) fun _ _ => id
  unfold statement
  refine .look_bind fun token => .look_bind fun second => .bind .unknown fun newline => ?_
  apply Ensures.ite
  · exact fun _ => .pure fun _ _ => .same rfl
  intro _
  apply Ensures.ite
  · -- a directive leaves the tasks as they are
    intro _
    refine .bind (Q := fun e _ => TasksStep g e) ?_ hend
    refine .bind .unknown fun t => .bind .unknown fun value => .ite (fun _ => .fail _) fun _ => ?_
    exact .pure fun _ _ => .same rfl
  intro _
  apply Ensures.ite
  · -- and a new section has none
    intro _
    refine .bind (Q := fun e _ => TasksStep g e) ?_ hend
    refine .bind .unknown fun t => .bind .unknown fun name => .ite (fun _ => .fail _) fun _ => ?_
    refine .pure fun _ _ => .same ?_
    simp [tasks]
  · intro _
    exact .bind (ensures_taskLine_step g) hend

theorem ensures_statement_ordered (hg : Ordered [] g.tasks) :
    Ensures (fun _ => True) (statement g) fun e _ => Ordered [] e.tasks := by
  refine (ensures_statement_step g).imp_right fun e _ hstep => ?_
  cases hstep with
  | same h => rwa [h]
  | added hread h =>
    rw [h, ordered_append]
    exact ⟨hg, dependencies_subset_of_readTask hread, trivial⟩

theorem ensures_read_ordered :
    Ensures (fun _ => True) read fun g _ => Ordered [] g.tasks := by
  have hstatement : ∀ g : Gantt, Ensures (fun _ => Ordered [] g.tasks) (statement g)
      fun e _ => Ordered [] e.tasks :=
    fun g c e c' hg hx => ensures_statement_ordered hg c e c' trivial hx
  refine .bind .unknown fun _ => .bind .unknown fun _ => .bind .unknown fun _ => ?_
  exact (Ensures.untilEnd hstatement {}).imp (fun _ _ => trivial) fun _ _ => id

/-- The tasks of a chart `g` that comes from a document wait only for tasks before them. Their ids
may be used more than once. -/
theorem ordered_of_isRead (h : (Diagram.gantt g).IsRead) : Ordered [] g.tasks := by
  apply h.of_ensures (x := read) (Q := fun g : Gantt => Ordered [] g.tasks) (P := fun _ => True)
  · exact fun _ _ => Diagram.gantt.inj
  · rfl
  · exact fun _ _ => trivial
  · exact ensures_read_ordered

/-! ### Agreement -/

/-- If the ids of its tasks are different, a chart that has a schedule is accepted, and so is a
chart that comes from a document. -/
theorem validate_of_schedule (hnodup : g.taskIds.Nodup) :
    (∀ s, g.schedule = .ok s → g.validate = .ok ()) ∧
      ((Diagram.gantt g).IsRead → g.validate = .ok ()) := by
  have hvalidate : Ordered [] g.tasks → g.validate = .ok () := fun hordered =>
    (inOrder_iff.2 ⟨hnodup, hordered⟩).validate_eq
  constructor
  · intro s hs
    exact hvalidate (ordered_of_schedule hs)
  · intro hread
    exact hvalidate (ordered_of_isRead hread)

/-- The first chart is read, but has no schedule, since its first task has no start. In the second
one a task without an id waits for two tasks, one of them in an earlier section. -/
theorem validate_of_schedule_sections : ∃ (g₁ g₂ : Gantt) (s : List ScheduledTask),
    Program.read "gantt\nsection s\na : 1d\nb : x, 0001-01-01, 2d\nc : y, after x, 1w\n" =
        .ok ⟨[.gantt g₁]⟩ ∧
      g₁.taskIds = ["x", "y"] ∧ g₁.schedule = .error (.rejected (.noStart "a")) ∧
      g₁.validate = .ok () ∧ g₂.taskIds = ["y", "x"] ∧ g₂.schedule = .ok s ∧
      s.map (fun t => (t.start.seconds, t.finish.seconds)) =
        [(3600, 7200), (0, 172800), (172800, 259200)] ∧
      g₂.validate = .ok () := by
  let moment (n : Nat) (h : n < Calendar.limit) : Moment := ⟨n, h⟩
  let x : Task :=
    { name := "b", finish := .duration ⟨2, .days⟩, id := some "x",
      start := some (.date (moment 0 (by decide))), position := some ⟨4, 0, 23⟩ }
  let g₁ : Gantt := ⟨{}, [⟨"s", [
    { name := "a", finish := .duration ⟨1, .days⟩, position := some ⟨3, 0, 16⟩ }, x,
    { name := "c", finish := .duration ⟨1, .weeks⟩, id := some "y", start := some (.after ["x"]),
      position := some ⟨5, 0, 45⟩ }]⟩]⟩
  let y : Task :=
    { name := "y", finish := .duration ⟨1, .hours⟩, id := some "y",
      start := some (.date (moment 3600 (by decide))) }
  let z : Task :=
    { name := "z", finish := .duration ⟨1, .days⟩, start := some (.after ["y", "x"]) }
  let g₂ : Gantt := ⟨{}, [⟨"s", [y]⟩, ⟨"t", [x, z]⟩]⟩
  have hread : Program.read
      "gantt\nsection s\na : 1d\nb : x, 0001-01-01, 2d\nc : y, after x, 1w\n" =
        .ok ⟨[.gantt g₁]⟩ := by decide +kernel
  have hids₁ : g₁.taskIds = ["x", "y"] := by decide
  have hids₂ : g₂.taskIds = ["y", "x"] := by decide
  have hschedule : g₂.schedule = .ok [
      ⟨y, moment 3600 (by decide), moment 7200 (by decide)⟩,
      ⟨x, moment 0 (by decide), moment 172800 (by decide)⟩,
      ⟨z, moment 172800 (by decide), moment 259200 (by decide)⟩] := by decide +kernel
  have hisRead : (Diagram.gantt g₁).IsRead := ⟨_, _, hread, List.mem_singleton_self _⟩
  refine ⟨g₁, g₂, _, hread, hids₁, by decide +kernel, ?_, hids₂, hschedule, rfl, ?_⟩
  · exact (validate_of_schedule (by rw [hids₁]; decide)).2 hisRead
  · exact (validate_of_schedule (by rw [hids₂]; decide)).1 _ hschedule

end DiagramText.Gantt

/-! ## Tasks that wait for each other in a circle -/

namespace DiagramText.Gantt

open Relation

/-! ### The nodes of the dependency graph -/

section

variable {d : Digraph} {t : Task} {source target : String}

/-- Every arc starts at one of the nodes, so the search comes to all arcs. -/
def Anchored (d : Digraph) : Prop := ∀ a ∈ d.arcs, a.1 ∈ d.nodes

theorem Anchored.addNode (h : Anchored d) (n : String) : Anchored (d.addNode n) := by
  intro a ha
  rw [Digraph.arcs_addNode] at ha
  exact Digraph.mem_nodes_addNode.2 (.inl (h a ha))

theorem nodes_addArc (d : Digraph) (source target : String) :
    (d.addArc source target).nodes = ((d.addNode source).addNode target).nodes := by
  unfold Digraph.addArc
  dsimp only
  split <;> rfl

theorem Anchored.addArc (h : Anchored d) (source target : String) :
    Anchored (d.addArc source target) := by
  intro a ha
  rw [nodes_addArc, Digraph.mem_nodes_addNode, Digraph.mem_nodes_addNode]
  rcases mem_arcs_addArc.1 ha with ha | rfl
  · exact .inl (.inl (h a ha))
  · exact .inl (.inr rfl)

theorem Anchored.addDependencies (h : Anchored d) (t : Task) : Anchored (addDependencies d t) := by
  unfold Gantt.addDependencies
  split
  · exact h
  · next id hid =>
    exact List.foldlRecOn t.dependencies _ (h.addNode id) fun d hd dep _ => hd.addArc dep id

theorem anchored_dependencyGraph (g : Gantt) : Anchored g.dependencyGraph :=
  List.foldlRecOn g.tasks _ (fun _ ha => nomatch ha) fun _ hd t _ => hd.addDependencies t

end

/-! ### Circles -/

/-- A task with the id `id` waits directly for `dep`. -/
def IsDependency (g : Gantt) (dep id : String) : Prop :=
  ∃ t ∈ g.tasks, t.id = some id ∧ dep ∈ t.dependencies

theorem adj_dependencyGraph (g : Gantt) : g.dependencyGraph.Adj = g.IsDependency := by
  funext dep id
  exact propext mem_arcs_dependencyGraph

/-- Nothing is found exactly where no `id` depends on itself over any number of tasks. What is found
are distinct ids, at least one, of which each is a direct dependency of the next, and the last of
the first. -/
theorem dependencyCycle?_spec (g : Gantt) :
    (g.dependencyCycle? = none ↔ ∀ id, ¬TransGen g.IsDependency id id) ∧
      ∀ ids ∈ g.dependencyCycle?, ids ≠ [] ∧ ids.Nodup ∧
        (ids ++ ids.take 1).IsChain g.IsDependency := by
  rw [← adj_dependencyGraph]
  constructor
  · exact Digraph.cycle?_eq_none_iff (anchored_dependencyGraph g)
  · intro ids hids
    have hcycle := Digraph.isCycle_of_cycle? hids
    exact ⟨hcycle.ne_nil, hcycle.nodup, hcycle.isChain⟩

/-- The task that both wait for is explored first and is not part of what is found. -/
example : dependencyCycle? ⟨{}, [⟨"s", [
    { name := "z", finish := .duration ⟨1, .days⟩, id := some "z" },
    { name := "a", finish := .duration ⟨1, .days⟩, id := some "a",
      start := some (.after ["z", "b"]) },
    { name := "b", finish := .duration ⟨1, .days⟩, id := some "b",
      start := some (.after ["z", "a"]) }]⟩]⟩ = some ["a", "b"] := by
  decide +kernel

end DiagramText.Gantt
