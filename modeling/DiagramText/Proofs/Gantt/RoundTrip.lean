import DiagramText.Proofs.Gantt.Lines

/-!
# Gantt charts that read back

All dates of a chart are written in the format that came last in its document, wherever its tasks
stood. A chart reads back from what is written for it if and only if each of its tasks survives in
that format.

* `Gantt.Entry`: a chart as the lines of its sections and tasks, one after the other.
* `Gantt.readsEntries_iff`: these lines are read as what they were written for if and only if all
  tasks among them survive.
* `Gantt.readsBack_iff_survives`: so it is with all that is written for a chart that was read.
-/

namespace DiagramText.Gantt

open Text Reading

variable {g s e : Gantt} {t u : Task} {layout : Layout}

/-! ### Directives -/

/-- The line of a directive `keyword`, if it has a value, sets that value. Without a value there is
no line, and the chart stays as it is. -/
theorem readsLines_optional (hlayout : layout.IsBlank) {keyword : String}
    (hkeyword : IsIdentifier keyword) {value : Option String} (hvalue : ∀ v ∈ value, IsValue v)
    {c : Config} (hset : ∀ v ∈ value, g.config.set? (lower keyword) v = some c)
    (hnone : value = none → g.config = c) :
    ReadsLines .gantt statement g (directiveLines layout keyword value) { g with config := c } := by
  cases value with
  | none =>
    rw [← hnone rfl]
    exact .nil
  | some v =>
    have hv := hvalue v rfl
    have hlines : directiveLines layout keyword (some v) = [layout.line 1 s!"{keyword} {v}"] := by
      simp [directiveLines, Option.filter, hv.ne_empty]
    rw [hlines]
    exact readsLines_directive hlayout hkeyword hv (hset v rfl)

/-- The lines of the directives of a chart `c` set their values, one after the other, from an empty
chart on. -/
theorem readsLines_config (hlayout : layout.IsBlank) {c : Config} (h : ∀ v ∈ c.values, IsValue v) :
    ReadsLines .gantt statement {} (c.lines layout) { config := c } := by
  obtain ⟨title, dateFormat, axisFormat, excludes, todayMarker⟩ := c
  have hmem : ∀ value ∈ [title, axisFormat, excludes, todayMarker], ∀ v ∈ value, IsValue v := by
    intro value hvalue v hv
    refine h v ?_
    simp only [List.mem_cons, List.not_mem_nil, or_false] at hvalue
    rcases hvalue with rfl | rfl | rfl | rfl <;> simp [Config.values, Option.mem_def.1 hv]
  have hlower : ["title", "dateFormat", "axisFormat", "excludes", "todayMarker"].map lower =
      ["title", "dateformat", "axisformat", "excludes", "todaymarker"] := by decide +kernel
  simp only [List.map_cons, List.map_nil, List.cons.injEq, and_true] at hlower
  obtain ⟨htitle, hdateFormat, haxisFormat, hexcludes, htodayMarker⟩ := hlower
  -- Each directive starts from the values that those before it have set.
  have htitle := @readsLines_optional {} layout hlayout "title" (by decide) title
    (hmem title (by simp)) { title } (by rintro v rfl; rw [htitle]; rfl) (by rintro rfl; rfl)
  have hdateFormat := @readsLines_directive { config := { title } } layout "dateFormat" dateFormat
    hlayout (by decide) (h dateFormat (by simp [Config.values])) { title, dateFormat }
    (by rw [hdateFormat]; rfl)
  have haxisFormat := @readsLines_optional { config := { title, dateFormat } } layout hlayout
    "axisFormat" (by decide) axisFormat (hmem axisFormat (by simp))
      { title, dateFormat, axisFormat }
    (by rintro v rfl; rw [haxisFormat]; rfl) (by rintro rfl; rfl)
  have hexcludes := @readsLines_optional { config := { title, dateFormat, axisFormat } } layout
    hlayout "excludes" (by decide) excludes (hmem excludes (by simp))
    { title, dateFormat, axisFormat, excludes }
    (by rintro v rfl; rw [hexcludes]; rfl) (by rintro rfl; rfl)
  have htodayMarker := @readsLines_optional
    { config := { title, dateFormat, axisFormat, excludes } } layout hlayout "todayMarker"
    (by decide)
    todayMarker (hmem todayMarker (by simp))
    { title, dateFormat, axisFormat, excludes, todayMarker }
    (by rintro v rfl; rw [htodayMarker]; rfl) (by rintro rfl; rfl)
  exact (((htitle.append hdateFormat).append haxisFormat).append hexcludes).append htodayMarker

/-! ### Sections and tasks -/

/-- A line of a chart behind its directives: the heading of a section, or a task. -/
inductive Entry where
  | heading (name : String)
  | task (task : Task)

namespace Entry

/-- The line that is written for an entry, at its depth. -/
def line (layout : Layout) (format : String) : Entry → String
  | .heading name => layout.line 1 s!"section {name}"
  | .task t => layout.line 2 (t.text format)

/-- The chart `g` with one more section or task at its end. This is what reading the line should
do. -/
def add (g : Gantt) : Entry → Gantt
  | .heading name => { g with sections := g.sections ++ [{ name }] }
  | .task t => (g.addTask? t).getD g

/-- The task of an entry, if it is one of a task. -/
def task? : Entry → Option Task
  | .heading _ => none
  | .task t => some t

/-- An entry of which the texts can stand in a document. -/
inductive Readable : Entry → Prop
  | heading {name : String} (h : IsValue name) : Readable (.heading name)
  | task {t : Task} (hname : IsName t.name) (ht : t.IsSpelled) : Readable (.task t)

end Entry

/-- The lines of the sections of a chart `g`, each heading before its tasks. -/
def entries (g : Gantt) : List Entry :=
  g.sections.flatMap fun s => .heading s.name :: s.tasks.map .task

theorem lines_eq (layout : Layout) (g : Gantt) : g.lines layout =
    "gantt" :: (g.config.lines layout ++ g.entries.map (Entry.line layout
      g.config.dateFormat)) := by
  have hsection : Section.lines layout g.config.dateFormat = fun s =>
      (Entry.heading s.name :: s.tasks.map .task).map (Entry.line layout g.config.dateFormat) := by
    funext s
    rw [List.map_cons, List.map_map]
    rfl
  rw [lines, entries, List.map_flatMap, List.cons_append, hsection]

theorem tasks_entries (g : Gantt) : g.entries.filterMap Entry.task? = g.tasks := by
  have hsection : ∀ s : Section,
      (Entry.heading s.name :: s.tasks.map .task).filterMap Entry.task? = s.tasks := fun s => by
    rw [List.filterMap_cons_none rfl, List.filterMap_map]
    exact List.filterMap_some
  rw [entries, List.filterMap_flatMap, tasks]
  simp only [hsection]

theorem addTask?_append (c : Config) (ss : List Section) (s : Section) (t : Task) :
    addTask? ⟨c, ss ++ [s]⟩ t = some ⟨c, ss ++ [{ s with tasks := s.tasks ++ [t] }]⟩ := by
  simp [addTask?]

/-- A chart `g` is put together from the lines of its sections, behind its directives. -/
theorem foldl_entries (g : Gantt) : g.entries.foldl Entry.add { config := g.config } = g := by
  have htasks : ∀ (c : Config) (ss : List Section) (ts : List Task) (s : Section),
      (ts.map Entry.task).foldl Entry.add ⟨c, ss ++ [s]⟩ =
        ⟨c, ss ++ [{ s with tasks := s.tasks ++ ts }]⟩ := by
    intro c ss ts
    induction ts with
    | nil => simp
    | cons t ts ih =>
      intro s
      rw [List.map_cons, List.foldl_cons, Entry.add, addTask?_append, Option.getD_some, ih]
      simp
  have hsections : ∀ (c : Config) (ss' ss : List Section),
      (ss'.flatMap fun s => Entry.heading s.name :: s.tasks.map .task).foldl Entry.add ⟨c, ss⟩ =
        ⟨c, ss ++ ss'⟩ := by
    intro c ss'
    induction ss' with
    | nil => simp
    | cons s ss' ih =>
      intro ss
      rw [List.flatMap_cons, List.foldl_append, List.foldl_cons, Entry.add, htasks, ih]
      simp
  exact hsections g.config g.sections []

/-! ### Lines of sections and tasks -/

theorem ensures_grows (s : Gantt) :
    Ensures (fun _ => True) (untilEnd statement s) fun e _ => s.tasks <+: e.tasks := by
  have hstatement : ∀ g : Gantt, Ensures (fun _ => s.tasks <+: g.tasks) (statement g)
      fun e _ => s.tasks <+: e.tasks := by
    intro g c e c' hg hx
    cases ensures_statement_step g c e c' trivial hx with
    | same h => rwa [h]
    | added _ h =>
      rw [h]
      exact hg.trans (List.prefix_append _ _)
  exact (Ensures.untilEnd hstatement s).imp (fun _ _ => List.prefix_refl _) fun _ _ => id

theorem prefix_foldl (es : List Entry) (s : Gantt) : s.tasks <+: (es.foldl Entry.add s).tasks := by
  induction es generalizing s with
  | nil => exact List.prefix_refl _
  | cons x es ih =>
    refine List.IsPrefix.trans ?_ (ih _)
    cases x with
    | heading name =>
      simp [Entry.add, tasks]
    | task t =>
      rw [Entry.add]
      cases hadd : s.addTask? t with
      | none => exact List.prefix_refl _
      | some e =>
        rw [Option.getD_some, tasks_addTask? hadd]
        exact List.prefix_append _ _

/-- Where there is a section, a task `t` comes to its end, and nothing else of the chart changes. -/
theorem addTask_spec (hs : s.sections ≠ []) (t : Task) :
    ((s.addTask? t).getD s).tasks = s.tasks ++ [t] ∧
      ((s.addTask? t).getD s).sections ≠ [] ∧ ((s.addTask? t).getD s).config = s.config := by
  obtain ⟨c, ss⟩ := s
  obtain ⟨ss, x, rfl⟩ : ∃ ss' x, ss = ss' ++ [x] := ⟨_, _, (List.dropLast_append_getLast hs).symm⟩
  rw [addTask?_append, Option.getD_some]
  exact ⟨tasks_addTask? (addTask?_append c ss x t), by simp, rfl⟩

theorem tasks_unplaced (g : Gantt) : g.unplaced.tasks = g.tasks.map Task.unplaced := by
  rw [tasks, unplaced_sections, tasks, List.map_flatMap, List.flatMap_map]

theorem Same.tasks_eq {g h : Gantt} (hgh : g.Same h) :
    g.tasks.map Task.unplaced = h.tasks.map Task.unplaced := by
  rw [← tasks_unplaced, ← tasks_unplaced, hgh]

theorem Same.foldl {g h : Gantt} (hgh : g.Same h) (es : List Entry) :
    (es.foldl Entry.add g).Same (es.foldl Entry.add h) := by
  induction es generalizing g h with
  | nil => exact hgh
  | cons x es ih =>
    cases x with
    | heading name => exact ih (hgh.addSection _)
    | task t => exact ih (hgh.addTask rfl)

section

variable {format : String}

/-- A task that survives is read from its line, and the lines `es` behind it are read as before. -/
theorem exists_untilEnd_task (hlayout : layout.IsBlank) (hs : s.sections ≠ [])
    (hname : IsName t.name) (ht : t.IsSpelled) (hknown : t.dependencies ⊆ s.taskIds)
    (hconfig : s.config.dateFormat = format) (hformat : Plain format.toList)
    (h : t.Survives format) (past ts : List Token) :
    ∃ u past', u.unplaced = t.unplaced ∧ untilEnd statement s
        ⟨past, Token.fullLine .gantt (layout.line 2 (t.text format)) ++ ts, Token.endOfInput⟩ =
      untilEnd statement ((s.addTask? u).getD s) ⟨past', ts, Token.endOfInput⟩ := by
  subst hconfig
  rw [Token.fullLine_line_filter Dialect.regular_gantt.skipsBlanks hlayout, List.append_assoc,
    List.singleton_append]
  let nl := Token.lineBreak .gantt (layout.line 2 (t.text s.config.dateFormat)).toList
  obtain ⟨u, past', hsame, hstatement⟩ := @exists_statement_task s t nl ts past hs hname ht hknown
    hformat h rfl (layout.pad 2).toList
  generalize (Token.ofLine .gantt _ _).filter Token.isRead = row at hstatement ⊢
  obtain ⟨w, ws, hrow⟩ := List.exists_cons_of_ne_nil
    (List.append_ne_nil_of_right_ne_nil row (List.cons_ne_nil nl ts))
  have hlength := congrArg List.length hrow
  rw [List.length_append, List.length_cons, List.length_cons] at hlength
  rw [hrow] at hstatement ⊢
  exact ⟨u, past', hsame, untilEnd_cons hstatement (by dsimp only; omega)⟩

/-- A task `t` of a chart that is read back survives: what its line was read as stays in the chart,
in its place. -/
theorem survives_of_untilEnd (hlayout : layout.IsBlank) (hs : s.sections ≠ [])
    (hname : IsName t.name) (ht : t.IsSpelled) (hknown : t.dependencies ⊆ s.taskIds)
    (hconfig : s.config.dateFormat = format) (hformat : Plain format.toList) {es : List Entry}
    {past ts : List Token} {c : Cursor} (h : untilEnd statement s
      ⟨past, Token.fullLine .gantt (layout.line 2 (t.text format)) ++ ts, Token.endOfInput⟩ =
        .ok (e, c)) (hsame : e.Same (es.foldl Entry.add ((s.addTask? t).getD s))) :
    t.Survives format := by
  subst hconfig
  rw [Token.fullLine_line_filter Dialect.regular_gantt.skipsBlanks hlayout, List.append_assoc,
    List.singleton_append] at h
  let nl := Token.lineBreak .gantt (layout.line 2 (t.text s.config.dateFormat)).toList
  obtain ⟨s', c', hstatement, hread⟩ : ∃ s' c', statement s ⟨past, (Token.ofLine .gantt
      (layout.pad 2).toList (t.text s.config.dateFormat).toList).filter Token.isRead ++ nl :: ts,
        Token.endOfInput⟩ = .ok (s', c') ∧ untilEnd statement s' c' = .ok (e, c) := by
    generalize (Token.ofLine .gantt _ _).filter Token.isRead = row at h ⊢
    obtain ⟨w, ws, hrow⟩ := List.exists_cons_of_ne_nil
      (List.append_ne_nil_of_right_ne_nil row (List.cons_ne_nil nl ts))
    rw [hrow] at h ⊢
    obtain ⟨s', c', hstatement, -, hread⟩ := exists_of_untilEnd_cons h
    exact ⟨s', c', hstatement, hread⟩
  obtain ⟨u, rfl, hsurvives⟩ := survives_of_statement hname ht hknown hformat rfl hstatement
  -- the task that was read and the one that was written are at the same place of one chart
  have hu := (ensures_grows _ _ _ _ trivial hread).map Task.unplaced
  have ht := (prefix_foldl es ((s.addTask? t).getD s)).map Task.unplaced
  rw [← hsame.tasks_eq, (addTask_spec hs t).1] at ht
  rw [(addTask_spec hs u).1] at hu
  have heq := (List.prefix_of_prefix_length_le hu ht (by simp)).eq_of_length (by simp)
  rw [List.map_append, List.map_append, List.append_cancel_left_eq] at heq
  exact hsurvives (List.singleton_inj.1 heq)

end

/-- The lines of sections and tasks are read as what they were written for if and only if all
tasks among them survive. The induction is on the entries, with the chart `s` that was read
before them. -/
theorem readsEntries_iff (hlayout : layout.IsBlank) {es : List Entry} (hes : ∀ x ∈ es, x.Readable)
    {format : String} (hformat : Plain format.toList) (hs : s.config.dateFormat = format)
    (hfirst : ∀ t, es.head? = some (.task t) → s.sections ≠ [])
    (hordered : Ordered s.taskIds (es.filterMap Entry.task?)) (past : List Token) :
    (∃ e c, untilEnd statement s ⟨past, (es.map (Entry.line layout format)).flatMap
        (Token.fullLine .gantt), Token.endOfInput⟩ = .ok (e, c) ∧ e.Same (es.foldl Entry.add s)) ↔
      ∀ t ∈ es.filterMap Entry.task?, t.Survives format := by
  induction es generalizing s past with
  | nil =>
    exact iff_of_true ⟨s, _, untilEnd_nil statement s, rfl⟩ (List.forall_mem_nil _)
  | cons x es ih =>
    obtain ⟨hx, hrest⟩ := List.forall_mem_cons.1 hes
    rw [List.map_cons, List.flatMap_cons, List.foldl_cons]
    cases hx with
    -- A heading is always read, and no task is lost by it.
    | @heading name hname =>
      have hruns := (@readsLines_section s layout name hlayout hname).runs
      rw [List.flatMap_singleton] at hruns
      obtain ⟨past', hrow⟩ := hruns past ((es.map (Entry.line layout format)).flatMap
        (Token.fullLine .gantt))
      have hids : taskIds { s with sections := s.sections ++ [{ name }] } = s.taskIds := by
        simp [taskIds, tasks]
      rw [List.filterMap_cons_none rfl] at hordered ⊢
      rw [Entry.line, hrow]
      exact @ih { s with sections := s.sections ++ [{ name }] } hrest hs (fun _ _ => by simp)
        (hids ▸ hordered) past'
    -- A task that survives is read as it was, and one that does not is lost, so the chart is
    -- another one.
    | @task t hname ht =>
      have hsections := hfirst t rfl
      have htask : Entry.task? (.task t) = some t := rfl
      rw [List.filterMap_cons_some htask] at hordered ⊢
      obtain ⟨hknown, hordered⟩ := hordered
      rw [Entry.line, List.forall_mem_cons]
      by_cases h : t.Survives format
      · obtain ⟨u, past', hsame, hrow⟩ := exists_untilEnd_task hlayout hsections hname ht hknown hs
          hformat h past ((es.map (Entry.line layout format)).flatMap (Token.fullLine .gantt))
        obtain ⟨htasks, hsections', hconfig⟩ := addTask_spec hsections u
        have hfold : (es.foldl Entry.add ((s.addTask? u).getD s)).Same
            (es.foldl Entry.add (Entry.add s (.task t))) :=
          Same.foldl (Same.addTask rfl hsame) es
        have hids : ((s.addTask? u).getD s).taskIds = s.taskIds ++ t.id.toList := by
          have hid : u.unplaced.id = t.unplaced.id := congrArg Task.id hsame
          have hid : u.id = t.id := hid
          rw [taskIds, htasks, List.filterMap_append, filterMap_id_cons, hid, List.filterMap_nil,
            List.append_nil]
          rfl
        rw [hrow, and_iff_right h,
          ← ih hrest (hconfig ▸ hs) (fun _ _ => hsections') (hids ▸ hordered) past']
        exact exists_congr fun e => exists_congr fun c => and_congr_right fun _ =>
          ⟨fun h => Eq.trans h hfold.symm, fun h => Eq.trans h hfold⟩
      · refine iff_of_false ?_ fun hall => h hall.1
        rintro ⟨e, c, hread, hsame⟩
        exact h (survives_of_untilEnd hlayout hsections hname ht hknown hs hformat hread hsame)

/-! ### Charts -/

theorem readable_entries (h : g.Readable) (hspelled : ∀ t ∈ g.tasks, t.IsSpelled) :
    ∀ x ∈ g.entries, x.Readable := by
  intro x hx
  obtain ⟨s, hs, hx⟩ := List.mem_flatMap.1 hx
  rcases List.mem_cons.1 hx with rfl | hx
  · exact .heading (h.sections s hs)
  · obtain ⟨t, ht, rfl⟩ := List.mem_map.1 hx
    have hmem : t ∈ g.tasks := List.mem_flatMap.2 ⟨s, hs, ht⟩
    exact .task (h.names t hmem) (hspelled t hmem)

theorem isOwnLine_entry (hlayout : layout.IsBlank) {format : String} (hformat : Plain format.toList)
    {x : Entry} (hx : x.Readable) : IsOwnLine (x.line layout format) := by
  cases hx with
  | heading hv =>
    have hsection : IsIdentifier "section" := by decide
    exact Layout.isOwnLine_line hlayout 1 (isWritable_keyword hsection hv)
  | @task t hname ht =>
    have hdetails := ht.plain_details hformat
    refine Layout.isOwnLine_line hlayout 2 ?_
    rw [t.toList_text]
    exact hname.isWritable_append (by rintro c ⟨⟩; rfl)
      (.space (List.forall_mem_cons.2 ⟨by decide, hdetails.space⟩))

namespace Readable

theorem plain_dateFormat (h : g.Readable) : Plain g.config.dateFormat.toList :=
  (h.values _ (by simp [Config.values])).isSpan.plain

/-- The lines of a chart `g` stay lines when they are put together to a text. -/
theorem areOwnLines (h : g.Readable) (hlayout : layout.IsBlank)
    (hspelled : ∀ t ∈ g.tasks, t.IsSpelled) : AreOwnLines (g.lines layout) := by
  have hheader : IsOwnLine "gantt" := ⟨by decide, by decide⟩
  rw [lines_eq]
  refine .cons hheader ((readsLines_config hlayout h.values).own.append (.of_forall ?_))
  exact List.forall_mem_map.2 fun x hx =>
    isOwnLine_entry hlayout h.plain_dateFormat (readable_entries h hspelled x hx)

/-- What is written for a chart `g` is read up to its directives, whatever is behind them, and its
entries are read from there. -/
theorem exists_read_eq (h : g.Readable) (hlayout : layout.IsBlank) : ∃ past,
    read ⟨[], (g.lines layout).flatMap (Token.fullLine .gantt), Token.endOfInput⟩ =
      untilEnd statement { config := g.config } ⟨past, (g.entries.map (Entry.line layout
        g.config.dateFormat)).flatMap (Token.fullLine .gantt), Token.endOfInput⟩ := by
  have hheader : Token.fullLine .gantt "gantt" =
      [Token.plain .identifier [] "gantt".toList, Token.lineBreak .gantt "gantt".toList] := by
    have hword : Token.ofLine .gantt [] "gantt".toList =
        [Token.plain .identifier [] "gantt".toList] :=
      Token.ofLine_word Dialect.regular_gantt (by decide) (by decide) (by decide) (by decide) []
    rw [Token.fullLine, hword]
    rfl
  have hskip : ∀ ts, skipNewlines
      ⟨[], Token.plain .identifier [] "gantt".toList :: ts, Token.endOfInput⟩ =
        .ok ((), ⟨[], Token.plain .identifier [] "gantt".toList :: ts, Token.endOfInput⟩) :=
    fun _ => rfl
  have hword : (Token.plain .identifier [] "gantt".toList).isWord ["gantt"] = true := by
    decide +kernel
  obtain ⟨past, hconfig⟩ := (readsLines_config hlayout h.values).runs
    [Token.lineBreak .gantt "gantt".toList, Token.plain .identifier [] "gantt".toList]
    ((g.entries.map (Entry.line layout g.config.dateFormat)).flatMap (Token.fullLine .gantt))
  refine ⟨past, ?_⟩
  rw [lines_eq, List.flatMap_cons, List.flatMap_append, hheader, read]
  simp only [List.nil_append, List.cons_append, bind_apply, hskip, Except.bind,
    expectWord_cons hword, endStatement_cons]
  exact hconfig

/-- A chart `g` that can stand in a document reads back from what is written for it if and only if
each of its tasks survives in its format. -/
theorem readsBack_iff (h : g.Readable) (hlayout : layout.IsBlank)
    (hspelled : ∀ t ∈ g.tasks, t.IsSpelled) (hordered : Ordered [] g.tasks) :
    Program.ReadsBack layout ⟨[.gantt g]⟩ ↔ ∀ t ∈ g.tasks, t.Survives g.config.dateFormat := by
  obtain ⟨past, hread⟩ := h.exists_read_eq hlayout
  -- What stands behind the directives starts with a heading, so that every task has a section to go
  -- to.
  have hfirst : ∀ t, g.entries.head? ≠ some (.task t) := by
    intro t
    rw [entries]
    cases g.sections with
    | nil => exact nofun
    | cons s ss => simp
  have hentries := @readsEntries_iff { config := g.config } layout hlayout g.entries
    (readable_entries h hspelled) g.config.dateFormat h.plain_dateFormat rfl
    (fun t ht => absurd ht (hfirst t)) (by rw [tasks_entries]; exact hordered) past
  rw [tasks_entries, foldl_entries] at hentries
  rw [← hentries]
  have hown := h.areOwnLines hlayout hspelled
  rw [lines_eq] at hread hown
  have hwrite : (Diagram.gantt g).write layout = joinLines ("gantt" :: (g.config.lines layout ++
      g.entries.map (Entry.line layout g.config.dateFormat))) := by
    rw [Diagram.write, write, lines_eq]
  rw [Program.readsBack_iff_lines hwrite hown]
  simp only [Diagram.dialect, Reading.diagram, map_apply, hread]
  constructor
  · rintro ⟨d, c, hd, hsame⟩
    obtain ⟨⟨e, c'⟩, he, hd⟩ := Except.bind_eq_ok_iff.1 hd
    cases hd
    exact ⟨e, c', he, Diagram.gantt.inj hsame⟩
  · rintro ⟨e, c, he, hsame⟩
    exact ⟨.gantt e, c, by rw [he]; rfl, congrArg Diagram.gantt hsame⟩

end Readable

/-- Positions do not matter to whether a chart `g` can stand in a document, as no text of a chart is
one. -/
theorem readable_unplaced_iff : g.unplaced.Readable ↔ g.Readable := by
  constructor
  · rintro ⟨hvalues, hsections, hnames⟩
    rw [unplaced_sections] at hsections
    rw [tasks_unplaced] at hnames
    refine ⟨hvalues, fun s hs => ?_, fun t ht => ?_⟩
    · exact hsections { s with tasks := s.tasks.map Task.unplaced } (List.mem_map_of_mem hs)
    · exact hnames t.unplaced (List.mem_map_of_mem ht)
  · rintro ⟨hvalues, hsections, hnames⟩
    refine ⟨hvalues, ?_, ?_⟩
    · rw [unplaced_sections]
      exact List.forall_mem_map.2 hsections
    · rw [tasks_unplaced]
      exact List.forall_mem_map.2 hnames

/-- Every task `t` of a chart that was read is one that can be read, whatever format was in
force. -/
theorem ensures_read_isSpelled :
    Ensures (fun _ => True) read fun g _ => ∀ t ∈ g.tasks, t.IsSpelled := by
  have hstatement : ∀ g : Gantt, Ensures (fun _ => ∀ t ∈ g.tasks, t.IsSpelled) (statement g)
      fun e _ => ∀ t ∈ e.tasks, t.IsSpelled := by
    intro g c e c' hg hx
    cases ensures_statement_step g c e c' trivial hx with
    | same h => rwa [h]
    | added hread h =>
      rw [h]
      exact List.forall_mem_append.2
        ⟨hg, List.forall_mem_singleton.2 (isSpelled_of_readTask hread)⟩
  refine .bind .unknown fun _ => .bind .unknown fun _ => .bind .unknown fun _ => ?_
  exact (Ensures.untilEnd hstatement {}).imp (fun _ _ => List.forall_mem_nil _) fun _ _ => id

/-- A chart of a document of which the only blanks are spaces, tabs and line breaks can stand in a
document, and its tasks can be read in their order. -/
theorem readable_of_mem {src : String} {p : Program}
    (hblanks : ∀ c ∈ src.toList, isBlank c = true → isSpaceOrTab c = true ∨ isLineBreak c = true)
    (h : Program.read src = .ok p) (hg : .gantt g ∈ p.diagrams) :
    g.Readable ∧ (∀ t ∈ g.tasks, t.IsSpelled) ∧ Ordered [] g.tasks := by
  have hisRead : (Diagram.gantt g).IsRead := ⟨src, p, h, hg⟩
  have hspelled : ∀ t ∈ g.tasks, t.IsSpelled :=
    hisRead.of_ensures (x := read) (Q := fun g : Gantt => ∀ t ∈ g.tasks, t.IsSpelled)
      (P := fun _ => True) (fun _ _ => Diagram.gantt.inj) rfl (fun _ _ => trivial)
      ensures_read_isSpelled
  obtain ⟨text, htext, x, c, hread, hsame⟩ := Program.exists_row_of_read h hg
  have hscanned : Scanned (.ofText .gantt text) :=
    ⟨Token.scanned_ofText fun c hc => hblanks c (htext c hc), rfl⟩
  refine ⟨?_, hspelled, ordered_of_isRead hisRead⟩
  rw [Diagram.dialect, Reading.diagram, map_apply, Except.bind_eq_ok_iff] at hread
  obtain ⟨⟨e, c'⟩, he, hx⟩ := hread
  cases hx
  have hunplaced : e.unplaced = g.unplaced := Diagram.gantt.inj hsame
  rw [← readable_unplaced_iff, ← hunplaced, readable_unplaced_iff]
  exact ensures_read_readable _ _ _ hscanned he

/-- A chart `g` that was read from a document of which the only blanks are spaces, tabs and line
breaks reads back from what is written for it if and only if each of its tasks survives in the
format that all dates are written in. -/
theorem readsBack_iff_survives {src : String}
    (hblanks : ∀ c ∈ src.toList, isBlank c = true → isSpaceOrTab c = true ∨ isLineBreak c = true)
    (hlayout : layout.IsBlank) (h : Program.read src = .ok ⟨[.gantt g]⟩) :
    Program.ReadsBack layout ⟨[.gantt g]⟩ ↔ ∀ t ∈ g.tasks, t.Survives g.config.dateFormat := by
  obtain ⟨hreadable, hspelled, hordered⟩ :=
    readable_of_mem hblanks h (List.mem_singleton_self (Diagram.gantt g))
  exact hreadable.readsBack_iff hlayout hspelled hordered

/-- A year that means the same in a later format with months, and a name that leaves a double quote
open, which no date closes. -/
theorem readsBack_iff_survives_month : ∃ g : Gantt,
    Program.read ("gantt\n dateFormat YYYY\n section One\n a : done, x, 2024, 2d\n" ++
      " dateFormat YYYY-MM\n b \"c : after x, 2024-03\n") = .ok ⟨[.gantt g]⟩ ∧
      g.config.dateFormat = "YYYY-MM" ∧ Program.ReadsBack {} ⟨[.gantt g]⟩ := by
  let january : Moment := ⟨63839664000, by decide⟩
  let march : Moment := ⟨63844848000, by decide⟩
  let a : Task :=
    { name := "a", finish := .duration ⟨2, .days⟩, id := some "x", status := some .done,
      start := some (.date january), position := some ⟨4, 1, 37⟩ }
  let b : Task :=
    { name := "b \"c", finish := .date march, start := some (.after ["x"]),
      position := some ⟨6, 1, 80⟩ }
  let g : Gantt := ⟨{ dateFormat := "YYYY-MM" }, [⟨"One", [a, b]⟩]⟩
  have hread : Program.read ("gantt\n dateFormat YYYY\n section One\n a : done, x, 2024, 2d\n" ++
      " dateFormat YYYY-MM\n b \"c : after x, 2024-03\n") = .ok ⟨[.gantt g]⟩ := by decide +kernel
  -- January is the same with months and without
  have ha : a.Survives "YYYY-MM" := by
    refine ⟨⟨?_, nofun, nofun⟩, .inl (by decide)⟩
    rintro m ⟨⟩
    decide +kernel
  have hb : b.Survives "YYYY-MM" := by
    refine ⟨⟨nofun, ?_, nofun⟩, .inr (by decide +kernel)⟩
    rintro m ⟨⟩
    decide +kernel
  refine ⟨g, hread, rfl, (readsBack_iff_survives (by decide +kernel) ?_ hread).2 ?_⟩
  · simp [Layout.IsBlank, isSpaceOrTab]
  · exact List.forall_mem_cons.2 ⟨ha, List.forall_mem_singleton.2 hb⟩

/-- A day that was read in a format with days is lost if a format of years comes behind it. -/
theorem readsBack_lost_day : ∃ g e : Gantt, Program.read ("gantt\n dateFormat YYYY-MM-DD\n" ++
      " section s\n t : 2024-01-02, 1d\n dateFormat YYYY\n") = .ok ⟨[.gantt g]⟩ ∧
    Program.read (Program.write {} ⟨[.gantt g]⟩) = .ok ⟨[.gantt e]⟩ ∧
      g.tasks.map Task.start ≠ e.tasks.map Task.start := by
  let chart (start : Moment) (p : Position) : Gantt := ⟨{ dateFormat := "YYYY" }, [⟨"s", [
    { name := "t", finish := .duration ⟨1, .days⟩, start := some (.date start),
      position := some p }]⟩]⟩
  exact ⟨chart ⟨63839750400, by decide⟩ ⟨4, 1, 41⟩, chart ⟨63839664000, by decide⟩ ⟨4, 8, 48⟩,
    by decide +kernel, by decide +kernel, by decide⟩

end DiagramText.Gantt
