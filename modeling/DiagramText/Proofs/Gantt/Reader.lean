import DiagramText.Gantt.Reader
import DiagramText.Proofs.Reading.Alike
import DiagramText.Proofs.Reading.Located
import DiagramText.Proofs.Reading.Steady

/-!
# Reading gantt charts

Tasks are at the positions of tokens that they were read from, and apart from these reading does not
depend on places. What is wrong with the parts of a task is reported where its text after the colon
starts. A date is read by the format of the chart, which is the one that it starts with, and names
no field twice, or one that a directive has set. The digits of a duration are part of the text of a
task.

* `Gantt.positions`: all positions in a chart.
* `Gantt.located_read`: the positions in a chart that was read are those of its tokens.
* `Gantt.alike_read`: alike rows of tokens are read as charts that are equal without positions.
* `Gantt.DatesFrom`: where the date format of a chart comes from, which every statement keeps.
* `Gantt.steady_read`: a gantt chart is read, or its text is to blame.
-/

/-! ## Positions -/

namespace DiagramText.Gantt

open Reading

/-- All positions in a chart `g`, which are those of its tasks. -/
def positions (g : Gantt) : List Position := g.tasks.filterMap Task.position

variable {P : Position → Prop} {B : String → Prop} {g : Gantt}

/-- A chart in which all positions have the property `P`. -/
def LocatedAt (P : Position → Prop) (g : Gantt) : Prop :=
  ∀ t ∈ g.tasks, ∀ p ∈ t.position, P p

theorem LocatedAt.forall_positions (h : g.LocatedAt P) : ∀ p ∈ g.positions, P p := by
  intro p hp
  obtain ⟨t, ht, hp⟩ := List.mem_filterMap.1 hp
  exact h t ht p hp

theorem LocatedAt.addTask (h : g.LocatedAt P) {t : Task} (ht : ∀ p ∈ t.position, P p) :
    ((g.addTask? t).getD g).LocatedAt P := by
  unfold addTask?
  rcases List.eq_nil_or_concat g.sections with hnil | ⟨sections, last, hlast⟩
  · rw [hnil]
    exact h
  · simp only [LocatedAt, tasks, hlast, List.concat_eq_append, List.getLast?_concat,
      Option.map_some, Option.getD_some, List.dropLast_concat, List.flatMap_append,
      List.flatMap_singleton, List.forall_mem_append] at h ⊢
    exact ⟨h.1, h.2, List.forall_mem_singleton.2 ht⟩

/-! ### Tasks -/

section Tasks

variable {format : String} {p : Position} (hp : P p)

include hp

theorem located_readDate (text : String) :
    Except.Located P B (fun _ => True) (readDate text format (some p)) := by
  simp only [readDate]
  split
  · trivial
  · split
    · trivial
    · exact ⟨⟨p, rfl, hp⟩, trivial⟩

theorem located_readFinish (text : String) :
    Except.Located P B (fun _ => True) (readFinish text format p) := by
  simp only [readFinish]
  split
  · split <;> trivial
  · split
    · exact ⟨⟨p, rfl, hp⟩, trivial⟩
    · split
      · exact ⟨⟨p, rfl, hp⟩, trivial⟩
      · exact (located_readDate hp text).map

theorem located_readStart (text : String) (known : List String) :
    Except.Located P B (fun _ => True) (readStart text format known p) := by
  simp only [readStart]
  split
  · split
    · exact (located_readDate hp text).map
    · split
      · exact ⟨⟨p, rfl, hp⟩, trivial⟩
      · split
        · exact ⟨⟨p, rfl, hp⟩, trivial⟩
        · trivial
  · exact (located_readDate hp text).map

theorem located_takeStatus (parts : List String) :
    Except.Located P B (fun _ => True) (takeStatus p parts) := by
  unfold takeStatus
  split
  · trivial
  · split
    · trivial
    · split
      · exact ⟨⟨p, rfl, hp⟩, trivial⟩
      · trivial

/-- A task is at the position of its name, and what is wrong with it at `start`, that of its
parts. -/
theorem located_readTask (name details : String) (known : List String) {start : Position}
    (hstart : P start) : Except.Located P B (fun t => ∀ q ∈ t.position, P q)
      (readTask name details format known start p) := by
  have hposition : ∀ q ∈ some start, P q := by
    rintro q ⟨⟩
    exact hstart
  refine (located_takeStatus hp _).bind fun (status, parts) _ => ?_
  simp only
  split
  · exact (located_readFinish hp _).bind fun _ _ => hposition
  · exact (located_readStart hp _ _).bind fun _ _ => (located_readFinish hp _).bind fun _ _ =>
      hposition
  · split
    · exact ⟨⟨p, rfl, hp⟩, trivial⟩
    · exact (located_readStart hp _ _).bind fun _ _ => (located_readFinish hp _).bind fun _ _ =>
        hposition
  · exact ⟨⟨p, rfl, hp⟩, trivial⟩

end Tasks

/-! ### The chart -/

theorem located_directiveLine (hg : g.LocatedAt P) : Located P B (directiveLine g) (LocatedAt P) :=
  .bind located_advance fun _ _ => .bind located_restOfStatement fun _ _ =>
    .ite (fun _ => located_fail _) fun _ => .pure hg

theorem located_sectionLine (hg : g.LocatedAt P) : Located P B (sectionLine g) (LocatedAt P) := by
  refine .bind located_advance fun _ _ => .bind located_restOfStatement fun name _ =>
    .ite (fun _ => located_fail _) fun _ => .pure ?_
  simpa [LocatedAt, tasks] using hg

theorem located_taskLine (hg : g.LocatedAt P) : Located P B (taskLine g) (LocatedAt P) :=
  .bind located_peek fun _ hfirst => .bind (located_rawUntil _) fun _ _ =>
    .ite (fun _ => located_fail _) fun _ => .bind (located_expect _ _) fun _ _ =>
      .bind (located_expect _ _) fun _ htext => .ite (fun _ => .failAt (by trivial) hfirst) fun _ =>
        .bind (.lift (located_readTask htext _ _ _ hfirst)) fun _ ht => .pure (hg.addTask ht)

theorem located_statement (hg : g.LocatedAt P) : Located P B (statement g) (LocatedAt P) := by
  refine .bind located_peek fun _ _ => .bind (located_ahead 1) fun _ _ =>
    .bind (located_accept _) fun _ _ => .ite (fun _ => .pure hg) fun _ => ?_
  have hend : ∀ g : Gantt, g.LocatedAt P →
      Located P B (do endStatement; return g) (LocatedAt P) := fun g hg =>
    .bind located_endStatement fun _ _ => .pure hg
  exact .ite (fun _ => .bind (located_directiveLine hg) hend)
    fun _ => .ite (fun _ => .bind (located_sectionLine hg) hend)
      fun _ => .bind (located_taskLine hg) hend

/-- The positions in a chart that was read are those of its tokens, as is that of an error. -/
theorem located_read : Located P B read fun g => ∀ p ∈ g.positions, P p := by
  have hempty : LocatedAt P {} := List.forall_mem_nil _
  have huntil : Located P B (untilEnd statement {}) (LocatedAt P) :=
    .untilEnd (fun _ hg => located_statement hg) hempty
  exact .bind located_skipNewlines fun _ _ => .bind (located_expectWord _) fun _ _ =>
    .bind located_endStatement fun _ _ => huntil.imp fun _ hg => hg.forall_positions

end DiagramText.Gantt

/-! ## Readings at different places -/

namespace DiagramText.Gantt

open Reading

/-! ### Equality without positions -/

/-- A task `t` without its position. -/
def Task.unplaced (t : Task) : Task := { t with position := none }

/-- The charts `g` and `h` are equal without positions. -/
def Same (g h : Gantt) : Prop := g.unplaced = h.unplaced

theorem unplaced_sections (g : Gantt) : g.unplaced.sections =
    g.sections.map fun s => { s with tasks := s.tasks.map Task.unplaced } := rfl

theorem taskIds_unplaced (g : Gantt) : g.unplaced.taskIds = g.taskIds := by
  simp only [taskIds, tasks, unplaced_sections, List.flatMap_map, List.filterMap_flatMap,
    List.filterMap_map]
  rfl

variable {P : Position → Position → Prop} {pre : Nat → Cursor → Prop} {g h : Gantt}

theorem Same.config_eq (hgh : g.Same h) : g.config = h.config := by
  have hc : g.unplaced.config = h.unplaced.config := congrArg Gantt.config hgh
  exact hc

theorem Same.taskIds_eq (hgh : g.Same h) : g.taskIds = h.taskIds := by
  rw [← taskIds_unplaced, hgh, taskIds_unplaced]

theorem Same.isEmpty_eq (hgh : g.Same h) : g.sections.isEmpty = h.sections.isEmpty := by
  have hs := congrArg (fun g => g.sections.isEmpty) hgh
  simpa only [unplaced_sections, List.isEmpty_map] using hs

theorem Same.setConfig (hgh : g.Same h) (c : Config) :
    Same { g with config := c } { h with config := c } := by
  simp only [Same, unplaced, mk.injEq, true_and] at hgh ⊢
  exact hgh.2

theorem Same.addSection (hgh : g.Same h) (s : Section) :
    Same { g with sections := g.sections ++ [s] } { h with sections := h.sections ++ [s] } := by
  simp only [Same, unplaced, mk.injEq, List.map_append] at hgh ⊢
  exact ⟨hgh.1, by rw [hgh.2]⟩

theorem unplaced_addTask (g : Gantt) (t : Task) : ((g.addTask? t).getD g).unplaced =
    ((g.unplaced.addTask? t.unplaced).getD g.unplaced) := by
  have hlast : g.unplaced.sections.getLast? = g.sections.getLast?.map fun s =>
      { s with tasks := s.tasks.map Task.unplaced } := by
    rw [unplaced_sections, List.getLast?_map]
  unfold addTask?
  rw [hlast]
  cases g.sections.getLast? with
  | none => rfl
  | some s =>
    simp [unplaced, Task.unplaced]

theorem Same.addTask (hgh : g.Same h) {t u : Task} (htu : t.unplaced = u.unplaced) :
    Same ((g.addTask? t).getD g) ((h.addTask? u).getD h) := by
  rw [Same, unplaced_addTask, unplaced_addTask, htu, hgh]

/-! ### Dates and durations -/

variable {p q r s : Position}

theorem agree_readDate (text format : String) (hpq : P p q) :
    Agree P Eq (readDate text format (some p)) (readDate text format (some q)) := by
  unfold readDate
  dsimp only
  split
  · exact .error .repeatedDateField
  · split
    · exact .ok rfl
    · exact agree_malformed _ (.some hpq)

theorem agree_readFinish (text format : String) (hpq : P p q) :
    Agree P Eq (readFinish text format p) (readFinish text format q) := by
  have hdate := (agree_readDate text format hpq).map fun a b hab => congrArg Finish.date hab
  unfold readFinish
  dsimp only
  split
  · split
    · exact .error .oversizedNumber
    · exact .ok rfl
  · split
    · exact agree_malformed _ (.some hpq)
    · split
      · exact agree_malformed _ (.some hpq)
      · exact hdate

theorem agree_readStart (text format : String) (known : List String) (hpq : P p q) :
    Agree P Eq (readStart text format known p) (readStart text format known q) := by
  have hdate := (agree_readDate text format hpq).map fun a b hab => congrArg Start.date hab
  unfold readStart
  dsimp only
  split
  · split
    · exact hdate
    · split
      · exact agree_malformed _ (.some hpq)
      · split
        · exact agree_malformed _ (.some hpq)
        · exact .ok rfl
  · exact hdate

/-! ### Tasks -/

theorem agree_takeStatus (parts : List String) (hpq : P p q) :
    Agree P Eq (takeStatus p parts) (takeStatus q parts) := by
  unfold takeStatus
  split
  · exact .ok rfl
  · split
    · exact .ok rfl
    · split
      · exact agree_malformed _ (.some hpq)
      · exact .ok rfl

theorem agree_readTask (name details format : String) (known : List String) (p q : Position)
    (hrs : P r s) :
    Agree P (fun t u => t.unplaced = u.unplaced) (readTask name details format known p r)
      (readTask name details format known q s) := by
  unfold readTask
  refine (agree_takeStatus _ hrs).bind ?_
  rintro ⟨status, parts⟩ _ rfl
  dsimp only
  split
  · exact (agree_readFinish _ _ hrs).bind fun finish _ hfinish => .ok (by rw [hfinish]; rfl)
  · refine (agree_readStart _ _ _ hrs).bind fun start _ hstart => ?_
    exact (agree_readFinish _ _ hrs).bind fun finish _ hfinish => .ok (by rw [hstart, hfinish]; rfl)
  · split
    · exact agree_malformed _ (.some hrs)
    · refine (agree_readStart _ _ _ hrs).bind fun start _ hstart => ?_
      refine (agree_readFinish _ _ hrs).bind fun finish _ hfinish => ?_
      exact .ok (by rw [hstart, hfinish]; rfl)
  · exact agree_malformed _ (.some hrs)

/-! ### The chart -/

theorem alike_directiveLine (hgh : g.Same h)
    (hpre : ∀ n c, pre n c → c.peek.kind.Inner) :
    AlikeWhen P pre Same (directiveLine g) (directiveLine h) := by
  refine (alike_advance_same hpre).bind fun t u htu => ?_
  rw [← htu.text, ← hgh.config_eq]
  refine alike_restOfStatement.bind fun value _ hvalue => hvalue ▸ ?_
  exact AlikeWhen.ite (fun _ => alike_fail) fun _ => .pure (hgh.setConfig _)

theorem alike_sectionLine (hgh : g.Same h) :
    AlikeWhen P pre Same (sectionLine g) (sectionLine h) := by
  refine alike_advance.bind fun _ _ _ => ?_
  refine alike_restOfStatement.bind fun name _ hname => hname ▸ ?_
  exact AlikeWhen.ite (fun _ => alike_fail) fun _ => .pure (hgh.addSection _)

theorem alike_taskLine (hgh : g.Same h) :
    AlikeWhen P pre Same (taskLine g) (taskLine h) := by
  refine AlikeWhen.peek_bind fun t u htu => ?_
  refine (alike_rawUntil _).bind fun name _ hname => hname ▸ ?_
  refine AlikeWhen.ite (fun _ => alike_fail) fun _ => ?_
  refine (alike_expect (by decide)).bind fun _ _ _ => ?_
  refine (alike_expect (by decide)).bind fun x y hxy => ?_
  rw [← hxy.text, ← hgh.config_eq, ← hgh.taskIds_eq, ← hgh.isEmpty_eq]
  refine AlikeWhen.ite (fun _ => alike_failAt rfl (.some htu.start)) fun _ => ?_
  have htask := agree_readTask name x.text g.config.dateFormat g.taskIds t.start u.start hxy.start
  exact (alike_lift htask).bind fun _ _ htask => .pure (hgh.addTask htask)

/-! ### The diagram -/

theorem statement_newline (g : Gantt) (past : List Token) (u : Token) (us : List Token)
    (final : Token) (hu : u.kind = .newline) :
    statement g ⟨past, u :: us, final⟩ = .ok (g, ⟨u :: past, us, final⟩) := by
  simp [statement, bind_apply, peek_apply, ahead_apply, accept_cons, Except.bind, hu, pure_apply]

/-- The keyword at the start of a statement `t`, if there is one, is the same in alike rows. -/
theorem keyword_eq {t u second second' : Token} (htu : t.Alike P u)
    (hsecond : second.Facing P second') :
    (if (t.kind = .identifier && second.kind != .colon) = true then Text.lower t.text else "") =
      if (u.kind = .identifier && second'.kind != .colon) = true then Text.lower u.text
      else "" := by
  have hcolon := hsecond.kind_eq (· != .colon) rfl
  by_cases ht : t.kind = .identifier
  · have hne : t.kind ≠ .newline := by simp [ht]
    rw [← htu.kind, htu.text hne, hcolon]
  · simp [ht, ← htu.kind]

/-- Only an identifier is the keyword of a directive. -/
theorem kind_of_keyword {t second : Token} {c : Config} (h : (c.set? (if (t.kind = .identifier &&
    second.kind != .colon) = true then Text.lower t.text else "") "").isSome = true) :
    t.kind = .identifier := by
  by_cases ht : t.kind = .identifier
  · exact ht
  · simp [ht, Config.set?] at h

/-- Alike lines are alike with what ends them, so each kind of line is compared without its end. -/
theorem alike_ended {x y : Reading Gantt} (hxy : AlikeWhen P pre Same x y) :
    AlikeWhen P pre Same (do let g ← x; endStatement; return g)
      (do let g ← y; endStatement; return g) :=
  hxy.bind fun _ _ hgh => alike_endStatement.bind fun _ _ _ => .pure hgh

theorem alike_statement (hgh : g.Same h) :
    AlikeWhen P (fun _ c => c.rest ≠ []) Same (statement g) (statement h) := by
  refine AlikeWhen.peek_bind_of_cons (fun _ _ hc => hc) fun t u htu => ?_
  refine AlikeWhen.ahead_bind fun second second' hsecond => ?_
  have hword := keyword_eq htu hsecond
  dsimp only
  rw [← hword]
  refine AlikeWhen.accept_bind_of_cons (fun _ _ hc => hc.1.1) (fun _ _ _ _ => .pure hgh) ?_
  simp only [Option.isSome_none, Bool.false_eq_true, if_false, ← hgh.config_eq]
  refine AlikeWhen.ite (fun hset => alike_ended (alike_directiveLine hgh fun n c hc => ?_)) fun _ =>
    AlikeWhen.ite (fun _ => alike_ended (alike_sectionLine hgh)) fun _ =>
      alike_ended (alike_taskLine hgh)
  rw [hc.1.1.2, kind_of_keyword hset]
  decide

/-- Reading a gantt chart does not depend on places: rows that are alike give charts that are the
`Same`. -/
theorem alike_read : Alike P Same read read := by
  refine alike_skipNewlines_bind ?_
  refine alike_expectWord.bind fun _ _ _ => ?_
  refine alike_endStatement.bind fun _ _ _ => ?_
  exact alike_untilEnd (fun _ _ => alike_statement) statement_newline rfl

end DiagramText.Gantt

/-! ## Failures -/

namespace DiagramText.Gantt

open Reading

variable {ts : List Token} {g : Gantt}

/-- A date format that names no field twice, or that a directive among the tokens `ts` sets. -/
def DatesFrom (ts : List Token) (format : String) : Prop :=
  (DateFormat.ofText format).isSimple = true ∨ Token.SetsDateFormat ts format

/-! ### Tasks -/

/-- The digits of a duration `cs` are all characters but the last, which is its unit. -/
theorem durationParts?_eq_some {cs digits : List Char} {unit : DurationUnit}
    (h : durationParts? cs = some (digits, unit)) :
    digits = cs.dropLast ∧ ∀ c ∈ digits, Text.isDecimal c = true := by
  obtain ⟨last, -, h⟩ := Option.bind_eq_some_iff.1 h
  obtain ⟨unit', -, h⟩ := Option.bind_eq_some_iff.1 h
  dsimp only at h
  split at h
  · next hdigits =>
    cases h
    rw [Bool.and_eq_true, List.all_eq_true] at hdigits
    exact ⟨rfl, hdigits.2⟩
  · cases h

/-- What is left of the `parts` of a task, once the status is taken, are some of them. -/
theorem meets_takeStatus (p : Position) (parts : List String) :
    Except.Meets (Failure.IsDueTo .gantt ts) (fun r => ∀ q ∈ r.2, q ∈ parts)
      (takeStatus p parts) := by
  unfold takeStatus
  split
  · exact fun q hq => hq
  · split
    · exact fun q hq => hq
    · split
      · trivial
      · exact fun q hq => List.mem_cons_of_mem _ hq

section Tasks

variable {format : String} (hformat : DatesFrom ts format)

include hformat

theorem meets_readDate (text : String) (p : Option Position) :
    Except.Meets (Failure.IsDueTo .gantt ts) (fun _ => True) (readDate text format p) := by
  simp only [readDate]
  split
  · next hsimple =>
    rw [Bool.not_eq_true'] at hsimple
    rcases hformat with h | h
    · rw [hsimple] at h
      cases h
    · exact ⟨rfl, format, h, hsimple⟩
  · split
    · trivial
    · trivial

theorem meets_readFinish {text : String} (p : Position)
    (htext : Text.digitCount text.toList ≤ Token.digitCount ts) :
    Except.Meets (Failure.IsDueTo .gantt ts) (fun _ => True) (readFinish text format p) := by
  simp only [readFinish]
  split
  · next digits unit hparts =>
    split
    · next hmax =>
      obtain ⟨hdigits, hall⟩ := durationParts?_eq_some hparts
      have hcount := Text.digitCount_le_of_sublist (List.dropLast_sublist text.toList)
      rw [← hdigits, Text.digitCount_of_all hall] at hcount
      show Text.maxDigits < Token.digitCount ts
      omega
    · trivial
  · split
    · trivial
    · split
      · trivial
      · exact (meets_readDate hformat text _).map

theorem meets_readStart (text : String) (known : List String) (p : Position) :
    Except.Meets (Failure.IsDueTo .gantt ts) (fun _ => True) (readStart text format known p) := by
  simp only [readStart]
  split
  · split
    · exact (meets_readDate hformat text _).map
    · split
      · trivial
      · split <;> trivial
  · exact (meets_readDate hformat text _).map

/-- The task `name` is read if its dates are, and if its parts have few digits. What else is wrong
with it is its text to blame for. -/
theorem meets_readTask {details : String} (name : String) (known : List String) (p q : Position)
    (hdetails : Text.digitCount details.toList ≤ Token.digitCount ts) :
    Except.Meets (Failure.IsDueTo .gantt ts) (fun _ => True)
      (readTask name details format known p q) := by
  -- Each part is cut out of the text, so no part has more digits.
  have hparts : ∀ part ∈ partsOf details, Text.digitCount part.toList ≤ Token.digitCount ts := by
    intro part hpart
    obtain ⟨f, hf, rfl⟩ := List.mem_map.1 hpart
    rw [String.toList_ofList]
    exact Nat.le_trans (Text.digitCount_le_of_sublist
      ((Text.trim_sublist f).trans (Text.sublist_of_mem_fields hf))) hdetails
  refine (meets_takeStatus q _).bind fun (status, parts) hsome => ?_
  simp only
  split
  · next finish =>
    have hfinish := hparts finish (hsome _ (by simp))
    exact (meets_readFinish hformat q hfinish).bind fun _ _ => trivial
  · next start finish =>
    have hfinish := hparts finish (hsome _ (by simp))
    exact (meets_readStart hformat start known q).bind fun _ _ =>
      (meets_readFinish hformat q hfinish).bind fun _ _ => trivial
  · next id start finish =>
    have hfinish := hparts finish (hsome _ (by simp))
    split
    · trivial
    · exact (meets_readStart hformat start known q).bind fun _ _ =>
        (meets_readFinish hformat q hfinish).bind fun _ _ => trivial
  · trivial

end Tasks

/-! ### The chart -/

/-- A `directive` sets the date format to its value, or leaves it as it is, as all other directives
do. -/
theorem dateFormat_set? {c c' : Config} {directive value : String}
    (h : c.set? directive value = some c') :
    c'.dateFormat = c.dateFormat ∨ directive = "dateformat" ∧ c'.dateFormat = value := by
  unfold Config.set? at h
  split at h <;> cases h
  · exact .inl rfl
  · exact .inr ⟨rfl, rfl⟩
  · exact .inl rfl
  · exact .inl rfl
  · exact .inl rfl

theorem dateFormat_addTask? (g : Gantt) (t : Task) :
    ((g.addTask? t).getD g).config = g.config := by
  unfold addTask?
  cases g.sections.getLast? <;> rfl

/-- Behind a word `t` stands the text of its statement, which is a date format if the word says
so. -/
theorem sound_restOfStatement (t : Token) (n : Nat) :
    Sound .gantt ts (fun c => (t :: c.rest <:+ ts ∧ t.kind = .identifier) ∧ c.Below ts n)
      restOfStatement fun value c =>
        (Text.lower t.text = "dateformat" → Token.SetsDateFormat ts value) ∧ c.Below ts n := by
  constructor
  rintro c ⟨⟨hsuffix, hkind⟩, hc⟩
  refine ⟨fun hword => ⟨t, c.rest, hsuffix, ?_, ?_⟩, hc.dropWhile _⟩
  · rw [Token.isWord, hkind, hword]
    rfl
  · have hp : (fun u : Token => !u.kind.endsStatement && !([] : List TokenKind).contains u.kind) =
        fun u => !u.kind.endsStatement := funext fun u => Bool.and_true _
    simp only [Cursor.rawUntil, Cursor.span, hp]

/-- A directive that starts with an identifier leaves a format that comes from the tokens `ts`, if
the format before did. -/
theorem sound_directiveLine (hg : DatesFrom ts g.config.dateFormat) (n : Nat) :
    Sound .gantt ts (fun c => c.Facing ts n ∧ c.peek.kind = .identifier) (directiveLine g)
      fun g' c => DatesFrom ts g'.config.dateFormat ∧ c.Below ts n := by
  have hadvance : Sound .gantt ts (fun c => c.Facing ts n ∧ c.peek.kind = .identifier) advance
      fun t c => (t :: c.rest <:+ ts ∧ t.kind = .identifier) ∧ c.Below ts n := by
    constructor
    rintro ⟨past, rest, final⟩ ⟨⟨hc, hne⟩, hkind⟩
    cases rest with
    | nil => exact absurd rfl hne
    | cons t us => exact ⟨⟨hc.suffix, hkind⟩, hc.tail rfl _⟩
  refine hadvance.bind fun t => (sound_restOfStatement t n).bind fun value =>
    .ite (fun _ => .fail _) fun _ => .pure fun c hc => ⟨?_, hc.2⟩
  show DatesFrom ts ((g.config.set? (Text.lower t.text) value).getD g.config).dateFormat
  cases hset : g.config.set? (Text.lower t.text) value with
  | none => exact hg
  | some config =>
    rw [Option.getD_some]
    rcases dateFormat_set? hset with h | ⟨hword, h⟩
    · rw [h]
      exact hg
    · rw [h]
      exact .inr (hc.1 hword)

theorem moves_sectionLine (hg : DatesFrom ts g.config.dateFormat) :
    Moves .gantt ts (sectionLine g) fun g' => DatesFrom ts g'.config.dateFormat :=
  .bind moves_advance fun _ _ => .bind steady_restOfStatement fun _ _ =>
    .ite (fun _ => .fail _) fun _ => .pure hg

theorem takes_taskLine (hg : DatesFrom ts g.config.dateFormat) :
    Takes .gantt ts (taskLine g) fun g' => DatesFrom ts g'.config.dateFormat := by
  refine .look_bind fun first => .bind_right (steady_rawUntil _) fun name _ =>
    .ite (fun _ => .fail _) fun _ => .bind (takes_expect (by decide) _) fun _ _ =>
      .bind (takes_expect (by decide) _).steady fun text htext => .ite (fun _ => .failAt _ _)
        fun _ => .bind (.lift (meets_readTask hg _ _ _ _ (Token.digitCount_text_le htext)))
          fun t _ => .pure ?_
  rw [dateFormat_addTask?]
  exact hg

theorem moves_statement (hg : DatesFrom ts g.config.dateFormat) :
    Moves .gantt ts (statement g) fun g' => DatesFrom ts g'.config.dateFormat := by
  have hend : ∀ g : Gantt, DatesFrom ts g.config.dateFormat → Steady .gantt ts
      (do endStatement; return g) fun g' => DatesFrom ts g'.config.dateFormat := fun g hg =>
    .bind steady_endStatement fun _ _ => .pure hg
  intro n
  refine .look_bind fun token => .look_bind fun second =>
    .accept_bind (by decide) (fun _ hc => hc.1.1.1) (fun _ _ => .pure fun _ hc => ⟨hg, hc⟩)
      (.ite (fun h => absurd h (by decide)) fun _ => .ite (fun hset => ?_) fun _ =>
        .ite (fun _ => ?_) fun _ => ?_)
  · -- only an identifier is read as the word of a directive
    have hkind : token.kind = .identifier := by
      by_cases h : (token.kind = .identifier && second.kind != .colon) = true
      · rw [Bool.and_eq_true, decide_eq_true_eq] at h
        exact h.1
      · rw [if_neg h] at hset
        cases hset
    refine ((sound_directiveLine hg n).imp ?_ fun _ _ => id).bind_steady hend
    rintro c ⟨⟨⟨hc, hpeek⟩, -⟩, -⟩
    exact ⟨hc, (congrArg Token.kind hpeek).trans hkind⟩
  · exact ((moves_sectionLine hg n).imp (fun _ hc => hc.1.1.1) fun _ _ => id).bind_steady hend
  · exact (((takes_taskLine hg).moves n).imp (fun _ hc => hc.1.1.1) fun _ _ => id).bind_steady hend

/-- A gantt chart is read, or its text is to blame; reading never stalls. -/
theorem steady_read : Steady .gantt ts read fun _ => True := by
  have hdefault : DatesFrom ts ({} : Gantt).config.dateFormat := .inl (by cbv)
  have huntil : Steady .gantt ts (untilEnd statement {}) fun g =>
    DatesFrom ts g.config.dateFormat :=
    .untilEnd (fun _ hg => moves_statement hg) hdefault
  exact .bind steady_skipNewlines fun _ _ => .bind (takes_expectWord _).steady fun _ _ =>
    .bind steady_endStatement fun _ _ => huntil.imp fun _ _ => trivial

end DiagramText.Gantt
