import DiagramText.Proofs.Gantt.Survival
import DiagramText.Proofs.Reading.Ensures

/-!
# What reading gantt charts makes sure of

A statement is told by its first word, unless a colon follows it: then it is the name of a task. So
what stands behind a keyword does not start with a colon, and the name of a task is no keyword with
something behind it.

* `Gantt.Readable`: the texts of a chart can stand in a document.
* `Gantt.statement_cons`: a statement is the line that its first word tells.
* `Gantt.ensures_read_readable`: a chart that was read is readable.
-/

namespace DiagramText.Gantt

open Text Reading

/-! ### Charts that can be read -/

/-- A `text` that can be written behind a keyword: what starts with a colon there would be the text
of a task. -/
structure IsValue (text : String) : Prop where
  ne_empty : text ≠ ""
  isSpan : Token.IsSpan .gantt (fun k => !k.endsStatement && !([] : List TokenKind).contains k)
    text.toList
  head : text.toList.head? ≠ some ':'

/-- A word that starts a line which is no task: one of the directives, or `section`. -/
def IsKeyword (word : String) : Prop :=
  (({} : Config).set? word "").isSome = true ∨ word = "section"

/-- A text that can be written for the `name` of a task, which is no keyword with something behind
it. -/
structure IsName (name : String) : Prop where
  ne_empty : name ≠ ""
  isSpan : Token.IsSpan .gantt (fun k => !k.endsStatement && ! [.colon].contains k) name.toList
  keyword : ∀ t u us, Token.ofLine .gantt [] name.toList = t :: u :: us → t.kind = .identifier →
    ¬IsKeyword (lower t.text)

/-- The texts of the directives of a chart `c`, without those that were not set. -/
def Config.values (c : Config) : List String :=
  c.title.toList ++ [c.dateFormat] ++ c.axisFormat.toList ++ c.excludes.toList ++
    c.todayMarker.toList

/-- A chart `g` of which the texts can stand in a document. What its tasks are is left open. -/
structure Readable (g : Gantt) : Prop where
  values : ∀ v ∈ g.config.values, IsValue v
  sections : ∀ s ∈ g.sections, IsValue s.name
  names : ∀ t ∈ g.tasks, IsName t.name

variable {g e : Gantt} {t u : Token} {ts us past : List Token} {final : Token}

theorem isSome_set? (c c' : Config) (word v v' : String) :
    (c.set? word v).isSome = (c'.set? word v').isSome := by
  unfold Config.set?
  split <;> rfl

theorem mem_values_of_set? {c c' : Config} {word v : String} (h : c.set? word v = some c') :
    ∀ x ∈ c'.values, x = v ∨ x ∈ c.values := by
  unfold Config.set? at h
  intro x hx
  split at h <;> cases h <;>
    simp only [Config.values, List.mem_append, Option.mem_toList, List.mem_singleton,
      Option.some.injEq, @eq_comm _ v x] at hx ⊢ <;> tauto

theorem isValue_default : IsValue "YYYY-MM-DD" := by
  have hkinds : ∀ k ∈ [.unknown, .string, .colon, .text] ++ Rule.lineOriented.map Prod.fst,
      (!k.endsStatement && !([] : List TokenKind).contains k) = true := by decide
  have hplain : Plain "YYYY-MM-DD".toList := by decide
  have hcomment : ¬['%', '%'] <:+: "YYYY-MM-DD".toList := by decide
  refine ⟨by decide, ?_, by decide⟩
  exact Token.isSpan_of_kinds Dialect.regular_gantt hkinds hplain ⟨by decide, by decide⟩ hcomment

theorem readable_empty : Readable {} where
  values := List.forall_mem_singleton.2 isValue_default
  sections := List.forall_mem_nil _
  names := List.forall_mem_nil _

theorem Readable.addTask (h : g.Readable) {t : Task} (ht : IsName t.name) :
    ((g.addTask? t).getD g).Readable := by
  cases hadd : g.addTask? t with
  | none => exact h
  | some e =>
    have htasks := tasks_addTask? hadd
    obtain ⟨s, hs, rfl⟩ := Option.map_eq_some_iff.1 hadd
    have hsections := (List.dropLast_append_getLast? s hs).symm
    refine ⟨h.values, ?_, ?_⟩
    · have hall := h.sections
      rw [hsections, List.forall_mem_append, List.forall_mem_singleton] at hall
      exact List.forall_mem_append.2 ⟨hall.1, List.forall_mem_singleton.2 hall.2⟩
    · show ∀ u ∈ tasks _, IsName u.name
      rw [Option.getD_some, htasks]
      exact List.forall_mem_append.2 ⟨h.names, List.forall_mem_singleton.2 ht⟩

/-! ### Reading a statement -/

/-- The word that a statement `t` starts with, in lower case, unless a colon behind it makes it the
name of a task. -/
def leadingWord (t : Token) (us : List Token) : String :=
  if t.kind = .identifier && us.head?.all (·.kind != .colon) then lower t.text else ""

/-- Reads the line that starts with a `word`: a directive, a section or a task. -/
def lineOf (g : Gantt) (word : String) : Reading Gantt :=
  if (g.config.set? word "").isSome then directiveLine g
  else if word = "section" then sectionLine g
  else taskLine g

theorem statement_cons (g : Gantt) (past us : List Token) (ht : t.kind ≠ .newline)
    (hfinal : final.kind = .endOfInput) :
    statement g ⟨past, t :: us, final⟩ =
      (do let e ← lineOf g (leadingWord t us); endStatement; return e)
        ⟨past, t :: us, final⟩ := by
  -- At the end of the row the final token is seen, which is no colon either.
  have hsecond : ((⟨t :: past, us, final⟩ : Cursor).peek.kind != .colon) =
      us.head?.all (·.kind != .colon) := by
    cases us with
    | nil => simp [hfinal]
    | cons u us => rfl
  have hline : ∀ word, (do let e ← lineOf g word; endStatement; return e) =
      (if (g.config.set? word "").isSome then (do let e ← directiveLine g; endStatement; return e)
        else if word = "section" then (do let e ← sectionLine g; endStatement; return e)
        else (do let e ← taskLine g; endStatement; return e) : Reading Gantt) := by
    intro word
    unfold lineOf
    split
    · rfl
    split
    · rfl
    · rfl
  rw [hline]
  simp only [statement, bind_apply, peek_apply, ahead_apply, accept_cons, Except.bind, ht,
    if_false, Option.isSome_none, Bool.false_eq_true, Cursor.peek_cons, Cursor.ahead_one_cons,
    hsecond]
  rfl

/-! ### What reading makes sure of -/

/-- The cursor is before a row of a source. -/
abbrev Scanned : Cursor → Prop := Cursor.Scanned .gantt

theorem ensures_advance_cons (ht : t.kind ≠ .colon) :
    Ensures (fun c => c.rest = t :: us ∧ Scanned c) advance fun _ c => c.rest = us ∧ Scanned c := by
  rintro ⟨past, rest, final⟩ u c' ⟨rfl, hrest, hfinal⟩ hx
  cases hx
  exact ⟨rfl, hrest.tail Dialect.regular_gantt ht, hfinal⟩

/-- What stands behind a keyword is a value, if no colon comes first. An empty one is refused. -/
theorem ensures_value (hus : ∀ u ∈ us.head?, u.kind ≠ .colon) :
    Ensures (fun c => c.rest = us ∧ Scanned c) restOfStatement
      fun v c => (v ≠ "" → IsValue v) ∧ Scanned c := by
  refine (ensures_rawUntil_ofLine Dialect.regular_gantt (by decide) us).imp_right ?_
  rintro v c ⟨⟨hspan, gap, htake⟩, hc⟩
  refine ⟨fun hne => ⟨hne, hspan, fun hhead => ?_⟩, hc⟩
  obtain ⟨cs, hcs⟩ := List.head?_eq_some_iff.1 hhead
  rw [hcs, Token.ofLine_cons_colon Dialect.regular_gantt] at htake
  obtain ⟨rest, hrest⟩ := List.takeWhile_prefix (l := us) fun t : Token =>
    !t.kind.endsStatement && !([] : List TokenKind).contains t.kind
  rw [htake] at hrest
  exact hus (Token.plain .colon gap [':']) (by rw [← hrest]; rfl) rfl

/-- What stands before a colon is a name, if the line does not start with a keyword. An empty one is
refused. -/
theorem ensures_name (hword : ¬IsKeyword (leadingWord t us)) :
    Ensures (fun c => c.rest = t :: us ∧ Scanned c) (rawUntil [.colon])
      fun name c => (name ≠ "" → IsName name) ∧ Scanned c := by
  refine (ensures_rawUntil_ofLine Dialect.regular_gantt (by decide) (t :: us)).imp_right ?_
  rintro name c ⟨⟨hspan, gap, htake⟩, hc⟩
  refine ⟨fun hne => ⟨hne, hspan, fun t' u' us' hrow hkind hkeyword => hword ?_⟩, hc⟩
  have hgap := Token.ofLine_gap .gantt gap [] name.toList
  rw [List.append_nil, hrow, List.modifyHead_cons, ← htake] at hgap
  obtain ⟨rest, hrest⟩ := List.takeWhile_prefix (l := t :: us) fun t : Token =>
    !t.kind.endsStatement && ! [TokenKind.colon].contains t.kind
  have hu' : u'.kind ≠ .colon := by
    have hpass := (hspan.kinds [] u' (by rw [hrow]; simp)).1
    intro hcolon
    rw [hcolon] at hpass
    cases hpass
  rw [hgap, List.cons_append, List.cons_append, List.cons.injEq] at hrest
  obtain ⟨rfl, rfl⟩ := hrest
  rw [leadingWord, if_pos (by simp [hkind, hu'])]
  exact hkeyword

theorem ensures_directiveLine_readable (hg : g.Readable) (ht : t.kind ≠ .colon)
    (hus : ∀ u ∈ us.head?, u.kind ≠ .colon) :
    Ensures (fun c => c.rest = t :: us ∧ Scanned c) (directiveLine g)
      fun e c => e.Readable ∧ Scanned c := by
  refine .bind (ensures_advance_cons ht) fun token => ?_
  refine .bind_and (ensures_value hus) fun v hv => .ite (fun _ => .fail _) fun hne => ?_
  refine .pure fun c hc => ⟨?_, hc⟩
  have hv : IsValue v := hv (by simpa using hne)
  cases hset : g.config.set? (lower token.text) v with
  | none => exact hg
  | some config =>
    refine ⟨fun x hx => ?_, hg.sections, hg.names⟩
    rcases mem_values_of_set? hset x hx with rfl | hx
    · exact hv
    · exact hg.values x hx

theorem ensures_sectionLine_readable (hg : g.Readable) (ht : t.kind ≠ .colon)
    (hus : ∀ u ∈ us.head?, u.kind ≠ .colon) :
    Ensures (fun c => c.rest = t :: us ∧ Scanned c) (sectionLine g)
      fun e c => e.Readable ∧ Scanned c := by
  refine .bind (ensures_advance_cons ht) fun _ => ?_
  refine .bind_and (ensures_value hus) fun v hv => .ite (fun _ => .fail _) fun hne => ?_
  refine .pure fun c hc => ⟨⟨hg.values, ?_, ?_⟩, hc⟩
  · exact List.forall_mem_append.2
      ⟨hg.sections, List.forall_mem_singleton.2 (hv (by simpa using hne))⟩
  · simpa [tasks] using hg.names

theorem ensures_taskLine_readable (hg : g.Readable) (hword : ¬IsKeyword (leadingWord t us)) :
    Ensures (fun c => c.rest = t :: us ∧ Scanned c) (taskLine g)
      fun e c => e.Readable ∧ Scanned c := by
  refine .look_bind fun first => ?_
  refine .bind_and (ensures_name hword) fun name hname => .ite (fun _ => .fail _) fun hne => ?_
  refine .bind (ensures_expect_colon Dialect.regular_gantt _) fun _ => ?_
  refine .bind_and (ensures_expect_text Dialect.regular_gantt _) fun text _ => ?_
  refine .ite (fun _ => .failAt _ _) fun _ => ?_
  refine .bind_and (ensures_lift_eq _) fun task htask => .pure fun c hc => ⟨hg.addTask ?_, hc⟩
  obtain ⟨-, -, -, hsame, -⟩ := readTask_eq_ok_iff.1 htask
  rw [hsame]
  exact hname (by simpa using hne)

/-- A statement adds to a chart `g` what can stand in a document, and leaves the cursor before a row
of the source. -/
theorem ensures_statement_readable (hg : g.Readable) :
    Ensures (fun c => Scanned c ∧ c.rest ≠ []) (statement g) fun e c => e.Readable ∧ Scanned c := by
  have hend : ∀ e : Gantt, Ensures (fun c => e.Readable ∧ Scanned c)
      (do endStatement; return e) fun e c => e.Readable ∧ Scanned c := fun e =>
    .of_and fun he => .bind (ensures_endStatement Dialect.regular_gantt) fun _ =>
      .pure fun _ hc => ⟨he, hc⟩
  rintro ⟨past, rest, final⟩ e c' ⟨⟨hrest, hfinal⟩, hne⟩ hx
  obtain ⟨t, us, rfl⟩ := List.exists_cons_of_ne_nil hne
  by_cases ht : t.kind = .newline
  · rw [statement_newline g past t us final ht] at hx
    cases hx
    exact ⟨hg, hrest.tail Dialect.regular_gantt (by rw [ht]; decide), hfinal⟩
  rw [statement_cons g past us ht hfinal] at hx
  -- If the line starts with a word that counts, then no colon stands right behind it.
  have hkeyword : leadingWord t us ≠ "" →
      t.kind ≠ .colon ∧ ∀ u ∈ us.head?, u.kind ≠ .colon := by
    intro hword
    unfold leadingWord at hword
    split at hword
    · next hkind =>
      rw [Bool.and_eq_true, decide_eq_true_eq] at hkind
      refine ⟨by rw [hkind.1]; decide, fun u hu => ?_⟩
      rw [Option.mem_def.1 hu] at hkind
      simpa using hkind.2
    · exact absurd rfl hword
  have hline : Ensures (fun c => c.rest = t :: us ∧ Scanned c) (lineOf g (leadingWord t us))
      fun e c => e.Readable ∧ Scanned c := by
    unfold lineOf
    refine .ite (fun hset => ?_) fun hset => .ite (fun hsection => ?_) fun hsection => ?_
    · have hne : leadingWord t us ≠ "" := by
        intro hnil
        rw [hnil] at hset
        cases hset
      exact ensures_directiveLine_readable hg (hkeyword hne).1 (hkeyword hne).2
    · have hne : leadingWord t us ≠ "" := by
        rw [hsection]
        decide
      exact ensures_sectionLine_readable hg (hkeyword hne).1 (hkeyword hne).2
    · refine ensures_taskLine_readable hg ?_
      rintro (hkeyword | hkeyword)
      · exact hset (by rwa [isSome_set? g.config {} _ "" ""])
      · exact hsection hkeyword
  exact (hline.bind hend) _ _ _ ⟨rfl, hrest, hfinal⟩ hx

/-- A chart that was read from a source is `Readable`. -/
theorem ensures_read_readable : Ensures Scanned read fun g _ => g.Readable := by
  refine .bind (ensures_skipNewlines Dialect.regular_gantt) fun _ => ?_
  refine .bind (ensures_expectWord Dialect.regular_gantt _) fun _ => ?_
  refine .bind (ensures_endStatement Dialect.regular_gantt) fun _ => ?_
  refine (Ensures.untilEnd_of_ne_nil (I := fun g c => Readable g ∧ Scanned c) (fun g => ?_) {}).imp
    (fun c hc => ⟨readable_empty, hc⟩) fun _ _ h => h.1
  intro c e c' ⟨⟨hg, hc⟩, hne⟩ hx
  exact ensures_statement_readable hg c e c' ⟨hc, hne⟩ hx

end DiagramText.Gantt
