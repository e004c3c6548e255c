import DiagramText.CommandLine.Report
import DiagramText.Proofs.Program.Failures

/-!
# Checking documents

A check takes the documents one after the other. It ends early at a document that is neither read
nor malformed, itself or in its canonical form. Otherwise it tells how many documents stay the same,
and in any case it succeeds exactly if all of them do. The limit on the depth of a recursive
comparison is left out of `Program.same`, so all of this is said of documents within that limit.

* `Report.check_append`: documents that are read or malformed are all taken.
* `Report.exists_of_verdict_eq_unread`: what it takes for a check to end early.
* `Report.check_outcome`: the exit code and the output of a check, for any documents.
-/

namespace DiagramText.Report

variable {o : Options}

/-- The log of checking the document `s`: the log of its verdict, as far as the options show it, and
the lines that report the verdict. -/
def logOf (o : Options) (s : Source) : List String :=
  shown o (verdictLog s.text) ++ (verdict s.text).lines o s.name

/-- Documents that are read or malformed are all taken, and each gets its verdict. So a check of
`before ++ rest` goes on with `rest`, with the logs and the verdicts of `before` behind those it
had. -/
theorem check_append {before : List Source} (h : ∀ s ∈ before, verdict s.text ≠ .unread)
    (rest : List Source) (log : List String) (verdicts : List Verdict) :
    check o log verdicts (before ++ rest) =
      check o (log ++ before.flatMap (logOf o)) (verdicts ++ before.map fun s => verdict s.text)
        rest := by
  induction before generalizing log verdicts with
  | nil => simp
  | cons s before ih =>
    obtain ⟨hs, hbefore⟩ := List.forall_mem_cons.1 h
    rw [List.cons_append, check, if_neg hs, ih hbefore]
    simp [logOf]

theorem check_of_forall {sources : List Source} (h : ∀ s ∈ sources, verdict s.text ≠ .unread) :
    check o [] [] sources =
      summary (sources.flatMap (logOf o)) (sources.map fun s => verdict s.text) := by
  have happend := check_append (o := o) h [] [] []
  rwa [List.append_nil, List.nil_append, List.nil_append] at happend

/-- The first document that is neither read nor malformed ends the check: whatever stands behind it,
the outcome is `stopped` with the log up to there. -/
theorem check_of_exists {sources : List Source} (h : ∃ s ∈ sources, verdict s.text = .unread) :
    ∃ log, check o [] [] sources = stopped log := by
  obtain ⟨s, hs, hunread⟩ := h
  cases hfind : sources.find? fun s => verdict s.text = .unread with
  | none =>
    rw [List.find?_eq_none] at hfind
    exact absurd (decide_eq_true hunread) (hfind s hs)
  | some first =>
    obtain ⟨hfirst, before, after, rfl, hbefore⟩ := List.find?_eq_some_iff_append.1 hfind
    have hread : ∀ s ∈ before, verdict s.text ≠ .unread := fun s hs => by
      simpa using hbefore s hs
    rw [check_append hread, check, if_pos (of_decide_eq_true hfirst)]
    exact ⟨_, rfl⟩

/-- A check ends early only at a document that sets a date format which names a field twice, or that
has too many digits, itself or in its canonical form: `src` is the text or what is written for the
program `p` that was read from it. -/
theorem exists_of_verdict_eq_unread {text : String} (h : verdict text = .unread) : ∃ src e,
    (src = text ∨ ∃ p, Program.read text = .ok p ∧ src = p.write {}) ∧
      Program.read src = .error e ∧ (e = .repeatedDateField ∨ e = .oversizedNumber) := by
  -- What is malformed is a verdict of its own, and no reader stalls.
  have hcause : ∀ {src : String} {e : Failure}, Program.read src = .error e →
      (∀ m, e ≠ .malformed m) → e = .repeatedDateField ∨ e = .oversizedNumber := by
    intro src e he hne
    have hdue := Program.isDueTo_of_read he
    cases e with
    | malformed m => exact absurd rfl (hne m)
    | repeatedDateField => exact .inl rfl
    | oversizedNumber => exact .inr rfl
    | stalled => exact hdue.elim
  unfold verdict at h
  cases hfirst : Program.read text with
  | error e =>
    rw [hfirst] at h
    refine ⟨text, e, .inl rfl, hfirst, hcause hfirst fun m hm => ?_⟩
    rw [hm] at h
    cases h
  | ok p =>
    cases hsecond : Program.read (p.write {}) with
    | error e =>
      -- The canonical form was not read.
      refine ⟨_, e, .inr ⟨p, rfl, rfl⟩, hsecond, hcause hsecond fun m hm => ?_⟩
      simp [hfirst, hsecond, hm, bind, Except.bind] at h
    | ok q =>
      cases hsame : p.same q <;>
        simp [hfirst, hsecond, hsame, bind, Except.bind, pure, Except.pure] at h

/-- The exit code of a check is `0` if all documents stay the same, and otherwise `1`, also where
the check ends early. -/
theorem exitCode_check (sources : List Source) :
    (check o [] [] sources).exitCode = if ∀ s ∈ sources, verdict s.text = .same then 0 else 1 := by
  by_cases h : ∃ s ∈ sources, verdict s.text = .unread
  · obtain ⟨log, hlog⟩ := check_of_exists (o := o) h
    obtain ⟨s, hs, hunread⟩ := h
    rw [hlog, if_neg fun hall => ?_]
    · rfl
    · have hsame := hall s hs
      rw [hunread] at hsame
      cases hsame
  · have hread : ∀ s ∈ sources, verdict s.text ≠ .unread := fun s hs hunread => h ⟨s, hs, hunread⟩
    rw [check_of_forall hread, summary]
    refine if_congr ?_ rfl rfl
    rw [List.count_eq_length, List.forall_mem_map]
    exact forall₂_congr fun _ _ => eq_comm

/-- Unless a check ends early, its output tells how many of the documents in `sources` stay the
same. A check that ends early prints nothing there. -/
theorem stdout_check (sources : List Source) :
    (check o [] [] sources).stdout =
      if ∃ s ∈ sources, verdict s.text = .unread then ""
      else
        let clean := sources.countP fun s => verdict s.text = .same
        unlines [s!"{clean}/{sources.length} documents round-trip cleanly"] := by
  by_cases h : ∃ s ∈ sources, verdict s.text = .unread
  · obtain ⟨log, hlog⟩ := check_of_exists (o := o) h
    rw [hlog, if_pos h]
    rfl
  · have hread : ∀ s ∈ sources, verdict s.text ≠ .unread := fun s hs hunread => h ⟨s, hs, hunread⟩
    rw [check_of_forall hread, if_neg h, summary]
    have hcount : (sources.map fun s => verdict s.text).count .same =
        sources.countP fun s => verdict s.text = .same := by
      rw [List.count, List.countP_map]
      rfl
    simp only [hcount, List.length_map]

/-- Reading fails only for a reason in the text, and a `verdict` is `unread` only for a text, or the
canonical form of one, that names a date field twice or has a number with too many digits. So a
check ends early only there. Its exit code tells whether all documents stay the same, and its output
how many do.

This holds up to the recursion limit of the comparison, which `Program.same` leaves out: a document
with blocks nested so deeply that comparing the two trees exceeds that limit ends a check early as
well. -/
theorem check_outcome (o : Options) (sources : List Source) :
    (∀ text e, Program.read text = .error e → e.IsDueToText text) ∧
    (∀ text, verdict text = .unread → ∃ src e,
      (src = text ∨ ∃ p, Program.read text = .ok p ∧ src = p.write {}) ∧
        Program.read src = .error e ∧ (e = .repeatedDateField ∨ e = .oversizedNumber)) ∧
    (check o [] [] sources).exitCode = (if ∀ s ∈ sources, verdict s.text = .same then 0 else 1) ∧
    (check o [] [] sources).stdout =
      if ∃ s ∈ sources, verdict s.text = .unread then ""
      else
        let clean := sources.countP fun s => verdict s.text = .same
        unlines [s!"{clean}/{sources.length} documents round-trip cleanly"] :=
  ⟨fun _ _ => Program.isDueTo_of_read, fun _ => exists_of_verdict_eq_unread,
    exitCode_check sources, stdout_check sources⟩

end DiagramText.Report
