import DiagramText.Proofs.Gantt.RoundTrip
import DiagramText.Proofs.Reading.Starts
import DiagramText.Proofs.Token.Content
import DiagramText.Proofs.Token.Tile

/-!
# Dates in a format that stays

Each date of a chart is read in the format that is in force at its line, but all of them are written
in the one that came last. If no `dateFormat` line stands behind a task line, these are the same
format. A date is then written with all literal characters of the format that it was read in. A
separator among them tells it from a status, a duration and a task to wait for, so it is read as a
date again; only a null character in the format stands in the way, since what is written ends before
it.

* `DateFormat.head_words_write`: a written date starts with the word `after` only if the text did
  that it was read from.
* `Gantt.FormatFirst`: no `dateFormat` line stands behind a task line.
* `Gantt.Task.ReadIn`: all dates of a task were read in one format.
* `Gantt.readIn_of_formatFirst`: so are those of a chart in which the format comes first, each in
  the format of the chart.
* `Gantt.readsBack_iff_of_formatFirst`: when such a chart reads back, if its format has a separator.
-/

namespace DiagramText

/-! ### Words in lower case -/

namespace Text

/-- An ASCII character `c` is made lower wherever it stands in a text. -/
theorem toLower_mem_lowerAfter {c : Char} (hc : c.toNat < 128) {cs : List Char} (h : c ∈ cs)
    (before : List Char) : c.toLower ∈ lowerAfter before cs := by
  induction cs generalizing before with
  | nil => cases h
  | cons d cs ih =>
    rw [lowerAfter, List.mem_append]
    rcases List.mem_cons.1 h with rfl | h
    · left
      rw [lowerBetween, if_pos hc]
      exact List.mem_singleton_self _
    · exact .inr (ih h _)

/-- If `ls` is the lower case of `cs` and has no letter that stands for another form of it, then
`cs` is ASCII, and is made lower character by character. -/
theorem of_lowerAfter {before cs ls : List Char} (h : lowerAfter before cs = ls)
    (hls : ∀ l ∈ ls, 0 < l.toNat ∧ l.toNat < 128 ∧ l ∉ ['i', 'k']) :
    (∀ c ∈ cs, c.toNat < 128) ∧ cs.map Char.toLower = ls := by
  induction cs generalizing before ls with
  | nil =>
    subst h
    exact ⟨List.forall_mem_nil _, rfl⟩
  | cons c cs ih =>
    rw [lowerAfter] at h
    have hc : c.toNat < 128 := by
      by_contra hc
      -- the lower case of a character beyond ASCII starts with no character of the list
      suffices ∃ l ∈ lowerBetween before c cs, l.toNat = 0 ∨ 128 ≤ l.toNat ∨ l ∈ ['i', 'k'] by
        obtain ⟨l, hl, hcases⟩ := this
        obtain ⟨hpos, hlt, hne⟩ := hls l (h ▸ List.mem_append_left _ hl)
        rcases hcases with hzero | hge | hmem
        · omega
        · omega
        · exact hne hmem
      rw [lowerBetween, if_neg hc]
      split
      · refine ⟨_, List.mem_singleton_self _, .inr (.inl ?_)⟩
        unfold lowerSigma
        split <;> decide
      split
      · exact ⟨'i', List.mem_cons_self, .inr (.inr (by decide))⟩
      · refine ⟨_, List.mem_singleton_self _, ?_⟩
        rcases DateFormat.lowerCode_cases (Nat.le_of_not_lt hc) with hge | hi | hk
        · by_cases hvalid : (lowerCode c.toNat).isValidChar
          · rw [Char.ofNat, dif_pos hvalid]
            exact .inr (.inl hge)
          · rw [Char.ofNat, dif_neg hvalid]
            exact .inl rfl
        · rw [hi]
          exact .inr (.inr (by decide))
        · rw [hk]
          exact .inr (.inr (by decide))
    rw [lowerBetween, if_pos hc, List.singleton_append] at h
    cases ls with
    | nil => cases h
    | cons l ls =>
      rw [List.cons.injEq] at h
      obtain ⟨rfl, h⟩ := h
      obtain ⟨hcs, hmap⟩ := ih h (List.forall_mem_cons.1 hls).2
      exact ⟨List.forall_mem_cons.2 ⟨hc, hcs⟩, by rw [List.map_cons, hmap]⟩

/-- The characters `w` before the first blank of a text are its first word. -/
theorem head?_words {w rest : List Char} (hne : w ≠ []) (hw : ∀ c ∈ w, isBlank c = false)
    (hrest : ∀ c ∈ rest.head?, isBlank c = true) : (words (w ++ rest)).head? = some w := by
  cases rest with
  | nil => rw [List.append_nil, words_eq_self hne hw, List.head?_cons]
  | cons c rest => rw [words_append (hrest c rfl), words_eq_self hne hw]; rfl

/-- A text that starts with no blank starts with its first word `w`, and a blank or nothing stands
behind that. -/
theorem exists_of_mem_head?_words {w cs : List Char} (hcs : ∀ c ∈ cs.head?, isBlank c = false)
    (h : w ∈ (words cs).head?) : ∃ rest, cs = w ++ rest ∧ ∀ c ∈ rest.head?, isBlank c = true := by
  have hsplit := cs.takeWhile_append_dropWhile (p := (!isBlank ·))
  have hrest : ∀ c ∈ (cs.dropWhile (!isBlank ·)).head?, isBlank c = true := by
    have hhead := List.head?_dropWhile_not (!isBlank ·) cs
    intro c hc
    rw [Option.mem_def.1 hc] at hhead
    simpa using hhead
  have hne : cs.takeWhile (!isBlank ·) ≠ [] := by
    cases cs with
    | nil => cases h
    | cons c cs =>
      rw [List.takeWhile_cons_of_pos (by simpa using hcs c rfl)]
      exact List.cons_ne_nil _ _
  have hword : ∀ c ∈ cs.takeWhile (!isBlank ·), isBlank c = false := by
    intro c hc
    simpa using List.all_eq_true.1 List.all_takeWhile c hc
  have hhead := head?_words hne hword hrest
  rw [hsplit] at hhead
  obtain rfl : cs.takeWhile (!isBlank ·) = w := Option.some.inj (hhead.symm.trans h)
  exact ⟨_, hsplit.symm, hrest⟩

end Text

/-! ### Dates that start with a word -/

namespace DateFormat

open Text

variable {f : DateFormat} {r : Calendar.Reading} {m : Moment} {cs w rest : List Char}

/-- The text of a field is no part of the word `after`, in any letter case. -/
theorem Field.exists_mem_text (hr : r.isValid = true) (x : Field) :
    ∃ e ∈ (x.text r).toList, e.toLower ∉ "after".toList := by
  have hdigit : ∀ c : Char, c.isDigit = true → c.toLower ∉ "after".toList := by
    intro c hc hmem
    have hcode := isDigit_iff.1 hc
    have hletters : ∀ e ∈ "after".toList, 97 ≤ e.toNat := by decide
    have hlower := hletters _ hmem
    rw [toNat_toLower (by omega), lowerCode, if_pos (by omega)] at hlower
    split at hlower
    · next hupper =>
      simp only [Bool.and_eq_true, decide_eq_true_eq] at hupper
      omega
    · omega
  have hdigits : ∀ ds : List Char, ds ≠ [] → (∀ c ∈ ds, c.isDigit = true) →
      ∃ e ∈ ds, e.toLower ∉ "after".toList := by
    intro ds hne hall
    obtain ⟨d, ds, rfl⟩ := List.exists_cons_of_ne_nil hne
    exact ⟨d, List.mem_cons_self, hdigit d (hall d List.mem_cons_self)⟩
  have hnumber : ∀ n : Nat, ∀ c ∈ (toString n).toList, c.isDigit = true := fun n c hc =>
    isDigit_of_mem_toString c hc
  have hpadded : ∀ n, ∀ c ∈ (padded n).toList, c.isDigit = true := by
    intro n
    unfold padded
    split
    · rw [String.toList_append, List.forall_mem_append]
      exact ⟨by decide, hnumber n⟩
    · exact hnumber n
  obtain ⟨hmonth, hmonth'⟩ := month_le_of_isValid hr
  have hname : ∀ n ≤ 12, 1 ≤ n → ((monthNames[n - 1]?.getD "").toList.take 3).any
      (fun e => decide (e.toLower ∉ "after".toList)) = true := by decide
  obtain ⟨e, he, hne⟩ := List.any_eq_true.1 (hname r.month hmonth' hmonth)
  have hne := of_decide_eq_true hne
  have htext := x.text_ne_nil hr
  cases x with
  | year => exact hdigits _ htext (hnumber _)
  | shortYear | month | day | hour | halfDayHour | minute | second =>
    exact hdigits _ htext (hpadded _)
  | monthName => exact ⟨e, List.mem_of_mem_take he, hne⟩
  | shortMonthName => exact ⟨e, by rw [text, String.toList_ofList]; exact he, hne⟩
  | halfDay =>
    -- the second letter of both halves of the day
    have hm : 'm' ∉ "after".toList := by decide
    refine ⟨'M', ?_, hm⟩
    show 'M' ∈ (if r.hour < 12 then "AM" else "PM").toList
    split <;> decide

/-- A word of letters of `after` is written for literal characters only. -/
theorem exists_literals_of_chars (hr : r.isValid = true) (h : f.chars r = w ++ rest)
    (hw : ∀ c ∈ w, c.toLower ∈ "after".toList) (hrest : ∀ c ∈ rest.head?, isBlank c = true) :
    ∃ f' : DateFormat, f = w.map .literal ++ f' ∧ f'.chars r = rest := by
  induction w generalizing f with
  | nil => exact ⟨f, rfl, h⟩
  | cons c w ih =>
    cases f with
    | nil => cases h
    | cons p f =>
      cases p with
      | literal d =>
        obtain ⟨rfl, hchars⟩ := List.cons.inj h
        obtain ⟨f', rfl, hf'⟩ := ih hchars (List.forall_mem_cons.1 hw).2
        exact ⟨f', rfl, hf'⟩
      | field x =>
        -- the text of a field has another letter, which is neither in the word nor behind a blank
        exfalso
        obtain ⟨e, he, hne⟩ := x.exists_mem_text hr
        have hsplit : (x.text r).toList ++ chars f r = (c :: w) ++ rest := h
        rcases List.append_eq_append_iff.1 hsplit with ⟨as, hword, -⟩ | ⟨bs, htext, hrest'⟩
        · exact hne (hw e (hword ▸ List.mem_append_left _ he))
        · rw [htext] at he
          rcases List.mem_append.1 he with he | he
          · exact hne (hw e he)
          · obtain ⟨b, bs, rfl⟩ := List.exists_cons_of_ne_nil (List.ne_nil_of_mem he)
            have hblank := hrest b (by rw [hrest']; rfl)
            rw [Field.isBlank_of_mem_text b (by rw [htext]; simp)] at hblank
            cases hblank

theorem patterns_literals (hw : ∀ c ∈ w, isBlank c = false) (f : DateFormat) :
    patterns (w.map .literal ++ f) = w.map .letter ++ f.patterns := by
  induction w with
  | nil => rfl
  | cons c w ih =>
    obtain ⟨hc, hw⟩ := List.forall_mem_cons.1 hw
    rw [List.map_cons, List.cons_append, patterns, hc, ih hw]
    rfl

/-- A text that fits letters `w` starts with the same letters, in any case. -/
theorem exists_of_fit_letters {ps : List Pattern} {left : List Char} {values : Values}
    (h : fit (w.map .letter ++ ps) cs = some (values, left)) :
    ∃ w' rest, cs = w' ++ rest ∧ List.Forall₂ (fun c d => sameLetter c d = true) w w' ∧
      fit ps rest = some (values, left) := by
  induction w generalizing cs with
  | nil => exact ⟨[], cs, rfl, .nil, h⟩
  | cons c w ih =>
    cases cs with
    | nil => cases h
    | cons d cs =>
      rw [List.map_cons, List.cons_append, fit, Option.ite_none_right_eq_some] at h
      obtain ⟨w', rest, rfl, hw', hfit⟩ := ih h.2
      exact ⟨d :: w', rest, rfl, .cons h.1 hw', hfit⟩

/-- What is read where a blank or nothing is written starts with a blank or is nothing, since a run
of blanks is read as one. -/
theorem head?_of_fit (hr : r.isValid = true) (h : ∀ c ∈ (f.chars r).head?, isBlank c = true)
    {values : Values} (hfit : fit f.patterns cs = some (values, [])) :
    ∀ c ∈ cs.head?, isBlank c = true := by
  by_cases hblanks : ∃ ps, f.patterns = .blanks :: ps
  · obtain ⟨ps, hps⟩ := hblanks
    rw [hps] at hfit
    obtain ⟨rest, hmem, -⟩ := List.exists_of_findSome?_eq_some hfit
    obtain ⟨b, rfl, hne, hb⟩ := of_mem_blankSkips hmem
    obtain ⟨c, b, rfl⟩ := List.exists_cons_of_ne_nil hne
    rintro d ⟨⟩
    exact hb c List.mem_cons_self
  · -- nothing is written, so there is nothing to read
    have hhead := head_chars hr fun ps hps => hblanks ⟨ps, hps⟩
    have hnil : f.chars r = [] := by
      cases hchars : f.chars r with
      | nil => rfl
      | cons c cs =>
        rw [hchars] at h hhead
        have hblank := h c rfl
        rw [hhead c rfl] at hblank
        cases hblank
    obtain rfl : f = [] := by
      cases f with
      | nil => rfl
      | cons p f =>
        cases p with
        | literal c => cases hnil
        | field x => exact absurd (List.append_eq_nil_iff.1 hnil).1 (x.text_ne_nil hr)
    obtain ⟨-, rfl⟩ := Prod.mk.inj (Option.some.inj hfit)
    exact nofun

/-- The letters of `after` in either case are no blanks, and are the same letters only as letters of
`after`. -/
theorem forall₂_sameLetter {w w' : List Char} (hascii : ∀ c ∈ w, c.toNat < 128)
    (hw : ∀ c ∈ w, c.toLower ∈ "after".toList)
    (h : List.Forall₂ (fun c d => sameLetter c d = true) w w') :
    w'.map Char.toLower = w.map Char.toLower ∧ (∀ c ∈ w', c.toNat < 128) ∧
      ∀ c ∈ w', isBlank c = false := by
  have hletters : ∀ e ∈ "after".toList, e ∉ ['i', 'k', 's'] ∧ 97 ≤ e.toNat := by decide
  induction h with
  | nil => exact ⟨rfl, List.forall_mem_nil _, List.forall_mem_nil _⟩
  | @cons c d w w' hsame _ ih =>
    obtain ⟨hc, hascii⟩ := List.forall_mem_cons.1 hascii
    obtain ⟨hmem, hw⟩ := List.forall_mem_cons.1 hw
    obtain ⟨hmap, hascii', hblank⟩ := ih hascii hw
    obtain ⟨hnot, hge⟩ := hletters _ hmem
    obtain ⟨hd, hlower⟩ := toLower_of_sameLetter hc hnot hsame
    refine ⟨by rw [List.map_cons, List.map_cons, hlower, hmap],
      List.forall_mem_cons.2 ⟨hd, hascii'⟩, List.forall_mem_cons.2 ⟨?_, hblank⟩⟩
    rw [← hlower, toNat_toLower hd, lowerCode, if_pos hd] at hge
    have hcode : 65 ≤ d.toNat := by
      split at hge <;> omega
    simp only [isBlank, Bool.or_eq_false_iff, Bool.and_eq_false_iff, decide_eq_false_iff_not,
      beq_eq_false_iff_ne]
    omega

/-- If a text in which a date was read does not start with the word `after`, neither does what is
written for the date. The word could be written for literal characters only, and those are in the
text that was read, too. -/
theorem head_words_write (h : f.read? cs = some m) (hnull : .literal '\x00' ∉ f) (hcs : Trimmed cs)
    (hafter : ∀ w ∈ (words cs).head?, lower (String.ofList w) ≠ "after") :
    ∀ w ∈ (words (f.write m).toList).head?, lower (String.ofList w) ≠ "after" := by
  intro w hw hlower
  obtain ⟨values, hfit, hm⟩ := exists_of_read? h
  have hr := isValid_of_ofReading? hm
  obtain ⟨rest, hwrite, hrest⟩ := exists_of_mem_head?_words (trimmed_write h hnull hcs).head hw
  rw [toList_write, written_eq_self hnull, Moment.reading_of_ofReading? hm] at hwrite
  -- the word is `after`, so its characters are literal characters of the format
  have hword := congrArg String.toList hlower
  rw [lower, String.toList_ofList, String.toList_ofList] at hword
  obtain ⟨hascii, hmap⟩ := of_lowerAfter hword (by decide)
  have hletters : ∀ c ∈ w, c.toLower ∈ "after".toList := fun c hc =>
    hmap ▸ List.mem_map_of_mem hc
  obtain ⟨f', rfl, hf'⟩ := exists_literals_of_chars hr hwrite hletters hrest
  have hsame : List.Forall₂ (fun c d => sameLetter c d = true) w w :=
    List.forall₂_same.2 fun c _ => beq_self_eq_true (letterCode c)
  have hblank := (forall₂_sameLetter hascii hletters hsame).2.2
  -- and the text that was read has the same letters in front
  rw [patterns_literals hblank] at hfit
  obtain ⟨w', rest', rfl, hw', hfit'⟩ := exists_of_fit_letters hfit
  obtain ⟨hmap', hascii', hblank'⟩ := forall₂_sameLetter hascii hletters hw'
  have hne : w' ≠ [] := by
    rintro rfl
    rw [← hmap'] at hmap
    cases hmap
  have hhead := head?_words hne hblank' (head?_of_fit hr (hf' ▸ hrest) hfit')
  refine hafter w' hhead ?_
  have hlower' := Gantt.lowerAfter_append hascii' [] []
  rw [List.append_nil, hmap', hmap, lowerAfter, List.append_nil] at hlower'
  rw [lower, String.toList_ofList, hlower', String.ofList_toList]

end DateFormat

/-! ### Texts of tokens -/

namespace Token

/-- The text of a token `u` of a line is part of the line `cs`. -/
theorem text_subset_of_mem_ofLine {d : Dialect} {u : Token} {gap cs : List Char}
    (h : u ∈ ofLine d gap cs) :
    u.text.toList ⊆ cs := by
  -- what is skipped before a line is part of a gap only
  obtain ⟨v, hv, htext⟩ : ∃ v ∈ ofLine d [] cs, v.text = u.text := by
    have hgap := ofLine_gap d gap [] cs
    rw [List.append_nil] at hgap
    rw [hgap] at h
    cases hline : ofLine d [] cs with
    | nil => rw [hline] at h; cases h
    | cons v vs =>
      rw [hline, List.modifyHead_cons, List.mem_cons] at h
      rcases h with rfl | h
      · exact ⟨v, List.mem_cons_self, rfl⟩
      · exact ⟨u, List.mem_cons_of_mem v h, rfl⟩
  have hcontent := content_row [] (Piece.ofLine d cs)
  rw [Piece.ofLine, (Piece.cut_ofRest d {} cs).1, List.nil_append] at hcontent
  rw [← htext, hcontent]
  intro d hd
  exact List.mem_append_left _ (List.mem_flatMap.2 ⟨v, hv, List.mem_append_right _ hd⟩)

end Token

namespace Gantt

open Text Reading

variable {g : Gantt} {t : Task} {m : Moment} {s format : String}

/-! ### Separators -/

/-- The characters that tell a date from a word or number: a status, a duration and `after` have
none of them. -/
def separators : List Char := ['-', '/', ':', ' ']

theorem statusOf?_of_separator {c : Char} (hc : c ∈ separators) (h : c ∈ s.toList) :
    statusOf? s = none := by
  have hlower : ∀ c ∈ separators, c.toNat < 128 ∧ c.toLower = c := by decide
  have htext : ∀ c ∈ separators, ∀ status : TaskStatus, c ∉ status.text.toList := by
    intro c hc status
    cases status <;> (revert c; decide)
  rw [Option.eq_none_iff_forall_ne_some]
  intro status hstatus
  have hword : (lower s).toList = status.text.toList :=
    congrArg String.toList (eq_text_of_ofText? hstatus)
  obtain ⟨hascii, hself⟩ := hlower c hc
  have hmem := toLower_mem_lowerAfter hascii h []
  rw [lower, String.toList_ofList] at hword
  rw [hself, hword] at hmem
  exact htext c hc status hmem

theorem durationParts?_of_separator {c : Char} (hc : c ∈ separators) {cs : List Char} (h : c ∈ cs) :
    durationParts? cs = none := by
  have hno : ∀ c ∈ separators, isDecimal c = false ∧ DurationUnit.ofLetter? c = none := by decide
  obtain ⟨hdecimal, hletter⟩ := hno c hc
  rw [Option.eq_none_iff_forall_ne_some]
  rintro ⟨digits, unit⟩ hparts
  obtain ⟨rfl, hdigits⟩ := durationParts?_eq_some hparts
  rw [durationParts?, Option.bind_eq_bind, Option.bind_eq_some_iff] at hparts
  obtain ⟨last, hlast, hunit⟩ := hparts
  rw [Option.bind_eq_bind, Option.bind_eq_some_iff] at hunit
  obtain ⟨unit', hunit, -⟩ := hunit
  have hsplit := List.dropLast_append_getLast? last hlast
  rw [← hsplit] at h
  rcases List.mem_append.1 h with h | h
  · rw [hdigits c h] at hdecimal
    cases hdecimal
  · rw [List.mem_singleton.1 h, hunit] at hletter
    cases hletter

theorem looksLikeDuration_of_separator {c : Char} (hc : c ∈ separators) {cs : List Char}
    (h : c ∈ cs) : looksLikeDuration cs = false := by
  have hno : ∀ c ∈ separators, isDecimal c = false ∧ c ≠ '.' ∧ c.isAlpha = false := by decide
  obtain ⟨hdecimal, hdot, halpha⟩ := hno c hc
  rw [← cs.take_append_drop (Measure.number cs), List.mem_append] at h
  have hdrop := h.resolve_left (Measure.omits_number hdecimal hdot cs)
  have hall : (cs.drop (Measure.number cs)).all Char.isAlpha = false := by
    rw [List.all_eq_false]
    exact ⟨c, hdrop, by rw [halpha]; exact Bool.false_ne_true⟩
  rw [looksLikeDuration, hall, Bool.and_false]

/-! ### Dates of tasks -/

/-- The dates of a task `t`: its start and its end, where these are dates. -/
def Task.dates (t : Task) : List Moment :=
  (match t.start with
    | some (.date m) => [m]
    | _ => []) ++
  match t.finish with
    | .date m => [m]
    | .duration _ => []

theorem Task.mem_dates_iff :
    m ∈ t.dates ↔ t.start = some (.date m) ∨ t.finish = .date m := by
  rw [dates, List.mem_append]
  refine or_congr ?_ ?_
  · cases t.start with
    | none => simp
    | some start => cases start <;> simp [eq_comm]
  · cases t.finish <;> simp [eq_comm]

/-- A part of the details of a task that its date `m` was read from. A double quote in it would have
closed one that the name leaves open. -/
structure Task.ReadsDate (format : String) (t : Task) (m : Moment) (s : String) : Prop where
  isPart : IsPart s
  date : readDate s format none = .ok m
  quote : t.name.toList.count '"' % 2 = 0 ∨ '"' ∉ s.toList

/-- All dates of the task `t` were read in the `format`, each from a part of its details. -/
structure Task.ReadIn (format : String) (t : Task) : Prop where
  start : ∀ m, t.start = some (.date m) → ∃ s, t.ReadsDate format m s ∧
    ∀ w ∈ (words s.toList).head?, lower (String.ofList w) ≠ "after"
  finish : ∀ m, t.finish = .date m → ∃ s, t.ReadsDate format m s

namespace Task.ReadsDate

variable (h : t.ReadsDate format m s) (hnull : '\x00' ∉ format.toList)

include h

theorem read? : (DateFormat.ofText format).read? s.toList = some m := by
  have hread := (exists_of_readDate h.date).2
  rwa [h.isPart.2.trim_eq] at hread

/-- A character below the letters that is written for the date is in the part `s` that was read:
digits apart, only literal characters write such. -/
theorem mem_of_mem_write {c : Char} (hc : c.toNat < 48) (hblank : isBlank c = false)
    (hmem : c ∈ (writeDate m format).toList) : c ∈ s.toList := by
  have halphanum : c.isAlphanum = false := by
    rw [Char.isAlphanum, Bool.or_eq_false_iff, Bool.eq_false_iff, Bool.eq_false_iff, ne_eq, ne_eq,
      isAlpha_iff, isDigit_iff]
    omega
  exact DateFormat.mem_of_literal_mem_read (by omega) hblank
    (DateFormat.literal_mem_of_mem_write hmem halphanum) h.read?

/-- No double quote in the written date closes one that the name leaves open. -/
theorem quote_write : t.name.toList.count '"' % 2 = 0 ∨ '"' ∉ (writeDate m format).toList :=
  h.quote.imp_right fun hs hmem => hs (h.mem_of_mem_write (by decide) (by decide) hmem)

include hnull

/-- What is written for the date `m` is one part: it has no comma and no blank at its ends. -/
theorem isPart_write : IsPart (writeDate m format) := by
  refine ⟨fun hmem => h.isPart.1 (h.mem_of_mem_write (by decide) (by decide) hmem), ?_⟩
  exact DateFormat.trimmed_write h.read? (mt null_mem_ofText.1 hnull) h.isPart.2

theorem head_words_write (hafter : ∀ w ∈ (words s.toList).head?,
    lower (String.ofList w) ≠ "after") :
    ∀ w ∈ (words (writeDate m format).toList).head?, lower (String.ofList w) ≠ "after" :=
  DateFormat.head_words_write h.read? (mt null_mem_ofText.1 hnull) h.isPart.2 hafter

end Task.ReadsDate

theorem mem_writeDate_of_separator {c : Char} (hc : c ∈ separators) (h : c ∈ format.toList)
    (hnull : '\x00' ∉ format.toList) (m : Moment) : c ∈ (writeDate m format).toList := by
  have htokens : ∀ c ∈ separators, ∀ token ∈ DateFormat.tokens, c ∉ token.1 := by decide
  exact DateFormat.mem_write_of_literal_mem (mt null_mem_ofText.1 hnull)
    ((DateFormat.literal_mem_ofChars (htokens c hc) _).2 h) m

/-! ### Double quotes -/

/-- A character that is not part of the separator `sep` is in one of the texts that are joined. -/
theorem exists_mem_of_mem_intercalate {c : Char} {sep : String} (hc : c ∉ sep.toList)
    {ps : List String} (h : c ∈ (sep.intercalate ps).toList) : ∃ p ∈ ps, c ∈ p.toList := by
  induction ps with
  | nil => cases h
  | cons p ps ih =>
    cases ps with
    | nil =>
      rw [String.intercalate_singleton] at h
      exact ⟨p, List.mem_cons_self, h⟩
    | cons q ps =>
      rw [String.intercalate_cons_cons, String.toList_append, String.toList_append,
        List.mem_append, List.mem_append] at h
      rcases h with (h | h) | h
      · exact ⟨p, List.mem_cons_self, h⟩
      · exact absurd h hc
      · obtain ⟨r, hr, hmem⟩ := ih h
        exact ⟨r, List.mem_cons_of_mem p hr, hmem⟩

/-- An id `cs` of a task has no double quote. -/
theorem quote_not_mem_of_isTaskId {cs : List Char} (h : isTaskId cs = true) : '"' ∉ cs := by
  have hword : isWord '"' = false := by decide
  cases cs with
  | nil => exact List.not_mem_nil
  | cons c cs =>
    rw [isTaskId, Bool.and_eq_true, List.all_eq_true] at h
    rw [List.mem_cons, not_or]
    refine ⟨?_, fun hmem => ?_⟩
    · rintro rfl
      exact absurd h.1 (by decide)
    · have hquote := h.2 '"' hmem
      rw [hword] at hquote
      cases hquote

/-- A double quote in the details of a task `t` is in one of its dates, as it can stand nowhere
else. -/
theorem Task.IsSpelled.exists_date_of_quote (ht : t.IsSpelled)
    (hids : ∀ id ∈ t.dependencies, '"' ∉ id.toList)
    (h : '"' ∈ (", ".intercalate (t.parts format)).toList) :
    ∃ m ∈ t.dates, '"' ∈ (writeDate m format).toList := by
  obtain ⟨p, hp, hquote⟩ := exists_mem_of_mem_intercalate (by decide) h
  -- Neither a status nor an id nor a duration has a double quote in it.
  rw [Task.parts, List.mem_append, List.mem_append, List.mem_singleton] at hp
  rcases hp with (hp | hp) | rfl
  · cases hstatus : t.status with
    | none => simp [hstatus] at hp
    | some status =>
      obtain rfl : p = status.text := by simpa [hstatus] using hp
      cases status <;> exact absurd hquote (by decide)
  · cases hstart : t.start with
    | none => simp [hstart] at hp
    | some start =>
      simp only [hstart, List.mem_append, Option.mem_toList, List.mem_singleton] at hp
      rcases hp with hid | rfl
      · exact absurd hquote (quote_not_mem_of_isTaskId (ht.id p hid).2.1)
      · cases start with
        | date m => exact ⟨m, Task.mem_dates_iff.2 (.inl hstart), hquote⟩
        | after ids =>
          rw [dependencies, hstart] at hids
          rw [toList_after, List.mem_append, List.mem_cons] at hquote
          rcases hquote with hquote | hquote | hquote
          · exact absurd hquote (by decide)
          · exact absurd hquote (by decide)
          · obtain ⟨id, hid, hmem⟩ := exists_mem_of_mem_intercalate (by decide) hquote
            exact absurd hmem (hids id hid)
  · cases hfinish : t.finish with
    | date m =>
      rw [hfinish] at hquote
      exact ⟨m, Task.mem_dates_iff.2 (.inr hfinish), hquote⟩
    | duration d =>
      rw [hfinish] at hquote
      exact absurd ((ht.duration d hfinish).isAsciiWord '"' hquote) (by decide)

/-- The ids that a task `t` of a chart in order waits for have no double quotes, since they are ids
of earlier tasks. -/
theorem quote_not_mem_dependencies (hspelled : ∀ t ∈ g.tasks, t.IsSpelled)
    (hordered : Ordered [] g.tasks) (ht : t ∈ g.tasks) :
    ∀ id ∈ t.dependencies, '"' ∉ id.toList := by
  intro id hid
  obtain ⟨before, after, htasks⟩ := List.append_of_mem ht
  have hknown := ordered_iff.1 hordered before t after htasks hid
  rw [List.nil_append] at hknown
  obtain ⟨u, hu, huid⟩ := List.mem_filterMap.1 hknown
  have hmem : u ∈ g.tasks := by
    rw [htasks]
    exact List.mem_append_left _ hu
  exact quote_not_mem_of_isTaskId ((hspelled u hmem).id id huid).2.1

/-! ### Tasks that survive -/

theorem Task.mem_dates_of_leadingDate? (h : m ∈ t.leadingDate?) : m ∈ t.dates := by
  rw [Task.mem_dates_iff]
  unfold Task.leadingDate? at h
  split at h
  · next hstart => exact .inl (by rw [hstart, Option.some.inj h])
  · next hfinish => exact .inr (by rw [hfinish, Option.some.inj h])
  · cases h

/-- A task `t` without dates survives in every format, as nothing of it is written in one. -/
theorem Task.IsSpelled.survives_of_dates_eq_nil (ht : t.IsSpelled)
    (hids : ∀ id ∈ t.dependencies, '"' ∉ id.toList) (h : t.dates = []) : t.Survives format := by
  have hno : ∀ m, m ∉ t.dates := by simp [h]
  refine ⟨⟨fun m hm => ?_, fun m hm => ?_, fun m hm => ?_⟩, .inr fun hquote => ?_⟩
  · exact absurd (Task.mem_dates_iff.2 (.inl hm)) (hno m)
  · exact absurd (Task.mem_dates_iff.2 (.inr hm)) (hno m)
  · exact absurd (Task.mem_dates_of_leadingDate? hm) (hno m)
  · obtain ⟨m, hm, -⟩ := ht.exists_date_of_quote hids hquote
    exact hno m hm

/-- A task `t` with a date does not survive in a format with a null character: what is written ends
before that. -/
theorem Task.Survives.dates_eq_nil (h : t.Survives format) (hnull : '\x00' ∈ format.toList) :
    t.dates = [] := by
  -- a part of what is written for a date is not read as the date
  have hnot : ∀ m, ∀ p ∈ partsOf (writeDate m format), readDate p format none ≠ .ok m := by
    intro m p hp hread
    obtain ⟨cs, hcs, rfl⟩ := List.mem_map.1 hp
    have hread := (exists_of_readDate hread).2
    rw [String.toList_ofList] at hread
    have hsub : (trim (trim cs)).Sublist (writeDate m format).toList :=
      (trim_sublist _).trans ((trim_sublist cs).trans (sublist_of_mem_fields hcs))
    rw [DateFormat.read?_write_of_null (null_mem_ofText.2 hnull) m hsub] at hread
    cases hread
  rw [List.eq_nil_iff_forall_not_mem]
  intro m hm
  rcases Task.mem_dates_iff.1 hm with hstart | hfinish
  · obtain ⟨p, hp, hread⟩ := map_eq_singleton_iff.1 (h.start m hstart)
    exact hnot m p (by rw [hp]; exact List.mem_singleton_self p) (readStart_date_iff.1 hread).2
  · obtain ⟨p, hp, hread⟩ := map_eq_singleton_iff.1 (h.finish m hfinish)
    exact hnot m p (by rw [hp]; exact List.mem_singleton_self p) (readFinish_date_iff.1 hread).2.2.2

/-- A task of which all dates were read in a `format` survives in it, if the format has a separator
and no null character. -/
theorem Task.ReadIn.survives (h : t.ReadIn format) (ht : t.IsSpelled)
    (hids : ∀ id ∈ t.dependencies, '"' ∉ id.toList) (hnull : '\x00' ∉ format.toList)
    (hseparator : ∃ c ∈ separators, c ∈ format.toList)
    (hyear : .year ∈ (DateFormat.ofText format).fields →
      ∀ m ∈ t.dates, (DateFormat.Field.text m.reading .year).length = 4) : t.Survives format := by
  obtain ⟨c, hc, hmem⟩ := hseparator
  have hwritten : ∀ m, c ∈ (writeDate m format).toList :=
    mem_writeDate_of_separator hc hmem hnull
  have hreads : ∀ m ∈ t.dates, ∃ s, t.ReadsDate format m s := by
    intro m hm
    rcases Task.mem_dates_iff.1 hm with hstart | hfinish
    · obtain ⟨s, hs, -⟩ := h.start m hstart
      exact ⟨s, hs⟩
    · exact h.finish m hfinish
  have hread : ∀ m ∈ t.dates, partsOf (writeDate m format) = [writeDate m format] ∧
      readDate (writeDate m format) format none = .ok m := by
    intro m hm
    obtain ⟨s, hs⟩ := hreads m hm
    exact ⟨partsOf_eq_singleton (hs.isPart_write hnull),
      readDate_writeDate hs.date hnull (fun hfield => hyear hfield m hm) none⟩
  refine ⟨⟨fun m hm => ?_, fun m hm => ?_, fun m hm => ?_⟩, ?_⟩
  · obtain ⟨hparts, hdate⟩ := hread m (Task.mem_dates_iff.2 (.inl hm))
    obtain ⟨s, hs, hafter⟩ := h.start m hm
    rw [hparts, List.map_singleton,
      readStart_date_iff.2 ⟨hs.head_words_write hnull hafter, hdate⟩]
  · obtain ⟨hparts, hdate⟩ := hread m (Task.mem_dates_iff.2 (.inr hm))
    have hne : writeDate m format ≠ "" := by
      intro hempty
      have hmem := hwritten m
      rw [hempty] at hmem
      cases hmem
    rw [hparts, List.map_singleton, readFinish_date_iff.2
      ⟨durationParts?_of_separator hc (hwritten m),
      looksLikeDuration_of_separator hc (hwritten m), hne, hdate⟩]
  · obtain ⟨hparts, -⟩ := hread m (Task.mem_dates_of_leadingDate? hm)
    rw [hparts]
    rintro s ⟨⟩
    exact statusOf?_of_separator hc (hwritten m)
  · -- a double quote in the details would be in a date, and so in the part it was read from
    refine or_iff_not_imp_left.2 fun hodd hquote => ?_
    obtain ⟨m, hm, hquote⟩ := ht.exists_date_of_quote hids hquote
    obtain ⟨s, hs⟩ := hreads m hm
    exact (hs.quote_write.resolve_left hodd) hquote

/-! ### Lines of a chart -/

/-- Reads what stands before the first statement of a gantt chart: its header line. -/
def header : Reading Unit := do
  skipNewlines
  let _ ← expectWord "gantt"
  endStatement

theorem read_eq : read = header >>= fun _ => untilEnd statement {} := by
  simp only [read, header, bind_assoc]

/-- The tokens ahead where each statement of a gantt chart `text` starts behind the header, in
order. -/
def lineStarts (text : String) : List (List Token) :=
  startsAfter header statement {} (Cursor.ofText .gantt text.toList)

/-- The word that the tokens of a statement start with, unless it is the name of a task. -/
def lineWord : List Token → String
  | [] => ""
  | t :: us => leadingWord t us

/-- A statement that is neither empty nor starts with a keyword is the line of a task. Directives
and sections start with one. -/
def IsTaskLine : List Token → Prop
  | [] => False
  | t :: us => t.kind ≠ .newline ∧ ¬IsKeyword (leadingWord t us)

instance : DecidablePred IsTaskLine
  | [] => .isFalse id
  | u :: us => inferInstanceAs (Decidable (u.kind ≠ .newline ∧ ¬(_ ∨ leadingWord u us = "section")))

/-- No `dateFormat` line of a chart stands behind a line of a task. -/
def FormatFirst (starts : List (List Token)) : Prop :=
  starts.Pairwise fun us vs => IsTaskLine us → lineWord vs ≠ "dateformat"

instance : DecidablePred FormatFirst := fun _ =>
  inferInstanceAs (Decidable (List.Pairwise _ _))

variable {e : Gantt} {past us : List Token} {u final : Token} {c c' : Cursor}

/-- A directive `u` sets its value, and does nothing else. A value that is refused leaves the chart
as it is. -/
theorem eq_of_directiveLine (h : directiveLine g ⟨past, u :: us, final⟩ = .ok (e, c)) :
    ∃ value, e = { g with config := (g.config.set? (lower u.text) value).getD g.config } := by
  rw [directiveLine, bind_apply, advance_cons, Except.bind_eq_ok_iff] at h
  obtain ⟨⟨token, c₁⟩, htoken, h⟩ := h
  cases htoken
  rw [bind_apply, Except.bind_eq_ok_iff] at h
  obtain ⟨⟨value, c₂⟩, -, h⟩ := h
  dsimp only at h
  split at h
  · rw [fail_apply] at h
    cases h
  · cases h
    exact ⟨value, rfl⟩

/-- A section comes without tasks, and does nothing else. -/
theorem eq_of_sectionLine (h : sectionLine g c = .ok (e, c')) :
    ∃ name, e = { g with sections := g.sections ++ [{ name }] } := by
  rw [sectionLine, bind_apply, Except.bind_eq_ok_iff] at h
  obtain ⟨⟨token, c₁⟩, -, h⟩ := h
  rw [bind_apply, Except.bind_eq_ok_iff] at h
  obtain ⟨⟨name, c₂⟩, -, h⟩ := h
  dsimp only at h
  split at h
  · rw [fail_apply] at h
    cases h
  · cases h
    exact ⟨name, rfl⟩

/-- The second token `u` of a row and of what stands behind it is in the row, if what stands behind
it starts with neither of the first two. -/
theorem mem_of_append_eq {row us vs : List Token} {t u : Token} (h : row ++ us = t :: u :: vs)
    (ht : us.head? ≠ some t) (hu : us.head? ≠ some u) : u ∈ row := by
  match row with
  | [] =>
    rw [List.nil_append] at h
    rw [h] at ht
    exact absurd rfl ht
  | [x] =>
    rw [List.singleton_append, List.cons.injEq] at h
    rw [h.2] at hu
    exact absurd rfl hu
  | x :: y :: row =>
    simp only [List.cons_append, List.cons.injEq] at h
    rw [h.2.1]
    exact List.mem_cons_of_mem x List.mem_cons_self

/-- A `name` that is read before a colon and a text leaves no double quote open that one in the text
would close: the quoted text would take the colon. -/
theorem even_of_expect {name first second : String} {colon text : Token} {c₁ c₂ c₃ : Cursor}
    (hc : Scanned c) (hraw : rawUntil [.colon] c = .ok (name, c₁))
    (hcolon : expect .colon first c₁ = .ok (colon, c₂))
    (htext : expect .text second c₂ = .ok (text, c₃)) :
    name.toList.count '"' % 2 = 0 ∨ '"' ∉ text.text.toList := by
  obtain ⟨past, rest, final⟩ := c
  obtain ⟨hscanned, hfinal⟩ := hc
  obtain ⟨gap, cs, us, hcs, hrest, hus⟩ := Token.scanned_iff.1 hscanned
  obtain rfl : rest = (Token.ofLine .gantt gap cs).filter Token.isRead ++ us := hrest
  let passes := fun k : TokenKind => !k.endsStatement && ! [TokenKind.colon].contains k
  have hstops : ∀ k, passes k = false → k ∈ TokenKind.stops := by
    intro k hk
    cases k <;> first | exact absurd hk (by decide) | decide
  obtain ⟨b, span, b', gap', cs', hsplit, hb, -, hspan, htake, hsource, hdrop⟩ :=
    Token.exists_span_of_row Dialect.regular_gantt hstops hcs gap
  have hnewline : ∀ u ∈ us.head?, u.kind = .newline := by
    rcases hus with rfl | ⟨t, ts, rfl, ht, -⟩
    · exact nofun
    · rintro _ ⟨⟩
      exact ht
  obtain ⟨htake', hdrop'⟩ := @Token.takeWhile_append_eq (passes ·.kind)
    ((Token.ofLine .gantt gap cs).filter Token.isRead) us fun u hu => by rw [hnewline u hu]; rfl
  have hname : String.ofList (trim (Token.source (((Token.ofLine .gantt gap cs).filter
      Token.isRead ++ us).takeWhile (passes ·.kind))).toList) = name :=
    congrArg Prod.fst (Except.ok.inj hraw)
  rw [htake', htake, hsource, String.toList_ofList, hspan.trimmed.trim_eq] at hname
  -- the text is behind the colon on the same line
  have hahead : c₁.rest = (Token.ofLine .gantt gap' cs').filter Token.isRead ++ us := by
    rw [← hdrop, ← hdrop']
    exact congrArg (fun r => r.2.rest) (Except.ok.inj hraw).symm
  have hfinal₁ : c₁.final.kind = .endOfInput := by
    rw [← hfinal]
    exact congrArg (fun r => r.2.final.kind) (Except.ok.inj hraw).symm
  obtain ⟨hkind₁, hrest₁, hfinal₂⟩ := ensures_expect_behind (by decide) first c₁ colon c₂
    ⟨(List.nil_append _).symm, hfinal₁⟩ hcolon
  obtain ⟨hkind₂, hrest₂, -⟩ := ensures_expect_behind (by decide) second c₂ text c₃
    ⟨(List.nil_append _).symm, hfinal₂⟩ htext
  have hmem : text ∈ Token.ofLine .gantt gap' cs' := by
    rw [hahead, hrest₂] at hrest₁
    refine List.mem_of_mem_filter (mem_of_append_eq hrest₁ (fun hhead => ?_) fun hhead => ?_)
    · rw [hnewline colon hhead] at hkind₁
      cases hkind₁
    · rw [hnewline text hhead] at hkind₂
      cases hkind₂
  rw [← hname, String.toList_ofList]
  refine or_iff_not_imp_right.2 fun hquote => ?_
  have hquote := Token.text_subset_of_mem_ofLine hmem (not_not.1 hquote)
  have hkinds : ∀ t ∈ Token.ofLine .gantt (gap ++ b) span, t.kind ≠ .comment ∧ t.kind ≠ .colon := by
    intro t ht
    obtain ⟨hpass, hcomment⟩ := hspan.kinds (gap ++ b) t ht
    refine ⟨hcomment, fun hcolon => ?_⟩
    rw [hcolon] at hpass
    cases hpass
  rw [← Token.closed_ofLine_iff Dialect.regular_gantt Rule.omits_lineOriented hkinds]
  obtain ⟨comment, hcomment, -⟩ := Token.exists_comment Dialect.regular_gantt hcs gap
  have hline := Dialect.regular_gantt.skipsBlanks b hb gap (span ++ (b' ++ cs'))
  rw [← List.append_assoc, ← hsplit] at hline
  have hprefix : Token.ofLine .gantt (gap ++ b) span <+:
      Token.ofLine .gantt (gap ++ b) (span ++ (b' ++ cs')) := by
    rw [← hline, hcomment, ← htake]
    exact (List.takeWhile_prefix _).trans (List.prefix_append _ _)
  exact Token.closed_of_prefix Dialect.regular_gantt hkinds
    (List.mem_append_right b' hquote) hprefix

/-! ### Charts with the format first -/

/-- What is known of a chart behind the statements that were read of it, of which `starts` has the
tokens ahead. -/
structure Follows (g : Gantt) (starts : List (List Token)) : Prop where
  /-- Every task comes from a line of a task. -/
  tasks : g.tasks ≠ [] → ∃ us ∈ starts, IsTaskLine us
  /-- If the format came first, all dates were read in it. -/
  dates : FormatFirst starts → ∀ t ∈ g.tasks, t.ReadIn g.config.dateFormat

variable {starts : List (List Token)} {ts : List Token}

/-- A statement that leaves the tasks as they are keeps what is known, if it also leaves the format
as it is wherever there are tasks and the format came first. -/
theorem Follows.append (h : g.Follows starts) (htasks : e.tasks = g.tasks)
    (hformat : g.tasks ≠ [] → FormatFirst (starts ++ [ts]) →
      e.config.dateFormat = g.config.dateFormat) : e.Follows (starts ++ [ts]) := by
  constructor
  · rw [htasks]
    intro hne
    obtain ⟨us, hus, htask⟩ := h.tasks hne
    exact ⟨us, List.mem_append_left _ hus, htask⟩
  · rw [htasks]
    intro hfirst t ht
    rw [hformat (List.ne_nil_of_mem ht) hfirst]
    exact h.dates (List.pairwise_append.1 hfirst).1 t ht

/-- The dates of a task `t` that is read are read in the format in force, each from one of the parts
of the details. -/
theorem readIn_of_readTask {name details : String} {known : List String} {p q : Position}
    (h : readTask name details format known p q = .ok t)
    (hquote : name.toList.count '"' % 2 = 0 ∨ '"' ∉ details.toList) : t.ReadIn format := by
  obtain ⟨parts, hstatus, hshapes, hname, -⟩ := readTask_eq_ok_iff.1 h
  obtain ⟨-, hparts⟩ := takeStatus_eq_ok_iff.1 hstatus
  have hpart : ∀ s ∈ parts, s ∈ partsOf details := by
    intro s hs
    rcases hparts with ⟨-, hparts⟩ | ⟨p, status, -, -, hparts⟩
    · exact hparts ▸ hs
    · exact hparts ▸ List.mem_cons_of_mem p hs
  have hreads : ∀ s ∈ parts, ∀ m, readDate s format none = .ok m → t.ReadsDate format m s := by
    intro s hs m hm
    refine ⟨isPart_of_mem_partsOf (hpart s hs), hm, ?_⟩
    rw [hname]
    refine hquote.imp_right (mt fun hmem => ?_)
    obtain ⟨cs, hcs, rfl⟩ := List.mem_map.1 (hpart s hs)
    rw [String.toList_ofList] at hmem
    exact ((trim_sublist cs).trans (sublist_of_mem_fields hcs)).subset hmem
  have hfinish : ∀ f ∈ parts, readFinish f format q = .ok t.finish → ∀ m, t.finish = .date m →
      ∃ s, t.ReadsDate format m s := by
    intro f hf hread m hm
    rw [hm, readFinish_date_iff] at hread
    exact ⟨f, hreads f hf m hread.2.2.2⟩
  have hstart : ∀ s ∈ parts, ∀ start, t.start = some start →
      readStart s format known q = .ok start → ∀ m, t.start = some (.date m) →
        ∃ s, t.ReadsDate format m s ∧
          ∀ w ∈ (words s.toList).head?, lower (String.ofList w) ≠ "after" := by
    intro s hs start hsome hread m hm
    obtain rfl : start = .date m := Option.some.inj (hsome.symm.trans hm)
    obtain ⟨hafter, hdate⟩ := readStart_date_iff.1 hread
    exact ⟨s, hreads s hs m hdate, hafter⟩
  -- The parts that are left decide which of them are an id, a start and an end.
  generalize hid : t.id = id at hshapes
  generalize hsome : t.start = some? at hshapes
  generalize hend : t.finish = finish at hshapes
  subst hend
  cases hshapes with
  | finish hread =>
    refine ⟨fun m hm => ?_, hfinish _ (by simp) hread⟩
    rw [hsome] at hm
    cases hm
  | start hreadStart hread =>
    exact ⟨hstart _ (by simp) _ hsome hreadStart, hfinish _ (by simp) hread⟩
  | id _ hreadStart hread =>
    exact ⟨hstart _ (by simp) _ hsome hreadStart, hfinish _ (by simp) hread⟩

/-- A statement keeps what is known of a chart. Only a `dateFormat` line changes the format, and no
task is there yet if the format comes first. -/
theorem ensures_statement_follows (hg : g.Follows starts) (hne : ts ≠ []) :
    Ensures (fun c => Scanned c ∧ c.rest = ts) (statement g)
      fun e _ => e.Follows (starts ++ [ts]) := by
  rintro ⟨past, rest, final⟩ e c' ⟨⟨hrest, hfinal⟩, rfl⟩ hx
  obtain ⟨u, us, rfl⟩ := List.exists_cons_of_ne_nil hne
  by_cases hu : u.kind = .newline
  · rw [statement_newline g past u us final hu] at hx
    cases hx
    exact hg.append rfl fun _ _ => rfl
  rw [statement_cons g past us hu hfinal, bind_apply, Except.bind_eq_ok_iff] at hx
  obtain ⟨⟨e', c₁⟩, hline, hx⟩ := hx
  rw [bind_apply, Except.bind_eq_ok_iff] at hx
  obtain ⟨_, -, hx⟩ := hx
  obtain rfl : e' = e := congrArg Prod.fst (Except.ok.inj hx)
  rw [lineOf] at hline
  split at hline
  · next hset =>
    -- a directive is told by its first word
    have hword : leadingWord u us = lower u.text := by
      unfold leadingWord at hset ⊢
      split
      · rfl
      · next hnot =>
        rw [if_neg hnot] at hset
        cases hset
    obtain ⟨value, rfl⟩ := eq_of_directiveLine hline
    refine hg.append rfl fun htasks hfirst => ?_
    obtain ⟨vs, hvs, htask⟩ := hg.tasks htasks
    have hne := (List.pairwise_append.1 hfirst).2.2 vs hvs _ (List.mem_singleton_self _) htask
    show ((g.config.set? (lower u.text) value).getD g.config).dateFormat = _
    cases hconfig : g.config.set? (lower u.text) value with
    | none => rfl
    | some config =>
      rcases dateFormat_set? hconfig with hsame | ⟨hformat, -⟩
      · exact hsame
      · exact absurd (hword.trans hformat) hne
  split at hline
  · obtain ⟨name, rfl⟩ := eq_of_sectionLine hline
    exact hg.append (by simp [tasks]) fun _ _ => rfl
  · next hset hsection =>
    obtain ⟨name, c₂, colon, c₃, text, c₄, t, p, hraw, hcolon, htext, hread, rfl⟩ :=
      exists_of_taskLine hline
    have hquote := even_of_expect ⟨hrest, hfinal⟩ hraw hcolon htext
    have htask : IsTaskLine (u :: us) := by
      refine ⟨hu, ?_⟩
      rintro (hkeyword | hkeyword)
      · exact hset (by rwa [isSome_set? g.config {} _ "" ""])
      · exact hsection hkeyword
    refine ⟨fun _ => ⟨u :: us, by simp, htask⟩, fun hfirst => ?_⟩
    rw [dateFormat_addTask?]
    have hdates := hg.dates (List.pairwise_append.1 hfirst).1
    cases hadd : g.addTask? t with
    | none => exact hdates
    | some e =>
      rw [Option.getD_some, tasks_addTask? hadd, List.forall_mem_append, List.forall_mem_singleton]
      exact ⟨hdates, readIn_of_readTask hread hquote⟩

/-- The dates of a chart in which the format came first were read in the format that it has in the
end. -/
theorem follows_of_read (hc : Scanned c) (h : read c = .ok (g, c')) :
    g.Follows (startsAfter header statement {} c) := by
  have hheader : Ensures Scanned header fun _ c => Scanned c :=
    .bind (ensures_skipNewlines Dialect.regular_gantt) fun _ =>
      .bind (ensures_expectWord Dialect.regular_gantt _) fun _ =>
        ensures_endStatement Dialect.regular_gantt
  rw [read_eq, bind_apply, Except.bind_eq_ok_iff] at h
  obtain ⟨⟨_, c₁⟩, hx, h⟩ := h
  have hempty : Follows {} [] := ⟨fun hne => absurd rfl hne, fun _ => List.forall_mem_nil _⟩
  have hfollows := untilEnd_starts_cursor
    (I := fun g starts c => (g.Readable ∧ Scanned c) ∧ g.Follows starts) ?_
    ⟨⟨readable_empty, hheader _ _ _ hc hx⟩, hempty⟩ h
  · rw [startsAfter, hx]
    exact hfollows.2
  · rintro g starts ts hne c e c' ⟨⟨⟨hg, hc⟩, hfollows⟩, rfl⟩ hx
    exact ⟨ensures_statement_readable hg _ _ _ ⟨hc, hne⟩ hx,
      ensures_statement_follows hfollows hne _ _ _ ⟨hc, rfl⟩ hx⟩

/-- Positions do not matter to the dates of a task `u`, so they are known of a task that is equal to
it without them. -/
theorem Task.ReadIn.of_unplaced {u : Task} (h : u.ReadIn format) (hsame : u.unplaced = t.unplaced) :
    t.ReadIn format := by
  obtain ⟨name, finish, id, status, start, position⟩ := t
  obtain ⟨name', finish', id', status', start', position'⟩ := u
  simp only [Task.unplaced, Task.mk.injEq, and_true] at hsame
  obtain ⟨rfl, rfl, rfl, rfl, rfl⟩ := hsame
  refine ⟨fun m hm => ?_, fun m hm => ?_⟩
  · obtain ⟨s, ⟨hpart, hdate, hquote⟩, hafter⟩ := h.start m hm
    exact ⟨s, ⟨hpart, hdate, hquote⟩, hafter⟩
  · obtain ⟨s, hpart, hdate, hquote⟩ := h.finish m hm
    exact ⟨s, hpart, hdate, hquote⟩

section

variable {layout : Layout} {src : String}
  (hblanks : ∀ c ∈ src.toList, isBlank c = true → isSpaceOrTab c = true ∨ isLineBreak c = true)
  (hfirst : ∀ segs, Document.segments src = .ok segs → ∀ s ∈ segs, FormatFirst (lineStarts s.text))

include hblanks hfirst

/-- If no `dateFormat` line of a document stands behind a line of a task, all dates of its charts
were read in the formats of the charts. -/
theorem readIn_of_formatFirst {p : Program} (h : Program.read src = .ok p)
    (hg : .gantt g ∈ p.diagrams) : ∀ t ∈ g.tasks, t.ReadIn g.config.dateFormat := by
  obtain ⟨segs, hsegs, s, hs, -, d, c, hread, hsame⟩ := Program.exists_segment_of_read h hg
  rw [Diagram.dialect, Reading.diagram, map_apply, Except.bind_eq_ok_iff] at hread
  obtain ⟨⟨e, c'⟩, he, hx⟩ := hread
  cases hx
  have hscanned : Scanned (.ofText .gantt s.text.toList) :=
    ⟨Token.scanned_ofText fun c hc => hblanks c (Document.mem_of_mem_text hsegs hs hc), rfl⟩
  have hdates := (follows_of_read hscanned he).dates (hfirst segs hsegs s hs)
  have hunplaced : e.Same g := Diagram.gantt.inj hsame
  intro t ht
  have hmem : t.unplaced ∈ e.tasks.map Task.unplaced := by
    rw [hunplaced.tasks_eq]
    exact List.mem_map_of_mem ht
  obtain ⟨u, hu, hut⟩ := List.mem_map.1 hmem
  rw [← hunplaced.config_eq]
  exact (hdates u hu).of_unplaced hut

/-- A chart that was read from a document in which no `dateFormat` line stands behind a line of a
task, and of which the format has a separator, reads back from what is written for it if and only if
the format has no null character, or the chart no dates. The only blanks of the document have to be
spaces, tabs and line breaks, and years have to be written in four digits. -/
theorem readsBack_iff_of_formatFirst (hlayout : layout.IsBlank)
    (h : Program.read src = .ok ⟨[.gantt g]⟩)
    (hseparator : ∃ c ∈ separators, c ∈ g.config.dateFormat.toList)
    (hyear : .year ∈ (DateFormat.ofText g.config.dateFormat).fields →
      ∀ t ∈ g.tasks, ∀ m ∈ t.dates, (DateFormat.Field.text m.reading .year).length = 4) :
    Program.ReadsBack layout ⟨[.gantt g]⟩ ↔
      '\x00' ∉ g.config.dateFormat.toList ∨ ∀ t ∈ g.tasks, t.dates = [] := by
  have hmem : Diagram.gantt g ∈ (⟨[.gantt g]⟩ : Program).diagrams := List.mem_singleton_self _
  obtain ⟨hreadable, hspelled, hordered⟩ := readable_of_mem hblanks h hmem
  have hdates := readIn_of_formatFirst hblanks hfirst h hmem
  rw [hreadable.readsBack_iff hlayout hspelled hordered]
  constructor
  · intro hsurvive
    by_cases hnull : '\x00' ∈ g.config.dateFormat.toList
    · exact .inr fun t ht => (hsurvive t ht).dates_eq_nil hnull
    · exact .inl hnull
  · rintro (hnull | hnone) t ht
    · exact (hdates t ht).survives (hspelled t ht)
        (quote_not_mem_dependencies hspelled hordered ht) hnull hseparator fun hfield =>
          hyear hfield t ht
    · exact (hspelled t ht).survives_of_dates_eq_nil
        (quote_not_mem_dependencies hspelled hordered ht) (hnone t ht)

end

/-- A format of days and hours, and a name that leaves a double quote open. -/
theorem readsBack_iff_of_formatFirst_hours : ∃ g : Gantt,
    Program.read ("gantt\n dateFormat DD-MM-YYYY HH\n section One\n" ++
      " a \"b : done, x, 01-01-2024 00, 2d\n c : after x, 01-03-2024 00\n") = .ok ⟨[.gantt g]⟩ ∧
      g.tasks.flatMap Task.dates ≠ [] ∧ Program.ReadsBack {} ⟨[.gantt g]⟩ := by
  let january : Moment := ⟨63839664000, by decide⟩
  let march : Moment := ⟨63844848000, by decide⟩
  let a : Task :=
    { name := "a \"b", finish := .duration ⟨2, .days⟩, id := some "x", status := some .done,
      start := some (.date january), position := some ⟨4, 1, 46⟩ }
  let c : Task :=
    { name := "c", finish := .date march, start := some (.after ["x"]),
      position := some ⟨5, 1, 81⟩ }
  let g : Gantt := ⟨{ dateFormat := "DD-MM-YYYY HH" }, [⟨"One", [a, c]⟩]⟩
  let src := "gantt\n dateFormat DD-MM-YYYY HH\n section One\n" ++
    " a \"b : done, x, 01-01-2024 00, 2d\n c : after x, 01-03-2024 00\n"
  have hread : Program.read src = .ok ⟨[.gantt g]⟩ := by decide +kernel
  have hsegs : Document.segments src = .ok [⟨.gantt, src, 1, 0⟩] := by decide +kernel
  have hfirst : ∀ segs, Document.segments src = .ok segs →
      ∀ s ∈ segs, FormatFirst (lineStarts s.text) := by
    intro segs h
    rw [hsegs] at h
    cases h
    exact List.forall_mem_singleton.2 (by decide +kernel)
  refine ⟨g, hread, by decide, (readsBack_iff_of_formatFirst (by decide +kernel) hfirst ?_ hread
    ⟨'-', by decide, by decide⟩ fun _ => by decide +kernel).2 (.inl (by decide))⟩
  simp [Layout.IsBlank, isSpaceOrTab]

/-- A format that ends with a null character comes first and has a separator, but the date that was
read in it is written without the null character. -/
theorem readsBack_lost_null : ∃ g : Gantt,
    Program.read "gantt\n dateFormat YYYY-MM-DD\x00\n section s\n t : 2024-01-01\x00\n" =
        .ok ⟨[.gantt g]⟩ ∧
      Document.segments "gantt\n dateFormat YYYY-MM-DD\x00\n section s\n t : 2024-01-01\x00\n" =
        .ok [⟨.gantt, "gantt\n dateFormat YYYY-MM-DD\x00\n section s\n t : 2024-01-01\x00\n", 1,
          0⟩] ∧
      FormatFirst (lineStarts
        "gantt\n dateFormat YYYY-MM-DD\x00\n section s\n t : 2024-01-01\x00\n") ∧
      ¬Program.ReadsBack {} ⟨[.gantt g]⟩ := by
  let t : Task :=
    { name := "t", finish := .date ⟨63839664000, by decide⟩, position := some ⟨4, 1, 42⟩ }
  exact ⟨⟨{ dateFormat := "YYYY-MM-DD\x00" }, [⟨"s", [t]⟩]⟩, by decide +kernel, by decide +kernel,
    by decide +kernel, by decide +kernel⟩

end Gantt
end DiagramText
