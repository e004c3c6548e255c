import DiagramText.Proofs.Calendar.Field
import DiagramText.Proofs.Text.Word
import Mathlib.Data.List.Induction
import Mathlib.Data.List.TakeWhile

/-!
# Dates that are written and read

A date that was read in a format has nothing but what the format says: each part of it was given by
the last field for that part, or is what it is without any field. So the fields of the date, written
and read in the same order, give the same date. Reading finds them again since each field is written
in the way that is tried first and a run of blanks is skipped as a whole. Only a null character in
the format stands in the way, since what is written ends before it.

* `DateFormat.Slot`: the parts of a date, with the fields for each of them.
* `DateFormat.readingOf_values`: fields that are set to the values of the date they gave.
* `DateFormat.fit_chars`: the fields of a written date are found again.
* `DateFormat.read?_write` and `DateFormat.read?_write_of_null`: a date is read from what is written
  for it, unless there is a null character in the format.
-/

namespace DiagramText.DateFormat

open Calendar Text

/-! ### What can be read of a field -/

theorem getD_digitValue?_le (c : Char) : (digitValue? c).getD 0 ≤ 9 := by
  unfold digitValue?
  split
  · next h =>
    have hle : c.toNat ≤ 57 := of_decide_eq_true (Bool.and_eq_true_iff.1 h).2
    show c.toNat - 48 ≤ 9
    omega
  · cases hfind : digitZeros.find? fun z => z ≤ c.toNat && c.toNat < z + 10 with
    | none => exact Nat.zero_le _
    | some z =>
      have hz := List.find?_some hfind
      simp only [Bool.and_eq_true, decide_eq_true_eq] at hz
      show c.toNat - z ≤ 9
      omega

/-- A digit between `low` and `high` has a value between theirs. -/
theorem getD_digitValue?_of_between {low high c : Char} (hlow : 48 ≤ low.toNat)
    (hhigh : high.toNat ≤ 57) (h : between low high c = true) :
    low.toNat - 48 ≤ (digitValue? c).getD 0 ∧ (digitValue? c).getD 0 ≤ high.toNat - 48 := by
  obtain ⟨hlow', hhigh'⟩ := Bool.and_eq_true_iff.1 h
  have hlow' : low.toNat ≤ c.toNat := of_decide_eq_true hlow'
  have hhigh' : c.toNat ≤ high.toNat := of_decide_eq_true hhigh'
  have hdigit : c.isDigit = true := Bool.and_eq_true_iff.2
    ⟨decide_eq_true (Nat.le_trans hlow hlow'), decide_eq_true (Nat.le_trans hhigh' hhigh)⟩
  rw [digitValue?, if_pos hdigit, Option.getD_some]
  omega

section Spelling

variable {p q : Char → Bool} {cs : List Char} {s : Spelling}

theorem of_mem_oneDigit (h : s ∈ oneDigit p cs) :
    ∃ c, cs = c :: s.2 ∧ p c = true ∧ s.1 = (digitValue? c).getD 0 := by
  unfold oneDigit at h
  split at h
  · next c cs =>
    split at h
    · next hc =>
      obtain rfl := List.mem_singleton.1 h
      exact ⟨c, rfl, hc, rfl⟩
    · cases h
  · cases h

theorem of_mem_twoDigits (h : s ∈ twoDigits p q cs) : ∃ c d, cs = c :: d :: s.2 ∧ p c = true ∧
    q d = true ∧ s.1 = 10 * (digitValue? c).getD 0 + (digitValue? d).getD 0 := by
  unfold twoDigits at h
  split at h
  · next c d cs =>
    split at h
    · next hcd =>
      obtain ⟨hc, hd⟩ := Bool.and_eq_true_iff.1 hcd
      obtain rfl := List.mem_singleton.1 h
      exact ⟨c, d, rfl, hc, hd, by simp [decimalValue]⟩
    · cases h
  · cases h

theorem of_mem_named {names : List (String × Nat)} (h : s ∈ named names cs) :
    ∃ e ∈ names, s = (e.2, cs.drop e.1.length) := by
  obtain ⟨e, he, hs⟩ := List.mem_filterMap.1 h
  dsimp only at hs
  split at hs
  · exact ⟨e, he, (Option.some.inj hs).symm⟩
  · cases hs

/-- What is left behind a field is the end of the text, in each of its `spellings`. -/
theorem Field.suffix_of_mem_spellings {x : Field} (h : s ∈ x.spellings cs) : s.2 <:+ cs := by
  -- what each of the forms leaves; the fields are made of these forms
  have hone : ∀ {p cs}, s ∈ oneDigit p cs → s.2 <:+ cs := by
    intro p cs h
    obtain ⟨c, rfl, -⟩ := of_mem_oneDigit h
    exact List.suffix_cons c s.2
  have htwo : ∀ {p q}, s ∈ twoDigits p q cs → s.2 <:+ cs := by
    intro p q h
    obtain ⟨c, d, rfl, -⟩ := of_mem_twoDigits h
    exact (List.suffix_cons d s.2).trans (List.suffix_cons c _)
  have hnamed : ∀ {names}, s ∈ named names cs → s.2 <:+ cs := by
    intro names h
    obtain ⟨e, -, rfl⟩ := of_mem_named h
    exact List.drop_suffix _ cs
  have hmonth : s ∈ monthNumber cs → s.2 <:+ cs := by
    intro h
    simp only [monthNumber, List.mem_append] at h
    rcases h with (h | h) | h
    · exact htwo h
    · exact htwo h
    · exact hone h
  cases x with
  | year =>
    simp only [spellings, fourDigits] at h
    split at h
    · obtain rfl := List.mem_singleton.1 h
      exact List.drop_suffix 4 cs
    · cases h
  | shortYear => exact htwo h
  | monthName | shortMonthName | halfDay => exact hnamed h
  | month | halfDayHour => exact hmonth h
  | day =>
    simp only [spellings, dayNumber, List.mem_append] at h
    rcases h with (((h | h) | h) | h) | h
    · exact htwo h
    · exact htwo h
    · exact htwo h
    · exact hone h
    · split at h
      · exact (hone h).trans (List.tail_suffix cs)
      · cases h
  | hour | second =>
    simp only [spellings, List.mem_append] at h
    rcases h with (h | h) | h
    · exact htwo h
    · exact htwo h
    · exact hone h
  | minute =>
    simp only [spellings, List.mem_append] at h
    rcases h with h | h
    · exact htwo h
    · exact hone h

/-- What holds of a value that can be read of a field, as far as it matters to what the value
means. -/
def Field.InRange : Field → Nat → Prop
  | shortYear, n => n ≤ 99
  | halfDayHour, n => 1 ≤ n ∧ n ≤ 12
  | halfDay, n => n ≤ 1
  | _, _ => True

theorem Field.inRange_of_mem_spellings {x : Field} (h : s ∈ x.spellings cs) : x.InRange s.1 := by
  cases x with
  | shortYear =>
    obtain ⟨c, d, -, -, -, hs⟩ := of_mem_twoDigits h
    have hc := getD_digitValue?_le c
    have hd := getD_digitValue?_le d
    show s.1 ≤ 99
    omega
  | halfDayHour =>
    show 1 ≤ s.1 ∧ s.1 ≤ 12
    have hnine : ∀ d, between '1' '9' d = true →
        1 ≤ (digitValue? d).getD 0 ∧ (digitValue? d).getD 0 ≤ 9 := fun d =>
      getD_digitValue?_of_between (by decide) (by decide)
    simp only [spellings, monthNumber, List.mem_append] at h
    -- the three ways to write a number from 1 to 12
    rcases h with (h | h) | h
    · obtain ⟨c, d, -, hc, hd, hs⟩ := of_mem_twoDigits h
      obtain rfl := beq_iff_eq.1 hc
      have hone : (digitValue? '1').getD 0 = 1 := rfl
      have hd : 0 ≤ (digitValue? d).getD 0 ∧ (digitValue? d).getD 0 ≤ 2 :=
        getD_digitValue?_of_between (by decide) (by decide) hd
      omega
    · obtain ⟨c, d, -, hc, hd, hs⟩ := of_mem_twoDigits h
      obtain rfl := beq_iff_eq.1 hc
      have hzero : (digitValue? '0').getD 0 = 0 := rfl
      have hd := hnine d hd
      omega
    · obtain ⟨c, -, hc, hs⟩ := of_mem_oneDigit h
      have hc := hnine c hc
      omega
  | halfDay =>
    obtain ⟨e, he, rfl⟩ := of_mem_named h
    have hall : ∀ e ∈ halfDayNames, e.2 ≤ 1 := by decide
    exact hall e he
  | _ => trivial

end Spelling

/-! ### Parts of a date -/

/-- A part of a date or time of day that fields can give. Several fields can give the same part. -/
inductive Slot where
  | year
  | month
  | day
  | hour
  | minute
  | second
deriving DecidableEq

/-- The part of a date that a field gives. The half of a day is a part of no date by itself. -/
def Field.slot? : Field → Option Slot
  | year | shortYear => some .year
  | monthName | shortMonthName | month => some .month
  | day => some .day
  | hour | halfDayHour => some .hour
  | minute => some .minute
  | second => some .second
  | halfDay => none

/-- A part of a date and time, which `Slot.ext` says are all of it. -/
def Slot.get (r : Calendar.Reading) : Slot → Nat
  | year => r.year
  | month => r.month
  | day => r.day
  | hour => r.hour
  | minute => r.minute
  | second => r.second

theorem Slot.ext {r r' : Calendar.Reading} (h : ∀ s : Slot, s.get r = s.get r') : r = r' := by
  obtain ⟨year, month, day, hour, minute, second⟩ := r
  have hyear := h .year
  have hmonth := h .month
  have hday := h .day
  have hhour := h .hour
  have hminute := h .minute
  have hsecond := h .second
  dsimp only [Slot.get] at *
  subst hyear hmonth hday hhour hminute hsecond
  rfl

/-- What a value `n` of a field means for the part that it gives, `half` being the half of the
day. -/
def Field.meaning (half : Option Nat) (n : Nat) : Field → Nat
  | shortYear => if n ≤ 68 then 2000 + n else 1900 + n
  | halfDayHour => hourOfHalfDay half n
  | _ => n

/-- The value `n` of a field `x` sets the part that the field gives, and no other. So of several
values the last one for a part counts. -/
theorem get_set (half : Option Nat) (r : Calendar.Reading) (x : Field) (n : Nat) (s : Slot) :
    s.get (set half r (x, n)) = if x.slot? = some s then x.meaning half n else s.get r := by
  cases x <;> cases s <;> rfl

/-- The hour `n` of a half day is the hour up to the half, and the half is the second one if it is
said to be. -/
theorem hourOfHalfDay_spec (half : Option Nat) {n : Nat} (hn : 1 ≤ n ∧ n ≤ 12) :
    hourOfHalfDay half n % 12 = n % 12 ∧ (12 ≤ hourOfHalfDay half n ↔ half = some 1) := by
  unfold hourOfHalfDay
  split <;> split
  · next h _ => exact ⟨by omega, iff_of_true (by omega) h⟩
  · next h _ => exact ⟨by omega, iff_of_true (by omega) h⟩
  · next h _ => exact ⟨by omega, iff_of_false (by omega) h⟩
  · next h _ => exact ⟨by omega, iff_of_false (by omega) h⟩

/-- A value means the same as the value that is written for the date `r` it gave. Two digits of a
year are enough since they were read as two digits. -/
theorem Field.meaning_value {half : Option Nat} {x : Field} {n : Nat} {r : Calendar.Reading}
    {s : Slot} (hrange : x.InRange n) (hslot : x.slot? = some s)
    (h : s.get r = x.meaning half n) (hhalf : ∀ k ∈ half, k ≤ 1) :
    x.meaning (half.map fun _ => halfDay.value r) (x.value r) = s.get r := by
  cases x with
  | year | monthName | shortMonthName | month | day | hour | minute | second =>
    cases hslot
    rfl
  | shortYear =>
    cases hslot
    have hrange : n ≤ 99 := hrange
    have h : r.year = if n ≤ 68 then 2000 + n else 1900 + n := h
    show (if r.year % 100 ≤ 68 then 2000 + r.year % 100 else 1900 + r.year % 100) = r.year
    have hvalue : r.year % 100 = n := by
      rw [h]
      split <;> omega
    rw [hvalue, h]
  | halfDayHour =>
    cases hslot
    have hrange : 1 ≤ n ∧ n ≤ 12 := hrange
    have h : r.hour = hourOfHalfDay half n := h
    obtain ⟨hmod, hsecond⟩ := hourOfHalfDay_spec half hrange
    rw [← h] at hmod hsecond
    have hvalue : halfDayHour.value r = n := by
      show (if r.hour % 12 = 0 then 12 else r.hour % 12) = n
      split <;> omega
    -- the half that is written for the hour is the one that it was read with
    have hmark : (half.map fun _ => halfDay.value r) = half := by
      cases half with
      | none => rfl
      | some k =>
        have hk := hhalf k rfl
        show some (if r.hour < 12 then 0 else 1) = some k
        rw [Option.some.injEq] at hsecond ⊢
        split <;> omega
    show hourOfHalfDay _ _ = r.hour
    rw [hmark, hvalue, h]
  | halfDay => cases hslot

/-- The values of the `fields` of a date. -/
def valuesFor (r : Calendar.Reading) (fields : List Field) : Values :=
  fields.map fun x => (x, x.value r)

theorem lookup_valuesFor (r : Calendar.Reading) (values : Values) (x : Field) :
    (valuesFor r (values.map Prod.fst)).lookup x =
      (values.lookup x).map fun _ => x.value r := by
  induction values with
  | nil => rfl
  | cons v values ih =>
    obtain ⟨y, n⟩ := v
    show List.lookup x ((y, y.value r) :: valuesFor r (values.map Prod.fst)) = _
    rw [List.lookup_cons, List.lookup_cons, ih]
    cases hx : x == y with
    | true =>
      rw [beq_iff_eq.1 hx]
      rfl
    | false => rfl

/-- Fields that are set to the `values` of the date they gave leave that date as it is. -/
theorem readingOf_values {values : Values} (h : ∀ v ∈ values, v.1.InRange v.2) :
    readingOf (valuesFor (readingOf values) (values.map Prod.fst)) = readingOf values := by
  have hhalf : ∀ k ∈ values.lookup .halfDay, k ≤ 1 := by
    intro k hk
    obtain ⟨before, after, hvalues, -⟩ := List.lookup_eq_some_iff.1 hk
    exact h (.halfDay, k) (by rw [hvalues]; exact List.mem_append_right _ List.mem_cons_self)
  generalize hr : readingOf values = r
  unfold readingOf at hr ⊢
  rw [lookup_valuesFor]
  generalize values.lookup .halfDay = half at hr hhalf
  -- the last value for a part of the date is the one that counts, so the induction is from the end
  have hslot : ∀ s : Slot, s.get (values.foldl (set half) {}) = s.get r →
      s.get ((valuesFor r (values.map Prod.fst)).foldl
        (set (half.map fun _ => Field.value r .halfDay)) {}) = s.get r := by
    clear hr
    induction values using List.reverseRecOn with
    | nil => exact fun s hs => hs
    | append_singleton values v ih =>
      obtain ⟨x, n⟩ := v
      intro s hs
      have ih := ih (fun v hv => h v (List.mem_append_left _ hv)) s
      have hx : x.InRange n := h (x, n) (by simp)
      rw [List.foldl_append, List.foldl_cons, List.foldl_nil, get_set] at hs
      show s.get ((valuesFor r ((values ++ [(x, n)]).map Prod.fst)).foldl _ _) = _
      rw [valuesFor, List.map_append, List.map_append, List.foldl_append, List.map_singleton,
        List.map_singleton, List.foldl_cons, List.foldl_nil, get_set]
      split at hs
      · next hxs =>
        rw [if_pos hxs]
        exact Field.meaning_value hx hxs hs.symm hhalf
      · next hxs =>
        rw [if_neg hxs]
        exact ih hs
  exact Slot.ext fun s => hslot s (congrArg s.get hr)

/-! ### Fitting a text -/

/-- The field that a pattern reads, if it reads any. -/
def Pattern.field? : Pattern → Option Field
  | field x => some x
  | _ => none

theorem fields_patterns (f : DateFormat) : f.patterns.filterMap Pattern.field? = f.fields := by
  induction f with
  | nil => rfl
  | cons p f ih =>
    cases p with
    | field x =>
      show x :: (patterns f).filterMap Pattern.field? = x :: fields f
      rw [ih]
    | literal c =>
      show (patterns (.literal c :: f)).filterMap Pattern.field? = fields f
      rw [← ih, patterns]
      split
      · rfl
      · split
        · next heq => rw [heq]
        · rfl

/-- Skipping blanks in `cs` leaves a text behind one blank at least. -/
theorem of_mem_blankSkips {cs rest : List Char} (h : rest ∈ blankSkips cs) :
    ∃ b, cs = b ++ rest ∧ b ≠ [] ∧ ∀ c ∈ b, isBlank c = true := by
  obtain ⟨k, hk, rfl⟩ := List.mem_map.1 h
  rw [List.mem_range] at hk
  generalize hn : (cs.takeWhile isBlank).length = n at hk
  refine ⟨cs.take (n - k), (List.take_append_drop _ _).symm, ?_, fun c hc => ?_⟩
  · have hle : n ≤ cs.length := hn ▸ (List.takeWhile_prefix isBlank).length_le
    rw [← List.length_pos_iff, List.length_take]
    omega
  · have htake : cs.take n = cs.takeWhile isBlank := by
      rw [← hn]
      exact (List.prefix_iff_eq_take.1 (List.takeWhile_prefix isBlank)).symm
    have hmem : c ∈ cs.take n := (List.take_prefix_take_left (by omega)).subset hc
    rw [htake] at hmem
    exact List.all_eq_true.1 List.all_takeWhile c hmem

/-- All blanks in `cs` are skipped if the rest fits then, since as many as possible are tried
first. -/
theorem fit_blanks {ps : List Pattern} {cs : List Char} {a : Values × List Char}
    (hblank : ∃ c ∈ cs.head?, isBlank c = true) (h : fit ps (cs.dropWhile isBlank) = some a) :
    fit (.blanks :: ps) cs = some a := by
  obtain ⟨c, hc, hblank⟩ := hblank
  obtain ⟨cs, rfl⟩ : ∃ ds, cs = c :: ds := by
    cases cs with
    | nil => cases hc
    | cons d ds => exact ⟨ds, by rw [Option.some.inj hc]⟩
  have hrun : (c :: cs).takeWhile isBlank = c :: cs.takeWhile isBlank :=
    List.takeWhile_cons_of_pos hblank
  have hall : (c :: cs).drop ((cs.takeWhile isBlank).length + 1) = (c :: cs).dropWhile isBlank := by
    rw [List.dropWhile_cons_of_pos hblank, List.drop_succ_cons]
    calc cs.drop (cs.takeWhile isBlank).length
        = (cs.takeWhile isBlank ++ cs.dropWhile isBlank).drop (cs.takeWhile isBlank).length := by
          rw [List.takeWhile_append_dropWhile]
      _ = cs.dropWhile isBlank := List.drop_left
  rw [fit, blankSkips, hrun, List.length_cons, List.range_succ_eq_map, List.map_cons,
    List.findSome?_cons, Nat.sub_zero, hall, h]

/-- The values of a text that fits are in the order of the fields, and each of them can be read of
its field. What is `left` is the end of the text. -/
theorem of_fit {ps : List Pattern} {cs left : List Char} {values : Values}
    (h : fit ps cs = some (values, left)) :
    values.map Prod.fst = ps.filterMap Pattern.field? ∧ (∀ v ∈ values, v.1.InRange v.2) ∧
      left <:+ cs := by
  induction ps generalizing cs values with
  | nil =>
    cases h
    exact ⟨rfl, nofun, List.suffix_refl _⟩
  | cons p ps ih =>
    cases p with
    -- the digits of a field may be taken in several ways; this is the one that fits
    | field x =>
      obtain ⟨⟨n, rest⟩, hmem, h⟩ := List.exists_of_findSome?_eq_some h
      obtain ⟨⟨values, left⟩, h, heq⟩ := Option.map_eq_some_iff.1 h
      cases heq
      obtain ⟨hfields, hrange, hsuffix⟩ := ih h
      refine ⟨?_, List.forall_mem_cons.2 ⟨x.inRange_of_mem_spellings hmem, hrange⟩,
        hsuffix.trans (x.suffix_of_mem_spellings hmem)⟩
      show x :: values.map Prod.fst = x :: ps.filterMap Pattern.field?
      rw [hfields]
    | letter c =>
      cases cs with
      | nil => cases h
      | cons d cs =>
        rw [fit, Option.ite_none_right_eq_some] at h
        obtain ⟨hfields, hrange, hsuffix⟩ := ih h.2
        exact ⟨hfields, hrange, hsuffix.trans (List.suffix_cons d cs)⟩
    | blanks =>
      obtain ⟨rest, hmem, hrest⟩ := List.exists_of_findSome?_eq_some h
      obtain ⟨b, rfl, -⟩ := of_mem_blankSkips hmem
      obtain ⟨hfields, hrange, hsuffix⟩ := ih hrest
      exact ⟨hfields, hrange, hsuffix.trans (List.suffix_append b rest)⟩

/-! ### Written dates -/

/-- A part of a format as it is written for the date `r`. -/
def Part.chars (r : Calendar.Reading) : Part → List Char
  | field x => (x.text r).toList
  | literal c => [c]

/-- A format as it is written, without regard to null characters. Up to the first of them it is what
`write` gives. -/
def chars (f : DateFormat) (r : Calendar.Reading) : List Char := f.flatMap (Part.chars r)

theorem toList_write (f : DateFormat) (m : Moment) :
    (f.write m).toList = f.written.chars m.reading := by
  rw [write, String.toList_join, List.flatMap_map, chars]
  refine List.flatMap_congr fun p _ => ?_
  cases p with
  | field x => rfl
  | literal c => exact String.toList_singleton c

/-- The text of a field `x` is made of ASCII letters and digits, so it holds no separator. -/
theorem Field.isAlphanum_of_mem_text {r : Calendar.Reading} {x : Field} :
    ∀ c ∈ (x.text r).toList, c.isAlphanum = true := by
  have hdigit : ∀ c : Char, c.isDigit = true → c.isAlphanum = true := fun c hc => by
    rw [Char.isAlphanum, hc, Bool.or_true]
  have hpadded : ∀ n, ∀ c ∈ (padded n).toList, c.isAlphanum = true := by
    intro n c hc
    unfold padded at hc
    split at hc
    · rw [String.toList_append, List.mem_append] at hc
      rcases hc with hc | hc
      · rw [List.mem_singleton.1 hc]
        decide
      · exact hdigit c (isDigit_of_mem_toString c hc)
    · exact hdigit c (isDigit_of_mem_toString c hc)
  have hname : ∀ n : Nat, ∀ c ∈ (monthNames[n]?.getD "").toList, c.isAlphanum = true := by
    intro n
    cases hn : monthNames[n]? with
    | none => exact List.forall_mem_nil _
    | some name =>
      have hall : ∀ name ∈ monthNames, ∀ c ∈ name.toList, c.isAlphanum = true := by decide
      exact hall name (List.mem_of_getElem? hn)
  -- a field is a number, a padded number, a month name or one of AM and PM
  cases x with
  | year => exact fun c hc => hdigit c (isDigit_of_mem_toString c hc)
  | shortYear | month | day | hour | halfDayHour | minute | second => exact hpadded _
  | monthName => exact hname _
  | shortMonthName =>
    intro c hc
    rw [text, String.toList_ofList] at hc
    exact hname (r.month - 1) c (List.mem_of_mem_take hc)
  | halfDay =>
    show ∀ c ∈ (if r.hour < 12 then "AM" else "PM").toList, c.isAlphanum = true
    split <;> decide

theorem Field.text_ne_nil {r : Calendar.Reading} (hr : r.isValid = true) (x : Field) :
    (x.text r).toList ≠ [] := by
  obtain ⟨hmonth, hmonth'⟩ := month_le_of_isValid hr
  have hnumber : ∀ n : Nat, (toString n).toList ≠ [] := by
    intro n
    rw [Nat.toString_eq_ofList_toDigits, String.toList_ofList]
    exact Nat.toDigits_ne_nil
  have hpadded : ∀ n, (padded n).toList ≠ [] := by
    intro n
    unfold padded
    split
    · rw [String.toList_append]
      exact List.append_ne_nil_of_left_ne_nil (by decide) _
    · exact hnumber n
  -- the month is one of twelve, since the date is valid
  have hname : ∀ n ≤ 12, 1 ≤ n → ((monthNames[n - 1]?.getD "").toList.take 3) ≠ [] := by
    decide
  have hname := hname r.month hmonth' hmonth
  cases x with
  | year => exact hnumber _
  | shortYear | month | day | hour | halfDayHour | minute | second => exact hpadded _
  | monthName =>
    intro h
    exact hname (by rw [show (monthNames[r.month - 1]?.getD "").toList = [] from h]; rfl)
  | shortMonthName =>
    rw [text, String.toList_ofList]
    exact hname
  | halfDay =>
    show (if r.hour < 12 then "AM" else "PM").toList ≠ []
    split <;> decide

theorem Field.isBlank_of_mem_text {r : Calendar.Reading} {x : Field} :
    ∀ c ∈ (x.text r).toList, isBlank c = false := fun c hc =>
  isBlank_of_isAsciiWord (by rw [isAsciiWord, isAlphanum_of_mem_text c hc, Bool.true_or])

/-- Blanks in a format `f` are a pattern of their own, in which the run of them is one. -/
theorem exists_patterns_cons {c : Char} (hc : isBlank c = true) (f : DateFormat) :
    ∃ ps, patterns (.literal c :: f) = .blanks :: ps := by
  rw [patterns, hc, Bool.not_true, if_neg Bool.false_ne_true]
  split
  · exact ⟨_, rfl⟩
  · exact ⟨_, rfl⟩

/-- A written format `f` starts with a blank only if its patterns do, for no field is written with a
blank first. -/
theorem head_chars {r : Calendar.Reading} (hr : r.isValid = true) {f : DateFormat}
    (h : ∀ ps, f.patterns ≠ .blanks :: ps) : ∀ c ∈ (f.chars r).head?, isBlank c = false := by
  intro c hc
  cases f with
  | nil => cases hc
  | cons p f =>
    cases p with
    | field x =>
      obtain ⟨d, ds, hd⟩ := List.exists_cons_of_ne_nil (x.text_ne_nil hr)
      have hhead : (chars (.field x :: f) r).head? = some d := by
        show ((x.text r).toList ++ chars f r).head? = some d
        rw [hd]
        rfl
      rw [hhead] at hc
      obtain rfl := Option.some.inj hc
      exact Field.isBlank_of_mem_text d (hd ▸ List.mem_cons_self)
    | literal d =>
      obtain rfl := Option.some.inj hc
      cases hblank : isBlank d with
      | false => rfl
      | true =>
        obtain ⟨ps, hps⟩ := exists_patterns_cons hblank f
        exact absurd hps (h ps)

/-- The fields of a written date `r` are found again, and the whole text is used up. Years have to
be written in four digits. -/
theorem fit_chars {r : Calendar.Reading} (hr : r.isValid = true) {f : DateFormat}
    (hyear : .year ∈ f.fields → (Field.text r .year).length = 4) :
    fit f.patterns (f.chars r) = some (valuesFor r f.fields, []) := by
  -- where blanks come first, what stands behind all of them has to fit
  suffices h : ∀ f : DateFormat, (Field.year ∈ f.fields → (Field.text r .year).length = 4) →
      fit f.patterns (f.chars r) = some (valuesFor r f.fields, []) ∧
        ∀ ps, f.patterns = .blanks :: ps →
          fit ps ((f.chars r).dropWhile isBlank) = some (valuesFor r f.fields, []) from
    (h f hyear).1
  intro f hyear
  induction f with
  | nil => exact ⟨rfl, nofun⟩
  | cons p f ih =>
    cases p with
    | field x =>
      have hrest := (ih fun h => hyear (List.mem_cons_of_mem x h)).1
      have hx := Field.head?_spellings_text hr (x := x)
        (by rintro rfl; exact hyear List.mem_cons_self) (chars f r)
      obtain ⟨s, hs⟩ := List.head?_eq_some_iff.1 hx
      refine ⟨?_, nofun⟩
      show (x.spellings ((x.text r).toList ++ chars f r)).findSome? _ = _
      rw [hs, List.findSome?_cons]
      dsimp only
      rw [hrest]
      rfl
    | literal c =>
      obtain ⟨hrest, hskip⟩ := ih hyear
      show fit (patterns (.literal c :: f)) (c :: chars f r) = some (valuesFor r (fields f), []) ∧
        ∀ ps, patterns (.literal c :: f) = .blanks :: ps →
          fit ps ((c :: chars f r).dropWhile isBlank) = some (valuesFor r (fields f), [])
      rw [patterns]
      cases hblank : isBlank c with
      | false =>
        refine ⟨?_, nofun⟩
        show (if sameLetter c c then fit (patterns f) (chars f r) else none) = _
        rw [sameLetter, beq_self_eq_true, if_pos rfl, hrest]
      | true =>
        have hhead : ∃ d ∈ (c :: chars f r).head?, isBlank d = true := ⟨c, rfl, hblank⟩
        rw [Bool.not_true, if_neg Bool.false_ne_true, List.dropWhile_cons_of_pos hblank]
        split
        · next ps heq =>
          have hfit := hskip ps heq
          refine ⟨fit_blanks hhead ?_, fun qs hqs => ?_⟩
          · rwa [List.dropWhile_cons_of_pos hblank]
          · cases hqs
            exact hfit
        · next hne =>
          have hfit : fit (patterns f) ((chars f r).dropWhile isBlank) =
              some (valuesFor r (fields f), []) := by
            rw [dropWhile_eq_self (head_chars hr fun ps h => hne ps h), hrest]
          refine ⟨fit_blanks hhead ?_, fun qs hqs => ?_⟩
          · rwa [List.dropWhile_cons_of_pos hblank]
          · cases hqs
            exact hfit

/-! ### Blanks at the ends -/

/-- A format `f` that ends with a blank has patterns that end with blanks. -/
theorem exists_patterns_append {c : Char} (hc : isBlank c = true) (f : DateFormat) :
    ∃ ps, patterns (f ++ [.literal c]) = ps ++ [.blanks] := by
  induction f with
  | nil =>
    refine ⟨[], ?_⟩
    rw [List.nil_append, patterns, hc]
    rfl
  | cons p f ih =>
    obtain ⟨ps, hps⟩ := ih
    cases p with
    | field x =>
      refine ⟨.field x :: ps, ?_⟩
      show Pattern.field x :: patterns (f ++ [.literal c]) = _
      rw [hps]
      rfl
    | literal d =>
      rw [List.cons_append, patterns, hps]
      cases isBlank d with
      | false => exact ⟨.letter d :: ps, rfl⟩
      -- Blanks next to one another make one pattern, so `d` may go into the one behind it.
      | true =>
        cases ps with
        | nil => exact ⟨[], rfl⟩
        | cons q ps =>
          cases q with
          | blanks => exact ⟨.blanks :: ps, rfl⟩
          | field x => exact ⟨.blanks :: .field x :: ps, rfl⟩
          | letter e => exact ⟨.blanks :: .letter e :: ps, rfl⟩

/-- A text `cs` that fits patterns that end with blanks ends with a blank. -/
theorem last_of_fit_blanks {ps : List Pattern} {cs : List Char} {values : Values}
    (h : fit (ps ++ [.blanks]) cs = some (values, [])) : ∃ c ∈ cs.getLast?, isBlank c = true := by
  -- `fit` only goes forward, so the end of what is left is the end of the text
  have hlift : ∀ {cs rest : List Char}, rest <:+ cs → (∃ c ∈ rest.getLast?, isBlank c = true) →
      ∃ c ∈ cs.getLast?, isBlank c = true := by
    rintro cs rest ⟨b, rfl⟩ ⟨c, hc, hblank⟩
    refine ⟨c, ?_, hblank⟩
    rw [List.getLast?_append, Option.mem_def.1 hc]
    rfl
  induction ps generalizing cs values with
  | nil =>
    obtain ⟨rest, hmem, hrest⟩ := List.exists_of_findSome?_eq_some h
    obtain ⟨b, rfl, hne, hblank⟩ := of_mem_blankSkips hmem
    obtain ⟨-, rfl⟩ := Prod.mk.inj (Option.some.inj hrest)
    rw [List.append_nil]
    exact ⟨b.getLast hne, List.getLast?_eq_some_getLast hne, hblank _ (List.getLast_mem hne)⟩
  | cons p ps ih =>
    cases p with
    | field x =>
      obtain ⟨⟨n, rest⟩, hmem, hrest⟩ := List.exists_of_findSome?_eq_some h
      obtain ⟨⟨values', left⟩, hfit, heq⟩ := Option.map_eq_some_iff.1 hrest
      obtain ⟨-, rfl⟩ := Prod.mk.inj heq
      exact hlift (x.suffix_of_mem_spellings hmem) (ih hfit)
    | letter c =>
      cases cs with
      | nil => cases h
      | cons d cs =>
        rw [List.cons_append, fit, Option.ite_none_right_eq_some] at h
        exact hlift (List.suffix_cons d cs) (ih h.2)
    | blanks =>
      obtain ⟨rest, hmem, hrest⟩ := List.exists_of_findSome?_eq_some h
      obtain ⟨b, rfl, -⟩ := of_mem_blankSkips hmem
      exact hlift (List.suffix_append b rest) (ih hrest)

/-- If a trimmed text `cs` can be read in a format `f`, what is written in the format is trimmed. A
blank at either end of the format would have asked for one in the text. -/
theorem trimmed_chars {f : DateFormat} {cs : List Char} (hcs : Trimmed cs) {values : Values}
    (h : fit f.patterns cs = some (values, [])) {r : Calendar.Reading} (hr : r.isValid = true) :
    Trimmed (f.chars r) where
  head := by
    refine head_chars hr fun ps hps => ?_
    rw [hps] at h
    obtain ⟨rest, hmem, -⟩ := List.exists_of_findSome?_eq_some h
    obtain ⟨b, rfl, hne, hblank⟩ := of_mem_blankSkips hmem
    obtain ⟨c, b, rfl⟩ := List.exists_cons_of_ne_nil hne
    have hc := hcs.head c rfl
    -- The format would start with a blank, which asks for one in `cs`, but that is trimmed.
    rw [hblank c List.mem_cons_self] at hc
    cases hc
  last := by
    rcases List.eq_nil_or_concat f with rfl | ⟨g, p, rfl⟩
    · exact nofun
    · intro c hc
      rw [List.concat_eq_append, chars, List.flatMap_append, List.flatMap_singleton,
        List.getLast?_append] at hc
      cases p with
      -- A field ends with what its text does, and no text of a field has a blank.
      | field x =>
        have hlast := List.getLast?_eq_some_getLast (x.text_ne_nil hr)
        rw [Part.chars, hlast, Option.some_or] at hc
        obtain rfl := Option.some.inj hc
        exact Field.isBlank_of_mem_text _ (List.getLast_mem (x.text_ne_nil hr))
      -- A literal at the end is blank only if `cs` ends with a blank.
      | literal d =>
        obtain rfl : d = c := Option.some.inj hc
        cases hblank : isBlank d with
        | false => rfl
        | true =>
          obtain ⟨ps, hps⟩ := exists_patterns_append hblank g
          rw [List.concat_eq_append, hps] at h
          obtain ⟨c, hc, hc'⟩ := last_of_fit_blanks h
          rw [hcs.last c hc] at hc'
          cases hc'

/-! ### Reading what is written -/

theorem exists_of_read? {f : DateFormat} {cs : List Char} {m : Moment} (h : f.read? cs = some m) :
    ∃ values, fit f.patterns cs = some (values, []) ∧
      Moment.ofReading? (readingOf values) = some m := by
  unfold read? at h
  split at h
  · next values hfit => exact ⟨values, hfit, h⟩
  · cases h

theorem isValid_of_ofReading? {r : Calendar.Reading} {m : Moment}
    (h : Moment.ofReading? r = some m) : r.isValid = true := by
  unfold Moment.ofReading? at h
  rw [Option.ite_none_right_eq_some] at h
  exact h.1

/-- Without a null character all of a format `f` is written. -/
theorem written_eq_self {f : DateFormat} (h : .literal '\x00' ∉ f) : f.written = f :=
  List.takeWhile_eq_self_iff.2 fun _ hp => bne_iff_ne.2 (ne_of_mem_of_not_mem hp h)

variable {f : DateFormat} {cs : List Char} {m : Moment}

/-- A date that was read in a format `f` without a null character is read from what is written for
it. If the year is written, it has to be in four digits. -/
theorem read?_write (h : f.read? cs = some m) (hnull : .literal '\x00' ∉ f)
    (hyear : .year ∈ f.fields → (Field.text m.reading .year).length = 4) :
    f.read? (f.write m).toList = some m := by
  obtain ⟨values, hfit, hm⟩ := exists_of_read? h
  obtain ⟨hfields, hrange, -⟩ := of_fit hfit
  have hreading := Moment.reading_of_ofReading? hm
  rw [hreading] at hyear
  rw [toList_write, written_eq_self hnull, hreading, read?,
    fit_chars (isValid_of_ofReading? hm) hyear, ← fields_patterns, ← hfields]
  dsimp only
  rw [readingOf_values hrange, hm]

/-- What is written for `m` neither starts nor ends with a blank, if what was read did not. -/
theorem trimmed_write (h : f.read? cs = some m) (hnull : .literal '\x00' ∉ f)
    (hcs : Trimmed cs) : Trimmed (f.write m).toList := by
  obtain ⟨values, hfit, hm⟩ := exists_of_read? h
  rw [toList_write, written_eq_self hnull, Moment.reading_of_ofReading? hm]
  exact trimmed_chars hcs hfit (isValid_of_ofReading? hm)

/-! ### Letters in either case -/

/-- A character beyond ASCII has a lower case beyond ASCII, but for a capital `I` with a dot above
and the sign for kelvin. -/
theorem lowerCode_cases {n : Nat} (hn : 128 ≤ n) :
    128 ≤ lowerCode n ∨ lowerCode n = 0x69 ∨ lowerCode n = 0x6b := by
  have hruns : lowerRuns.all (fun r => 128 ≤ r.2.2.2 ||
      r.1 == r.2.1 && (r.2.2.2 == 0x69 || r.2.2.2 == 0x6b)) = true := by decide
  rw [lowerCode, if_neg (by omega)]
  split
  · next first last step lower hfind =>
    have hrange := List.find?_some hfind
    have hrun := List.all_eq_true.1 hruns _ (List.mem_of_find?_eq_some hfind)
    simp only [Bool.and_eq_true, Bool.or_eq_true, decide_eq_true_eq, beq_iff_eq] at hrange hrun
    omega
  · exact .inl hn

theorem toNat_toLower {c : Char} (hc : c.toNat < 128) : c.toLower.toNat = lowerCode c.toNat := by
  rw [lowerCode, if_pos hc]
  unfold Char.toLower
  split
  · next hupper =>
    have hge : 65 ≤ c.toNat := hupper.1
    have hle : c.toNat ≤ 90 := hupper.2
    rw [if_pos (by simpa using ⟨hge, hle⟩)]
    show (c.val + 32).toNat = c.val.toNat + 32
    have hval : c.val.toNat ≤ 90 := hle
    rw [UInt32.toNat_add]
    exact Nat.mod_eq_of_lt (by simp; omega)
  · next hupper =>
    have hcode : ¬(65 ≤ c.toNat ∧ c.toNat ≤ 90) := hupper
    exact (if_neg (by simpa using hcode)).symm

/-- Of the ASCII characters only `i`, `k` and `s` have forms beyond ASCII. All others are the same
letter only as characters with the same lower case. -/
theorem toLower_of_sameLetter {c d : Char} (hc : c.toNat < 128)
    (hlower : c.toLower ∉ ['i', 'k', 's'])
    (h : sameLetter c d = true) : d.toNat < 128 ∧ d.toLower = c.toLower := by
  have hforms : ∀ e ∈ letterForms, 128 ≤ e.1 ∧ (128 ≤ e.2 ∨ e.2 = 0x69 ∨ e.2 = 0x73) := by decide
  have hascii : lowerCode c.toNat < 128 := by
    rw [lowerCode, if_pos hc]
    split
    · next hupper =>
      simp only [Bool.and_eq_true, decide_eq_true_eq] at hupper
      omega
    · exact hc
  have hlookup : ∀ n k, letterForms.lookup n = some k →
      128 ≤ n ∧ (128 ≤ k ∨ k = 0x69 ∨ k = 0x73) := by
    intro n k hk
    obtain ⟨before, after, hlist, -⟩ := List.lookup_eq_some_iff.1 hk
    exact hforms (n, k) (by rw [hlist]; exact List.mem_append_right _ List.mem_cons_self)
  -- an ASCII character stands for itself
  have hcode : letterCode c = lowerCode c.toNat := by
    show (letterForms.lookup (lowerCode c.toNat)).getD _ = _
    cases hk : letterForms.lookup (lowerCode c.toNat) with
    | none => rfl
    | some k => exact absurd (hlookup _ k hk).1 (by omega)
  have hne : ∀ e ∈ ['i', 'k', 's'], lowerCode c.toNat ≠ e.toNat := by
    intro e he heq
    rw [← toNat_toLower hc] at heq
    exact hlower (Char.toNat_inj.1 heq ▸ he)
  simp only [List.mem_cons, List.not_mem_nil, or_false, forall_eq_or_imp, forall_eq,
    Char.reduceToNat] at hne
  have heq : letterCode d = lowerCode c.toNat := hcode ▸ (beq_iff_eq.1 h).symm
  -- and a form of another one stands for one of the three
  have hdcode : lowerCode d.toNat = lowerCode c.toNat := by
    change (letterForms.lookup (lowerCode d.toNat)).getD _ = _ at heq
    cases hk : letterForms.lookup (lowerCode d.toNat) with
    | none => rwa [hk] at heq
    | some k =>
      have hk' := (hlookup _ k hk).2
      rw [hk, Option.getD_some] at heq
      omega
  have hd : d.toNat < 128 := by
    by_contra hd
    have hcases := lowerCode_cases (Nat.le_of_not_lt hd)
    omega
  refine ⟨hd, Char.toNat_inj.1 ?_⟩
  rw [toNat_toLower hd, toNat_toLower hc, hdcode]

/-- A character below the letters is the same letter only as itself, by `letterCode`. -/
theorem eq_of_sameLetter {c d : Char} (hc : c.toNat < 65) (h : sameLetter c d = true) : d = c := by
  have hself : c.toLower = c := dif_neg fun hupper => by
    have hge : 65 ≤ c.toNat := hupper.1
    omega
  have hletters : ∀ e ∈ ['i', 'k', 's'], 65 ≤ e.toNat := by decide
  obtain ⟨hd, hlower⟩ := toLower_of_sameLetter (by omega)
    (by rw [hself]; exact fun hmem => absurd (hletters c hmem) (by omega)) h
  rw [hself] at hlower
  have hcode := toNat_toLower hd
  rw [hlower, lowerCode, if_pos hd] at hcode
  split at hcode
  · next hupper =>
    simp only [Bool.and_eq_true, decide_eq_true_eq] at hupper
    omega
  · exact Char.toNat_inj.1 hcode.symm

/-! ### Literal characters -/

/-- A text `cs` that fits has every letter of the patterns, in some letter case. -/
theorem exists_mem_of_fit {ps : List Pattern} {cs left : List Char} {values : Values} {c : Char}
    (h : fit ps cs = some (values, left)) (hc : .letter c ∈ ps) :
    ∃ d ∈ cs, sameLetter c d = true := by
  -- a letter that is in what is left is in the text
  have hlift : ∀ {cs rest : List Char}, rest <:+ cs → (∃ d ∈ rest, sameLetter c d = true) →
      ∃ d ∈ cs, sameLetter c d = true := fun hsuffix ⟨d, hd, hsame⟩ =>
    ⟨d, hsuffix.subset hd, hsame⟩
  induction ps generalizing cs values with
  | nil => cases hc
  | cons p ps ih =>
    cases p with
    | field x =>
      have hc : .letter c ∈ ps := (List.mem_cons.1 hc).resolve_left nofun
      obtain ⟨⟨n, rest⟩, hmem, hrest⟩ := List.exists_of_findSome?_eq_some h
      obtain ⟨⟨values', left'⟩, hfit, heq⟩ := Option.map_eq_some_iff.1 hrest
      obtain ⟨-, rfl⟩ := Prod.mk.inj heq
      exact hlift (x.suffix_of_mem_spellings hmem) (ih hfit hc)
    | letter e =>
      cases cs with
      | nil => cases h
      | cons d cs =>
        rw [fit, Option.ite_none_right_eq_some] at h
        rcases List.mem_cons.1 hc with hc | hc
        · cases hc
          exact ⟨d, List.mem_cons_self, h.1⟩
        · exact hlift (List.suffix_cons d cs) (ih h.2 hc)
    | blanks =>
      have hc : .letter c ∈ ps := (List.mem_cons.1 hc).resolve_left nofun
      obtain ⟨rest, hmem, hrest⟩ := List.exists_of_findSome?_eq_some h
      obtain ⟨b, rfl, -⟩ := of_mem_blankSkips hmem
      exact hlift (List.suffix_append b rest) (ih hrest hc)

/-- A literal `c` that is no blank has to be in the text, as a pattern of its own. -/
theorem letter_mem_patterns {c : Char} (hc : isBlank c = false) (h : .literal c ∈ f) :
    .letter c ∈ f.patterns := by
  induction f with
  | nil => cases h
  | cons p f ih =>
    cases p with
    | field x => exact List.mem_cons_of_mem _ (ih ((List.mem_cons.1 h).resolve_left nofun))
    | literal d =>
      show .letter c ∈ patterns (.literal d :: f)
      rw [patterns]
      rcases List.mem_cons.1 h with h | h
      · cases h
        rw [hc]
        exact List.mem_cons_self
      · have hmem := ih h
        split
        · exact List.mem_cons_of_mem _ hmem
        · split
          · next heq => rwa [heq] at hmem
          · exact List.mem_cons_of_mem _ hmem

/-- A part that stands for itself in the format of `cs` is one of its characters. -/
theorem mem_of_literal_mem {cs : List Char} {e : Char} (h : .literal e ∈ ofChars cs) : e ∈ cs := by
  fun_induction ofChars cs with
  | case1 => cases h
  | case2 c rest token field hfind ih =>
    rcases List.mem_cons.1 h with h | h
    · cases h
    · exact List.mem_cons_of_mem c (List.mem_of_mem_drop (ih h))
  | case3 c rest hfind ih =>
    rcases List.mem_cons.1 h with h | h
    · cases h
      exact List.mem_cons_self
    · exact List.mem_cons_of_mem c (ih h)

/-- A character `e` of no token stands for itself wherever it is, for it ends any token before
it. -/
theorem literal_mem_ofChars {e : Char} (he : ∀ t ∈ tokens, e ∉ t.1) (cs : List Char) :
    .literal e ∈ ofChars cs ↔ e ∈ cs := by
  have htokens : ∀ t ∈ tokens, t.1 ≠ [] := by decide
  fun_induction ofChars cs with
  | case1 => exact iff_of_false nofun nofun
  | case2 c rest token field hfind ih =>
    have hmem := List.mem_of_find?_eq_some hfind
    have hfound : token.isPrefixOf (c :: rest) = true :=
      List.find?_some (p := fun t : List Char × Field => t.1.isPrefixOf (c :: rest)) hfind
    obtain ⟨tail, htail⟩ := List.isPrefixOf_iff_prefix.1 hfound
    obtain ⟨c', token', rfl⟩ := List.exists_cons_of_ne_nil (htokens (token, field) hmem)
    have hrest : rest.drop ((c' :: token').length - 1) = tail := by
      rw [← (List.cons.inj htail).2]
      exact List.drop_left
    rw [hrest] at ih ⊢
    rw [List.mem_cons, ← htail, List.mem_append]
    constructor
    · rintro (h | h)
      · cases h
      · exact .inr (ih.1 h)
    · exact fun h => .inr (ih.2 (h.resolve_left (he _ hmem)))
  | case3 c rest hfind ih =>
    rw [List.mem_cons, List.mem_cons, Part.literal.injEq]
    exact or_congr_right ih

/-- A literal character `c` that is no blank and below the letters is in every text `cs` that is
read. -/
theorem mem_of_literal_mem_read {c : Char} (hc : c.toNat < 65) (hblank : isBlank c = false)
    (h : .literal c ∈ f) (hread : f.read? cs = some m) : c ∈ cs := by
  obtain ⟨values, hfit, -⟩ := exists_of_read? hread
  obtain ⟨d, hd, hsame⟩ := exists_mem_of_fit hfit (letter_mem_patterns hblank h)
  rwa [eq_of_sameLetter hc hsame] at hd

/-- A character `c` that is written and is neither a letter nor a digit of ASCII stands for itself
in the format `f`. -/
theorem literal_mem_of_mem_write {f : DateFormat} {m : Moment} {c : Char}
    (h : c ∈ (f.write m).toList) (hc : c.isAlphanum = false) : .literal c ∈ f := by
  rw [toList_write, chars, List.mem_flatMap] at h
  obtain ⟨p, hp, hmem⟩ := h
  cases p with
  | field x =>
    rw [Field.isAlphanum_of_mem_text c hmem] at hc
    cases hc
  | literal e =>
    obtain rfl := List.mem_singleton.1 hmem
    exact (List.takeWhile_sublist _).subset hp

/-- Without a null character in the format `f` all of its literal characters are written. -/
theorem mem_write_of_literal_mem {c : Char} (hnull : .literal '\x00' ∉ f) (h : .literal c ∈ f)
    (m : Moment) : c ∈ (f.write m).toList := by
  rw [toList_write, written_eq_self hnull, chars, List.mem_flatMap]
  exact ⟨.literal c, h, List.mem_singleton_self c⟩

/-! ### Null characters -/

/-- What is written has no null character, since `written` ends before one. -/
theorem null_not_mem_write (f : DateFormat) (m : Moment) : '\x00' ∉ (f.write m).toList := by
  rw [toList_write, chars, List.mem_flatMap]
  rintro ⟨p, hp, hmem⟩
  cases p with
  | field x => exact absurd (Field.isAlphanum_of_mem_text _ hmem) (by decide)
  | literal c =>
    obtain rfl := List.mem_singleton.1 hmem
    exact absurd (List.all_eq_true.1 List.all_takeWhile _ hp) (by decide)

/-- Nothing that is written in a format `f` with a null character can be read in it, not even parts
of it: the null character is not among them. -/
theorem read?_write_of_null (h : .literal '\x00' ∈ f) (m : Moment) {cs : List Char}
    (hcs : cs.Sublist (f.write m).toList) : f.read? cs = none := by
  rw [← Option.not_isSome_iff_eq_none]
  intro hsome
  obtain ⟨n, hn⟩ := Option.isSome_iff_exists.1 hsome
  have hmem := mem_of_literal_mem_read (by decide) (by decide) h hn
  exact null_not_mem_write f m (hcs.subset hmem)

end DiagramText.DateFormat
