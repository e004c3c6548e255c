import DiagramText.Calendar.Format
import DiagramText.Proofs.Text.Digits
import Mathlib.Algebra.BigOperators.Group.List.Basic
import Mathlib.Algebra.GroupWithZero.Nat

/-!
# Moments and the fields of their dates

A `Moment` counts the seconds before it, and its `Calendar.Reading` is found again by division:
whole cycles of 400 years, then centuries, then cycles of four years, then years. The last century
of a cycle and the last year of four are a day longer than the others, so their number is cut off at
three.

A `DateFormat.Field` is written in as many digits as can be read of it, or as a name. Reading tries
the longest spellings first, so whatever stands behind a written field, the first of its
`Field.spellings` takes just what was written.

* `Calendar.yearOf_daysBefore`: the year that holds a day, and the day in it.
* `Calendar.monthOf_take`: the month that holds a day of the year, and the day of the month.
* `Moment.reading_of_ofReading?`: a moment at a date and time has that date and time.
* `DateFormat.Field.value`: the value of a field for a date and time.
* `DateFormat.Field.head?_spellings_text`: the first way to read a written field.
-/

namespace DiagramText

namespace Calendar

/-! ### Years -/

/-- The number of days in a year: 366 if `isLeap`. -/
def yearLength (year : Nat) : Nat := if isLeap year then 366 else 365

theorem sum_monthLengths (year : Nat) : (monthLengths year).sum = yearLength year := by
  unfold monthLengths yearLength
  split <;> rfl

/-- The days before a year by cycles of 400 years, centuries, cycles of four years, and years. The
bounds make the four counts unique. -/
theorem daysBefore_eq {cycles centuries fours years : Nat} (hcenturies : centuries < 4)
    (hfours : fours < 25) (hyears : years < 4) :
    daysBefore (400 * cycles + 100 * centuries + 4 * fours + years + 1) =
      146097 * cycles + 36524 * centuries + 1461 * fours + 365 * years := by
  unfold daysBefore
  dsimp only
  omega

/-- A day of a year is found in the year: `yearOf` undoes `daysBefore`, with the day of the year
left over. -/
theorem yearOf_daysBefore {year day : Nat} (hyear : 1 ≤ year) (hday : day < yearLength year) :
    yearOf (daysBefore year + day) = (year, day) := by
  obtain ⟨cycles, centuries, fours, years, hcenturies, hfours, hyears, rfl⟩ :
      ∃ cycles centuries fours years, centuries < 4 ∧ fours < 25 ∧ years < 4 ∧
        year = 400 * cycles + 100 * centuries + 4 * fours + years + 1 :=
    ⟨(year - 1) / 400, (year - 1) % 400 / 100, (year - 1) % 100 / 4, (year - 1) % 4, by omega,
      by omega, by omega, by omega⟩
  -- only the last year of four is longer, and of those the last of a century in the last century
  have hlength : day ≤ 364 ∨ day = 365 ∧ years = 3 ∧ (fours = 24 → centuries = 3) := by
    unfold yearLength isLeap at hday
    split at hday
    · next hleap =>
      simp only [Bool.and_eq_true, Bool.or_eq_true, beq_iff_eq, bne_iff_ne] at hleap
      omega
    · omega
  rw [daysBefore_eq hcenturies hfours hyears, yearOf]
  have hcycle : (146097 * cycles + 36524 * centuries + 1461 * fours + 365 * years + day) / 146097 =
      cycles := by
    omega
  have hinCycle : (146097 * cycles + 36524 * centuries + 1461 * fours + 365 * years + day) %
      146097 = 36524 * centuries + 1461 * fours + 365 * years + day := by
    omega
  rw [hcycle, hinCycle]
  have hcentury : min 3 ((36524 * centuries + 1461 * fours + 365 * years + day) / 36524) =
      centuries := by
    omega
  have hinCentury : 36524 * centuries + 1461 * fours + 365 * years + day - 36524 * centuries =
      1461 * fours + 365 * years + day := by
    omega
  rw [hcentury, hinCentury]
  have hfour : (1461 * fours + 365 * years + day) / 1461 = fours := by
    omega
  have hinFour : (1461 * fours + 365 * years + day) % 1461 = 365 * years + day := by
    omega
  rw [hfour, hinFour]
  have hyear : min 3 ((365 * years + day) / 365) = years := by
    omega
  rw [hyear, Nat.add_sub_cancel_left]

/-! ### Months -/

/-- A day is found in the month behind those that lie before it. The months are counted from `month`
on, the day from zero. -/
theorem monthOf_take {lengths : List Nat} {k day : Nat} (hk : k < lengths.length)
    (hday : day < lengths[k]) (month : Nat) :
    monthOf month lengths ((lengths.take k).sum + day) = (month + k, day + 1) := by
  induction lengths generalizing k month with
  | nil => cases hk
  | cons length lengths ih =>
    cases k with
    | zero =>
      have hday : day < length := hday
      rw [List.take_zero, List.sum_nil, Nat.zero_add, monthOf, if_pos hday]
      rfl
    | succ k =>
      have hmonth := ih (Nat.lt_of_succ_lt_succ hk) hday (month + 1)
      rw [List.take_succ_cons, List.sum_cons, monthOf, if_neg (by omega)]
      have hrest : length + (lengths.take k).sum + day - length =
          (lengths.take k).sum + day := by
        omega
      rw [hrest, hmonth, Nat.add_right_comm, Nat.add_assoc month k 1]

/-- The days of the months before a month `k` and those of the month are all in the year. -/
theorem sum_take_add_le {lengths : List Nat} {k : Nat} (hk : k < lengths.length) :
    (lengths.take k).sum + lengths[k] ≤ lengths.sum := by
  calc (lengths.take k).sum + lengths[k] = (lengths.take (k + 1)).sum := by
        rw [List.take_succ_eq_append_getElem hk, List.sum_append, List.sum_singleton]
    _ ≤ (lengths.take (k + 1)).sum + (lengths.drop (k + 1)).sum := Nat.le_add_right _ _
    _ = lengths.sum := List.sum_take_add_sum_drop lengths (k + 1)

/-! ### Readings -/

namespace Reading

/-- The parts of a date and time that there is, each with its bounds, as `Reading.isValid` checks
them. -/
theorem isValid_iff (r : Reading) : r.isValid = true ↔
    (1 ≤ r.year ∧ r.year ≤ 9999) ∧ 1 ≤ r.month ∧
      (∃ length, (monthLengths r.year)[r.month - 1]? = some length ∧ 1 ≤ r.day ∧ r.day ≤ length) ∧
        r.hour < 24 ∧ r.minute < 60 ∧ r.second < 60 := by
  simp [isValid, and_assoc, Option.any_eq_true]

/-- The days of the year before a date, so that `r.days` is `daysBefore r.year + r.dayOfYear`. -/
def dayOfYear (r : Reading) : Nat := ((monthLengths r.year).take (r.month - 1)).sum + (r.day - 1)

theorem days_eq (r : Reading) : r.days = daysBefore r.year + r.dayOfYear := by
  have hfold : ∀ (lengths : List Nat) (n : Nat), lengths.foldl (· + ·) n = n + lengths.sum := by
    intro lengths
    induction lengths with
    | nil => exact fun n => rfl
    | cons length lengths ih => intro n; rw [List.foldl_cons, ih, List.sum_cons, Nat.add_assoc]
  rw [days, hfold, dayOfYear, Nat.add_assoc]

end Reading
end Calendar

namespace Moment

open Calendar in
/-- A moment at a date and time `r` has `r` as its reading. The count of seconds is divided back
into days and time of day, the days into year, month and day. -/
theorem reading_of_ofReading? {r : Calendar.Reading} {m : Moment} (h : ofReading? r = some m) :
    m.reading = r := by
  unfold ofReading? at h
  split at h
  swap
  · cases h
  · next hvalid =>
    obtain ⟨⟨hyear, -⟩, hmonth, ⟨length, hlength, hday, hlast⟩, hhour, hminute, hsecond⟩ :=
      (Calendar.Reading.isValid_iff r).1 hvalid
    obtain ⟨hk, hlength⟩ := List.getElem?_eq_some_iff.1 hlength
    have hseconds : m.seconds = r.seconds := by
      unfold ofSeconds? at h
      split at h
      · rw [← Option.some.inj h]
      · cases h
    -- the day stays inside its month, and with the months before it inside its year
    have hinMonth : r.day - 1 < (monthLengths r.year)[r.month - 1] := by
      omega
    have hinYear : r.dayOfYear < yearLength r.year := by
      have hle := sum_take_add_le hk
      rw [sum_monthLengths] at hle
      unfold Calendar.Reading.dayOfYear
      omega
    have hdays : m.seconds / 86400 = daysBefore r.year + r.dayOfYear := by
      rw [hseconds, Calendar.Reading.seconds, ← r.days_eq]
      omega
    have htime : m.seconds % 86400 = 3600 * r.hour + 60 * r.minute + r.second := by
      rw [hseconds, Calendar.Reading.seconds]
      omega
    rw [reading, hdays, yearOf_daysBefore hyear hinYear]
    dsimp only
    rw [Calendar.Reading.dayOfYear, monthOf_take hk hinMonth, htime]
    obtain ⟨year, month, day, hour, minute, second⟩ := r
    dsimp only at *
    rw [Calendar.Reading.mk.injEq]
    omega

end Moment

namespace DateFormat

open Calendar Text

/-! ### Numbers of two digits -/

/-- A number `n` below 100 in two digits, a zero in front if it has one. -/
def twoDigitChars (n : Nat) : List Char := [(n / 10).digitChar, (n % 10).digitChar]

theorem toList_padded {n : Nat} (hn : n < 100) : (padded n).toList = twoDigitChars n := by
  unfold padded twoDigitChars
  split
  · next hsmall =>
    have hdigit : (toString n).toList = [n.digitChar] := by
      rw [Nat.toString_eq_ofList_toDigits, String.toList_ofList, Nat.toDigits_of_lt_base hsmall]
    rw [Nat.div_eq_of_lt hsmall, Nat.mod_eq_of_lt hsmall, String.toList_append, hdigit]
    rfl
  · next hlarge =>
    rw [Nat.toString_eq_ofList_toDigits, String.toList_ofList,
      Nat.toDigits_of_base_le (by decide) (by omega), Nat.toDigits_of_lt_base (by omega)]
    rfl

/-- The fields that are written in two digits, whatever their value. -/
def Field.isTwoDigit : Field → Bool
  | .shortYear | .month | .day | .hour | .halfDayHour | .minute | .second => true
  | _ => false

/-- Where two characters stand before the rest of a text, no form of one or two digits looks
further, so `rest` is only carried along. -/
theorem twoDigits_append (p q : Char → Bool) (a b : Char) (rest : List Char) :
    twoDigits p q (a :: b :: rest) = (twoDigits p q [a, b]).map fun s => (s.1, s.2 ++ rest) := by
  show (if p a && q b then [(decimalValue [a, b], rest)] else []) =
    (if p a && q b then [(decimalValue [a, b], [])] else []).map fun s => (s.1, s.2 ++ rest)
  split <;> rfl

theorem oneDigit_append (p : Char → Bool) (a : Char) (cs rest : List Char) :
    oneDigit p (a :: (cs ++ rest)) = (oneDigit p (a :: cs)).map fun s => (s.1, s.2 ++ rest) := by
  show (if p a then [((digitValue? a).getD 0, cs ++ rest)] else []) =
    (if p a then [((digitValue? a).getD 0, cs)] else []).map fun s => (s.1, s.2 ++ rest)
  split <;> rfl

/-- A field of two digits looks at no more than two characters, whatever `rest` is. -/
theorem Field.spellings_append {x : Field} (hx : x.isTwoDigit = true) (a b : Char)
    (rest : List Char) :
    x.spellings (a :: b :: rest) = (x.spellings [a, b]).map fun s => (s.1, s.2 ++ rest) := by
  have hone : ∀ p, oneDigit p (a :: b :: rest) =
      (oneDigit p [a, b]).map fun s => (s.1, s.2 ++ rest) := fun p => oneDigit_append p a [b] rest
  have hsecond : ∀ p, oneDigit p (b :: rest) = (oneDigit p [b]).map fun s => (s.1, s.2 ++ rest) :=
    fun p => oneDigit_append p b [] rest
  have htwo : ∀ p q, twoDigits p q (a :: b :: rest) =
      (twoDigits p q [a, b]).map fun s => (s.1, s.2 ++ rest) := fun p q =>
    twoDigits_append p q a b rest
  cases x with
  | year | monthName | shortMonthName | halfDay => cases hx
  | shortYear => exact htwo _ _
  | month | halfDayHour | hour | minute | second =>
    simp only [spellings, monthNumber, htwo, hone, List.map_append]
  | day =>
    have hspace : (if some a = some ' ' then oneDigit (between '1' '9') (b :: rest) else []) =
        (if some a = some ' ' then oneDigit (between '1' '9') [b] else []).map
          fun s => (s.1, s.2 ++ rest) := by
      split
      · exact hsecond _
      · rfl
    simp only [spellings, dayNumber, htwo, hone, List.map_append, List.head?_cons, List.tail_cons]
    exact congrArg (_ ++ ·) hspace

/-- The first way to read two digits is to take both of them. It is enough to know this of all
values between `low` and `high`, which `hall` decides. -/
theorem Field.head?_spellings_twoDigitChars {x : Field} (low high : Nat) {n : Nat}
    (hx : x.isTwoDigit = true)
    (hall : ∀ n ≤ high, low ≤ n → (x.spellings (twoDigitChars n)).head? = some (n, []))
    (hlow : low ≤ n) (hhigh : n ≤ high) (rest : List Char) :
    (x.spellings (twoDigitChars n ++ rest)).head? = some (n, rest) := by
  show (x.spellings (_ :: _ :: rest)).head? = _
  rw [spellings_append hx, List.head?_map]
  have hfirst := hall n hhigh hlow
  rw [twoDigitChars] at hfirst
  rw [hfirst]
  rfl

/-! ### Names -/

/-- Whether neither of the two names in `a` and `b` starts with the other, so that a text starts
with one of them at most. -/
def Apart (a b : String × Nat) : Prop :=
  ¬a.1.toList <+: b.1.toList ∧ ¬b.1.toList <+: a.1.toList

instance (a b : String × Nat) : Decidable (Apart a b) := inferInstanceAs (Decidable (_ ∧ _))

/-- A `name` is found if the text `cs` starts with it in some letter case. -/
theorem take_eq_iff (name : String) (cs : List Char) :
    (cs.take name.length).map Char.toLower = name.toList ↔
      name.toList <+: cs.map Char.toLower := by
  rw [List.prefix_iff_eq_take, List.map_take, String.length_toList, eq_comm]

theorem named_cons (e : String × Nat) (names : List (String × Nat)) (cs : List Char) :
    named (e :: names) cs =
      (if e.1.toList <+: cs.map Char.toLower then [(e.2, cs.drop e.1.length)] else []) ++
        named names cs := by
  unfold named
  rw [List.filterMap_cons]
  dsimp only
  by_cases h : e.1.toList <+: cs.map Char.toLower
  · rw [if_pos ((take_eq_iff _ _).2 h), if_pos h]
    rfl
  · rw [if_neg (mt (take_eq_iff _ _).1 h), if_neg h]
    rfl

theorem named_eq_nil {names : List (String × Nat)} {cs : List Char}
    (h : ∀ e ∈ names, ¬e.1.toList <+: cs.map Char.toLower) : named names cs = [] := by
  induction names with
  | nil => rfl
  | cons e names ih =>
    obtain ⟨he, hnames⟩ := List.forall_mem_cons.1 h
    rw [named_cons, if_neg he, ih hnames, List.append_nil]

/-- Of names of which none starts with another, only the one that is written is found, whatever
`rest` is. -/
theorem named_append {names : List (String × Nat)} (hnames : names.Pairwise Apart) {name : String}
    {n : Nat} (hmem : (name, n) ∈ names) {w : List Char} (hw : w.map Char.toLower = name.toList)
    (rest : List Char) : named names (w ++ rest) = [(n, rest)] := by
  have hprefix : name.toList <+: (w ++ rest).map Char.toLower := by
    rw [List.map_append, hw]
    exact List.prefix_append _ _
  have hother : ∀ e : String × Nat, Apart (name, n) e →
      ¬e.1.toList <+: (w ++ rest).map Char.toLower := by
    intro e he h
    rcases List.prefix_or_prefix_of_prefix hprefix h with h | h
    · exact he.1 h
    · exact he.2 h
  induction names with
  | nil => cases hmem
  | cons e names ih =>
    obtain ⟨hhead, htail⟩ := List.pairwise_cons.1 hnames
    rcases List.mem_cons.1 hmem with rfl | hmem
    · have hlength : name.length = w.length := by
        rw [← String.length_toList, ← hw, List.length_map]
      rw [named_cons, if_pos hprefix, named_eq_nil fun e he => hother e (hhead e he), hlength,
        List.drop_left, List.append_nil]
    · have hapart : Apart (name, n) e := (hhead _ hmem).symm
      rw [named_cons, if_neg (hother e hapart), List.nil_append, ih htail hmem]

theorem apart_monthNamesByLength : monthNamesByLength.Pairwise Apart := by decide

theorem apart_shortMonthNames : shortMonthNames.Pairwise Apart := by decide

theorem apart_halfDayNames : halfDayNames.Pairwise Apart := by decide

/-! ### Fields -/

/-- The value of a field for a date and time `r`, which is the value that is written. -/
def Field.value (r : Calendar.Reading) : Field → Nat
  | year => r.year
  | shortYear => r.year % 100
  | monthName | shortMonthName | month => r.month
  | day => r.day
  | hour => r.hour
  | halfDayHour => if r.hour % 12 = 0 then 12 else r.hour % 12
  | minute => r.minute
  | second => r.second
  | halfDay => if r.hour < 12 then 0 else 1

/-- The month of a valid date `r` is numbered from 1 to 12. -/
theorem month_le_of_isValid {r : Calendar.Reading} (h : r.isValid = true) :
    1 ≤ r.month ∧ r.month ≤ 12 := by
  obtain ⟨-, hmonth, ⟨length, hlength, -⟩, -⟩ := (Calendar.Reading.isValid_iff r).1 h
  obtain ⟨hk, -⟩ := List.getElem?_eq_some_iff.1 hlength
  have htwelve : (monthLengths r.year).length = 12 := rfl
  omega

/-- No month has more than 31 days, and none has a day zero. -/
theorem day_le_of_isValid {r : Calendar.Reading} (h : r.isValid = true) :
    1 ≤ r.day ∧ r.day ≤ 31 := by
  obtain ⟨-, -, ⟨length, hlength, hday, hlast⟩, -⟩ := (Calendar.Reading.isValid_iff r).1 h
  have hmem := List.mem_of_getElem? hlength
  have hle : ∀ n ∈ monthLengths r.year, n ≤ 31 := by
    unfold monthLengths
    split <;> decide
  exact ⟨hday, Nat.le_trans hlast (hle length hmem)⟩

/-- Whatever stands behind a written field `x`, the first way to read it is to take what was
written. A year has to be written in the four digits in which it is read. -/
theorem Field.head?_spellings_text {r : Calendar.Reading} (hr : r.isValid = true) {x : Field}
    (hx : x = year → (text r year).length = 4) (rest : List Char) :
    (x.spellings ((x.text r).toList ++ rest)).head? = some (x.value r, rest) := by
  obtain ⟨hmonth, hmonth'⟩ := month_le_of_isValid hr
  obtain ⟨hday, hday'⟩ := day_le_of_isValid hr
  obtain ⟨-, -, -, hhour, hminute, hsecond⟩ := (Calendar.Reading.isValid_iff r).1 hr
  cases x with
  | year =>
    have hlength : (toString r.year).toList.length = 4 := by
      rw [String.length_toList]
      exact hx rfl
    show (fourDigits ((toString r.year).toList ++ rest)).head? = _
    have htake : ((toString r.year).toList ++ rest).take 4 = (toString r.year).toList := by
      rw [← hlength, List.take_left]
    have hdrop : ((toString r.year).toList ++ rest).drop 4 = rest := by
      rw [← hlength, List.drop_left]
    rw [fourDigits, htake, hdrop, hlength, all_isDecimal_toString, decimalValue_toString]
    rfl
  | shortYear =>
    show (shortYear.spellings ((padded (r.year % 100)).toList ++ rest)).head? = _
    -- the fields of two digits: all their values are tried, and `rest` plays no part
    rw [toList_padded (by omega)]
    exact head?_spellings_twoDigitChars 0 99 rfl (by decide) (by omega) (by omega) rest
  | month =>
    show (month.spellings ((padded r.month).toList ++ rest)).head? = _
    rw [toList_padded (by omega)]
    exact head?_spellings_twoDigitChars 1 12 rfl (by decide) hmonth hmonth' rest
  | day =>
    show (day.spellings ((padded r.day).toList ++ rest)).head? = _
    rw [toList_padded (by omega)]
    exact head?_spellings_twoDigitChars 1 31 rfl (by decide) hday hday' rest
  | hour =>
    show (hour.spellings ((padded r.hour).toList ++ rest)).head? = _
    rw [toList_padded (by omega)]
    exact head?_spellings_twoDigitChars 0 23 rfl (by decide) (by omega) (by omega) rest
  | halfDayHour =>
    have hrange : 1 ≤ halfDayHour.value r ∧ halfDayHour.value r ≤ 12 := by
      unfold value
      dsimp only
      split <;> omega
    show (halfDayHour.spellings ((padded (halfDayHour.value r)).toList ++ rest)).head? = _
    rw [toList_padded (by omega)]
    exact head?_spellings_twoDigitChars 1 12 rfl (by decide) hrange.1 hrange.2 rest
  | minute =>
    show (minute.spellings ((padded r.minute).toList ++ rest)).head? = _
    rw [toList_padded (by omega)]
    exact head?_spellings_twoDigitChars 0 59 rfl (by decide) (by omega) (by omega) rest
  | second =>
    show (second.spellings ((padded r.second).toList ++ rest)).head? = _
    rw [toList_padded (by omega)]
    exact head?_spellings_twoDigitChars 0 59 rfl (by decide) (by omega) (by omega) rest
  -- the names: none starts with another, so only the one that was written is found
  | monthName =>
    have hname : ∀ n ≤ 12, 1 ≤ n → ∃ e ∈ monthNamesByLength, e.2 = n ∧
        (monthNames[n - 1]?.getD "").toList.map Char.toLower = e.1.toList := by
      decide
    obtain ⟨⟨name, n⟩, hmem, rfl, hlower⟩ := hname r.month hmonth' hmonth
    show (named monthNamesByLength ((monthNames[r.month - 1]?.getD "").toList ++ rest)).head? = _
    rw [named_append apart_monthNamesByLength hmem hlower]
    rfl
  | shortMonthName =>
    have hname : ∀ n ≤ 12, 1 ≤ n → ∃ e ∈ shortMonthNames, e.2 = n ∧
        ((monthNames[n - 1]?.getD "").toList.take 3).map Char.toLower = e.1.toList := by
      decide
    obtain ⟨⟨name, n⟩, hmem, rfl, hlower⟩ := hname r.month hmonth' hmonth
    show (named shortMonthNames ((String.ofList _).toList ++ rest)).head? = _
    rw [String.toList_ofList, named_append apart_shortMonthNames hmem hlower]
    rfl
  | halfDay =>
    show (named halfDayNames ((if r.hour < 12 then "AM" else "PM").toList ++ rest)).head? =
      some (if r.hour < 12 then 0 else 1, rest)
    split
    · have hmem : ("am", 0) ∈ halfDayNames := by decide
      rw [named_append apart_halfDayNames hmem (by decide)]
      rfl
    · have hmem : ("pm", 1) ∈ halfDayNames := by decide
      rw [named_append apart_halfDayNames hmem (by decide)]
      rfl

end DateFormat
end DiagramText
