import DiagramText.Calendar.Basic
import DiagramText.Text.Blank
import DiagramText.Text.Case
import DiagramText.Text.Digit

/-!
# Date formats

A date format is a row of fields, each spelled by a token such as `YYYY` or `MM`, between literal
characters. Reading a date by a format tries the spellings of each field in a fixed order and takes
the first way in which all fields and literals fit; the whole text has to be used up.
-/

namespace DiagramText

open Calendar

namespace DateFormat

/-- A field of a date or time of day. `shortYear` is a year in two digits, `halfDayHour` an hour
from 1 to 12. -/
inductive Field where
  | year
  | shortYear
  | monthName
  | shortMonthName
  | month
  | day
  | hour
  | halfDayHour
  | minute
  | second
  | halfDay
deriving DecidableEq, Repr

/-- A `field`, or a character that stands for itself. -/
inductive Part where
  | field (field : Field)
  | literal (char : Char)
deriving DecidableEq, Repr

end DateFormat

/-- A row of fields and literal characters. Any text spells one, by `ofText`. -/
abbrev DateFormat := List DateFormat.Part

namespace DateFormat

/-! ### Spelling -/

/-- The tokens of a format in the order they are tried, with their fields. A longer token comes
before one that it starts with. -/
def tokens : List (List Char × Field) :=
  [(['Y', 'Y', 'Y', 'Y'], .year), (['M', 'M', 'M', 'M'], .monthName),
   (['M', 'M', 'M'], .shortMonthName), (['Y', 'Y'], .shortYear), (['M', 'M'], .month),
   (['D', 'D'], .day), (['H', 'H'], .hour), (['h', 'h'], .halfDayHour), (['m', 'm'], .minute),
   (['s', 's'], .second), (['M'], .month), (['D'], .day), (['H'], .hour), (['A'], .halfDay)]

/-- The format that characters spell. A character that starts none of the `tokens` is literal. -/
def ofChars (cs : List Char) : DateFormat :=
  match cs with
  | [] => []
  | c :: rest =>
    match tokens.find? (·.1.isPrefixOf (c :: rest)) with
    | some (token, field) => .field field :: ofChars (rest.drop (token.length - 1))
    | none => .literal c :: ofChars rest
termination_by cs.length

/-- The format that a `text` spells. Every text is a format. -/
def ofText (text : String) : DateFormat := ofChars text.toList

/-- The letter of a field in percent notation, as in `%Y`. -/
def Field.letter : Field → Char
  | year => 'Y'
  | shortYear => 'y'
  | monthName => 'B'
  | shortMonthName => 'b'
  | month => 'm'
  | day => 'd'
  | hour => 'H'
  | halfDayHour => 'I'
  | minute => 'M'
  | second => 'S'
  | halfDay => 'p'

/-- A part in percent notation, where a literal percent sign is doubled. -/
def Part.percent : Part → List Char
  | field f => ['%', f.letter]
  | literal c => if c = '%' then ['%', '%'] else [c]

/-- The format `f` in percent notation, as it is handed to the system. -/
def percent (f : DateFormat) : String := String.ofList (f.flatMap Part.percent)

/-- The fields of a format `f`, in their order and with repetitions. -/
def fields (f : DateFormat) : List Field :=
  f.filterMap fun | .field x => some x | .literal _ => none

/-- Whether no field occurs twice. A format `f` that names a field twice cannot be read by. -/
def isSimple (f : DateFormat) : Bool := f.fields.Nodup

/-! ### Names -/

/-- The names of the months, as they are written. -/
def monthNames : List String :=
  ["January", "February", "March", "April", "May", "June", "July", "August", "September",
   "October", "November", "December"]

/-- The names of the months by length, the longest first, with their numbers. They are tried in this
order. -/
def monthNamesByLength : List (String × Nat) :=
  [("september", 9), ("february", 2), ("november", 11), ("december", 12), ("january", 1),
   ("october", 10), ("august", 8), ("march", 3), ("april", 4), ("june", 6), ("july", 7), ("may", 5)]

/-- The short names of the months with their numbers. All have three letters. -/
def shortMonthNames : List (String × Nat) :=
  [("jan", 1), ("feb", 2), ("mar", 3), ("apr", 4), ("may", 5), ("jun", 6), ("jul", 7), ("aug", 8),
   ("sep", 9), ("oct", 10), ("nov", 11), ("dec", 12)]

/-- The names of the halves of a day with their numbers. -/
def halfDayNames : List (String × Nat) := [("am", 0), ("pm", 1)]

/-! ### Reading a field -/

/-- A value that can be read at the start of a text, and what is left of the text. A field has a
list of them, the preferred one first. -/
abbrev Spelling := Nat × List Char

/-- The value of one digit of the class `p`. -/
def oneDigit (p : Char → Bool) : List Char → List Spelling
  | c :: cs => if p c then [((Text.digitValue? c).getD 0, cs)] else []
  | [] => []

/-- The value of two digits, each of its own class. -/
def twoDigits (p q : Char → Bool) : List Char → List Spelling
  | c :: d :: cs => if p c && q d then [(Text.decimalValue [c, d], cs)] else []
  | _ => []

/-- The value of four decimal digits at the start of `cs`, as a year is read. -/
def fourDigits (cs : List Char) : List Spelling :=
  let digits := cs.take 4
  if digits.length = 4 && digits.all Text.isDecimal then [(Text.decimalValue digits, cs.drop 4)]
  else []

/-- The values of the `names` that a text starts with, in any letter case, in the order of
`names`. -/
def named (names : List (String × Nat)) (cs : List Char) : List Spelling :=
  names.filterMap fun (name, n) =>
    if (cs.take name.length).map Char.toLower = name.toList then some (n, cs.drop name.length)
    else none

/-- Whether a character is an ASCII digit from `low` to `high`. -/
def between (low high c : Char) : Bool := low ≤ c && c ≤ high

/-- The numbers from 1 to 12 at the start of `cs`. Two digits are tried before one, and those with a
one first before those with a zero. -/
def monthNumber (cs : List Char) : List Spelling :=
  twoDigits (· == '1') (between '0' '2') cs ++ twoDigits (· == '0') (between '1' '9') cs ++
    oneDigit (between '1' '9') cs

/-- The numbers of the days of a month. The last way of writing one is a space and a digit. -/
def dayNumber (cs : List Char) : List Spelling :=
  twoDigits (· == '3') (between '0' '1') cs ++ twoDigits (between '1' '2') Text.isDecimal cs ++
    twoDigits (· == '0') (between '1' '9') cs ++ oneDigit (between '1' '9') cs ++
    (if cs.head? = some ' ' then oneDigit (between '1' '9') cs.tail else [])

/-- The ways to read a field at the start of a text `cs`, in the order they are tried. -/
def Field.spellings (f : Field) (cs : List Char) : List Spelling :=
  match f with
  | year => fourDigits cs
  | shortYear => twoDigits Text.isDecimal Text.isDecimal cs
  | monthName => named monthNamesByLength cs
  | shortMonthName => named shortMonthNames cs
  | month | halfDayHour => monthNumber cs
  | day => dayNumber cs
  | hour =>
    twoDigits (· == '2') (between '0' '3') cs ++ twoDigits (between '0' '1') Text.isDecimal cs ++
      oneDigit Text.isDecimal cs
  | minute => twoDigits (between '0' '5') Text.isDecimal cs ++ oneDigit Text.isDecimal cs
  | second =>
    twoDigits (· == '6') (between '0' '1') cs ++ twoDigits (between '0' '5') Text.isDecimal cs ++
      oneDigit Text.isDecimal cs
  | halfDay => named halfDayNames cs

/-! ### Reading all fields -/

/-- What a text has to show next: a field, a letter in either case, or some blanks. -/
inductive Pattern where
  | field (field : Field)
  | letter (char : Char)
  | blanks
deriving DecidableEq, Repr

/-- The patterns of a format. A run of blanks in the format stands for any run of blanks in a
text. -/
def patterns : DateFormat → List Pattern
  | [] => []
  | .field f :: ps => .field f :: patterns ps
  | .literal c :: ps =>
    if !Text.isBlank c then .letter c :: patterns ps
    else match patterns ps with
      | .blanks :: qs => .blanks :: qs
      | qs => .blanks :: qs

/-- The values of fields, in the order of the format. -/
abbrev Values := List (Field × Nat)

/-- The ways to skip blanks at the start of a text `cs`, as many as possible first and at least
one. -/
def blankSkips (cs : List Char) : List (List Char) :=
  let n := (cs.takeWhile Text.isBlank).length
  (List.range n).map fun k => cs.drop (n - k)

/-- The values of the first way in which all patterns fit, and what is left of the text. If a later
pattern does not fit, the next of the `Field.spellings` is tried. -/
def fit : List Pattern → List Char → Option (Values × List Char)
  | [], cs => some ([], cs)
  | .field f :: ps, cs =>
    (f.spellings cs).findSome? fun (n, rest) =>
      (fit ps rest).map fun (values, left) => ((f, n) :: values, left)
  | .letter c :: ps, cs =>
    match cs with
    | d :: rest => if Text.sameLetter c d then fit ps rest else none
    | [] => none
  | .blanks :: ps, cs => (blankSkips cs).findSome? fun rest => fit ps rest

/-! ### What the values mean -/

/-- The hour that an `hour` of a half day means. Without a half day it is one of the first half. -/
def hourOfHalfDay (half : Option Nat) (hour : Nat) : Nat :=
  if half = some 1 then if hour = 12 then 12 else hour + 12
  else if hour = 12 then 0 else hour

/-- The date and time with the value of one field set, `half` being the half of the day. A year in
two digits is one from 1969 to 2068. -/
def set (half : Option Nat) (r : Calendar.Reading) (value : Field × Nat) : Calendar.Reading :=
  let (f, n) := value
  match f with
  | .year => { r with year := n }
  | .shortYear => { r with year := if n ≤ 68 then 2000 + n else 1900 + n }
  | .monthName | .shortMonthName | .month => { r with month := n }
  | .day => { r with day := n }
  | .hour => { r with hour := n }
  | .halfDayHour => { r with hour := hourOfHalfDay half n }
  | .minute => { r with minute := n }
  | .second => { r with second := n }
  | .halfDay => r

/-- The date and time that `values` mean. A later value for the same part of a date wins, and what
no field gives is the start of the year 1900. -/
def readingOf (values : Values) : Calendar.Reading :=
  values.foldl (set (values.lookup .halfDay)) {}

/-- The moment that a text without blanks around it means in the format `f`. The whole text has to
be used up, and there has to be such a date. -/
def read? (f : DateFormat) (cs : List Char) : Option Moment :=
  match fit f.patterns cs with
  | some (values, []) => Moment.ofReading? (readingOf values)
  | _ => none

/-! ### Writing -/

/-- A number `n` in two digits at least, with a zero in front if it has one. -/
def padded (n : Nat) : String := if n < 10 then s!"0{n}" else toString n

/-- The value of a field as it is written. Years have as many digits as they need. -/
def Field.text (r : Calendar.Reading) : Field → String
  | year => toString r.year
  | shortYear => padded (r.year % 100)
  | monthName => monthNames[r.month - 1]?.getD ""
  | shortMonthName => String.ofList ((monthNames[r.month - 1]?.getD "").toList.take 3)
  | month => padded r.month
  | day => padded r.day
  | hour => padded r.hour
  | halfDayHour => padded (if r.hour % 12 = 0 then 12 else r.hour % 12)
  | minute => padded r.minute
  | second => padded r.second
  | halfDay => if r.hour < 12 then "AM" else "PM"

/-- The part of a format `f` that is written. A null character ends it. -/
def written (f : DateFormat) : DateFormat := f.takeWhile (· != .literal '\x00')

/-- A moment as it is written in a format, part by part, up to the end of `written`. -/
def write (f : DateFormat) (m : Moment) : String :=
  String.join <| f.written.map fun
    | .field x => x.text m.reading
    | .literal c => String.singleton c

end DateFormat
end DiagramText
