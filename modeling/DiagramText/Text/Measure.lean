import DiagramText.Text.Word

/-!
# Measures

A measure recognises one form at the start of a text: it gives the number of characters that the
form takes there, and zero if the text does not start with it.
-/

namespace DiagramText

/-- The number of characters that a form takes at the start of a text, zero if it is not there. No
measure takes an empty form. -/
abbrev Measure := List Char → Nat

namespace Measure

/-- A fixed text `s`. -/
def literal (s : List Char) : Measure := fun cs => if s.isPrefixOf cs then s.length else 0

/-- The longest run of characters that satisfy `p`. -/
def run (p : Char → Bool) : Measure := fun cs => (cs.takeWhile p).length

/-- The first of several forms that is there. Their order decides, not the lengths they take. -/
def firstOf : List Measure → Measure
  | [], _ => 0
  | m :: ms, cs => if m cs = 0 then firstOf ms cs else m cs

/-- A run of at least `n` copies of a character. -/
def atLeast (n : Nat) (c : Char) : Measure := fun cs =>
  let k := run (· == c) cs
  if k < n then 0 else k

/-- Whether the form `m` takes the whole of a text `cs` that is not empty, as for a name that has to
be one lexeme. -/
def covers (m : Measure) (cs : List Char) : Bool := m cs != 0 && m cs == cs.length

/-- Whether the text `cs` starts with a word character of any script. -/
def startsWord (cs : List Char) : Bool := cs.head?.any Text.isWord

end Measure
end DiagramText
