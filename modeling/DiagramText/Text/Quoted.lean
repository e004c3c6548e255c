import DiagramText.Text.Printable

/-!
# Quoted texts

Messages show a piece of text in quotes, on one line: the single quote unless the text holds one
and no double quote, with the backslash, the quote, and every unprintable character escaped.

A name or label that would not read back on its own is written between double quotes, which it
cannot hold itself.
-/

namespace DiagramText.Text

/-- The last `k` hexadecimal digits of a number, most significant first. -/
def hexDigits : Nat → Nat → List Char
  | 0, _ => []
  | k + 1, n => hexDigits k (n / 16) ++ [Nat.digitChar (n % 16)]

/-- A character by its code point, in the shortest of the three forms `\xhh`, `\uhhhh` and
`\Uhhhhhhhh` that holds it. -/
def escapeCode (c : Char) : List Char :=
  let n := c.toNat
  if n < 0x100 then '\\' :: 'x' :: hexDigits 2 n
  else if n < 0x10000 then '\\' :: 'u' :: hexDigits 4 n
  else '\\' :: 'U' :: hexDigits 8 n

/-- A character as it stands between two of the given `quote`s: escaped if it is the quote, a
backslash, or not printable. -/
def escape (quote c : Char) : List Char :=
  if c = '\\' || c = quote then ['\\', c]
  else if c = '\n' then ['\\', 'n']
  else if c = '\r' then ['\\', 'r']
  else if c = '\t' then ['\\', 't']
  else if isPrintable c then [c]
  else escapeCode c

/-- The quote that surrounds a text `cs`: the single one, unless only it occurs in the text. -/
def quoteFor (cs : List Char) : Char :=
  if cs.contains '\'' && !cs.contains '"' then '"' else '\''

/-- A text `s` in quotes, as a message shows it. It is on one line whatever the text holds. -/
def quoted (s : String) : String :=
  let q := quoteFor s.toList
  String.ofList (q :: s.toList.flatMap (escape q) ++ [q])

/-- The `text` between double quotes. Nothing is escaped, so a text with a double quote cannot be
read back. -/
def doubleQuoted (text : String) : String := s!"\"{text}\""

/-- The `text` without the double quotes around it, if it has both. A text of a single double quote
stays as it is. -/
def unquote (text : String) : String :=
  match text.toList with
  | '"' :: cs => if cs.getLast? = some '"' then String.ofList cs.dropLast else text
  | _ => text

theorem toList_doubleQuoted (s : String) :
    (doubleQuoted s).toList = '"' :: (s.toList ++ ['"']) := by
  simp [doubleQuoted, toString]

theorem unquote_doubleQuoted (s : String) : unquote (doubleQuoted s) = s := by
  simp only [unquote, toList_doubleQuoted, List.getLast?_concat, if_true, List.dropLast_concat,
    String.ofList_toList]

theorem mem_of_mem_unquote {c : Char} {s : String} (h : c ∈ (unquote s).toList) : c ∈ s.toList := by
  unfold unquote at h
  split at h
  · next cs hs =>
    split at h
    · rw [String.toList_ofList] at h
      rw [hs]
      exact List.mem_cons_of_mem _ (List.dropLast_subset _ h)
    · exact h
  · exact h

end DiagramText.Text
