/-!
# Blank characters

A blank is a whitespace character of any script: spaces, tabs, and every line or paragraph
separator. Trimming removes blanks at the ends of a text, and the words of a text are its maximal
runs without a blank.
-/

namespace DiagramText.Text

/-- A whitespace character `c` of any script, line and paragraph separators included. -/
def isBlank (c : Char) : Bool :=
  let n := c.toNat
  (9 ≤ n && n ≤ 13) || (28 ≤ n && n ≤ 32) || n == 0x85 || n == 0xa0 || n == 0x1680 ||
    (0x2000 ≤ n && n ≤ 0x200a) || n == 0x2028 || n == 0x2029 || n == 0x202f || n == 0x205f ||
    n == 0x3000

/-- Whether `c` is a space or a tab, the only blanks that separate lexemes. All other blanks are
characters that no rule knows. -/
def isSpaceOrTab (c : Char) : Bool := c == ' ' || c == '\t'

/-! ### Trimming -/

/-- The text without the blanks it starts with. Any `isBlank` character counts, not only spaces and
tabs. -/
def trimLeft (cs : List Char) : List Char := cs.dropWhile isBlank

/-- The text without the blanks it ends with, as `trimLeft` of the reversed text. -/
def trimRight (cs : List Char) : List Char := (cs.reverse.dropWhile isBlank).reverse

/-- The text `cs` without the blanks at either end; a text that is all blank becomes empty. -/
def trim (cs : List Char) : List Char := trimRight (trimLeft cs)

/-! ### Splitting -/

/-- The texts between the characters that `separates` holds of, in order. There is one more of them
than there are such characters, so an empty text has one field. -/
def fields (separates : Char → Bool) : List Char → List (List Char)
  | [] => [[]]
  | c :: cs =>
    if separates c then [] :: fields separates cs
    else match fields separates cs with
      | [] => [[c]]
      | f :: fs => (c :: f) :: fs

/-- The maximal runs without a blank: the `fields` at blanks that are not empty. -/
def words (cs : List Char) : List (List Char) := (fields isBlank cs).filter (!·.isEmpty)

end DiagramText.Text
