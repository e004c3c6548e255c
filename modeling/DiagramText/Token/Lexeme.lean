import DiagramText.Dialect
import DiagramText.Text.Blank
import DiagramText.Text.Digit
import DiagramText.Text.Measure
import DiagramText.Token

/-!
# Lexemes

The forms of lexeme, each as a measure of the line it starts. A dialect is an ordered list of rules,
each a measure with the kind of token it makes; the first rule whose measure is not zero wins.
-/

namespace DiagramText

namespace Measure

open Text

/-! ### Lexemes of every dialect -/

/-- A comment: `%%` and all that follows on the line. -/
def comment : Measure := fun cs => if ['%', '%'].isPrefixOf cs then cs.length else 0

/-- A text between two double quotes, the quotes included. Without a second quote `quotedString`
takes nothing. -/
def quotedString : Measure
  | '"' :: cs =>
    let n := run (· != '"') cs
    if n < cs.length then n + 2 else 0
  | _ => 0

/-! ### Lexemes of the flowchart, state and entity dialects -/

/-- What follows the first character of a `hyphenated` identifier. A hyphen is taken only together
with the word character behind it. -/
def hyphenatedTail : Measure
  | [] => 0
  | [c] => if Text.isAsciiWord c then 1 else 0
  | c :: d :: cs =>
    if Text.isAsciiWord c then 1 + hyphenatedTail (d :: cs)
    else if c == '-' && Text.isAsciiWord d then 2 + hyphenatedTail cs
    else 0

/-- An identifier of ASCII word characters, with single hyphens inside, as in `my-node`. -/
def hyphenated : Measure
  | [] => 0
  | c :: cs => if Text.isAsciiWord c then 1 + hyphenatedTail cs else 0

/-- The line of an edge: dots between two hyphens, as in `-.-`, or a run of hyphens, equals signs or
tildes. -/
def edgeBody : Measure
  | '-' :: '.' :: cs =>
    let n := run (· == '.') cs
    if (cs.drop n).head? = some '-' then n + 3 else 0
  | cs => firstOf [atLeast 2 '-', atLeast 2 '=', atLeast 3 '~'] cs

/-- The right end of an edge: the head of an arrow, or an `o` or `x` that no word character
continues. -/
def edgeTail : Measure
  | [] => 0
  | c :: cs => if c == '>' || ((c == 'o' || c == 'x') && !startsWord cs) then 1 else 0

/-- The line and the right end of an edge. Without an `edgeBody` there is no edge. -/
def edgeFromBody : Measure := fun cs =>
  let n := edgeBody cs
  if n = 0 then 0 else n + edgeTail (cs.drop n)

/-- An edge of a flowchart. A `<` in front belongs to it only if an `edgeBody` follows. -/
def edge : Measure
  | '<' :: cs =>
    let n := edgeFromBody cs
    if n = 0 then 0 else n + 1
  | cs => edgeFromBody cs

/-- One of the characters that draw the end of an entity relation, as the `o` and the brace of
`o{`. -/
def isCardinalityMark (c : Char) : Bool := c == '|' || c == 'o' || c == '}' || c == '{'

/-- One end of an entity relation, at the start of `cs`: one mark, or two. A third mark is left to
the next lexeme. -/
def cardinality : Measure := fun cs => min 2 (run isCardinalityMark cs)

/-- The line of an entity relation, `--` if it identifies and `..` if it does not. -/
def relationLine : Measure := firstOf [literal ['-', '-'], literal ['.', '.']]

/-- An entity relation: two ends with a `relationLine` between them. Nothing is taken if one of the
three is missing. -/
def entityRelation : Measure := fun cs =>
  let left := cardinality cs
  let afterLeft := cs.drop left
  let middle := relationLine afterLeft
  let right := cardinality (afterLeft.drop middle)
  if left = 0 || middle = 0 || right = 0 then 0 else left + middle + right

/-- A fixed text `s` that neither a hyphen nor an arrow head continues, so that `--` is not found in
`-->`. -/
def closedLiteral (s : List Char) : Measure := fun cs =>
  let n := literal s cs
  if (cs.drop n).head?.any fun c => c == '-' || c == '>' then 0 else n

/-- The line between two concurrent regions: `---` or `--`, each as a `closedLiteral`. -/
def regionSeparator : Measure :=
  firstOf [closedLiteral ['-', '-', '-'], closedLiteral ['-', '-']]

/-! ### Lexemes of the sequence, class and gantt dialects -/

/-- An identifier of word characters of any script, with an ASCII letter or an underscore first, as
the line-oriented dialects have it. -/
def wordIdentifier : Measure
  | [] => 0
  | c :: cs => if c.isAlpha || c == '_' then 1 + run Text.isWord cs else 0

/-- A number, with a fraction or without. A point belongs to it only if a decimal digit follows. -/
def number : Measure := fun cs =>
  let whole := run Text.isDecimal cs
  if whole = 0 then 0
  else match cs.drop whole with
    | '.' :: rest =>
      let fraction := run Text.isDecimal rest
      if fraction = 0 then whole else whole + 1 + fraction
    | _ => whole

/-- The arrow of a message, the longest form first, so that `-->>` is not read as `-->`. -/
def messageArrow : Measure := firstOf [
  literal ['-', '-', '>', '>'], literal ['-', '>', '>'], literal ['-', '-', 'x'],
  literal ['-', '-', ')'], literal ['-', '-', '>'], literal ['-', 'x'], literal ['-', ')'],
  literal ['-', '>']]

/-- The operator of a class relation, the longest form first. A circle is part of the operator only
where no word meets it, which depends on the character `before` as well as on what follows. -/
def classRelation (before : Option Char) : Measure := firstOf [
  literal ['<', '|', '-', '-'], literal ['<', '|', '.', '.'],
  literal ['-', '-', '|', '>'], literal ['.', '.', '|', '>'],
  literal ['*', '-', '-'], literal ['-', '-', '*'],
  fun cs => if before.any Text.isWord then 0 else literal ['o', '-', '-'] cs,
  fun cs => if startsWord (cs.drop 3) then 0 else literal ['-', '-', 'o'] cs,
  literal ['-', '-', '>'], literal ['<', '-', '-'], literal ['.', '.', '>'],
  literal ['<', '.', '.'], literal ['-', '-'], literal ['.', '.']]

end Measure

/-! ### Rules -/

/-- A form of lexeme and the kind of token it makes. A dialect is a list of rules, of which
`Rule.first` takes the first that applies. -/
abbrev Rule := TokenKind × Measure

namespace Rule

open DiagramText.Measure

/-- The rules that every dialect tries first: `comment`, `quotedString` and the colon. -/
def common : List Rule :=
  [(.comment, comment), (.string, quotedString), (.colon, literal [':'])]

/-- The punctuation of the flowchart, state and entity dialects, which precedes the rules of their
own. -/
def punctuation : List Rule :=
  [(.semicolon, literal [';']), (.comma, literal [',']), (.ampersand, literal ['&']),
   (.stereotypeOpen, literal ['<', '<']), (.stereotypeClose, literal ['>', '>']),
   (.leftBrace, literal ['{']), (.rightBrace, literal ['}'])]

/-- The rules that the sequence, class and gantt dialects share, `number` and `wordIdentifier` among
them. -/
def lineOriented : List Rule :=
  [(.stereotypeOpen, literal ['<', '<']), (.stereotypeClose, literal ['>', '>']),
   (.leftBrace, literal ['{']), (.rightBrace, literal ['}']), (.tilde, literal ['~']),
   (.comma, literal [',']), (.ampersand, literal ['&']), (.plus, literal ['+']),
   (.minus, literal ['-']), (.number, number), (.identifier, wordIdentifier)]

/-- The rules of a dialect in the order they are tried, where `before` is the character before the
lexeme on its line. -/
def ofDialect (d : Dialect) (before : Option Char) : List Rule :=
  common ++ match d with
    | .flowchart => (.edge, edge) :: (.identifier, hyphenated) :: punctuation
    | .states =>
      (.pseudostate, literal ['[', '*', ']']) :: (.transition, literal ['-', '-', '>']) ::
        (.regionSeparator, regionSeparator) :: (.identifier, hyphenated) :: punctuation
    | .entities => (.entityRelation, entityRelation) :: (.identifier, hyphenated) :: punctuation
    | .sequence => (.arrow, messageArrow) :: lineOriented
    | .classes => (.classRelation, classRelation before) :: lineOriented
    | .gantt => lineOriented

/-- The kind and length of the first lexeme of a line, by the first rule whose measure is not zero.
If no rule applies, one character is taken as `unknown`. -/
def first : List Rule → List Char → TokenKind × Nat
  | [], _ => (.unknown, 1)
  | (kind, measure) :: rules, cs =>
    if measure cs = 0 then first rules cs else (kind, measure cs)

end Rule
end DiagramText
