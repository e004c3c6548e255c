import DiagramText.Position
import DiagramText.Text.Case
import DiagramText.Text.Quoted

/-!
# Tokens

A token is a lexeme with its kind and place. It also carries its gap, the characters skipped
between the token before it and itself, so the tokens of a text hold every character of the text.
-/

namespace DiagramText

/-- The kinds of token, those that every dialect knows first. `unknown` is the kind of a character
that no rule takes. -/
inductive TokenKind where
  | identifier
  | number
  | string
  | text
  | newline
  | semicolon
  | colon
  | comma
  | ampersand
  | leftBrace
  | rightBrace
  | stereotypeOpen
  | stereotypeClose
  | comment
  | unknown
  | endOfInput
  | shapeOpen
  | shapeClose
  | label
  | edge
  | edgeLabel
  | pseudostate
  | transition
  | regionSeparator
  | entityRelation
  | arrow
  | plus
  | minus
  | classRelation
  | tilde
deriving DecidableEq, Repr

namespace TokenKind

/-- The word for the kind in a message that misses it, as in `expected identifier`. -/
def word : TokenKind → String
  | identifier => "identifier"
  | number => "number"
  | string => "string"
  | text => "text"
  | newline => "newline"
  | semicolon => "semicolon"
  | colon => "colon"
  | comma => "comma"
  | ampersand => "ampersand"
  | leftBrace => "lbrace"
  | rightBrace => "rbrace"
  | stereotypeOpen => "stereoopen"
  | stereotypeClose => "stereoclose"
  | comment => "comment"
  | unknown => "unknown"
  | endOfInput => "eof"
  | shapeOpen => "shapeopen"
  | shapeClose => "shapeclose"
  | label => "label"
  | edge => "edgeop"
  | edgeLabel => "edgelabel"
  | pseudostate => "pseudostate"
  | transition => "transition"
  | regionSeparator => "regionseparator"
  | entityRelation => "relation"
  | arrow => "arrow"
  | plus => "plus"
  | minus => "minus"
  | classRelation => "classrelation"
  | tilde => "tilde"

/-- Whether a token of this kind ends a statement: a line break, a semicolon, or the end of
input. -/
def endsStatement : TokenKind → Bool
  | newline | semicolon | endOfInput => true
  | _ => false

end TokenKind

/-- A lexeme `text` with its `kind`, the `gap` of skipped characters before it, and where it starts
and stops. -/
structure Token where
  kind : TokenKind
  gap : String
  text : String
  start : Position
  stop : Position
deriving DecidableEq, Repr

namespace Token

/-- The token as a message names it: its `text` in quotes, or words for the end of a line or of
input, which have none to show. -/
def describe (t : Token) : String :=
  match t.kind with
  | .endOfInput => "end of input"
  | .newline => "end of line"
  | _ => Text.quoted t.text

/-- Whether the token is an identifier of which the lower case is one of `words`. The `words`
themselves are not put in lower case. -/
def isWord (t : Token) (words : List String) : Bool :=
  t.kind == .identifier && words.contains (Text.lower t.text)

/-- The text that consecutive tokens were read from. The `gap` before the first token is left out,
those between tokens are kept. -/
def source : List Token → String
  | [] => ""
  | t :: ts => t.text ++ String.join (ts.map fun u => u.gap ++ u.text)

end Token
end DiagramText
