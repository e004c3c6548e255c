/-!
# Positions

A position locates a character of a document: its line, counted from one, its column in that line
and its offset in the whole document, both counted from zero. A text may be taken as a part of a
larger one that starts anywhere, so line and offset are any integers.
-/

namespace DiagramText

/-- A point in a document: `line` counts from one, `column` and `offset` from zero, and `offset`
runs over the whole document. -/
structure Position where
  line : Int
  column : Nat
  offset : Int
deriving DecidableEq, Repr

namespace Position

/-- The start of a document: the first character of line 1, at offset 0. -/
def origin : Position := ⟨1, 0, 0⟩

/-- The position after `n` more characters of the same line. -/
def right (p : Position) (n : Nat) : Position := ⟨p.line, p.column + n, p.offset + n⟩

/-- The position after a line break of `n` characters. -/
def down (p : Position) (n : Nat) : Position := ⟨p.line + 1, 0, p.offset + n⟩

end Position
end DiagramText
