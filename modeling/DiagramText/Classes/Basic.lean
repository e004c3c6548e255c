import DiagramText.Direction
import DiagramText.Position

/-!
# Class diagrams

A class diagram is a list of classes in the order of their first mention, each with its members, and
a list of relations between them.
-/

namespace DiagramText

namespace Classes

/-! ### Members -/

/-- Who can use a member. A member need not say. -/
inductive Visibility where
  | «public»
  | «private»
  | «protected»
  | «package»
deriving DecidableEq, Repr

namespace Visibility

/-- The mark of a visibility, which stands before the member. -/
def mark : Visibility → Char
  | «public» => '+'
  | «private» => '-'
  | «protected» => '#'
  | «package» => '~'

/-- The visibility with the given mark, if there is one. -/
def ofMark? : Char → Option Visibility
  | '+' => some «public»
  | '-' => some «private»
  | '#' => some «protected»
  | '~' => some «package»
  | _ => none

end Visibility

/-- What a member is. A method is known by its parentheses. -/
inductive MemberKind where
  | attribute
  | method
deriving DecidableEq, Repr

/-- A member of a class. Only a method has `parameters`, which may be empty. -/
structure Member where
  name : String
  kind : MemberKind := .attribute
  visibility : Option Visibility := none
  type : Option String := none
  parameters : Option String := none
  isStatic : Bool := false
  isAbstract : Bool := false
deriving DecidableEq, Repr

/-! ### Classes and relations -/

/-- A class with its members, in the order in which they were read. -/
structure Definition where
  name : String
  generic : Option String := none
  stereotype : Option String := none
  members : List Member := []
  position : Option Position := none
deriving DecidableEq, Repr

/-- What a relation between two classes means. A reverse kind has its mark at the other end. -/
inductive RelationKind where
  | inheritance
  | inheritanceReverse
  | composition
  | compositionReverse
  | aggregation
  | aggregationReverse
  | association
  | associationReverse
  | link
  | dependency
  | dependencyReverse
  | realization
  | realizationReverse
  | dashedLink
deriving DecidableEq, Repr

namespace RelationKind

/-- The operator of a relation, which `ofText?` reads back. -/
def text : RelationKind → String
  | inheritance => "<|--"
  | inheritanceReverse => "--|>"
  | composition => "*--"
  | compositionReverse => "--*"
  | aggregation => "o--"
  | aggregationReverse => "--o"
  | association => "-->"
  | associationReverse => "<--"
  | link => "--"
  | dependency => "..>"
  | dependencyReverse => "<.."
  | realization => "..|>"
  | realizationReverse => "<|.."
  | dashedLink => ".."

/-- All kinds of relation, in the order in which operators are compared. -/
def all : List RelationKind :=
  [inheritance, inheritanceReverse, composition, compositionReverse, aggregation,
   aggregationReverse, association, associationReverse, link, dependency, dependencyReverse,
   realization, realizationReverse, dashedLink]

/-- The relation with the given `operator`, if there is one. -/
def ofText? (operator : String) : Option RelationKind := all.find? (·.text == operator)

end RelationKind

/-- A relation between two classes, with a cardinality at each end if it has any. -/
structure Relation where
  source : String
  target : String
  kind : RelationKind
  sourceCardinality : Option String := none
  targetCardinality : Option String := none
  label : Option String := none
  position : Option Position := none
deriving DecidableEq, Repr

end Classes

/-- A class diagram with its classes, its relations and its direction, which may be missing. -/
structure ClassDiagram where
  classes : List Classes.Definition := []
  relations : List Classes.Relation := []
  direction : Option Direction := none
deriving DecidableEq, Repr

namespace ClassDiagram

open Classes

/-- The diagram `d` without positions, which take no part in what it means. -/
def unplaced (d : ClassDiagram) : ClassDiagram where
  classes := d.classes.map fun c => { c with position := none }
  relations := d.relations.map fun r => { r with position := none }
  direction := d.direction

/-- The class with a `name`. -/
def class? (d : ClassDiagram) (name : String) : Option Definition :=
  d.classes.find? (·.name == name)

/-- Mentions a class `name`, which adds it at the end if it is new. -/
def mention (d : ClassDiagram) (name : String) (position : Option Position) : ClassDiagram :=
  if d.classes.any (·.name == name) then d
  else { d with classes := d.classes ++ [{ name, position }] }

/-- Changes the class with a `name` by `f`. -/
def modify (d : ClassDiagram) (name : String) (f : Definition → Definition) : ClassDiagram :=
  { d with classes := d.classes.map fun c => if c.name = name then f c else c }

end ClassDiagram
end DiagramText
