/-!
# Layout

A diagram is written as lines, each indented by its depth. The indent of one level is a text that
the caller chooses.

The lines of a diagram whose statements nest come from an agenda, a list of items that are finished
lines or bodies still to be written. The first body is replaced by its own items until no body is
left, so no depth of nesting needs a deeper recursion.

* `Layout.line`: a line at some depth.
* `Agenda`: what the bodies of a dialect are written as, with a bound that makes writing end.
* `Agenda.lines`: the lines of the items of an agenda; `Agenda.lines_append` and
  `Agenda.lines_body` take them apart.
-/

namespace DiagramText

/-- How a diagram is laid out: `indent` stands before a line once for each level of its depth. -/
structure Layout where
  indent : String := "    "
deriving DecidableEq, Repr

namespace Layout

/-- The indent of a line at the given `depth`. -/
def pad (l : Layout) (depth : Nat) : String := String.join (List.replicate depth l.indent)

/-- The line with `text` behind the indent of `depth`. -/
def line (l : Layout) (depth : Nat) (text : String) : String := l.pad depth ++ text

end Layout

/-- The `lines` as one text, without a break after the last. -/
def joinLines (lines : List String) : String := "\n".intercalate lines

/-! ### Agendas -/

/-- What is still to be written: finished lines, or a body of type `β` with the depth of its
lines. -/
inductive Item (β : Type) where
  | lines (texts : List String)
  | body (content : β) (depth : Nat)

namespace Item

variable {β : Type} (size : β → Nat)

/-- The number of steps that an item takes at most, when a body takes at most `size` of them. -/
def weight : Item β → Nat
  | lines _ => 1
  | body b _ => size b

/-- The number of steps that `items` take at most, when a body takes at most `size` of them. -/
def totalWeight : List (Item β) → Nat
  | [] => 0
  | item :: items => item.weight size + totalWeight items

@[simp]
theorem totalWeight_nil : totalWeight size [] = 0 := rfl

@[simp]
theorem totalWeight_cons (item : Item β) (items : List (Item β)) :
    totalWeight size (item :: items) = item.weight size + totalWeight size items := rfl

@[simp]
theorem totalWeight_append (xs ys : List (Item β)) :
    totalWeight size (xs ++ ys) = totalWeight size xs + totalWeight size ys := by
  induction xs with
  | nil => exact (Nat.zero_add _).symm
  | cons item xs ih => rw [List.cons_append, totalWeight_cons, totalWeight_cons, ih, Nat.add_assoc]

/-- The items of all elements of a list take at most `total` steps, if `total` leaves room for the
items of each further element. -/
theorem totalWeight_flatMap_le {α : Type} {f : α → List (Item β)} {total : List α → Nat}
    (h : ∀ a as, totalWeight size (f a) + total as ≤ total (a :: as)) (as : List α) :
    totalWeight size (as.flatMap f) ≤ total as := by
  induction as with
  | nil => exact Nat.zero_le _
  | cons a as ih =>
    rw [List.flatMap_cons, totalWeight_append]
    exact Nat.le_trans (Nat.add_le_add_left ih _) (h a as)

end Item

/-- How bodies are written. Each body becomes the `items` of its depth, and these take fewer steps
than the `size` of the body, so that writing ends. -/
structure Agenda (β : Type) where
  items : Nat → β → List (Item β)
  size : β → Nat
  totalWeight_items_lt : ∀ depth b, Item.totalWeight size (items depth b) < size b

namespace Agenda

variable {β : Type} (a : Agenda β)

/-- The lines of the items of an agenda. A body is replaced by the items that `a` gives for it. -/
def lines : List (Item β) → List String
  | [] => []
  | .lines texts :: items => texts ++ lines items
  | .body b depth :: items => lines (a.items depth b ++ items)
termination_by items => Item.totalWeight a.size items
decreasing_by
  · rw [Item.totalWeight_cons, Item.weight]
    omega
  · rw [Item.totalWeight_append, Item.totalWeight_cons]
    exact Nat.add_lt_add_right (a.totalWeight_items_lt depth b) _

/-- The lines of one part of an agenda do not depend on the other parts, so `Agenda.lines` is a
homomorphism from lists of items to lists of lines. -/
theorem lines_append (xs ys : List (Item β)) : a.lines (xs ++ ys) = a.lines xs ++ a.lines ys := by
  induction xs using lines.induct a with
  | case1 => rw [lines, List.nil_append, List.nil_append]
  | case2 texts xs ih => rw [List.cons_append, lines, lines, ih, List.append_assoc]
  | case3 b depth xs ih => rw [List.cons_append, lines, lines, ← ih, List.append_assoc]

@[simp]
theorem lines_nil : a.lines [] = [] := by rw [lines]

@[simp]
theorem lines_lines (texts : List String) (items : List (Item β)) :
    a.lines (.lines texts :: items) = texts ++ a.lines items := by rw [lines]

/-- The lines of a body `b` are those of its items, written at its own depth. -/
@[simp]
theorem lines_body (b : β) (depth : Nat) (items : List (Item β)) :
    a.lines (.body b depth :: items) = a.lines (a.items depth b) ++ a.lines items := by
  rw [lines, lines_append]

end Agenda
end DiagramText
