import DiagramText.Program
import DiagramText.Proofs.Reading.Rows
import DiagramText.Proofs.Text.Relaid

/-!
# What is written in two layouts

A program is written line by line, and a layout is used for nothing but the indent of a line. In two
layouts of spaces and tabs, the lines are the same but for their indents.

* `Layout.Corresponds`: the same line, indented to the same depth in two layouts.
* `Diagram.corresponds_write`: the lines of a diagram correspond one by one.
* `Program.relaid_write`: texts of a program in two layouts are the same but for their layout.
-/

namespace DiagramText

open Text

variable {layout layout' : Layout}

/-! ### Corresponding lines -/

/-- What is written for the elements of a list is related by `R` if it is for each of them. -/
theorem forall₂_flatMap {α β γ : Type} {R : β → γ → Prop} {f : α → List β} {g : α → List γ}
    (h : ∀ a, List.Forall₂ R (f a) (g a)) (as : List α) :
    List.Forall₂ R (as.flatMap f) (as.flatMap g) := by
  induction as with
  | nil => exact .nil
  | cons a as ih =>
    rw [List.flatMap_cons, List.flatMap_cons]
    exact List.rel_append (h a) ih

/-- What may be missing is related by `R` if it is where it is there. -/
theorem forall₂_option {α β γ : Type} {R : β → γ → Prop} {f : α → β} {g : α → γ}
    (h : ∀ a, R (f a) (g a)) (o : Option α) :
    List.Forall₂ R (o.map f).toList (o.map g).toList := by
  cases o with
  | none => exact .nil
  | some a => exact .cons (h a) .nil

namespace Layout

/-- The same line in two layouts: one text, indented to one depth in each. -/
def Corresponds (layout layout' : Layout) (l l' : String) : Prop :=
  ∃ depth text, l = layout.line depth text ∧ l' = layout'.line depth text

theorem corresponds_line (depth : Nat) (text : String) :
    Corresponds layout layout' (layout.line depth text) (layout'.line depth text) :=
  ⟨depth, text, rfl, rfl⟩

/-- A line `text` at depth zero has no indent, so it is the same in both layouts. -/
theorem corresponds_self (text : String) : Corresponds layout layout' text text := by
  have hline : ∀ layout : Layout, text = layout.line 0 text := fun layout => by
    simp [line, pad]
  exact ⟨0, text, hline layout, hline layout'⟩

/-- Lines that correspond one by one, so that there are as many of them. -/
abbrev CorrespondAll (layout layout' : Layout) : List String → List String → Prop :=
  List.Forall₂ (Corresponds layout layout')

theorem correspondAll_map {α : Type} {f g : α → String}
    (h : ∀ a, Corresponds layout layout' (f a) (g a)) (as : List α) :
    CorrespondAll layout layout' (as.map f) (as.map g) := by
  rw [CorrespondAll, List.forall₂_map_left_iff, List.forall₂_map_right_iff, List.forall₂_same]
  exact fun a _ => h a

end Layout

open Layout

/-! ### Corresponding agendas -/

/-- Items that differ in nothing but the indents of finished lines. -/
inductive Item.Corresponds {β : Type} (layout layout' : Layout) : Item β → Item β → Prop
  | lines {ls ls' : List String} (h : CorrespondAll layout layout' ls ls') :
      Corresponds layout layout' (.lines ls) (.lines ls')
  | body (b : β) (depth : Nat) : Corresponds layout layout' (.body b depth) (.body b depth)

/-- A finished line as an item of an agenda, in two layouts. -/
theorem Item.corresponds_line {β : Type} (depth : Nat) (text : String) :
    (Item.lines [layout.line depth text] : Item β).Corresponds layout layout'
      (.lines [layout'.line depth text]) :=
  .lines (.cons (Layout.corresponds_line depth text) .nil)

/-- Agendas `a` and `a'` that write each body as corresponding items write corresponding lines. -/
theorem Agenda.correspond_lines {β : Type} {a a' : Agenda β}
    (hitems : ∀ depth b, List.Forall₂ (Item.Corresponds layout layout') (a.items depth b)
      (a'.items depth b)) {items items' : List (Item β)}
    (h : List.Forall₂ (Item.Corresponds layout layout') items items') :
    CorrespondAll layout layout' (a.lines items) (a'.lines items') := by
  induction items using Agenda.lines.induct a generalizing items' with
  | case1 =>
    cases h
    rw [lines_nil, lines_nil]
    exact .nil
  | case2 texts items ih =>
    cases h with
    | cons hitem h =>
      cases hitem with
      | lines hlines =>
        rw [lines_lines, lines_lines]
        exact List.rel_append hlines (ih h)
  | case3 b depth items ih =>
    cases h with
    | cons hitem h =>
      cases hitem with
      | body =>
        -- both bodies are replaced, so the induction goes on with the items of the two agendas
        rw [lines, lines]
        exact ih (List.rel_append (hitems depth b) h)

/-! ### The lines of diagrams -/

namespace Flowchart

theorem correspond_items (depth : Nat) (s : Statement) :
    List.Forall₂ (Item.Corresponds layout layout') (s.items layout depth)
      (s.items layout' depth) := by
  cases s with
  | clause c => exact .cons (Item.corresponds_line _ _) .nil
  | subgraph head body =>
    have hdirection := forall₂_option (fun x : Direction =>
      @corresponds_line layout layout' (depth + 1) s!"direction {x.name}") head.direction
    exact .cons (.lines (.cons (corresponds_line _ _) hdirection))
      (.cons (.body _ _) (.cons (Item.corresponds_line _ _) .nil))

theorem correspond_lines (d : Flowchart) :
    CorrespondAll layout layout' (d.lines layout) (d.lines layout') :=
  .cons (corresponds_self _) (Agenda.correspond_lines
    (fun depth => forall₂_flatMap (correspond_items depth)) (.cons (.body _ _) .nil))

end Flowchart

namespace Sequence

theorem correspond_items (depth : Nat) (s : Statement) :
    List.Forall₂ (Item.Corresponds layout layout') (s.items layout depth)
      (s.items layout' depth) := by
  cases s with
  | clause c => exact .cons (Item.corresponds_line _ _) .nil
  | block head body branches =>
    have hbranch : ∀ b, List.Forall₂ (Item.Corresponds layout layout')
        (Branch.items layout depth head.kind b) (Branch.items layout' depth head.kind b) :=
      fun b => .cons (Item.corresponds_line _ _) (.cons (.body _ _) .nil)
    rw [Statement.items, Statement.items]
    exact .cons (Item.corresponds_line _ _) (.cons (.body _ _)
      (List.rel_append (forall₂_flatMap hbranch branches)
        (.cons (Item.corresponds_line _ _) .nil)))

end Sequence

theorem SequenceDiagram.correspond_lines (d : SequenceDiagram) :
    CorrespondAll layout layout' (d.lines layout) (d.lines layout') := by
  have hbody : CorrespondAll layout layout' ((Sequence.agenda layout).lines [.body d.statements 1])
      ((Sequence.agenda layout').lines [.body d.statements 1]) :=
    Agenda.correspond_lines (fun depth => forall₂_flatMap (Sequence.correspond_items depth))
      (.cons (.body _ _) .nil)
  rw [lines, lines]
  cases d.autonumber with
  | false => exact .cons (corresponds_self _) hbody
  | true => exact .cons (corresponds_self _) (.cons (corresponds_line _ _) hbody)

namespace States

theorem correspond_labelLines (depth : Nat) (s : State) :
    CorrespondAll layout layout' (s.labelLines layout depth) (s.labelLines layout' depth) :=
  forall₂_option (fun _ => corresponds_line depth _) s.label

theorem correspond_noteLines (depth : Nat) (n : Note) :
    CorrespondAll layout layout' (n.lines layout depth) (n.lines layout' depth) := by
  rw [Note.lines, Note.lines]
  split
  · exact .cons (corresponds_line _ _) (.cons (corresponds_line _ _) .nil)
  · split
    · exact .cons (corresponds_line _ _) (List.rel_append
        (correspondAll_map (fun _ => corresponds_line _ _) _) (.cons (corresponds_line _ _) .nil))
    · exact .cons (corresponds_line _ _) .nil

theorem correspond_items (depth : Nat) (s : State) :
    List.Forall₂ (Item.Corresponds layout layout') (s.items layout depth)
      (s.items layout' depth) := by
  have hregion : ∀ r, List.Forall₂ (Item.Corresponds layout layout')
      (regionItems layout (depth + 1) r) (regionItems layout' (depth + 1) r) := fun r =>
    .cons (Item.corresponds_line _ _) (.cons (.body _ _) .nil)
  have hlabel := @correspond_labelLines layout layout' depth s
  rw [State.items, State.items]
  split
  · have hdirection := forall₂_option (fun x : Direction =>
      @corresponds_line layout layout' (depth + 1) s!"direction {x.name}") s.direction
    exact .cons (.lines (.cons (corresponds_line _ _) hdirection)) (.cons (.body _ _)
      (List.rel_append (forall₂_flatMap hregion s.regions)
        (.cons (.lines (.cons (corresponds_line _ _) hlabel)) .nil)))
  · exact .cons (.lines (.cons (corresponds_line _ _) hlabel)) .nil

theorem correspond_scopeItems (depth : Nat) (s : Scope State) :
    List.Forall₂ (Item.Corresponds layout layout') (scopeItems layout depth s)
      (scopeItems layout' depth s) := by
  rw [scopeItems, scopeItems]
  exact List.rel_append (forall₂_flatMap (correspond_items depth) s.states)
    (.cons (.lines (List.rel_append (correspondAll_map (fun _ => corresponds_line _ _) _)
      (forall₂_flatMap (correspond_noteLines depth) s.notes))) .nil)

end States

theorem StateDiagram.correspond_lines (d : StateDiagram) :
    CorrespondAll layout layout' (d.lines layout) (d.lines layout') :=
  .cons (corresponds_self _) (List.rel_append
    (forall₂_option (fun _ => corresponds_line _ _) d.direction)
    (Agenda.correspond_lines States.correspond_scopeItems (.cons (.body _ _) .nil)))

theorem ClassDiagram.correspond_lines (d : ClassDiagram) :
    CorrespondAll layout layout' (d.lines layout) (d.lines layout') := by
  have hclass : ∀ c : Classes.Definition,
      CorrespondAll layout layout' (c.lines layout) (c.lines layout') := by
    intro c
    rw [Classes.Definition.lines, Classes.Definition.lines]
    split
    · exact .cons (corresponds_line _ _) .nil
    · exact .cons (corresponds_line _ _) (List.rel_append
        (correspondAll_map (fun _ => corresponds_line _ _) _) (.cons (corresponds_line _ _) .nil))
  rw [lines, lines]
  exact List.rel_append (List.rel_append (.cons (corresponds_self _)
    (forall₂_option (fun _ => corresponds_line _ _) d.direction))
    (forall₂_flatMap hclass d.classes)) (correspondAll_map (fun _ => corresponds_line _ _) _)

theorem EntityDiagram.correspond_lines (d : EntityDiagram) :
    CorrespondAll layout layout' (d.lines layout) (d.lines layout') := by
  have hentity : ∀ e : Entities.Entity,
      CorrespondAll layout layout' (e.lines layout) (e.lines layout') := by
    intro e
    rw [Entities.Entity.lines, Entities.Entity.lines]
    split
    · exact .cons (corresponds_line _ _) .nil
    · exact .cons (corresponds_line _ _) (List.rel_append
        (correspondAll_map (fun _ => corresponds_line _ _) _) (.cons (corresponds_line _ _) .nil))
  rw [lines, lines]
  exact List.rel_append (.cons (corresponds_self _) (forall₂_flatMap hentity d.entities))
    (correspondAll_map (fun _ => corresponds_line _ _) _)

theorem Gantt.correspond_lines (g : Gantt) :
    CorrespondAll layout layout' (g.lines layout) (g.lines layout') := by
  have hdirective : ∀ name value, CorrespondAll layout layout'
      (directiveLines layout name value) (directiveLines layout' name value) :=
    fun name value => forall₂_option (fun _ => corresponds_line _ _) _
  have hsection : ∀ s : Section, CorrespondAll layout layout'
      (s.lines layout g.config.dateFormat) (s.lines layout' g.config.dateFormat) := fun s =>
    .cons (corresponds_line _ _) (correspondAll_map (fun _ => corresponds_line _ _) _)
  rw [lines, lines, Config.lines, Config.lines]
  exact List.rel_append (.cons (corresponds_self _) (List.rel_append (List.rel_append
    (List.rel_append (List.rel_append (hdirective _ _) (.cons (corresponds_line _ _) .nil))
      (hdirective _ _)) (hdirective _ _)) (hdirective _ _)))
    (forall₂_flatMap hsection g.sections)

/-- A diagram `d` is written as lines that correspond in any two layouts. No line that is written
looks at the layout for anything else. -/
theorem Diagram.corresponds_write (d : Diagram) : ∃ ls ls', ls ≠ [] ∧
    d.write layout = joinLines ls ∧ d.write layout' = joinLines ls' ∧
    CorrespondAll layout layout' ls ls' := by
  cases d with
  | flowchart d => exact ⟨_, _, List.cons_ne_nil _ _, rfl, rfl, d.correspond_lines⟩
  | sequence d => exact ⟨_, _, List.cons_ne_nil _ _, rfl, rfl, d.correspond_lines⟩
  | classes d => exact ⟨_, _, List.cons_ne_nil _ _, rfl, rfl, d.correspond_lines⟩
  | entities d => exact ⟨_, _, List.cons_ne_nil _ _, rfl, rfl, d.correspond_lines⟩
  | states d => exact ⟨_, _, List.cons_ne_nil _ _, rfl, rfl, d.correspond_lines⟩
  | gantt d => exact ⟨_, _, List.cons_ne_nil _ _, rfl, rfl, d.correspond_lines⟩

/-! ### Texts -/

/-- Texts `a` and `a'` that are the same but for their layout before any that are, with a line feed
between. -/
def Text.RelaidBefore (P : Position → Position → Prop) (a a' : List Char) : Prop :=
  ∀ cs cs', Relaid P cs cs' → Relaid P (a ++ '\n' :: cs) (a' ++ '\n' :: cs')

theorem Text.RelaidBefore.append {P : Position → Position → Prop} {a a' b b' : List Char}
    (ha : RelaidBefore P a a') (hb : RelaidBefore P b b') :
    RelaidBefore P (a ++ '\n' :: b) (a' ++ '\n' :: b') := by
  intro cs cs' h
  have hrest := ha _ _ (hb _ _ h)
  simpa using hrest

/-- A line goes before a text with any indent, if the indents are blank. -/
theorem Layout.Corresponds.relaidBefore (hlayout : layout.IsBlank) (hlayout' : layout'.IsBlank)
    {l l' : String} (h : Corresponds layout layout' l l') :
    RelaidBefore Token.AnyPlace l.toList l'.toList := by
  obtain ⟨depth, text, rfl, rfl⟩ := h
  intro cs cs' h
  rw [Layout.line, Layout.line, String.toList_append, String.toList_append, List.append_assoc,
    List.append_assoc]
  exact (h.after_newline text.toList).indent (fun _ _ => trivial)
    (isSpaceOrTab_of_mem_pad hlayout depth) (isSpaceOrTab_of_mem_pad hlayout' depth)

theorem relaidBefore_joinLines (hlayout : layout.IsBlank) (hlayout' : layout'.IsBlank)
    {ls ls' : List String} (hne : ls ≠ []) (h : CorrespondAll layout layout' ls ls') :
    RelaidBefore Token.AnyPlace (joinLines ls).toList (joinLines ls').toList := by
  induction h with
  | nil => exact absurd rfl hne
  | @cons l l' ls ls' hl hls ih =>
    have hline := hl.relaidBefore hlayout hlayout'
    cases hls with
    | nil => simpa [joinLines] using hline
    | @cons m m' ms ms' hm hms =>
      have hrest := hline.append (ih (List.cons_ne_nil m ms))
      simpa [joinLines, String.intercalate_cons_cons] using hrest

namespace Program

/-- In two layouts with blank indents, a program `p` is written as texts that are the same but for
their layout. -/
theorem relaid_write (hlayout : layout.IsBlank) (hlayout' : layout'.IsBlank) (p : Program) :
    Relaid Token.AnyPlace (p.write layout).toList (p.write layout').toList := by
  obtain ⟨ds⟩ := p
  have hdiagram : ∀ d : Diagram,
      RelaidBefore Token.AnyPlace (d.write layout).toList (d.write layout').toList := by
    intro d
    obtain ⟨ls, ls', hne, hwrite, hwrite', hls⟩ := @d.corresponds_write layout layout'
    rw [hwrite, hwrite']
    exact relaidBefore_joinLines hlayout hlayout' hne hls
  have hempty : RelaidBefore Token.AnyPlace [] [] := fun cs cs' h => h.after_newline []
  cases ds with
  | nil => exact .refl _
  | cons d ds =>
    have hdiagrams : RelaidBefore Token.AnyPlace
        ("\n\n".intercalate ((d :: ds).map (Diagram.write layout))).toList
        ("\n\n".intercalate ((d :: ds).map (Diagram.write layout'))).toList := by
      induction ds generalizing d with
      | nil => simpa using hdiagram d
      | cons e ds ih =>
        have hrest := (hdiagram d).append (hempty.append (ih e))
        simpa [String.intercalate_cons_cons] using hrest
    have hall := hdiagrams [] [] (.refl [])
    simpa [write] using hall

end Program
end DiagramText
