import Mathlib.Data.List.Induction
import Mathlib.Data.List.Nodup

/-!
# Rosters

A roster lists what is known of some ids: one entry for each id, at the place of its first mention.
The entry is the last declaration of the id, or a blank one as long as nothing declares it. A roster
is kept up to date by two steps: a mention puts a blank entry at the end for an id that is new, and
a declaration sets the entry of its id.

* `roster_mention` and `roster_declare`: the two steps make the roster of one mention more and of
  one declaration more.
* `map_key_roster` and `nodup_map_key_roster`: the ids of a roster are those mentioned, each once.
* `find?_roster`: the entry of an id that was mentioned.
* `EnteredBy`: a registry is what some clauses make, entered one after the other; by
  `foldl_eq_roster` it is then the roster of the ids that they mention and of what they declare.
* `Registers`: known names are those that were mentioned, each once, and links are between them.
* `map_key_mention` and `map_key_modify`: what a mention of an entry and a change of one in place do
  to the keys of a list of entries.
-/

namespace DiagramText

variable {α : Type}

/-! ### First mentions -/

/-- A mention of `id` counts if it is the first, and otherwise changes nothing. -/
theorem eraseDups_concat (mentions : List String) (id : String) :
    (mentions ++ [id]).eraseDups =
      if id ∈ mentions then mentions.eraseDups else mentions.eraseDups ++ [id] := by
  rw [List.eraseDups_append]
  split
  · next h => simp [List.removeAll, h]
  · next h => simp [List.removeAll, h, List.eraseDups_cons]

theorem nodup_eraseDups (mentions : List String) : mentions.eraseDups.Nodup := by
  induction mentions using List.reverseRecOn with
  | nil => exact List.nodup_nil
  | append_singleton mentions id ih =>
    rw [eraseDups_concat]
    split
    · exact ih
    · next h =>
      apply ih.append (List.nodup_singleton id)
      rw [List.disjoint_singleton, List.mem_eraseDups]
      exact h

/-- The names in `known` are those that were `mentioned`, each once and in the order of their first
mention, and both ends of each of the `links` are among them. -/
structure Registers (known : List String) (links : List (String × String))
    (mentioned : List String) : Prop where
  known_eq : known = mentioned.eraseDups
  links_mem : ∀ l ∈ links, l.1 ∈ mentioned ∧ l.2 ∈ mentioned

namespace Registers

variable {known mentioned : List String} {links : List (String × String)} {source target : String}

theorem nil : Registers [] [] [] := ⟨rfl, nofun⟩

theorem nodup (h : Registers known links mentioned) : known.Nodup :=
  h.known_eq ▸ nodup_eraseDups mentioned

theorem mem_iff (h : Registers known links mentioned) {name : String} :
    name ∈ known ↔ name ∈ mentioned := by rw [h.known_eq, List.mem_eraseDups]

/-- A mention adds its `name` at the end unless the name is known, which is what all readers do. -/
theorem mention (h : Registers known links mentioned) (name : String) :
    Registers (if name ∈ known then known else known ++ [name]) links (mentioned ++ [name]) := by
  constructor
  · simp only [h.mem_iff]
    rw [eraseDups_concat, h.known_eq]
  · intro l hl
    obtain ⟨hsource, htarget⟩ := h.links_mem l hl
    exact ⟨List.mem_append_left _ hsource, List.mem_append_left _ htarget⟩

/-- A link can be added between names that were mentioned, and adds no name itself. -/
theorem link (h : Registers known links mentioned) (hsource : source ∈ mentioned)
    (htarget : target ∈ mentioned) : Registers known (links ++ [(source, target)]) mentioned := by
  refine ⟨h.known_eq, fun l hl => ?_⟩
  rcases List.mem_append.1 hl with hl | hl
  · exact h.links_mem l hl
  · rw [List.mem_singleton.1 hl]
    exact ⟨hsource, htarget⟩

/-- A statement that mentions `source` and then `target` can link the one to the other. -/
theorem mention_link (h : Registers known links mentioned) (source target : String) :
    let ends := if source ∈ known then known else known ++ [source]
    Registers (if target ∈ ends then ends else ends ++ [target]) (links ++ [(source, target)])
      (mentioned ++ [source, target]) := by
  intro ends
  have hends := (h.mention source).mention target
  rw [List.append_assoc] at hends
  exact hends.link (by simp) (by simp)

end Registers

/-! ### Entries under keys -/

section

variable {key : α → String} {id : String} {entries : List α}

/-- The test by which a mention finds out whether its `id` has an entry. -/
theorem any_key_iff : entries.any (key · == id) = true ↔ id ∈ entries.map key := by
  simp [List.mem_map]

/-- Entries are changed in place as long as `change` leaves their keys as they are. -/
theorem map_key_modify {change : α → α} (h : ∀ a, key (change a) = key a) (id : String)
    (entries : List α) :
    (entries.map fun a => if key a = id then change a else a).map key = entries.map key := by
  rw [List.map_map]
  apply List.map_congr_left
  intro a _
  rw [Function.comp_apply]
  split
  · exact h a
  · rfl

/-- A mention adds the key of its entry `a` unless the key is known. -/
theorem map_key_mention (entries : List α) (a : α) :
    (if entries.any (key · == key a) then entries else entries ++ [a]).map key =
      if key a ∈ entries.map key then entries.map key else entries.map key ++ [key a] := by
  simp only [any_key_iff]
  split
  · rfl
  · exact List.map_append

/-- A mention puts what is new behind the entries that are there, so these are a prefix. -/
theorem prefix_mention (p : Prop) [Decidable p] (entries : List α) (a : α) :
    entries <+: if p then entries else entries ++ [a] := by
  split
  · exact List.prefix_refl _
  · exact List.prefix_append _ _

end

/-! ### Entering one clause after the other -/

section

variable {β : Type} {enter : List α → β → List α} {known : List α} {cs : List β}

/-- The registry `known` is what the clauses `cs` make of an empty one by `enter`. -/
def EnteredBy (enter : List α → β → List α) (known : List α) (cs : List β) : Prop :=
  known = cs.foldl enter []

theorem EnteredBy.nil : EnteredBy enter [] [] := rfl

/-- Clauses `ds` that come last are entered last, into what those before have made. -/
theorem EnteredBy.append (h : EnteredBy enter known cs) (ds : List β) :
    EnteredBy enter (ds.foldl enter known) (cs ++ ds) := by
  rw [EnteredBy, List.foldl_append, ← h]

end

/-! ### Last declarations -/

section

variable (key : α → String) (blank : String → α)

/-- The last declaration of `id`, or a `blank` entry if there is none. -/
def lastDeclared (declared : List α) (id : String) : α :=
  (declared.filter fun a => key a = id).getLast?.getD (blank id)

/-- The entries of all ids that are mentioned, in the order of their first mention. -/
def roster (mentions : List String) (declared : List α) : List α :=
  mentions.eraseDups.map (lastDeclared key blank declared)

end

variable {key : α → String} {blank : String → α} {mentions : List String} {declared : List α}
  {id : String} {a : α}

theorem lastDeclared_of_forall_ne (h : ∀ a ∈ declared, key a ≠ id) :
    lastDeclared key blank declared id = blank id := by
  have hnil : (declared.filter fun a => key a = id) = [] := by
    rw [List.filter_eq_nil_iff]
    intro a ha
    simpa using h a ha
  rw [lastDeclared, hnil]
  rfl

/-- A declaration is the last one of its id until there is another, and that of no other id. -/
theorem lastDeclared_concat (declared : List α) (a : α) (id : String) :
    lastDeclared key blank (declared ++ [a]) id =
      if key a = id then a else lastDeclared key blank declared id := by
  unfold lastDeclared
  rw [List.filter_append]
  split
  · next h => simp [h]
  · next h => simp [h]

/-- Declarations of one `id` are nothing to the others, so they may be left out for these. -/
theorem lastDeclared_filter_ne {id id' : String} (hne : id' ≠ id) (declared : List α) :
    lastDeclared key blank (declared.filter fun a => key a ≠ id) id' =
      lastDeclared key blank declared id' := by
  unfold lastDeclared
  rw [List.filter_filter]
  congr 3
  funext a
  by_cases ha : key a = id'
  · simp [ha, hne]
  · simp [ha]

/-- What holds of blank entries and of declarations holds of every entry, as it is one of these. -/
theorem lastDeclared_induction {P : α → Prop} (hblank : ∀ id, P (blank id))
    (h : ∀ a ∈ declared, P a) (id : String) : P (lastDeclared key blank declared id) := by
  unfold lastDeclared
  cases hlast : (declared.filter fun a => key a = id).getLast? with
  | none => exact hblank id
  | some a => exact h a (List.mem_of_mem_filter (List.mem_of_getLast? hlast))

/-- The entry of an `id` has the id, if blank entries have theirs. -/
theorem key_lastDeclared (hblank : ∀ id, key (blank id) = id) (declared : List α) (id : String) :
    key (lastDeclared key blank declared id) = id := by
  induction declared using List.reverseRecOn with
  | nil => exact hblank id
  | append_singleton declared a ih =>
    rw [lastDeclared_concat]
    split
    · next ha => exact ha
    · exact ih

/-! ### The ids of a roster -/

theorem map_key_roster (hblank : ∀ id, key (blank id) = id) (mentions : List String)
    (declared : List α) : (roster key blank mentions declared).map key = mentions.eraseDups := by
  rw [roster, List.map_map]
  conv_rhs => rw [← List.map_id mentions.eraseDups]
  apply List.map_congr_left
  intro id _
  exact key_lastDeclared hblank declared id

theorem nodup_map_key_roster (hblank : ∀ id, key (blank id) = id) (mentions : List String)
    (declared : List α) : ((roster key blank mentions declared).map key).Nodup := by
  rw [map_key_roster hblank]
  exact nodup_eraseDups mentions

theorem any_roster (hblank : ∀ id, key (blank id) = id) :
    (roster key blank mentions declared).any (key · == id) = true ↔ id ∈ mentions := by
  rw [any_key_iff, map_key_roster hblank, List.mem_eraseDups]

/-- The entry of an `id` is found by the id, since no other entry has it. -/
theorem find?_roster (hblank : ∀ id, key (blank id) = id) (hid : id ∈ mentions) :
    (roster key blank mentions declared).find? (key · == id) =
      some (lastDeclared key blank declared id) := by
  rw [← List.mem_eraseDups] at hid
  unfold roster
  generalize mentions.eraseDups = ids at hid ⊢
  induction ids with
  | nil => cases hid
  | cons i is ih =>
    rw [List.map_cons, List.find?_cons, key_lastDeclared hblank]
    by_cases hi : i = id
    · simp [hi]
    · have his : id ∈ is := (List.mem_cons.1 hid).resolve_left (Ne.symm hi)
      rw [show (i == id) = false by simpa using hi]
      exact ih his

/-! ### Keeping a roster -/

/-- A mention puts a blank entry at the end, unless the `id` has an entry. It makes the roster of
one mention more. -/
theorem roster_mention (hblank : ∀ id, key (blank id) = id)
    (hdeclared : ∀ a ∈ declared, key a ∈ mentions) (id : String) :
    roster key blank (mentions ++ [id]) declared =
      if (roster key blank mentions declared).any (key · == id) then
        roster key blank mentions declared
      else roster key blank mentions declared ++ [blank id] := by
  simp only [any_roster hblank]
  rw [roster, eraseDups_concat]
  split
  · rfl
  · next h =>
    rw [List.map_append, List.map_singleton, lastDeclared_of_forall_ne]
    · rfl
    · intro a ha heq
      exact h (heq ▸ hdeclared a ha)

/-- A declaration sets the entry of its id, and leaves all others. It makes the roster of one
declaration more. -/
theorem roster_declare (hblank : ∀ id, key (blank id) = id) (mentions : List String)
    (declared : List α) (a : α) :
    roster key blank mentions (declared ++ [a]) =
      (roster key blank mentions declared).map fun b => if key b = key a then a else b := by
  rw [roster, roster, List.map_map]
  apply List.map_congr_left
  intro id _
  rw [lastDeclared_concat, Function.comp_apply, key_lastDeclared hblank]
  simp only [eq_comm]

/-! ### The roster of clauses -/

section

variable {β : Type} {mentioned : β → List String} {declared? : β → Option α}
  {enter : List α → β → List α}

variable (key blank mentioned declared?) in
/-- The roster of what the clauses `cs` mention and of what they declare. -/
def clauseRoster (cs : List β) : List α :=
  roster key blank (cs.flatMap mentioned) (cs.filterMap declared?)

/-- If entering a clause into a roster makes the roster of one clause more, then what clauses make
of an empty registry is their roster. Both flowcharts and sequence diagrams use it. -/
theorem foldl_eq_roster (henter : ∀ cs c, enter (clauseRoster key blank mentioned declared? cs) c =
    clauseRoster key blank mentioned declared? (cs ++ [c])) (cs : List β) :
    cs.foldl enter [] = clauseRoster key blank mentioned declared? cs := by
  induction cs using List.reverseRecOn with
  | nil => rfl
  | append_singleton cs c ih =>
    rw [List.foldl_append, ih]
    exact henter cs c

end

end DiagramText
