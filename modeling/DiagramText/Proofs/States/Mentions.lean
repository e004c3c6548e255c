import DiagramText.Proofs.States.Intact

/-!
# Where states are mentioned first

A state is at the token that mentioned it first. What is read of it later leaves it there: more
mentions, a label, a kind, and also the opening of its scope.

* `States.Draft.Registers`: a draft in which each state is where it was mentioned first.
* `States.Draft.Registers.mention` and the others: what each step of reading makes of that.
* `States.Draft.Registers.position_of_opened`: where the owner of the innermost open scope is.
-/

namespace DiagramText.States

open State

/-- The id of a state `s` with its position. -/
def State.entry (s : State) : String × Option Position := (s.id, s.position)

namespace Draft

variable {d e : Draft} {mentioned : List Token} {owners owners' : List (Option String)}
  {f : State → State} {t : Token}

/-! ### Entries -/

/-- The ids of all states of `d` with their positions, in the order of the tree. -/
def entries (d : Draft) : List (String × Option Position) :=
  (nodesList d.scope.states).map State.entry

/-- A change `f` that leaves a state where it is adds what it puts into the scopes of the state, and
no other entry changes. -/
theorem entries_modify (h : d.ids.Nodup) {new : List State} (hputs : Puts f new)
    (hf : ∀ s, (f s).position = s.position) (i : String) :
    (d.modify i f).entries ⊆ d.entries ++ new.map State.entry := by
  have hlasting : Lasting fun _ _ s => s.entry ∈ d.entries ++ new.map State.entry :=
    ⟨fun h _ _ => h, fun h _ _ => h⟩
  have hall : ∀ s ∈ nodesList (modifyList i f d.scope.states),
      s.entry ∈ d.entries ++ new.map State.entry := by
    refine hlasting.forall_modify hputs (fun j (hj : j ∈ d.ids) => hj)
      (fun o (ho : o ∈ d.opened) _ => ho) (fun s _ _ hs => ?_) (fun s hs => ?_) h fun s hs => ?_
    · rwa [State.entry, hputs.id, hf]
    · exact List.mem_append_right _ (List.mem_map_of_mem hs)
    · exact List.mem_append_left _ (List.mem_map_of_mem hs)
  intro x hx
  obtain ⟨s, hs, rfl⟩ := List.mem_map.1 hx
  exact hall s hs

theorem entries_add (h : d.ids.Nodup) (y : Scope State) :
    (d.add y).entries ⊆ d.entries ++ (nodesList y.states).map State.entry := by
  obtain ⟨version, direction, scope, opened⟩ := d
  cases opened with
  | nil =>
    show (nodesList (scope.states ++ y.states)).map State.entry ⊆ _
    rw [nodesList_append, List.map_append]
    exact List.Subset.refl _
  | cons o outer =>
    refine entries_modify h (puts_modifyRegion o.region y) (fun s => ?_) o.owner
    cases o.region <;> rfl

/-! ### Registers -/

/-- A draft in which each state is where the first of some tokens mentions it. All of them mention
states, and the open scopes are those of `owners`. -/
structure Registers (mentioned : List Token) (owners : List (Option String)) (d : Draft) :
    Prop where
  intact : d.Intact
  first : ∀ x ∈ d.entries, ∃ t, mentioned.find? (·.text == x.1) = some t ∧ x.2 = some t.start
  known : ∀ t ∈ mentioned, t.text ∈ d.ids
  owners : (d.opened.map fun o => some o.owner) = owners

namespace Registers

theorem empty (version : Version) : Registers [] [] { version } where
  intact := .empty version none
  first := List.forall_mem_nil _
  known := List.forall_mem_nil _
  owners := rfl

/-- Where `e` adds no states to `d` and leaves all of them where they are, the same tokens still
tell where. -/
theorem of_subset (h : d.Registers mentioned owners) (hintact : e.Intact)
    (hentries : e.entries ⊆ d.entries) (hids : ∀ i ∈ d.ids, i ∈ e.ids)
    (howners : (e.opened.map fun o => some o.owner) = owners') : e.Registers mentioned owners' where
  intact := hintact
  first x hx := h.first x (hentries hx)
  known t ht := hids _ (h.known t ht)
  owners := howners

/-- A change `f` of a state that leaves it where it is and puts nothing into its scopes keeps all
entries. -/
theorem change (h : d.Registers mentioned owners) (hputs : Puts f [])
    (hf : ∀ s, (f s).position = s.position) {i : String} {opened' : List OpenScope}
    (hintact : Intact { d.modify i f with opened := opened' })
    (howners : (opened'.map fun o => some o.owner) = owners') :
    Registers mentioned owners' { d.modify i f with opened := opened' } := by
  have hentries := entries_modify h.intact.nodup hputs hf i
  rw [List.map_nil, List.append_nil] at hentries
  exact h.of_subset hintact hentries (fun _ hj => mem_ids_modify hputs hj) howners

theorem decorate (h : d.Registers mentioned owners) (hf : Decorates f) (i : String) :
    (d.modify i f).Registers mentioned owners := by
  refine h.change (.of_eq (fun s => (hf.parts s).1) hf.inner) (fun s => ?_)
    (h.intact.decorate hf i) h.owners
  rw [hf s]

theorem openScope (h : d.Registers mentioned owners) {i : String} (hi : i ∈ d.ids) :
    (d.openScope i).Registers mentioned (some i :: owners) := by
  refine h.change (f := fun s => { s with children := some (s.children.getD []) })
    (.of_eq (fun _ => rfl) inner_children) (fun _ => rfl) (h.intact.openScope hi) ?_
  exact congrArg (some i :: ·) h.owners

theorem closeScope (h : d.Registers mentioned owners) :
    d.closeScope.Registers mentioned owners.tail := by
  refine h.of_subset h.intact.closeScope (List.Subset.refl _) (fun _ hi => hi) ?_
  rw [Draft.closeScope, List.map_tail, h.owners]

/-- The next region has the owner of the one before it, so `owners` stays. -/
theorem nextRegion (h : d.Registers mentioned owners) :
    d.nextRegion.Registers mentioned owners := by
  have hintact := h.intact.nextRegion
  unfold Draft.nextRegion at hintact ⊢
  split at hintact
  · exact h
  · next o outer hopened =>
    refine h.change (f := fun s => { s with regions := s.regions ++ [{}] })
      (.of_eq (fun _ => rfl) inner_region) (fun _ => rfl) hintact ?_
    rw [← h.owners, hopened]
    rfl

theorem setDirection (h : d.Registers mentioned owners) (x : Direction) :
    (d.setDirection x).Registers mentioned owners := by
  have hintact := h.intact.setDirection x
  unfold Draft.setDirection at hintact ⊢
  split at hintact
  · exact h.of_subset hintact (List.Subset.refl _) (fun _ hi => hi) h.owners
  · exact h.decorate (f := fun s => { s with direction := some x }) (fun _ => rfl) _

/-- Transitions and notes are no states, so to add those of `y` changes no entry. -/
theorem add (h : d.Registers mentioned owners) {y : Scope State} (hy : y.states = [])
    (hintact : (d.add y).Intact) : (d.add y).Registers mentioned owners := by
  have hentries := entries_add h.intact.nodup y
  rw [hy] at hentries
  refine h.of_subset hintact ?_ (fun _ hi => mem_ids_add hi y) ?_
  · rwa [nodesList, List.map_nil, List.append_nil] at hentries
  · rw [opened_add, h.owners]

/-- A token `t` mentions a state that is new, or one that is where it was. In both cases it is
behind all mentions before. -/
theorem mention (h : d.Registers mentioned owners) (ht : isPseudostate t.text = false) :
    (d.mention t).Registers (mentioned ++ [t]) owners := by
  obtain ⟨hintact, hmem, hmono⟩ := h.intact.mention ht
  have hfirst : ∀ x ∈ d.entries, ∃ u,
      (mentioned ++ [t]).find? (·.text == x.1) = some u ∧ x.2 = some u.start := by
    intro x hx
    obtain ⟨u, hu, hposition⟩ := h.first x hx
    refine ⟨u, ?_, hposition⟩
    rw [List.find?_append, hu]
    rfl
  have hknown : ∀ u ∈ mentioned ++ [t], u.text ∈ (d.mention t).ids :=
    List.forall_mem_append.2
      ⟨fun u hu => hmono _ (h.known u hu), List.forall_mem_singleton.2 hmem⟩
  by_cases hold : t.text ∈ d.ids
  · rw [mention_of_mem hold] at hintact hknown ⊢
    exact ⟨hintact, hfirst, hknown, h.owners⟩
  · rw [mention_of_not_mem hold] at hintact hknown ⊢
    refine ⟨hintact, fun x hx => ?_, hknown, by rw [opened_add, h.owners]⟩
    rcases List.mem_append.1 (entries_add h.intact.nodup _ hx) with hx | hx
    · exact hfirst x hx
    · -- no token before mentions the new state
      obtain rfl := List.mem_singleton.1 hx
      refine ⟨t, ?_, rfl⟩
      have hnone : mentioned.find? (·.text == t.text) = none := by
        rw [List.find?_eq_none]
        intro u hu hsame
        exact hold (beq_iff_eq.1 hsame ▸ h.known u hu)
      show (mentioned ++ [t]).find? (·.text == t.text) = some t
      rw [List.find?_append, hnone, Option.none_or, List.find?_singleton, beq_self_eq_true,
        if_pos rfl]

/-- The owner of an open scope `o` is where it was mentioned first, which is not where the scope was
opened. -/
theorem position_of_opened (h : d.Registers mentioned owners) {o : OpenScope}
    (ho : o ∈ d.opened) : ∃ t, mentioned.find? (·.text == o.owner) = some t ∧
      (d.state? o.owner).bind State.position = some t.start := by
  obtain ⟨s, hs⟩ := Option.isSome_iff_exists.1 (isSome_state?_iff.2 (h.intact.owners o ho))
  obtain ⟨hmem, hid⟩ := mem_nodesList_of_find? d.scope.states s hs
  obtain ⟨t, hfirst, hposition⟩ := h.first s.entry (List.mem_map_of_mem hmem)
  refine ⟨t, ?_, ?_⟩
  · rw [← hid]
    exact hfirst
  · rw [hs]
    exact hposition

end Registers
end Draft
end DiagramText.States
