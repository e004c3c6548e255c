import DiagramText.Proofs.States.Draft
import Mathlib.Data.List.Nodup

/-!
# All states of a tree

What holds of every state of a tree, where the states in its scopes do not matter, still holds when
one state is changed, and so does that no id is there twice.

* `States.State.forall_nodes_modify`: a property of all states before a change is one after it.
* `States.State.nodup_ids_modify`: a change that puts new states somewhere keeps the ids apart.
-/

-- the lemmas of a mutual block use what is assumed of the change through one another
set_option linter.unusedSectionVars false

namespace DiagramText.States

/-- What a scope `y` holds besides its states: transitions and notes. -/
def Scope.bare (y : Scope State) : Scope State := { y with states := [] }

namespace State

variable {i j : String} {f : State → State}

/-! ### States and ids -/

mutual

theorem map_id_nodes : ∀ s : State, s.nodes.map State.id = s.ids
  | ⟨id, _, _, children, _, _, _, regions, _⟩ => by
    rw [nodes, List.map_cons, List.map_append, map_id_nodesChildren children,
      map_id_nodesScopes regions, ids]

theorem map_id_nodesChildren : ∀ c : Option (List State),
    (nodesChildren c).map State.id = idsChildren c
  | none => rfl
  | some ss => map_id_nodesList ss

theorem map_id_nodesList : ∀ ss : List State, (nodesList ss).map State.id = idsList ss
  | [] => rfl
  | s :: ss => by
    rw [nodesList, List.map_append, map_id_nodes s, map_id_nodesList ss, idsList]

theorem map_id_nodesScopes : ∀ rs : List (Scope State),
    (nodesScopes rs).map State.id = idsScopes rs
  | [] => rfl
  | ⟨states, _, _⟩ :: rs => by
    rw [nodesScopes, List.map_append, map_id_nodesList states, map_id_nodesScopes rs, idsScopes]

end

theorem id_mem_idsList {s : State} {ss : List State} (h : s ∈ nodesList ss) :
    s.id ∈ idsList ss := by
  rw [← map_id_nodesList]
  exact List.mem_map_of_mem h

mutual

/-- A state `t` that is found in `s` is one of the tree, and has the id that was looked for. -/
theorem mem_nodes_of_find? : ∀ (s t : State), s.find? i = some t → t ∈ s.nodes ∧ t.id = i
  | ⟨id, _, _, children, _, _, _, regions, _⟩, t, h => by
    rw [find?] at h
    rw [nodes, List.mem_cons, List.mem_append]
    split at h
    · cases h
      exact ⟨.inl rfl, ‹_›⟩
    · rw [Option.or_eq_some_iff] at h
      rcases h with h | ⟨-, h⟩
      · have hmem := mem_nodesChildren_of_find? children t h
        exact ⟨.inr (.inl hmem.1), hmem.2⟩
      · have hmem := mem_nodesScopes_of_find? regions t h
        exact ⟨.inr (.inr hmem.1), hmem.2⟩

theorem mem_nodesChildren_of_find? : ∀ (c : Option (List State)) (t : State),
    findChildren? i c = some t → t ∈ nodesChildren c ∧ t.id = i
  | none, _, h => by cases h
  | some ss, t, h => mem_nodesList_of_find? ss t h

theorem mem_nodesList_of_find? : ∀ (ss : List State) (t : State),
    findList? i ss = some t → t ∈ nodesList ss ∧ t.id = i
  | [], _, h => by cases h
  | s :: ss, t, h => by
    rw [findList?, Option.or_eq_some_iff] at h
    rw [nodesList, List.mem_append]
    rcases h with h | ⟨-, h⟩
    · exact (mem_nodes_of_find? s t h).imp_left .inl
    · exact (mem_nodesList_of_find? ss t h).imp_left .inr

theorem mem_nodesScopes_of_find? : ∀ (rs : List (Scope State)) (t : State),
    findScopes? i rs = some t → t ∈ nodesScopes rs ∧ t.id = i
  | [], _, h => by cases h
  | ⟨states, _, _⟩ :: rs, t, h => by
    rw [findScopes?, Option.or_eq_some_iff] at h
    rw [nodesScopes, List.mem_append]
    rcases h with h | ⟨-, h⟩
    · exact (mem_nodesList_of_find? states t h).imp_left .inl
    · exact (mem_nodesScopes_of_find? rs t h).imp_left .inr

end

/-- Where no id is there twice, the state `s` with an id is the one that is found, at any depth. -/
theorem findList?_of_mem_nodesList {ss : List State} (hnodup : (idsList ss).Nodup) {s : State}
    (h : s ∈ nodesList ss) : findList? s.id ss = some s := by
  obtain ⟨t, ht⟩ := Option.isSome_iff_exists.1 ((isSome_findList? s.id ss).2 (id_mem_idsList h))
  obtain ⟨hmem, hid⟩ := mem_nodesList_of_find? ss t ht
  rw [← map_id_nodesList] at hnodup
  rw [ht, List.inj_on_of_nodup_map hnodup hmem h hid]

/-! ### A property of all states -/

theorem isSome_modifyChildren (c : Option (List State)) :
    (modifyChildren i f c).isSome = c.isSome := by
  cases c <;> rfl

theorem map_bare_modifyScopes (rs : List (Scope State)) :
    (modifyScopes i f rs).map Scope.bare = rs.map Scope.bare := by
  induction rs with
  | nil => rfl
  | cons r rs ih => rw [modifyScopes, List.map_cons, List.map_cons, ih]; rfl

section Forall

variable {P Q : State → Prop}
  (hkeep : ∀ s c r, s.id ≠ i → c.isSome = s.children.isSome →
    r.map Scope.bare = s.regions.map Scope.bare → P s → Q { s with children := c, regions := r })
  (hf : ∀ t, t.id = i → t.ids.Nodup → (∀ u ∈ t.nodes, P u) → ∀ u ∈ (f t).nodes, Q u)

include hkeep hf

mutual

/-- What holds of every state of a tree `s` holds after a change, if the change makes it so where it
is made and the states in the scopes of the others do not matter. -/
theorem forall_nodes_modify : ∀ s : State, s.ids.Nodup → (∀ u ∈ s.nodes, P u) →
    ∀ u ∈ (s.modify i f).nodes, Q u
  | ⟨id, label, kind, children, transitions, notes, direction, regions, position⟩, hnodup, h => by
    rw [modify]
    split
    · exact hf _ ‹_› hnodup h
    · rw [ids, List.nodup_cons] at hnodup
      obtain ⟨hchildren, hregions, -⟩ := List.nodup_append.1 hnodup.2
      obtain ⟨hs, hbelow⟩ := List.forall_mem_cons.1 h
      obtain ⟨hc, hr⟩ := List.forall_mem_append.1 hbelow
      refine List.forall_mem_cons.2 ⟨?_, List.forall_mem_append.2
        ⟨forall_nodesChildren_modify children hchildren hc,
          forall_nodesScopes_modify regions hregions hr⟩⟩
      exact hkeep _ _ _ ‹_› (isSome_modifyChildren children) (map_bare_modifyScopes regions) hs

theorem forall_nodesChildren_modify : ∀ c : Option (List State), (idsChildren c).Nodup →
    (∀ u ∈ nodesChildren c, P u) → ∀ u ∈ nodesChildren (modifyChildren i f c), Q u
  | none, _, _ => List.forall_mem_nil _
  | some ss, hnodup, h => forall_nodesList_modify ss hnodup h

theorem forall_nodesList_modify : ∀ ss : List State, (idsList ss).Nodup →
    (∀ u ∈ nodesList ss, P u) → ∀ u ∈ nodesList (modifyList i f ss), Q u
  | [], _, _ => List.forall_mem_nil _
  | s :: ss, hnodup, h => by
    obtain ⟨hs, hss, -⟩ := List.nodup_append.1 hnodup
    obtain ⟨h, h'⟩ := List.forall_mem_append.1 h
    exact List.forall_mem_append.2
      ⟨forall_nodes_modify s hs h, forall_nodesList_modify ss hss h'⟩

theorem forall_nodesScopes_modify : ∀ rs : List (Scope State), (idsScopes rs).Nodup →
    (∀ u ∈ nodesScopes rs, P u) → ∀ u ∈ nodesScopes (modifyScopes i f rs), Q u
  | [], _, _ => List.forall_mem_nil _
  | ⟨states, _, _⟩ :: rs, hnodup, h => by
    obtain ⟨hs, hrs, -⟩ := List.nodup_append.1 hnodup
    obtain ⟨h, h'⟩ := List.forall_mem_append.1 h
    exact List.forall_mem_append.2
      ⟨forall_nodesList_modify states hs h, forall_nodesScopes_modify rs hrs h'⟩

end

end Forall

/-! ### New ids -/

section New

variable {P : State → Prop} (hf : ∀ t, t.id = i → P t → j ∈ (f t).ids)

include hf

mutual

/-- An id `j` that a change puts into a state is there if the state is, since the change is made
where the state is. -/
theorem mem_ids_modify_self : ∀ s : State, (∀ u ∈ s.nodes, P u) → i ∈ s.ids →
    j ∈ (s.modify i f).ids
  | ⟨id, label, kind, children, transitions, notes, direction, regions, position⟩, h, hmem => by
    obtain ⟨hs, hbelow⟩ := List.forall_mem_cons.1 h
    obtain ⟨hc, hr⟩ := List.forall_mem_append.1 hbelow
    rw [modify]
    split
    · exact hf _ ‹_› hs
    · rw [ids, List.mem_cons, List.mem_append] at hmem ⊢
      rcases hmem with hmem | hmem | hmem
      · exact absurd hmem.symm ‹_›
      · exact .inr (.inl (mem_idsChildren_modify_self children hc hmem))
      · exact .inr (.inr (mem_idsScopes_modify_self regions hr hmem))

theorem mem_idsChildren_modify_self : ∀ c : Option (List State), (∀ u ∈ nodesChildren c, P u) →
    i ∈ idsChildren c → j ∈ idsChildren (modifyChildren i f c)
  | none, _, hmem => by cases hmem
  | some ss, h, hmem => mem_idsList_modify_self ss h hmem

theorem mem_idsList_modify_self : ∀ ss : List State, (∀ u ∈ nodesList ss, P u) →
    i ∈ idsList ss → j ∈ idsList (modifyList i f ss)
  | [], _, hmem => by cases hmem
  | s :: ss, h, hmem => by
    obtain ⟨h, h'⟩ := List.forall_mem_append.1 h
    rw [modifyList]
    rw [idsList, List.mem_append] at hmem ⊢
    exact hmem.imp (mem_ids_modify_self s h) (mem_idsList_modify_self ss h')

theorem mem_idsScopes_modify_self : ∀ rs : List (Scope State), (∀ u ∈ nodesScopes rs, P u) →
    i ∈ idsScopes rs → j ∈ idsScopes (modifyScopes i f rs)
  | [], _, hmem => by cases hmem
  | ⟨states, _, _⟩ :: rs, h, hmem => by
    obtain ⟨h, h'⟩ := List.forall_mem_append.1 h
    rw [modifyScopes]
    rw [idsScopes, List.mem_append] at hmem ⊢
    exact hmem.imp (mem_idsList_modify_self states h) (mem_idsScopes_modify_self rs h')

end

end New

/-! ### No id twice -/

section Nodup

variable {xs : List String}

/-- Two parts without common elements stay so if one of them gets new elements `xs`. Here they are
the children and the regions of a state. -/
theorem nodup_append_of_new {a b a' b' : List String} (h : (a ++ b).Nodup)
    (hxs : ∀ x ∈ xs, x ∉ a ++ b) (ha' : a'.Nodup) (hb' : b'.Nodup)
    (hmem : ∀ k ∈ a', k ∈ a ∨ k ∈ xs) (hmem' : ∀ k ∈ b', k ∈ b ∨ k ∈ xs)
    (hone : a' = a ∨ b' = b) : (a' ++ b').Nodup := by
  obtain ⟨-, -, hdisjoint⟩ := List.nodup_append.1 h
  refine List.nodup_append.2 ⟨ha', hb', ?_⟩
  rintro k hk _ hk' rfl
  rcases hone with rfl | rfl
  · rcases hmem' k hk' with hb | hx
    · exact hdisjoint k hk k hb rfl
    · exact hxs k hx (List.mem_append_left _ hk)
  · rcases hmem k hk with ha | hx
    · exact hdisjoint k ha k hk' rfl
    · exact hxs k hx (List.mem_append_right _ hk')

variable (hf : ∀ t, t.id = i → t.ids.Nodup → (∀ x ∈ xs, x ∉ t.ids) → (f t).ids.Nodup)
  (hnew : ∀ t, ∀ k ∈ (f t).ids, k ∈ t.ids ∨ k ∈ xs)

include hf hnew

mutual

/-- Where a change puts no id that is there already, no id is there twice behind it. Only one part
of a state changes, for its id is in one of them. -/
theorem nodup_ids_modify : ∀ s : State, s.ids.Nodup → (∀ x ∈ xs, x ∉ s.ids) →
    (s.modify i f).ids.Nodup
  | ⟨id, label, kind, children, transitions, notes, direction, regions, position⟩, h, hxs => by
    rw [modify]
    split
    · exact hf _ ‹_› h hxs
    · rw [ids, List.nodup_cons] at h
      rw [ids] at hxs
      have hxs' : ∀ x ∈ xs, x ∉ idsChildren children ++ idsScopes regions := fun x hx hmem =>
        hxs x hx (List.mem_cons_of_mem _ hmem)
      obtain ⟨hc, hr, hdisjoint⟩ := List.nodup_append.1 h.2
      have hc' := nodup_idsChildren_modify children hc fun x hx hmem =>
        hxs' x hx (List.mem_append_left _ hmem)
      have hr' := nodup_idsScopes_modify regions hr fun x hx hmem =>
        hxs' x hx (List.mem_append_right _ hmem)
      have hmemc := mem_idsChildren_of_modify hnew children (i := i)
      have hmemr := mem_idsScopes_of_modify hnew regions (i := i)
      -- The changed state is in one of the two parts only, and the other stays as it was.
      have hone : idsChildren (modifyChildren i f children) = idsChildren children ∨
          idsScopes (modifyScopes i f regions) = idsScopes regions := by
        by_cases hi : i ∈ idsChildren children
        · refine .inr (congrArg idsScopes (modifyScopes_of_not_mem regions fun hi' => ?_))
          exact hdisjoint i hi i hi' rfl
        · exact .inl (congrArg idsChildren (modifyChildren_of_not_mem children hi))
      -- The id of the state itself is neither one that was there nor a new one.
      refine List.nodup_cons.2 ⟨fun hid => ?_,
        nodup_append_of_new h.2 hxs' hc' hr' hmemc hmemr hone⟩
      rcases List.mem_append.1 hid with hid | hid
      · rcases hmemc id hid with hid | hid
        · exact h.1 (List.mem_append_left _ hid)
        · exact hxs id hid List.mem_cons_self
      · rcases hmemr id hid with hid | hid
        · exact h.1 (List.mem_append_right _ hid)
        · exact hxs id hid List.mem_cons_self

theorem nodup_idsChildren_modify : ∀ c : Option (List State), (idsChildren c).Nodup →
    (∀ x ∈ xs, x ∉ idsChildren c) → (idsChildren (modifyChildren i f c)).Nodup
  | none, h, _ => h
  | some ss, h, hxs => nodup_idsList_modify ss h hxs

theorem nodup_idsList_modify : ∀ ss : List State, (idsList ss).Nodup →
    (∀ x ∈ xs, x ∉ idsList ss) → (idsList (modifyList i f ss)).Nodup
  | [], h, _ => h
  | s :: ss, h, hxs => by
    rw [idsList] at h hxs
    obtain ⟨hs, hss, hdisjoint⟩ := List.nodup_append.1 h
    refine nodup_append_of_new h hxs
      (nodup_ids_modify s hs fun x hx hmem => hxs x hx (List.mem_append_left _ hmem))
      (nodup_idsList_modify ss hss fun x hx hmem => hxs x hx (List.mem_append_right _ hmem))
      (mem_ids_of_modify hnew s) (mem_idsList_of_modify hnew ss) ?_
    by_cases hi : i ∈ s.ids
    · exact .inr (congrArg idsList (modifyList_of_not_mem ss fun hi' => hdisjoint i hi i hi' rfl))
    · exact .inl (congrArg ids (modify_of_not_mem s hi))

theorem nodup_idsScopes_modify : ∀ rs : List (Scope State), (idsScopes rs).Nodup →
    (∀ x ∈ xs, x ∉ idsScopes rs) → (idsScopes (modifyScopes i f rs)).Nodup
  | [], h, _ => h
  | ⟨states, _, _⟩ :: rs, h, hxs => by
    rw [idsScopes] at h hxs
    obtain ⟨hs, hrs, hdisjoint⟩ := List.nodup_append.1 h
    refine nodup_append_of_new h hxs
      (nodup_idsList_modify states hs fun x hx hmem => hxs x hx (List.mem_append_left _ hmem))
      (nodup_idsScopes_modify rs hrs fun x hx hmem => hxs x hx (List.mem_append_right _ hmem))
      (mem_idsList_of_modify hnew states) (mem_idsScopes_of_modify hnew rs) ?_
    by_cases hi : i ∈ idsList states
    · exact .inr (congrArg idsScopes (modifyScopes_of_not_mem rs fun hi' =>
        hdisjoint i hi i hi' rfl))
    · exact .inl (congrArg idsList (modifyList_of_not_mem states hi))

end

end Nodup

end State
end DiagramText.States
