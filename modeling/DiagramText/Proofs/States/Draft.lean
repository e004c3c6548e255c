import DiagramText.Proofs.States.Tree

/-!
# Drafts of state diagrams

What is read goes into the innermost open scope. A state that is new there stays apart from all
others, so what is read for it, its regions included, changes this state only.

* `States.Draft.add`: the draft with more in its innermost open scope.
* `States.Draft.inside`: the draft with a new state of which a region is open. The lemmas about it
  say that reading goes on in the new state.
* `States.Draft.Ready`: what is added to the innermost open scope is there.
-/

namespace DiagramText.States

/-- A scope `x` with the parts of the scope `y` behind its own, each kind of part by itself. -/
def Scope.append (x y : Scope State) : Scope State :=
  ⟨x.states ++ y.states, x.transitions ++ y.transitions, x.notes ++ y.notes⟩

namespace Scope

theorem append_empty (x : Scope State) : x.append {} = x := by simp [append]

theorem empty_append (x : Scope State) : append {} x = x := by simp [append]

theorem append_assoc (x y z : Scope State) : (x.append y).append z = x.append (y.append z) := by
  simp [append]

end Scope

namespace State

/-! ### Regions of a state -/

variable {i : String} {f : State → State}

theorem id_modifyRegion (region : Nat) (g : Scope State → Scope State) (s : State) :
    (s.modifyRegion region g).id = s.id := by
  cases region <;> rfl

theorem modifyRegion_modifyRegion (region : Nat) (g h : Scope State → Scope State) (s : State) :
    (s.modifyRegion region g).modifyRegion region h = s.modifyRegion region fun x => h (g x) := by
  cases region with
  | zero => rfl
  | succ n =>
    simp only [modifyRegion, List.modify_modify_eq]
    rfl

/-- The last region is changed at its place, which is the number of the regions before it. -/
theorem modify_length_append (rs : List (Scope State)) (r : Scope State)
    (g : Scope State → Scope State) : (rs ++ [r]).modify rs.length g = rs ++ [g r] := by
  induction rs with
  | nil => rfl
  | cons q rs ih => rw [List.cons_append, List.length_cons, List.modify_succ_cons, ih]; rfl

/-- A state `s` that is new in a region is changed there and nowhere else, since no other state has
its id. -/
theorem modifyScopes_append_singleton {s : State} {rs : List (Scope State)}
    (h : s.id ∉ idsScopes rs) (n : Nat) (y : Scope State) :
    modifyScopes s.id f (rs.modify n fun x => x.append { y with states := [s] }) =
      rs.modify n fun x => x.append { y with states := [f s] } := by
  induction rs generalizing n with
  | nil => simp [modifyScopes]
  | cons r rs ih =>
    obtain ⟨states, transitions, notes⟩ := r
    rw [idsScopes, List.mem_append, not_or] at h
    cases n with
    | zero =>
      simp only [List.modify_zero_cons, modifyScopes, Scope.append, modifyList_append,
        modifyList_of_not_mem states h.1, modifyScopes_of_not_mem rs h.2, modifyList, modify_id]
    | succ n =>
      simp only [List.modify_succ_cons, modifyScopes, modifyList_of_not_mem states h.1, ih h.2 n]

/-- A state `s` that is new in a region of `t` is changed there, in the children or in a further
region. -/
theorem modify_modifyRegion {s t : State} (h : s.id ∉ t.ids) (region : Nat) :
    (t.modifyRegion region fun x => x.append { states := [s] }).modify s.id f =
      t.modifyRegion region fun x => x.append { states := [f s] } := by
  obtain ⟨id, label, kind, children, transitions, notes, direction, regions, position⟩ := t
  rw [ids, List.mem_cons, List.mem_append, not_or, not_or] at h
  cases region with
  | zero =>
    have hchildren : modifyList s.id f (children.getD [] ++ [s]) = children.getD [] ++ [f s] := by
      have hnot : s.id ∉ idsList (children.getD []) := by
        cases children with
        | none => exact List.not_mem_nil
        | some ss => exact h.2.1
      rw [modifyList_append, modifyList_of_not_mem _ hnot, modifyList, modifyList, modify_id]
    simp only [modifyRegion, ownScope, Scope.append, List.append_nil, modify, modifyChildren,
      if_neg (Ne.symm h.1), hchildren, modifyScopes_of_not_mem regions h.2.2]
  | succ n =>
    have hregions := modifyScopes_append_singleton (f := f) h.2.2 n {}
    simp only [modifyRegion, modify, if_neg (Ne.symm h.1), modifyChildren_of_not_mem children h.2.1,
      hregions]

/-- A new state `s` is found in the region of `t` where it was put, and nothing else is. -/
theorem eq_of_find?_modifyRegion {s t u : State} (h : s.id ∉ t.ids) (region : Nat)
    (hu : (t.modifyRegion region fun x => x.append { states := [s] }).find? s.id = some u) :
    u = s := by
  obtain ⟨id, label, kind, children, transitions, notes, direction, regions, position⟩ := t
  rw [ids, List.mem_cons, List.mem_append, not_or, not_or] at h
  -- A new state in a list is the only one there that is found under its id.
  have hlist : ∀ ss : List State, s.id ∉ idsList ss →
      ∀ u, findList? s.id (ss ++ [s]) = some u → u = s := by
    intro ss hss u hu
    rw [findList?_append, findList?_eq_none hss, Option.none_or, findList?, find?_id] at hu
    cases hu
    rfl
  cases region with
  | zero =>
    have hnot : s.id ∉ idsList (children.getD []) := by
      cases children with
      | none => exact List.not_mem_nil
      | some ss => exact h.2.1
    simp only [modifyRegion, ownScope, Scope.append, find?, if_neg (Ne.symm h.1), findChildren?,
      findScopes?_eq_none h.2.2, Option.or_none] at hu
    exact hlist _ hnot u hu
  | succ n =>
    have hchildren : findChildren? s.id children = none := by
      cases children with
      | none => rfl
      | some ss => exact findList?_eq_none h.2.1
    simp only [modifyRegion, find?, if_neg (Ne.symm h.1), hchildren, Option.none_or] at hu
    replace h := h.2.2
    clear hchildren
    -- The region is found by its number, so the induction is on the regions.
    induction regions generalizing n with
    | nil => simp [findScopes?] at hu
    | cons r rs ih =>
      obtain ⟨states, transitions, notes⟩ := r
      rw [idsScopes, List.mem_append, not_or] at h
      cases n with
      | zero =>
        simp only [List.modify_zero_cons, Scope.append, findScopes?, findScopes?_eq_none h.2,
          Option.or_none] at hu
        exact hlist _ h.1 u hu
      | succ n =>
        simp only [List.modify_succ_cons, findScopes?, findList?_eq_none h.1, Option.none_or] at hu
        exact ih n hu h.2

/-! ### The ids in regions -/

theorem mem_idsScopes_modify_append {y : Scope State} {j : String} (rs : List (Scope State))
    (n : Nat) : (j ∈ idsScopes (rs.modify n fun x => x.append y) ↔
      j ∈ idsScopes rs ∨ n < rs.length ∧ j ∈ idsList y.states) := by
  induction rs generalizing n with
  | nil => simp [idsScopes]
  | cons r rs ih =>
    obtain ⟨states, transitions, notes⟩ := r
    cases n with
    | zero => simp [idsScopes, Scope.append, idsList_append, or_comm, or_left_comm]
    | succ n => simp [idsScopes, ih n, or_assoc]

/-- More in a region of a state is more in the state, if it has the region. The children are region
`0`. -/
theorem mem_ids_modifyRegion {y : Scope State} {j : String} (s : State) (region : Nat) :
    j ∈ (s.modifyRegion region fun x => x.append y).ids ↔
      j ∈ s.ids ∨ region ≤ s.regions.length ∧ j ∈ idsList y.states := by
  obtain ⟨id, label, kind, children, transitions, notes, direction, regions, position⟩ := s
  cases region with
  | zero =>
    cases children with
    | none => simp [modifyRegion, ownScope, Scope.append, ids, idsChildren, or_comm, or_left_comm]
    | some ss =>
      simp [modifyRegion, ownScope, Scope.append, ids, idsChildren, idsList_append, or_comm,
        or_left_comm]
  | succ n =>
    simp only [modifyRegion, ids, List.mem_cons, List.mem_append, mem_idsScopes_modify_append,
      or_assoc]
    rfl

end State

namespace Draft

open State

variable {d : Draft} {s : State} {y z : Scope State} {i : String} {region : Nat}

/-! ### The innermost open scope -/

/-- The ids of all states of `d`, in whatever scopes they are. -/
def ids (d : Draft) : List String := idsList d.scope.states

/-- The draft `d` with more in its innermost open scope. -/
def add (d : Draft) (y : Scope State) : Draft := d.modifyScope (·.append y)

/-- The draft `d` with a new state `s`, of which a region is open. -/
def inside (d : Draft) (s : State) (region : Nat) : Draft :=
  { d.add { states := [s] } with opened := ⟨s.id, region⟩ :: d.opened }

/-- What is added to the innermost open scope of `d` is there, and adding nothing changes nothing. A
missing owner breaks the first, and an owner that is not composite the second. -/
structure Ready (d : Draft) : Prop where
  mem (y : Scope State) : ∀ i ∈ idsList y.states, i ∈ (d.add y).ids
  add_empty : d.add {} = d

theorem isSome_state?_iff : (d.state? i).isSome = true ↔ i ∈ d.ids :=
  isSome_findList? i d.scope.states

theorem opened_add (d : Draft) (y : Scope State) : (d.add y).opened = d.opened := by
  obtain ⟨version, direction, scope, opened⟩ := d
  cases opened <;> rfl

theorem add_add (d : Draft) (y z : Scope State) : (d.add y).add z = d.add (y.append z) := by
  obtain ⟨version, direction, scope, opened⟩ := d
  cases opened with
  | nil => simp only [add, modifyScope, Scope.append_assoc]
  | cons o opened =>
    simp only [add, modifyScope, modify]
    rw [modifyList_modifyList fun t => id_modifyRegion _ _ t]
    simp only [modifyRegion_modifyRegion, Scope.append_assoc]

/-- What was there stays there: `add` takes no state away. -/
theorem mem_ids_add (h : i ∈ d.ids) (y : Scope State) : i ∈ (d.add y).ids := by
  obtain ⟨version, direction, scope, opened⟩ := d
  cases opened with
  | nil =>
    rw [ids] at h
    simp [add, modifyScope, ids, Scope.append, idsList_append, h]
  | cons o opened =>
    exact mem_idsList_modify (fun t j hj => (mem_ids_modifyRegion t _).2 (.inl hj)) _ i h

/-- What is there was there before, or was added. This holds of every draft `d`, ready or not. -/
theorem mem_ids_of_add (h : i ∈ (d.add y).ids) : i ∈ d.ids ∨ i ∈ idsList y.states := by
  obtain ⟨version, direction, scope, opened⟩ := d
  cases opened with
  | nil => simpa [add, modifyScope, ids, Scope.append, idsList_append] using h
  | cons o opened =>
    refine mem_idsList_of_modify (fun t j hj => ?_) _ i h
    exact ((mem_ids_modifyRegion t _).1 hj).imp_right And.right

/-- A new state `s` in the innermost open scope is changed there, which is the same as to add it
changed. -/
theorem modify_add (h : s.id ∉ d.ids) (f : State → State) :
    (d.add { states := [s] }).modify s.id f = d.add { states := [f s] } := by
  obtain ⟨version, direction, scope, opened⟩ := d
  cases opened with
  | nil =>
    have hnot : s.id ∉ idsList scope.states := h
    simp only [add, modifyScope, modify, Scope.append, modifyList_append,
      modifyList_of_not_mem _ hnot, modifyList, modify_id]
  | cons o opened =>
    simp only [add, modifyScope, modify]
    rw [modifyList_modifyList_of_not_mem (fun t _ ht => modify_modifyRegion ht o.region) _ h]

/-- A new state `s` in the innermost open scope is found there, if the draft `d` is ready for it. -/
theorem state?_add (hd : d.Ready) (h : s.id ∉ d.ids) :
    (d.add { states := [s] }).state? s.id = some s := by
  have hmem : s.id ∈ (d.add { states := [s] }).ids :=
    hd.mem { states := [s] } s.id (by rw [idsList_singleton]; exact id_mem_ids s)
  obtain ⟨t, ht⟩ := Option.isSome_iff_exists.1 (isSome_state?_iff.2 hmem)
  rw [ht]
  obtain ⟨version, direction, scope, opened⟩ := d
  cases opened with
  | nil =>
    have hnot : s.id ∉ idsList scope.states := h
    simp only [state?, add, modifyScope, Scope.append, findList?_append, findList?_eq_none hnot,
      Option.none_or, findList?, find?_id, Option.or_none] at ht
    exact ht.symm
  | cons o opened =>
    exact congrArg some
      (eq_of_findList?_modify (fun u _ hu t ht => eq_of_find?_modifyRegion hu o.region ht) _ h t ht)

/-! ### Inside a new state -/

theorem modifyScope_inside (h : s.id ∉ d.ids) (region : Nat) (y : Scope State) :
    (d.inside s region).add y = d.inside (s.modifyRegion region (·.append y)) region := by
  have hmodify := modify_add h (State.modifyRegion region (·.append y))
  have hid := id_modifyRegion region (·.append y) s
  rw [inside, inside, hid, ← hmodify]
  rfl

theorem closeScope_inside (d : Draft) (s : State) (region : Nat) :
    (d.inside s region).closeScope = d.add { states := [s] } := by
  rw [closeScope, inside, List.tail_cons, ← opened_add]

theorem openScope_add (h : s.id ∉ d.ids) : (d.add { states := [s] }).openScope s.id =
    d.inside { s with children := some (s.children.getD []) } 0 := by
  have hmodify := modify_add h fun s => { s with children := some (s.children.getD []) }
  rw [openScope, hmodify, opened_add]
  rfl

theorem setDirection_inside (h : s.id ∉ d.ids) (region : Nat) (x : Direction) :
    (d.inside s region).setDirection x = d.inside { s with direction := some x } region := by
  have hmodify := modify_add h fun s => { s with direction := some x }
  rw [inside, inside, ← hmodify]
  rfl

theorem nextRegion_inside (hd : d.Ready) (h : s.id ∉ d.ids) (region : Nat) :
    (d.inside s region).nextRegion =
      d.inside { s with regions := s.regions ++ [{}] } (s.regions.length + 1) := by
  have hstate : (d.inside s region).state? s.id = some s := state?_add hd h
  have hmodify := modify_add h fun s => { s with regions := s.regions ++ [{}] }
  have hopened : (d.inside s region).opened = ⟨s.id, region⟩ :: d.opened := rfl
  rw [nextRegion, hopened]
  dsimp only
  rw [hstate, inside, inside, ← hmodify]
  rfl

/-- Nothing else is inside than the new state `s`, so what is new in it is new everywhere. -/
theorem mem_ids_of_inside (h : i ∈ (d.inside s region).ids) : i ∈ d.ids ∨ i ∈ s.ids := by
  have hadd : i ∈ (d.add { states := [s] }).ids := h
  rw [← idsList_singleton s]
  exact mem_ids_of_add hadd

namespace Ready

theorem of_opened (h : d.opened = []) : d.Ready := by
  obtain ⟨version, direction, scope, opened⟩ := d
  cases h
  refine ⟨fun y i hi => ?_, by simp [Draft.add, modifyScope, Scope.append_empty]⟩
  simp [Draft.add, modifyScope, ids, Scope.append, idsList_append, hi]

theorem add (hd : d.Ready) (y : Scope State) : (d.add y).Ready := by
  refine ⟨fun z i hi => ?_, by rw [add_add, Scope.append_empty]⟩
  rw [add_add]
  refine hd.mem (y.append z) i ?_
  rw [Scope.append, idsList_append]
  exact List.mem_append_right _ hi

theorem mem_add (hd : d.Ready) (h : i ∈ d.ids ∨ i ∈ idsList y.states) : i ∈ (d.add y).ids :=
  h.elim (fun h => mem_ids_add h y) (hd.mem y i)

/-- A state `s` with a scope of its own can be read on inside each of its regions, the one behind
the last included. -/
theorem inside (hd : d.Ready) (h : s.id ∉ d.ids) (hs : s.children.isSome = true)
    (hregion : region ≤ s.regions.length) : (d.inside s region).Ready := by
  refine ⟨fun y i hi => ?_, ?_⟩
  · rw [modifyScope_inside h]
    refine hd.mem { states := [s.modifyRegion region (·.append y)] } i ?_
    rw [idsList_singleton]
    exact (mem_ids_modifyRegion s region).2 (.inr ⟨hregion, hi⟩)
  · rw [modifyScope_inside h]
    obtain ⟨id, label, kind, children, transitions, notes, direction, regions, position⟩ := s
    obtain ⟨ss, rfl⟩ := Option.isSome_iff_exists.1 hs
    cases region with
    | zero => simp [modifyRegion, ownScope, Scope.append]
    | succ n =>
      have hsame : regions.modify n (·.append {}) = regions := by
        simp only [Scope.append_empty]
        exact List.modify_id n regions
      simp only [modifyRegion, hsame]

theorem mem_inside (hd : d.Ready) (h : i ∈ d.ids ∨ i ∈ s.ids) : i ∈ (d.inside s region).ids := by
  rw [← idsList_singleton s] at h
  exact hd.mem_add (y := { states := [s] }) h

end Ready

end Draft
end DiagramText.States
