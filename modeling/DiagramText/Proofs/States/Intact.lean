import DiagramText.Proofs.States.Sound

/-!
# What every change of a state diagram keeps

Whatever the text of labels and notes is, a draft stays in order: no id is there twice, no state has
the id of a pseudostate, all transitions and notes are about states that are there, and a state has
transitions, notes and regions only if it is composite. The open scopes are what makes this last:
each belongs to a composite state that has the region, so that nothing read in it gets lost.

* `States.State.Intact` and `States.Draft.Intact`: what is kept, of a state and of a draft.
* `States.Draft.Intact.change` and `States.Draft.Intact.add`: the two ways in which a draft changes.
  Each step that reading takes has a lemma that follows from one of them.
-/

namespace DiagramText.States

theorem Scope.Within.of_empty {known : List String} {y : Scope State}
    (htransitions : y.transitions = []) (hnotes : y.notes = []) : y.Within known := by
  constructor
  · rw [htransitions]
    exact List.forall_mem_nil _
  · rw [htransitions]
    exact List.forall_mem_nil _
  · rw [hnotes]
    exact List.forall_mem_nil _

namespace State

variable {s t : State} {known known' : List String} {opened opened' : List OpenScope}
  {i : String} {f : State → State}

/-! ### Intact states -/

/-- A state `s` that owns transitions, notes and regions only if it is composite. Its scopes are
about known states, and the regions of it that are open are there. -/
structure Intact (known : List String) (opened : List OpenScope) (s : State) : Prop where
  simple : s.children = none → s.transitions = [] ∧ s.notes = [] ∧ s.regions = []
  within : ∀ y ∈ s.scopes, y.Within known
  opened : ∀ o ∈ opened, o.owner = s.id → s.children.isSome = true ∧ o.region ≤ s.regions.length

namespace Intact

theorem imp (h : s.Intact known opened) (hknown : ∀ j ∈ known, j ∈ known')
    (hopened : ∀ o ∈ opened', o.owner = s.id → o ∈ opened) : s.Intact known' opened' where
  simple := h.simple
  within y hy := (h.within y hy).imp hknown
  opened o ho hid := h.opened o (hopened o ho hid) hid

/-- The states in the scopes of a state `s` do not matter to whether it is intact, only that it has
the scopes. -/
theorem congr (h : s.Intact known opened) {c : Option (List State)} {r : List (Scope State)}
    (hc : c.isSome = s.children.isSome) (hr : r.map Scope.bare = s.regions.map Scope.bare) :
    Intact known opened { s with children := c, regions := r } := by
  have hlength : r.length = s.regions.length := by simpa using congrArg List.length hr
  have hscopes : (scopes { s with children := c, regions := r }).map Scope.bare =
      s.scopes.map Scope.bare := by
    unfold scopes
    rw [List.map_cons, List.map_cons, hr]
    rfl
  constructor
  · intro hnone
    have hchildren : s.children = none := by
      rw [← Option.isNone_iff_eq_none, ← Option.not_isSome, ← hc]
      simpa using hnone
    obtain ⟨htransitions, hnotes, hregions⟩ := h.simple hchildren
    rw [hregions] at hlength
    exact ⟨htransitions, hnotes, List.length_eq_zero_iff.1 hlength⟩
  · exact Scope.forall_of_map_bare (fun _ _ hbare hy => hy.of_bare hbare) hscopes h.within
  · intro o ho hid
    show c.isSome = true ∧ o.region ≤ r.length
    rw [hc, hlength]
    exact h.opened o ho hid

theorem lasting : Lasting Intact := ⟨imp, fun h hc hr => h.congr hc hr⟩

/-- A state `s` of which only the id and the position are known is intact, if no open scope is said
to be its own. -/
theorem bare (h : ∀ o ∈ opened, o.owner ≠ s.id)
    (hscopes : s.transitions = [] ∧ s.notes = [] ∧ s.regions = []) : s.Intact known opened where
  simple := fun _ => hscopes
  within := by
    unfold scopes
    rw [hscopes.2.2]
    exact List.forall_mem_singleton.2 (.of_empty hscopes.1 hscopes.2.1)
  opened o ho hid := absurd hid (h o ho)

/-- Reading on in a region keeps a state `s` intact. To add to the children makes it composite, if
it was not. -/
theorem modifyRegion (h : s.Intact known opened) {y : Scope State} (hy : y.Within known)
    (region : Nat) : (s.modifyRegion region (·.append y)).Intact known opened := by
  have hwithin := forall_scopes_modifyRegion (fun z (hz : z.Within known) => hz.append hy) region
    h.within
  cases region with
  | zero =>
    constructor
    · nofun
    · exact hwithin
    · intro o ho hid
      exact ⟨rfl, (h.opened o ho hid).2⟩
  | succ n =>
    constructor
    · intro hnone
      obtain ⟨htransitions, hnotes, hregions⟩ := h.simple hnone
      refine ⟨htransitions, hnotes, ?_⟩
      show s.regions.modify n (·.append y) = []
      rw [hregions, List.modify_nil]
    · exact hwithin
    · intro o ho hid
      show s.children.isSome = true ∧ o.region ≤ (s.regions.modify n (·.append y)).length
      rw [List.length_modify]
      exact h.opened o ho hid

end Intact
end State

namespace Draft

open State

variable {d : Draft} {i : String} {f : State → State}

/-! ### Intact drafts -/

/-- A draft `d` of intact states with different ids, of which none is that of a pseudostate. The
open scopes are those of states that are there. -/
structure Intact (d : Draft) : Prop where
  nodup : d.ids.Nodup
  names : ∀ j ∈ d.ids, isPseudostate j = false
  states : ∀ s ∈ nodesList d.scope.states, s.Intact d.ids d.opened
  scope : d.scope.Within d.ids
  owners : ∀ o ∈ d.opened, o.owner ∈ d.ids

namespace Intact

theorem empty (version : Version) (direction : Option Direction) :
    Intact { version, direction } where
  nodup := List.nodup_nil
  names := List.forall_mem_nil _
  states := List.forall_mem_nil _
  scope := .of_empty rfl rfl
  owners := List.forall_mem_nil _

/-! ### The two ways to change a draft -/

/-- A state that is there can be changed by `f`, and scopes of it opened or closed. What the change
puts into its scopes has to be new. -/
theorem change (h : d.Intact) {new : List State} (hputs : Puts f new) {opened' : List OpenScope}
    (hopened : ∀ o ∈ opened', o.owner ≠ i → o ∈ d.opened) (howners : ∀ o ∈ opened', o.owner ∈ d.ids)
    (hf : ∀ t ∈ nodesList d.scope.states, t.id = i → t.Intact d.ids d.opened →
      (f t).Intact (d.modify i f).ids opened')
    (hnew : ∀ u ∈ new, u.Intact (d.modify i f).ids opened')
    (hnodup : (new.map State.id).Nodup) (hfresh : ∀ x ∈ new.map State.id, x ∉ d.ids)
    (hnames : ∀ x ∈ new.map State.id, isPseudostate x = false) :
    Intact { d.modify i f with opened := opened' } := by
  have hknown : ∀ j ∈ d.ids, j ∈ (d.modify i f).ids := fun j hj => mem_ids_modify hputs hj
  constructor
  · exact nodup_idsList_modify (fun t _ ht hfresh => hputs.nodup_ids ht hnodup hfresh)
      (fun t _ hj => hputs.mem_of_mem_ids hj) d.scope.states h.nodup hfresh
  · intro j hj
    rcases mem_idsList_of_modify (fun t _ ht => hputs.mem_of_mem_ids (t := t) ht)
      d.scope.states j hj with hj | hj
    · exact h.names j hj
    · exact hnames j hj
  · exact State.Intact.lasting.forall_modify hputs hknown hopened hf hnew h.nodup h.states
  · exact (h.scope.imp hknown).of_bare rfl
  · intro o ho
    exact hknown _ (howners o ho)

/-- A change `f` of a state that puts nothing into its scopes, such as a label or a position. -/
theorem change_of_eq (h : d.Intact) (hid : ∀ t, (f t).id = t.id)
    (hinner : ∀ t, (f t).inner = t.inner) {opened' : List OpenScope}
    (hopened : ∀ o ∈ opened', o.owner ≠ i → o ∈ d.opened) (howners : ∀ o ∈ opened', o.owner ∈ d.ids)
    (hf : ∀ t ∈ nodesList d.scope.states, t.id = i → t.Intact d.ids d.opened →
      (f t).Intact d.ids opened') : Intact { d.modify i f with opened := opened' } := by
  have hputs : Puts f [] := .of_eq hid hinner
  apply h.change hputs hopened howners
  · intro t ht hi hs
    exact (hf t ht hi hs).imp (fun j hj => mem_ids_modify hputs hj) fun _ ho _ => ho
  · exact List.forall_mem_nil _
  · exact List.nodup_nil
  · exact List.forall_mem_nil _
  · exact List.forall_mem_nil _

/-- What `y` adds to the innermost open scope is there, since the owner of the scope is. -/
theorem mem_add (h : d.Intact) {y : Scope State} (hi : i ∈ idsList y.states) : i ∈ (d.add y).ids :=
  mem_add_of_opened h.owners (fun t ht o ho hid => ((h.states t ht).opened o ho hid).2) hi

/-- The innermost open scope can get new states, and transitions and notes about known ones. This is
the one way in which a draft `d` grows. -/
theorem add (h : d.Intact) {y : Scope State} (hnodup : (idsList y.states).Nodup)
    (hfresh : ∀ j ∈ idsList y.states, j ∉ d.ids)
    (hnames : ∀ j ∈ idsList y.states, isPseudostate j = false)
    (hstates : ∀ s ∈ nodesList y.states, s.Intact (d.add y).ids d.opened)
    (hwithin : y.Within (d.add y).ids) : (d.add y).Intact := by
  have hknown : ∀ j ∈ d.ids, j ∈ (d.add y).ids := fun j hj => mem_ids_add hj y
  obtain ⟨version, direction, scope, opened⟩ := d
  cases opened with
  -- Without an open scope, the parts go to the outermost one.
  | nil =>
    constructor
    · show (idsList (scope.states ++ y.states)).Nodup
      rw [idsList_append]
      apply h.nodup.append hnodup
      intro j hj hj'
      exact hfresh j hj' hj
    · show ∀ j ∈ idsList (scope.states ++ y.states), _
      rw [idsList_append]
      exact List.forall_mem_append.2 ⟨h.names, hnames⟩
    · show ∀ s ∈ nodesList (scope.states ++ y.states), _
      rw [nodesList_append]
      refine List.forall_mem_append.2 ⟨?_, hstates⟩
      intro s hs
      exact (h.states s hs).imp hknown fun _ ho _ => ho
    · exact (h.scope.imp hknown).append hwithin
    · exact List.forall_mem_nil _
  -- With an open scope, its owner changes, and everything else stays.
  | cons o opened =>
    rw [← map_id_nodesList] at hnodup hfresh hnames
    apply h.change (puts_modifyRegion o.region y) (fun _ ho _ => ho) h.owners ?_ hstates hnodup
      hfresh hnames
    intro t _ _ ht
    exact (ht.imp hknown fun _ ho _ => ho).modifyRegion hwithin o.region

/-! ### Steps of reading -/

/-- A state can get another label, another kind and another direction, which `Decorates` allows. -/
theorem decorate (h : d.Intact) (hf : Decorates f) (i : String) : (d.modify i f).Intact := by
  apply h.change_of_eq (fun t => (hf.parts t).1) hf.inner (fun _ ho _ => ho) h.owners
  intro t _ _ ht
  obtain ⟨hid, hchildren, hregions, hscopes⟩ := hf.parts t
  have hown : (f t).transitions = t.transitions ∧ (f t).notes = t.notes := by
    rw [hf t]
    exact ⟨rfl, rfl⟩
  constructor
  · rw [hchildren, hregions, hown.1, hown.2]
    exact ht.simple
  · rw [hscopes]
    exact ht.within
  · rw [hid, hchildren, hregions]
    exact ht.opened

/-- The first region of a state `i` that is there can be opened, and the state is composite from
then on. -/
theorem openScope (h : d.Intact) (hi : i ∈ d.ids) : (d.openScope i).Intact := by
  apply h.change_of_eq (f := fun t => { t with children := some (t.children.getD []) })
  · exact fun _ => rfl
  · exact inner_children
  · intro o ho hne
    rcases List.mem_cons.1 ho with rfl | ho
    · exact absurd rfl hne
    · exact ho
  · exact List.forall_mem_cons.2 ⟨hi, h.owners⟩
  · intro t _ hid ht
    constructor
    · nofun
    · exact ht.within
    · intro o ho hown
      rcases List.mem_cons.1 ho with rfl | ho
      · exact ⟨rfl, Nat.zero_le _⟩
      · exact ⟨rfl, (ht.opened o ho hown).2⟩

theorem closeScope (h : d.Intact) : d.closeScope.Intact where
  nodup := h.nodup
  names := h.names
  states s hs := (h.states s hs).imp (fun _ hj => hj) fun _ ho _ => List.mem_of_mem_tail ho
  scope := h.scope
  owners o ho := h.owners o (List.mem_of_mem_tail ho)

/-- The next region of an open state is empty. The state is composite, so it may have regions. -/
theorem nextRegion (h : d.Intact) : d.nextRegion.Intact := by
  unfold Draft.nextRegion
  split
  · exact h
  next o outer hopened =>
  apply h.change_of_eq (f := fun t => { t with regions := t.regions ++ [{}] })
  · exact fun _ => rfl
  · exact inner_region
  · intro p hp hne
    rw [hopened]
    rcases List.mem_cons.1 hp with rfl | hp
    · exact absurd rfl hne
    · exact List.mem_cons_of_mem _ hp
  · have howners := h.owners
    rw [hopened] at howners
    exact List.forall_mem_cons.2 (List.forall_mem_cons.1 howners)
  · intro t ht hid hs
    -- the state with the id of the owner is the owner
    have hstate : d.state? o.owner = some t := by
      rw [← hid]
      exact findList?_of_mem_nodesList h.nodup ht
    have hcomposite : t.children.isSome = true :=
      (hs.opened o (by rw [hopened]; exact List.mem_cons_self) hid.symm).1
    obtain ⟨hown, hregions⟩ := List.forall_mem_cons.1 hs.within
    constructor
    · intro hnone
      rw [show t.children = none from hnone] at hcomposite
      cases hcomposite
    · exact List.forall_mem_cons.2 ⟨hown, List.forall_mem_append.2
        ⟨hregions, List.forall_mem_singleton.2 (.of_empty rfl rfl)⟩⟩
    · intro p hp hpid
      show t.children.isSome = true ∧ p.region ≤ (t.regions ++ [({} : Scope State)]).length
      rw [List.length_append, List.length_singleton]
      refine ⟨hcomposite, ?_⟩
      rcases List.mem_cons.1 hp with rfl | hp
      · simp [hstate]
      · have hregion := (hs.opened p (by rw [hopened]; exact List.mem_cons_of_mem _ hp) hpid).2
        omega

theorem setDirection (h : d.Intact) (x : Direction) : (d.setDirection x).Intact := by
  unfold Draft.setDirection
  split
  · exact ⟨h.nodup, h.names, h.states, h.scope, h.owners⟩
  · exact h.decorate (f := fun t => { t with direction := some x }) (fun _ => rfl) _

/-- The innermost open scope can get a state of which only the `id` and the position are known, if
the id is new. -/
theorem addState (h : d.Intact) {id : String} (hid : isPseudostate id = false) (hnew : id ∉ d.ids)
    (position : Option Position) : (d.add { states := [{ id, position }] }).Intact := by
  have hids : idsList [({ id, position } : State)] = [id] := rfl
  apply h.add
  · rw [hids]
    exact List.nodup_singleton id
  · rw [hids]
    exact List.forall_mem_singleton.2 hnew
  · rw [hids]
    exact List.forall_mem_singleton.2 hid
  · refine List.forall_mem_singleton.2 (State.Intact.bare (fun o ho howner => ?_) ⟨rfl, rfl, rfl⟩)
    -- no scope of a new state is open
    have howner : o.owner = id := howner
    exact hnew (howner ▸ h.owners o ho)
  · exact .of_empty rfl rfl

/-- A state is mentioned under its id, the text of `t`, which it has from then on, and all ids that
were there stay. -/
theorem mention (h : d.Intact) {t : Token} (ht : isPseudostate t.text = false) :
    (d.mention t).Intact ∧ t.text ∈ (d.mention t).ids ∧ ∀ j ∈ d.ids, j ∈ (d.mention t).ids := by
  by_cases hmem : t.text ∈ d.ids
  · rw [mention_of_mem hmem]
    exact ⟨h, hmem, fun _ hj => hj⟩
  · rw [mention_of_not_mem hmem]
    exact ⟨h.addState ht hmem _, h.mem_add List.mem_cons_self, fun j hj => mem_ids_add hj _⟩

theorem addTransition (h : d.Intact) {t : Transition}
    (hsource : t.source = startId ∨ t.source ∈ d.ids)
    (htarget : t.target = endId ∨ t.target ∈ d.ids) : (d.add { transitions := [t] }).Intact := by
  refine h.add List.nodup_nil (List.forall_mem_nil _) (List.forall_mem_nil _)
    (List.forall_mem_nil _) ?_
  constructor
  · exact List.forall_mem_singleton.2 (hsource.imp_right fun hj => mem_ids_add hj _)
  · exact List.forall_mem_singleton.2 (htarget.imp_right fun hj => mem_ids_add hj _)
  · exact List.forall_mem_nil _

theorem addNote (h : d.Intact) {n : Note} (hstate : n.state ∈ d.ids) :
    (d.add { notes := [n] }).Intact := by
  refine h.add List.nodup_nil (List.forall_mem_nil _) (List.forall_mem_nil _)
    (List.forall_mem_nil _) ?_
  constructor
  · exact List.forall_mem_nil _
  · exact List.forall_mem_nil _
  · exact List.forall_mem_singleton.2 (mem_ids_add hstate _)

end Intact
end Draft
end DiagramText.States
