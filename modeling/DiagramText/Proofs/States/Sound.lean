import DiagramText.Proofs.States.Nodes
import DiagramText.Proofs.States.Scopes

/-!
# What every part of a state diagram keeps

A draft is changed in one place at a time: a state gets a label or another region, or the innermost
open scope gets a new state, a transition or a note. None of this makes an id be there twice, takes
a state away or makes a part unreadable.

* `States.State.Sound`: a state that can stand in a document, of which the scopes mention known
  states and the open ones are there.
* `States.Draft.Sound`: a draft of sound states with different ids. Each step that reading takes has
  a lemma that says that it keeps this.
-/

namespace DiagramText.States

/-! ### Scopes -/

/-- A scope `y` of which the transitions and notes are between known states. The start of the scope
is only a source, and its end is only a target. -/
structure Scope.Within (known : List String) (y : Scope State) : Prop where
  sources : ∀ t ∈ y.transitions, t.source = startId ∨ t.source ∈ known
  targets : ∀ t ∈ y.transitions, t.target = endId ∨ t.target ∈ known
  notes : ∀ n ∈ y.notes, n.state ∈ known

namespace Scope

variable {y z : Scope State} {known known' : List String}

theorem Readable.append (hy : y.Readable) (hz : z.Readable) : (y.append z).Readable where
  transitions := List.forall_mem_append.2 ⟨hy.transitions, hz.transitions⟩
  notes := List.forall_mem_append.2 ⟨hy.notes, hz.notes⟩

theorem Within.append (hy : y.Within known) (hz : z.Within known) : (y.append z).Within known where
  sources := List.forall_mem_append.2 ⟨hy.sources, hz.sources⟩
  targets := List.forall_mem_append.2 ⟨hy.targets, hz.targets⟩
  notes := List.forall_mem_append.2 ⟨hy.notes, hz.notes⟩

theorem Within.imp (h : y.Within known) (hknown : ∀ i ∈ known, i ∈ known') : y.Within known' where
  sources t ht := (h.sources t ht).imp_right (hknown _)
  targets t ht := (h.targets t ht).imp_right (hknown _)
  notes n hn := hknown _ (h.notes n hn)

theorem Readable.of_bare (h : y.Readable) (hbare : y.bare = z.bare) : z.Readable := by
  obtain ⟨ss, ts, ns⟩ := y
  obtain ⟨ss', ts', ns'⟩ := z
  cases hbare
  exact ⟨h.transitions, h.notes⟩

theorem Within.of_bare (h : y.Within known) (hbare : y.bare = z.bare) : z.Within known := by
  obtain ⟨ss, ts, ns⟩ := y
  obtain ⟨ss', ts', ns'⟩ := z
  cases hbare
  exact ⟨h.sources, h.targets, h.notes⟩

/-- What does not depend on the states of scopes holds of scopes that differ only in them, which
`Scope.bare` leaves out. -/
theorem forall_of_map_bare {P : Scope State → Prop} (hP : ∀ y z, y.bare = z.bare → P y → P z)
    {ys zs : List (Scope State)} (h : zs.map bare = ys.map bare) (hys : ∀ y ∈ ys, P y) :
    ∀ z ∈ zs, P z := by
  intro z hz
  have hmem : z.bare ∈ ys.map bare := h ▸ List.mem_map_of_mem hz
  obtain ⟨y, hy, hbare⟩ := List.mem_map.1 hmem
  exact hP y z hbare (hys y hy)

/-- What a change `g` of scopes keeps holds after one of them is changed, whichever it is. -/
theorem forall_mem_modify {P : Scope State → Prop} {g : Scope State → Scope State}
    (hP : ∀ y, P y → P (g y)) {rs : List (Scope State)} (h : ∀ r ∈ rs, P r) (n : Nat) :
    ∀ r ∈ rs.modify n g, P r := by
  induction rs generalizing n with
  | nil =>
    rw [List.modify_nil]
    exact h
  | cons r rs ih =>
    obtain ⟨hr, h⟩ := List.forall_mem_cons.1 h
    cases n with
    | zero => exact List.forall_mem_cons.2 ⟨hP r hr, h⟩
    | succ n => exact List.forall_mem_cons.2 ⟨hr, ih h n⟩

end Scope

namespace State

variable {s t : State} {known known' : List String} {opened opened' : List OpenScope}
  {i : String} {f : State → State}

/-! ### The states in the scopes of a state -/

/-- The states in the scopes of a state `s`, at any depth, but not the state itself. -/
def inner (s : State) : List State := nodesChildren s.children ++ nodesScopes s.regions

theorem nodes_eq_inner (s : State) : s.nodes = s :: s.inner := nodes_eq s

theorem ids_eq_inner (s : State) : s.ids = s.id :: s.inner.map State.id := by
  rw [← map_id_nodes, nodes_eq_inner, List.map_cons]

theorem inner_children (t : State) :
    inner { t with children := some (t.children.getD []) } = t.inner := by
  have hchildren : nodesList (t.children.getD []) = nodesChildren t.children := by
    cases t.children <;> rfl
  show nodesList (t.children.getD []) ++ nodesScopes t.regions = _
  rw [hchildren]
  rfl

theorem inner_region (t : State) : inner { t with regions := t.regions ++ [{}] } = t.inner := by
  have hempty : nodesScopes (t.regions ++ [({} : Scope State)]) = nodesScopes t.regions := by
    induction t.regions with
    | nil => rfl
    | cons r rs ih => rw [List.cons_append, nodesScopes, nodesScopes, ih]
  show nodesChildren t.children ++ nodesScopes (t.regions ++ [({} : Scope State)]) = _
  rw [hempty]
  rfl

/-- A change that keeps the id of a state and puts states `new` into its scopes, or leaves them as
they are, where the region is missing. -/
structure Puts (f : State → State) (new : List State) : Prop where
  id (t : State) : (f t).id = t.id
  inner (t : State) : (f t).inner.Perm (t.inner ++ new) ∨ (f t).inner = t.inner

namespace Puts

variable {new : List State}

/-- Without new states, the states in the scopes stay what they are, so `Puts` holds of the
change. -/
theorem of_eq (hid : ∀ t, (f t).id = t.id) (hinner : ∀ t, (f t).inner = t.inner) : Puts f [] :=
  ⟨hid, fun t => .inr (hinner t)⟩

theorem mem_inner (h : Puts f new) {u : State} (hu : u ∈ (f t).inner) :
    u ∈ t.inner ∨ u ∈ new := by
  rcases h.inner t with hperm | heq
  · exact List.mem_append.1 (hperm.subset hu)
  · exact .inl (heq ▸ hu)

theorem mem_ids (h : Puts f new) {j : String} (hj : j ∈ t.ids) : j ∈ (f t).ids := by
  rw [ids_eq_inner] at hj ⊢
  rw [h.id]
  rcases List.mem_cons.1 hj with rfl | hj
  · exact List.mem_cons_self
  · refine List.mem_cons_of_mem _ ?_
    obtain ⟨u, hu, rfl⟩ := List.mem_map.1 hj
    apply List.mem_map_of_mem
    rcases h.inner t with hperm | heq
    · exact hperm.symm.subset (List.mem_append_left _ hu)
    · exact heq ▸ hu

theorem mem_of_mem_ids (h : Puts f new) {j : String} (hj : j ∈ (f t).ids) :
    j ∈ t.ids ∨ j ∈ new.map State.id := by
  rw [ids_eq_inner, h.id] at hj
  rw [ids_eq_inner]
  rcases List.mem_cons.1 hj with rfl | hj
  · exact .inl List.mem_cons_self
  · obtain ⟨u, hu, rfl⟩ := List.mem_map.1 hj
    rcases h.mem_inner hu with hu | hu
    · exact .inl (List.mem_cons_of_mem _ (List.mem_map_of_mem hu))
    · exact .inr (List.mem_map_of_mem hu)

/-- Where new states `new` have ids of their own, no id is there twice after they are put
somewhere. -/
theorem nodup_ids (h : Puts f new) (hnodup : t.ids.Nodup) (hnew : (new.map State.id).Nodup)
    (hfresh : ∀ x ∈ new.map State.id, x ∉ t.ids) : (f t).ids.Nodup := by
  rw [ids_eq_inner] at hnodup hfresh ⊢
  rw [h.id]
  rcases h.inner t with hperm | heq
  · have hall : (t.id :: (t.inner ++ new).map State.id).Nodup := by
      rw [List.map_append, ← List.cons_append]
      refine List.nodup_append.2 ⟨hnodup, hnew, ?_⟩
      rintro x hx _ hx' rfl
      exact hfresh x hx' hx
    exact ((hperm.map State.id).cons t.id).symm.nodup hall
  · rw [heq]
    exact hnodup

end Puts

/-- A change `f` of the label, the kind and the direction of a state, and of nothing else. -/
def Decorates (f : State → State) : Prop := ∀ t, f t =
  { t with label := (f t).label, kind := (f t).kind, direction := (f t).direction }

namespace Decorates

theorem parts (h : Decorates f) (t : State) : (f t).id = t.id ∧ (f t).children = t.children ∧
    (f t).regions = t.regions ∧ (f t).scopes = t.scopes := by
  rw [h t]
  exact ⟨rfl, rfl, rfl, rfl⟩

theorem inner (h : Decorates f) (t : State) : (f t).inner = t.inner := by
  obtain ⟨-, hchildren, hregions, -⟩ := h.parts t
  rw [State.inner, State.inner, hchildren, hregions]

end Decorates

/-- A change `f` of the label, the kind and the direction of a state, which leaves a readable one
readable. -/
structure Adorns (f : State → State) : Prop where
  eq (t : State) : f t =
    { t with label := (f t).label, kind := (f t).kind, direction := (f t).direction }
  label (t : State) : t.Readable → ∀ l ∈ (f t).label, IsLabel l

namespace Adorns

theorem parts (h : Adorns f) (t : State) : (f t).id = t.id ∧ (f t).children = t.children ∧
    (f t).regions = t.regions ∧ (f t).scopes = t.scopes := Decorates.parts h.eq t

theorem id (h : Adorns f) (t : State) : (f t).id = t.id := (h.parts t).1

theorem inner (h : Adorns f) (t : State) : (f t).inner = t.inner := Decorates.inner h.eq t

end Adorns

/-- More states `y` in a region are more states in the scopes of the state, if it has the region.
Their order depends on the region. -/
theorem perm_nodesScopes_modify (rs : List (Scope State)) (n : Nat) (y : Scope State) :
    (nodesScopes (rs.modify n (·.append y))).Perm (nodesScopes rs ++ nodesList y.states) ∨
      nodesScopes (rs.modify n (·.append y)) = nodesScopes rs := by
  induction rs generalizing n with
  | nil => exact .inr (by rw [List.modify_nil])
  | cons r rs ih =>
    obtain ⟨states, transitions, notes⟩ := r
    cases n with
    | zero =>
      refine .inl ?_
      show (nodesList (states ++ y.states) ++ nodesScopes rs).Perm _
      rw [nodesList_append, nodesScopes, List.append_assoc, List.append_assoc]
      exact List.perm_append_comm.append_left _
    | succ n =>
      rw [List.modify_succ_cons, nodesScopes, nodesScopes]
      refine (ih n).imp (fun hperm => ?_) fun heq => by rw [heq]
      rw [List.append_assoc]
      exact hperm.append_left _

/-- Reading on in a `region` puts states into it, the children included. -/
theorem puts_modifyRegion (region : Nat) (y : Scope State) :
    Puts (modifyRegion region (·.append y)) (nodesList y.states) := by
  refine ⟨id_modifyRegion region _, fun t => ?_⟩
  cases region with
  | zero =>
    refine .inl ?_
    have hchildren : nodesList (t.children.getD []) = nodesChildren t.children := by
      cases t.children <;> rfl
    show (nodesList (t.children.getD [] ++ y.states) ++ nodesScopes t.regions).Perm _
    rw [nodesList_append, hchildren, inner, List.append_assoc, List.append_assoc]
    exact List.perm_append_comm.append_left _
  | succ n =>
    show (nodesChildren t.children ++ nodesScopes (t.regions.modify n (·.append y))).Perm _ ∨ _ = _
    refine (perm_nodesScopes_modify t.regions n y).imp (fun hperm => ?_) fun heq => ?_
    · rw [inner, List.append_assoc]
      exact hperm.append_left _
    · exact congrArg (nodesChildren t.children ++ ·) heq

/-! ### What lasts -/

/-- A property of states that does not depend on the states in their scopes. More ids may be known,
and fewer scopes of the state may be open. Both `Sound` and `Intact` are such. -/
structure Lasting (P : List String → List OpenScope → State → Prop) : Prop where
  imp {known known' : List String} {opened opened' : List OpenScope} {s : State} :
    P known opened s → (∀ j ∈ known, j ∈ known') →
      (∀ o ∈ opened', o.owner = s.id → o ∈ opened) → P known' opened' s
  congr {known : List String} {opened : List OpenScope} {s : State} {c : Option (List State)}
    {r : List (Scope State)} : P known opened s → c.isSome = s.children.isSome →
      r.map Scope.bare = s.regions.map Scope.bare →
        P known opened { s with children := c, regions := r }

/-- What lasts holds of all states if it holds of the state that is changed and of the `new` ones,
since no other state changes but in its scopes. -/
theorem Lasting.forall_modify {P : List String → List OpenScope → State → Prop} (hP : Lasting P)
    {ss new : List State} (hputs : Puts f new)
    (hknown : ∀ j ∈ known, j ∈ known') (hopened : ∀ o ∈ opened', o.owner ≠ i → o ∈ opened)
    (hf : ∀ t ∈ nodesList ss, t.id = i → P known opened t → P known' opened' (f t))
    (hnew : ∀ u ∈ new, P known' opened' u) (hnodup : (idsList ss).Nodup)
    (h : ∀ s ∈ nodesList ss, P known opened s) :
    ∀ s ∈ nodesList (modifyList i f ss), P known' opened' s := by
  refine forall_nodesList_modify (P := fun t => P known opened t ∧
    (t.id = i → P known' opened' (f t))) (fun s c r hne hc hr hs => ?_)
    (fun t ht hnodup hall => ?_) ss hnodup fun s hs => ⟨h s hs, fun hid => hf s hs hid (h s hs)⟩
  · refine hP.imp (hP.congr hs.1 hc hr) hknown fun o ho hid => hopened o ho ?_
    rw [hid]
    exact hne
  · rw [nodes_eq_inner] at hall ⊢
    obtain ⟨⟨-, hft⟩, hinner⟩ := List.forall_mem_cons.1 hall
    rw [ids_eq_inner, ht, List.nodup_cons] at hnodup
    refine List.forall_mem_cons.2 ⟨hft ht, fun u hu => ?_⟩
    rcases hputs.mem_inner hu with hu | hu
    · -- the states below have other ids than the state itself
      refine hP.imp (hinner u hu).1 hknown fun o ho hid => hopened o ho ?_
      rintro rfl
      exact hnodup.1 (hid ▸ List.mem_map_of_mem hu)
    · exact hnew u hu

/-! ### Sound states -/

/-- A state `s` that can stand in a document, of which the scopes mention known states, and the open
ones are there. -/
structure Sound (known : List String) (opened : List OpenScope) (s : State) : Prop where
  readable : s.Readable
  within : ∀ y ∈ s.scopes, y.Within known
  opened : ∀ o ∈ opened, o.owner = s.id → s.children.isSome = true ∧ o.region ≤ s.regions.length

/-- More states may be known, and fewer scopes of the state `s` may be open, so soundness lasts. -/
theorem Sound.imp (h : s.Sound known opened) (hknown : ∀ j ∈ known, j ∈ known')
    (hopened : ∀ o ∈ opened', o.owner = s.id → o ∈ opened) : s.Sound known' opened' where
  readable := h.readable
  within y hy := (h.within y hy).imp hknown
  opened o ho hid := h.opened o (hopened o ho hid) hid

/-- The states in the scopes of a state `s` do not matter to whether it is sound, only that it has
the scopes. -/
theorem Sound.congr (h : s.Sound known opened) {c : Option (List State)} {r : List (Scope State)}
    (hc : c.isSome = s.children.isSome) (hr : r.map Scope.bare = s.regions.map Scope.bare) :
    Sound known opened { s with children := c, regions := r } := by
  have hscopes : (scopes { s with children := c, regions := r }).map Scope.bare =
      s.scopes.map Scope.bare := by
    rw [scopes, scopes, List.map_cons, List.map_cons, hr]
    rfl
  have hlength : r.length = s.regions.length := by simpa using congrArg List.length hr
  refine ⟨⟨h.readable.id, h.readable.label, ?_, fun hnone => ?_⟩, ?_, fun o ho hid => ?_⟩
  · exact Scope.forall_of_map_bare (fun _ _ hbare hy => hy.of_bare hbare) hscopes h.readable.scopes
  · have hregions : s.regions = [] := h.readable.regions (by
      rw [← Option.isNone_iff_eq_none, ← Option.not_isSome, ← hc]
      simpa using hnone)
    rw [hregions] at hlength
    exact List.length_eq_zero_iff.1 hlength
  · exact Scope.forall_of_map_bare (fun _ _ hbare hy => hy.of_bare hbare) hscopes h.within
  · show c.isSome = true ∧ o.region ≤ r.length
    rw [hc, hlength]
    exact h.opened o ho hid

theorem forall_scopes_modifyRegion {P : Scope State → Prop} {g : Scope State → Scope State}
    (hP : ∀ y, P y → P (g y)) (region : Nat) (h : ∀ y ∈ s.scopes, P y) :
    ∀ y ∈ (s.modifyRegion region g).scopes, P y := by
  obtain ⟨hown, hregions⟩ := List.forall_mem_cons.1 h
  cases region with
  | zero => exact List.forall_mem_cons.2 ⟨hP _ hown, hregions⟩
  | succ n => exact List.forall_mem_cons.2 ⟨hown, Scope.forall_mem_modify hP hregions n⟩

/-- Reading on in a region keeps a state `s` sound, if what is added is readable and about known
states. -/
theorem Sound.modifyRegion (h : s.Sound known opened) {y : Scope State} (hy : y.Readable)
    (hwithin : y.Within known) (region : Nat) :
    (s.modifyRegion region (·.append y)).Sound known opened := by
  have hreadable := forall_scopes_modifyRegion (fun z (hz : z.Readable) => hz.append hy) region
    h.readable.scopes
  have hwithin := forall_scopes_modifyRegion
    (fun z (hz : z.Within known) => hz.append hwithin) region h.within
  cases region with
  | zero =>
    refine ⟨⟨h.readable.id, h.readable.label, hreadable, nofun⟩, hwithin, fun o ho hid => ?_⟩
    exact ⟨rfl, (h.opened o ho hid).2⟩
  | succ n =>
    refine ⟨⟨h.readable.id, h.readable.label, hreadable, fun hnone => ?_⟩, hwithin,
      fun o ho hid => ?_⟩
    · have hregions : s.regions = [] := h.readable.regions hnone
      show s.regions.modify n (·.append y) = []
      rw [hregions, List.modify_nil]
    · show s.children.isSome = true ∧ o.region ≤ (s.regions.modify n (·.append y)).length
      rw [List.length_modify]
      exact h.opened o ho hid

theorem lasting_sound : Lasting Sound := ⟨Sound.imp, fun h hc hr => h.congr hc hr⟩

end State

namespace Draft

open State

variable {d : Draft} {i : String} {f : State → State}

theorem mem_ids_modify {new : List State} (hf : Puts f new) {j : String} (hj : j ∈ d.ids) :
    j ∈ (d.modify i f).ids :=
  mem_idsList_modify (fun t _ ht => hf.mem_ids (t := t) ht) d.scope.states j hj

theorem mem_ids_adorn (hf : Adorns f) {j : String} (hj : j ∈ d.ids) : j ∈ (d.modify i f).ids :=
  mem_ids_modify (.of_eq hf.id hf.inner) hj

/-- What is added to the innermost open scope of `d` is there if its region is. Without an open
scope, this is the outermost one. -/
theorem mem_add_of_opened (howners : ∀ o ∈ d.opened, o.owner ∈ d.ids)
    (hregions : ∀ t ∈ nodesList d.scope.states, ∀ o ∈ d.opened, o.owner = t.id →
      o.region ≤ t.regions.length)
    {y : Scope State} (hi : i ∈ idsList y.states) : i ∈ (d.add y).ids := by
  obtain ⟨version, direction, scope, opened⟩ := d
  cases opened with
  | nil => simp [Draft.add, modifyScope, ids, Scope.append, idsList_append, hi]
  | cons o opened =>
    refine mem_idsList_modify_self (P := fun t => t.id = o.owner → o.region ≤ t.regions.length)
      (fun t hid ht => ?_) scope.states (fun t ht hid => ?_) (howners o List.mem_cons_self)
    · exact (mem_ids_modifyRegion t o.region).2 (.inr ⟨ht hid, hi⟩)
    · exact hregions t ht o List.mem_cons_self hid.symm

/-! ### Sound drafts -/

/-- A draft `d` of sound states with different ids, in which the open scopes are those of states
that are there. -/
structure Sound (d : Draft) : Prop where
  nodup : d.ids.Nodup
  states : ∀ s ∈ nodesList d.scope.states, s.Sound d.ids d.opened
  scope : d.scope.Readable
  within : d.scope.Within d.ids
  owners : ∀ o ∈ d.opened, o.owner ∈ d.ids

namespace Sound

theorem empty (version : Version) : Sound { version } where
  nodup := List.nodup_nil
  states := List.forall_mem_nil _
  scope := ⟨List.forall_mem_nil _, List.forall_mem_nil _⟩
  within := ⟨List.forall_mem_nil _, List.forall_mem_nil _, List.forall_mem_nil _⟩
  owners := List.forall_mem_nil _

/-- A state `i` that is there can be changed, and scopes of it opened or closed, while those of
other states stay. -/
theorem change (h : d.Sound) {new : List State} (hputs : Puts f new) {opened' : List OpenScope}
    (hopened : ∀ o ∈ opened', o.owner ≠ i → o ∈ d.opened)
    (howners : ∀ o ∈ opened', o.owner ∈ d.ids)
    (hf : ∀ t ∈ nodesList d.scope.states, t.id = i → t.Sound d.ids d.opened →
      (f t).Sound (d.modify i f).ids opened')
    (hnewSound : ∀ u ∈ new, u.Sound (d.modify i f).ids opened')
    (hnew : (new.map State.id).Nodup) (hfresh : ∀ x ∈ new.map State.id, x ∉ d.ids) :
    Sound { d.modify i f with opened := opened' } := by
  have hknown : ∀ j ∈ d.ids, j ∈ (d.modify i f).ids := fun j hj => mem_ids_modify hputs hj
  refine ⟨?_, ?_, ⟨h.scope.transitions, h.scope.notes⟩, ?_, fun o ho => hknown _ (howners o ho)⟩
  · exact nodup_idsList_modify (fun t _ hnodup hfresh => hputs.nodup_ids hnodup hnew hfresh)
      (fun t _ hk => hputs.mem_of_mem_ids hk) d.scope.states h.nodup hfresh
  · exact lasting_sound.forall_modify hputs hknown hopened hf hnewSound h.nodup h.states
  · exact (h.within.imp hknown).of_bare rfl

/-- A change `f` of a state that puts nothing into its scopes, such as a label or another region. -/
theorem change_of_eq (h : d.Sound) (hid : ∀ t, (f t).id = t.id)
    (hinner : ∀ t, (f t).inner = t.inner) {opened' : List OpenScope}
    (hopened : ∀ o ∈ opened', o.owner ≠ i → o ∈ d.opened)
    (howners : ∀ o ∈ opened', o.owner ∈ d.ids)
    (hf : ∀ t ∈ nodesList d.scope.states, t.id = i → t.Sound d.ids d.opened →
      (f t).Sound d.ids opened') :
    Sound { d.modify i f with opened := opened' } := by
  have hputs : Puts f [] := .of_eq hid hinner
  refine h.change hputs hopened howners (fun t ht hi hs => ?_) (List.forall_mem_nil _)
    List.nodup_nil (List.forall_mem_nil _)
  exact (hf t ht hi hs).imp (fun j hj => mem_ids_modify hputs hj) fun _ ho _ => ho

/-! ### Steps of reading -/

/-- A state `i` can get another label, another kind and another direction, if it stays readable. -/
theorem adorn (h : d.Sound) (hf : Adorns f) (i : String) : (d.modify i f).Sound := by
  refine h.change_of_eq hf.id hf.inner (fun _ ho _ => ho) h.owners fun t _ _ ht => ?_
  obtain ⟨hid, hchildren, hregions, hscopes⟩ := hf.parts t
  refine ⟨⟨hid ▸ ht.readable.id, hf.label t ht.readable, hscopes ▸ ht.readable.scopes, ?_⟩,
    hscopes ▸ ht.within, ?_⟩
  · rw [hchildren, hregions]
    exact ht.readable.regions
  · rw [hid, hchildren, hregions]
    exact ht.opened

/-- The first region of a state `i` that is there can be opened, which makes the state composite. -/
theorem openScope (h : d.Sound) (hi : i ∈ d.ids) : (d.openScope i).Sound := by
  have howners : ∀ o ∈ (⟨i, 0⟩ :: d.opened : List OpenScope), o.owner ∈ d.ids :=
    List.forall_mem_cons.2 ⟨hi, h.owners⟩
  refine h.change_of_eq (f := fun t => { t with children := some (t.children.getD []) })
    (fun _ => rfl) inner_children (fun o ho hne => ?_) howners fun t _ hid ht => ?_
  · rcases List.mem_cons.1 ho with rfl | ho
    · exact absurd rfl hne
    · exact ho
  · refine ⟨⟨ht.readable.id, ht.readable.label, ?_, nofun⟩, ?_, List.forall_mem_cons.2
      ⟨fun _ => ⟨rfl, Nat.zero_le _⟩, fun o ho hown => ⟨rfl, (ht.opened o ho hown).2⟩⟩⟩
    · exact ht.readable.scopes
    · exact ht.within

theorem closeScope (h : d.Sound) : d.closeScope.Sound where
  nodup := h.nodup
  states s hs := (h.states s hs).imp (fun _ hj => hj) fun _ ho _ => List.mem_of_mem_tail ho
  scope := h.scope
  within := h.within
  owners o ho := h.owners o (List.mem_of_mem_tail ho)

/-- The next region of an open state is empty, and its number is that of the regions so far. -/
theorem nextRegion (h : d.Sound) : d.nextRegion.Sound := by
  -- Without an open scope nothing happens. With one, its owner gets a region, which is then the
  -- open one.
  rw [Draft.nextRegion]
  split
  · exact h
  next o outer hopened =>
  let count := ((d.state? o.owner).map (·.regions.length)).getD 0
  have howners : ∀ p ∈ (⟨o.owner, count + 1⟩ :: outer : List OpenScope), p.owner ∈ d.ids := by
    have hall := h.owners
    rw [hopened] at hall
    exact List.forall_mem_cons.2 (List.forall_mem_cons.1 hall)
  refine h.change_of_eq (f := fun t => { t with regions := t.regions ++ [{}] }) (fun _ => rfl)
    inner_region (fun p hp hne => ?_) howners fun t ht hid hs => ?_
  · rw [hopened]
    rcases List.mem_cons.1 hp with rfl | hp
    · exact absurd rfl hne
    · exact List.mem_cons_of_mem _ hp
  · -- the state with the id of the owner is the owner
    have hstate : d.state? o.owner = some t := by
      rw [← hid]
      exact findList?_of_mem_nodesList h.nodup ht
    have hcomposite : t.children.isSome = true :=
      (hs.opened o (by rw [hopened]; exact List.mem_cons_self) hid.symm).1
    refine ⟨⟨hs.readable.id, hs.readable.label, ?_, fun hnone => ?_⟩, ?_, fun p hp hown => ?_⟩
    · exact List.forall_mem_cons.2 ⟨hs.readable.scopes _ List.mem_cons_self,
        List.forall_mem_append.2 ⟨fun y hy => hs.readable.scopes y (List.mem_cons_of_mem _ hy),
          List.forall_mem_singleton.2 ⟨List.forall_mem_nil _, List.forall_mem_nil _⟩⟩⟩
    · rw [show t.children = none from hnone] at hcomposite
      cases hcomposite
    · exact List.forall_mem_cons.2 ⟨hs.within _ List.mem_cons_self,
        List.forall_mem_append.2 ⟨fun y hy => hs.within y (List.mem_cons_of_mem _ hy),
          List.forall_mem_singleton.2
            ⟨List.forall_mem_nil _, List.forall_mem_nil _, List.forall_mem_nil _⟩⟩⟩
    · show t.children.isSome = true ∧ p.region ≤ (t.regions ++ [({} : Scope State)]).length
      rw [List.length_append, List.length_singleton]
      refine ⟨hcomposite, ?_⟩
      rcases List.mem_cons.1 hp with rfl | hp
      · simp [hstate]
      · have hregion := (hs.opened p (by rw [hopened]; exact List.mem_cons_of_mem _ hp) hown).2
        omega

theorem setDirection (h : d.Sound) (x : Direction) : (d.setDirection x).Sound := by
  rw [Draft.setDirection]
  split
  · exact ⟨h.nodup, h.states, h.scope, h.within, h.owners⟩
  · have hadorns : Adorns fun t => { t with direction := some x } :=
      ⟨fun _ => rfl, fun t ht => ht.label⟩
    exact h.adorn hadorns _

/-- What is added to the innermost open scope is there, since a sound draft `d` has its region. -/
theorem mem_add (h : d.Sound) {y : Scope State} (hi : i ∈ idsList y.states) : i ∈ (d.add y).ids :=
  mem_add_of_opened h.owners (fun t ht o ho hid => ((h.states t ht).opened o ho hid).2) hi

/-- The innermost open scope can get what `y` holds, new states, and transitions and notes about
known ones: all that one line adds. -/
theorem add (h : d.Sound) {y : Scope State} (hnodup : (idsList y.states).Nodup)
    (hfresh : ∀ j ∈ idsList y.states, j ∉ d.ids)
    (hstates : ∀ s ∈ nodesList y.states, s.Sound (d.add y).ids d.opened)
    (hy : y.Readable) (hwithin : y.Within (d.add y).ids) : (d.add y).Sound := by
  have hknown : ∀ j ∈ d.ids, j ∈ (d.add y).ids := fun j hj => mem_ids_add hj y
  obtain ⟨version, direction, scope, opened⟩ := d
  cases opened with
  | nil =>
    refine ⟨?_, ?_, h.scope.append hy, (h.within.imp hknown).append hwithin, List.forall_mem_nil _⟩
    · show (idsList (scope.states ++ y.states)).Nodup
      rw [idsList_append]
      refine List.nodup_append.2 ⟨h.nodup, hnodup, ?_⟩
      rintro j hj _ hj' rfl
      exact hfresh j hj' hj
    · show ∀ s ∈ nodesList (scope.states ++ y.states), _
      rw [nodesList_append]
      exact List.forall_mem_append.2
        ⟨fun s hs => (h.states s hs).imp hknown fun _ ho _ => ho, hstates⟩
  | cons o opened =>
    rw [← map_id_nodesList] at hnodup hfresh
    refine h.change (puts_modifyRegion o.region y) (fun _ ho _ => ho) h.owners
      (fun t _ _ ht => ?_) hstates hnodup hfresh
    exact (ht.imp hknown fun _ ho _ => ho).modifyRegion hy hwithin o.region

/-- A state is mentioned under its id, the text of `t`, which it has from then on, whether it was
there or not. -/
theorem mention (h : d.Sound) {t : Token} (ht : Text.IsHyphenated t.text) : (d.mention t).Sound ∧
    t.text ∈ (d.mention t).ids ∧ (∀ j ∈ d.ids, j ∈ (d.mention t).ids) := by
  by_cases hmem : t.text ∈ d.ids
  · rw [mention_of_mem hmem]
    exact ⟨h, hmem, fun _ hj => hj⟩
  rw [mention_of_not_mem hmem]
  let s : State := { id := t.text, position := some t.start }
  have hs : idsList [s] = [t.text] := rfl
  refine ⟨h.add (hs ▸ List.nodup_singleton _) (hs ▸ List.forall_mem_singleton.2 hmem) ?_
    ⟨List.forall_mem_nil _, List.forall_mem_nil _⟩
    ⟨List.forall_mem_nil _, List.forall_mem_nil _, List.forall_mem_nil _⟩,
    h.mem_add (by rw [hs]; exact List.mem_cons_self), fun j hj => mem_ids_add hj _⟩
  refine List.forall_mem_singleton.2 ⟨⟨ht, nofun, ?_, fun _ => rfl⟩, ?_, fun o ho hown => ?_⟩
  · exact List.forall_mem_singleton.2 ⟨List.forall_mem_nil _, List.forall_mem_nil _⟩
  · exact List.forall_mem_singleton.2
      ⟨List.forall_mem_nil _, List.forall_mem_nil _, List.forall_mem_nil _⟩
  · -- no scope of a new state is open
    have howner : o.owner = t.text := hown
    exact absurd (howner ▸ h.owners o ho) hmem

theorem addTransition (h : d.Sound) {t : Transition} (ht : t.Readable)
    (hsource : t.source = startId ∨ t.source ∈ d.ids)
    (htarget : t.target = endId ∨ t.target ∈ d.ids) :
    (d.add { transitions := [t] }).Sound := by
  refine h.add List.nodup_nil (List.forall_mem_nil _) (List.forall_mem_nil _)
    ⟨List.forall_mem_singleton.2 ht, List.forall_mem_nil _⟩ ⟨List.forall_mem_singleton.2 ?_,
      List.forall_mem_singleton.2 ?_, List.forall_mem_nil _⟩
  · exact hsource.imp_right fun hi => mem_ids_add hi _
  · exact htarget.imp_right fun hi => mem_ids_add hi _

theorem addNote (h : d.Sound) {n : Note} (hn : n.Readable) (hstate : n.state ∈ d.ids) :
    (d.add { notes := [n] }).Sound :=
  h.add List.nodup_nil (List.forall_mem_nil _) (List.forall_mem_nil _)
    ⟨List.forall_mem_nil _, List.forall_mem_singleton.2 hn⟩ ⟨List.forall_mem_nil _,
      List.forall_mem_nil _, List.forall_mem_singleton.2 (mem_ids_add hstate _)⟩

end Sound
end Draft
end DiagramText.States
