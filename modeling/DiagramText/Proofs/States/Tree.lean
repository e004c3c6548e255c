import DiagramText.States.Reader

/-!
# The states of a diagram as a tree

* `States.State.nodes` and `States.State.ids`: the states in a tree of states and their ids, in the
  order in which they are written.
* `States.State.outline`: a tree of states of which only the ids and the scopes are left.
* `States.State.written`: a tree of states as its lines tell it. They tell all of a tree of
  `States.State.Coherent` states (`States.State.written_eq_unplaced`).
* `States.State.modify_of_not_mem` and `States.State.modifyList_modifyList_of_not_mem`: changing the
  state with an id changes nothing else.
-/

namespace DiagramText.States.State

/-! ### Ids -/

mutual

/-- The ids of a state and of the states in its scopes, in the order in which the states are
written. -/
def ids : State → List String
  | ⟨id, _, _, children, _, _, _, regions, _⟩ => id :: (idsChildren children ++ idsScopes regions)

/-- The ids of children and of the states in their scopes. -/
def idsChildren : Option (List State) → List String
  | none => []
  | some ss => idsList ss

/-- The ids of states and of the states in their scopes. -/
def idsList : List State → List String
  | [] => []
  | s :: ss => s.ids ++ idsList ss

/-- The ids of the states in scopes. -/
def idsScopes : List (Scope State) → List String
  | [] => []
  | ⟨states, _, _⟩ :: rs => idsList states ++ idsScopes rs

end

theorem idsList_append (ss ts : List State) : idsList (ss ++ ts) = idsList ss ++ idsList ts := by
  induction ss with
  | nil => rfl
  | cons s ss ih => rw [List.cons_append, idsList, idsList, ih, List.append_assoc]

theorem idsScopes_append (rs qs : List (Scope State)) :
    idsScopes (rs ++ qs) = idsScopes rs ++ idsScopes qs := by
  induction rs with
  | nil => rfl
  | cons r rs ih => rw [List.cons_append, idsScopes, idsScopes, ih, List.append_assoc]

theorem idsList_singleton (s : State) : idsList [s] = s.ids := List.append_nil _

theorem id_mem_ids (s : State) : s.id ∈ s.ids := by
  cases s
  exact List.mem_cons_self

/-! ### All states of a tree -/

mutual

/-- A state and the states in its scopes, at any depth, each before those that it holds. -/
def nodes : State → List State
  | ⟨id, label, kind, children, transitions, notes, direction, regions, position⟩ =>
    ⟨id, label, kind, children, transitions, notes, direction, regions, position⟩ ::
      (nodesChildren children ++ nodesScopes regions)

/-- Children and the states in their scopes. -/
def nodesChildren : Option (List State) → List State
  | none => []
  | some ss => nodesList ss

/-- States and the states in their scopes. -/
def nodesList : List State → List State
  | [] => []
  | s :: ss => s.nodes ++ nodesList ss

/-- The states in scopes. -/
def nodesScopes : List (Scope State) → List State
  | [] => []
  | ⟨states, _, _⟩ :: rs => nodesList states ++ nodesScopes rs

end

theorem nodes_eq (s : State) :
    s.nodes = s :: (nodesChildren s.children ++ nodesScopes s.regions) := by
  cases s
  rfl

theorem nodesList_append (ss ts : List State) :
    nodesList (ss ++ ts) = nodesList ss ++ nodesList ts := by
  induction ss with
  | nil => rfl
  | cons s ss ih => rw [List.cons_append, nodesList, nodesList, ih, List.append_assoc]

/-! ### Outlines -/

mutual

/-- A state with nothing but its id and the outlines of its scopes, which is all that tells who
holds whom. -/
def outline : State → State
  | ⟨id, _, _, children, _, _, _, regions, _⟩ =>
    { id, children := outlineChildren children, regions := outlineScopes regions }

/-- The outlines of children. -/
def outlineChildren : Option (List State) → Option (List State)
  | none => none
  | some ss => some (outlineList ss)

/-- The outlines of states. -/
def outlineList : List State → List State
  | [] => []
  | s :: ss => s.outline :: outlineList ss

/-- Scopes with nothing but the outlines of their states. -/
def outlineScopes : List (Scope State) → List (Scope State)
  | [] => []
  | ⟨states, _, _⟩ :: rs => { states := outlineList states } :: outlineScopes rs

end

theorem outlineList_eq_map (ss : List State) : outlineList ss = ss.map outline := by
  induction ss with
  | nil => rfl
  | cons s ss ih => rw [outlineList, ih, List.map_cons]

mutual

theorem ids_outline : ∀ s : State, s.outline.ids = s.ids
  | ⟨id, _, _, children, _, _, _, regions, _⟩ => by
    rw [outline, ids, ids, ids_outlineChildren children, ids_outlineScopes regions]

theorem ids_outlineChildren : ∀ c : Option (List State),
    idsChildren (outlineChildren c) = idsChildren c
  | none => rfl
  | some ss => ids_outlineList ss

theorem ids_outlineList : ∀ ss : List State, idsList (outlineList ss) = idsList ss
  | [] => rfl
  | s :: ss => by rw [outlineList, idsList, idsList, ids_outline s, ids_outlineList ss]

theorem ids_outlineScopes : ∀ rs : List (Scope State), idsScopes (outlineScopes rs) = idsScopes rs
  | [] => rfl
  | ⟨states, _, _⟩ :: rs => by
    rw [outlineScopes, idsScopes, idsScopes, ids_outlineList states, ids_outlineScopes rs]

end

/-! ### What is written -/

mutual

/-- A state as its lines tell it, without positions. They give a kind only to a state without a
scope of its own, and transitions, notes and a direction only to one with a scope.
`State.declaration` and its neighbours leave out the rest. -/
def written : State → State
  | ⟨id, label, kind, none, _, _, _, regions, _⟩ =>
    { id, label, kind, regions := writtenScopes regions }
  | ⟨id, label, _, some ss, transitions, notes, direction, regions, _⟩ =>
    { id, label, children := some (writtenList ss),
      transitions := transitions.map Transition.unplaced, notes, direction,
      regions := writtenScopes regions }

/-- States as their lines tell them. -/
def writtenList : List State → List State
  | [] => []
  | s :: ss => s.written :: writtenList ss

/-- Scopes as their lines tell them. -/
def writtenScopes : List (Scope State) → List (Scope State)
  | [] => []
  | ⟨states, transitions, notes⟩ :: rs =>
    ⟨writtenList states, transitions.map Transition.unplaced, notes⟩ :: writtenScopes rs

end

theorem unplacedScopes_append (rs qs : List (Scope State)) :
    unplacedScopes (rs ++ qs) = unplacedScopes rs ++ unplacedScopes qs := by
  induction rs with
  | nil => rfl
  | cons r rs ih => rw [List.cons_append, unplacedScopes, unplacedScopes, ih, List.cons_append]

mutual

theorem outline_unplaced : ∀ s : State, s.unplaced.outline = s.outline
  | ⟨_, _, _, children, _, _, _, regions, _⟩ => by
    rw [unplaced, outline, outline, outline_unplacedChildren children,
      outline_unplacedScopes regions]

theorem outline_unplacedChildren :
    ∀ c : Option (List State), outlineChildren (unplacedChildren c) = outlineChildren c
  | none => rfl
  | some ss => congrArg some (outline_unplacedList ss)

theorem outline_unplacedList : ∀ ss : List State, outlineList (unplacedList ss) = outlineList ss
  | [] => rfl
  | s :: ss => by
    rw [unplacedList, outlineList, outlineList, outline_unplaced s, outline_unplacedList ss]

theorem outline_unplacedScopes :
    ∀ rs : List (Scope State), outlineScopes (unplacedScopes rs) = outlineScopes rs
  | [] => rfl
  | ⟨states, _, _⟩ :: rs => by
    rw [unplacedScopes, outlineScopes, outlineScopes, outline_unplacedList states,
      outline_unplacedScopes rs]

end

mutual

/-- The lines of a state `s` tell its outline, whatever else they leave out. -/
theorem outline_written : ∀ s : State, s.written.outline = s.outline
  | ⟨_, _, _, none, _, _, _, regions, _⟩ => by
    rw [written, outline, outline, outline_writtenScopes regions]
  | ⟨_, _, _, some ss, _, _, _, regions, _⟩ => by
    rw [written, outline, outline, outlineChildren, outlineChildren, outline_writtenList ss,
      outline_writtenScopes regions]

theorem outline_writtenList : ∀ ss : List State, outlineList (writtenList ss) = outlineList ss
  | [] => rfl
  | s :: ss => by
    rw [writtenList, outlineList, outlineList, outline_written s, outline_writtenList ss]

theorem outline_writtenScopes :
    ∀ rs : List (Scope State), outlineScopes (writtenScopes rs) = outlineScopes rs
  | [] => rfl
  | ⟨states, _, _⟩ :: rs => by
    rw [writtenScopes, outlineScopes, outlineScopes, outline_writtenList states,
      outline_writtenScopes rs]

end

theorem map_unplaced_unplaced (ts : List Transition) :
    (ts.map Transition.unplaced).map Transition.unplaced = ts.map Transition.unplaced := by
  rw [List.map_map]
  rfl

mutual

/-- The lines of a state tell no position, so `written` has none to take away. -/
theorem unplaced_written : ∀ s : State, s.written.unplaced = s.written
  | ⟨_, _, _, none, _, _, _, regions, _⟩ => by
    rw [written, unplaced, unplacedScopes_writtenScopes regions]
    rfl
  | ⟨_, _, _, some ss, transitions, _, _, regions, _⟩ => by
    rw [written, unplaced, unplacedChildren, unplacedList_writtenList ss,
      unplacedScopes_writtenScopes regions, map_unplaced_unplaced transitions]

theorem unplacedList_writtenList : ∀ ss : List State, unplacedList (writtenList ss) = writtenList ss
  | [] => rfl
  | s :: ss => by rw [writtenList, unplacedList, unplaced_written s, unplacedList_writtenList ss]

theorem unplacedScopes_writtenScopes :
    ∀ rs : List (Scope State), unplacedScopes (writtenScopes rs) = writtenScopes rs
  | [] => rfl
  | ⟨states, transitions, _⟩ :: rs => by
    rw [writtenScopes, unplacedScopes, unplacedList_writtenList states,
      unplacedScopes_writtenScopes rs, map_unplaced_unplaced transitions]

end

/-- What is read of states `ss` has the outlines of the states, if it is what their lines tell. -/
theorem outlineList_congr {ss ts : List State} (h : unplacedList ts = writtenList ss) :
    outlineList ts = outlineList ss := by
  rw [← outline_unplacedList ts, h, outline_writtenList]

/-- What is read of a scope `y` is what is read of its states, its transitions and its notes, each
by itself. -/
theorem unplacedScopes_singleton_iff {y z : Scope State} :
    unplacedScopes [z] = writtenScopes [y] ↔ unplacedList z.states = writtenList y.states ∧
      z.transitions.map Transition.unplaced = y.transitions.map Transition.unplaced ∧
        z.notes = y.notes := by
  obtain ⟨states, transitions, notes⟩ := y
  obtain ⟨states', transitions', notes'⟩ := z
  simp [unplacedScopes, writtenScopes]

/-- What is read of a state `s` has the ids of the state, which follows from the outlines. -/
theorem ids_congr {s t : State} (h : t.unplaced = s.written) : t.ids = s.ids := by
  rw [← ids_outline t, ← outline_unplaced, h, outline_written, ids_outline]

theorem idsList_congr {ss ts : List State} (h : unplacedList ts = writtenList ss) :
    idsList ts = idsList ss := by
  rw [← ids_outlineList ts, outlineList_congr h, ids_outlineList]

/-- A state `s` of which nothing is left out when it is written: only one without a scope of its own
has a kind, and only one with a scope has transitions, notes, a direction and further regions. -/
structure Coherent (s : State) : Prop where
  kind : s.children.isSome = true → s.kind = .simple
  transitions : s.children = none → s.transitions = []
  notes : s.children = none → s.notes = []
  direction : s.children = none → s.direction = none
  regions : s.children = none → s.regions = []

/-- A state `s` that owns nothing unless it has a scope of its own: if it is not composite, it has
no transitions, notes and further regions. Its kind and direction are not restricted. -/
def Scoped (s : State) : Prop :=
  s.isComposite = false → s.transitions = [] ∧ s.notes = [] ∧ s.regions = []

mutual

/-- The lines of a coherent state `s` tell all of it but the positions. The induction is on the
tree. -/
theorem written_eq_unplaced : ∀ s : State, (∀ t ∈ s.nodes, t.Coherent) → s.written = s.unplaced
  | ⟨_, _, _, none, _, _, _, _, _⟩, h => by
    have hs := h _ List.mem_cons_self
    obtain rfl := hs.transitions rfl
    obtain rfl := hs.notes rfl
    obtain rfl := hs.direction rfl
    obtain rfl := hs.regions rfl
    rfl
  | ⟨_, _, _, some ss, _, _, _, regions, _⟩, h => by
    obtain ⟨hs, hbelow⟩ := List.forall_mem_cons.1 h
    obtain ⟨hss, hregions⟩ := List.forall_mem_append.1 hbelow
    obtain rfl := hs.kind rfl
    rw [written, unplaced, unplacedChildren, writtenList_eq_unplacedList ss hss,
      writtenScopes_eq_unplacedScopes regions hregions]

theorem writtenList_eq_unplacedList :
    ∀ ss : List State, (∀ t ∈ nodesList ss, t.Coherent) → writtenList ss = unplacedList ss
  | [], _ => rfl
  | s :: ss, h => by
    obtain ⟨hs, hss⟩ := List.forall_mem_append.1 h
    rw [writtenList, unplacedList, written_eq_unplaced s hs, writtenList_eq_unplacedList ss hss]

theorem writtenScopes_eq_unplacedScopes :
    ∀ rs : List (Scope State), (∀ t ∈ nodesScopes rs, t.Coherent) →
      writtenScopes rs = unplacedScopes rs
  | [], _ => rfl
  | ⟨states, _, _⟩ :: rs, h => by
    obtain ⟨hstates, hrs⟩ := List.forall_mem_append.1 h
    rw [writtenScopes, unplacedScopes, writtenList_eq_unplacedList states hstates,
      writtenScopes_eq_unplacedScopes rs hrs]

end

/-! ### Finding a state -/

mutual

/-- A state is found by `find?` if and only if its id is there. -/
theorem isSome_find? (i : String) : ∀ s : State, (s.find? i).isSome = true ↔ i ∈ s.ids
  | ⟨id, _, _, children, _, _, _, regions, _⟩ => by
    rw [find?, ids]
    by_cases h : id = i
    · simp [h]
    · simp [h, Ne.symm h, isSome_findChildren? i children, isSome_findScopes? i regions]

theorem isSome_findChildren? (i : String) :
    ∀ c : Option (List State), (findChildren? i c).isSome = true ↔ i ∈ idsChildren c
  | none => by simp [findChildren?, idsChildren]
  | some ss => isSome_findList? i ss

theorem isSome_findList? (i : String) :
    ∀ ss : List State, (findList? i ss).isSome = true ↔ i ∈ idsList ss
  | [] => by simp [findList?, idsList]
  | s :: ss => by simp [findList?, idsList, isSome_find? i s, isSome_findList? i ss]

theorem isSome_findScopes? (i : String) :
    ∀ rs : List (Scope State), (findScopes? i rs).isSome = true ↔ i ∈ idsScopes rs
  | [] => by simp [findScopes?, idsScopes]
  | ⟨states, _, _⟩ :: rs => by
    simp [findScopes?, idsScopes, isSome_findList? i states, isSome_findScopes? i rs]

end

theorem findList?_append (i : String) (ss ts : List State) :
    findList? i (ss ++ ts) = (findList? i ss).or (findList? i ts) := by
  induction ss with
  | nil => rfl
  | cons s ss ih => rw [List.cons_append, findList?, findList?, ih, Option.or_assoc]

theorem find?_id (s : State) : s.find? s.id = some s := by
  cases s
  rw [find?, if_pos rfl]

theorem findList?_eq_none {i : String} {ss : List State} (h : i ∉ idsList ss) :
    findList? i ss = none := by
  rw [← isSome_findList?, Bool.not_eq_true, Option.isSome_eq_false_iff,
    Option.isNone_iff_eq_none] at h
  exact h

theorem findScopes?_eq_none {i : String} {rs : List (Scope State)} (h : i ∉ idsScopes rs) :
    findScopes? i rs = none := by
  rw [← isSome_findScopes?, Bool.not_eq_true, Option.isSome_eq_false_iff,
    Option.isNone_iff_eq_none] at h
  exact h

/-! ### Changing a state -/

variable {i o : String} {f g : State → State}

theorem modify_id (s : State) : s.modify s.id f = f s := by
  cases s
  rw [modify, if_pos rfl]

mutual

/-- Changing a state that is not there changes nothing: `modify` looks at ids only. -/
theorem modify_of_not_mem : ∀ s : State, i ∉ s.ids → s.modify i f = s
  | ⟨id, _, _, children, _, _, _, regions, _⟩, h => by
    rw [ids, List.mem_cons, List.mem_append, not_or, not_or] at h
    rw [modify, if_neg (Ne.symm h.1), modifyChildren_of_not_mem children h.2.1,
      modifyScopes_of_not_mem regions h.2.2]

theorem modifyChildren_of_not_mem :
    ∀ c : Option (List State), i ∉ idsChildren c → modifyChildren i f c = c
  | none, _ => rfl
  | some ss, h => congrArg some (modifyList_of_not_mem ss h)

theorem modifyList_of_not_mem : ∀ ss : List State, i ∉ idsList ss → modifyList i f ss = ss
  | [], _ => rfl
  | s :: ss, h => by
    rw [idsList, List.mem_append, not_or] at h
    rw [modifyList, modify_of_not_mem s h.1, modifyList_of_not_mem ss h.2]

theorem modifyScopes_of_not_mem :
    ∀ rs : List (Scope State), i ∉ idsScopes rs → modifyScopes i f rs = rs
  | [], _ => rfl
  | ⟨states, _, _⟩ :: rs, h => by
    rw [idsScopes, List.mem_append, not_or] at h
    rw [modifyScopes, modifyList_of_not_mem states h.1, modifyScopes_of_not_mem rs h.2]

end

mutual

/-- What is changed behind a change is changed in the state that was changed, if it is new, for it
is nowhere else. -/
theorem modify_modify_of_not_mem {g' : State → State}
    (hg : ∀ t, t.id = o → i ∉ t.ids → (g t).modify i f = g' t) :
    ∀ s : State, i ∉ s.ids → (s.modify o g).modify i f = s.modify o g'
  | ⟨id, label, kind, children, transitions, notes, direction, regions, position⟩, h => by
    rw [modify, modify]
    by_cases ho : id = o
    · rw [if_pos ho, if_pos ho]
      exact hg _ ho h
    · rw [ids, List.mem_cons, List.mem_append, not_or, not_or] at h
      rw [if_neg ho, if_neg ho, modify, if_neg (Ne.symm h.1),
        modifyChildren_modifyChildren_of_not_mem hg children h.2.1,
        modifyScopes_modifyScopes_of_not_mem hg regions h.2.2]

theorem modifyChildren_modifyChildren_of_not_mem {g' : State → State}
    (hg : ∀ t, t.id = o → i ∉ t.ids → (g t).modify i f = g' t) :
    ∀ c : Option (List State), i ∉ idsChildren c →
      modifyChildren i f (modifyChildren o g c) = modifyChildren o g' c
  | none, _ => rfl
  | some ss, h => congrArg some (modifyList_modifyList_of_not_mem hg ss h)

theorem modifyList_modifyList_of_not_mem {g' : State → State}
    (hg : ∀ t, t.id = o → i ∉ t.ids → (g t).modify i f = g' t) :
    ∀ ss : List State, i ∉ idsList ss →
      modifyList i f (modifyList o g ss) = modifyList o g' ss
  | [], _ => rfl
  | s :: ss, h => by
    rw [idsList, List.mem_append, not_or] at h
    rw [modifyList, modifyList, modifyList, modify_modify_of_not_mem hg s h.1,
      modifyList_modifyList_of_not_mem hg ss h.2]

theorem modifyScopes_modifyScopes_of_not_mem {g' : State → State}
    (hg : ∀ t, t.id = o → i ∉ t.ids → (g t).modify i f = g' t) :
    ∀ rs : List (Scope State), i ∉ idsScopes rs →
      modifyScopes i f (modifyScopes o g rs) = modifyScopes o g' rs
  | [], _ => rfl
  | ⟨states, _, _⟩ :: rs, h => by
    rw [idsScopes, List.mem_append, not_or] at h
    rw [modifyScopes, modifyScopes, modifyScopes, modifyList_modifyList_of_not_mem hg states h.1,
      modifyScopes_modifyScopes_of_not_mem hg rs h.2]

end

mutual

/-- A state is changed twice as by one change, if the first change `f` keeps its id, by which the
second finds it. -/
theorem modify_modify (hf : ∀ t, (f t).id = t.id) :
    ∀ s : State, (s.modify i f).modify i g = s.modify i fun t => g (f t)
  | ⟨id, label, kind, children, transitions, notes, direction, regions, position⟩ => by
    rw [modify, modify]
    by_cases hi : id = i
    · subst hi
      rw [if_pos rfl, if_pos rfl]
      let t : State := ⟨id, label, kind, children, transitions, notes, direction, regions, position⟩
      have hid : (f t).id = id := hf t
      have hmodify := modify_id (f := g) (f t)
      rwa [hid] at hmodify
    · rw [if_neg hi, if_neg hi, modify, if_neg hi, modifyChildren_modifyChildren hf children,
        modifyScopes_modifyScopes hf regions]

theorem modifyChildren_modifyChildren (hf : ∀ t, (f t).id = t.id) :
    ∀ c : Option (List State),
      modifyChildren i g (modifyChildren i f c) = modifyChildren i (fun t => g (f t)) c
  | none => rfl
  | some ss => congrArg some (modifyList_modifyList hf ss)

theorem modifyList_modifyList (hf : ∀ t, (f t).id = t.id) :
    ∀ ss : List State, modifyList i g (modifyList i f ss) = modifyList i (fun t => g (f t)) ss
  | [] => rfl
  | s :: ss => by
    rw [modifyList, modifyList, modifyList, modify_modify hf s, modifyList_modifyList hf ss]

theorem modifyScopes_modifyScopes (hf : ∀ t, (f t).id = t.id) :
    ∀ rs : List (Scope State),
      modifyScopes i g (modifyScopes i f rs) = modifyScopes i (fun t => g (f t)) rs
  | [] => rfl
  | ⟨states, _, _⟩ :: rs => by
    rw [modifyScopes, modifyScopes, modifyScopes, modifyList_modifyList hf states,
      modifyScopes_modifyScopes hf rs]

end

theorem modifyList_append (ss ts : List State) :
    modifyList i f (ss ++ ts) = modifyList i f ss ++ modifyList i f ts := by
  induction ss with
  | nil => rfl
  | cons s ss ih => rw [List.cons_append, modifyList, modifyList, ih, List.cons_append]

/-! ### The ids of changed states -/

mutual

/-- A change `f` that keeps ids keeps the ids of the whole, wherever the changed state is. -/
theorem mem_ids_modify (hf : ∀ t, ∀ j ∈ t.ids, j ∈ (f t).ids) :
    ∀ s : State, ∀ j ∈ s.ids, j ∈ (s.modify i f).ids
  | ⟨id, _, _, children, _, _, _, regions, _⟩, j, hj => by
    rw [modify]
    split
    · exact hf _ j hj
    · rw [ids, List.mem_cons, List.mem_append] at hj ⊢
      exact hj.imp_right (Or.imp (mem_idsChildren_modify hf children j)
        (mem_idsScopes_modify hf regions j))

theorem mem_idsChildren_modify (hf : ∀ t, ∀ j ∈ t.ids, j ∈ (f t).ids) :
    ∀ c : Option (List State), ∀ j ∈ idsChildren c, j ∈ idsChildren (modifyChildren i f c)
  | none, _, hj => hj
  | some ss, j, hj => mem_idsList_modify hf ss j hj

theorem mem_idsList_modify (hf : ∀ t, ∀ j ∈ t.ids, j ∈ (f t).ids) :
    ∀ ss : List State, ∀ j ∈ idsList ss, j ∈ idsList (modifyList i f ss)
  | [], _, hj => hj
  | s :: ss, j, hj => by
    rw [modifyList]
    rw [idsList, List.mem_append] at hj ⊢
    exact hj.imp (mem_ids_modify hf s j) (mem_idsList_modify hf ss j)

theorem mem_idsScopes_modify (hf : ∀ t, ∀ j ∈ t.ids, j ∈ (f t).ids) :
    ∀ rs : List (Scope State), ∀ j ∈ idsScopes rs, j ∈ idsScopes (modifyScopes i f rs)
  | [], _, hj => hj
  | ⟨states, _, _⟩ :: rs, j, hj => by
    rw [modifyScopes]
    rw [idsScopes, List.mem_append] at hj ⊢
    exact hj.imp (mem_idsList_modify hf states j) (mem_idsScopes_modify hf rs j)

end

mutual

/-- The ids after a change were there before it, or are new by the change. This bounds
`mem_ids_modify` from above. -/
theorem mem_ids_of_modify {xs : List String} (hf : ∀ t, ∀ j ∈ (f t).ids, j ∈ t.ids ∨ j ∈ xs) :
    ∀ s : State, ∀ j ∈ (s.modify i f).ids, j ∈ s.ids ∨ j ∈ xs
  | ⟨id, _, _, children, _, _, _, regions, _⟩, j, hj => by
    rw [modify] at hj
    split at hj
    · exact hf _ j hj
    · rw [ids, List.mem_cons, List.mem_append] at hj ⊢
      rcases hj with hj | hj | hj
      · exact .inl (.inl hj)
      · exact (mem_idsChildren_of_modify hf children j hj).imp_left fun h => .inr (.inl h)
      · exact (mem_idsScopes_of_modify hf regions j hj).imp_left fun h => .inr (.inr h)

theorem mem_idsChildren_of_modify {xs : List String}
    (hf : ∀ t, ∀ j ∈ (f t).ids, j ∈ t.ids ∨ j ∈ xs) :
    ∀ c : Option (List State), ∀ j ∈ idsChildren (modifyChildren i f c), j ∈ idsChildren c ∨ j ∈ xs
  | none, _, hj => .inl hj
  | some ss, j, hj => mem_idsList_of_modify hf ss j hj

theorem mem_idsList_of_modify {xs : List String}
    (hf : ∀ t, ∀ j ∈ (f t).ids, j ∈ t.ids ∨ j ∈ xs) :
    ∀ ss : List State, ∀ j ∈ idsList (modifyList i f ss), j ∈ idsList ss ∨ j ∈ xs
  | [], _, hj => .inl hj
  | s :: ss, j, hj => by
    rw [modifyList] at hj
    rw [idsList, List.mem_append] at hj ⊢
    rcases hj with hj | hj
    · exact (mem_ids_of_modify hf s j hj).imp_left .inl
    · exact (mem_idsList_of_modify hf ss j hj).imp_left .inr

theorem mem_idsScopes_of_modify {xs : List String}
    (hf : ∀ t, ∀ j ∈ (f t).ids, j ∈ t.ids ∨ j ∈ xs) :
    ∀ rs : List (Scope State), ∀ j ∈ idsScopes (modifyScopes i f rs), j ∈ idsScopes rs ∨ j ∈ xs
  | [], _, hj => .inl hj
  | ⟨states, _, _⟩ :: rs, j, hj => by
    rw [modifyScopes] at hj
    rw [idsScopes, List.mem_append] at hj ⊢
    rcases hj with hj | hj
    · exact (mem_idsList_of_modify hf states j hj).imp_left .inl
    · exact (mem_idsScopes_of_modify hf rs j hj).imp_left .inr

end

/-! ### Finding what a change has put somewhere -/

mutual

/-- A new state `s₀` is found behind a change as what the change has put there, since no other part
has its id. -/
theorem eq_of_find?_modify {s₀ : State}
    (hf : ∀ u, u.id = o → i ∉ u.ids → ∀ t, (f u).find? i = some t → t = s₀) :
    ∀ s : State, i ∉ s.ids → ∀ t, (s.modify o f).find? i = some t → t = s₀
  | ⟨id, label, kind, children, transitions, notes, direction, regions, position⟩, h, t, ht => by
    rw [modify] at ht
    split at ht
    · exact hf _ ‹_› h t ht
    · rw [ids, List.mem_cons, List.mem_append, not_or, not_or] at h
      rw [find?, if_neg (Ne.symm h.1), Option.or_eq_some_iff] at ht
      rcases ht with ht | ⟨-, ht⟩
      · exact eq_of_findChildren?_modify hf children h.2.1 t ht
      · exact eq_of_findScopes?_modify hf regions h.2.2 t ht

theorem eq_of_findChildren?_modify {s₀ : State}
    (hf : ∀ u, u.id = o → i ∉ u.ids → ∀ t, (f u).find? i = some t → t = s₀) :
    ∀ c : Option (List State), i ∉ idsChildren c →
      ∀ t, findChildren? i (modifyChildren o f c) = some t → t = s₀
  | none, _, _, ht => by cases ht
  | some ss, h, t, ht => eq_of_findList?_modify hf ss h t ht

theorem eq_of_findList?_modify {s₀ : State}
    (hf : ∀ u, u.id = o → i ∉ u.ids → ∀ t, (f u).find? i = some t → t = s₀) :
    ∀ ss : List State, i ∉ idsList ss → ∀ t, findList? i (modifyList o f ss) = some t → t = s₀
  | [], _, _, ht => by cases ht
  | s :: ss, h, t, ht => by
    rw [idsList, List.mem_append, not_or] at h
    rw [modifyList, findList?, Option.or_eq_some_iff] at ht
    rcases ht with ht | ⟨-, ht⟩
    · exact eq_of_find?_modify hf s h.1 t ht
    · exact eq_of_findList?_modify hf ss h.2 t ht

theorem eq_of_findScopes?_modify {s₀ : State}
    (hf : ∀ u, u.id = o → i ∉ u.ids → ∀ t, (f u).find? i = some t → t = s₀) :
    ∀ rs : List (Scope State), i ∉ idsScopes rs →
      ∀ t, findScopes? i (modifyScopes o f rs) = some t → t = s₀
  | [], _, _, ht => by cases ht
  | ⟨states, _, _⟩ :: rs, h, t, ht => by
    rw [idsScopes, List.mem_append, not_or] at h
    rw [modifyScopes, findScopes?, Option.or_eq_some_iff] at ht
    rcases ht with ht | ⟨-, ht⟩
    · exact eq_of_findList?_modify hf states h.1 t ht
    · exact eq_of_findScopes?_modify hf rs h.2 t ht

end

end DiagramText.States.State
