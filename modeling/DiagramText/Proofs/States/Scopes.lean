import DiagramText.Proofs.States.Notes

/-!
# Reading back the scopes of state diagrams

The states of a diagram are written scope by scope, each before the transitions and notes of its
scope. A state that is mentioned in a scope is read into that scope unless it is there already, so
the scopes of a diagram read back if every state is written before it is mentioned.

* `States.State.isOrdered`: every state that a scope mentions is written before it.
* `States.State.Readable`: the names, labels and notes can stand in a document.
* `States.readsLines_tree`: the lines of a tree of states are read as a tree of the same outline.
-/

namespace DiagramText

open Text Reading

namespace States

/-! ### Order -/

/-- The states that `transitions` and `notes` mention. The sides of a scope are none. -/
def mentioned (transitions : List Transition) (notes : List Note) : List String :=
  (transitions.flatMap fun t => [t.source, t.target]).filter (!isPseudostate ·) ++
    notes.map Note.state

namespace State

mutual

/-- Whether every state that is mentioned in the scopes of a state is `known` or written before it.
The state itself is, since its line opens them. -/
def isOrdered (known : List String) : State → Bool
  | ⟨id, _, _, children, transitions, notes, _, regions, _⟩ =>
    isOrderedChildren (known ++ [id]) children &&
      (mentioned transitions notes).all (· ∈ known ++ id :: idsChildren children) &&
      isOrderedScopes (known ++ id :: idsChildren children) regions

/-- Whether every state that is mentioned in the scopes of children is `known` or written before, if
there are children. -/
def isOrderedChildren (known : List String) : Option (List State) → Bool
  | none => true
  | some ss => isOrderedList known ss

/-- Whether every state that is mentioned in the scopes of states is `known` or written before:
those of a state are known to the ones after it. -/
def isOrderedList (known : List String) : List State → Bool
  | [] => true
  | s :: ss => s.isOrdered known && isOrderedList (known ++ s.ids) ss

/-- Whether every state that is mentioned in scopes is `known` or written before, first the states
of a scope and then what mentions them. -/
def isOrderedScopes (known : List String) : List (Scope State) → Bool
  | [] => true
  | ⟨states, transitions, notes⟩ :: rs =>
    isOrderedList known states &&
      (mentioned transitions notes).all (· ∈ known ++ idsList states) &&
      isOrderedScopes (known ++ idsList states) rs

end

/-- The scopes of a state `s`, the first region first. A simple state has one too, which is
empty. -/
def scopes (s : State) : List (Scope State) := s.ownScope :: s.regions

end State

/-! ### Parts that can stand in a document -/

/-- A scope `y` of which the transitions and notes can stand in a document, whatever states it
holds. -/
structure Scope.Readable (y : Scope State) : Prop where
  transitions : ∀ t ∈ y.transitions, t.Readable
  notes : ∀ n ∈ y.notes, n.Readable

/-- A state `s` of which all parts can stand in a document, without the states in its scopes. A
state without a scope of its own has no further regions. -/
structure State.Readable (s : State) : Prop where
  id : IsHyphenated s.id
  label : ∀ l ∈ s.label, IsLabel l
  scopes : ∀ y ∈ s.scopes, y.Readable
  regions : s.children = none → s.regions = []

/-- A state `s` whose label is not empty and has no blanks around it, and with no line of a note
that starts a diagram. -/
structure State.Clear (s : State) : Prop where
  label : ∀ l ∈ s.label, IsTrimmed l
  notes : ∀ y ∈ s.scopes, ∀ n ∈ y.notes, n.Uncut

/-! ### The lines of a scope -/

section Scopes

variable {layout : Layout} (hlayout : layout.IsBlank) (depth : Nat) {d : Draft}

include hlayout

/-- The lines of transitions `ts` between states that are there already are read as the transitions,
up to positions. -/
theorem readsLines_transitions (hd : d.Ready) {ts : List Transition}
    (h : ∀ t ∈ ts, t.Readable) (hmem : ∀ i ∈ mentioned ts [], i ∈ d.ids) :
    ∃ ts', ts'.map Transition.unplaced = ts.map Transition.unplaced ∧
      ReadsLines .states statement d (ts.map fun t => layout.line depth t.text)
        (d.add { transitions := ts' }) := by
  -- The draft grows by a transition a line, and its ids stay.
  induction ts generalizing d with
  | nil =>
    refine ⟨[], rfl, ?_⟩
    rw [hd.add_empty]
    exact .nil
  | cons t ts ih =>
    obtain ⟨ht, h⟩ := List.forall_mem_cons.1 h
    have hends : ∀ i ∈ [t.source, t.target], isPseudostate i = false → i ∈ d.ids := by
      intro i hi hpseudo
      refine hmem i (List.mem_append_left _ (List.mem_filter.2 ⟨?_, by simp [hpseudo]⟩))
      exact List.mem_flatMap.2 ⟨t, List.mem_cons_self, hi⟩
    have hsource : t.source = startId ∨ t.source ∈ d.ids := ht.source.imp_right fun hid =>
      hends _ (by simp) (isPseudostate_of_isHyphenated hid)
    have htarget : t.target = endId ∨ t.target ∈ d.ids := ht.target.imp_right fun hid =>
      hends _ (by simp) (isPseudostate_of_isHyphenated hid)
    obtain ⟨ts', hts', hrest⟩ := ih (hd.add { transitions :=
      [{ t with position := some .origin }] }) h
      fun i hi => Draft.mem_ids_add (hmem i (by
        simp only [mentioned, List.flatMap_cons, List.filter_append, List.map_nil, List.append_nil,
          List.mem_append] at hi ⊢
        exact .inr hi)) _
    refine ⟨{ t with position := some .origin } :: ts', by rw [List.map_cons, hts']; rfl, ?_⟩
    rw [Draft.add_add] at hrest
    exact (readsLines_transition hlayout depth ht hsource htarget).append hrest

/-- The lines of notes `ns` about states that are there already are read as the notes. -/
theorem readsLines_notes (hd : d.Ready) {ns : List Note} (h : ∀ n ∈ ns, n.Readable)
    (huncut : ∀ n ∈ ns, n.Uncut) (hmem : ∀ n ∈ ns, n.state ∈ d.ids) :
    ReadsLines .states statement d (ns.flatMap (Note.lines layout depth))
      (d.add { notes := ns }) := by
  induction ns generalizing d with
  | nil =>
    rw [hd.add_empty]
    exact .nil
  | cons n ns ih =>
    obtain ⟨hn, h⟩ := List.forall_mem_cons.1 h
    obtain ⟨hnone, huncut⟩ := List.forall_mem_cons.1 huncut
    obtain ⟨hstate, hmem⟩ := List.forall_mem_cons.1 hmem
    have hrest := ih (hd.add { notes := [n] }) h huncut fun m hm => Draft.mem_ids_add (hmem m hm) _
    rw [Draft.add_add] at hrest
    exact (readsLines_note hlayout depth hn hnone hstate).append hrest

/-- The lines of a scope `y` are read as the scope, if those of its states are read as the states
and all that it mentions is known by then. -/
theorem readsLines_scope (hd : d.Ready) {y : Scope State} (hy : y.Readable)
    (huncut : ∀ n ∈ y.notes, n.Uncut) {known : List String} (hknown : ∀ i ∈ known, i ∈ d.ids)
    (hmem : ∀ i ∈ mentioned y.transitions y.notes, i ∈ known ++ State.idsList y.states)
    (hstates : ∃ ss, State.unplacedList ss = State.writtenList y.states ∧
      ReadsLines .states statement d
        ((agenda layout).lines (y.states.flatMap (State.items layout depth)))
        (d.add { states := ss })) :
    ∃ z : Scope State, State.unplacedScopes [z] = State.writtenScopes [y] ∧
      ReadsLines .states statement d ((agenda layout).lines (scopeItems layout depth y))
        (d.add z) := by
  obtain ⟨ss, hss, hstates⟩ := hstates
  let e := d.add { states := ss }
  have he : e.Ready := hd.add { states := ss }
  -- the states of the scope are there before its transitions and notes
  have hthere : ∀ i ∈ mentioned y.transitions y.notes, i ∈ e.ids := by
    intro i hi
    rcases List.mem_append.1 (hmem i hi) with hi | hi
    · exact hd.mem_add (.inl (hknown i hi))
    · refine hd.mem { states := ss } i ?_
      rwa [State.idsList_congr hss]
  obtain ⟨ts, hts, htransitions⟩ := readsLines_transitions hlayout depth he hy.transitions
    fun i hi => hthere i (List.mem_append_left _ (by simpa [mentioned] using hi))
  have hnotes := readsLines_notes hlayout depth (he.add { transitions := ts }) hy.notes huncut
    fun n hn => Draft.mem_ids_add (hthere n.state
      (List.mem_append_right _ (List.mem_map_of_mem hn))) _
  refine ⟨⟨ss, ts, y.notes⟩, State.unplacedScopes_singleton_iff.2 ⟨hss, hts, rfl⟩, ?_⟩
  rw [scopeItems, Agenda.lines_append, Agenda.lines_lines, Agenda.lines_nil, List.append_nil]
  have hall := hstates.append (htransitions.append hnotes)
  rw [Draft.add_add, Draft.add_add] at hall
  simpa [Scope.append] using hall

end Scopes

/-! ### The lines of a tree -/

variable {layout : Layout}

theorem flatten_composite (depth : Nat) {s : State} (h : s.children.isSome = true) :
    (agenda layout).lines (s.items layout depth) =
      layout.line depth s!"state {s.id} \x7b" ::
        (s.direction.map fun x => layout.line (depth + 1) s!"direction {x.name}").toList ++
      ((agenda layout).lines (scopeItems layout (depth + 1) s.ownScope) ++
        ((agenda layout).lines (s.regions.flatMap (regionItems layout (depth + 1))) ++
          ([layout.line depth "\x7d"] ++ s.labelLines layout depth))) := by
  have hcomposite : s.isComposite = true := h
  rw [State.items, if_pos hcomposite]
  simp [Agenda.lines_append]

theorem flatten_simple (depth : Nat) {s : State} (h : s.children = none) :
    (agenda layout).lines (s.items layout depth) =
      [layout.line depth s.declaration] ++ s.labelLines layout depth := by
  have hsimple : ¬s.isComposite = true := by rw [State.isComposite, h]; decide
  rw [State.items, if_neg hsimple]
  rw [Agenda.lines_lines, Agenda.lines_nil, List.append_nil]
  rfl

/-- The lines of a new state `s` without a scope of its own: its declaration and its label. -/
theorem readsLines_simple (hlayout : layout.IsBlank) (depth : Nat) {d : Draft} (hd : d.Ready)
    {s : State} (hread : s.Readable) (hclear : s.Clear) (hchildren : s.children = none)
    (hid : s.id ∉ d.ids) :
    ReadsLines .states statement d ((agenda layout).lines (s.items layout depth))
      (d.add { states := [
        { id := s.id, label := s.label, kind := s.kind, position := some .origin }] }) := by
  rw [flatten_simple depth hchildren]
  refine (readsLines_declaration hlayout depth hread.id hid).append ?_
  exact readsLines_labelLines hlayout depth hd hread.id rfl rfl hid
    fun l hl => ⟨hread.label l hl, hclear.label l hl⟩

/-- The line that opens a new state and that of its direction, behind which the first region is
read. -/
theorem readsLines_opening (hlayout : layout.IsBlank) (depth : Nat) {d : Draft} {id : String}
    (h : IsHyphenated id) (hid : id ∉ d.ids) (direction : Option Direction) :
    ReadsLines .states statement d
      (layout.line depth s!"state {id} \x7b" ::
        (direction.map fun x => layout.line (depth + 1) s!"direction {x.name}").toList)
      (d.inside { id, children := some [], direction, position := some .origin } 0) := by
  have hbrace := readsLines_open hlayout depth h hid
  cases direction with
  | none => exact hbrace
  | some x =>
    have hdirection := readsLines_direction hlayout (depth + 1)
      (d.inside { id, children := some [], position := some .origin } 0) x
    rw [Draft.setDirection_inside hid] at hdirection
    exact hbrace.append hdirection

/-- The states of a further region come last in the ids of the state `s`. -/
theorem State.ids_append_region (s : State) (r : Scope State) :
    ({ s with regions := s.regions ++ [r] } : State).ids = s.ids ++ State.idsList r.states := by
  cases s
  simp [State.ids, State.idsScopes_append, State.idsScopes]

/-- What is read into an empty last region of `s` is that region, found by its number. -/
theorem State.modifyRegion_append_region (s : State) (y : Scope State) :
    ({ s with regions := s.regions ++ [{}] } : State).modifyRegion (s.regions.length + 1)
      (·.append y) = { s with regions := s.regions ++ [y] } := by
  have hlast : (s.regions ++ [({} : Scope State)]).modify s.regions.length (·.append y) =
      s.regions ++ [y] := by
    rw [State.modify_length_append, Scope.empty_append]
  simp only [State.modifyRegion, hlast]

mutual

/-- The lines of a new state `s` are read as the state, up to what no line says. This and the next
two theorems are one induction over the tree. -/
theorem readsLines_tree (hlayout : layout.IsBlank) : ∀ (s : State) (depth : Nat) (d : Draft)
    (known : List String), d.Ready →
    (∀ i ∈ known, i ∈ d.ids) → (∀ t ∈ s.nodes, t.Readable ∧ t.Clear) → (∀ i ∈ s.ids, i ∉ d.ids) →
    s.ids.Nodup → s.isOrdered known = true →
    ∃ t, t.unplaced = s.written ∧ ReadsLines .states statement d
      ((agenda layout).lines (s.items layout depth)) (d.add { states := [t] })
  | ⟨id, label, kind, none, transitions, notes, direction, regions, position⟩, depth, d, known,
    hd, hknown, h, hnew, hnodup, hord => by
    let s : State := ⟨id, label, kind, none, transitions, notes, direction, regions, position⟩
    obtain ⟨hread, hclear⟩ := h s (by rw [State.nodes_eq]; exact List.mem_cons_self)
    obtain rfl : regions = [] := hread.regions rfl
    exact ⟨{ id, label, kind, position := some .origin }, rfl,
      readsLines_simple hlayout depth hd hread hclear rfl (hnew id List.mem_cons_self)⟩
  | ⟨id, label, kind, some ss, transitions, notes, direction, regions, position⟩, depth, d, known,
    hd, hknown, h, hnew, hnodup, hord => by
    let s : State := ⟨id, label, kind, some ss, transitions, notes, direction, regions, position⟩
    obtain ⟨⟨hread, hclear⟩, hbelow⟩ := List.forall_mem_cons.1 h
    obtain ⟨hss, hregions⟩ := List.forall_mem_append.1 hbelow
    obtain ⟨hid, hnewBelow⟩ := List.forall_mem_cons.1 hnew
    obtain ⟨hnewss, hnewRegions⟩ := List.forall_mem_append.1 hnewBelow
    obtain ⟨hidBelow, hnodupBelow⟩ := List.nodup_cons.1 hnodup
    obtain ⟨hnodupss, hnodupRegions, hdisjoint⟩ := List.nodup_append.1 hnodupBelow
    rw [State.isOrdered, Bool.and_eq_true, Bool.and_eq_true] at hord
    obtain ⟨⟨hordss, hmentioned⟩, hordRegions⟩ := hord
    obtain ⟨hown, hparts⟩ := List.forall_mem_cons.1 hread.scopes
    obtain ⟨hownNotes, hnotes⟩ := List.forall_mem_cons.1 hclear.notes
    -- the state is opened, and its direction is set
    let s₁ : State := { id, children := some [], direction, position := some .origin }
    have hopen := readsLines_opening hlayout depth hread.id hid direction
    -- its first region is read inside it
    have hinside : (d.inside s₁ 0).Ready := hd.inside hid rfl (Nat.zero_le _)
    have hids₁ : s₁.ids = [id] := rfl
    have hknown₁ : ∀ i ∈ known ++ [id], i ∈ (d.inside s₁ 0).ids :=
      List.forall_mem_append.2 ⟨fun i hi => hd.mem_inside (.inl (hknown i hi)),
        fun i hi => hd.mem_inside (.inr hi)⟩
    have hnew₁ : ∀ i ∈ State.idsList ss, i ∉ (d.inside s₁ 0).ids := by
      intro i hi hmem
      rcases Draft.mem_ids_of_inside hmem with hmem | hmem
      · exact hnewss i hi hmem
      · obtain rfl : i = id := List.mem_singleton.1 hmem
        exact hidBelow (List.mem_append_left _ hi)
    have hmentioned₁ : ∀ i ∈ mentioned transitions notes,
        i ∈ known ++ [id] ++ State.idsList ss := by
      intro i hi
      simpa [State.idsChildren] using List.all_eq_true.1 hmentioned i hi
    obtain ⟨y, hy, hscope⟩ := readsLines_scope hlayout (depth + 1) hinside hown hownNotes hknown₁
      hmentioned₁ (readsLines_list hlayout ss (depth + 1) (d.inside s₁ 0)
        (known ++ [id]) hinside hknown₁
        hss hnew₁ hnodupss hordss)
    let s₂ : State := { s₁ with
      children := some y.states, transitions := y.transitions, notes := y.notes }
    have hs₂ : s₁.modifyRegion 0 (·.append y) = s₂ := by
      simp [State.modifyRegion, State.ownScope, Scope.append, s₁, s₂]
    rw [Draft.modifyScope_inside hid, hs₂] at hscope
    obtain ⟨hstates, htransitions, hnotes'⟩ := State.unplacedScopes_singleton_iff.1 hy
    -- the other regions are read behind it
    have hids₂ : s₂.ids = id :: State.idsList ss := by
      show id :: (State.idsList y.states ++ []) = _
      rw [List.append_nil, State.idsList_congr hstates]
      rfl
    have hknown₂ : ∀ i ∈ known ++ id :: State.idsList ss, i ∈ d.ids ∨ i ∈ s₂.ids :=
      List.forall_mem_append.2 ⟨fun i hi => .inl (hknown i hi), fun i hi => .inr (hids₂ ▸ hi)⟩
    have hnew₂ : ∀ i ∈ State.idsScopes regions, i ∉ d.ids ∧ i ∉ s₂.ids := by
      intro i hi
      refine ⟨hnewRegions i hi, ?_⟩
      rw [hids₂, List.mem_cons, not_or]
      refine ⟨?_, fun hmem => hdisjoint i hmem i hi rfl⟩
      rintro rfl
      exact hidBelow (List.mem_append_right _ hi)
    obtain ⟨rs, region, hrs, hrest⟩ := readsLines_regions hlayout regions (depth + 1) d
      (known ++ id :: State.idsList ss) s₂ 0 hd hid rfl hknown₂ hregions
      (fun r hr => ⟨hparts r hr, hnotes r hr⟩) hnew₂ hnodupRegions hordRegions
    -- the brace closes it, and its label is put into it
    let s₃ : State := { s₂ with regions := rs }
    have hclose := readsLines_close (d := d) hlayout depth s₃ region
    have hid₃ : s₃.id = s.id := rfl
    have hlabel := readsLines_labelLines hlayout depth hd hread.id hid₃ rfl hid
      fun l hl => ⟨hread.label l hl, hclear.label l hl⟩
    refine ⟨{ s₃ with label }, ?_, ?_⟩
    · show (⟨id, label, .simple, some (State.unplacedList y.states),
        y.transitions.map Transition.unplaced, y.notes, direction, State.unplacedScopes rs, none⟩ :
          State) = _
      rw [hstates, htransitions, hnotes', hrs]
      rfl
    show ReadsLines _ _ _ ((agenda layout).lines (s.items layout depth)) _
    rw [flatten_composite depth (s := s) rfl]
    exact hopen.append (hscope.append (hrest.append (hclose.append hlabel)))

/-- The lines of new states `ss` are read as the states, one after the other. -/
theorem readsLines_list (hlayout : layout.IsBlank) : ∀ (ss : List State) (depth : Nat) (d : Draft)
    (known : List String), d.Ready → (∀ i ∈ known, i ∈ d.ids) →
    (∀ t ∈ State.nodesList ss, t.Readable ∧ t.Clear) →
    (∀ i ∈ State.idsList ss, i ∉ d.ids) → (State.idsList ss).Nodup →
    State.isOrderedList known ss = true →
    ∃ ts, State.unplacedList ts = State.writtenList ss ∧ ReadsLines .states statement d
      ((agenda layout).lines (ss.flatMap (State.items layout depth))) (d.add { states := ts })
  | [], depth, d, known, hd, hknown, h, hnew, hnodup, hord => by
    refine ⟨[], rfl, ?_⟩
    rw [hd.add_empty, List.flatMap_nil, Agenda.lines_nil]
    exact .nil
  | s :: ss, depth, d, known, hd, hknown, h, hnew, hnodup, hord => by
    rw [State.nodesList] at h
    rw [State.idsList] at hnew hnodup
    rw [State.isOrderedList, Bool.and_eq_true] at hord
    obtain ⟨hs, hss⟩ := List.forall_mem_append.1 h
    obtain ⟨hnews, hnewss⟩ := List.forall_mem_append.1 hnew
    obtain ⟨hnodups, hnodupss, hdisjoint⟩ := List.nodup_append.1 hnodup
    -- What the first state is read as has its ids, so the others are still new behind it.
    obtain ⟨t, ht, hfirst⟩ := readsLines_tree hlayout s depth d known hd hknown hs hnews hnodups
        hord.1
    have hids : State.idsList [t] = s.ids := by rw [State.idsList_singleton, State.ids_congr ht]
    obtain ⟨ts, hts, hrest⟩ := readsLines_list hlayout ss depth (d.add { states := [t] })
        (known ++ s.ids)
      (hd.add _)
      (List.forall_mem_append.2 ⟨fun i hi => hd.mem_add (.inl (hknown i hi)),
        fun i hi => hd.mem_add (.inr (hids ▸ hi))⟩) hss
      (fun i hi hmem => by
        rcases Draft.mem_ids_of_add hmem with hmem | hmem
        · exact hnewss i hi hmem
        · exact hdisjoint i (hids ▸ hmem) i hi rfl) hnodupss hord.2
    refine ⟨t :: ts, by rw [State.unplacedList, State.writtenList, ht, hts], ?_⟩
    rw [Draft.add_add] at hrest
    rw [List.flatMap_cons, Agenda.lines_append]
    exact hfirst.append hrest

/-- The lines of further regions `rs` are read as the regions, each behind its separator. -/
theorem readsLines_regions (hlayout : layout.IsBlank) : ∀ (rs : List (Scope State))
    (depth : Nat) (d : Draft) (known : List String) (s : State) (region : Nat), d.Ready →
      s.id ∉ d.ids →
    s.children.isSome = true → (∀ i ∈ known, i ∈ d.ids ∨ i ∈ s.ids) →
    (∀ t ∈ State.nodesScopes rs, t.Readable ∧ t.Clear) →
    (∀ r ∈ rs, r.Readable ∧ ∀ n ∈ r.notes, n.Uncut) →
    (∀ i ∈ State.idsScopes rs, i ∉ d.ids ∧ i ∉ s.ids) → (State.idsScopes rs).Nodup →
    State.isOrderedScopes known rs = true →
    ∃ (qs : List (Scope State)) (region' : Nat),
      State.unplacedScopes qs = State.writtenScopes rs ∧
      ReadsLines .states statement (d.inside s region)
        ((agenda layout).lines (rs.flatMap (regionItems layout depth)))
        (d.inside { s with regions := s.regions ++ qs } region')
  | [], depth, d, known, s, region, hd, hs, hchildren, hknown, h, hparts, hnew, hnodup, hord => by
    refine ⟨[], region, rfl, ?_⟩
    have hsame : { s with regions := s.regions ++ [] } = s := by cases s; simp
    rw [List.flatMap_nil, Agenda.lines_nil, hsame]
    exact .nil
  | ⟨ss, transitions, notes⟩ :: rs, depth, d, known, s, region, hd, hs, hchildren, hknown, h,
    hparts, hnew, hnodup, hord => by
    obtain ⟨hss, hrs⟩ := List.forall_mem_append.1 h
    obtain ⟨⟨hread, hnotes⟩, hparts⟩ := List.forall_mem_cons.1 hparts
    obtain ⟨hnewss, hnewrs⟩ := List.forall_mem_append.1 hnew
    obtain ⟨hnodupss, hnoduprs, hdisjoint⟩ := List.nodup_append.1 hnodup
    rw [State.isOrderedScopes, Bool.and_eq_true, Bool.and_eq_true] at hord
    obtain ⟨⟨hordss, hmentioned⟩, hordrs⟩ := hord
    -- an empty region is opened
    let s₁ : State := { s with regions := s.regions ++ [{}] }
    have hids₁ : s₁.ids = s.ids := (s.ids_append_region {}).trans (List.append_nil _)
    have hseparator := readsLines_separator hlayout depth hd hs region
    have hinside : (d.inside s₁ (s.regions.length + 1)).Ready :=
      hd.inside hs hchildren (by simp [s₁])
    have hknown₁ : ∀ i ∈ known, i ∈ (d.inside s₁ (s.regions.length + 1)).ids := fun i hi =>
      hd.mem_inside (hids₁ ▸ hknown i hi)
    have hnew₁ : ∀ i ∈ State.idsList ss, i ∉ (d.inside s₁ (s.regions.length + 1)).ids := by
      intro i hi hmem
      rcases Draft.mem_ids_of_inside hmem with hmem | hmem
      · exact (hnewss i hi).1 hmem
      · exact (hnewss i hi).2 (hids₁ ▸ hmem)
    obtain ⟨y, hy, hscope⟩ := readsLines_scope hlayout depth hinside hread hnotes hknown₁
      (fun i hi => by simpa using List.all_eq_true.1 hmentioned i hi)
      (readsLines_list hlayout ss depth _ known hinside hknown₁ hss hnew₁ hnodupss hordss)
    let s₂ : State := { s with regions := s.regions ++ [y] }
    have hscope' := Draft.modifyScope_inside (s := s₁) hs (s.regions.length + 1) y
    rw [s.modifyRegion_append_region y] at hscope'
    rw [hscope'] at hscope
    have hids₂ : s₂.ids = s.ids ++ State.idsList ss := by
      rw [s.ids_append_region y, State.idsList_congr (State.unplacedScopes_singleton_iff.1 hy).1]
    have hknown₂ : ∀ i ∈ known ++ State.idsList ss, i ∈ d.ids ∨ i ∈ s₂.ids := by
      rw [hids₂]
      exact List.forall_mem_append.2
        ⟨fun i hi => (hknown i hi).imp_right (List.mem_append_left _),
          fun i hi => .inr (List.mem_append_right _ hi)⟩
    have hnew₂ : ∀ i ∈ State.idsScopes rs, i ∉ d.ids ∧ i ∉ s₂.ids := by
      intro i hi
      rw [hids₂, List.mem_append, not_or]
      exact ⟨(hnewrs i hi).1, (hnewrs i hi).2, fun hmem => hdisjoint i hmem i hi rfl⟩
    obtain ⟨qs, region', hqs, hrest⟩ := readsLines_regions hlayout rs depth d
      (known ++ State.idsList ss) s₂ (s.regions.length + 1) hd hs hchildren hknown₂ hrs hparts
      hnew₂ hnoduprs hordrs
    refine ⟨y :: qs, region', ?_, ?_⟩
    · have hcons := congrArg₂ (· ++ ·) hy hqs
      simp only [← State.unplacedScopes_append] at hcons
      exact hcons
    have hcons : s₂.regions ++ qs = s.regions ++ y :: qs := by simp [s₂]
    rw [hcons] at hrest
    have hlines : (agenda layout).lines ((⟨ss, transitions, notes⟩ :: rs :
        List (Scope State)).flatMap
        (regionItems layout depth)) = [layout.line depth "--"] ++
          ((agenda layout).lines (scopeItems layout depth ⟨ss, transitions, notes⟩) ++
            (agenda layout).lines (rs.flatMap (regionItems layout depth))) := by
      rw [List.flatMap_cons, regionItems, List.cons_append, List.cons_append, List.nil_append,
        Agenda.lines_lines, Agenda.lines_body, agenda_items]
    rw [hlines]
    exact hseparator.append (hscope.append hrest)

end

end States
end DiagramText
