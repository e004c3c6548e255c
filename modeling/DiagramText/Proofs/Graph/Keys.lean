import DiagramText.Graph.OfDiagram
import DiagramText.Proofs.States.Integrity
import DiagramText.Proofs.States.Readable
import DiagramText.Proofs.Text.Digits
import DiagramText.Proofs.Token.Name
import Mathlib.Data.List.Basic
import Mathlib.Data.List.Nodup

/-!
# The names of states and the ids of pseudostates

A state gets its id from the token that mentions it first, and from then on nothing changes it. In
any text, whatever its blanks are, this token is an identifier: a name of words joined by hyphens.

* `States.isHyphenated_of_mem_row`: the identifiers of a text are such names.
* `States.Draft.Named`: all states have such names.
* `States.Draft.keeps_named`: each step of reading keeps this.
* `StateDiagram.isHyphenated_of_isRead`: so they have in a diagram that was read.

Each scope has pseudostates of its own, so their ids in a graph are made of the key of the scope and
of the pseudostate, with a slash between them. The key of a region is that of its state with the
number of the region, with a colon between them. Neither character is in the name of a state, so no
two scopes have the same key, and no two pseudostates the same id.

* `Graph.nodup_keys`: the keys of scopes are different.
* `Graph.endId_inj`: the id of a pseudostate tells its scope, and which pseudostate it is.
* `Graph.endId_ne`: it is not the name of a state.
-/

namespace DiagramText

open Text Reading

namespace States

/-- An identifier `t` of a text is a name by itself, as its lexeme does not depend on what stands
around it. -/
theorem isHyphenated_of_mem_row {s : Segment} (hs : s.dialect = .states) :
    ∀ t ∈ s.row, t.kind = .identifier → IsHyphenated t.text := by
  intro t ht hkind
  have hmem : t ∈ s.tokens := (List.dropLast_sublist _).subset (List.mem_of_mem_filter ht)
  rw [Segment.tokens, hs] at hmem
  have halone := (Token.alone_scan Dialect.regular_states hmem (s.below_tokens.inner t ht)).1
  rw [hkind] at halone
  cases halone with
  | lexeme hfirst =>
    have hrule : ∀ r ∈ Rule.common ++ Dialect.stateRules, r.1 = .identifier →
        r.2 = Measure.hyphenated := by
      simp [Rule.common, Dialect.stateRules, Rule.punctuation]
    obtain ⟨r, hr, hrkind, hlength, hne⟩ := Rule.exists_of_first hfirst (by decide)
    rw [hrule r hr hrkind] at hlength
    exact Measure.covers_iff.2 ⟨hlength ▸ hne, hlength⟩

/-! ### Named drafts -/

/-- A draft `d` in which all states have names of words joined by hyphens. -/
def Draft.Named (d : Draft) : Prop := ∀ i ∈ d.ids, IsHyphenated i

namespace Draft.Named

open State

variable {d : Draft} {f : State → State}

theorem empty (version : Version) : Named { version } := List.forall_mem_nil _

/-- A change `f` that puts nothing into the scopes of a state keeps all names. -/
theorem modify (h : d.Named) (hputs : Puts f []) (i : String) : (d.modify i f).Named := by
  intro j hj
  rcases mem_idsList_of_modify (fun t _ ht => hputs.mem_of_mem_ids (t := t) ht)
    d.scope.states j hj with hj | hj
  · exact h j hj
  · cases hj

theorem decorate (h : d.Named) (hf : Decorates f) (i : String) : (d.modify i f).Named :=
  h.modify (.of_eq (fun t => (hf.parts t).1) hf.inner) i

theorem add (h : d.Named) {y : Scope State} (hy : ∀ i ∈ idsList y.states, IsHyphenated i) :
    (d.add y).Named := fun i hi => (mem_ids_of_add hi).elim (h i) (hy i)

/-- What has no states, as a transition or a note, adds no names. -/
theorem add_of_states_eq_nil (h : d.Named) {y : Scope State} (hy : y.states = []) :
    (d.add y).Named := by
  apply h.add
  rw [hy]
  exact List.forall_mem_nil _

theorem mention (h : d.Named) {t : Token} (ht : IsHyphenated t.text) : (d.mention t).Named := by
  by_cases hmem : t.text ∈ d.ids
  · rwa [mention_of_mem hmem]
  · rw [mention_of_not_mem hmem]
    exact h.add (List.forall_mem_singleton.2 ht)

theorem openScope (h : d.Named) (i : String) : (d.openScope i).Named :=
  h.modify (f := fun t => { t with children := some (t.children.getD []) })
    (.of_eq (fun _ => rfl) inner_children) i

theorem nextRegion (h : d.Named) : d.nextRegion.Named := by
  unfold Draft.nextRegion
  split
  · exact h
  · exact h.modify (f := fun t => { t with regions := t.regions ++ [{}] })
      (.of_eq (fun _ => rfl) inner_region) _

theorem setDirection (h : d.Named) (x : Direction) : (d.setDirection x).Named := by
  unfold Draft.setDirection
  split
  · exact h
  · exact h.decorate (f := fun t => { t with direction := some x }) (fun _ => rfl) _

end Draft.Named

/-- A state gets its name from the token that mentions it first, and keeps it in every step of
reading. -/
theorem Draft.keeps_named : Draft.Keeps (fun d => d.Intact ∧ d.Named) IsHyphenated where
  intact h := h.1
  name h := isPseudostate_of_isHyphenated h
  empty version := ⟨keeps_intact.empty version, .empty version⟩
  decorate h hf i := ⟨keeps_intact.decorate h.1 hf i, h.2.decorate hf i⟩
  mention h ht := ⟨keeps_intact.mention h.1 (isPseudostate_of_isHyphenated ht), h.2.mention ht⟩
  openScope h hi := ⟨keeps_intact.openScope h.1 hi, h.2.openScope _⟩
  closeScope h := ⟨keeps_intact.closeScope h.1, h.2⟩
  nextRegion h := ⟨keeps_intact.nextRegion h.1, h.2.nextRegion⟩
  setDirection h x := ⟨keeps_intact.setDirection h.1 x, h.2.setDirection x⟩
  addTransition h hsource htarget :=
    ⟨keeps_intact.addTransition h.1 hsource htarget, h.2.add_of_states_eq_nil rfl⟩
  addNote h hstate := ⟨keeps_intact.addNote h.1 hstate, h.2.add_of_states_eq_nil rfl⟩

end States

namespace StateDiagram

open States

variable {d : StateDiagram}

/-- The states of a diagram `d` that was read have names of words joined by hyphens, whatever blanks
its document has. -/
theorem isHyphenated_of_isRead (h : (Diagram.states d).IsRead) :
    ∀ i ∈ State.idsList d.scope.states, IsHyphenated i := by
  apply h.of_ensures (x := States.read) (Q := fun d : StateDiagram => d.draft.Named)
    (P := fun c => ∃ ts n, (∀ t ∈ ts, t.kind = .identifier → IsHyphenated t.text) ∧
      c.Below ts n)
  · exact fun _ _ => Diagram.states.inj
  · rfl
  · exact fun s hs => ⟨s.row, s.row.length + 1, isHyphenated_of_mem_row hs, s.below_tokens⟩
  · exact (ensures_read_kept Draft.keeps_named).imp_right fun _ _ hd => hd.2

end StateDiagram
end DiagramText

namespace DiagramText.Graph

open Text States

variable {s : State} {ss : List State} {scope : KeyedScope} {key key' : Option String}
  {id other i j : String} {m n : Nat}

/-! ### Separators -/

/-- A character `c` that belongs to no word and is no hyphen is not in a name. -/
theorem not_mem_of_isHyphenated (h : IsHyphenated id) {c : Char} (hword : isAsciiWord c = false)
    (hhyphen : c ≠ '-') : c ∉ id.toList := by
  intro hc
  obtain ⟨d, ds, hid, hd, hds⟩ := h.exists_cons
  rw [hid] at hc
  rcases List.mem_cons.1 hc with rfl | hc
  · rw [hd] at hword
    cases hword
  · rcases hds c hc with hc | rfl
    · rw [hc] at hword
      cases hword
    · exact hhyphen rfl

theorem toList_region (id : String) (n : Nat) :
    (s!"{id}:{n}").toList = id.toList ++ ':' :: (toString n).toList := by
  show (id ++ ":" ++ toString n).toList = _
  rw [String.toList_append, String.toList_append, List.append_assoc]
  rfl

theorem toList_qualified (key id : String) :
    (s!"{key}/{id}").toList = key.toList ++ '/' :: id.toList := by
  show (key ++ "/" ++ id).toList = _
  rw [String.toList_append, String.toList_append, List.append_assoc]
  rfl

/-- No digit `c` separates anything. -/
theorem not_mem_toString {c : Char} (hc : c.isDigit = false) : c ∉ (toString n).toList := by
  intro hmem
  rw [isDigit_of_mem_toString c hmem] at hc
  cases hc

/-! ### Keys -/

/-- The key of a region is not that of a state `s`, since it has a colon. -/
theorem region_ne (h : IsHyphenated id) : id ≠ s!"{other}:{n}" := by
  intro heq
  apply not_mem_of_isHyphenated h (c := ':') (by decide) (by decide)
  rw [heq, toList_region]
  exact List.mem_append_right _ List.mem_cons_self

/-- The key of a region tells the state `s` and the number of the region, since the first colon
stands between them. -/
theorem region_inj (h : IsHyphenated id) (heq : s!"{id}:{m}" = s!"{other}:{n}") :
    id = other ∧ m = n := by
  have hlist := congrArg String.toList heq
  rw [toList_region, toList_region, List.append_cons_inj_of_notMem
    (not_mem_of_isHyphenated h (by decide) (by decide)) (not_mem_toString (by decide))] at hlist
  obtain ⟨hid, -, hnumber⟩ := hlist
  refine ⟨String.toList_inj.1 hid, ?_⟩
  rw [← decimalValue_toString m, ← decimalValue_toString n, hnumber]

/-- The scopes of a state `s` have its name as a key, or the keys of its regions, if it has
several. -/
theorem key_of_mem_keyedScopes (h : scope ∈ keyedScopes s) :
    scope.1 = some s.id ∨ ∃ n : Nat, scope.1 = some s!"{s.id}:{n}" := by
  unfold keyedScopes at h
  rcases List.mem_cons.1 h with rfl | h
  · exact .inl rfl
  · obtain ⟨i, hi, rfl⟩ := List.mem_mapIdx.1 h
    exact .inr ⟨i + 2, rfl⟩

/-- A state `s` has as many different keys as it has scopes, so no two of its regions share one. -/
theorem nodup_keys_keyedScopes (h : IsHyphenated s.id) :
    ((keyedScopes s).map Prod.fst).Nodup := by
  unfold keyedScopes
  rw [List.map_cons, List.nodup_cons]
  constructor
  · intro hmem
    obtain ⟨scope, hscope, hkey⟩ := List.mem_map.1 hmem
    obtain ⟨i, hi, rfl⟩ := List.mem_mapIdx.1 hscope
    exact region_ne h (Option.some.inj hkey).symm
  · apply List.pairwise_iff_getElem.2
    intro a b ha hb hlt heq
    rw [List.getElem_map, List.getElem_map, List.getElem_mapIdx, List.getElem_mapIdx] at heq
    have hnumber := (region_inj h (Option.some.inj heq)).2
    omega

/-- The keys of the outermost scope and of those of states `ss` with different names are
different. -/
theorem nodup_keys (hnodup : (ss.map State.id).Nodup) (hnames : ∀ s ∈ ss, IsHyphenated s.id) :
    (none :: (ss.flatMap keyedScopes).map Prod.fst).Nodup := by
  rw [List.nodup_cons, List.map_flatMap]
  constructor
  · intro hmem
    obtain ⟨s, -, hs⟩ := List.mem_flatMap.1 hmem
    obtain ⟨scope, hscope, hkey⟩ := List.mem_map.1 hs
    rcases key_of_mem_keyedScopes hscope with hsome | ⟨n, hsome⟩
    · exact nomatch hkey.symm.trans hsome
    · exact nomatch hkey.symm.trans hsome
  · rw [List.nodup_flatMap]
    refine ⟨fun s hs => nodup_keys_keyedScopes (hnames s hs), ?_⟩
    apply (List.pairwise_map.1 hnodup).imp_of_mem
    intro s t hs ht hne k hks hkt
    obtain ⟨x, hx, rfl⟩ := List.mem_map.1 hks
    obtain ⟨y, hy, hkey⟩ := List.mem_map.1 hkt
    apply hne
    -- both keys are names or both are those of regions, and either tells the state
    rcases key_of_mem_keyedScopes hx with hx | ⟨m, hx⟩
    · rcases key_of_mem_keyedScopes hy with hy | ⟨n, hy⟩
      · exact Option.some.inj (hx.symm.trans (hkey.symm.trans hy))
      · exact absurd (Option.some.inj (hx.symm.trans (hkey.symm.trans hy)))
          (region_ne (hnames s hs))
    · rcases key_of_mem_keyedScopes hy with hy | ⟨n, hy⟩
      · exact absurd (Option.some.inj (hy.symm.trans (hkey.trans hx))) (region_ne (hnames t ht))
      · exact (region_inj (hnames s hs) (Option.some.inj (hx.symm.trans (hkey.symm.trans hy)))).1

/-- No key of a scope of a state `s` with a name has a slash. So a slash can separate a key from
what follows it. -/
theorem not_slash_of_mem_keyedScopes (h : IsHyphenated s.id) (hscope : scope ∈ keyedScopes s) :
    ∀ k ∈ scope.1, '/' ∉ k.toList := by
  intro k hk
  have hid : '/' ∉ s.id.toList := not_mem_of_isHyphenated h (by decide) (by decide)
  rcases key_of_mem_keyedScopes hscope with heq | ⟨n, heq⟩
  · obtain rfl := Option.some.inj (heq.symm.trans hk)
    exact hid
  · obtain rfl := Option.some.inj (heq.symm.trans hk)
    rw [toList_region, List.mem_append, List.mem_cons, not_or, not_or]
    exact ⟨hid, by decide, not_mem_toString (by decide)⟩

/-! ### Pseudostates -/

theorem eq_of_isPseudostate (h : isPseudostate i = true) : i = startId ∨ i = States.endId := by
  simpa [isPseudostate] using h

theorem not_slash_of_isPseudostate (h : isPseudostate i = true) : '/' ∉ i.toList := by
  rcases eq_of_isPseudostate h with rfl | rfl
  · decide
  · decide

/-- In the outermost scope a pseudostate keeps its id, in others it gets one with a slash. -/
theorem toList_endId (h : isPseudostate i = true) (key : Option String) :
    (Graph.endId key i).toList = (key.map fun k => k.toList ++ ['/']).getD [] ++ i.toList := by
  unfold Graph.endId
  rw [if_pos h]
  cases key with
  | none => rfl
  | some k =>
    show (s!"{k}/{i}").toList = (k.toList ++ ['/']) ++ i.toList
    rw [toList_qualified, List.append_assoc]
    rfl

/-- The id of a pseudostate `i` in a graph tells the key of its scope, and which pseudostate it
is. -/
theorem endId_inj (hi : isPseudostate i = true) (hj : isPseudostate j = true)
    (hkey : ∀ k ∈ key, '/' ∉ k.toList) (h : Graph.endId key i = Graph.endId key' j) :
    key = key' ∧ i = j := by
  have hlist := congrArg String.toList h
  rw [toList_endId hi, toList_endId hj] at hlist
  have hislash := not_slash_of_isPseudostate hi
  have hjslash := not_slash_of_isPseudostate hj
  cases key with
  | none =>
    cases key' with
    | none => exact ⟨rfl, String.toList_inj.1 hlist⟩
    | some k' =>
      -- one of them has a slash and the other has none
      refine absurd ?_ hislash
      rw [show i.toList = _ from hlist]
      simp
  | some k =>
    cases key' with
    | none =>
      refine absurd ?_ hjslash
      rw [show j.toList = _ from hlist.symm]
      simp
    | some k' =>
      have hsplit : k.toList ++ '/' :: i.toList = k'.toList ++ '/' :: j.toList := by
        simpa using hlist
      rw [List.append_cons_inj_of_notMem (hkey k rfl) hislash] at hsplit
      exact ⟨congrArg some (String.toList_inj.1 hsplit.1), String.toList_inj.1 hsplit.2.2⟩

/-- The id of a pseudostate `i` is not the name of a state, as it has a bracket or a slash. -/
theorem endId_ne (h : IsHyphenated id) (hi : isPseudostate i = true) (key : Option String) :
    Graph.endId key i ≠ id := by
  rintro rfl
  apply not_mem_of_isHyphenated h (c := '*') (by decide) (by decide)
  rw [toList_endId hi]
  apply List.mem_append_right
  rcases eq_of_isPseudostate hi with rfl | rfl
  · decide
  · decide

end DiagramText.Graph
