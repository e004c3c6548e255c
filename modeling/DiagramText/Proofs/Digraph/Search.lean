import DiagramText.Digraph
import Mathlib.Data.Finset.Max
import Mathlib.Data.List.Chain
import Mathlib.Data.List.Nodup
import Mathlib.Data.List.Rotate
import Mathlib.Data.List.TakeWhile

/-!
# What the search for a cycle finds

The search keeps the path from its first node to the node it is at. It does not cut the path back
when it leaves a node, but only before the next arc that it follows; so between two arcs the path
may be too long, and what is kept is that the stack of the search is the end of it. An explored node
leads only to explored nodes, which is why the search can pass over arcs into them.

* `Digraph.IsCycle`: distinct nodes with arcs from each to the next and from the last to the first.
* `Digraph.Search`: what is known of a search before each of its steps.
* `Digraph.isCycle_of_cycle?`: what the search finds is a cycle.
* `Digraph.cycle?_eq_none_of_rank`: nothing is found where every arc leads to a higher rank.
-/

namespace DiagramText.Digraph

/-! ### Cycles -/

/-- Distinct nodes `ns`, each with an arc to the next one, and the last with an arc to the first. -/
structure IsCycle (g : Digraph) (ns : List String) : Prop where
  ne_nil : ns ≠ []
  nodup : ns.Nodup
  arcs : ns.zip (ns.rotate 1) ⊆ g.arcs

/-- Arcs of which each starts where the one before it ends. -/
def Chained (arcs : List Arc) : Prop := arcs.IsChain fun a b => a.2 = b.1

/-- The heads of chained `arcs` that come back to the first node `n` are their tails, moved by
one. -/
theorem map_snd_eq_rotate {arcs : List Arc} {n : String} (h : Chained arcs)
    (hfirst : arcs.head?.map Prod.fst = some n) (hlast : arcs.getLast?.map Prod.snd = some n) :
    arcs.map Prod.snd = (arcs.map Prod.fst).rotate 1 := by
  -- without the return to the first node, the head of the last arc takes its place
  have hheads : ∀ (arcs : List Arc) (a : Arc), Chained (a :: arcs) → ∀ m,
      (a :: arcs).getLast?.map Prod.snd = some m →
        (a :: arcs).map Prod.snd = arcs.map Prod.fst ++ [m] := by
    intro arcs
    induction arcs with
    | nil =>
      intro a _ m hm
      simpa using hm
    | cons b arcs ih =>
      intro a hchain m hm
      obtain ⟨hab, hrest⟩ := List.isChain_cons_cons.1 hchain
      rw [List.map_cons, ih b hrest m (by simpa [List.getLast?_cons] using hm), hab]
      rfl
  cases arcs with
  | nil => cases hfirst
  | cons a arcs =>
    have hn : a.1 = n := Option.some.inj hfirst
    rw [hheads arcs a h n hlast, List.map_cons, hn, List.rotate_cons_succ, List.rotate_zero]

/-- Chained `arcs` of a graph between distinct nodes that come back to the first are a cycle of
their tails. -/
theorem isCycle_of_chained {g : Digraph} {arcs : List Arc} {n : String} (h : Chained arcs)
    (hfirst : arcs.head?.map Prod.fst = some n) (hlast : arcs.getLast?.map Prod.snd = some n)
    (hnodup : (arcs.map Prod.fst).Nodup) (harcs : arcs ⊆ g.arcs) :
    g.IsCycle (arcs.map Prod.fst) := by
  constructor
  · intro hnil
    rw [List.map_eq_nil_iff] at hnil
    rw [hnil] at hfirst
    cases hfirst
  · exact hnodup
  · have hzip : (arcs.map Prod.fst).zip (arcs.map Prod.snd) = arcs := by
      rw [List.zip_map']
      exact List.map_id arcs
    rw [← map_snd_eq_rotate h hfirst hlast, hzip]
    exact harcs

/-- Every node of a cycle `ns` has an arc to a node of the cycle. -/
theorem IsCycle.exists_arc {g : Digraph} {ns : List String} (h : g.IsCycle ns) {n : String}
    (hn : n ∈ ns) : ∃ m ∈ ns, (n, m) ∈ g.arcs := by
  obtain ⟨i, hi, rfl⟩ := List.mem_iff_getElem.1 hn
  have hrotate : i < (ns.rotate 1).length := by
    rw [List.length_rotate]
    exact hi
  refine ⟨(ns.rotate 1)[i], ?_, h.arcs ?_⟩
  · rw [← List.mem_rotate (n := 1)]
    exact List.getElem_mem hrotate
  · have hzip : i < (ns.zip (ns.rotate 1)).length := by
      rw [List.length_zip]
      omega
    rw [← List.getElem_zip (h := hzip)]
    exact List.getElem_mem hzip

/-! ### The path of a search -/

namespace Trail

/-- `Leads source path n`: the arcs of the path lead from `source` to `n`, the latest arc first. -/
inductive Leads (source : String) : List Arc → String → Prop
  | nil : Leads source [] source
  | cons {path : List Arc} {n : String} (h : Leads source path n) (m : String) :
    Leads source ((n, m) :: path) m

variable {source n : String} {path : List Arc} {active : List String} {t : Trail}

/-- The nodes of a path from `source`, the latest first. -/
def nodesOf (source : String) (path : List Arc) : List String := path.map Prod.snd ++ [source]

theorem Leads.exists_nodesOf (h : Leads source path n) : ∃ ns, nodesOf source path = n :: ns := by
  cases h with
  | nil => exact ⟨[], rfl⟩
  | cons h m => exact ⟨_, rfl⟩

theorem Leads.chained (h : Leads source path n) :
    Chained path.reverse ∧ ∀ a ∈ path.reverse.getLast?, a.2 = n := by
  induction h with
  | nil => exact ⟨List.isChain_nil, nofun⟩
  | @cons path n h m ih =>
    rw [List.reverse_cons]
    constructor
    · rw [Chained, List.isChain_append]
      refine ⟨ih.1, List.isChain_singleton _, ?_⟩
      intro a ha b hb
      obtain rfl : (n, m) = b := Option.some.inj hb
      exact ih.2 a ha
    · intro a ha
      rw [List.getLast?_concat] at ha
      rw [← Option.some.inj ha]

/-- The tails of the arcs of a path are its nodes without the last one, `n`. -/
theorem Leads.map_fst (h : Leads source path n) :
    (n :: path.map Prod.fst) = nodesOf source path := by
  induction h with
  | nil => rfl
  | @cons path n h m ih => rw [List.map_cons, ih]; rfl

/-- The path is cut back to the node `n`, which is on it and is not its last one. -/
theorem cutBack_eq {a : Arc} (h : Leads source (a :: path) a.2) (hn : n ∈ nodesOf source path)
    (hne : n ≠ a.2) : ∃ path', Leads source path' n ∧ path' <:+ path ∧
      cutBack n (a :: path) (nodesOf source (a :: path)) = (path', nodesOf source path') := by
  induction path generalizing a with
  | nil =>
    obtain rfl := List.mem_singleton.1 hn
    exact ⟨[], .nil, List.nil_suffix, rfl⟩
  | cons b path ih =>
    obtain ⟨tail, head⟩ := a
    obtain ⟨tail', head'⟩ := b
    have herase : (nodesOf source ((tail, head) :: (tail', head') :: path)).erase head =
        nodesOf source ((tail', head') :: path) := List.erase_cons_head ..
    have hbefore : Leads source ((tail', head') :: path) head' := by
      cases h with
      | cons h m =>
        cases h with
        | cons h m => exact .cons h _
    -- Once the last arc is gone, `n` is the new last node, or is further back.
    rw [cutBack, herase]
    split
    · next heq => exact ⟨_, heq ▸ hbefore, List.suffix_refl _, rfl⟩
    · next heq =>
      have hmem : n ∈ nodesOf source path := by
        have hcons : n ∈ head' :: nodesOf source path := hn
        exact (List.mem_cons.1 hcons).resolve_left (Ne.symm heq)
      obtain ⟨path', hpath', hsuffix, hcut⟩ := ih hbefore hmem (Ne.symm heq)
      exact ⟨path', hpath', hsuffix.trans (List.suffix_cons _ _), hcut⟩

/-- What is known of a search at an arc: the path is one in the graph, and its nodes are the active
ones, which are distinct and have been seen. -/
structure Sound (g : Digraph) (source : String) (t : Trail) : Prop where
  leads : ∃ n, Leads source t.path n ∧ ∀ m ∈ t.lastHead, m = n
  lastHead : t.lastHead = none → t.path = []
  arcs : t.path ⊆ g.arcs
  active : t.active = nodesOf source t.path
  nodup : t.active.Nodup
  seen : t.active ⊆ t.seen

variable {g : Digraph}

theorem sound_start (g : Digraph) (source : String) : Sound g source (start source) where
  leads := ⟨source, .nil, nofun⟩
  lastHead _ := rfl
  arcs := List.nil_subset _
  active := rfl
  nodup := List.nodup_singleton source
  seen := List.Subset.refl _

/-- The nodes that were come to stay so where the path is cut back. -/
theorem seen_backTo (t : Trail) (n : String) : (t.backTo n).seen = t.seen := by
  unfold backTo
  split <;> rfl

/-- Before an arc out of an active node `n` the path ends at that node, if need be because it was
cut back to it. -/
theorem Sound.backTo (h : t.Sound g source) (hn : n ∈ t.active) :
    Leads source (t.backTo n).path n ∧ (t.backTo n).path <:+ t.path ∧
      (t.backTo n).active = nodesOf source (t.backTo n).path := by
  obtain ⟨m, hleads, hlast⟩ := h.leads
  -- The path ends at the node already, or no arc was followed yet.
  by_cases hback : t.lastHead.all (· == n) = true
  · rw [Trail.backTo, if_pos hback]
    refine ⟨?_, List.suffix_refl _, h.active⟩
    cases hhead : t.lastHead with
    | none =>
      rw [h.active, h.lastHead hhead] at hn
      rw [h.lastHead hhead, List.mem_singleton.1 hn]
      exact .nil
    | some k =>
      rw [hhead] at hback hlast
      have hkn : k = n := by simpa using hback
      rwa [← hkn, hlast k rfl]
  · -- an arc was followed to another node, so there is a path to cut back
    obtain ⟨k, hk, hkn⟩ : ∃ k, t.lastHead = some k ∧ k ≠ n := by
      cases hhead : t.lastHead with
      | none => simp [hhead] at hback
      | some k => exact ⟨k, rfl, by simpa [hhead] using hback⟩
    rw [hk] at hlast
    obtain rfl := hlast k rfl
    cases hpath : t.path with
    | nil =>
      rw [h.active, hpath] at hn
      rw [hpath] at hleads
      cases hleads
      exact absurd (List.mem_singleton.1 hn).symm hkn
    | cons a path =>
      rw [hpath] at hleads
      have ha : k = a.2 := by
        cases hleads
        rfl
      have hmem : n ∈ nodesOf source path := by
        rw [h.active, hpath] at hn
        have hcons : n ∈ a.2 :: nodesOf source path := hn
        exact (List.mem_cons.1 hcons).resolve_left (Ne.symm (ha ▸ hkn))
      obtain ⟨path', hpath', hsuffix, hcut⟩ :=
        cutBack_eq (ha ▸ hleads) hmem (Ne.symm (ha ▸ hkn))
      rw [Trail.backTo, if_neg hback, h.active, hpath, hcut]
      exact ⟨hpath', hsuffix.trans (List.suffix_cons _ _), rfl⟩

/-- An arc from the end `n` of a path back to an active node `m` closes a cycle, which is the part
of the path behind `m` with that arc. -/
theorem isCycle_cycleAt {m : String} (hleads : Leads source path n)
    (hnodup : (nodesOf source path).Nodup) (harcs : (n, m) :: path ⊆ g.arcs)
    (hm : m ∈ nodesOf source path) : g.IsCycle (cycleAt m ((n, m) :: path)) := by
  obtain ⟨hchain, hlast⟩ := (hleads.cons m).chained
  have hfst : ((n, m) :: path).reverse.map Prod.fst = (nodesOf source path).reverse := by
    rw [List.map_reverse, ← hleads.map_fst]
    rfl
  have hsuffix := List.dropWhile_suffix (l := ((n, m) :: path).reverse) (·.1 != m)
  -- some arc leaves the node, so the path does not drop away
  have hne : ((n, m) :: path).reverse.dropWhile (·.1 != m) ≠ [] := by
    rw [Ne, List.dropWhile_eq_nil_iff]
    intro hall
    have hmem : m ∈ ((n, m) :: path).reverse.map Prod.fst := by
      rw [hfst]
      exact List.mem_reverse.2 hm
    obtain ⟨a, ha, ham⟩ := List.mem_map.1 hmem
    simpa [ham] using hall a ha
  unfold cycleAt
  apply isCycle_of_chained (n := m)
  · exact hchain.infix hsuffix.isInfix
  · have hhead := List.head_dropWhile_not (·.1 != m) (l := ((n, m) :: path).reverse) hne
    rw [List.head?_eq_some_head hne]
    simpa using hhead
  · have hgetLast : (((n, m) :: path).reverse.dropWhile (·.1 != m)).getLast? =
        ((n, m) :: path).reverse.getLast? := by
      obtain ⟨taken, htaken⟩ := hsuffix
      conv_rhs => rw [← htaken, List.getLast?_append_of_ne_nil _ hne]
    rw [hgetLast, List.reverse_cons, List.getLast?_concat]
    rfl
  · have hsub := (hsuffix.map Prod.fst).sublist
    rw [hfst] at hsub
    exact hsub.nodup (List.nodup_reverse.2 hnodup)
  · intro a ha
    exact harcs (List.mem_reverse.1 (hsuffix.subset ha))

/-- Following an arc out of an active node gives a cycle, or a path that is one arc longer than the
part of the path before it that leads to the node. -/
theorem Sound.follow (h : t.Sound g source) {arc : Arc} (harc : arc ∈ g.arcs)
    (hactive : arc.1 ∈ t.active) :
    (∃ ns, t.follow arc = .inl ns ∧ g.IsCycle ns) ∨
      ∃ t' ns, t.follow arc = .inr t' ∧ t'.Sound g source ∧ t'.seen = arc.2 :: t.seen ∧
        t'.active = arc.2 :: arc.1 :: ns ∧ arc.1 :: ns <:+ t.active := by
  obtain ⟨n, m⟩ := arc
  obtain ⟨hleads, hsuffix, hnodes⟩ := h.backTo hactive
  have hback : (t.backTo n).active <:+ t.active := by
    rw [hnodes, h.active]
    obtain ⟨taken, htaken⟩ := hsuffix
    exact ⟨taken.map Prod.snd, by simp [nodesOf, ← htaken]⟩
  have hnodup : (t.backTo n).active.Nodup := hback.sublist.nodup h.nodup
  have harcs : (n, m) :: (t.backTo n).path ⊆ g.arcs :=
    List.cons_subset.2 ⟨harc, fun a ha => h.arcs (hsuffix.subset ha)⟩
  -- If the head of the arc is active, the arc leads back onto the path, and otherwise the path gets
  -- longer by the arc.
  by_cases hm : m ∈ (t.backTo n).active
  · left
    refine ⟨_, if_pos (List.contains_iff_mem.2 hm), ?_⟩
    rw [hnodes] at hm hnodup
    exact isCycle_cycleAt hleads hnodup harcs hm
  · right
    obtain ⟨ns, hns⟩ := hleads.exists_nodesOf
    have hnew : ¬(t.backTo n).active.contains m = true :=
      fun hcontains => hm (List.contains_iff_mem.1 hcontains)
    refine ⟨_, ns, if_neg hnew, ?_, ?_, ?_, ?_⟩
    · constructor
      · refine ⟨m, hleads.cons m, ?_⟩
        intro k hk
        exact (Option.some.inj hk).symm
      · exact nofun
      · exact harcs
      · rw [hnodes]
        rfl
      · exact List.nodup_cons.2 ⟨hm, hnodup⟩
      · rw [seen_backTo]
        exact List.cons_subset_cons m fun k hk => h.seen (hback.subset hk)
    · rw [seen_backTo]
    · rw [hnodes, hns]
    · rw [← hns, ← hnodes]
      exact hback

end Trail

/-! ### The stack of a search -/

/-- Nodes from which no arc leads to other nodes, as it is with the nodes that were explored. -/
def Closed (g : Digraph) (ns : List String) : Prop := ∀ a ∈ g.arcs, a.1 ∈ ns → a.2 ∈ ns

/-- What is known of a search from the node `source`, with its `stack` and its `unused` arcs, given
the nodes explored before it. -/
structure Search (g : Digraph) (explored : List String) (source : String) (stack : List String)
    (unused : List Arc) (t : Trail) : Prop where
  sound : t.Sound g source
  /-- Above the end of the path the stack holds only explored nodes. -/
  piled : ∃ top below, stack = top ++ below ∧ top ⊆ explored ∧ below <:+ t.active
  /-- The path keeps away from explored nodes. -/
  apart : ∀ n ∈ t.active, n ∉ explored
  subset : unused ⊆ g.arcs
  /-- An arc that was used leads to a node that is known. -/
  used : ∀ a ∈ g.arcs, a ∉ unused → a.2 ∈ t.seen ∨ a.2 ∈ explored
  /-- A node that was come to stays on the stack as long as an arc out of it is not used. -/
  pending : ∀ a ∈ unused, a.1 ∈ t.seen → a.1 ∈ stack

namespace Search

variable {g : Digraph} {explored stack below : List String} {source n : String}
  {unused : List Arc} {t : Trail} {arc : Arc}

theorem start (hsource : source ∉ explored) :
    Search g explored source [source] g.arcs (.start source) where
  sound := Trail.sound_start g source
  piled := ⟨[], [source], rfl, List.nil_subset _, List.suffix_refl _⟩
  apart _ hn := List.mem_singleton.1 hn ▸ hsource
  subset := List.Subset.refl _
  used _ ha hunused := absurd ha hunused
  pending _ _ ha := ha

/-- A node `n` without unused arcs can be left: it goes from the top of the stack. -/
theorem pop (h : Search g explored source (n :: below) unused t)
    (hn : ∀ a ∈ unused, a.1 ≠ n) : Search g explored source below unused t := by
  refine { h with piled := ?_, pending := ?_ }
  · obtain ⟨top, rest, hstack, htop, hrest⟩ := h.piled
    cases top with
    | nil =>
      have hbelow : n :: below <:+ t.active := hstack ▸ hrest
      exact ⟨[], below, rfl, List.nil_subset _, (List.suffix_cons n below).trans hbelow⟩
    | cons m top =>
      obtain ⟨-, rfl⟩ := List.cons.inj hstack
      exact ⟨top, rest, rfl, (List.cons_subset.1 htop).2, hrest⟩
  · intro a ha hseen
    exact (List.mem_cons.1 (h.pending a ha hseen)).resolve_left (hn a ha)

/-- An arc into an explored node is used up, and its head comes onto the stack, but nothing else
changes. -/
theorem skip (h : Search g explored source (n :: below) unused t) (hhead : arc.2 ∈ explored) :
    Search g explored source (arc.2 :: n :: below) (unused.erase arc) t where
  sound := h.sound
  piled := by
    obtain ⟨top, rest, hstack, htop, hrest⟩ := h.piled
    exact ⟨arc.2 :: top, rest, congrArg _ hstack, List.cons_subset.2 ⟨hhead, htop⟩, hrest⟩
  apart := h.apart
  subset := List.Subset.trans List.erase_subset h.subset
  used a ha hunused := by
    by_cases heq : a = arc
    · exact .inr (heq ▸ hhead)
    · exact h.used a ha fun hmem => hunused ((List.mem_erase_of_ne heq).2 hmem)
  pending a ha hseen := List.mem_cons_of_mem _ (h.pending a (List.mem_of_mem_erase ha) hseen)

/-- At an arc into a node that is not explored, the stack is the end of the path: an explored node
on top of it would lead only to explored ones. -/
theorem stack_suffix (h : Search g explored source (arc.1 :: below) unused t)
    (hexplored : g.Closed explored) (harc : arc ∈ unused) (hhead : arc.2 ∉ explored) :
    arc.1 :: below <:+ t.active := by
  obtain ⟨top, rest, hstack, htop, hrest⟩ := h.piled
  cases top with
  | nil => exact hstack ▸ hrest
  | cons m top =>
    have hm : arc.1 = m := (List.cons.inj hstack).1
    have htail : arc.1 ∈ explored := hm ▸ htop List.mem_cons_self
    exact absurd (hexplored arc (h.subset harc) htail) hhead

/-- An arc that is followed gives a cycle, or its head comes onto the stack. -/
theorem follow (h : Search g explored source (arc.1 :: below) unused t)
    (hexplored : g.Closed explored) (harc : arc ∈ unused) (hhead : arc.2 ∉ explored) :
    (∃ ns, t.follow arc = .inl ns ∧ g.IsCycle ns) ∨
      ∃ t', t.follow arc = .inr t' ∧
        Search g explored source (arc.2 :: arc.1 :: below) (unused.erase arc) t' := by
  have hstack := h.stack_suffix hexplored harc hhead
  have hactive : arc.1 ∈ t.active := hstack.subset List.mem_cons_self
  obtain hcycle | ⟨t', ns, ht', hsound, hseen, hnodes, hsuffix⟩ :=
    h.sound.follow (h.subset harc) hactive
  · exact .inl hcycle
  right
  refine ⟨t', ht', ?_⟩
  -- both are what is left of the active nodes from the tail of the arc on
  have hbelow : ns = below := by
    obtain ⟨us, hus⟩ := hstack
    obtain ⟨vs, hvs⟩ := hsuffix
    have hnodup : (arc.1 :: (vs ++ ns)).Nodup := by
      rw [← List.nodup_middle, hvs]
      exact h.sound.nodup
    have hnew := (List.nodup_cons.1 hnodup).1
    rw [List.mem_append, not_or] at hnew
    exact ((List.append_cons_inj_of_notMem hnew.1 hnew.2).1 (hvs.trans hus.symm)).2.2
  subst hbelow
  constructor
  · exact hsound
  · exact ⟨[], _, rfl, List.nil_subset _, hnodes ▸ List.suffix_refl _⟩
  · intro n hn
    rw [hnodes] at hn
    rcases List.mem_cons.1 hn with rfl | hn
    · exact hhead
    · exact h.apart n (hsuffix.subset hn)
  · exact List.Subset.trans List.erase_subset h.subset
  · intro a ha hunused
    rw [hseen]
    by_cases heq : a = arc
    · exact .inl (heq ▸ List.mem_cons_self)
    · exact (h.used a ha fun hmem => hunused ((List.mem_erase_of_ne heq).2 hmem)).imp_left
        (List.mem_cons_of_mem _)
  · intro a ha hseen'
    rw [hseen] at hseen'
    rcases List.mem_cons.1 hseen' with heq | hmem
    · exact heq ▸ List.mem_cons_self
    · exact List.mem_cons_of_mem _ (h.pending a (List.mem_of_mem_erase ha) hmem)

end Search

/-! ### The search -/

variable {g : Digraph} {explored : List String}

/-- A search gives a cycle, or all that can be reached without explored nodes. Then the nodes it has
seen and the explored ones are closed together. -/
theorem searchFrom_spec {source : String} (hexplored : g.Closed explored) (stack : List String)
    (unused : List Arc) (t : Trail) (h : Search g explored source stack unused t) :
    (∃ ns, searchFrom explored stack unused t = .inl ns ∧ g.IsCycle ns) ∨
      ∃ seen, searchFrom explored stack unused t = .inr seen ∧ g.Closed (seen ++ explored) := by
  fun_induction searchFrom explored stack unused t with
  -- The stack is empty: an arc out of a node that was seen has been used, so its head was seen too,
  -- or it is pending, which needs a stack.
  | case1 unused t =>
    right
    refine ⟨t.seen, rfl, ?_⟩
    intro a ha hmem
    rw [List.mem_append] at hmem ⊢
    rcases hmem with hseen | hexp
    · apply h.used a ha
      intro hunused
      cases h.pending a hunused hseen
    · exact .inr (hexplored a ha hexp)
  -- The top of the stack has no arcs left.
  | case2 unused t n below hnone ih =>
    apply ih
    apply h.pop
    intro a ha heq
    have hfind := List.find?_eq_none.1 hnone a ha
    exact hfind (by simpa using heq)
  -- An arc into an explored node is passed over.
  | case3 unused t n below arc hsome hmem ih =>
    exact ih (h.skip (List.contains_iff_mem.1 hmem))
  -- The arc is followed and closes a cycle.
  | case4 unused t n below arc hsome hmem ns hfollow =>
    obtain rfl : arc.1 = n := by simpa using List.find?_some hsome
    have hhead : arc.2 ∉ explored := fun hc => hmem (List.contains_iff_mem.2 hc)
    have harc := List.mem_of_find?_eq_some hsome
    obtain ⟨ns', hns', hcycle⟩ | ⟨t', ht', -⟩ := h.follow hexplored harc hhead
    · rw [hfollow] at hns'
      cases hns'
      exact .inl ⟨ns, rfl, hcycle⟩
    · rw [hfollow] at ht'
      cases ht'
  -- The arc is followed and the path is one longer.
  | case5 unused t n below arc hsome hmem t₁ hfollow ih =>
    obtain rfl : arc.1 = n := by simpa using List.find?_some hsome
    have hhead : arc.2 ∉ explored := fun hc => hmem (List.contains_iff_mem.2 hc)
    have harc := List.mem_of_find?_eq_some hsome
    obtain ⟨ns', hns', -⟩ | ⟨t', ht', hsearch⟩ := h.follow hexplored harc hhead
    · rw [hfollow] at hns'
      cases hns'
    · rw [hfollow] at ht'
      cases ht'
      exact ih hsearch

theorem isCycle_of_searchAll {ns : List String} (hexplored : g.Closed explored)
    (sources : List String) (h : searchAll g sources explored = some ns) : g.IsCycle ns := by
  induction sources generalizing explored with
  | nil => cases h
  | cons source sources ih =>
    rw [searchAll] at h
    split at h
    · exact ih hexplored h
    · next hnew =>
      have hsource : source ∉ explored := fun hc => hnew (List.contains_iff_mem.2 hc)
      obtain ⟨ns', hns', hcycle⟩ | ⟨seen, hseen, hclosed⟩ :=
        searchFrom_spec hexplored _ _ _ (Search.start (g := g) hsource)
      · rw [hns'] at h
        cases h
        exact hcycle
      · rw [hseen] at h
        exact ih hclosed h

/-- What the search for a cycle finds is one: distinct nodes, each with an arc to the next, and the
last with an arc to the first. -/
theorem isCycle_of_cycle? {ns : List String} (h : g.cycle? = some ns) : g.IsCycle ns := by
  have hclosed : g.Closed [] := by
    intro a _ ha
    cases ha
  exact isCycle_of_searchAll hclosed _ h

/-- Where every arc leads to a node of higher `rank`, there is no cycle to be found. -/
theorem cycle?_eq_none_of_rank (rank : String → ℕ) (h : ∀ a ∈ g.arcs, rank a.1 < rank a.2) :
    g.cycle? = none := by
  rw [Option.eq_none_iff_forall_ne_some]
  intro ns hns
  have hcycle := isCycle_of_cycle? hns
  obtain ⟨n, hn, hmax⟩ : ∃ n ∈ ns, ∀ m ∈ ns, rank m ≤ rank n := by
    have hne : ns.toFinset.Nonempty := by
      rw [List.toFinset_nonempty_iff]
      exact hcycle.ne_nil
    obtain ⟨n, hn, hmax⟩ := ns.toFinset.exists_max_image rank hne
    exact ⟨n, List.mem_toFinset.1 hn, fun m hm => hmax m (List.mem_toFinset.2 hm)⟩
  -- the node of highest rank has an arc to another one
  obtain ⟨m, hm, harc⟩ := hcycle.exists_arc hn
  have hlt : rank n < rank m := h _ harc
  have hle := hmax m hm
  omega

end DiagramText.Digraph
