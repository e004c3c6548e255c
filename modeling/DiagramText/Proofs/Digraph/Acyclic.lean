import DiagramText.Proofs.Digraph.Search
import Mathlib.Logic.Relation

/-!
# What it means that no cycle is found

The search is done with a node when all arcs out of it are used and it goes back to the node before.
By then it is done with every node that those arcs lead to: a used arc leads to a node that is done,
or to one that lies above its tail on the stack and is done before the tail is. So the nodes that
are done can be put in an order in which every arc leads to a later one, and along such an order no
way leads from a node back to itself.

* `Digraph.Sorted`: nodes in an order in which every arc leads to a later one.
* `Digraph.Done`: what is known of the nodes that a search is done with, before each of its steps.
* `Digraph.cycle?_eq_none_iff`: nothing is found exactly where no way leads back to where it starts.
-/

namespace DiagramText.Digraph

open Relation

/-- An arc leads from `n` to `m`. -/
def Adj (g : Digraph) (n m : String) : Prop := (n, m) ∈ g.arcs

variable {g : Digraph} {n m : String} {ns : List String}

/-! ### Ways around a cycle -/

/-- From each node of a cycle `ns` an arc leads to the next one, and from the last to the first. -/
theorem IsCycle.isChain (h : g.IsCycle ns) : (ns ++ ns.take 1).IsChain g.Adj := by
  obtain ⟨n, ms, rfl⟩ := List.exists_cons_of_ne_nil h.ne_nil
  have harcs := h.arcs
  rw [List.rotate_cons_succ, List.rotate_zero] at harcs
  show ((n :: ms) ++ [n]).IsChain g.Adj
  rw [List.isChain_cons_append_singleton_iff_forall₂, List.forall₂_iff_zip]
  constructor
  · rw [List.length_cons, List.length_append, List.length_singleton]
  · intro a b hab
    exact harcs hab

/-- A cycle `ns` leads from a node back to itself. -/
theorem IsCycle.exists_transGen (h : g.IsCycle ns) : ∃ n, TransGen g.Adj n n := by
  obtain ⟨n, ms, rfl⟩ := List.exists_cons_of_ne_nil h.ne_nil
  have hchain : (n :: (ms ++ [n])).IsChain g.Adj := h.isChain
  obtain ⟨m, rest, hrest⟩ : ∃ m rest, ms ++ [n] = m :: rest :=
    List.exists_cons_of_ne_nil (List.append_ne_nil_of_right_ne_nil ms (List.cons_ne_nil n []))
  rw [hrest] at hchain
  obtain ⟨hadj, hchain⟩ := List.isChain_cons_cons.1 hchain
  refine ⟨n, .head' hadj (List.relationReflTransGen_of_exists_isChain_cons rest hchain ?_)⟩
  simp only [← hrest, List.getLast_append_singleton]

/-! ### Nodes in order -/

/-- Distinct nodes in an order in which every arc leads to a later one. All arcs out of a node of
the list lead to nodes of the list. -/
inductive Sorted (g : Digraph) : List String → Prop
  | nil : Sorted g []
  | cons {n : String} {ns : List String} (hnew : n ∉ ns) (hheads : ∀ m, g.Adj n m → m ∈ ns)
      (hns : Sorted g ns) : Sorted g (n :: ns)

namespace Sorted

theorem mem_of_adj (h : g.Sorted ns) (hn : n ∈ ns) (hadj : g.Adj n m) : m ∈ ns := by
  induction h with
  | nil => cases hn
  | @cons k ns hnew hheads hns ih =>
    rcases List.mem_cons.1 hn with rfl | hn
    · exact List.mem_cons_of_mem n (hheads m hadj)
    · exact List.mem_cons_of_mem k (ih hn)

theorem mem_of_reflTransGen (h : g.Sorted ns) (hn : n ∈ ns) (hway : ReflTransGen g.Adj n m) :
    m ∈ ns := by
  induction hway with
  | refl => exact hn
  | tail _ hadj ih => exact h.mem_of_adj ih hadj

/-- Along the order `ns` no way leads back to where it starts, since an arc leads to a later
node. -/
theorem not_transGen (h : g.Sorted ns) (hn : n ∈ ns) : ¬TransGen g.Adj n n := by
  induction h with
  | nil => cases hn
  | @cons k ns hnew hheads hns ih =>
    intro hway
    rcases List.mem_cons.1 hn with rfl | hn
    · -- the first arc of the way leads among the later nodes, and from there all do
      obtain ⟨m, hadj, hrest⟩ := TransGen.head'_iff.1 hway
      exact hnew (hns.mem_of_reflTransGen (hheads m hadj) hrest)
    · exact ih hn hway

end Sorted

/-! ### The nodes that a search is done with -/

/-- What is known of the nodes `done` that a search is done with, where `explored` are those that
earlier searches were done with, and `stack` holds those the search is at. -/
structure Done (g : Digraph) (explored stack : List String) (unused : List Arc) (t : Trail)
    (done : List String) : Prop where
  sorted : g.Sorted done
  explored : explored ⊆ done
  seen : ∀ n ∈ t.seen, n ∈ done ∨ n ∈ stack
  /-- An arc that was used starts at a node that is done or on the stack. -/
  tails : ∀ a ∈ g.arcs, a ∉ unused → a.1 ∈ done ∨ a.1 ∈ stack
  /-- It leads to a node that is done or lies above its tail on the stack. -/
  heads : ∀ a ∈ g.arcs, a ∉ unused → a.2 ∈ done ∨ a.2 ∈ stack.takeWhile (· != a.1)

namespace Done

variable {explored stack below done : List String} {source : String} {unused : List Arc}
  {t t' : Trail} {arc : Arc}

theorem start (hdone : g.Sorted done) (hexplored : explored ⊆ done) (source : String) :
    Done g explored [source] g.arcs (.start source) done where
  sorted := hdone
  explored := hexplored
  seen _ hn := .inr hn
  tails _ ha hunused := absurd ha hunused
  heads _ ha hunused := absurd ha hunused

/-- A node `n` on top of the stack without unused arcs: all its arcs lead to nodes that the search
is done with, so it is done with `n` as well. -/
theorem pop (h : Done g explored (n :: below) unused t done) (hn : ∀ a ∈ unused, a.1 ≠ n) :
    ∃ done', Done g explored below unused t done' := by
  obtain ⟨done', hsorted, hsubset, hmem⟩ :
      ∃ done', g.Sorted done' ∧ done ⊆ done' ∧ n ∈ done' := by
    -- The node may have been on the stack twice, and is done already then. Otherwise it comes
    -- before all nodes that are done, which are the heads of its arcs.
    by_cases hnew : n ∈ done
    · exact ⟨done, h.sorted, List.Subset.refl done, hnew⟩
    · refine ⟨n :: done, .cons hnew ?_ h.sorted, List.subset_cons_self n done, List.mem_cons_self⟩
      intro m hadj
      have hused : (n, m) ∉ unused := fun hunused => hn _ hunused rfl
      have hhead := h.heads (n, m) hadj hused
      rw [List.takeWhile_cons_of_neg (by simp)] at hhead
      exact hhead.resolve_right List.not_mem_nil
  -- Leaving the node loses nothing: what was done or on the stack still is.
  have hleft : ∀ k, k ∈ done ∨ k ∈ n :: below → k ∈ done' ∨ k ∈ below := by
    rintro k (hk | hk)
    · exact .inl (hsubset hk)
    · rcases List.mem_cons.1 hk with rfl | hk
      · exact .inl hmem
      · exact .inr hk
  refine ⟨done', hsorted, List.Subset.trans h.explored hsubset, ?_, ?_, ?_⟩
  · intro k hk
    exact hleft k (h.seen k hk)
  · intro a ha hunused
    exact hleft a.1 (h.tails a ha hunused)
  · intro a ha hunused
    -- A used arc leads to a node that is done, or to one above its tail. Above its tail there is
    -- now one node fewer, and that one is done.
    rcases h.heads a ha hunused with hhead | hhead
    · exact .inl (hsubset hhead)
    · rw [List.takeWhile_cons] at hhead
      split at hhead
      · rcases List.mem_cons.1 hhead with hhead | hhead
        · exact .inl (hhead ▸ hmem)
        · exact .inr hhead
      · cases hhead

/-- The arc `arc` out of the top of the stack is used, and its head comes onto the stack: the search
is done with it, or it is not on the stack yet. -/
theorem push (h : Done g explored (arc.1 :: below) unused t done)
    (hhead : arc.2 ∈ done ∨ arc.2 ∉ arc.1 :: below) (hseen : t'.seen ⊆ arc.2 :: t.seen) :
    Done g explored (arc.2 :: arc.1 :: below) (unused.erase arc) t' done := by
  -- The arcs that are used now are those that were, and the new one.
  have hused : ∀ a ∉ unused.erase arc, a = arc ∨ a ∉ unused := by
    intro a ha
    by_cases heq : a = arc
    · exact .inl heq
    · exact .inr fun hunused => ha ((List.mem_erase_of_ne heq).2 hunused)
  constructor
  · exact h.sorted
  · exact h.explored
  · intro k hk
    rcases List.mem_cons.1 (hseen hk) with rfl | hk
    · exact .inr List.mem_cons_self
    · exact (h.seen k hk).imp_right (List.mem_cons_of_mem _)
  · intro a ha hunused
    rcases hused a hunused with rfl | hunused
    · exact .inr (List.mem_cons_of_mem _ List.mem_cons_self)
    · exact (h.tails a ha hunused).imp_right (List.mem_cons_of_mem _)
  · intro a ha hunused
    by_cases htail : arc.2 = a.1
    · -- an arc out of the head, which the search is done with if the arc was used
      left
      rcases hused a hunused with rfl | hunused
      · exact hhead.resolve_right fun hnew => hnew (htail ▸ List.mem_cons_self)
      · have hmem : a.1 ∈ done := by
          rcases hhead with hhead | hnew
          · exact htail ▸ hhead
          · exact (h.tails a ha hunused).resolve_right (htail ▸ hnew)
        exact h.sorted.mem_of_adj hmem ha
    · rw [List.takeWhile_cons_of_pos (by simpa using htail)]
      rcases hused a hunused with rfl | hunused
      · exact .inr List.mem_cons_self
      · exact (h.heads a ha hunused).imp_right (List.mem_cons_of_mem _)

end Done

/-! ### The search -/

/-- A node on top of the stack that is not explored is not below on the stack, because the stack is
then the end of a path of distinct nodes. -/
theorem Search.not_mem_below {explored below : List String} {source : String} {unused : List Arc}
    {t : Trail} (h : Search g explored source (n :: below) unused t) (hn : n ∉ explored) :
    n ∉ below := by
  obtain ⟨top, rest, hstack, htop, hrest⟩ := h.piled
  cases top with
  | nil =>
    have hnodup : (n :: below).Nodup := by
      rw [hstack]
      exact hrest.sublist.nodup h.sound.nodup
    exact (List.nodup_cons.1 hnodup).1
  | cons k top =>
    obtain ⟨rfl, -⟩ := List.cons.inj hstack
    exact absurd (htop List.mem_cons_self) hn

theorem Trail.seen_of_follow {t t' : Trail} {arc : Arc} (h : t.follow arc = .inr t') :
    t'.seen = arc.2 :: t.seen := by
  unfold Trail.follow at h
  dsimp only at h
  split at h
  · cases h
  · cases h
    rw [Trail.seen_backTo]

theorem sorted_of_searchFrom {explored seen : List String} {source : String}
    (hexplored : g.Closed explored) (stack : List String) (unused : List Arc) (t : Trail)
    (h : Search g explored source stack unused t) {done : List String}
    (hdone : Done g explored stack unused t done)
    (hseen : searchFrom explored stack unused t = .inr seen) :
    ∃ done', g.Sorted done' ∧ source ∈ seen ∧ seen ++ explored ⊆ done' := by
  fun_induction searchFrom explored stack unused t generalizing done with
  -- The stack is empty, so all that was seen is done.
  | case1 unused t =>
    cases hseen
    refine ⟨done, hdone.sorted, h.sound.seen ?_, List.append_subset.2 ⟨?_, hdone.explored⟩⟩
    · rw [h.sound.active]
      exact List.mem_append_right _ (List.mem_singleton_self source)
    · intro n hn
      exact (hdone.seen n hn).resolve_right List.not_mem_nil
  -- The top of the stack has no arcs left, and the search is done with it.
  | case2 unused t n below hnone ih =>
    have hn : ∀ a ∈ unused, a.1 ≠ n := by
      intro a ha heq
      exact List.find?_eq_none.1 hnone a ha (by simpa using heq)
    obtain ⟨done', hdone'⟩ := hdone.pop hn
    exact ih (h.pop hn) hdone' hseen
  -- An arc into an explored node changes nothing but the stack.
  | case3 unused t n below arc hsome hmem ih =>
    obtain rfl : arc.1 = n := by simpa using List.find?_some hsome
    have hhead := List.contains_iff_mem.1 hmem
    have hpush := hdone.push (.inl (hdone.explored hhead)) (List.subset_cons_self arc.2 t.seen)
    exact ih (h.skip hhead) hpush hseen
  | case4 unused t n below arc hsome hmem ns hfollow => cases hseen
  -- The arc is followed to a node that is not on the stack yet.
  | case5 unused t n below arc hsome hmem t₁ hfollow ih =>
    obtain rfl : arc.1 = n := by simpa using List.find?_some hsome
    have hhead : arc.2 ∉ explored := fun hc => hmem (List.contains_iff_mem.2 hc)
    obtain ⟨ns, hns, -⟩ | ⟨t', ht', hsearch⟩ :=
      h.follow hexplored (List.mem_of_find?_eq_some hsome) hhead
    · rw [hfollow] at hns
      cases hns
    · rw [hfollow] at ht'
      cases ht'
      have hseen₁ : t₁.seen ⊆ arc.2 :: t.seen := by
        rw [Trail.seen_of_follow hfollow]
        exact List.Subset.refl _
      exact ih hsearch (hdone.push (.inr (hsearch.not_mem_below hhead)) hseen₁) hseen

theorem sorted_of_searchAll {explored done : List String} (hexplored : g.Closed explored)
    (hdone : g.Sorted done) (hsubset : explored ⊆ done) (sources : List String)
    (h : searchAll g sources explored = none) :
    ∃ done', g.Sorted done' ∧ explored ++ sources ⊆ done' := by
  induction sources generalizing explored done with
  | nil =>
    refine ⟨done, hdone, ?_⟩
    rwa [List.append_nil]
  | cons source sources ih =>
    rw [searchAll] at h
    split at h
    -- The search has come to this source before.
    · next hmem =>
      obtain ⟨done', hdone', hall⟩ := ih hexplored hdone hsubset h
      obtain ⟨hbefore, hafter⟩ := List.append_subset.1 hall
      exact ⟨done', hdone', List.append_subset.2 ⟨hbefore,
        List.cons_subset.2 ⟨hbefore (List.contains_iff_mem.1 hmem), hafter⟩⟩⟩
    -- A search from the source, then searches from the others, which take what it came to as
    -- explored.
    · next hnew =>
      have hsearch := Search.start (g := g) fun hc => hnew (List.contains_iff_mem.2 hc)
      obtain ⟨ns, hns, -⟩ | ⟨seen, hseen, hclosed⟩ := searchFrom_spec hexplored _ _ _ hsearch
      · rw [hns] at h
        cases h
      · rw [hseen] at h
        obtain ⟨done₁, hdone₁, hsource, hsubset₁⟩ :=
          sorted_of_searchFrom hexplored _ _ _ hsearch (.start hdone hsubset source) hseen
        obtain ⟨done', hdone', hall⟩ := ih hclosed hdone₁ hsubset₁ h
        obtain ⟨hbefore, hafter⟩ := List.append_subset.1 hall
        have hseen' := (List.append_subset.1 hbefore).1
        have hexplored' := (List.append_subset.1 hbefore).2
        exact ⟨done', hdone', List.append_subset.2 ⟨hexplored',
          List.cons_subset.2 ⟨hseen' hsource, hafter⟩⟩⟩

/-- In a graph `g` in which every arc starts at a node, the search finds nothing exactly where no
way leads from a node back to it. -/
theorem cycle?_eq_none_iff (hnodes : ∀ a ∈ g.arcs, a.1 ∈ g.nodes) :
    g.cycle? = none ↔ ∀ n, ¬TransGen g.Adj n n := by
  constructor
  · intro h n hway
    have hclosed : g.Closed [] := fun _ _ ha => nomatch ha
    obtain ⟨done, hdone, hall⟩ := sorted_of_searchAll hclosed .nil (List.nil_subset _) _ h
    obtain ⟨m, hadj, -⟩ := TransGen.head'_iff.1 hway
    exact hdone.not_transGen (hall (hnodes (n, m) hadj)) hway
  · intro h
    rw [Option.eq_none_iff_forall_ne_some]
    intro ns hns
    obtain ⟨n, hway⟩ := (isCycle_of_cycle? hns).exists_transGen
    exact h n hway

end DiagramText.Digraph
