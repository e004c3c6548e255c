import DiagramText.Proofs.Flowchart.Row

/-!
# Labels between delimiters

As a label is written, it ends where a delimiter stands that may close it. That is the one behind
it, unless the label holds a delimiter behind its first double quote; and the blanks around a label
that is written without quotes are not part of it. Either way another label is read.

* `Flowchart.Closes`: the delimiters that may close a label, and the one that is written behind it.
* `Flowchart.exists_labelBefore`: where a label ends as it is written, and that it is read back only
  if it survives.
-/

namespace DiagramText

open Text

namespace Text

/-- Taking the double quotes off a text `s` takes both of them off, or none. -/
theorem unquote_eq_or (s : String) :
    unquote s = s ∨ (unquote s).toList.length + 2 = s.toList.length := by
  unfold unquote
  split
  · next cs hs =>
    split
    · next hlast =>
      refine .inr ?_
      have hpos : cs.length ≠ 0 := by
        rintro hnil
        rw [List.length_eq_zero_iff.1 hnil] at hlast
        cases hlast
      rw [String.toList_ofList, List.length_dropLast, hs, List.length_cons]
      omega
    · exact .inl rfl
  · exact .inl rfl

end Text

namespace Piece

/-- Where a delimiter `k` stands in a text `v` with a double quote behind it, one is found in the
text: `l`, behind `w`. -/
theorem exists_findCloser {closers : List (List Char)} (hclosers : AreClosers closers)
    {k v : List Char} (hk : k ∈ closers) (hin : k <:+: v) (cs : List Char) :
    ∃ w, ∃ l ∈ closers, ∃ x, v = w ++ (l ++ x) ∧
      findCloser closers (v ++ '"' :: cs) = some (w.length, l.length) := by
  induction v with
  | nil => exact absurd (List.infix_nil.1 hin) (hclosers k hk).1
  | cons c v ih =>
    rw [List.cons_append, findCloser]
    cases hfind : closers.find? (·.isPrefixOf (c :: (v ++ '"' :: cs))) with
    | some l =>
      have hl := List.mem_of_find?_eq_some hfind
      have hstart : l.isPrefixOf (c :: (v ++ '"' :: cs)) = true := by
        simpa using List.find?_some hfind
      -- no delimiter has a quote, so the one that is found ends before that
      have hahead : l <+: (c :: v) ++ '"' :: cs := List.isPrefixOf_iff_prefix.1 hstart
      obtain ⟨x, hx⟩ := prefix_of_prefix_quote (hclosers l hl).2.2 hahead
      exact ⟨[], l, hl, x, hx.symm, rfl⟩
    | none =>
      have hstart : ¬k <+: c :: v := fun h => by
        refine List.find?_eq_none.1 hfind k hk (List.isPrefixOf_iff_prefix.2 ?_)
        rw [← List.cons_append]
        exact h.trans (List.prefix_append _ _)
      obtain ⟨w, l, hl, x, rfl, hfound⟩ := ih ((List.infix_cons_iff.1 hin).resolve_left hstart)
      refine ⟨c :: w, l, hl, x, rfl, ?_⟩
      dsimp only
      rw [hfound]
      rfl

end Piece

namespace Flowchart

/-! ### Labels that end too early -/

/-- Neither the blanks nor the quotes around a text `s` are part of its label, and nothing else is
left out. -/
theorem length_innerText (s : String) :
    innerText s = String.ofList (trim s.toList) ∨
      (innerText s).toList.length + 2 = (trim s.toList).length := by
  have hor := unquote_eq_or (String.ofList (trim s.toList))
  rw [String.toList_ofList] at hor
  exact hor

/-- A label `s` without quotes is not read back if it ends with a space, as blanks around a label
are not part of it. -/
theorem innerText_ne_of_space {s : String} (h : s.toList.getLast? = some ' ') :
    innerText s ≠ s := by
  intro heq
  obtain ⟨a, b, hs, -, -⟩ := exists_trim s.toList
  have hlen := congrArg List.length hs
  rw [List.length_append, List.length_append] at hlen
  rcases length_innerText s with htrim | hlength
  · -- a trimmed text does not end with a blank
    have hself := congrArg String.toList (heq.symm.trans htrim)
    rw [String.toList_ofList] at hself
    have hlast := (Trimmed.of_trim_eq hself.symm).2 ' ' h
    exact absurd hlast (by decide)
  · rw [heq] at hlength
    omega

/-- A label in quotes that ends at a delimiter `k` of its own is not read back: what is left of it
would have as many quotes only if it were longer. -/
theorem innerText_ne_of_closer {s : String} {u w k x : List Char}
    (hs : s.toList = u ++ '"' :: (w ++ (k ++ x))) (hk : k ≠ []) (hquote : '"' ∉ k) :
    innerText (String.ofList ('"' :: (u ++ '"' :: w))) ≠ s := by
  intro heq
  obtain ⟨a, b, htext, ha, hb⟩ := exists_trim ('"' :: (u ++ '"' :: w))
  have hlen := congrArg List.length htext
  have hslen := congrArg List.length hs
  have hkpos := List.length_pos_iff.2 hk
  simp only [List.length_append, List.length_cons] at hlen hslen
  have hor := length_innerText (String.ofList ('"' :: (u ++ '"' :: w)))
  rw [String.toList_ofList] at hor
  rcases hor with htrim | hlength
  · -- both of the quotes that were put there are left, so there is one more than in the label
    have hself := congrArg String.toList (heq.symm.trans htrim)
    rw [String.toList_ofList] at hself
    have hnone : ∀ b : List Char, (∀ c ∈ b, isBlank c = true) → b.count '"' = 0 := by
      intro b hb
      rw [List.count_eq_zero]
      intro hmem
      exact absurd (hb _ hmem) (by decide)
    have hcount := congrArg (List.count '"') htext
    have hscount := congrArg (List.count '"') hs
    rw [← hself] at hcount hlen
    simp only [List.count_append, List.count_cons_self, hnone a ha, hnone b hb,
      List.count_eq_zero.2 hquote] at hcount hscount
    have hx := List.count_le_length (a := '"') (l := x)
    omega
  -- Both quotes are taken off, so what is read is shorter than the label.
  · rw [heq] at hlength
    omega

/-- The delimiters `closers` that may close a label, among them the `closer` that is written behind
it and is found there. -/
structure Closes (closers : List (List Char)) (closer : List Char) : Prop where
  areClosers : Piece.AreClosers closers
  mem : closer ∈ closers
  find? : ∀ b, closers.find? (·.isPrefixOf (closer ++ b)) = some closer

theorem closes_delimiters (s : Shape) : Closes (closersOf s) (delimiters s).2.toList where
  areClosers := areClosers_closersOf s
  mem := by cases s <;> decide
  find? := find?_closersOf s

/-- As it is written, a label ends at some delimiter `l`, and is `r` up to there. It is read back
only if it survives. -/
theorem exists_labelBefore {closers : List (List Char)} {closer : List Char}
    (h : Closes closers closer) {s : String} (hne : s ≠ "") (b : List Char) :
    ∃ r l c, (labelText s).toList ++ (closer ++ b) = r ++ (l ++ c) ∧ l ∈ closers ∧ r ≠ [] ∧
      Piece.labelBefore closers (r ++ (l ++ c)) = some (r.length, l.length) ∧
      (innerText (String.ofList r) = s → Survives closers s) := by
  -- A label that survives ends where it was written to end.
  by_cases hs : Survives closers s
  · exact ⟨_, closer, b, rfl, h.mem, labelText_ne_nil s,
      Piece.labelBefore_append h.areClosers h.mem (h.find? b) hs.isLabel, fun _ => hs⟩
  by_cases hsafe : isSafeLabel s.toList = true
  · -- without quotes, only a space at its end is lost
    obtain ⟨⟨c, cs, hcs, hc⟩, hall⟩ := isSafeLabel_spec hsafe
    have hspace : s.toList.getLast? = some ' ' := by
      by_contra hlast
      refine hs ⟨hne, fun u v huv => ?_, fun _ e he hspace => hlast (hspace ▸ he)⟩
      exact absurd (by decide) (hall '"' (huv ▸ List.mem_append_right _ List.mem_cons_self)).1
    have hlabel : Piece.IsLabel closers s.toList := by
      refine .bare ?_ fun e he => (hall e he).1
      rw [hcs]
      rintro e ⟨⟩
      exact isSpaceOrTab_of_not_isBlank hc
    have htext : labelText s = s := if_pos hsafe
    refine ⟨s.toList, closer, b, by rw [htext], h.mem, by rw [hcs]; exact List.cons_ne_nil _ _,
      Piece.labelBefore_append h.areClosers h.mem (h.find? b) hlabel, fun heq => ?_⟩
    rw [String.ofList_toList] at heq
    exact absurd heq (innerText_ne_of_space hspace)
  · -- in quotes, it ends at the first delimiter behind its own first quote
    obtain ⟨u, v, huv, hu, k, hk, hin⟩ : ∃ u v, s.toList = u ++ '"' :: v ∧ '"' ∉ u ∧
        ∃ k ∈ closers, k <:+: v := by
      by_contra hnone
      simp only [not_exists, not_and] at hnone
      exact hs ⟨hne, fun u v huv hu k hk => hnone u v huv hu k hk, fun h => absurd h hsafe⟩
    obtain ⟨w, l, hl, x, rfl, hfound⟩ :=
      Piece.exists_findCloser h.areClosers hk hin (closer ++ b)
    obtain ⟨hl0, -, hquote⟩ := h.areClosers l hl
    have htext : (labelText s).toList = '"' :: s.toList ++ ['"'] := by
      rw [labelText, if_neg hsafe, toList_doubleQuoted]
    have hassoc : (labelText s).toList ++ (closer ++ b) =
        '"' :: (u ++ '"' :: (w ++ (l ++ x) ++ '"' :: (closer ++ b))) := by
      rw [htext, huv]
      simp
    refine ⟨'"' :: (u ++ '"' :: w), l, x ++ '"' :: (closer ++ b), ?_, hl, List.cons_ne_nil _ _, ?_,
      fun heq => absurd heq (innerText_ne_of_closer huv hl0 hquote)⟩
    · rw [hassoc]
      simp
    · have hsplit : '"' :: (u ++ '"' :: w) ++ (l ++ (x ++ '"' :: (closer ++ b))) =
          '"' :: (u ++ '"' :: (w ++ (l ++ x) ++ '"' :: (closer ++ b))) := by simp
      rw [hsplit, Piece.labelBefore_quoted closers hu, hfound]
      simp only [Option.map_some, List.length_cons, List.length_append]
      congr 2
      omega

end Flowchart
end DiagramText
