import DiagramText.Proofs.Sequence.RoundTrip
import DiagramText.Proofs.Sequence.Spelling

/-!
# Blocks of sequence diagrams

The recursive grammar of blocks says that a block is its opening line, its body, its branches and
its closing line, and that a body is statements one behind the other. The entries of a tree in their
order build the same tree on a stack of open blocks.

* `Sequence.Body`: the recursive grammar of blocks.
* `Sequence.Nested`: lines that fit the blocks that are open around them.
* `Sequence.nested_nil_iff`: lines are nested if the grammar derives a tree from them.
* `Sequence.Statement.entriesList`: a tree of statements in a row, entry by entry.
* `Sequence.Draft.foldl_put_entriesList`: the entries of a tree build the tree.
-/

namespace DiagramText.Sequence

open Reading

/-! ### The grammar of blocks -/

mutual

/-- Lines are statements one behind the other. A block in them is its own lines around those of its
body and its branches. -/
inductive Body : List Line → List Statement → Prop
  | nil : Body [] []
  | blank {ls : List Line} {ss : List Statement} (h : Body ls ss) : Body (.blank :: ls) ss
  | number {ls : List Line} {ss : List Statement} (h : Body ls ss) : Body (.number :: ls) ss
  | clauses {ls : List Line} {ss : List Statement} (cs : List Clause) (h : Body ls ss) :
      Body (.clauses cs :: ls) (cs.map .clause ++ ss)
  | block {head : Block} {inner more ls : List Line} {body ss : List Statement}
      {branches : List (Branch Statement)} (hbody : Body inner body)
      (hbranches : Branches head.kind more branches) (h : Body ls ss) :
      Body (.opening head :: (inner ++ (more ++ .closing :: ls))) (.block head body branches :: ss)

/-- Lines are the further branches of a block of the given `kind`, each with its body. -/
inductive Branches : BlockKind → List Line → List (Branch Statement) → Prop
  | nil {kind : BlockKind} : Branches kind [] []
  | cons {kind : BlockKind} {word : String} {label : Option String} {inner more : List Line}
      {body : List Statement} {branches : List (Branch Statement)}
      (hword : kind.branchKeyword? = some word) (hbody : Body inner body)
      (hmore : Branches kind more branches) :
      Branches kind (.branch word label :: (inner ++ more)) (⟨label, body⟩ :: branches)

end

/-- Lines that fit in blocks of some kinds that are open, the innermost first: each end closes an
open block, each branch word is the one of the innermost open block, and all blocks are closed. -/
inductive Nested : List BlockKind → List Line → Prop
  | nil : Nested [] []
  | blank {kinds : List BlockKind} {ls : List Line} (h : Nested kinds ls) :
      Nested kinds (.blank :: ls)
  | number {kinds : List BlockKind} {ls : List Line} (h : Nested kinds ls) :
      Nested kinds (.number :: ls)
  | clauses {kinds : List BlockKind} {ls : List Line} (cs : List Clause) (h : Nested kinds ls) :
      Nested kinds (.clauses cs :: ls)
  | opening {kinds : List BlockKind} {ls : List Line} {head : Block}
      (h : Nested (head.kind :: kinds) ls) : Nested kinds (.opening head :: ls)
  | branch {kind : BlockKind} {kinds : List BlockKind} {ls : List Line} {word : String}
      {label : Option String} (hword : kind.branchKeyword? = some word)
      (h : Nested (kind :: kinds) ls) : Nested (kind :: kinds) (.branch word label :: ls)
  | closing {kind : BlockKind} {kinds : List BlockKind} {ls : List Line} (h : Nested kinds ls) :
      Nested (kind :: kinds) (.closing :: ls)

mutual

/-- A body fits in whatever blocks are open, whose lines are the `rest`. -/
theorem Body.nested_append {ls rest : List Line} {ss : List Statement} {kinds : List BlockKind} :
    Body ls ss → Nested kinds rest → Nested kinds (ls ++ rest)
  | .nil, hrest => hrest
  | .blank h, hrest => .blank (h.nested_append hrest)
  | .number h, hrest => .number (h.nested_append hrest)
  | .clauses cs h, hrest => .clauses cs (h.nested_append hrest)
  | .block hbody hbranches h, hrest => by
    rw [List.cons_append, List.append_assoc, List.append_assoc, List.cons_append]
    refine .opening (hbody.nested_append (hbranches.nested_append ?_))
    exact .closing (h.nested_append hrest)

/-- Branches `bs` fit in a block of their kind, which is still open behind them. -/
theorem Branches.nested_append {ls rest : List Line} {bs : List (Branch Statement)}
    {kind : BlockKind} {kinds : List BlockKind} :
    Branches kind ls bs → Nested (kind :: kinds) rest → Nested (kind :: kinds) (ls ++ rest)
  | .nil, hrest => hrest
  | .cons hword hbody hmore, hrest => by
    rw [List.cons_append, List.append_assoc]
    exact .branch hword (hbody.nested_append (hmore.nested_append hrest))

end

/-- Lines that are, block by block from the innermost on, the rest of its body, its further branches
and its end, and then statements. -/
def Pending : List BlockKind → List Line → Prop
  | [], ls => ∃ ss, Body ls ss
  | kind :: kinds, ls => ∃ inner more rest body branches,
      ls = inner ++ (more ++ .closing :: rest) ∧ Body inner body ∧ Branches kind more branches ∧
        Pending kinds rest

/-- Lines that can stand before any body can stand before what is pending, as it starts with the
rest of a body. -/
theorem Pending.append (front : List Line)
    (hfront : ∀ ls ss, Body ls ss → ∃ ss', Body (front ++ ls) ss') {kinds : List BlockKind}
    {ls : List Line} (h : Pending kinds ls) : Pending kinds (front ++ ls) := by
  cases kinds with
  | nil =>
    obtain ⟨ss, hbody⟩ := h
    exact hfront ls ss hbody
  | cons kind kinds =>
    obtain ⟨inner, more, rest, body, branches, rfl, hbody, hbranches, hrest⟩ := h
    obtain ⟨body', hbody'⟩ := hfront inner body hbody
    refine ⟨front ++ inner, more, rest, body', branches, ?_, hbody', hbranches, hrest⟩
    rw [List.append_assoc]

theorem Nested.pending {kinds : List BlockKind} {ls : List Line} (h : Nested kinds ls) :
    Pending kinds ls := by
  induction h with
  | nil => exact ⟨[], .nil⟩
  | blank _ ih => exact ih.append [.blank] fun _ ss h => ⟨ss, .blank h⟩
  | number _ ih => exact ih.append [.number] fun _ ss h => ⟨ss, .number h⟩
  | clauses cs _ ih => exact ih.append [.clauses cs] fun _ _ h => ⟨_, .clauses cs h⟩
  | @opening kinds ls head _ ih =>
    obtain ⟨inner, more, rest, body, branches, rfl, hbody, hbranches, hrest⟩ := ih
    have hblock := hrest.append (.opening head :: (inner ++ (more ++ [.closing])))
      fun ls ss h => ⟨.block head body branches :: ss, by
        simpa using Body.block hbody hbranches h⟩
    simpa using hblock
  | @branch kind kinds ls word label hword _ ih =>
    obtain ⟨inner, more, rest, body, branches, rfl, hbody, hbranches, hrest⟩ := ih
    refine ⟨[], .branch word label :: (inner ++ more), rest, [], ⟨label, body⟩ :: branches, ?_,
      .nil, .cons hword hbody hbranches, hrest⟩
    simp
  | @closing kind kinds ls _ ih => exact ⟨[], [], ls, [], [], rfl, .nil, .nil, ih⟩

/-- Lines `ls` are nested if and only if the grammar derives a tree from them. What is kept track of
on a stack is what the recursive grammar says. -/
theorem nested_nil_iff {ls : List Line} : Nested [] ls ↔ ∃ ss, Body ls ss := by
  constructor
  · exact Nested.pending
  · rintro ⟨ss, hbody⟩
    have h := hbody.nested_append .nil
    rwa [List.append_nil] at h

/-! ### Trees entry by entry -/

/-- A clause, or a part of a block beside its bodies. -/
inductive Entry where
  | clause (clause : Clause)
  | opening (head : Block)
  | branch (word : Option String) (label : Option String)
  | closing
deriving DecidableEq

/-- The entries that a line has in a tree. Several clauses may stand on one line. -/
def Line.entries : Line → List Entry
  | .blank | .number => []
  | .clauses cs => cs.map .clause
  | .opening head => [.opening head]
  | .branch word label => [.branch (some word) label]
  | .closing => [.closing]

namespace Statement

mutual

/-- The entries of a statement: of a block its head, its body, each branch with its body, and its
end. They are in document order. -/
def entries : Statement → List Entry
  | .clause c => [.clause c]
  | .block head body branches =>
    .opening head :: (entriesList body ++ (entriesBranches head.kind branches ++ [.closing]))

/-- The entries of statements, one behind the other. -/
def entriesList : List Statement → List Entry
  | [] => []
  | s :: ss => s.entries ++ entriesList ss

/-- The entries of branches of a block of the given `kind`. -/
def entriesBranches (kind : BlockKind) : List (Branch Statement) → List Entry
  | [] => []
  | ⟨label, body⟩ :: branches =>
    .branch kind.branchKeyword? label :: (entriesList body ++ entriesBranches kind branches)

end

theorem entriesList_clauses (cs : List Clause) (ss : List Statement) :
    entriesList (cs.map .clause ++ ss) = cs.map .clause ++ entriesList ss := by
  induction cs with
  | nil => rfl
  | cons c cs ih => rw [List.map_cons, List.cons_append, entriesList, ih, entries]; rfl

end Statement

mutual

/-- The tree that the grammar derives has the entries of the lines `ls`, in their order, so it is
the only tree that the lines have. -/
theorem Body.entriesList_eq {ls : List Line} {ss : List Statement} :
    Body ls ss → Statement.entriesList ss = ls.flatMap Line.entries
  | .nil => rfl
  | .blank h => h.entriesList_eq
  | .number h => h.entriesList_eq
  | .clauses cs h => by
    rw [Statement.entriesList_clauses, h.entriesList_eq]
    rfl
  | .block hbody hbranches h => by
    rw [Statement.entriesList, Statement.entries, hbody.entriesList_eq,
      hbranches.entriesBranches_eq, h.entriesList_eq]
    simp [Line.entries]

theorem Branches.entriesBranches_eq {kind : BlockKind} {ls : List Line}
    {bs : List (Branch Statement)} :
    Branches kind ls bs → Statement.entriesBranches kind bs = ls.flatMap Line.entries
  | .nil => rfl
  | .cons hword hbody hmore => by
    rw [Statement.entriesBranches, hword, hbody.entriesList_eq, hmore.entriesBranches_eq]
    simp [Line.entries]

end

/-! ### Drafts entry by entry -/

namespace Draft

/-- Puts an entry behind what has been read, as the reader does with its line. -/
def put (d : Draft) : Entry → Draft
  | .clause c => d.extend [.clause c]
  | .opening head => d.openBlock head
  | .branch _ label => d.branch label
  | .closing => d.closeBlock

theorem extend_of_opened {d : Draft} {b : OpenBlock} {outer : List OpenBlock}
    (h : d.opened = b :: outer) (ss : List Statement) :
    d.extend ss = { d with opened := b.extend ss :: outer } := by
  rw [extend, h]

theorem branch_of_opened {d : Draft} {b : OpenBlock} {outer : List OpenBlock}
    (h : d.opened = b :: outer) (label : Option String) :
    d.branch label = { d with opened := b.branch label :: outer } := by
  rw [branch, h]

theorem foldl_put_clauses (cs : List Clause) (d : Draft) :
    (cs.map Entry.clause).foldl put d = d.extend (cs.map .clause) := by
  induction cs generalizing d with
  | nil => exact d.extend_nil.symm
  | cons c cs ih =>
    rw [List.map_cons, List.foldl_cons, ih, put, extend_extend]
    rfl

mutual

/-- The entries of a statement make up the statement, whatever blocks are open in the draft `d`. -/
theorem foldl_put_entries (s : Statement) (d : Draft) : s.entries.foldl put d = d.extend [s] := by
  cases s with
  | clause c => rfl
  | block head body branches =>
    have hopened : ((d.openBlock head).extend body).opened = ⟨head, body, []⟩ :: d.opened := rfl
    rw [Statement.entries, List.foldl_cons, List.foldl_append, List.foldl_append,
      foldl_put_entriesList body, put, foldl_put_entriesBranches head.kind branches _ hopened]
    rfl

theorem foldl_put_entriesList (ss : List Statement) (d : Draft) :
    (Statement.entriesList ss).foldl put d = d.extend ss := by
  cases ss with
  | nil => exact d.extend_nil.symm
  | cons s ss =>
    rw [Statement.entriesList, List.foldl_append, foldl_put_entries s, foldl_put_entriesList ss,
      extend_extend]
    rfl

theorem foldl_put_entriesBranches (kind : BlockKind) (bs : List (Branch Statement)) (d : Draft)
    {b : OpenBlock} {outer : List OpenBlock} (h : d.opened = b :: outer) :
    (Statement.entriesBranches kind bs).foldl put d =
      { d with opened := { b with branches := b.branches ++ bs } :: outer } := by
  cases bs with
  | nil =>
    rw [Statement.entriesBranches, List.foldl_nil, List.append_nil, ← h]
  | cons branch bs =>
    obtain ⟨label, body⟩ := branch
    have hbody : (d.branch label).extend body = { d with opened :=
        { b with branches := b.branches ++ [⟨label, body⟩] } :: outer } := by
      rw [branch_of_opened h, extend_of_opened rfl, OpenBlock.extend_branch]
    rw [Statement.entriesBranches, List.foldl_cons, List.foldl_append, foldl_put_entriesList body,
      put, hbody, foldl_put_entriesBranches kind bs _ rfl, List.append_assoc]
    rfl

end

end Draft

end DiagramText.Sequence
