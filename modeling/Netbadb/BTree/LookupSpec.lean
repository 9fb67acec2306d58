import Netbadb.BTree.Represents

/-!
What the read operations return on a file that represents a tree: exact
membership, the rows of a key and the rows of a range, all in entry order. A
walk over the leaf chain is followed leaf by leaf; the chain checks of the
source never fail on it.
-/

namespace Netbadb.BTree

open Fences Outcome Branch List IndexEntryKey BTree.IndexBound

/-- A linked run of leaves at the end of the chain, as a walk meets it. -/
structure LeafRun (s : Store) (tree : MetaNode) (pages : List LeafPage) : Prop where
  held : ∀ page ∈ pages, Held s tree page.ref (.leaf page.node)
  nodup : (pages.map (·.ref)).Nodup
  count : pages.length ≤ s.pageCount
  sorted : (pages.flatMap (·.node.entries)).Pairwise (· < ·)
  linked : Linked pages none
  nonempty : 1 < tree.height → ∀ page ∈ pages, page.node.entries ≠ []
  single : ¬ 1 < tree.height → ∀ page ∈ pages, page.node.nextLeaf = none

variable {n : Nat}

lemma leaves_ofBranch (b : Branch (Tree n)) :
    leaves (.ofBranch b) = leaves b.first ++ b.rest.flatMap fun p => leaves p.2 := by
  have hrest : ∀ rest : List (IndexEntryKey × Tree n),
      leavesOf (rest.flatMap fun p => .fence p.1 :: pieces p.2) =
        rest.flatMap fun p => leaves p.2 := by
    intro rest
    induction rest with
    | nil => rfl
    | cons p rest ih =>
      rw [flatMap_cons, leavesOf_append, ih]
      rfl
  rw [leaves, pieces_ofBranch, Branch.pieces, leavesOf_append, hrest]
  rfl

/-- The leaves are among the pages of a tree, in the same order. -/
lemma leaves_sublist (t : Tree n) :
    ((leaves t).map fun page => (page.ref, DeleteNode.leaf page.node)).Sublist (images t) := by
  induction n with
  | zero => cases t using Tree.leafCases with | ofLeaf page => exact Sublist.refl _
  | succ n ih =>
    cases t using Tree.branchCases with | ofBranch b => ?_
    have hrest : ∀ rest : List (IndexEntryKey × Tree n),
        ((rest.flatMap fun p => leaves p.2).map
          fun page => (page.ref, DeleteNode.leaf page.node)).Sublist
        (rest.flatMap fun p => images p.2) := by
      intro rest
      induction rest with
      | nil => exact Sublist.refl _
      | cons p rest ihrest =>
        rw [flatMap_cons, flatMap_cons, map_append]
        exact (ih p.2).append ihrest
    rw [leaves_ofBranch, map_append, images_ofBranch, below]
    exact ((ih b.first).append (hrest b.rest)).cons _

namespace LeafRun

variable {s : Store} {tree : MetaNode} {l r : List LeafPage}

lemma suffix (h : LeafRun s tree (l ++ r)) : LeafRun s tree r where
  held page hpage := h.held page (mem_append_right l hpage)
  nodup := by
    have := h.nodup
    rw [map_append] at this
    exact this.of_append_right
  count := by
    have := h.count
    rw [length_append] at this
    omega
  sorted := by
    have := h.sorted
    rw [flatMap_append] at this
    exact (pairwise_append.mp this).2.1
  linked := (linked_append.mp h.linked).2
  nonempty hheight page hpage := h.nonempty hheight page (mem_append_right l hpage)
  single hheight page hpage := h.single hheight page (mem_append_right l hpage)

lemma height_of_two {page : LeafPage} (h : LeafRun s tree (l ++ page :: r)) (hl : l ≠ []) :
    1 < tree.height := by
  by_contra hheight
  obtain ⟨init, last, rfl⟩ := (eq_nil_or_concat l).resolve_left hl
  have hnone : last.node.nextLeaf = none := h.single hheight last (by simp)
  have hlinked := (linked_append.mp h.linked).1
  rw [concat_eq_append] at hlinked
  have hnext : last.node.nextLeaf = some page.ref := (linked_append.mp hlinked).2.1
  rw [hnone] at hnext
  cases hnext

end LeafRun

variable {s : Store} {tree : MetaNode}

lemma Represents.leafRun {handle : BTreeHandle} {t : Tree n} (h : Represents s handle tree t) :
    LeafRun s tree (leaves t) := by
  have hsublist := leaves_sublist t
  have hids : ((leaves t).map (·.ref.pageId)).Nodup := by
    have hmapped := hsublist.map (·.1.pageId)
    rw [map_map] at hmapped
    exact (nodup_cons.mp h.nodup).2.sublist hmapped
  have hheld : ∀ page ∈ leaves t, Held s tree page.ref (.leaf page.node) := by
    intro page hpage
    exact h.held (page.ref, .leaf page.node) (hsublist.subset (mem_map_of_mem hpage))
  refine ⟨hheld, ?_, ?_, ?_, h.linked, ?_, ?_⟩
  · have hcomp : (leaves t).map (·.ref.pageId) =
        ((leaves t).map (·.ref)).map BTreePageRef.pageId := by rw [map_map]; rfl
    rw [hcomp] at hids
    exact hids.of_map
  · have hsubset : (leaves t).map (·.ref.pageId) ⊆ range s.pageCount := by
      intro id hid
      obtain ⟨page, hpage, rfl⟩ := mem_map.mp hid
      exact mem_range.mpr (hheld page hpage).inFile.2
    simpa using (subperm_of_subset hids hsubset).length_le
  · have hsorted := h.ordered.items_sorted
    rwa [items_cellsOf] at hsorted
  · intro hheight
    have hn := h.height
    exact h.nonempty (by omega)
  · intro hheight page hpage
    have hn : n = 0 := by
      have := h.height
      omega
    subst hn
    have hlinked := h.linked
    cases t using Tree.leafCases with | ofLeaf only => ?_
    obtain rfl := mem_singleton.mp hpage
    exact hlinked.1

/-- A chain state after the leaves `done`. -/
structure ChainAt (s : Store) (chain : LeafChainState) (done rest : List LeafPage) : Prop where
  pageCount : chain.pageCount = s.pageCount
  visited : chain.visited = (done.map (·.ref)).reverse
  fresh : done = [] → chain.previousLeaf = none
  previous : ∀ page last, chain.previousLeaf = some (page, last) →
    ∀ entry ∈ rest.flatMap (·.node.entries), last < entry

lemma ChainAt.new (s : Store) (pages : List LeafPage) : ChainAt s (.new s.pageCount) [] pages :=
  ⟨rfl, rfl, fun _ => rfl, by simp [LeafChainState.new]⟩

variable {chain : LeafChainState} {rest done : List LeafPage} {page : LeafPage}

/-- The next leaf of a run passes every chain check. -/
lemma readLeafInChain_eq (hrun : LeafRun s tree (done ++ page :: rest))
    (hchain : ChainAt s chain done (page :: rest)) :
    ∃ chain', readLeafInChain s page.ref tree chain = .ok (page.node, chain') ∧
      ChainAt s chain' (done ++ [page]) rest := by
  have hfresh : page.ref ∉ chain.visited := by
    rw [hchain.visited, mem_reverse]
    have hnodup := hrun.nodup
    rw [map_append, map_cons] at hnodup
    intro hmem
    exact (nodup_append.mp hnodup).2.2 _ hmem _ mem_cons_self rfl
  have hcount : ¬ chain.pageCount ≤ chain.visited.length := by
    have hlength := hrun.count
    rw [hchain.pageCount, hchain.visited, length_reverse, length_map]
    rw [length_append, length_cons] at hlength
    omega
  have hread : readLeaf s page.ref tree = .ok page.node := (hrun.held page (by simp)).readLeaf
  have hempty : ¬ (page.node.entries = [] ∧ (tree.height > 1 ∨ page.node.nextLeaf.isSome)) := by
    rintro ⟨hnil, hreason⟩
    by_cases hheight : 1 < tree.height
    · exact hrun.nonempty hheight page (by simp) hnil
    · have := hrun.single hheight page (by simp)
      simp [this, hheight] at hreason
  -- The first entry of a later leaf is above the last entry that was seen.
  have horder : ∀ first, page.node.entries.head? = some first →
      ∀ previous last, chain.previousLeaf = some (previous, last) →
        compareEntryKeys last first = .lt := by
    intro first hfirst previous last hprevious
    apply compareEntryKeys_eq_lt.mpr
    apply hchain.previous previous last hprevious
    exact mem_append_left _ (mem_of_mem_head? hfirst)
  have hcheck : ∀ previous last, chain.previousLeaf = some (previous, last) →
      ∃ first, page.node.entries.head? = some first := by
    intro previous last hprevious
    have hdone : done ≠ [] := by
      intro hnil
      rw [hchain.fresh hnil] at hprevious
      cases hprevious
    have hne := hrun.nonempty (hrun.height_of_two hdone) page (by simp)
    exact ⟨page.node.entries.head hne, head?_eq_some_head hne⟩
  refine ⟨{ chain with
    visited := page.ref :: chain.visited
    previousLeaf := (page.node.entries.getLast?.map (page.ref, ·)).or chain.previousLeaf }, ?_, ?_⟩
  · cases hprevious : chain.previousLeaf with
    | none =>
      cases hlast : page.node.entries.getLast? <;>
        simp [readLeafInChain, hfresh, hcount, hread, hempty, hprevious, hlast, ok_bind, pure_ok]
    | some seen =>
      obtain ⟨previous, last⟩ := seen
      obtain ⟨first, hfirst⟩ := hcheck previous last hprevious
      have hlt := horder first hfirst previous last hprevious
      cases hlast : page.node.entries.getLast? <;>
        simp [readLeafInChain, hfresh, hcount, hread, hempty, hprevious, hfirst, hlt, hlast,
          ok_bind, pure_ok]
  · refine ⟨hchain.pageCount, by simp [hchain.visited], by simp, ?_⟩
    intro previous last hprevious entry hentry
    have hsorted := hrun.suffix.sorted
    cases hlast : page.node.entries.getLast? with
    | none =>
      simp only [hlast, Option.map_none, Option.none_or] at hprevious
      apply hchain.previous previous last hprevious
      exact mem_append_right _ hentry
    | some seen =>
      simp only [hlast, Option.map_some, Option.some_or, Option.some.injEq, Prod.mk.injEq]
        at hprevious
      obtain ⟨-, rfl⟩ := hprevious
      exact (pairwise_append.mp hsorted).2.2 _ (mem_of_getLast? hlast) entry hentry

lemma filter_dropWhile {α : Type} {p q : α → Bool} (h : ∀ x, p x = true → q x = false)
    (xs : List α) : (xs.dropWhile p).filter q = xs.filter q := by
  induction xs with
  | nil => rfl
  | cons x xs ih =>
    cases hx : p x with
    | true => simp [hx, h x hx, ih]
    | false => simp [hx]

variable {key : ScalarValue} {entry : IndexEntryKey} {q : IndexEntryKey → Bool}

lemma compareKeyToEntry_eq_gt :
    compareKeyToEntry key entry = .gt ↔ entry.key < key := compareValues_eq_gt

lemma compareKeyToEntry_eq_lt :
    compareKeyToEntry key entry = .lt ↔ key < entry.key := compareValues_eq_lt

lemma compareKeyToEntry_eq_eq :
    compareKeyToEntry key entry = .eq ↔ key = entry.key := compareValues_eq_eq

/-- The rows of the entries that satisfy `q`. -/
def rowsWhere (q : IndexEntryKey → Bool) (entries : List IndexEntryKey) : List RowId :=
  (entries.filter q).map (·.rowId)

lemma rowsWhere_append (q : IndexEntryKey → Bool) (l r : List IndexEntryKey) :
    rowsWhere q (l ++ r) = rowsWhere q l ++ rowsWhere q r := by
  simp [rowsWhere]

lemma rowsWhere_eq_nil {entries : List IndexEntryKey} (h : ∀ entry ∈ entries, q entry = false) :
    rowsWhere q entries = [] := by
  simpa [rowsWhere] using h

def hasKey (key : ScalarValue) (entry : IndexEntryKey) : Bool := decide (entry.key = key)

lemma hasKey_eq_false : hasKey key entry = false ↔ entry.key ≠ key := by simp [hasKey]

variable {xs : List IndexEntryKey} {rounds : Nat}

lemma collectEqual_eq (key : ScalarValue) (hsorted : xs.Pairwise (· < ·)) :
    (collectEqual key xs).1 = rowsWhere (hasKey key) xs ∧
      ((collectEqual key xs).2 = true ↔ ∃ x ∈ xs, key < x.key) := by
  induction xs with
  | nil => simp [collectEqual, rowsWhere]
  | cons x xs ih =>
    obtain ⟨hx, hxs⟩ := pairwise_cons.mp hsorted
    obtain ⟨hrows, hseen⟩ := ih hxs
    cases hcmp : compareKeyToEntry key x with
    | lt =>
      have hlt := compareKeyToEntry_eq_lt.mp hcmp
      have hnone : rowsWhere (hasKey key) (x :: xs) = [] := by
        apply rowsWhere_eq_nil
        intro y hy
        rcases mem_cons.mp hy with rfl | hy
        · exact hasKey_eq_false.mpr (ne_of_gt hlt)
        · apply hasKey_eq_false.mpr
          exact ne_of_gt (lt_of_lt_of_le hlt (key_le_of_lt (hx y hy)))
      simp [collectEqual, hcmp, hnone, hlt]
    | eq =>
      have heq := compareKeyToEntry_eq_eq.mp hcmp
      simp only [collectEqual, hcmp, hrows, hseen]
      constructor
      · simp [rowsWhere, hasKey, heq]
      · simp [heq]
    | gt =>
      have hgt := compareKeyToEntry_eq_gt.mp hcmp
      simp only [collectEqual, hcmp, hrows, hseen]
      constructor
      · simp [rowsWhere, hasKey, hgt.ne]
      · simp [hgt.le]

lemma collectEqual_drop (key : ScalarValue) (hsorted : xs.Pairwise (· < ·)) :
    (collectEqual key (xs.drop (partitionPoint
        (fun entry => compareKeyToEntry key entry == .gt) xs))).1 = rowsWhere (hasKey key) xs ∧
      ((collectEqual key (xs.drop (partitionPoint
        (fun entry => compareKeyToEntry key entry == .gt) xs))).2 = true ↔
          ∃ x ∈ xs, key < x.key) := by
  rw [drop_partitionPoint]
  obtain ⟨hrows, hseen⟩ := collectEqual_eq key
    (hsorted.sublist (dropWhile_sublist fun entry => compareKeyToEntry key entry == .gt))
  refine ⟨?_, ?_⟩
  · rw [hrows, rowsWhere, rowsWhere, filter_dropWhile]
    intro x hx
    have hlt := compareKeyToEntry_eq_gt.mp (beq_iff_eq.mp hx)
    exact hasKey_eq_false.mpr hlt.ne
  · rw [hseen]
    constructor
    · rintro ⟨x, hx, hlt⟩
      exact ⟨x, (dropWhile_sublist _).subset hx, hlt⟩
    rintro ⟨x, hx, hlt⟩
    refine ⟨x, ?_, hlt⟩
    rw [← takeWhile_append_dropWhile
      (p := fun entry => compareKeyToEntry key entry == .gt) (l := xs), mem_append] at hx
    refine hx.resolve_left fun hbefore => ?_
    have hgt := mem_takeWhile_imp hbefore
    exact lt_asymm (compareKeyToEntry_eq_gt.mp (beq_iff_eq.mp hgt)) hlt

lemma LeafRun.next {next : LeafPage} (h : LeafRun s tree (done ++ page :: next :: rest)) :
    LeafRun s tree ((done ++ [page]) ++ next :: rest) ∧ page.node.entries ≠ [] ∧
      page.node.nextLeaf = some next.ref ∧ validateChild s next.ref = .ok () := by
  have h' : LeafRun s tree ((done ++ [page]) ++ next :: rest) := by simpa using h
  refine ⟨h', ?_, h.suffix.linked.1, ?_⟩
  · exact h.nonempty (h'.height_of_two (by simp)) page (by simp)
  · exact validateChild_eq_ok.mpr (h.held next (by simp)).inFile

/-- By induction on the leaves still to be read. -/
lemma lookupWalk_eq (key : ScalarValue) (done : List LeafPage)
    (hrun : LeafRun s tree (done ++ page :: rest)) (hchain : ChainAt s chain done (page :: rest))
    (hrounds : rest.length < rounds) :
    lookupWalk s tree key rounds chain page.ref =
      .ok (rowsWhere (hasKey key) ((page :: rest).flatMap (·.node.entries))) := by
  induction rest generalizing done page chain rounds with
  | nil =>
    obtain ⟨rounds, rfl⟩ : ∃ r, rounds = r + 1 := ⟨rounds - 1, by omega⟩
    obtain ⟨chain', hread, -⟩ := readLeafInChain_eq hrun hchain
    have hsorted := hrun.suffix.sorted
    rw [flatMap_cons, flatMap_nil, append_nil] at hsorted
    obtain ⟨hrows, -⟩ := collectEqual_drop key hsorted
    have hnext : page.node.nextLeaf = none := hrun.suffix.linked.1
    simp [lookupWalk, hread, hrows, hnext, ok_bind, pure_ok]
  | cons next rest ih =>
    obtain ⟨rounds, rfl⟩ : ∃ r, rounds = r + 1 := ⟨rounds - 1, by omega⟩
    obtain ⟨chain', hread, hchain'⟩ := readLeafInChain_eq hrun hchain
    have hsorted := hrun.suffix.sorted
    obtain ⟨hpage, -, hlater⟩ := pairwise_append.mp hsorted
    obtain ⟨hrows, hseen⟩ := collectEqual_drop key hpage
    obtain ⟨hrun', hne, hnext, hvalid⟩ := hrun.next
    rw [flatMap_cons, rowsWhere_append]
    cases hsaw : (collectEqual key (page.node.entries.drop (partitionPoint
        (fun entry => compareKeyToEntry key entry == .gt) page.node.entries))).2 with
    | true =>
      obtain ⟨x, hx, hlt⟩ := hseen.mp hsaw
      have hnone : rowsWhere (hasKey key) ((next :: rest).flatMap (·.node.entries)) = [] := by
        apply rowsWhere_eq_nil
        intro y hy
        apply hasKey_eq_false.mpr
        exact ne_of_gt (lt_of_lt_of_le hlt (key_le_of_lt (hlater x hx y hy)))
      rw [hnone, append_nil]
      simp [lookupWalk, hread, hsaw, hrows, ok_bind, pure_ok]
    | false =>
      have hfollow : (page.node.entries.getLast?.any
          fun entry => compareKeyToEntry key entry ≠ .lt) = true := by
        rw [getLast?_eq_some_getLast hne]
        simp only [Option.any_some, decide_eq_true_eq, ne_eq]
        intro hlt
        have hsome := hseen.mpr
          ⟨_, getLast_mem hne, compareKeyToEntry_eq_lt.mp hlt⟩
        rw [hsaw] at hsome
        cases hsome
      have hrounds' : rest.length < rounds := by simpa using hrounds
      have hwalk := ih _ hrun' hchain' hrounds'
      simp only [lookupWalk, hread, hsaw, hrows, hfollow, hnext, hvalid, hwalk, ok_bind, pure_ok,
        Bool.false_eq_true, if_false]

def AboveLower : IndexBound → ScalarValue → Prop
  | .unbounded, _ => True
  | .included low, key => low ≤ key
  | .excluded low, key => low < key

def BelowUpper : IndexBound → ScalarValue → Prop
  | .unbounded, _ => True
  | .included high, key => key ≤ high
  | .excluded high, key => key < high

instance (bound : IndexBound) (key : ScalarValue) : Decidable (AboveLower bound key) := by
  cases bound <;> unfold AboveLower <;> infer_instance

instance (bound : IndexBound) (key : ScalarValue) : Decidable (BelowUpper bound key) := by
  cases bound <;> unfold BelowUpper <;> infer_instance

def InRange (range : IndexRange) (key : ScalarValue) : Prop :=
  AboveLower range.lower key ∧ BelowUpper range.upper key

instance (range : IndexRange) (key : ScalarValue) : Decidable (InRange range key) :=
  inferInstanceAs (Decidable (_ ∧ _))

def hasKeyIn (range : IndexRange) (entry : IndexEntryKey) : Bool :=
  decide (InRange range entry.key)

variable {bound : IndexBound} {range : IndexRange}

lemma beforeLower_eq_true : beforeLower bound entry = true ↔ ¬ AboveLower bound entry.key := by
  cases bound with
  | unbounded => simp [beforeLower, AboveLower]
  | included low => simp [beforeLower, AboveLower, compareKeyToEntry_eq_gt]
  | excluded low => simp [beforeLower, AboveLower, compareKeyToEntry_eq_lt]

lemma pastUpper_eq_true : pastUpper bound entry = true ↔ ¬ BelowUpper bound entry.key := by
  cases bound with
  | unbounded => simp [pastUpper, BelowUpper]
  | included high => simp [pastUpper, BelowUpper, compareKeyToEntry_eq_lt]
  | excluded high => simp [pastUpper, BelowUpper, compareKeyToEntry_eq_gt]

lemma AboveLower.mono {a b : ScalarValue} (h : AboveLower bound a) (hab : a ≤ b) :
    AboveLower bound b := by
  cases bound with
  | unbounded => trivial
  | included low => exact le_trans h hab
  | excluded low => exact lt_of_lt_of_le h hab

lemma BelowUpper.mono {a b : ScalarValue} (h : BelowUpper bound b) (hab : a ≤ b) :
    BelowUpper bound a := by
  cases bound with
  | unbounded => trivial
  | included high => exact le_trans hab h
  | excluded high => exact lt_of_le_of_lt hab h

lemma not_inRange_of_isEmpty (h : range.isEmpty = true) (key : ScalarValue) :
    ¬ InRange range key := by
  obtain ⟨lower, upper⟩ := range
  rintro ⟨hlow, hhigh⟩
  cases lower <;> cases upper <;>
    simp only [IndexRange.isEmpty, Bool.false_eq_true, beq_iff_eq, bne_iff_ne, ne_eq,
      compareValues_eq_gt, compareValues_eq_lt, AboveLower, BelowUpper, not_lt] at h hlow hhigh
  all_goals order

lemma collectRange_eq (hsorted : xs.Pairwise (· < ·))
    (habove : ∀ x ∈ xs, AboveLower range.lower x.key) :
    (collectRange range.upper xs).1 = rowsWhere (hasKeyIn range) xs ∧
      ((collectRange range.upper xs).2 = true → ∃ x ∈ xs, ¬ BelowUpper range.upper x.key) := by
  induction xs with
  | nil => simp [collectRange, rowsWhere]
  | cons x xs ih =>
    obtain ⟨hx, hxs⟩ := pairwise_cons.mp hsorted
    obtain ⟨hrows, hseen⟩ := ih hxs fun y hy => habove y (mem_cons_of_mem x hy)
    cases hpast : pastUpper range.upper x with
    | true =>
      have hout := pastUpper_eq_true.mp hpast
      have hnone : rowsWhere (hasKeyIn range) (x :: xs) = [] := by
        apply rowsWhere_eq_nil
        intro y hy
        simp only [hasKeyIn, decide_eq_false_iff_not]
        rintro ⟨-, hbelow⟩
        rcases mem_cons.mp hy with rfl | hy
        · exact hout hbelow
        · exact hout (hbelow.mono (key_le_of_lt (hx y hy)))
      simp [collectRange, hpast, hnone, hout]
    | false =>
      have hin : BelowUpper range.upper x.key := by
        by_contra hout
        rw [pastUpper_eq_true.mpr hout] at hpast
        cases hpast
      have hinRange : InRange range x.key := ⟨habove x mem_cons_self, hin⟩
      simp only [collectRange, hpast, Bool.false_eq_true, if_false, hrows]
      constructor
      · simp [rowsWhere, hasKeyIn, hinRange]
      · intro hsaw
        obtain ⟨y, hy, hout⟩ := hseen hsaw
        exact ⟨y, mem_cons_of_mem x hy, hout⟩

lemma collectRange_drop (range : IndexRange) (hsorted : xs.Pairwise (· < ·)) :
    (collectRange range.upper (xs.drop (partitionPoint
        (beforeLower range.lower) xs))).1 = rowsWhere (hasKeyIn range) xs ∧
      ((collectRange range.upper (xs.drop (partitionPoint
        (beforeLower range.lower) xs))).2 = true →
          ∃ x ∈ xs, ¬ BelowUpper range.upper x.key) := by
  rw [drop_partitionPoint]
  have hdown : ∀ a b : IndexEntryKey, a < b → beforeLower range.lower b = true →
      beforeLower range.lower a = true := by
    intro a b hab hb
    rw [beforeLower_eq_true] at hb ⊢
    exact fun ha => hb (ha.mono (key_le_of_lt hab))
  have habove : ∀ x ∈ xs.dropWhile (beforeLower range.lower),
      AboveLower range.lower x.key := by
    intro x hx
    by_contra hout
    have := not_of_mem_dropWhile hsorted hdown x hx
    rw [beforeLower_eq_true.mpr hout] at this
    cases this
  obtain ⟨hrows, hseen⟩ := collectRange_eq
    (hsorted.sublist (dropWhile_sublist (beforeLower range.lower))) habove
  refine ⟨?_, ?_⟩
  · rw [hrows, rowsWhere, rowsWhere, filter_dropWhile]
    intro x hx
    simp only [hasKeyIn, decide_eq_false_iff_not]
    exact fun hin => beforeLower_eq_true.mp hx hin.1
  · intro hsaw
    obtain ⟨x, hx, hout⟩ := hseen hsaw
    exact ⟨x, (dropWhile_sublist _).subset hx, hout⟩

lemma lookupRangeWalk_eq (range : IndexRange) (done : List LeafPage)
    (hrun : LeafRun s tree (done ++ page :: rest)) (hchain : ChainAt s chain done (page :: rest))
    (hrounds : rest.length < rounds) :
    lookupRangeWalk s tree range rounds chain page.ref =
      .ok (rowsWhere (hasKeyIn range) ((page :: rest).flatMap (·.node.entries))) := by
  induction rest generalizing done page chain rounds with
  | nil =>
    obtain ⟨rounds, rfl⟩ : ∃ r, rounds = r + 1 := ⟨rounds - 1, by omega⟩
    obtain ⟨chain', hread, -⟩ := readLeafInChain_eq hrun hchain
    have hsorted := hrun.suffix.sorted
    rw [flatMap_cons, flatMap_nil, append_nil] at hsorted
    obtain ⟨hrows, -⟩ := collectRange_drop range hsorted
    have hnext : page.node.nextLeaf = none := hrun.suffix.linked.1
    simp [lookupRangeWalk, hread, hrows, hnext, ok_bind, pure_ok]
  | cons next rest ih =>
    obtain ⟨rounds, rfl⟩ : ∃ r, rounds = r + 1 := ⟨rounds - 1, by omega⟩
    obtain ⟨chain', hread, hchain'⟩ := readLeafInChain_eq hrun hchain
    have hsorted := hrun.suffix.sorted
    obtain ⟨hpage, -, hlater⟩ := pairwise_append.mp hsorted
    obtain ⟨hrows, hseen⟩ := collectRange_drop range hpage
    obtain ⟨hrun', -, hnext, hvalid⟩ := hrun.next
    rw [flatMap_cons, rowsWhere_append]
    cases hsaw : (collectRange range.upper (page.node.entries.drop (partitionPoint
        (beforeLower range.lower) page.node.entries))).2 with
    | true =>
      obtain ⟨x, hx, hout⟩ := hseen hsaw
      have hnone : rowsWhere (hasKeyIn range)
          ((next :: rest).flatMap (·.node.entries)) = [] := by
        apply rowsWhere_eq_nil
        intro y hy
        simp only [hasKeyIn, decide_eq_false_iff_not]
        exact fun hin => hout (hin.2.mono (key_le_of_lt (hlater x hx y hy)))
      rw [hnone, append_nil]
      simp [lookupRangeWalk, hread, hsaw, hrows, ok_bind, pure_ok]
    | false =>
      have hrounds' : rest.length < rounds := by simpa using hrounds
      have hwalk := ih _ hrun' hchain' hrounds'
      simp [lookupRangeWalk, hread, hsaw, hrows, hnext, hvalid, hwalk, ok_bind, pure_ok]

/-- A walk that starts where everything on its left fails `q` sees all rows
that satisfy `q`. -/
lemma rowsWhere_plug {c : Ctx 0 n} (hleft : ∀ entry ∈ items (cellsOf c.left), q entry = false) :
    rowsWhere q ((page :: leavesOf c.right).flatMap (·.node.entries)) =
      rowsWhere q (entriesOf (c.plug (.ofLeaf page))) := by
  rw [entriesOf_plug, append_assoc, rowsWhere_append, rowsWhere_eq_nil hleft,
    flatMap_cons, items_cellsOf c.right, nil_append]

namespace Represents

variable {handle : BTreeHandle} {t : Tree n}

lemma ensureEntryFits_valid {spec : IndexSpec} {entry : IndexEntryKey} {capacity : Nat}
    (h : ensureEntryFits spec entry capacity = .ok ()) : ValidEntry spec entry := by
  simp only [ensureEntryFits, bind_eq_ok] at h
  obtain ⟨_, hkey, _, hrow, -⟩ := h
  exact ⟨hkey, hrow⟩

section

variable (h : Represents s handle tree t)
include h

lemma containsExact {key : ScalarValue} {rowId : RowId}
    (hfits : ensureEntryFits tree.spec { key, rowId } (entryCapacity tree) = .ok ()) :
    BTree.containsExact s handle key rowId = .ok (decide ({ key, rowId } ∈ entriesOf t)) := by
  obtain ⟨c, page, hleaf, hfind⟩ := h.findLeafForEntry { key, rowId }
  have hmem : (page.ref, DeleteNode.leaf page.node) ∈ images t := by
    rw [← hleaf.plug]
    exact (Ctx.images_plug c _).mem_iff.mpr (by simp)
  have hcontains := LeafNode.containsExact_eq (h.held _ hmem).fits.sorted
    (ensureEntryFits_valid hfits)
  simp only [BTree.containsExact, h.readMeta, hfits, hfind, hcontains, lift, ok_bind,
    hleaf.mem_iff]

lemma lookup {key : ScalarValue} (hkey : tree.spec.validateKey key = .ok ()) :
    BTree.lookup s handle key = .ok (rowsWhere (hasKey key) (entriesOf t)) := by
  obtain ⟨c, page, hplug, hleft, hfind⟩ := h.findLeafForKey key
  have hrun := h.leafRun
  rw [← hplug, leaves_plug] at hrun
  have hrounds : (leavesOf c.right).length < s.pageCount + 1 := by
    have := hrun.count
    simp only [length_append, length_cons] at this
    omega
  have hwalk := lookupWalk_eq key [] hrun.suffix (ChainAt.new s _) hrounds
  rw [rowsWhere_plug fun entry hentry => hasKey_eq_false.mpr (hleft entry hentry).ne,
    hplug] at hwalk
  simp only [BTree.lookup, h.readMeta, hkey, hfind, hwalk, lift, ok_bind]

lemma findStart (range : IndexRange) :
    ∃ (c : Ctx 0 n) (page : LeafPage), c.plug (.ofLeaf page) = t ∧
      (∀ entry ∈ items (cellsOf c.left), hasKeyIn range entry = false) ∧
      (match range.lower with
        | .unbounded => BTree.findLeftmostLeaf s tree
        | .included key | .excluded key => BTree.findLeafForKey s tree key) = .ok page.ref := by
  cases hlower : range.lower with
  | unbounded =>
    obtain ⟨c, page, hplug, hleft, hfind⟩ := h.findLeftmostLeaf
    exact ⟨c, page, hplug, by simp [hleft], hfind⟩
  | included key =>
    obtain ⟨c, page, hplug, hleft, hfind⟩ := h.findLeafForKey key
    refine ⟨c, page, hplug, fun entry hentry => ?_, hfind⟩
    simp only [hasKeyIn, InRange, hlower, AboveLower, decide_eq_false_iff_not, not_and]
    exact fun hge => absurd (hleft entry hentry) (not_lt.mpr hge)
  | excluded key =>
    obtain ⟨c, page, hplug, hleft, hfind⟩ := h.findLeafForKey key
    refine ⟨c, page, hplug, fun entry hentry => ?_, hfind⟩
    simp only [hasKeyIn, InRange, hlower, AboveLower, decide_eq_false_iff_not, not_and]
    exact fun hgt => absurd (hleft entry hentry) (not_lt.mpr hgt.le)

lemma lookupRange (hrange : range.validate tree.spec = .ok ()) :
    BTree.lookupRange s handle range = .ok (rowsWhere (hasKeyIn range) (entriesOf t)) := by
  cases hempty : range.isEmpty with
  | true =>
    have hnone : rowsWhere (hasKeyIn range) (entriesOf t) = [] := by
      apply rowsWhere_eq_nil
      intro entry _
      simpa [hasKeyIn] using not_inRange_of_isEmpty hempty entry.key
    simp [BTree.lookupRange, h.readMeta, hrange, hempty, hnone, lift, ok_bind, pure_ok]
  | false =>
    obtain ⟨c, page, hplug, hleft, hfind⟩ := h.findStart range
    have hrun := h.leafRun
    rw [← hplug, leaves_plug] at hrun
    have hrounds : (leavesOf c.right).length < s.pageCount + 1 := by
      have := hrun.count
      simp only [length_append, length_cons] at this
      omega
    have hwalk := lookupRangeWalk_eq range [] hrun.suffix
      (ChainAt.new s _) hrounds
    rw [rowsWhere_plug hleft, hplug] at hwalk
    cases hlower : range.lower <;> rw [hlower] at hfind <;>
      simp [BTree.lookupRange, h.readMeta, hrange, hempty, hlower, hfind, hwalk, lift, ok_bind]

end

end Represents

end Netbadb.BTree
