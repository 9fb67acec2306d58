import Netbadb.BTree.Structure
import Netbadb.BTree.Writable

/-!
Insertions that succeed. An internal node that overflows can always be cut at its
new separator, so only the leaf counts: with the new entry it fits its page, or it
can be cut in two that do. An entry of half a leaf at most never fails.
-/

namespace Netbadb.BTree

open Fences Outcome Branch List Sparse Except

section Choose

variable {capacity : Nat} {sizes : Nat → Except IndexError (Nat × Nat)} {positions : List Nat}

def FitsAt (capacity : Nat) (sizes : Nat → Except IndexError (Nat × Nat)) (position : Nat) : Prop :=
  ∃ leftSize rightSize, sizes position = .ok (leftSize, rightSize) ∧
    leftSize ≤ capacity ∧ rightSize ≤ capacity

lemma betterSplit_cases (best : Option (Nat × Nat)) (imbalance position : Nat) :
    betterSplit best imbalance position = some (imbalance, position) ∨
      (best.isSome = true ∧ betterSplit best imbalance position = best) := by
  cases best with
  | none => exact .inl rfl
  | some b =>
    simp only [betterSplit]
    split_ifs
    · exact .inl rfl
    · exact .inr ⟨rfl, rfl⟩

/-- The choice finds a position where both halves fit when there is one. -/
lemma chooseSplit_ok (hsizes : ∀ p ∈ positions, ∃ pair, sizes p = .ok pair)
    (hfits : ∃ p ∈ positions, FitsAt capacity sizes p) :
    ∃ imbalance position, chooseSplit capacity sizes positions = .ok (some (imbalance, position)) ∧
      FitsAt capacity sizes position := by
  suffices hfold : ∀ best : Option (Nat × Nat),
      (∀ i p, best = some (i, p) → FitsAt capacity sizes p) →
      (best.isSome = true ∨ ∃ p ∈ positions, FitsAt capacity sizes p) →
      ∃ imbalance position, positions.foldlM (fun best position => do
        let pair ← sizes position
        if pair.1 ≤ capacity ∧ pair.2 ≤ capacity then
          return betterSplit best ((pair.1 - pair.2) + (pair.2 - pair.1)) position
        else return best) best = .ok (some (imbalance, position)) ∧
          FitsAt capacity sizes position from
    hfold none (by simp) (.inr hfits)
  clear hfits
  induction positions with
  | nil =>
    intro best hbest hsome
    obtain ⟨⟨i, p⟩, rfl⟩ := Option.isSome_iff_exists.mp (hsome.resolve_right (by simp))
    exact ⟨i, p, rfl, hbest i p rfl⟩
  | cons position positions ih =>
    intro best hbest hsome
    have ih := ih fun p hp => hsizes p (mem_cons_of_mem _ hp)
    obtain ⟨⟨a, b⟩, hsize⟩ := hsizes position mem_cons_self
    simp only [foldlM_cons, hsize, ok_bind]
    by_cases hfit : a ≤ capacity ∧ b ≤ capacity
    · simp only [if_pos hfit, pure, Except.pure]
      rcases betterSplit_cases best ((a - b) + (b - a)) position with heq | ⟨hold, heq⟩
      · refine ih _ ?_ (.inl (by rw [heq]; rfl))
        intro i p hp
        rw [heq, Option.some.injEq, Prod.mk.injEq] at hp
        exact hp.2 ▸ ⟨a, b, hsize, hfit⟩
      · rw [heq]
        exact ih _ hbest (.inl hold)
    · simp only [if_neg hfit, pure, Except.pure]
      refine ih _ hbest (hsome.imp_right ?_)
      rintro ⟨p, hp, hpfits⟩
      rcases mem_cons.mp hp with rfl | hp
      · obtain ⟨a', b', hsize', hfit'⟩ := hpfits
        rw [hsize, ok.injEq, Prod.mk.injEq] at hsize'
        obtain ⟨rfl, rfl⟩ := hsize'
        exact absurd hfit' hfit
      · exact ⟨p, hp, hpfits⟩

lemma chooseSplit_none (hsizes : ∀ p ∈ positions, ∃ pair, sizes p = .ok pair)
    (hfits : ∀ p ∈ positions, ¬ FitsAt capacity sizes p) :
    chooseSplit capacity sizes positions = .ok none := by
  unfold chooseSplit
  induction positions with
  | nil => rfl
  | cons position positions ih =>
    obtain ⟨⟨⟨a, b⟩, hsize⟩, hsizes⟩ := forall_mem_cons.mp hsizes
    obtain ⟨hfit, hfits⟩ := forall_mem_cons.mp hfits
    have hnot : ¬ (a ≤ capacity ∧ b ≤ capacity) := fun h => hfit ⟨a, b, hsize, h⟩
    simp only [foldlM_cons, hsize, ok_bind, if_neg hnot, pure_ok]
    exact ih hsizes hfits

end Choose

variable {s : Store} {handle : BTreeHandle} {tree : MetaNode} {entry : IndexEntry} {n k : Nat}
  {promoted : IndexEntryKey} {c : Ctx k n} {next : Option BTreePageRef}

/-- The entries can be cut in two parts that each fit a leaf. -/
def Cuttable (tree : MetaNode) (entries : List IndexEntry) : Prop :=
  ∃ left right, left ++ right = entries ∧ left ≠ [] ∧ right ≠ [] ∧
    payload tree (.leaf ⟨left, none⟩) ≤ nodeCapacity tree ∧
    payload tree (.leaf ⟨right, none⟩) ≤ nodeCapacity tree

/-- The entries of a leaf with a new one in its place. -/
def withEntry (leaf : LeafNode) (entry : IndexEntry) : List IndexEntry :=
  leaf.entries.filter (· < entry) ++ entry :: leaf.entries.filter (entry < ·)

/-- The leaf that an entry belongs to fits its page with it, or can be cut. -/
def RoomFor (s : Store) (tree : MetaNode) (entry : IndexEntry) : Prop :=
  ∃ page leaf path, findLeafForEntry s tree entry = .ok (page, leaf, path) ∧
    (payload tree (.leaf ⟨withEntry leaf entry, none⟩) ≤ nodeCapacity tree ∨
      Cuttable tree (withEntry leaf entry))

/-- A leaf has room for two entries of this size. -/
def HalfLeaf (tree : MetaNode) (entry : IndexEntryKey) : Prop :=
  payload tree (.leaf ⟨[entry, entry], none⟩) ≤ nodeCapacity tree

lemma Formatted.leaf_part {entries part : List IndexEntry} {oldNext : Option BTreePageRef}
    (h : Formatted tree (.leaf ⟨entries, oldNext⟩)) (hpart : part.Sublist entries)
    (hnext : ∀ page, next = some page → PageOf tree page ∨ oldNext = some page) :
    Formatted tree (.leaf ⟨part, next⟩) := by
  obtain ⟨hvalid, hold⟩ := h
  obtain ⟨-, hentries, hsorted⟩ := validateLeaf_eq_ok.mp hvalid
  have hlink : ∀ page, next = some page →
      validateRef page = .ok () ∧ page.generation.isSome = tree.generation.isSome := by
    intro page hpage
    rcases hnext page hpage with h | h
    · exact ⟨h.validateRef, h.generated⟩
    · exact hold page h
  refine ⟨validateLeaf_eq_ok.mpr ⟨fun page hpage => ?_, fun e he => hentries e (hpart.subset he),
    hsorted.sublist hpart⟩, hlink⟩
  have href := (hlink page hpage).1
  intro hzero
  simp only [validateRef, hzero] at href
  cases hg : page.generation <;> simp [hg, bind_eq_ok] at href

lemma payload_leaf (entries : List IndexEntry) (next : Option BTreePageRef) :
    payload tree (.leaf ⟨entries, next⟩) = commonHeaderSize + 4 +
      pointerWidth tree.generation.isSome + (entries.map encodedEntryLen).sum := rfl

def leafCutSizes (spec : IndexSpec) (entries : List IndexEntry) (oldNext : Option BTreePageRef)
    (rightPage : BTreePageRef) (split : Nat) : Except IndexError (Nat × Nat) := do
  let leftSize ← leafEncodedLen spec ⟨entries.take split, some rightPage⟩
    rightPage.generation.isSome
  let rightSize ← leafEncodedLen spec ⟨entries.drop split, oldNext⟩ rightPage.generation.isSome
  return (leftSize, rightSize)

section LeafSplit

variable {rightPage : BTreePageRef} {oldNext : Option BTreePageRef} {entries : List IndexEntry}

section

variable (h : Formatted tree (.leaf ⟨entries, oldNext⟩))
include h

lemma Formatted.leaf_take (hright : PageOf tree rightPage) (i : Nat) :
    Formatted tree (.leaf ⟨entries.take i, some rightPage⟩) := by
  refine h.leaf_part (take_sublist _ _) fun page hpage => .inl ?_
  rwa [← Option.some.inj hpage]

lemma Formatted.leaf_drop (i : Nat) : Formatted tree (.leaf ⟨entries.drop i, oldNext⟩) :=
  h.leaf_part (drop_sublist _ _) fun _ hpage => .inr hpage

lemma Formatted.leafCutSizes (hright : PageOf tree rightPage) (i : Nat) :
    leafCutSizes tree.spec entries oldNext rightPage i =
      .ok (payload tree (.leaf ⟨entries.take i, some rightPage⟩),
        payload tree (.leaf ⟨entries.drop i, oldNext⟩)) := by
  have hleft := (h.leaf_take hright i).encodedLen
  have hrest := (h.leaf_drop i).encodedLen
  simp only [DeleteNode.encodedLen] at hleft hrest
  rw [BTree.leafCutSizes, hright.generated, hleft, hrest]
  rfl

end

lemma Cuttable.fitsAt (h : Formatted tree (.leaf ⟨entries, oldNext⟩))
    (hright : PageOf tree rightPage) : Cuttable tree entries ↔
      ∃ p ∈ List.range' 1 (entries.length - 1),
        FitsAt (nodeCapacity tree) (leafCutSizes tree.spec entries oldNext rightPage) p := by
  have hsizes := h.leafCutSizes hright
  constructor
  · rintro ⟨left, right, rfl, hl, hr, hleft, hrest⟩
    have hpos := length_pos_of_ne_nil hl
    have hpos' := length_pos_of_ne_nil hr
    refine ⟨left.length, mem_range'_1.mpr (by rw [length_append]; omega), _, _, hsizes _, ?_, ?_⟩
    · rwa [take_left]
    · rwa [drop_left]
  · rintro ⟨p, hp, a, b, hsize, ha, hb⟩
    rw [hsizes, ok.injEq, Prod.mk.injEq] at hsize
    obtain ⟨rfl, rfl⟩ := hsize
    have hmem := mem_range'_1.mp hp
    refine ⟨_, _, take_append_drop p entries, ?_, ?_, ha, hb⟩
    · rw [ne_eq, take_eq_nil_iff, ← length_eq_zero_iff]
      omega
    · rw [ne_eq, drop_eq_nil_iff]
      omega

/-- The new entry fits on one of its two sides, and the other side is not
empty. -/
lemma HalfLeaf.cuttable {l r : List IndexEntry} (hhalf : HalfLeaf tree entry)
    (hold : payload tree (.leaf ⟨l ++ r, oldNext⟩) ≤ nodeCapacity tree)
    (hover : nodeCapacity tree < payload tree (.leaf ⟨l ++ entry :: r, oldNext⟩)) :
    Cuttable tree (l ++ entry :: r) := by
  simp only [payload_leaf, map_append, map_cons, sum_append, sum_cons]
    at hold hover
  simp only [HalfLeaf, payload_leaf, map_cons, map_nil, sum_cons, sum_nil]
    at hhalf
  by_cases hside : commonHeaderSize + 4 + pointerWidth tree.generation.isSome +
      ((l.map encodedEntryLen).sum + encodedEntryLen entry) ≤ nodeCapacity tree
  · have hne : r ≠ [] := by
      rintro rfl
      simp only [map_nil, sum_nil] at hover
      omega
    refine ⟨l ++ [entry], r, by simp, by simp, hne, ?_, ?_⟩
    · rw [payload_leaf]
      simpa using hside
    · rw [payload_leaf]
      omega
  · have hne : l ≠ [] := by
      rintro rfl
      simp only [map_nil, sum_nil] at hover hside hold
      omega
    refine ⟨l, entry :: r, rfl, hne, by simp, ?_, ?_⟩
    · rw [payload_leaf]
      omega
    · rw [payload_leaf, map_cons, sum_cons]
      omega

section

variable (hright : PageOf tree rightPage)
  (hformatted : Formatted tree (.leaf ⟨entries, oldNext⟩))
include hright hformatted

lemma splitLeaf_ok (hcut : Cuttable tree entries) :
    ∃ left right promoted, splitLeaf tree.spec entries oldNext rightPage
        (nodeCapacity tree) = .ok (left, right, promoted) ∧
      Formatted tree (.leaf left) ∧ payload tree (.leaf left) ≤ nodeCapacity tree ∧
      Formatted tree (.leaf right) ∧ payload tree (.leaf right) ≤ nodeCapacity tree := by
  have hsizes := hformatted.leafCutSizes hright
  obtain ⟨imbalance, split, hchoose, a, b, hsplit, ha, hb⟩ :=
    chooseSplit_ok (fun p _ => ⟨_, hsizes p⟩) ((Cuttable.fitsAt hformatted hright).mp hcut)
  rw [hsizes, ok.injEq, Prod.mk.injEq] at hsplit
  obtain ⟨rfl, rfl⟩ := hsplit
  have hmem := mem_range'_1.mp (chooseSplit_mem hchoose)
  have hlen : ¬ entries.length < 2 := by omega
  obtain ⟨promoted, zs, hdrop⟩ : ∃ z zs, entries.drop split = z :: zs := by
    cases hd : entries.drop split with
    | nil =>
      have := drop_eq_nil_iff.mp hd
      omega
    | cons z zs => exact ⟨z, zs, rfl⟩
  refine ⟨_, _, promoted, ?_, hformatted.leaf_take hright split, ha, hformatted.leaf_drop split, hb⟩
  rw [splitLeaf, bind_eq_ok]
  refine ⟨(), hright.validateRef, ?_⟩
  rw [if_neg hlen, bind_eq_ok]
  refine ⟨_, hchoose, ?_⟩
  simp [hdrop, pure, Except.pure]

lemma splitLeaf_error (hcut : ¬ Cuttable tree entries) :
    splitLeaf tree.spec entries oldNext rightPage (nodeCapacity tree) =
      .error (.nodeTooLarge (encodedEntriesSize entries) (nodeCapacity tree)) := by
  have hsizes := hformatted.leafCutSizes hright
  rw [Cuttable.fitsAt hformatted hright] at hcut
  have hchoose := chooseSplit_none (fun p _ => ⟨_, hsizes p⟩)
    fun p hp hfits => hcut ⟨p, hp, hfits⟩
  unfold BTree.leafCutSizes at hchoose
  simp only [splitLeaf, hright.validateRef, ok_bind]
  split_ifs with hlen
  · rfl
  · rw [hchoose]
    rfl

end

end LeafSplit

def SeparatorFits (tree : MetaNode) (key : IndexEntryKey) : Prop :=
  commonHeaderSize + 4 + pointerWidth tree.generation.isSome +
    (encodedEntryLen key + pointerWidth tree.generation.isSome) ≤ nodeCapacity tree

/-- What `ensure_entry_fits` leaves room for. -/
lemma separatorFits_of_ensure {key : IndexEntryKey}
    (h : ensureEntryFits tree.spec key (entryCapacity tree) = .ok ()) : SeparatorFits tree key := by
  simp only [ensureEntryFits, bind_eq_ok, guard_eq_ok, pure_eq_ok, and_true] at h
  obtain ⟨-, -, -, -, -, -, hle⟩ := h
  simp only [entryCapacity, nodeHeaderSize] at hle
  simp only [SeparatorFits, encodedEntryLen, pointerWidth]
  cases hgenerated : tree.generation.isSome <;>
    simp only [hgenerated, if_true, if_false, Bool.false_eq_true] at hle ⊢ <;> omega

section InternalSplit

variable {node : InternalNode} {ls rs : List InternalSeparator} {separator : InternalSeparator}

lemma payload_internal (first : BTreePageRef) (separators : List InternalSeparator) :
    payload tree (.internal ⟨first, separators⟩) = commonHeaderSize + 4 +
      pointerWidth tree.generation.isSome + (separators.map fun separator =>
        encodedEntryLen separator.key + pointerWidth tree.generation.isSome).sum := rfl

/-- Every separator of a node on a page fits alone. -/
lemma separatorFits_of_payload (h : payload tree (.internal node) ≤ nodeCapacity tree)
    (hmem : separator ∈ node.separators) : SeparatorFits tree separator.key := by
  have hle := single_le_sum (fun _ _ => Nat.zero_le _) _
    (mem_map_of_mem (f := fun separator : InternalSeparator =>
      encodedEntryLen separator.key + pointerWidth tree.generation.isSome) hmem)
  simp only [payload] at h
  simp only [SeparatorFits]
  omega

section

variable (h : Formatted tree (.internal node))
include h

lemma Formatted.internal_parts (hseparators : node.separators = ls ++ separator :: rs) :
    Formatted tree (.internal ⟨node.firstChild, ls⟩) ∧
      Formatted tree (.internal ⟨separator.rightChild, rs⟩) := by
  obtain ⟨hvalid, hfirst, hrest⟩ := h
  obtain ⟨hfirstRef, hrestRef, hsorted⟩ := validateInternal_eq_ok.mp hvalid
  rw [hseparators] at hrest hrestRef hsorted
  have hmem : separator ∈ ls ++ separator :: rs := by simp
  have hl : ∀ x ∈ ls, x ∈ ls ++ separator :: rs := fun x hx => by simp [hx]
  have hr : ∀ x ∈ rs, x ∈ ls ++ separator :: rs := fun x hx => by simp [hx]
  rw [map_append, map_cons] at hsorted
  obtain ⟨hsortedLeft, hsortedRight, -⟩ := pairwise_append.mp hsorted
  exact ⟨⟨validateInternal_eq_ok.mpr ⟨hfirstRef, fun x hx => hrestRef x (hl x hx), hsortedLeft⟩,
      hfirst, fun x hx => hrest x (hl x hx)⟩,
    validateInternal_eq_ok.mpr ⟨(hrestRef separator hmem).2, fun x hx => hrestRef x (hr x hx),
      (pairwise_cons.mp hsortedRight).2⟩,
    hrest separator hmem, fun x hx => hrest x (hr x hx)⟩

def internalCutSizes (spec : IndexSpec) (node : InternalNode) (middle : Nat) :
    Except IndexError (Nat × Nat) :=
  match node.separators[middle]? with
  | none => throw .invalidNodeType
  | some promoted => do
      let leftSize ← internalEncodedLen spec ⟨node.firstChild, node.separators.take middle⟩
      let rightSize ← internalEncodedLen spec
        ⟨promoted.rightChild, node.separators.drop (middle + 1)⟩
      return (leftSize, rightSize)

lemma Formatted.internalCutSizes (hseparators : node.separators = ls ++ separator :: rs) :
    internalCutSizes tree.spec node ls.length =
      .ok (payload tree (.internal ⟨node.firstChild, ls⟩),
        payload tree (.internal ⟨separator.rightChild, rs⟩)) := by
  obtain ⟨hleft, hright⟩ := h.internal_parts hseparators
  have hleftLen := hleft.encodedLen
  have hrightLen := hright.encodedLen
  simp only [DeleteNode.encodedLen] at hleftLen hrightLen
  have hget : node.separators[ls.length]? = some separator := by simp [hseparators]
  have htake : node.separators.take ls.length = ls := by simp [hseparators]
  have hdrop : node.separators.drop (ls.length + 1) = rs := by
    simp [hseparators, drop_append]
  simp only [BTree.internalCutSizes, hget, htake, hdrop, hleftLen, hrightLen, ok_bind, pure_ok]

/-- A node that was on its page before it took one more separator can be cut
there. -/
lemma splitInternal_ok (hseparators : node.separators = ls ++ separator :: rs)
    (hold : payload tree (.internal ⟨node.firstChild, ls ++ rs⟩) ≤ nodeCapacity tree) :
    ∃ left promoted right,
      splitInternal tree.spec node (nodeCapacity tree) = .ok (left, promoted, right) ∧
        payload tree (.internal left) ≤ nodeCapacity tree ∧
          payload tree (.internal right) ≤ nodeCapacity tree := by
  have hat : ∀ p ∈ List.range node.separators.length, ∃ ls x rs,
      node.separators = ls ++ x :: rs ∧ ls.length = p := by
    intro p hp
    have hlt := mem_range.mp hp
    refine ⟨node.separators.take p, node.separators[p], node.separators.drop (p + 1), ?_, ?_⟩
    · rw [← drop_eq_getElem_cons hlt, take_append_drop]
    · simp only [length_take]
      omega
  have hsizes : ∀ p ∈ List.range node.separators.length,
      ∃ pair, internalCutSizes tree.spec node p = .ok pair := by
    intro p hp
    obtain ⟨ls, x, rs, hcut, rfl⟩ := hat p hp
    exact ⟨_, h.internalCutSizes hcut⟩
  rw [payload_internal, map_append, sum_append] at hold
  have hfits : ∃ p ∈ List.range node.separators.length,
      FitsAt (nodeCapacity tree) (internalCutSizes tree.spec node) p := by
    refine ⟨ls.length, ?_, _, _, h.internalCutSizes hseparators, ?_, ?_⟩
    · rw [hseparators]
      simp
    all_goals
      rw [payload_internal]
      omega
  obtain ⟨imbalance, middle, hchoose, a, b, hpair, ha, hb⟩ := chooseSplit_ok hsizes hfits
  obtain ⟨ls', x, rs', hcut, rfl⟩ := hat middle (chooseSplit_mem hchoose)
  rw [h.internalCutSizes hcut, ok.injEq, Prod.mk.injEq] at hpair
  obtain ⟨rfl, rfl⟩ := hpair
  have hget : node.separators[ls'.length]? = some x := by simp [hcut]
  have htake : node.separators.take ls'.length = ls' := by simp [hcut]
  have hdrop : node.separators.drop (ls'.length + 1) = rs' := by simp [hcut, drop_append]
  refine ⟨⟨node.firstChild, ls'⟩, x.key, ⟨x.rightChild, rs'⟩, ?_, ha, hb⟩
  rw [splitInternal, bind_eq_ok]
  refine ⟨(), h.1, ?_⟩
  rw [bind_eq_ok]
  refine ⟨_, hchoose, ?_⟩
  simp only [hget, htake, hdrop, pure, Except.pure]

end

end InternalSplit

lemma branch_sorted {b : Branch (Tree n)} (h : Ordered (cellsOf (b.pieces pieces))) :
    ((b.node rootRef).separators.map (·.key)).Pairwise (· < ·) := by
  have hsub : ∀ rest : List (IndexEntryKey × Tree n), (rest.map fun p => Cell.fence p.1).Sublist
      (cellsOf (rest.flatMap fun p => .fence p.1 :: pieces p.2)) := by
    intro rest
    induction rest with
    | nil => exact List.Sublist.refl _
    | cons p rest ih =>
      simp only [map_cons, flatMap_cons, cons_append, cellsOf_fence_cons, cellsOf_append]
      exact (ih.trans (sublist_append_right _ _)).cons_cons _
  rw [Branch.pieces, cellsOf_append] at h
  have hfences := h.sublist ((hsub b.rest).trans (sublist_append_right _ _))
  rw [Ordered, pairwise_map] at hfences
  simp only [Branch.node, map_map, pairwise_map]
  exact hfences

/-- The sequence around a parent that took a separator. -/
lemma pieces_up (ref : BTreePageRef) (before : List (Tree k × IndexEntryKey))
    (post : List (IndexEntryKey × Tree k)) (outer : Ctx (k + 1) n) (tl tr : Tree k)
    (promoted : IndexEntryKey) :
    (Ctx.up ref before post outer).left ++ (pieces tl ++ .fence promoted :: pieces tr) ++
        (Ctx.up ref before post outer).right =
      outer.left ++ (assemble ref before tl ((promoted, tr) :: post)).pieces pieces ++
        outer.right := by
  rw [pieces_assemble]
  simp [Ctx.left, Ctx.right, rightPieces]

namespace Splitting

variable {alloc : Allocator} {changes : List PreparedPage}

lemma left_fits {tl tr : Tree k} (h : Splitting s handle tree alloc changes c tl tr) :
    Fits tree (rootRef tl) (rootNode tl) :=
  (h.covered _ (mem_append_left _ (rootImage_mem tl))).fits

lemma right_fits {tl tr : Tree k} (h : Splitting s handle tree alloc changes c tl tr) :
    Fits tree (rootRef tr) (rootNode tr) :=
  (h.covered _ (mem_append_right _ (rootImage_mem tr))).fits

lemma root_formatted {tl tr : Tree n} (h : Splitting s handle tree alloc changes .top tl tr)
    (hvalid : ValidEntry tree.spec promoted) :
    Formatted tree (.internal ⟨rootRef tl, [⟨promoted, rootRef tr⟩]⟩) := by
  refine ⟨validateInternal_eq_ok.mpr ⟨h.left_fits.validateRef, ?_, by simp⟩,
    h.left_fits.generated, ?_⟩
  · intro x hx
    obtain rfl := mem_singleton.mp hx
    exact ⟨hvalid, h.right_fits.validateRef⟩
  · intro x hx
    obtain rfl := mem_singleton.mp hx
    exact h.right_fits.generated

section Parent

variable {ref : BTreePageRef} {before : List (Tree k × IndexEntryKey)}
  {post : List (IndexEntryKey × Tree k)} {outer : Ctx (k + 1) n} {tl tr : Tree k}

section

variable (h : Splitting s handle tree alloc changes (.up ref before post outer) tl tr)
include h

lemma parent_held : Held s tree ref (.internal ((assemble ref before tl post).node rootRef)) :=
  h.held (ref, .internal ((assemble ref before tl post).node rootRef))
    (mem_append_right _ mem_cons_self)

lemma parent_formatted (hvalid : ValidEntry tree.spec promoted)
    (hsorted : (((assemble ref before tl ((promoted, tr) :: post)).node rootRef).separators.map
      (·.key)).Pairwise (· < ·)) :
    Formatted tree (.internal ((assemble ref before tl ((promoted, tr) :: post)).node rootRef)) := by
  obtain ⟨hold, hfirst, hrest⟩ := h.parent_held.fits.formatted
  obtain ⟨hfirstRef, hrestRef, -⟩ := validateInternal_eq_ok.mp hold
  have hmem : ∀ x ∈ ((assemble ref before tl ((promoted, tr) :: post)).node rootRef).separators,
      x = ⟨promoted, rootRef tr⟩ ∨
        x ∈ ((assemble ref before tl post).node rootRef).separators := by
    intro x hx
    rw [node_assemble, mem_append, map_cons, mem_cons] at hx
    rw [node_assemble, mem_append]
    tauto
  refine ⟨validateInternal_eq_ok.mpr ⟨hfirstRef, fun x hx => ?_, hsorted⟩, hfirst, fun x hx => ?_⟩
  · rcases hmem x hx with rfl | hx
    · exact ⟨hvalid, h.right_fits.validateRef⟩
    · exact hrestRef x hx
  · rcases hmem x hx with rfl | hx
    · exact h.right_fits.generated
    · exact hrest x hx

lemma insertSeparator_ok
    (hsorted : (((assemble ref before tl ((promoted, tr) :: post)).node rootRef).separators.map
      (·.key)).Pairwise (· < ·)) :
    ((assemble ref before tl post).node rootRef).insertSeparator before.length promoted
      (rootRef tr) = .ok ((assemble ref before tl ((promoted, tr) :: post)).node rootRef) := by
  have hlength : before.length = ((linkChildren before tl).map (separator rootRef)).length := by
    simp
  have hinsert := insertIdx_append_length ((linkChildren before tl).map (separator rootRef))
    (post.map (separator rootRef)) { key := promoted, rightChild := rootRef tr }
  rw [← hlength] at hinsert
  rw [node_assemble] at hsorted ⊢
  rw [node_assemble]
  simp only [InternalNode.insertSeparator, bind_eq_ok, check_eq_ok, pure_eq_ok]
  refine ⟨(), h.right_fits.validateRef, ?_, (), ?_, ?_⟩
  · simp
  · rw [hinsert]
    exact validateEntryOrder_eq_ok.mpr hsorted
  · rw [hinsert]
    rfl

end

end Parent

end Splitting

/-- A plan that can be published, or the one height that has no successor. -/
def Climbs (s : Store) (tree : MetaNode) (outcome : Except StorageError (List PreparedPage)) :
    Prop :=
  (∃ changes count, outcome = .ok changes ∧ Publishable s changes count) ∨
    (2 ^ 32 ≤ tree.height + 1 ∧ outcome = .error (.index (.invalidHeight tree.height)))

section Climb

variable {n₀ : Nat} {t₀ : Tree n₀} (hrep : Represents s handle tree t₀)
  (hmeta : metaSize tree.spec tree.owner tree.generation ≤ singlePayloadCapacity)
  {grants : Nat → PageGrant} (hsound : SoundGrants s tree grants)
include hrep hmeta hsound

/-- Above the old root the two halves get a new root and the meta page names it. -/
lemma insertUp_top_ok {alloc : Allocator} {changes : List PreparedPage} {count : Nat}
    {tl tr : Tree k} (h : Splitting s handle tree alloc changes .top tl tr)
    (halloc : Allocating s grants alloc count) (hpublishable : Publishable s changes count)
    (hvalid : ValidEntry tree.spec promoted) (hfits : SeparatorFits tree promoted) :
    Climbs s tree (insertUp s handle tree alloc changes (rootRef tl) promoted (rootRef tr)
      (Ctx.top.path tl)) := by
  have hroot := hrep.root_held.fits.pageOf
  obtain ⟨allocation, alloc', count', htake, -, hheader, hpublish⟩ := halloc.take hsound hroot
  obtain ⟨hgenerated, htook⟩ := takePageRef_eq_ok htake
  have hpage : PageOf tree allocation.reference :=
    ⟨(h.inUse.take hrep.header htook).2, hgenerated, hheader⟩
  have hformatted := h.root_formatted hvalid
  have hnew : Fits tree allocation.reference
      (.internal ⟨rootRef tl, [⟨promoted, rootRef tr⟩]⟩) := by
    refine hformatted.fits hpage ?_
    simpa [payload_internal, SeparatorFits] using hfits
  have hchange := hnew.prepareNewNode
  rw [prepareNewNode] at hchange
  have hmetaChange := hrep.prepareMeta hmeta hpage (Nat.succ_ne_zero tree.height)
  have hread : readBTreePage s handle.metaPage = .ok (.metaPage tree) :=
    readBTreePage_eq hrep.metaStored (by rw [hrep.generation]; rfl)
  simp only [Ctx.path, insertUp, htake, hchange, bind, Except.bind]
  by_cases hheight : tree.height + 1 ≥ 2 ^ 32
  · refine .inr ⟨hheight, ?_⟩
    rw [if_pos hheight]
    rfl
  · refine .inl ⟨_, count', ?_, (hpublish hpublishable hformatted).rewrite (.metaPage
      { tree with rootPage := allocation.reference, height := tree.height + 1 }) hread⟩
    simp only [if_neg hheight, hmetaChange]
    simp [pure, Except.pure]

/-- By induction on the context: a parent with room is rewritten, a full one is split and
its middle separator goes one level up. -/
lemma insertUp_ok {alloc : Allocator} {changes : List PreparedPage} {count : Nat}
    {tl tr : Tree k}
    (h : Splitting s handle tree alloc changes c tl tr) (halloc : Allocating s grants alloc count)
    (hpublishable : Publishable s changes count)
    (hordered : Ordered (cellsOf (c.left ++ (pieces tl ++ .fence promoted :: pieces tr) ++ c.right)))
    (hvalid : ValidEntry tree.spec promoted) (hfits : SeparatorFits tree promoted) :
    Climbs s tree (insertUp s handle tree alloc changes (rootRef tl) promoted (rootRef tr)
      (c.path tl)) := by
  have hroot := hrep.root_held.fits.pageOf
  induction c generalizing alloc changes count promoted with
  | top => exact insertUp_top_ok hrep hmeta hsound h halloc hpublishable hvalid hfits
  | up ref before post outer ih =>
    rw [pieces_up] at hordered
    have hbranch : Ordered (cellsOf
        ((assemble ref before tl ((promoted, tr) :: post)).pieces pieces)) := by
      simp only [cellsOf_append] at hordered
      exact (ordered_append.mp (ordered_append.mp hordered).1).2.1
    have hsorted := branch_sorted hbranch
    have hformatted := h.parent_formatted hvalid hsorted
    have hparent := h.parent_held
    have hencodes := hformatted.encodes hparent.fits.pageOf
    simp only [encodeNode] at hencodes
    simp only [Ctx.path, insertUp, h.insertSeparator_ok hsorted, hencodes, lift, bind, Except.bind]
    split_ifs with hsize
    · have hfits' : Fits tree ref (.internal
          ((assemble ref before tl ((promoted, tr) :: post)).node rootRef)) :=
        ⟨hparent.fits.nonzero, hparent.fits.generated, _,
          hformatted.encodes hparent.fits.pageOf, hsize⟩
      have hchange := hparent.prepareDeleteNode hfits' rfl
      rw [prepareDeleteNode] at hchange
      rw [hchange]
      exact .inl ⟨_, count, rfl, hpublishable.rewrite _ hparent.readBTreePage⟩
    · obtain ⟨allocation, alloc', count', htake, halloc', hheader, hpublish⟩ :=
        halloc.take hsound hroot
      obtain ⟨hgenerated, htook⟩ := takePageRef_eq_ok htake
      have hpage : PageOf tree allocation.reference :=
        ⟨((h.up_inUse promoted).take hrep.header htook).2, hgenerated, hheader⟩
      have hseparators := congrArg InternalNode.separators
        (node_assemble rootRef ref before tl ((promoted, tr) :: post))
      rw [map_cons] at hseparators
      have hold := hparent.fits.payload_le
      rw [node_assemble] at hold
      obtain ⟨left, middle, right, hsplit, hleft, hright⟩ :=
        splitInternal_ok hformatted hseparators hold
      obtain ⟨ls, middle, rs, hcut, rfl, rfl, rfl⟩ := splitInternal_eq_ok hsplit
      obtain ⟨rest, t, rest', hrest, hleftNode, hrightNode⟩ :=
        node_split allocation.reference hcut
      obtain ⟨hleftFormatted, hrightFormatted⟩ := hformatted.internal_parts hcut
      have hrightChange := (hrightFormatted.fits hpage hright).prepareNewNode
      have hleftChange := hparent.prepareDeleteNode
        (hleftFormatted.fits hparent.fits.pageOf hleft) rfl
      rw [prepareNewNode] at hrightChange
      rw [prepareDeleteNode] at hleftChange
      simp only [htake, hsplit, hrightChange, hleftChange]
      have hpublishable' := (hpublish hpublishable hrightFormatted).rewrite (imageOf tree ref
        (.internal ⟨((assemble ref before tl ((promoted, tr) :: post)).node rootRef).firstChild,
          ls⟩)) hparent.readBTreePage
      rw [append_assoc] at hpublishable'
      have hmiddle : middle ∈
          ((assemble ref before tl ((promoted, tr) :: post)).node rootRef).separators := by
        simp [hcut]
      have hvalid' : ValidEntry tree.spec middle.key :=
        ((validateInternal_eq_ok.mp hformatted.1).2.1 middle hmiddle).1
      have hfits' : SeparatorFits tree middle.key := by
        rw [hseparators, mem_append, mem_cons] at hmiddle
        rcases hmiddle with hmem | rfl | hmem
        · exact separatorFits_of_payload hold (mem_append_left _ hmem)
        · exact hfits
        · exact separatorFits_of_payload hold (mem_append_right _ hmem)
      rw [hrightNode] at hrightChange hpublishable' ⊢
      rw [hleftNode] at hleftChange hpublishable' ⊢
      have hnext := h.splitParent hrep.header hrest htake hrightChange hleftChange
      have hpath : outer.path (.ofBranch (assemble ref before tl post)) =
          outer.path (.ofBranch ⟨ref, headChild before tl, rest⟩) := outer.path_congr rfl
      rw [hpath]
      refine ih hnext halloc' hpublishable' ?_ hvalid' hfits'
      have hpieces : (assemble ref before tl ((promoted, tr) :: post)).pieces pieces =
          pieces (.ofBranch ⟨ref, headChild before tl, rest⟩ : Tree _) ++
            .fence middle.key ::
              pieces (.ofBranch ⟨allocation.reference, t, rest'⟩ : Tree _) := by
        rw [Branch.pieces, hrest]
        simp [Branch.pieces, assemble]
      rwa [hpieces] at hordered

end Climb

lemma insert_ok {node : LeafNode} {spec : IndexSpec} {entry : IndexEntryKey}
    (hsorted : node.entries.Pairwise (· < ·)) (hvalid : ValidEntry spec entry)
    (habsent : entry ∉ node.entries) :
    ∃ l r, node.entries = l ++ r ∧ (∀ x ∈ l, x < entry) ∧ (∀ x ∈ r, entry < x) ∧
      node.insert spec entry = .ok { node with entries := l ++ entry :: r } := by
  rcases binarySearchBy_spec hsorted entry with ⟨l, r, hlr, -⟩ | ⟨l, r, hlr, hl, hr, hsearch⟩
  · exact absurd (by simp [hlr]) habsent
  refine ⟨l, r, hlr, hl, hr, ?_⟩
  have hinsert : node.entries.insertIdx l.length entry = l ++ entry :: r := by
    rw [hlr, insertIdx_append_length]
  simp only [LeafNode.insert, hvalid.1, hvalid.2, hsearch, hinsert, ok_bind, pure_ok]

lemma Formatted.leaf_insert {l r : List IndexEntry} (h : Formatted tree (.leaf ⟨l ++ r, next⟩))
    (hvalid : ValidEntry tree.spec entry) (hl : ∀ x ∈ l, x < entry) (hr : ∀ x ∈ r, entry < x) :
    Formatted tree (.leaf ⟨l ++ entry :: r, next⟩) := by
  obtain ⟨hold, hnext⟩ := h
  obtain ⟨hnonzero, hentries, hsorted⟩ := validateLeaf_eq_ok.mp hold
  obtain ⟨hsl, hsr, hcross⟩ := pairwise_append.mp hsorted
  refine ⟨validateLeaf_eq_ok.mpr ⟨hnonzero, fun x hx => ?_, ?_⟩, hnext⟩
  · rcases mem_append.mp hx with hx | hx
    · exact hentries x (mem_append_left _ hx)
    · rcases mem_cons.mp hx with rfl | hx
      · exact hvalid
      · exact hentries x (mem_append_right _ hx)
  · refine pairwise_append.mpr ⟨hsl, pairwise_cons.mpr ⟨hr, hsr⟩, fun x hx y hy => ?_⟩
    rcases mem_cons.mp hy with rfl | hy
    · exact hl x hx
    · exact hcross x hx y hy

/-- The insertion went through, or the tree has the greatest height. -/
def Inserts (s : Store) (grants : Nat → PageGrant) (handle : BTreeHandle) (tree : MetaNode)
    (key : ScalarValue) (rowId : RowId) : Prop :=
  (∃ s', insertIn s grants handle key rowId = (s', .ok ())) ∨
    (2 ^ 32 ≤ tree.height + 1 ∧
      insertIn s grants handle key rowId = (s, .error (.index (.invalidHeight tree.height))))

/-- The insertion changed nothing: a node would not fit its page. -/
def TooLarge (s : Store) (grants : Nat → PageGrant) (handle : BTreeHandle) (tree : MetaNode)
    (key : ScalarValue) (rowId : RowId) : Prop :=
  ∃ size, insertIn s grants handle key rowId =
    (s, .error (.index (.nodeTooLarge size (nodeCapacity tree))))

lemma withEntry_eq {leaf : LeafNode} {l r : List IndexEntry} (hentries : leaf.entries = l ++ r)
    (hl : ∀ x ∈ l, x < entry) (hr : ∀ x ∈ r, entry < x) :
    withEntry leaf entry = l ++ entry :: r := by
  have hll : l.filter (· < entry) = l := filter_eq_self.mpr (by simpa using hl)
  have hlr : r.filter (· < entry) = [] :=
    filter_eq_nil_iff.mpr (by simpa using fun x hx => (hr x hx).le)
  have hrl : l.filter (entry < ·) = [] :=
    filter_eq_nil_iff.mpr (by simpa using fun x hx => (hl x hx).le)
  have hrr : r.filter (entry < ·) = r := filter_eq_self.mpr (by simpa using hr)
  simp only [withEntry, hentries, filter_append, hll, hlr, hrl, hrr, append_nil, nil_append]

/-- Every insertion of an absent, accepted entry goes through where there is room for
it, and there is room for half a leaf; without room it is refused as too large. -/
lemma Represents.insertIn_cases {t : Tree n} (h : Represents s handle tree t)
    (hmeta : metaSize tree.spec tree.owner tree.generation ≤ singlePayloadCapacity)
    {grants : Nat → PageGrant} (hsound : SoundGrants s tree grants) {key : ScalarValue}
    {rowId : RowId} (hroom : ∀ e ∈ entriesOf t, SeparatorFits tree e)
    (hfits : ensureEntryFits tree.spec ⟨key, rowId⟩ (entryCapacity tree) = .ok ())
    (habsent : ⟨key, rowId⟩ ∉ entriesOf t) :
    (RoomFor s tree ⟨key, rowId⟩ ∧ Inserts s grants handle tree key rowId) ∨
      (¬ RoomFor s tree ⟨key, rowId⟩ ∧ ¬ HalfLeaf tree ⟨key, rowId⟩ ∧
        TooLarge s grants handle tree key rowId) := by
  unfold Inserts TooLarge insertIn
  have hvalid := Represents.ensureEntryFits_valid hfits
  have hnew := separatorFits_of_ensure hfits
  generalize (⟨key, rowId⟩ : IndexEntryKey) = entry at *
  obtain ⟨c, page, hleaf, hfind⟩ := h.findLeafForEntry entry
  rw [hleaf.mem_iff] at habsent
  obtain rfl := hleaf.plug
  have hheld : Held s tree page.ref (.leaf page.node) :=
    h.focus_held (page.ref, .leaf page.node) (by simp)
  obtain ⟨l, r, hentries, hl, hr, hinsert⟩ := insert_ok hheld.fits.sorted hvalid habsent
  have hroomFor : RoomFor s tree entry ↔
      payload tree (.leaf ⟨l ++ entry :: r, none⟩) ≤ nodeCapacity tree ∨
        Cuttable tree (l ++ entry :: r) := by
    simp only [RoomFor, hfind, ok.injEq, Prod.mk.injEq, ← withEntry_eq hentries hl hr]
    constructor
    · rintro ⟨_, _, _, ⟨-, rfl, -⟩, hroom⟩
      exact hroom
    · exact fun hroom => ⟨_, _, _, ⟨rfl, rfl, rfl⟩, hroom⟩
  rw [hroomFor]
  have hold := hheld.fits.payload_le
  have hnode : page.node = ⟨l ++ r, page.node.nextLeaf⟩ := by rw [← hentries]
  rw [hnode] at hold
  have hformatted := (hnode ▸ hheld.fits.formatted).leaf_insert hvalid hl hr
  have hencodes := hformatted.encodes hheld.fits.pageOf
  have hcapacity := hheld.fits.pageOf.capacity
  simp only [encodeNode] at hencodes
  simp only [planInsert, h.readMeta, hfits, hfind, hinsert, hencodes, lift, bind, Except.bind]
  split_ifs with hsize
  · have hchange := hheld.prepareDeleteNode (hformatted.fits hheld.fits.pageOf (by omega)) rfl
    rw [prepareDeleteNode] at hchange
    obtain ⟨s', happly⟩ := (Publishable.nil.rewrite (imageOf tree page.ref
      (.leaf ⟨l ++ entry :: r, page.node.nextLeaf⟩)) hheld.readBTreePage).applyChanges
        (by simp [changedIds])
    rw [nil_append] at happly
    refine .inl ⟨.inl ?_, .inl ⟨s', ?_⟩⟩
    · rw [payload_leaf] at hsize ⊢
      omega
    · simp only [hchange, pure, Except.pure, commitPlan, happly]
  · obtain ⟨allocation, alloc, count, htake, halloc, hheader, hpublish⟩ :=
      (Allocating.start s grants).take hsound hheld.fits.pageOf
    obtain ⟨hgenerated, htook⟩ := takePageRef_eq_ok htake
    have hpage : PageOf tree allocation.reference :=
      ⟨((h.inUse grants).take h.header htook).2, hgenerated, hheader⟩
    have hover : nodeCapacity tree <
        payload tree (.leaf ⟨l ++ entry :: r, page.node.nextLeaf⟩) := by omega
    by_cases hcut : Cuttable tree (l ++ entry :: r)
    swap
    · refine .inr ⟨not_or.mpr ⟨not_le.mpr hover, hcut⟩,
        fun hhalf => hcut (hhalf.cuttable hold hover), encodedEntriesSize (l ++ entry :: r), ?_⟩
      simp only [htake, splitLeaf_error hpage hformatted hcut, commitPlan]
    refine .inl ⟨.inr hcut, ?_⟩
    obtain ⟨left, right, promoted, hsplit, hleftFormatted, hleft, hrightFormatted, hright⟩ :=
      splitLeaf_ok hpage hformatted hcut
    obtain ⟨ys, zs, hys, hcut, rfl, rfl⟩ := splitLeaf_eq_ok hsplit
    have hrightChange := (hrightFormatted.fits hpage hright).prepareNewNode
    have hleftChange := hheld.prepareDeleteNode
      (hleftFormatted.fits hheld.fits.pageOf hleft) rfl
    rw [prepareNewNode] at hrightChange
    rw [prepareDeleteNode] at hleftChange
    have hpublishable := (hpublish .nil hrightFormatted).rewrite (imageOf tree page.ref
      (.leaf ⟨ys, some allocation.reference⟩)) hheld.readBTreePage
    have hstart := h.splitLeaf htake hrightChange hleftChange
    have hpath : c.path (.ofLeaf page) =
        c.path (.ofLeaf ⟨page.ref, ⟨ys, some allocation.reference⟩⟩) := c.path_congr rfl
    have htree : tree = withRoot tree
        (c.plug (.ofLeaf ⟨page.ref, ⟨ys, some allocation.reference⟩⟩)) :=
      h.eq_withRoot.trans (withRoot_plug_congr rfl)
    have hpromoted : promoted ∈ l ++ entry :: r := by simp [hcut]
    have hpromotedFits : SeparatorFits tree promoted := by
      have hmem : promoted = entry ∨ promoted ∈ page.node.entries := by
        rw [mem_append, mem_cons] at hpromoted
        rw [hentries, mem_append]
        tauto
      rcases hmem with rfl | hmem
      · exact hnew
      · refine hroom _ ?_
        rw [entriesOf_plug]
        simp [hmem]
    have hordered := hleaf.ordered_insert h.ordered hentries hl hr
    rw [hcut] at hordered
    have hclimbs := insertUp_ok h hmeta hsound hstart halloc hpublishable
      (by simpa using hordered.split_group hys)
      ((validateLeaf_eq_ok.mp hformatted.1).2.1 promoted hpromoted) hpromotedFits
    simp only [htake, hsplit, hrightChange, hleftChange, reverse_reverse, hpath]
    rcases hclimbs with ⟨changes, total, hup, hpublishable⟩ | ⟨hheight, hup⟩
    · obtain ⟨_, _, -, hplanned, -⟩ := insertUp_eq_ok hstart h.header htree hup
      obtain ⟨s', happly⟩ := hpublishable.applyChanges hplanned.nodup
      refine .inl ⟨s', ?_⟩
      simp only [rootRef_ofLeaf] at hup
      simp only [hup, pure, Except.pure, commitPlan, happly]
    · refine .inr ⟨hheight, ?_⟩
      simp only [rootRef_ofLeaf] at hup
      simp only [hup, commitPlan]

/-- A created tree has room for its metadata, whatever its root becomes. -/
lemma Reaches.metaSize_le {spec : IndexSpec} {entries : Finset IndexEntryKey}
    (h : Reaches spec handle s entries) :
    metaSize spec handle.owner handle.metaPage.generation ≤ singlePayloadCapacity := by
  induction h with
  | create header run =>
    obtain ⟨changes, hplan, -⟩ := commitPlan_eq_ok run
    simp only [planCreate, bind_eq_ok, lift_eq_ok, check_eq_ok, pure_eq_ok,
      Prod.mk.injEq] at hplan
    obtain ⟨⟨metaPage, alloc⟩, -, ⟨rootPage, alloc'⟩, -, size, hsize, hle, -, -, -, -, -, -, -,
      rfl⟩ := hplan
    obtain ⟨rfl, -⟩ := encodeMeta_eq_ok hsize
    exact not_lt.mp hle
  | insert _ _ ih | delete _ _ ih | deleteBalanced _ _ ih | other _ _ _ _ ih => exact ih

/-- In every reachable file, a pair that is absent and accepted can be inserted exactly
if the leaf it belongs to has room for it or can be cut, as for a pair of at most half a
leaf; otherwise it is refused as too large. -/
theorem Reaches.insertIn_succeeds_iff {spec : IndexSpec} {entries : Finset IndexEntryKey}
    (hrun : Reaches spec handle s entries) (hread : readMeta s handle = .ok tree)
    {grants : Nat → PageGrant} (hsound : SoundGrants s tree grants) {key : ScalarValue}
    {rowId : RowId} (habsent : ⟨key, rowId⟩ ∉ entries)
    (hfits : ensureEntryFits tree.spec ⟨key, rowId⟩ (entryCapacity tree) = .ok ()) :
    (Inserts s grants handle tree key rowId ↔ RoomFor s tree ⟨key, rowId⟩) ∧
      (TooLarge s grants handle tree key rowId ↔ ¬ RoomFor s tree ⟨key, rowId⟩) ∧
      (HalfLeaf tree ⟨key, rowId⟩ → RoomFor s tree ⟨key, rowId⟩) := by
  obtain ⟨tree', n, t, h⟩ := hrun.holds
  obtain rfl : tree' = tree := Except.ok.inj (h.represents.readMeta.symm.trans hread)
  have hmeta := hrun.metaSize_le
  rw [← h.specified, h.represents.owner, h.represents.generation] at hmeta
  have hseparators (e) (he : e ∈ entriesOf t) : SeparatorFits tree' e := by
    have hroom := h.room e ((h.mem e).mp he)
    rw [← h.specified] at hroom
    exact separatorFits_of_ensure hroom
  have hexclusive : Inserts s grants handle tree' key rowId →
      ¬ TooLarge s grants handle tree' key rowId := by
    rintro (⟨s', hok⟩ | ⟨-, herror⟩) ⟨size, hlarge⟩
    · simp [hok] at hlarge
    · simp [herror] at hlarge
  obtain ⟨hroom, hok⟩ | ⟨hroom, hhalf, hlarge⟩ := h.represents.insertIn_cases hmeta hsound
    hseparators hfits fun hmem => habsent ((h.mem _).mp hmem)
  · exact ⟨iff_of_true hok hroom, iff_of_false (hexclusive hok) (not_not.mpr hroom), fun _ => hroom⟩
  · exact ⟨iff_of_false (fun hok => hexclusive hok hlarge) hroom, iff_of_true hlarge hroom,
      fun h => absurd h hhalf⟩

/-- Pages at the end of the file can always be allocated. -/
lemma Sparse.soundGrants (s : Store) (tree : MetaNode) : SoundGrants s tree Sparse.grants := by
  refine ⟨fun _ => Nat.one_ne_zero, fun _ _ h => ?_, fun _ _ _ h => ?_⟩ <;> cases h

/-- A pair of half a leaf into a tree of four levels. -/
theorem Reaches.insertIn_succeeds_filled :
    ∃ tree, readMeta Sparse.filled Sparse.handle = .ok tree ∧ tree.height = 4 ∧
      Inserts Sparse.filled Sparse.grants Sparse.handle tree (Sparse.pair 2 1990).key
        (Sparse.pair 2 1990).rowId := by
  have hread : readMeta filled handle = .ok ⟨none, none, .legacy 11, 4, spec⟩ := by
    decide +kernel
  have hhalf : HalfLeaf ⟨none, none, .legacy 11, 4, spec⟩ (pair 2 1990) := by
    unfold HalfLeaf
    decide +kernel
  obtain ⟨hiff, -, hroom⟩ := reaches_filled.insertIn_succeeds_iff hread (soundGrants _ _)
    (by decide +kernel : pair 2 1990 ∉ ∅ ∪ pairs.toFinset) (by decide +kernel)
  exact ⟨_, hread, rfl, hiff.mpr (hroom hhalf)⟩

def Sparse.half : Store :=
  (insertIn created grants Sparse.handle (pair 1 1990).key (pair 1 1990).rowId).1

def Sparse.halves : Store :=
  (insertIn half grants Sparse.handle (pair 3 1990).key (pair 3 1990).rowId).1

lemma Sparse.reaches_halves :
    ∃ entries, Reaches spec Sparse.handle halves entries ∧ pair 2 3990 ∉ entries := by
  have hfirst : (insertIn created grants handle (pair 1 1990).key
      (pair 1 1990).rowId).2 = .ok () := by
    decide +kernel
  have hsecond : (insertIn half grants handle (pair 3 1990).key
      (pair 3 1990).rowId).2 = .ok () := by
    decide +kernel
  exact ⟨_, (reaches_created.insert (eq_of_snd hfirst)).insert (eq_of_snd hsecond),
    by decide +kernel⟩

/-- Two pairs of half a leaf each leave no place for a longer one between them:
neither half of any cut fits. -/
theorem insertIn_cannot_split :
    ∃ (s : Store) (entries : Finset IndexEntryKey) (tree : MetaNode),
      Reaches Sparse.spec Sparse.handle s entries ∧ readMeta s Sparse.handle = .ok tree ∧
        SoundGrants s tree Sparse.grants ∧ Sparse.pair 2 3990 ∉ entries ∧
        ensureEntryFits tree.spec (Sparse.pair 2 3990) (entryCapacity tree) = .ok () ∧
        insertIn s Sparse.grants Sparse.handle (Sparse.pair 2 3990).key
          (Sparse.pair 2 3990).rowId = (s, .error (.index (.nodeTooLarge 8050 4060))) := by
  obtain ⟨entries, hrun, habsent⟩ := reaches_halves
  have hread : readMeta halves handle =
      .ok ⟨none, none, .legacy 2, 1, spec⟩ := by
    decide +kernel
  have hplan : planInsert halves grants handle (pair 2 3990) =
      .error (.index (.nodeTooLarge 8050 4060)) := by
    decide +kernel
  refine ⟨_, _, _, hrun, hread, soundGrants _ _, habsent, by decide +kernel, ?_⟩
  change commitPlan _ (planInsert _ _ _ (pair 2 3990)) = _
  rw [hplan]
  rfl

end Netbadb.BTree
