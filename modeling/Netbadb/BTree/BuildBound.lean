import Netbadb.BTree.Build
import Netbadb.BTree.Runs

/-!
The bound on what an index build writes.

An insertion writes two pages on each level of the tree, and two more when the
root splits. The tree gains at most one level with each entry, so the sum over
the entries is quadratic. Each claimed page costs at most one call on the
catalog, since an identity stands in one node only.
-/

namespace Netbadb.BTree

open Outcome List

variable {grants : Nat → PageGrant} {owner : Option Nat}

section Insertion

variable {s : Store} {tree : MetaNode} {handle : BTreeHandle} {page : BTreePageRef}
  {change : PreparedPage} {changes changes' : List PreparedPage} {entry : IndexEntryKey}
  {path : List PathEntry}

lemma prepareExistingPage_existing {image : PageImage} {size : Nat}
    (h : prepareExistingPage s page image size owner = .ok change) :
    change.publication = .existing := by
  simp only [prepareExistingPage, bind_eq_ok, check_eq_ok, pure_eq_ok] at h
  obtain ⟨_, _, _, _, _, _, _, _, _, _, _, _, rfl⟩ := h
  rfl

lemma allocated_le (changes : List PreparedPage) : allocated changes ≤ changes.length :=
  countP_le_length

lemma claimed_le (changes : List PreparedPage) : claimed changes ≤ allocated changes :=
  countP_mono_left fun change _ h => by
    have : change.publication = .transition := by simpa using h
    simp [this]

/-- A new page next to one that is written in place. -/
lemma allocated_pair (changes : List PreparedPage) (new : PreparedPage)
    (h : change.publication = .existing) :
    allocated (changes ++ [new, change]) ≤ allocated changes + 1 := by
  have hnew := allocated_le [new]
  simp only [allocated, countP_append, countP_cons, h, countP_nil] at *
  simpa using hnew

lemma descendForEntry_length {levels : Nat} {leaf : LeafNode} {leafPage : BTreePageRef}
    (h : descendForEntry s tree entry levels page = .ok (leafPage, leaf, path)) :
    path.length = levels := by
  induction levels generalizing page leafPage leaf path with
  | zero =>
    simp only [descendForEntry, bind_eq_ok, pure_eq_ok, Prod.mk.injEq] at h
    obtain ⟨_, -, -, -, rfl⟩ := h
    rfl
  | succ levels ih =>
    simp only [descendForEntry, bind_eq_ok, pure_eq_ok, Prod.mk.injEq] at h
    obtain ⟨_, -, _, -, _, -, ⟨_, _, rest⟩, hrest, -, -, rfl⟩ := h
    rw [length_cons, ih hrest]

/-- Each level above writes two pages, one of them new, and the root two more. -/
lemma insertUp_writes {alloc : Allocator} {left right : BTreePageRef}
    (h : insertUp s handle tree alloc changes left entry right path = .ok changes') :
    changes'.length ≤ changes.length + 2 * path.length + 2 ∧
      allocated changes' ≤ allocated changes + path.length + 1 := by
  induction path generalizing alloc changes left right entry with
  | nil =>
    simp only [insertUp, bind_eq_ok, check_eq_ok, pure_eq_ok] at h
    obtain ⟨_, -, rootChange, -, -, metaChange, hmeta, rfl⟩ := h
    simp only [prepareMeta, bind_eq_ok] at hmeta
    obtain ⟨_, -, hmeta⟩ := hmeta
    have hpair := allocated_pair changes rootChange (prepareExistingPage_existing hmeta)
    simp only [length_append, length_cons, length_nil]
    omega
  | cons parent path ih =>
    simp only [insertUp, bind_eq_ok] at h
    obtain ⟨_, -, _, -, h⟩ := h
    split_ifs at h
    · simp only [bind_eq_ok, pure_eq_ok, prepareInternal] at h
      obtain ⟨change, ⟨_, -, hchange⟩, rfl⟩ := h
      have hkept : allocated (changes ++ [change]) = allocated changes := by
        simp [allocated, prepareExistingPage_existing hchange]
      simp only [length_append, length_cons, length_nil, hkept]
      omega
    · simp only [bind_eq_ok, prepareInternal] at h
      obtain ⟨_, -, _, -, rightChange, -, leftChange, ⟨_, -, hleft⟩, h⟩ := h
      have hpair := allocated_pair changes rightChange (prepareExistingPage_existing hleft)
      have hup := ih h
      simp only [length_append, length_cons, length_nil] at *
      omega

lemma planInsert_writes (hmeta : readMeta s handle = .ok tree)
    (h : planInsert s grants handle entry = .ok (changes, ())) :
    changes.length ≤ 2 * tree.height + 2 ∧ allocated changes ≤ tree.height + 1 := by
  simp only [planInsert, hmeta, bind_eq_ok, Except.ok.injEq, exists_eq_left'] at h
  obtain ⟨_, -, ⟨leafPage, leaf, path⟩, hfind, _, -, _, -, h⟩ := h
  have hpath : path.length + 1 = tree.height := by
    unfold findLeafForEntry at hfind
    split at hfind
    · simp at hfind
    · next levels hlevels => rw [descendForEntry_length hfind, hlevels]
  split_ifs at h
  · simp only [bind_eq_ok, pure_eq_ok, Prod.mk.injEq, and_true] at h
    obtain ⟨change, -, rfl⟩ := h
    have := allocated_le [change]
    simp only [length_singleton] at *
    omega
  · simp only [bind_eq_ok, pure_eq_ok, Prod.mk.injEq, and_true, prepareLeaf] at h
    obtain ⟨_, -, _, -, rightChange, -, leftChange, ⟨_, -, hleft⟩, changes', hup, rfl⟩ := h
    have hwrites := insertUp_writes hup
    have hpair := allocated_pair [] rightChange (prepareExistingPage_existing hleft)
    have hnone : allocated [] = 0 := rfl
    simp only [nil_append, length_cons, length_nil, length_reverse] at *
    omega

end Insertion

structure CatalogWrites.AtMost (w : CatalogWrites) (n : Nat) : Prop where
  calls : w.calls ≤ n
  images : w.images ≤ 2 * w.calls

section Catalog

variable {encodedLen : IndexCatalogNode → Nat} {capacity owner n m : Nat} {floor : Option Nat}
  {node node' : IndexCatalogNode} {chain chain' nodes rest : List IndexCatalogNode}
  {w w' : CatalogWrites}

lemma CatalogWrites.AtMost.add (h : w.AtMost n) (h' : w'.AtMost m) : (w.add w').AtMost (n + m) := by
  have hcalls := h.calls
  have hcalls' := h'.calls
  have himages := h.images
  have himages' := h'.images
  constructor <;> simp only [CatalogWrites.add] <;> omega

lemma writeFirst_atMost
    (h : writeFirst encodedLen capacity floor node rest = .ok (chain', w)) : w.AtMost 1 := by
  simp only [writeFirst, writeCatalogNodeIn, bind_eq_ok, pure_eq_ok, Prod.mk.injEq] at h
  obtain ⟨nodes, ⟨⟨kept, overflow⟩, -, hnodes⟩, -, rfl⟩ := h
  refine ⟨le_rfl, ?_⟩
  split_ifs at hnodes
  · simp [← pure_eq_ok.mp hnodes]
  · cases hnodes
  · simp [← pure_eq_ok.mp hnodes]

lemma mem_ids_of_detached (h : node.detached owner = some node') : owner ∈ node.ids := by
  simp only [IndexCatalogNode.detached] at h
  split at h
  · rename_i hchanged
    simp only [IndexCatalogNode.ids, mem_append, mem_map]
    have hdropped : ∀ entry ∈ node.entries.filter (fun e => e.retired && e.id == owner),
        ∃ e ∈ node.entries, e.id = owner := by
      intro entry hentry
      obtain ⟨hmem, hid⟩ := mem_filter.mp hentry
      exact ⟨entry, hmem, by simpa using (Bool.and_eq_true_iff.mp hid).2⟩
    rcases hchanged with hne | hany
    · obtain ⟨entry, hentry⟩ := exists_mem_of_ne_nil _ hne
      exact .inl (hdropped entry hentry)
    obtain ⟨record, hrecord, hid⟩ := any_eq_true.mp hany
    rcases mem_append.mp hrecord with hrecord | hrecord
    · exact .inr ⟨record, hrecord, by simpa using (Bool.and_eq_true_iff.mp hid).1⟩
    · obtain ⟨entry, hentry, -⟩ := mem_map.mp hrecord
      exact .inl (hdropped entry hentry)
  · cases h

/-- A node is written for each occurrence of the owner at most. -/
lemma detachNodes_atMost (h : detachNodes encodedLen capacity owner floor chain = .ok (chain', w)) :
    w.AtMost ((chain.flatMap (·.ids)).count owner) := by
  induction chain generalizing floor chain' w with
  | nil =>
    cases h
    exact ⟨Nat.zero_le _, le_rfl⟩
  | cons node rest ih =>
    simp only [detachNodes, bind_eq_ok, pure_eq_ok, Prod.mk.injEq] at h
    obtain ⟨⟨nodes, w₁⟩, hnode, ⟨rest', w₂⟩, hrest, -, rfl⟩ := h
    rw [flatMap_cons, count_append]
    refine CatalogWrites.AtMost.add ?_ (ih hrest)
    unfold detachNode at hnode
    cases hdetached : node.detached owner with
    | none =>
      rw [hdetached] at hnode
      cases hnode
      exact ⟨Nat.zero_le _, le_rfl⟩
    | some node' =>
      rw [hdetached] at hnode
      have hone := writeFirst_atMost hnode
      exact ⟨hone.calls.trans (count_pos_iff.mpr (mem_ids_of_detached hdetached)), hone.images⟩

lemma detachRetiredOwnerRoot_atMost
    (h : detachRetiredOwnerRoot encodedLen capacity chain owner = .ok (chain', w)) :
    w.AtMost 1 := by
  simp only [detachRetiredOwnerRoot, validateCatalog, bind_eq_ok] at h
  obtain ⟨_, hvalid, h⟩ := h
  have hwrites := detachNodes_atMost h
  split_ifs at hvalid with hnodup
  exact ⟨hwrites.calls.trans (nodup_iff_count_le_one.mp hnodup owner), hwrites.images⟩

lemma Claims.atMost (h : Claims encodedLen capacity chain n chain' w) : w.AtMost n := by
  induction h with
  | start => exact ⟨le_rfl, le_rfl⟩
  | plain _ ih => exact ⟨Nat.le_succ_of_le ih.calls, ih.images⟩
  | detach owner _ run ih => exact ih.add (detachRetiredOwnerRoot_atMost run)

lemma advanceIndexIdFloorIn_atMost {target : Nat}
    (h : advanceIndexIdFloorIn encodedLen capacity chain target = .ok (chain', w)) :
    w.AtMost 1 := by
  simp only [advanceIndexIdFloorIn, bind_eq_ok, check_eq_ok] at h
  obtain ⟨_, -, -, h⟩ := h
  split_ifs at h
  · cases h
    exact ⟨Nat.zero_le _, le_rfl⟩
  · cases chain with
    | nil => cases h
    | cons root rest => exact writeFirst_atMost h

lemma appendIndexDefinition_atMost {entry : IndexCatalogEntry}
    (h : appendIndexDefinition encodedLen capacity entry floor chain = .ok (chain', w)) :
    w.AtMost 1 := by
  induction chain generalizing floor chain' with
  | nil => cases h
  | cons node rest ih =>
    cases rest with
    | nil => exact writeFirst_atMost h
    | cons next rest =>
      simp only [appendIndexDefinition, bind_eq_ok, pure_eq_ok, Prod.mk.injEq] at h
      obtain ⟨⟨rest', w'⟩, hrest, -, rfl⟩ := h
      exact ih hrest

variable {spec : IndexSpec} {handle : BTreeHandle} {s : Store} {rows : Nat} {writes : BuildWrites}
  {changes : List PreparedPage}

lemma commitPlan_of_ok {α : Type} {s' : Store} {a : α}
    {plan : Except StorageError (List PreparedPage × α)} (hplan : plan = .ok (changes, a))
    (hrun : applyChanges s changes = (s', .ok ())) : commitPlan s plan = (s', .ok a) := by
  simp only [commitPlan, hplan, hrun]

/-- The tree of a build has a level for each of its entries at most, and one more. -/
lemma Backfill.represents
    (h : Backfill encodedLen capacity spec handle chain s chain' rows writes) :
    ∃ (tree : MetaNode) (n : Nat) (t : Tree n), Represents s handle tree t ∧ n ≤ rows := by
  induction h with
  | create header plan run _ =>
    obtain ⟨tree, root, -, h⟩ := createWithOwnerIn_eq_ok header (commitPlan_of_ok plan run)
    exact ⟨tree, 0, _, h, le_rfl⟩
  | insert _ plan run _ ih =>
    obtain ⟨tree, n, t, h, hn⟩ := ih
    obtain ⟨-, m, t', hm, h', -⟩ := insertIn_eq_ok h (commitPlan_of_ok plan run)
    exact ⟨_, m, t', h', hm.trans (Nat.succ_le_succ hn)⟩
  | other _ pages header frame ih =>
    obtain ⟨tree, n, t, h, hn⟩ := ih
    exact ⟨tree, n, t, h.of_others pages header frame, hn⟩

lemma planCreate_length (h : planCreate s grants spec owner = .ok (changes, handle)) :
    changes.length = emptyTreePageCount := by
  simp only [planCreate, bind_eq_ok, check_eq_ok, pure_eq_ok, Prod.mk.injEq] at h
  obtain ⟨_, -, _, -, _, -, -, _, -, _, -, _, -, rfl, -⟩ := h
  rfl

lemma Backfill.writes_le (h : Backfill encodedLen capacity spec handle chain s chain' rows writes) :
    writes.images ≤ 2 + rows * (rows + 3) ∧ 2 * writes.allocations ≤ 4 + rows * (rows + 3) ∧
      writes.catalog.AtMost writes.allocations := by
  induction h with
  | @create _ _ _ _ changes _ _ _ plan _ claims =>
    have hlength : changes.length = 2 := planCreate_length plan
    have hallocated := allocated_le changes
    have hclaims := claims.atMost
    exact ⟨by simp [hlength], by dsimp only; omega,
      hclaims.calls.trans (claimed_le _), hclaims.images⟩
  | insert before plan _ claims ih =>
    obtain ⟨tree, n, t, h, hn⟩ := before.represents
    have hwrites := planInsert_writes h.readMeta plan
    rw [h.height] at hwrites
    obtain ⟨himages, hallocations, hcatalog⟩ := ih
    have hclaims := hcatalog.add claims.atMost
    refine ⟨?_, ?_, ?_⟩
    · nlinarith [hwrites.1]
    · nlinarith [hwrites.2]
    · exact ⟨hclaims.calls.trans (Nat.add_le_add_left (claimed_le _) _), hclaims.images⟩
  | other _ _ _ _ ih => exact ih

lemma Build.writes_le (h : Build encodedLen capacity spec handle rows writes) :
    writes.images ≤ 2 + rows * (rows + 3) ∧ 2 * writes.allocations ≤ 4 + rows * (rows + 3) ∧
      writes.catalog.AtMost (writes.allocations + 2) := by
  obtain ⟨entry, advance, fill, register⟩ := h
  obtain ⟨himages, hallocations, hcatalog⟩ := fill.writes_le
  have hcalls := ((advanceIndexIdFloorIn_atMost advance).add hcatalog).add
    (appendIndexDefinition_atMost register)
  exact ⟨himages, hallocations, hcalls.calls.trans (by dsimp only; omega), hcalls.images⟩

lemma checked_eq_ok {bits k l : Nat} : checked bits k = .ok l ↔ k = l ∧ k < 2 ^ bits := by
  unfold checked
  split_ifs with hlt
  all_goals simp [hlt]

lemma two_mul_half (k : Nat) :
    2 * (if k % 2 = 0 then k / 2 * (k + 3) else k * ((k + 3) / 2)) = k * (k + 3) := by
  split_ifs with heven
  · rw [← mul_assoc, show 2 * (k / 2) = k by omega]
  · rw [mul_left_comm, show 2 * ((k + 3) / 2) = k + 3 by omega]

lemma heapIndexBuildWriteBound_eq_ok {bound : HeapIndexBuildWriteBoundInspection}
    (h : heapIndexBuildWriteBound rows = .ok bound) :
    bound.btreePageImageUpperBound = 2 + rows * (rows + 3) ∧
      2 * bound.btreePageAllocationUpperBound = 4 + rows * (rows + 3) ∧
      bound.pageGenerationReservationUpperBound = bound.btreePageAllocationUpperBound ∧
      bound.catalogMutationCallUpperBound = bound.btreePageAllocationUpperBound + 3 ∧
      bound.catalogPageImageUpperBound = 2 * bound.catalogMutationCallUpperBound ∧
      bound.totalPageImageUpperBound =
        bound.btreePageImageUpperBound + bound.catalogPageImageUpperBound := by
  simp only [heapIndexBuildWriteBound, bind_eq_ok, checked_eq_ok, pure_eq_ok] at h
  obtain ⟨_, ⟨rfl, -⟩, _, ⟨rfl, -⟩, _, ⟨rfl, -⟩, _, ⟨rfl, -⟩, _, ⟨rfl, -⟩, _, ⟨rfl, -⟩, _, ⟨rfl, -⟩,
    _, ⟨rfl, -⟩, _, ⟨rfl, -⟩, _, ⟨rfl, -⟩, _, ⟨rfl, -⟩, _, ⟨rfl, -⟩, _, ⟨rfl, -⟩, _, ⟨rfl, -⟩,
    _, ⟨rfl, -⟩, _, ⟨rfl, -⟩, _, ⟨rfl, -⟩, h⟩ := h
  obtain ⟨_, ⟨rfl, -⟩, _, ⟨rfl, -⟩, _, ⟨rfl, -⟩, _, ⟨rfl, -⟩, _, ⟨rfl, -⟩, _, ⟨rfl, -⟩, _, -, _, -,
    _, -, _, -, rfl⟩ := h
  have hhalf := two_mul_half rows
  refine ⟨rfl, ?_, rfl, rfl, mul_comm _ _, rfl⟩
  dsimp only [emptyTreePageCount]
  omega

/-- One insertion into a tree of a build writes at most two pages for each
level and two more, and allocates at most one page for each level and one more.
What a whole build writes to its tree and to the catalog stays within the bound
for any number of rows that is not smaller, whenever the bound is returned at
all; it is then exact, so nothing has wrapped around. -/
theorem index_build_within_bound (encodedLen : IndexCatalogNode → Nat) (capacity : Nat)
    (spec : IndexSpec) (handle : BTreeHandle) :
    (∀ chain s chain' rows writes,
      Backfill encodedLen capacity spec handle chain s chain' rows writes →
      ∃ tree, readMeta s handle = .ok tree ∧ tree.height ≤ rows + 1 ∧
        ∀ grants entry changes, planInsert s grants handle entry = .ok (changes, ()) →
          changes.length ≤ 2 * tree.height + 2 ∧ allocated changes ≤ tree.height + 1) ∧
    ∀ rows writes rowUpperBound bound, Build encodedLen capacity spec handle rows writes →
      rows ≤ rowUpperBound → heapIndexBuildWriteBound rowUpperBound = .ok bound →
      writes.allocations ≤ bound.btreePageAllocationUpperBound ∧
        writes.allocations ≤ bound.pageGenerationReservationUpperBound ∧
        writes.images ≤ bound.btreePageImageUpperBound ∧
        writes.catalog.calls ≤ bound.catalogMutationCallUpperBound ∧
        writes.catalog.images ≤ bound.catalogPageImageUpperBound ∧
        writes.images + writes.catalog.images ≤ bound.totalPageImageUpperBound ∧
        bound.btreePageImageUpperBound = 2 + rowUpperBound * (rowUpperBound + 3) ∧
        2 * bound.btreePageAllocationUpperBound = 4 + rowUpperBound * (rowUpperBound + 3) := by
  constructor
  · intro chain s chain' rows writes hfill
    obtain ⟨tree, n, t, h, hn⟩ := hfill.represents
    refine ⟨tree, h.readMeta, ?_, fun grants entry changes hplan => ?_⟩
    · rw [h.height]
      exact Nat.succ_le_succ hn
    · exact planInsert_writes h.readMeta hplan
  · intro rows writes rowUpperBound bound hbuild hrows hbound
    obtain ⟨himages, hallocations, hcatalog⟩ := hbuild.writes_le
    obtain ⟨hi, ha, hr, hc, hci, ht⟩ := heapIndexBuildWriteBound_eq_ok hbound
    have hmono : rows * (rows + 3) ≤ rowUpperBound * (rowUpperBound + 3) :=
      Nat.mul_le_mul hrows (Nat.add_le_add_right hrows 3)
    have hcalls := hcatalog.calls
    have hpages := hcatalog.images
    refine ⟨?_, ?_, ?_, ?_, ?_, ?_, hi, ha⟩ <;> omega

/-- The size of `encode_index_catalog`: an entry has 56 bytes and its name. -/
def catalogLen (node : IndexCatalogNode) : Nat :=
  48 + (node.entries.map (·.bytes)).sum + 32 * node.pending.length

lemma Claims.plains (n : Nat) : Claims encodedLen capacity chain n chain ⟨0, 0⟩ := by
  induction n with
  | zero => exact .start
  | succ n ih => exact .plain ih

lemma Backfill.insertAll {pairs : List IndexEntryKey} {s' : Store}
    (h : Backfill encodedLen capacity spec handle chain s chain' rows writes)
    (hrun : BTree.insertAll grants handle pairs s = (s', .ok ())) : ∃ writes',
      Backfill encodedLen capacity spec handle chain s' chain' (rows + pairs.length) writes' := by
  induction pairs generalizing s rows writes with
  | nil =>
    simp only [BTree.insertAll, Prod.mk.injEq, and_true] at hrun
    exact ⟨writes, hrun ▸ h⟩
  | cons pair pairs ih =>
    obtain ⟨s₁, hinsert, hrest⟩ := insertAll_cons_ok hrun
    obtain ⟨changes, hplan, happly⟩ := commitPlan_eq_ok hinsert
    rw [length_cons, add_comm pairs.length, ← add_assoc]
    exact ih (h.insert hplan happly (.plains _)) hrest

/-- The build of a named index over four rows with long keys: the root splits, and an
insertion into the tree of two levels is within its own bound. -/
theorem index_build_within_bound_split : ∃ tree writes bound,
    readMeta Sparse.ownedLeaves Sparse.ownedHandle = .ok tree ∧ tree.height = 2 ∧
      (∀ grants entry changes,
        planInsert Sparse.ownedLeaves grants Sparse.ownedHandle entry = .ok (changes, ()) →
          changes.length ≤ 6 ∧ allocated changes ≤ 3) ∧
      Build catalogLen 4060 Sparse.spec Sparse.ownedHandle 4 writes ∧
      heapIndexBuildWriteBound 4 = .ok bound ∧
      writes.images + writes.catalog.images ≤ bound.totalPageImageUpperBound := by
  have hcreate := @Backfill.create catalogLen 4060 Sparse.spec Sparse.ownedHandle
    [⟨some 2, [], []⟩] ⟨[.other]⟩ _ Sparse.grants 1 _ _ _ rfl rfl rfl (.plains _)
  obtain ⟨writes, hfill⟩ := hcreate.insertAll Sparse.ownedLeaves_ok
  have hbuild := @Build.mk catalogLen 4060 _ _ [⟨some 1, [], []⟩] _ _ _ 2 _ _ _ _ _ ⟨1, false, 64⟩
    rfl hfill rfl
  have hbound := index_build_within_bound catalogLen 4060 Sparse.spec Sparse.ownedHandle
  obtain ⟨tree, hread, -, hinsert⟩ := hbound.1 _ _ _ _ _ hfill
  have hheight : (readMeta Sparse.ownedLeaves Sparse.ownedHandle).map (·.height) = .ok 2 := by
    decide +kernel
  rw [hread] at hheight
  have htwo : tree.height = 2 := Except.ok.inj hheight
  rw [htwo] at hinsert
  exact ⟨tree, _, _, hread, htwo, hinsert, hbuild, rfl,
    (hbound.2 _ _ 4 _ hbuild le_rfl rfl).2.2.2.2.2.1⟩

end Catalog

end Netbadb.BTree
