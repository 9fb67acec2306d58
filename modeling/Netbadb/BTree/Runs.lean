import Netbadb.BTree.NormalizeSpec
import Netbadb.BTree.OwnedPages

/-!
Whole runs of one tree: its creation, then successful insertions and deletions
in any order. The file is shared, so between two operations any page may change
that the tree does not own. A run carries the set of entries it leaves, and
every file it reaches represents a tree with exactly these entries.
-/

namespace Netbadb.BTree

open Fences Outcome Branch List

variable {s s' : Store} {spec : IndexSpec} {handle : BTreeHandle}

lemma createWithOwnerIn_eq_ok {grants : Nat → PageGrant} {owner : Option Nat}
    (hheader : s.pages[0]? = some .other)
    (hrun : createWithOwnerIn s grants spec owner = (s', .ok handle)) :
    ∃ (tree : MetaNode) (root : BTreePageRef), tree.spec = spec ∧
      Represents s' handle tree (.ofLeaf ⟨root, .empty⟩) := by
  obtain ⟨changes, hplan, happly⟩ := commitPlan_eq_ok hrun
  simp only [planCreate, bind_eq_ok, lift_eq_ok, check_eq_ok, pure_eq_ok,
    Prod.mk.injEq] at hplan
  obtain ⟨⟨metaPage, alloc⟩, hmeta, ⟨rootPage, alloc'⟩, hroot, metaSize, hmetaSize, -, rootSize,
    hrootSize, metaChange, hmetaChange, rootChange, hrootChange, rfl, rfl⟩ := hplan
  dsimp only at hmetaSize hrootSize hmetaChange hrootChange ⊢
  obtain ⟨hmetaGenerated, hmetaTook⟩ := takePageRef_eq_ok hmeta
  obtain ⟨hrootGenerated, hrootTook⟩ := takePageRef_eq_ok hroot
  obtain ⟨rfl, -⟩ := prepareNewPage_eq_ok hmetaChange
  obtain ⟨rfl, hrootFits⟩ := prepareNewPage_eq_ok hrootChange
  have hstart : InUse s owner (startAllocator s grants) [] :=
    ⟨nodup_nil, by simp, le_refl _, by simp⟩
  obtain ⟨hmetaUsed, hmetaNonzero⟩ := hstart.take hheader hmetaTook
  obtain ⟨hused, hrootNonzero⟩ := hmetaUsed.take hheader hrootTook
  have hdistinct : metaPage.reference.pageId ≠ rootPage.reference.pageId := by
    have := hused.nodup
    simp only [nodup_cons, mem_singleton] at this
    exact fun heq => this.1 heq.symm
  have hpublished := applyChanges_eq_ok happly (by simpa [changedIds] using hdistinct)
  refine ⟨⟨metaPage.reference.generation, owner, rootPage.reference, 1, spec⟩,
    rootPage.reference, rfl, ?_⟩
  refine
    { header := ?_, metaStored := ?_, metaNonzero := hmetaNonzero, metaEncodes := ⟨_, hmetaSize⟩,
      owner := rfl, generation := rfl, height := rfl, root := rfl, held := ?_, nodup := ?_,
      ordered := ?_, linked := ⟨rfl, trivial⟩, nonempty := fun hn => absurd rfl hn }
  · rw [hpublished.frame 0 ?_, hheader]
    simp [changedIds, hmetaNonzero.symm, hrootNonzero.symm]
  · exact hpublished.written _ mem_cons_self
  · intro p hp
    obtain rfl : p = (rootPage.reference, .leaf .empty) := by simpa using hp
    refine ⟨⟨hrootNonzero, ?_, rootSize, hrootSize, hrootFits⟩, ?_⟩
    · rw [hrootGenerated, hmetaGenerated]
    · exact hpublished.written _ (mem_cons_of_mem _ mem_cons_self)
  · simpa [pageIds] using hdistinct
  · simp [LeafNode.empty, Ordered]

variable {tree : MetaNode} {n : Nat} {t : Tree n} {entries : Finset IndexEntryKey}

lemma deleteIn_eq_ok {key : ScalarValue} {rowId : RowId} (h : Represents s handle tree t)
    (hrun : deleteIn s handle key rowId = (s', .ok ())) :
    ∃ (m : Nat) (t' : Tree m), Represents s' handle (withRoot tree t') t' ∧
      { key, rowId } ∈ entriesOf t ∧
      ∀ entry, entry ∈ entriesOf t' ↔ entry ≠ { key, rowId } ∧ entry ∈ entriesOf t := by
  rw [deleteIn] at hrun
  cases hpreflight : deletePreflight s handle { key, rowId } with
  | error error => simp [hpreflight] at hrun
  | ok needsNormalization =>
    cases needsNormalization with
    | false =>
      simp only [hpreflight, Bool.false_eq_true, if_false] at hrun
      exact deleteBalancedIn_eq_ok h hrun
    | true =>
      simp only [hpreflight, if_true] at hrun
      cases hnormalize : normalizeDeletePath handle { key, rowId } s.pageCount s with
      | mk s₁ outcome =>
        cases outcome with
        | error error => simp [hnormalize] at hrun
        | ok u =>
          simp only [hnormalize] at hrun
          obtain ⟨m, t₁, h₁, hpieces, -⟩ := normalizeDeletePath_eq_ok h hnormalize
          obtain ⟨m', t', h', hpresent, hmem⟩ := deleteBalancedIn_eq_ok h₁ hrun
          have hentries : entriesOf t₁ = entriesOf t := by rw [entriesOf, hpieces, entriesOf]
          rw [hentries] at hpresent hmem
          exact ⟨m', t', h', hpresent, hmem⟩

/-- A tree only depends on page zero and on the pages it owns. -/
lemma Represents.frame (h : Represents s handle tree t) (hheader : s'.pages[0]? = s.pages[0]?)
    (hframe : ∀ id ∈ handle.metaPage.pageId :: pageIds t, s'.pages[id]? = s.pages[id]?) :
    Represents s' handle tree t := by
  refine { h with header := hheader.trans h.header, metaStored := ?_, held := ?_ }
  · rw [hframe _ mem_cons_self, h.metaStored]
  · intro p hp
    refine ⟨(h.held p hp).fits, ?_⟩
    rw [hframe _ (mem_cons_of_mem _ (mem_map_of_mem hp)), (h.held p hp).stored]

/-- The runs of one tree. `Reaches spec handle s entries` says that the file
`s` can be reached from the creation of the tree by operations that all
returned `Ok`, and that `entries` were inserted and not deleted afterwards. -/
inductive Reaches (spec : IndexSpec) (handle : BTreeHandle) :
    Store → Finset IndexEntryKey → Prop where
  | create {s s' : Store} {grants : Nat → PageGrant} {owner : Option Nat}
      (header : s.pages[0]? = some .other)
      (run : createWithOwnerIn s grants spec owner = (s', .ok handle)) :
      Reaches spec handle s' ∅
  | insert {s s' : Store} {entries : Finset IndexEntryKey} {grants : Nat → PageGrant}
      {key : ScalarValue} {rowId : RowId} (before : Reaches spec handle s entries)
      (run : insertIn s grants handle key rowId = (s', .ok ())) :
      Reaches spec handle s' (insert { key, rowId } entries)
  | delete {s s' : Store} {entries : Finset IndexEntryKey} {key : ScalarValue} {rowId : RowId}
      (before : Reaches spec handle s entries)
      (run : deleteIn s handle key rowId = (s', .ok ())) :
      Reaches spec handle s' (entries.erase { key, rowId })
  | deleteBalanced {s s' : Store} {entries : Finset IndexEntryKey} {key : ScalarValue}
      {rowId : RowId} (before : Reaches spec handle s entries)
      (run : deleteBalancedIn s handle key rowId = (s', .ok ())) :
      Reaches spec handle s' (entries.erase { key, rowId })
  | other {s s' : Store} {entries : Finset IndexEntryKey} {owned : List Nat}
      (before : Reaches spec handle s entries)
      (pages : collectOwnedPages s handle [] = .ok owned)
      (header : s'.pages[0]? = s.pages[0]?)
      (frame : ∀ id ∈ owned, s'.pages[id]? = s.pages[id]?) :
      Reaches spec handle s' entries

/-- The file represents a tree of the given specification that holds exactly
the given entries, all of them small enough to be inserted. -/
structure Holds (spec : IndexSpec) (handle : BTreeHandle) (s : Store)
    (entries : Finset IndexEntryKey) (tree : MetaNode) {n : Nat} (t : Tree n) : Prop where
  represents : Represents s handle tree t
  specified : tree.spec = spec
  mem : ∀ entry, entry ∈ entriesOf t ↔ entry ∈ entries
  room : ∀ entry ∈ entries, ensureEntryFits spec entry (entryCapacity tree) = .ok ()

lemma Holds.erased {m : Nat} {t' : Tree m} {removed : IndexEntryKey}
    (h : Holds spec handle s entries tree t) (h' : Represents s' handle (withRoot tree t') t')
    (hmem : ∀ entry, entry ∈ entriesOf t' ↔ entry ≠ removed ∧ entry ∈ entriesOf t) :
    Holds spec handle s' (entries.erase removed) (withRoot tree t') t' := by
  refine ⟨h', h.specified, ?_, ?_⟩
  · intro entry
    rw [hmem, h.mem, Finset.mem_erase]
  · intro entry hentry
    exact h.room entry (Finset.mem_of_mem_erase hentry)

/-- A tree is not touched by what is written to pages that are not its own. -/
lemma Represents.of_others {owned : List Nat} (h : Represents s handle tree t)
    (pages : BTree.collectOwnedPages s handle [] = .ok owned) (header : s'.pages[0]? = s.pages[0]?)
    (frame : ∀ id ∈ owned, s'.pages[id]? = s.pages[id]?) : Represents s' handle tree t := by
  have hfree : ∀ id ∈ handle.metaPage.pageId :: pageIds t, id ∉ ([] : List Nat) := by simp
  obtain ⟨owned, howned, hperm⟩ := h.collectOwnedPages hfree
  rw [pages, Except.ok.injEq] at howned
  subst howned
  exact h.frame header fun id hid => frame id (hperm.mem_iff.mpr hid)

/-- Every run leaves a file that represents its set of entries. -/
lemma Reaches.holds (hrun : Reaches spec handle s entries) :
    ∃ (tree : MetaNode) (n : Nat) (t : Tree n), Holds spec handle s entries tree t := by
  induction hrun with
  | create header run =>
    obtain ⟨tree, root, hspec, h⟩ := createWithOwnerIn_eq_ok header run
    exact ⟨tree, 0, _, h, hspec, by simp [entriesOf, LeafNode.empty], by simp⟩
  | insert _ run ih =>
    obtain ⟨tree, n, t, h⟩ := ih
    obtain ⟨hroom, m, t', -, h', -, hmem⟩ := insertIn_eq_ok h.represents run
    refine ⟨_, m, t', h', h.specified, ?_, ?_⟩
    · intro entry
      rw [hmem, h.mem, Finset.mem_insert]
    intro entry hentry
    rcases Finset.mem_insert.mp hentry with rfl | hentry
    · rw [← h.specified]
      exact hroom
    · exact h.room entry hentry
  | delete _ run ih =>
    obtain ⟨tree, n, t, h⟩ := ih
    obtain ⟨m, t', h', -, hmem⟩ := deleteIn_eq_ok h.represents run
    exact ⟨_, m, t', h.erased h' hmem⟩
  | deleteBalanced _ run ih =>
    obtain ⟨tree, n, t, h⟩ := ih
    obtain ⟨m, t', h', -, hmem⟩ := deleteBalancedIn_eq_ok h.represents run
    exact ⟨_, m, t', h.erased h' hmem⟩
  | other _ pages header frame ih =>
    obtain ⟨tree, n, t, h⟩ := ih
    exact ⟨tree, n, t, h.represents.of_others pages header frame, h.specified, h.mem, h.room⟩

def insertAll (grants : Nat → PageGrant) (handle : BTreeHandle) :
    List IndexEntryKey → Store → Store × Except StorageError Unit
  | [], s => (s, .ok ())
  | entry :: rest, s =>
    match insertIn s grants handle entry.key entry.rowId with
    | (s', .ok ()) => insertAll grants handle rest s'
    | (s', .error error) => (s', .error error)

section

variable {grants : Nat → PageGrant} {pairs : List IndexEntryKey}

lemma insertAll_cons_ok {pair : IndexEntryKey}
    (hrun : insertAll grants handle (pair :: pairs) s = (s', .ok ())) :
    ∃ s₁, insertIn s grants handle pair.key pair.rowId = (s₁, .ok ()) ∧
      insertAll grants handle pairs s₁ = (s', .ok ()) := by
  rw [insertAll] at hrun
  cases hinsert : insertIn s grants handle pair.key pair.rowId with
  | mk s₁ outcome =>
    cases outcome with
    | error error => simp [hinsert] at hrun
    | ok u => exact ⟨s₁, rfl, by simpa only [hinsert] using hrun⟩

lemma Reaches.insertAll (h : Reaches spec handle s entries)
    (hrun : BTree.insertAll grants handle pairs s = (s', .ok ())) :
    Reaches spec handle s' (entries ∪ pairs.toFinset) := by
  induction pairs generalizing s entries with
  | nil =>
    simp only [BTree.insertAll, Prod.mk.injEq, and_true] at hrun
    simpa using hrun ▸ h
  | cons pair pairs ih =>
    obtain ⟨s₁, hinsert, hrest⟩ := insertAll_cons_ok hrun
    have hrun := ih (h.insert hinsert) hrest
    rwa [Finset.insert_union, ← Finset.union_insert, ← toFinset_cons] at hrun

end

end Netbadb.BTree

namespace Netbadb.BTree.Sparse

open Outcome List

def spec : IndexSpec := ⟨⟨.bytes, none⟩, false⟩

def handle : BTreeHandle := ⟨none, .legacy 1⟩

def grants : Nat → PageGrant := fun _ => ⟨none, 1⟩

/-- A key of `length + 1` bytes. -/
def pair (first : UInt8) (length : Nat) : IndexEntryKey :=
  ⟨.bytes (first :: replicate length 0), ⟨1, 0, 1⟩⟩

def created : Store := (createWithOwnerIn ⟨[.other]⟩ grants spec none).1

def ownedHandle : BTreeHandle := ⟨some 1, .allocated ⟨1, 1⟩⟩

def ownedCreated : Store := (createWithOwnerIn ⟨[.other]⟩ grants spec (some 1)).1

def quarters : List IndexEntryKey := [pair 1 1200, pair 2 1200, pair 3 1200, pair 4 1200]

/-- A registered tree of two leaves with two pairs each. -/
def ownedLeaves : Store := (insertAll grants ownedHandle quarters ownedCreated).1

/-- Four long keys. Two neighbours rarely fit one page, so the tree is four levels
high and most of its internal nodes have one child. -/
def pairs : List IndexEntryKey := [pair 4 3001, pair 1 3001, pair 0 1901, pair 8 1001]

def filled : Store := (insertAll grants handle pairs created).1

lemma reaches_created : Reaches spec handle created ∅ := by
  have hcreate : createWithOwnerIn ⟨[.other]⟩ grants spec none = (created, .ok handle) := rfl
  exact Reaches.create rfl hcreate

def removed : IndexEntryKey := pair 0 1901

def after : Store × Except StorageError Unit := deleteIn filled handle removed.key removed.rowId

lemma reaches_filled : Reaches spec handle filled (∅ ∪ pairs.toFinset) := by
  have hok : (insertAll grants handle pairs created).2 = .ok () := by decide +kernel
  exact reaches_created.insertAll (eq_of_snd hok)

lemma ownedLeaves_ok :
    insertAll grants ownedHandle quarters ownedCreated = (ownedLeaves, .ok ()) := by
  have hok : (insertAll grants ownedHandle quarters ownedCreated).2 = .ok () := by decide +kernel
  exact eq_of_snd hok

lemma delete_ok : deleteIn filled handle removed.key removed.rowId = (after.1, .ok ()) := by
  have hok : after.2 = .ok () := by decide +kernel
  rw [after] at hok ⊢
  exact eq_of_snd hok

end Netbadb.BTree.Sparse
