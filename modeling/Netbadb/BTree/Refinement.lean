import Netbadb.BTree.Runs

/-!
A tree is a finite set of `(key, RowId)` pairs. Every operation of the source
is described by the set that the run before it leaves: lookups list the pairs
in order, membership is membership, and an update that does not apply is
refused without touching the file.
-/

namespace Netbadb.BTree

open Fences Outcome Branch List

/-- What the operations answer on a file whose tree stands for `entries`. -/
structure Denotes (spec : IndexSpec) (handle : BTreeHandle) (s : Store)
    (entries : Finset IndexEntryKey) : Prop where
  /-- `lookup` lists the rows of a key in ascending order. -/
  lookup : ∀ key, spec.validateKey key = .ok () → ∃ rows, BTree.lookup s handle key = .ok rows ∧
    rows.Pairwise (· < ·) ∧ ∀ row, row ∈ rows ↔ ⟨key, row⟩ ∈ entries
  /-- A key the specification refuses has no rows. -/
  lookupRefused : ∀ key error, spec.validateKey key = .error error →
    BTree.lookup s handle key = .error (.index error) ∧ ∀ row, ⟨key, row⟩ ∉ entries
  /-- `lookup_range` lists the pairs of a range once each, in entry order. -/
  lookupRange : ∀ range, range.validate spec = .ok () → ∃ pairs : List IndexEntryKey,
    BTree.lookupRange s handle range = .ok (pairs.map (·.rowId)) ∧ pairs.Pairwise (· < ·) ∧
      ∀ pair, pair ∈ pairs ↔ pair ∈ entries ∧ InRange range pair.key
  /-- A range with a bound the specification refuses is refused. -/
  lookupRangeRefused : ∀ range error, range.validate spec = .error error →
    BTree.lookupRange s handle range = .error (.index error)
  /-- `contains_exact` is membership. -/
  containsExact : ∀ key row,
    BTree.containsExact s handle key row = .ok true ↔ ⟨key, row⟩ ∈ entries
  /-- `contains_exact` answers on every pair that an insertion accepts. -/
  containsExactAnswers : ∀ key row tree, readMeta s handle = .ok tree →
    ensureEntryFits tree.spec ⟨key, row⟩ (entryCapacity tree) = .ok () →
      BTree.containsExact s handle key row = .ok (decide (⟨key, row⟩ ∈ entries))
  /-- A pair that is present cannot be inserted. -/
  duplicate : ∀ grants key row, ⟨key, row⟩ ∈ entries →
    insertIn s grants handle key row = (s, .error (.index .duplicateEntry))
  /-- A pair that is absent cannot be deleted. -/
  absent : ∀ key row, ValidEntry spec ⟨key, row⟩ → ⟨key, row⟩ ∉ entries →
    deleteIn s handle key row = (s, .error (.index .entryNotFound)) ∧
      deleteBalancedIn s handle key row = (s, .error (.index .entryNotFound))
  /-- A pair the specification refuses cannot be deleted either. -/
  deleteRefused : ∀ key row error, validateEntry spec ⟨key, row⟩ = .error error →
    deleteIn s handle key row = (s, .error (.index error)) ∧
      deleteBalancedIn s handle key row = (s, .error (.index error))

namespace Holds

variable {spec : IndexSpec} {handle : BTreeHandle} {s : Store} {entries : Finset IndexEntryKey}
  {tree : MetaNode} {n : Nat} {t : Tree n}

section

variable (h : Holds spec handle s entries tree t)
include h

lemma sorted : (entriesOf t).Pairwise (· < ·) :=
  h.represents.ordered.items_sorted

lemma valid {entry : IndexEntryKey} (hmem : entry ∈ entries) : ValidEntry spec entry :=
  Represents.ensureEntryFits_valid (h.room entry hmem)

/-- The leaf an entry belongs to can be read and decides its membership. -/
lemma leafOf (entry : IndexEntryKey) :
    ∃ page leaf path, findLeafForEntry s tree entry = .ok (page, leaf, path) ∧
      leaf.entries.Pairwise (· < ·) ∧ (entry ∈ leaf.entries ↔ entry ∈ entries) := by
  obtain ⟨c, page, hleaf, hfind⟩ := h.represents.findLeafForEntry entry
  refine ⟨_, _, _, hfind, ?_, ?_⟩
  · have hmem : (page.ref, DeleteNode.leaf page.node) ∈ images t := by
      rw [← hleaf.plug]
      exact (Ctx.images_plug c _).mem_iff.mpr (by simp)
    exact (h.represents.held _ hmem).fits.sorted
  · rw [← hleaf.mem_iff, h.mem]

variable {key : ScalarValue}

/-- A lookup returns the rows of the key in their order: two pairs of one key are ordered
by their rows. -/
lemma lookup_rows (hkey : spec.validateKey key = .ok ()) :
    ∃ rows, lookup s handle key = .ok rows ∧ rows.Pairwise (· < ·) ∧
      ∀ row, row ∈ rows ↔ ⟨key, row⟩ ∈ entries := by
  refine ⟨_, h.represents.lookup (h.specified ▸ hkey), ?_, ?_⟩
  · rw [rowsWhere, pairwise_map]
    refine (h.sorted.filter _).imp_of_mem fun {a b} ha hb hlt => ?_
    have hka : a.key = key := of_decide_eq_true (mem_filter.mp ha).2
    have hkb : b.key = key := of_decide_eq_true (mem_filter.mp hb).2
    rcases IndexEntryKey.lt_iff.mp hlt with hlt | ⟨-, hlt⟩
    · rw [hka, hkb] at hlt
      exact absurd hlt (lt_irrefl key)
    · exact hlt
  · intro row
    rw [rowsWhere, mem_map]
    constructor
    · rintro ⟨entry, hentry, rfl⟩
      obtain ⟨hmem, hkey⟩ := mem_filter.mp hentry
      obtain rfl := of_decide_eq_true hkey
      exact (h.mem entry).mp hmem
    · intro hmem
      exact ⟨⟨key, row⟩, mem_filter.mpr ⟨(h.mem _).mpr hmem, decide_eq_true rfl⟩, rfl⟩

end

variable {row : RowId}

section

variable (h : Holds spec handle s entries tree t)
include h

lemma insertIn_duplicate (grants : Nat → PageGrant) (hmem : ⟨key, row⟩ ∈ entries) :
    insertIn s grants handle key row = (s, .error (.index .duplicateEntry)) := by
  obtain ⟨page, leaf, path, hfind, hsorted, hleaf⟩ := h.leafOf ⟨key, row⟩
  have hroom := h.room _ hmem
  have hinsert := LeafNode.insert_duplicate hsorted (h.valid hmem) (hleaf.mpr hmem)
  rw [← h.specified] at hroom hinsert
  simp only [insertIn, planInsert, h.represents.readMeta, hroom, hfind, hinsert, lift, ok_bind,
    error_bind, commitPlan]

lemma delete_absent (hvalid : ValidEntry spec ⟨key, row⟩) (hmem : ⟨key, row⟩ ∉ entries) :
    deleteIn s handle key row = (s, .error (.index .entryNotFound)) ∧
      deleteBalancedIn s handle key row = (s, .error (.index .entryNotFound)) := by
  obtain ⟨page, leaf, path, hfind, hsorted, hleaf⟩ := h.leafOf ⟨key, row⟩
  rw [← h.specified] at hvalid
  have habsent : ⟨key, row⟩ ∉ leaf.entries := fun hin => hmem (hleaf.mp hin)
  have hcontains := LeafNode.containsExact_eq hsorted hvalid
  have hremove := LeafNode.remove_absent hsorted hvalid habsent
  rw [decide_eq_false habsent] at hcontains
  have hkey : tree.spec.validateKey key = .ok () := hvalid.1
  constructor
  · simp [deleteIn, deletePreflight, h.represents.readMeta, hkey, hfind, hcontains, lift, ok_bind,
      throw, throwThe, MonadExceptOf.throw]
  · simp [deleteBalancedIn, planDeleteBalanced, h.represents.readMeta, hkey, hfind, hremove,
      lift, ok_bind, error_bind, commitUnlinks]

lemma delete_refused {error : IndexError}
    (hrefused : validateEntry spec ⟨key, row⟩ = .error error) :
    deleteIn s handle key row = (s, .error (.index error)) ∧
      deleteBalancedIn s handle key row = (s, .error (.index error)) := by
  obtain ⟨page, leaf, path, hfind, -, -⟩ := h.leafOf ⟨key, row⟩
  rw [← h.specified] at hrefused
  cases hkey : tree.spec.validateKey key with
  | error other =>
    obtain rfl : other = error := by simpa [validateEntry, hkey, ok_bind, error_bind] using hrefused
    constructor
    · simp [deleteIn, deletePreflight, h.represents.readMeta, hkey, lift, ok_bind, error_bind]
    · simp [deleteBalancedIn, planDeleteBalanced, h.represents.readMeta, hkey, lift, ok_bind,
        error_bind, commitUnlinks]
  | ok u =>
    have hrow : validateRowId row = .error error := by
      simpa [validateEntry, hkey, ok_bind, error_bind] using hrefused
    constructor
    · simp [deleteIn, deletePreflight, h.represents.readMeta, hkey, hrow, hfind,
        LeafNode.containsExact, lift, ok_bind, error_bind]
    · simp [deleteBalancedIn, planDeleteBalanced, h.represents.readMeta, hkey, hrow, hfind,
        LeafNode.remove, lift, ok_bind, error_bind, commitUnlinks]

lemma lookupRange_pairs {range : IndexRange} (hrange : range.validate spec = .ok ()) :
    ∃ pairs : List IndexEntryKey,
      lookupRange s handle range = .ok (pairs.map (·.rowId)) ∧ pairs.Pairwise (· < ·) ∧
        ∀ pair, pair ∈ pairs ↔ pair ∈ entries ∧ InRange range pair.key := by
  refine ⟨_, h.represents.lookupRange (h.specified ▸ hrange), h.sorted.filter _, ?_⟩
  intro pair
  rw [mem_filter, h.mem, hasKeyIn, decide_eq_true_iff]

lemma containsExact_iff (key : ScalarValue)
    (row : RowId) : containsExact s handle key row = .ok true ↔ ⟨key, row⟩ ∈ entries := by
  rw [← h.mem]
  constructor
  · intro hfound
    have hroom : ensureEntryFits tree.spec ⟨key, row⟩ (entryCapacity tree) = .ok () := by
      simp only [containsExact, h.represents.readMeta, bind_eq_ok, lift_eq_ok,
        Except.ok.injEq, exists_eq_left'] at hfound
      obtain ⟨_, hroom, -⟩ := hfound
      exact hroom
    rw [h.represents.containsExact hroom, Except.ok.injEq] at hfound
    exact of_decide_eq_true hfound
  · intro hmem
    have hroom := h.room _ ((h.mem _).mp hmem)
    rw [← h.specified] at hroom
    rw [h.represents.containsExact hroom, decide_eq_true hmem]

end

end Holds

/-- Every run from the creation of a tree leaves a file on which the tree
stands for the set of pairs inserted and not deleted. -/
theorem Reaches.denotes {spec : IndexSpec} {handle : BTreeHandle} {s : Store}
    {entries : Finset IndexEntryKey} (hrun : Reaches spec handle s entries) :
    Denotes spec handle s entries := by
  obtain ⟨tree, n, t, h⟩ := hrun.holds
  refine
    { lookup := fun key hkey => h.lookup_rows hkey
      lookupRefused := ?_
      lookupRange := fun range hrange => h.lookupRange_pairs hrange
      lookupRangeRefused := ?_
      containsExact := h.containsExact_iff
      containsExactAnswers := ?_
      duplicate := fun grants key row hmem => h.insertIn_duplicate grants hmem
      absent := fun key row hvalid hmem => h.delete_absent hvalid hmem
      deleteRefused := fun key row error hrefused => h.delete_refused hrefused }
  · intro key error hrefused
    constructor
    · rw [← h.specified] at hrefused
      simp [BTree.lookup, h.represents.readMeta, hrefused, lift, ok_bind, error_bind]
    · intro row hmem
      rw [(h.valid hmem).1] at hrefused
      cases hrefused
  · intro range error hrefused
    rw [← h.specified] at hrefused
    simp [BTree.lookupRange, h.represents.readMeta, hrefused, lift, ok_bind, error_bind]
  · intro key row tree' hread hroom
    rw [h.represents.readMeta, Except.ok.injEq] at hread
    subst hread
    rw [h.represents.containsExact hroom, Except.ok.injEq, decide_eq_decide]
    exact h.mem _

/-- The pairs of a tree of four levels after a deletion that merges leaves. -/
theorem Reaches.denotes_sparse :
    Reaches Sparse.spec Sparse.handle Sparse.after.1
        ((∅ ∪ Sparse.pairs.toFinset).erase Sparse.removed) ∧
      Denotes Sparse.spec Sparse.handle Sparse.after.1
        ((∅ ∪ Sparse.pairs.toFinset).erase Sparse.removed) :=
  have hrun := Sparse.reaches_filled.delete Sparse.delete_ok
  ⟨hrun, hrun.denotes⟩

end Netbadb.BTree
