import Netbadb.BTree.Runs

/-!
The shape of a tree in the file, clause by clause: uniform depth, fences,
the chain of leaves, occupancy, one parent slot for each page, and the room in
each page. Every run keeps all clauses, so the checks that lookups and the
enumeration of owned pages make along the way never fire.
-/

namespace Netbadb.BTree

open Fences Outcome Branch List

/-- The leaves of a tree with their depths, when its root has depth `depth`. -/
def leavesAt : {n : Nat} → Nat → Tree n → List (LeafPage × Nat)
  | 0, depth, t => [(t, depth)]
  | n + 1, depth, t =>
    let b : Branch (Tree n) := t
    leavesAt (depth + 1) b.first ++ b.rest.flatMap fun p => leavesAt (depth + 1) p.2

variable {n : Nat} {tree : MetaNode} {s s' : Store} {t : Tree n}

lemma leavesAt_ofBranch (depth : Nat) (b : Branch (Tree n)) : leavesAt depth (.ofBranch b) =
      leavesAt (depth + 1) b.first ++ b.rest.flatMap fun p => leavesAt (depth + 1) p.2 := rfl

lemma map_leavesAt (depth : Nat) (t : Tree n) : (leavesAt depth t).map (·.1) = leaves t := by
  induction n generalizing depth with
  | zero => rfl
  | succ n ih =>
    cases t using Tree.branchCases with | ofBranch b => ?_
    rw [leavesAt_ofBranch, leaves_ofBranch, map_append, ih, map_flatMap]
    simp only [ih]

lemma depth_of_mem_leavesAt {depth : Nat} : ∀ p ∈ leavesAt depth t, p.2 = depth + n := by
  induction n generalizing depth with
  | zero =>
    intro p hp
    obtain rfl := mem_singleton.mp hp
    rfl
  | succ n ih =>
    cases t using Tree.branchCases with | ofBranch b => ?_
    intro p hp
    rw [leavesAt_ofBranch, mem_append, mem_flatMap] at hp
    rcases hp with hp | ⟨child, -, hp⟩
    all_goals
      rw [ih p hp]
      omega

def slotsOf : DeleteNode → List BTreePageRef
  | .leaf _ => []
  | .internal node => node.firstChild :: node.separators.map (·.rightChild)

def childSlots {n : Nat} (t : Tree n) : List BTreePageRef := (images t).flatMap fun p => slotsOf p.2

lemma slotsOf_branch (b : Branch (Tree n)) : slotsOf (.internal (b.node rootRef)) =
      rootRef b.first :: b.rest.map fun p => rootRef p.2 := by
  simp [slotsOf, node]

/-- The pages of some trees are their roots and what their slots point to, when
this holds for each tree. -/
lemma flatMap_slots_perm (ts : List (Tree n))
    (h : ∀ t : Tree n, (rootRef t :: childSlots t).Perm ((images t).map (·.1))) :
    (ts.map rootRef ++ ts.flatMap childSlots).Perm ((ts.flatMap images).map (·.1)) := by
  induction ts with
  | nil => exact Perm.refl _
  | cons t ts ih =>
    simp only [map_cons, flatMap_cons, map_append, cons_append]
    refine Perm.trans ?_ ((h t).append ih)
    rw [cons_append]
    refine Perm.cons _ ?_
    rw [← append_assoc, ← append_assoc]
    exact perm_append_comm.append_right _

/-- The root and the child slots name every page exactly as often as the tree
uses it. -/
lemma childSlots_perm (t : Tree n) : (rootRef t :: childSlots t).Perm ((images t).map (·.1)) := by
  induction n with
  | zero =>
    cases t using Tree.leafCases with | ofLeaf page => ?_
    simp [childSlots, slotsOf]
  | succ n ih =>
    cases t using Tree.branchCases with | ofBranch b => ?_
    have hchildren := flatMap_slots_perm (b.first :: b.rest.map (·.2)) ih
    have hbelow : (b.first :: b.rest.map (·.2)).flatMap images = b.below images := by
      simp [below, flatMap_map]
    have hslots : childSlots (.ofBranch b) =
        (b.first :: b.rest.map (·.2)).map rootRef ++
          (b.first :: b.rest.map (·.2)).flatMap childSlots := by
      rw [childSlots, images_ofBranch, flatMap_cons, slotsOf_branch, ← hbelow, flatMap_assoc]
      simp only [map_cons, map_map, cons_append, Function.comp_def]
      rfl
    rw [hslots, images_ofBranch, map_cons, rootRef_ofBranch, ← hbelow]
    exact Perm.cons _ hchildren

/-- A left context without cells is empty: every subtree in it has a fence on
its right. -/
lemma Ctx.left_eq_nil {m : Nat} (c : Ctx n m) (h : cellsOf c.left = []) : c.left = [] := by
  induction c with
  | top => rfl
  | up ref before post outer ih =>
    rw [Ctx.left, cellsOf_append, append_eq_nil_iff] at h
    rw [Ctx.left, ih h.1, nil_append]
    cases before with
    | nil => rfl
    | cons p before => simp [leftPieces] at h

/-- The structural clauses of the tree `t` that a file holds under a handle. -/
structure Structured (spec : IndexSpec) (handle : BTreeHandle) (s : Store) (tree : MetaNode)
    {n : Nat} (t : Tree n) : Prop where
  /-- The metadata can be read, and it names the root of the tree. -/
  read : readMeta s handle = .ok tree ∧ tree.spec = spec ∧ tree.rootPage = rootRef t
  /-- Every node of the tree is on its page. -/
  stored : ∀ p ∈ images t, s.pages[p.1.pageId]? = some (imageOf tree p.1 p.2)
  /-- Every leaf is at depth `height`. -/
  depth : (leavesAt 1 t).map (·.1) = leaves t ∧ ∀ p ∈ leavesAt 1 t, p.2 = tree.height
  /-- A separator is above every entry on its left and not above any entry on
  its right. -/
  separated : ∀ {k : Nat} (c : Ctx (k + 1) n) (ref : BTreePageRef)
    (before : List (Tree k × IndexEntryKey)) (l r : Tree k) (fence : IndexEntryKey)
    (post : List (IndexEntryKey × Tree k)),
    c.plug (.ofBranch (assemble ref before l ((fence, r) :: post))) = t →
      (∀ entry ∈ entriesOf l, entry < fence) ∧ ∀ entry ∈ entriesOf r, fence ≤ entry
  /-- The chain of leaves starts at the leftmost one, visits them in order and
  ends. -/
  chain : Linked (leaves t) none ∧
    ∃ first rest, leaves t = first :: rest ∧ findLeftmostLeaf s tree = .ok first.ref
  /-- No leaf is empty, unless it is the root. -/
  occupied : tree.height ≠ 1 → ∀ page ∈ leaves t, page.node.entries ≠ []
  /-- A deletion removes its entry on a path without single children: the path
  it found, or the one that normalization left. -/
  normalized : ∀ key row s', deleteIn s handle key row = (s', .ok ()) →
    ∃ s₁, deleteBalancedIn s₁ handle key row = (s', .ok ()) ∧
      PathBranches s₁ handle ⟨key, row⟩ ∧
      (s₁ = s ∨ normalizeDeletePath handle ⟨key, row⟩ s.pageCount s = (s₁, .ok ()))
  /-- Every page is in exactly one slot, and the metadata page in none. -/
  slots : ((tree.rootPage :: childSlots t).map (·.pageId)).Nodup ∧
    (tree.rootPage :: childSlots t).Perm ((images t).map (·.1)) ∧
    handle.metaPage.pageId ∉ (tree.rootPage :: childSlots t).map (·.pageId)
  /-- Every node encodes in its page. -/
  room : ∀ p ∈ images t, (∃ size, p.2.encodedLen tree = .ok size ∧ size ≤ nodeCapacity tree) ∧
    ∃ size, encodeNode tree p.1 p.2 = .ok size ∧ size ≤ singlePayloadCapacity
  /-- The owned pages can be enumerated. -/
  owned : ∀ owned, (∀ id ∈ handle.metaPage.pageId :: pageIds t, id ∉ owned) →
    ∃ pages, collectOwnedPages s handle owned = .ok pages ∧
      pages.Perm (handle.metaPage.pageId :: pageIds t)
  /-- A lookup of an accepted key answers. -/
  lookup : ∀ key, spec.validateKey key = .ok () → ∃ rows, lookup s handle key = .ok rows
  /-- A lookup of an accepted range answers. -/
  lookupRange : ∀ range, range.validate spec = .ok () →
    ∃ rows, lookupRange s handle range = .ok rows

/-- The fences of a node lie between the entries of the subtrees around them. -/
lemma Represents.separated {handle : BTreeHandle} {k : Nat} {c : Ctx (k + 1) n}
    {ref : BTreePageRef} {before : List (Tree k × IndexEntryKey)} {l r : Tree k}
    {fence : IndexEntryKey} {post : List (IndexEntryKey × Tree k)} (h : Represents s handle tree
      (c.plug (.ofBranch (assemble ref before l ((fence, r) :: post))))) :
    (∀ entry ∈ entriesOf l, entry < fence) ∧ ∀ entry ∈ entriesOf r, fence ≤ entry := by
  have hordered := h.ordered
  rw [Ctx.pieces_plug, pieces_ofBranch, pieces_assemble] at hordered
  have hcells : Ordered (cellsOf (pieces l) ++ (.fence fence :: cellsOf (pieces r))) := by
    refine hordered.sublist ?_
    simp only [cellsOf_append, rightPieces, flatMap_cons, append_assoc]
    refine Sublist.trans ?_ (sublist_append_right _ _)
    refine Sublist.trans ?_ (sublist_append_right _ _)
    refine Sublist.append_left ?_ _
    rw [cellsOf_fence_cons]
    exact sublist_append_left _ _
  obtain ⟨-, hright, hcross⟩ := ordered_append.mp hcells
  constructor
  · intro entry hentry
    exact hcross _ (mem_items.mp hentry) (.fence fence) mem_cons_self
  · intro entry hentry
    exact (pairwise_cons.mp hright).1 _ (mem_items.mp hentry)

/-- `delete_in` hands a path without single children to `delete_balanced_in`. -/
lemma Represents.deleteIn_normalized {handle : BTreeHandle} (h : Represents s handle tree t)
    {key : ScalarValue} {row : RowId} (hrun : deleteIn s handle key row = (s', .ok ())) :
    ∃ s₁, deleteBalancedIn s₁ handle key row = (s', .ok ()) ∧
      PathBranches s₁ handle ⟨key, row⟩ ∧
      (s₁ = s ∨ normalizeDeletePath handle ⟨key, row⟩ s.pageCount s = (s₁, .ok ())) := by
  rw [deleteIn] at hrun
  cases hpreflight : deletePreflight s handle ⟨key, row⟩ with
  | error error => simp [hpreflight] at hrun
  | ok needsNormalization =>
    cases needsNormalization with
    | false =>
      simp only [hpreflight, Bool.false_eq_true, if_false] at hrun
      refine ⟨s, hrun, ?_, Or.inl rfl⟩
      intro tree' page leaf path hread hpath
      simp only [deletePreflight, hread, hpath, bind_eq_ok, lift_eq_ok, Except.ok.injEq,
        exists_eq_left', check_eq_ok, pure_eq_ok] at hpreflight
      obtain ⟨_, -, _, -, -, hany⟩ := hpreflight
      intro p hp hnil
      rw [any_eq_false] at hany
      exact hany p hp (decide_eq_true hnil)
    | true =>
      simp only [hpreflight, if_true] at hrun
      cases hnormalize : normalizeDeletePath handle ⟨key, row⟩ s.pageCount s with
      | mk s₁ outcome =>
        cases outcome with
        | error error => simp [hnormalize] at hrun
        | ok u =>
          simp only [hnormalize] at hrun
          obtain ⟨-, -, -, -, hbranches⟩ := normalizeDeletePath_eq_ok h hnormalize
          exact ⟨s₁, hrun, hbranches, Or.inr rfl⟩

/-- Every run keeps the structure of its tree. -/
theorem Reaches.structured {spec : IndexSpec} {handle : BTreeHandle} {s : Store}
    {entries : Finset IndexEntryKey} (hrun : Reaches spec handle s entries) :
    ∃ (tree : MetaNode) (n : Nat) (t : Tree n), Structured spec handle s tree t := by
  obtain ⟨tree, n, t, hholds⟩ := hrun.holds
  have h := hholds.represents
  have hspec := hholds.specified
  have hslots := childSlots_perm t
  rw [← h.root] at hslots
  have hids : ((tree.rootPage :: childSlots t).map (·.pageId)).Perm (pageIds t) := by
    simpa [pageIds, Function.comp_def] using hslots.map (·.pageId)
  obtain ⟨hmeta, hnodup⟩ := nodup_cons.mp h.nodup
  refine ⟨tree, n, t,
    { read := ⟨h.readMeta, hspec, h.root⟩
      stored := fun p hp => (h.held p hp).stored
      depth := ⟨map_leavesAt 1 t, ?_⟩
      separated := ?_
      chain := ⟨h.linked, ?_⟩
      occupied := ?_
      normalized := fun key row s' hdelete => h.deleteIn_normalized hdelete
      slots := ⟨hids.nodup_iff.mpr hnodup, hslots, fun hmem => hmeta (hids.mem_iff.mp hmem)⟩
      room := fun p hp => ⟨(h.held p hp).fits.encodedLen, (h.held p hp).fits.encodes⟩
      owned := fun owned hfree => h.collectOwnedPages hfree
      lookup := fun key hkey => ⟨_, h.lookup (hspec ▸ hkey)⟩
      lookupRange := fun range hrange => ⟨_, h.lookupRange (hspec ▸ hrange)⟩ }⟩
  · intro p hp
    rw [depth_of_mem_leavesAt p hp, h.height]
    omega
  · rintro k c ref before l r fence post rfl
    exact h.separated
  · obtain ⟨c, page, hplug, hleft, hfind⟩ := h.findLeftmostLeaf
    refine ⟨page, leavesOf c.right, ?_, hfind⟩
    rw [← hplug, leaves_plug, c.left_eq_nil hleft]
    rfl
  · intro hheight
    refine h.nonempty ?_
    rintro rfl
    exact hheight h.height

def unaryOnPath (s : Store) (handle : BTreeHandle) (entry : IndexEntryKey) :
    Except StorageError Bool := do
  let tree ← readMeta s handle
  let (_, _, path) ← findLeafForEntry s tree entry
  return path.any (·.node.separators = [])

lemma not_pathBranches {handle : BTreeHandle} {entry : IndexEntryKey}
    (h : unaryOnPath s handle entry = .ok true) : ¬ PathBranches s handle entry := by
  simp only [unaryOnPath, bind_eq_ok, pure_eq_ok] at h
  obtain ⟨tree, hread, ⟨page, leaf, path⟩, hpath, hany⟩ := h
  obtain ⟨p, hp, hunary⟩ := any_eq_true.mp hany
  exact fun hbranches => hbranches tree page leaf path hread hpath p hp (of_decide_eq_true hunary)

/-- The structure of a tree of four levels, in which most nodes have one child, and of the
tree that a deletion with a normalized path leaves. -/
theorem Reaches.structured_sparse :
    ∃ (tree : MetaNode) (n : Nat) (t : Tree n) (tree' : MetaNode) (m : Nat) (t' : Tree m),
      tree.height = 4 ∧ Structured Sparse.spec Sparse.handle Sparse.filled tree t ∧
        Structured Sparse.spec Sparse.handle Sparse.after.1 tree' t' := by
  obtain ⟨tree, n, t, h⟩ := Reaches.structured Sparse.reaches_filled
  obtain ⟨tree', m, t', h'⟩ := Reaches.structured (Sparse.reaches_filled.delete Sparse.delete_ok)
  have hheight : (readMeta Sparse.filled Sparse.handle).map (·.height) = .ok 4 := by
    decide +kernel
  rw [h.read.1] at hheight
  exact ⟨tree, n, t, tree', m, t', Except.ok.inj hheight, h, h'⟩

/-- A deletion that normalized its path can leave a node with a single child
on it: the merge below takes a child away, and the sibling of the node is too
full to merge. -/
theorem deleteIn_leaves_unary_path :
    ∃ (spec : IndexSpec) (handle : BTreeHandle) (entries : Finset IndexEntryKey) (s s' : Store)
      (key : ScalarValue) (row : RowId), Reaches spec handle s entries ∧
      deletePreflight s handle ⟨key, row⟩ = .ok true ∧
      deleteIn s handle key row = (s', .ok ()) ∧ ¬ PathBranches s' handle ⟨key, row⟩ := by
  refine ⟨_, _, _, _, _, _, _, Sparse.reaches_filled, ?_, Sparse.delete_ok, not_pathBranches ?_⟩
  all_goals decide +kernel

end Netbadb.BTree
