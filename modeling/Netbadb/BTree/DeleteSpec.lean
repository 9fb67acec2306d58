import Netbadb.BTree.InsertSpec

/-!
Deletion on a path without unary nodes. A node that became too small is merged
with a sibling when both fit one page; the parent then loses a separator and
is looked at in turn. Merging two leaves drops the fence between them. Merging
internal nodes keeps the in-order sequence.
-/

namespace Netbadb.BTree

open Fences Outcome Branch List Ctx

def mergeTrees : {k : Nat} → Tree k → IndexEntryKey → Tree k → Tree k
  | 0, l, _, r =>
    { ref := LeafPage.ref l
      node :=
        { entries := (LeafPage.node l).entries ++ (LeafPage.node r).entries
          nextLeaf := (LeafPage.node r).nextLeaf } : LeafPage }
  | k + 1, l, fence, r =>
    let left : Branch (Tree k) := l
    let right : Branch (Tree k) := r
    { ref := left.ref
      first := left.first
      rest := left.rest ++ (fence, right.first) :: right.rest : Branch (Tree k) }

@[simp] lemma mergeTrees_ofLeaf (l r : LeafPage) (fence : IndexEntryKey) :
    mergeTrees (.ofLeaf l) fence (.ofLeaf r) = .ofLeaf ⟨l.ref,
      { entries := l.node.entries ++ r.node.entries, nextLeaf := r.node.nextLeaf }⟩ := rfl

variable {k : Nat} {page : BTreePageRef} {side : Bool}

@[simp] lemma mergeTrees_ofBranch (l r : Branch (Tree k)) (fence : IndexEntryKey) :
    mergeTrees (.ofBranch l) fence (.ofBranch r) =
      .ofBranch ⟨l.ref, l.first, l.rest ++ (fence, r.first) :: r.rest⟩ := rfl

@[simp] lemma rootRef_mergeTrees (l r : Tree k) (fence : IndexEntryKey) :
    rootRef (mergeTrees l fence r) = rootRef l := by
  cases k <;> rfl

lemma belowImages_mergeTrees (l r : Tree k) (fence : IndexEntryKey) :
    belowImages (mergeTrees l fence r) = belowImages l ++ belowImages r := by
  cases k with
  | zero => rfl
  | succ k =>
    cases l using Tree.branchCases with | ofBranch l => ?_
    cases r using Tree.branchCases with | ofBranch r => ?_
    change below images (⟨l.ref, l.first, l.rest ++ (fence, r.first) :: r.rest⟩) =
      below images l ++ below images r
    simp [below]

lemma pieces_mergeTrees (hk : k ≠ 0) (l r : Tree k) (fence : IndexEntryKey) :
    pieces (mergeTrees l fence r) = pieces l ++ .fence fence :: pieces r := by
  obtain ⟨k, rfl⟩ := Nat.exists_eq_succ_of_ne_zero hk
  cases l using Tree.branchCases with | ofBranch l => ?_
  cases r using Tree.branchCases with | ofBranch r => ?_
  simp [Branch.pieces]

/-- The sibling a child is paired with: the right one, or the left one for the
last child. The window shows both children with the fence between them. -/
inductive Window {T : Type} (t : T) : List (T × IndexEntryKey) → List (IndexEntryKey × T) →
    List (T × IndexEntryKey) → T → IndexEntryKey → T → List (IndexEntryKey × T) → Bool → Prop where
  | right (before : List (T × IndexEntryKey)) (k : IndexEntryKey) (r : T)
      (post : List (IndexEntryKey × T)) : Window t before ((k, r) :: post) before t k r post true
  | left (before : List (T × IndexEntryKey)) (l : T) (k : IndexEntryKey) :
      Window t (before ++ [(l, k)]) [] before l k t [] false

lemma Window.assemble_eq {T : Type} {t l r : T} {before before' : List (T × IndexEntryKey)}
    {post post' : List (IndexEntryKey × T)} {k : IndexEntryKey}
    (h : Window t before post before' l k r post' side) (ref : BTreePageRef) :
    assemble ref before t post = assemble ref before' l ((k, r) :: post') := by
  cases h with
  | right => rfl
  | left => rw [assemble_snoc]

section Node

variable {T : Type} {root : T → BTreePageRef} {ref : BTreePageRef}
  {before : List (T × IndexEntryKey)} {t : T} {post : List (IndexEntryKey × T)}

lemma separators_assemble_length (root : T → BTreePageRef) (ref : BTreePageRef) (t : T) :
    ((assemble ref before t post).node root).separators.length = before.length + post.length := by
  rw [node_assemble]
  simp

/-- Every child with a sibling has a window. -/
lemma exists_window (root : T → BTreePageRef) (ref : BTreePageRef) (t : T)
    (h : before.length + post.length ≠ 0) :
    ∃ before' l k r post' side, Window t before post before' l k r post' side ∧
      side = decide (before.length < ((assemble ref before t post).node root).separators.length) ∧
      before'.length = if side then before.length else before.length - 1 := by
  rw [separators_assemble_length]
  cases post with
  | cons p post => exact ⟨before, t, p.1, p.2, post, true, .right .., by simp, rfl⟩
  | nil =>
    rcases eq_nil_or_concat before with rfl | ⟨init, last, rfl⟩
    · simp at h
    · rw [concat_eq_append]
      exact ⟨init, last.1, last.2, t, [], false, .left .., by simp, by simp⟩

variable {l r : T} {k : IndexEntryKey}

lemma getElem?_window :
    ((assemble ref before l ((k, r) :: post)).node root).separators[before.length]? =
      some { key := k, rightChild := root r } := by
  rw [node_assemble, getElem?_append_right (by simp)]
  simp [separator]

lemma child_window
    (h : ((assemble ref before l ((k, r) :: post)).node root).child (before.length + 1) = .ok page) :
    page = root r := by
  have hchild := child_assemble root ref (before ++ [(l, k)]) r post
  rw [assemble_snoc, length_append, length_singleton] at hchild
  rw [hchild, bind_eq_ok] at h
  obtain ⟨_, -, h⟩ := h
  exact (pure_eq_ok.mp h).symm

lemma child_focus (h : ((assemble ref before t post).node root).child before.length = .ok page) :
    page = root t := by
  rw [child_assemble, bind_eq_ok] at h
  obtain ⟨_, -, h⟩ := h
  exact (pure_eq_ok.mp h).symm

/-- Removing the fence of a window leaves the left child in the place of both. -/
lemma removeSeparator_window {m : T} {separator : InternalSeparator} {node : InternalNode}
    (hroot : root m = root l)
    (h : ((assemble ref before l ((k, r) :: post)).node root).removeSeparator before.length =
      .ok (separator, node)) : node = (assemble ref before m post).node root := by
  simp only [InternalNode.removeSeparator, getElem?_window, Except.ok.injEq, Prod.mk.injEq] at h
  rw [← h.2, node_assemble_congr ref hroot, node_assemble, node_assemble]
  have hlength : before.length = ((linkChildren before l).map (Branch.separator root)).length := by
    simp
  have herase := eraseIdx_append_length ((linkChildren before l).map (Branch.separator root))
    (post.map (Branch.separator root)) (Branch.separator root (k, r))
  rw [← hlength] at herase
  simp [herase]

lemma siblingsOf_eq_ok {leftPage rightPage : BTreePageRef} {position : Nat}
    (h : siblingsOf ((assemble ref before t post).node root) before.length (root t) =
      .ok (leftPage, rightPage, position, side)) :
    ∃ before' l k r post', Window t before post before' l k r post' side ∧
      leftPage = root l ∧ rightPage = root r ∧ position = before'.length := by
  simp only [siblingsOf, separators_assemble_length] at h
  split_ifs at h with hlt hzero
  · simp only [bind_eq_ok, pure_eq_ok, Prod.mk.injEq] at h
    obtain ⟨right, hright, rfl, rfl, rfl, rfl⟩ := h
    cases post with
    | nil => simp at hlt
    | cons p post => exact ⟨before, t, p.1, p.2, post, .right .., rfl, child_window hright, rfl⟩
  · simp only [bind_eq_ok, pure_eq_ok, Prod.mk.injEq] at h
    obtain ⟨left, hleft, rfl, rfl, rfl, rfl⟩ := h
    have hpost : post = [] := by
      cases post with
      | nil => rfl
      | cons p post => simp at hlt
    subst hpost
    obtain ⟨init, last, rfl⟩ := (eq_nil_or_concat before).resolve_left (by
      rintro rfl
      simp at hzero)
    rw [concat_eq_append] at hleft ⊢
    rw [assemble_snoc] at hleft
    have hlength : (init ++ [(last.1, last.2)]).length - 1 = init.length := by simp
    refine ⟨init, last.1, last.2, t, [], .left .., ?_, rfl, by simp⟩
    rw [hlength] at hleft
    exact child_focus hleft

end Node

variable {s : Store} {tree : MetaNode} {ref : BTreePageRef}

lemma readLeaf_tree {t : Tree 0} (hheld : ∀ p ∈ images t, Held s tree p.1 p.2) :
    readLeaf s (rootRef t) tree = .ok t.leafNode := by
  cases t using Tree.leafCases with | ofLeaf page => ?_
  exact (hheld (page.ref, .leaf page.node) (by simp)).readLeaf

lemma readInternal_tree {t : Tree (k + 1)} (hheld : ∀ p ∈ images t, Held s tree p.1 p.2) :
    readInternal s (rootRef t) tree = .ok t.internalNode := by
  cases t using Tree.branchCases with | ofBranch b => ?_
  exact readInternal_root hheld

lemma internalNode_mergeTrees (l r : Tree (k + 1)) (fence : IndexEntryKey) :
    (mergeTrees l fence r).internalNode =
      { firstChild := l.internalNode.firstChild
        separators := l.internalNode.separators ++
          { key := fence, rightChild := r.internalNode.firstChild } ::
            r.internalNode.separators } := by
  cases l using Tree.branchCases with | ofBranch l => ?_
  cases r using Tree.branchCases with | ofBranch r => ?_
  simp [node]

/-- Two leaves that the source found too large for one page. -/
def LeavesApart (spec : IndexSpec) (capacity : Nat) : {k : Nat} → Tree k → Tree k → Prop
  | 0, l, r => mergeLeavesIfFits spec l.leafNode r.leafNode capacity = .ok none
  | _ + 1, _, _ => True

section Merge

variable {before before' : List (Tree k × IndexEntryKey)} {tc l r : Tree k}
  {post post' : List (IndexEntryKey × Tree k)} {fence : IndexEntryKey}

def siblingImages (before : List (Tree k × IndexEntryKey)) (post : List (IndexEntryKey × Tree k)) :
    List NodeImage :=
  (before.flatMap fun q => images q.1) ++ post.flatMap fun q => images q.2

/-- Both children of a window are at hand or can be read: the focused one is
known, and the other is a sibling. -/
lemma Window.read {α : Type} (node : Tree k → α) (read : BTreePageRef → Except StorageError α)
    (h : Window tc before post before' l fence r post' side)
    (hread : ∀ x : Tree k, (∀ p ∈ images x, p ∈ siblingImages before post) →
      read (rootRef x) = .ok (node x)) :
    orRead side (node tc) (read (rootRef l)) = .ok (node l) ∧
      orRead (!side) (node tc) (read (rootRef r)) = .ok (node r) := by
  cases h with
  | right before k r post =>
    refine ⟨rfl, hread r fun p hp => ?_⟩
    simp [siblingImages, hp]
  | left before l k =>
    refine ⟨hread l fun p hp => ?_, rfl⟩
    simp [siblingImages, hp]

lemma preflightMerge_eq_ok {capacity : Nat} {result : Option (BTreePageRef × DeleteNode × Nat)}
    (hheld : ∀ p ∈ siblingImages before post, Held s tree p.1 p.2)
    (h : preflightMerge s tree ((assemble ref before tc post).node rootRef) before.length
      (rootRef tc) (rootNode tc) capacity = .ok result) :
    ∃ before' l fence r post' side, Window tc before post before' l fence r post' side ∧
      (result = none → LeavesApart tree.spec capacity l r) ∧
      ∀ page merged position, result = some (page, merged, position) →
        page = rootRef l ∧ merged = rootNode (mergeTrees l fence r) ∧
          position = before'.length := by
  simp only [preflightMerge, bind_eq_ok, lift_eq_ok] at h
  obtain ⟨⟨leftPage, rightPage, position, side⟩, hsiblings, h⟩ := h
  obtain ⟨before', l, fence, r, post', hwindow, rfl, rfl, rfl⟩ := siblingsOf_eq_ok hsiblings
  refine ⟨before', l, fence, r, post', side, hwindow, ?_⟩
  rw [hwindow.assemble_eq] at h
  simp only [getElem?_window] at h
  cases k with
  | zero =>
    obtain ⟨hl, hr⟩ := hwindow.read Tree.leafNode
      (fun page => readLeaf s page tree) fun x hx => readLeaf_tree fun p hp => hheld p (hx p hp)
    simp only [rootNode_zero, bind_eq_ok, hl, hr, Except.ok.injEq, exists_eq_left',
      check_eq_ok, lift_eq_ok, pure_eq_ok] at h
    obtain ⟨-, -, -, merged, hmerge, rfl⟩ := h
    cases merged with
    | none => exact ⟨fun _ => hmerge, by simp⟩
    | some merged =>
      refine ⟨by simp, ?_⟩
      rintro page node position ⟨rfl, rfl, rfl⟩
      exact ⟨rfl, congrArg DeleteNode.leaf (mergeLeavesIfFits_eq_ok hmerge), rfl⟩
  | succ k =>
    obtain ⟨hl, hr⟩ := hwindow.read Tree.internalNode
      (fun page => readInternal s page tree) fun x hx =>
        readInternal_tree fun p hp => hheld p (hx p hp)
    simp only [rootNode_succ, bind_eq_ok, hl, hr, Except.ok.injEq, exists_eq_left',
      lift_eq_ok, pure_eq_ok] at h
    obtain ⟨merged, hmerge, rfl⟩ := h
    refine ⟨fun _ => trivial, ?_⟩
    cases merged with
    | none => simp
    | some merged =>
      rintro page node position ⟨rfl, rfl, rfl⟩
      refine ⟨rfl, ?_, rfl⟩
      rw [mergeInternalsIfFits_eq_ok hmerge, rootNode_succ, internalNode_mergeTrees]

section

variable (h : Window tc before post before' l fence r post' side)
include h

/-- What lies around and below a window lies below the focused child or in its
siblings. -/
lemma Window.mem_images {p : NodeImage}
    (hp : p ∈ siblingImages before' post' ++ (belowImages l ++ belowImages r)) :
    p ∈ belowImages tc ∨ p ∈ siblingImages before post := by
  cases h with
  | right before k r post =>
    simp only [siblingImages, mem_append, flatMap_cons, images_eq r, mem_cons] at hp ⊢
    tauto
  | left before l k =>
    simp only [siblingImages, mem_append, flatMap_append, flatMap_cons,
      flatMap_nil, images_eq l, mem_cons, not_mem_nil] at hp ⊢
    tauto

lemma Window.below_subset : ∀ p ∈ belowImages tc, p ∈ belowImages l ++ belowImages r := by
  cases h with
  | right => exact fun p hp => mem_append_left _ hp
  | left => exact fun p hp => mem_append_right _ hp

/-- Both children of a window are the focused one or a sibling. -/
lemma Window.root_mem :
    ∀ x, x = l ∨ x = r → x = tc ∨ (rootRef x, rootNode x) ∈ siblingImages before post := by
  cases h with
  | right before k r post =>
    rintro x (rfl | rfl)
    · exact Or.inl rfl
    · right
      simp [siblingImages, rootImage_mem]
  | left before l k =>
    rintro x (rfl | rfl)
    · right
      simp [siblingImages, rootImage_mem]
    · exact Or.inl rfl

/-- Merging a window frees exactly the page of the right child. -/
lemma Window.pageIds_perm (ref : BTreePageRef) :
    (pageIds tc ++ ref.pageId :: (siblingImages before post).map (·.1.pageId)).Perm
      ((rootRef r).pageId :: pageIds
        (.ofBranch (assemble ref before' (mergeTrees l fence r) post'))) := by
  have hmerged : images (mergeTrees l fence r) = (rootRef l, rootNode (mergeTrees l fence r)) ::
      (belowImages l ++ belowImages r) := by
    rw [images_eq, rootRef_mergeTrees, belowImages_mergeTrees]
  simp only [pageIds, images_ofBranch, assemble_ref, below_assemble, hmerged, map_cons, map_append]
  cases h with
  | right before k r post =>
    simp only [siblingImages, flatMap_cons, images_eq tc, images_eq r, map_append, map_cons]
    rw [← Multiset.coe_eq_coe]
    simp only [← Multiset.coe_add, ← Multiset.cons_coe, ← Multiset.singleton_add]
    abel
  | left before l k =>
    simp only [siblingImages, flatMap_append, flatMap_cons, flatMap_nil, images_eq tc, images_eq l,
      map_append, map_cons, map_nil, append_nil]
    rw [← Multiset.coe_eq_coe]
    simp only [← Multiset.coe_add, ← Multiset.cons_coe, ← Multiset.singleton_add]
    abel

end

end Merge

/-- The loop state of a deletion: a subtree whose root is not written yet. -/
structure Shrinking (s : Store) (handle : BTreeHandle) (tree : MetaNode)
    (changes : List PreparedPage) (retired : List BTreePageRef) {k n : Nat} (c : Ctx k n)
    (tc : Tree k) : Prop where
  below : ∀ p ∈ belowImages tc, Covered s tree changes p
  held : ∀ p ∈ c.frames tc, Held s tree p.1 p.2
  nodup : (changedIds changes).Nodup
  changed : ∀ id ∈ changedIds changes, id ∈ (belowImages tc).map (·.1.pageId)
  ids : (handle.metaPage.pageId :: (pageIds tc ++ (c.frames tc).map (·.1.pageId))).Nodup
  retired : ∀ page ∈ retired, page.pageId ∉
    0 :: handle.metaPage.pageId :: (pageIds tc ++ (c.frames tc).map (·.1.pageId))
  nonzero : (rootRef tc).pageId ≠ 0
  generated : (rootRef tc).generation.isSome = tree.generation.isSome

lemma pageIds_eq (t : Tree k) :
    pageIds t = (rootRef t).pageId :: (belowImages t).map (·.1.pageId) := by
  rw [pageIds, images_eq]
  rfl

namespace Shrinking

variable {handle : BTreeHandle} {changes : List PreparedPage} {retired : List BTreePageRef}
  {n : Nat} {change : PreparedPage}

lemma write {c : Ctx k n} {tc : Tree k} (h : Shrinking s handle tree changes retired c tc)
    (hchange : prepareDeleteNode s (rootRef tc) tree (rootNode tc) = .ok change)
    (htree : tree = withRoot tree (c.plug tc)) :
    Planned s handle tree (changes ++ [change]) retired (c.plug tc) := by
  obtain ⟨hwrites, -⟩ := prepareDeleteNode_eq_ok hchange
  have hids : changedIds [change] = [(rootRef tc).pageId] := by simp [changedIds, hwrites.reference]
  have hroot : (rootRef tc).pageId ∉ (belowImages tc).map (·.1.pageId) := by
    have hnodup := (nodup_append.mp (nodup_cons.mp h.ids).2).1
    rw [pageIds_eq] at hnodup
    exact (nodup_cons.mp hnodup).1
  refine Planned.of_plug ?_ h.held ?_ ?_ h.ids h.retired htree
  · intro p hp
    rw [images_eq] at hp
    rcases mem_cons.mp hp with rfl | hp
    · exact Covered.of_writes (hwrites.fits h.nonzero h.generated) (by simp) hwrites
    · refine (h.below p hp).append ?_
      rw [hids, mem_singleton]
      exact fun heq => hroot (heq ▸ mem_map_of_mem hp)
  · exact nodup_changedIds_append hids h.nodup fun hid => hroot (h.changed _ hid)
  · rw [pageIds_eq]
    exact changedIds_append_subset hids h.changed

/-- A root without separators gives way to its only child. -/
lemma collapse {t : Tree k}
    (h : Shrinking s handle tree changes retired .top (.ofBranch ⟨ref, t, []⟩))
    {metaChange : PreparedPage}
    (hmeta : prepareMeta s handle { tree with rootPage := rootRef t, height := k + 1 } =
      .ok metaChange) : Planned s handle tree (changes ++ [metaChange]) (retired ++ [ref]) t := by
  obtain ⟨rfl, hsize⟩ := prepareMeta_eq_ok hmeta
  have hbelow : belowImages (.ofBranch ⟨ref, t, []⟩ : Tree (k + 1)) = images t := by
    change Branch.below images ⟨ref, t, []⟩ = images t
    simp [Branch.below]
  have hpageIds : pageIds (.ofBranch ⟨ref, t, []⟩ : Tree (k + 1)) = ref.pageId :: pageIds t := by
    rw [pageIds_eq, hbelow]
    rfl
  have hnodup := h.ids
  have hretired := h.retired
  simp only [frames, map_nil, append_nil, hpageIds] at hnodup hretired
  obtain ⟨hmetaFree, hrest⟩ := nodup_cons.mp hnodup
  obtain ⟨href, hpages⟩ := nodup_cons.mp hrest
  simp only [mem_cons, not_or] at hmetaFree
  have hchanged : ∀ id ∈ changedIds changes, id ∈ pageIds t := by
    intro id hid
    have := h.changed id hid
    rwa [hbelow] at this
  have hids : changedIds [⟨handle.metaPage, .metaPage { tree with
      rootPage := rootRef t, height := k + 1 }, .existing⟩] = [handle.metaPage.pageId] := rfl
  refine ⟨?_, ?_, nodup_cons.mpr ⟨hmetaFree.2, hpages⟩, ?_, ?_, ?_⟩
  · intro p hp
    refine (h.below p (hbelow ▸ hp)).append ?_
    rw [hids, mem_singleton]
    exact fun heq => hmetaFree.2 (heq ▸ mem_map_of_mem hp)
  · exact nodup_changedIds_append hids h.nodup fun hid => hmetaFree.2 (hchanged _ hid)
  · exact changedIds_append_subset hids hchanged
  · right
    exact ⟨_, mem_append_right _ mem_cons_self, rfl, rfl, hsize⟩
  · intro page hpage hmem
    rcases mem_append.mp hpage with hpage | hpage
    · refine hretired page hpage ?_
      simp only [mem_cons] at hmem ⊢
      tauto
    obtain rfl := mem_singleton.mp hpage
    simp only [mem_cons] at hmem
    rcases hmem with hzero | hmeta | hin
    · exact h.nonzero hzero
    · exact hmetaFree.1 hmeta.symm
    · exact href hin

section Merge

variable {before before' : List (Tree k × IndexEntryKey)}
  {post post' : List (IndexEntryKey × Tree k)} {outer : Ctx (k + 1) n} {tc l r : Tree k}
  {fence : IndexEntryKey}

/-- The pages in use before a merge are those after it and the freed one. -/
lemma merge_perm (ref : BTreePageRef) (outer : Ctx (k + 1) n)
    (hwindow : Window tc before post before' l fence r post' side) :
    (pageIds tc ++ ((up ref before post outer).frames tc).map (·.1.pageId)).Perm
      ((rootRef r).pageId ::
        (pageIds (.ofBranch (assemble ref before' (mergeTrees l fence r) post')) ++
          (outer.frames (.ofBranch (assemble ref before tc post))).map (·.1.pageId))) := by
  have hperm := hwindow.pageIds_perm ref
  simp only [frames, map_append, map_cons]
  rw [siblingImages, map_append] at hperm
  refine Perm.trans ?_ (hperm.append_right _)
  rw [← Multiset.coe_eq_coe]
  simp only [← Multiset.coe_add, ← Multiset.cons_coe, ← Multiset.singleton_add]
  abel

/-- The current node is merged with its sibling; the parent is looked at next. -/
lemma merge (h : Shrinking s handle tree changes retired (.up ref before post outer) tc)
    (hwindow : Window tc before post before' l fence r post' side)
    (hchange : prepareDeleteNode s (rootRef l) tree (rootNode (mergeTrees l fence r)) =
      .ok change) :
    Shrinking s handle tree (changes ++ [change]) (retired ++ [rootRef r]) outer
      (.ofBranch (assemble ref before' (mergeTrees l fence r) post')) := by
  obtain ⟨hwrites, -⟩ := prepareDeleteNode_eq_ok hchange
  have hids : changedIds [change] = [(rootRef l).pageId] := by simp [changedIds, hwrites.reference]
  have hframes : outer.frames (.ofBranch (assemble ref before' (mergeTrees l fence r) post')) =
      outer.frames (.ofBranch (assemble ref before tc post)) := outer.frames_congr rfl
  have hsiblings : ∀ p ∈ siblingImages before post, Held s tree p.1 p.2 := fun p hp =>
    h.held p (mem_append_right _ (mem_cons_of_mem _ hp))
  -- The pages in use are those of the merged parent, its frames and the freed page.
  have hperm := merge_perm ref outer hwindow
  have hnodup := (hperm.cons handle.metaPage.pageId).nodup_iff.mp h.ids
  obtain ⟨hmeta, hnodup⟩ := nodup_cons.mp hnodup
  obtain ⟨hright, hnodup⟩ := nodup_cons.mp hnodup
  have hbelow : belowImages (.ofBranch (assemble ref before' (mergeTrees l fence r) post') :
      Tree (k + 1)) = (before'.flatMap fun q => images q.1) ++
        ((rootRef l, rootNode (mergeTrees l fence r)) :: (belowImages l ++ belowImages r)) ++
        post'.flatMap fun q => images q.2 := by
    change Branch.below images (assemble ref before' (mergeTrees l fence r) post') = _
    rw [below_assemble, images_eq (mergeTrees l fence r), rootRef_mergeTrees,
      belowImages_mergeTrees]
  have hroots : ∀ x, x = l ∨ x = r → (rootRef x).pageId ≠ 0 ∧
      (rootRef x).generation.isSome = tree.generation.isSome := by
    intro x hx
    rcases hwindow.root_mem x hx with rfl | hmem
    · exact ⟨h.nonzero, h.generated⟩
    · exact ⟨(hsiblings _ hmem).fits.nonzero, (hsiblings _ hmem).fits.generated⟩
  have hcovered : ∀ p ∈ siblingImages before' post' ++ (belowImages l ++ belowImages r),
      Covered s tree changes p := by
    intro p hp
    rcases hwindow.mem_images hp with hp | hp
    · exact h.below p hp
    refine Covered.of_held (hsiblings p hp) fun hmem => ?_
    have hdisjoint := (nodup_append.mp (nodup_cons.mp h.ids).2).2.2
    refine hdisjoint p.1.pageId ?_ p.1.pageId ?_ rfl
    · rw [pageIds_eq]
      exact mem_cons_of_mem _ (h.changed _ hmem)
    · exact mem_map_of_mem (mem_append_right _ (mem_cons_of_mem _ hp))
  -- The page of the merged node appears once among the pages below the parent.
  have hleft : ∀ p ∈ siblingImages before' post' ++ (belowImages l ++ belowImages r),
      p.1.pageId ≠ (rootRef l).pageId := by
    intro p hp heq
    have hbelowNodup := (nodup_append.mp hnodup).1
    rw [pageIds_eq, hbelow] at hbelowNodup
    replace hbelowNodup := (nodup_cons.mp hbelowNodup).2
    have hshape : ((before'.flatMap fun q => images q.1) ++
        ((rootRef l, rootNode (mergeTrees l fence r)) :: (belowImages l ++ belowImages r)) ++
        post'.flatMap fun q => images q.2).Perm
        ((rootRef l, rootNode (mergeTrees l fence r)) ::
          (siblingImages before' post' ++ (belowImages l ++ belowImages r))) := by
      rw [siblingImages, ← Multiset.coe_eq_coe]
      simp only [← Multiset.coe_add, ← Multiset.cons_coe, ← Multiset.singleton_add]
      abel
    have hmapped := (hshape.map (·.1.pageId)).nodup_iff.mp hbelowNodup
    exact (nodup_cons.mp hmapped).1 (mem_map.mpr ⟨p, hp, heq⟩)
  have hpart : ∀ p ∈ belowImages (.ofBranch (assemble ref before' (mergeTrees l fence r) post') :
      Tree (k + 1)), p = (rootRef l, rootNode (mergeTrees l fence r)) ∨
        p ∈ siblingImages before' post' ++ (belowImages l ++ belowImages r) := by
    intro p hp
    rw [hbelow] at hp
    simp only [siblingImages, mem_append, mem_cons] at hp ⊢
    tauto
  have hheldRef := h.held (ref, .internal ((assemble ref before tc post).node rootRef))
    (mem_append_right _ mem_cons_self)
  refine ⟨?_, ?_, ?_, ?_, ?_, ?_, hheldRef.fits.nonzero, hheldRef.fits.generated⟩
  · intro p hp
    rcases hpart p hp with rfl | hp
    · obtain ⟨hnonzero, hgenerated⟩ := hroots l (Or.inl rfl)
      exact Covered.of_writes (hwrites.fits hnonzero hgenerated) (by simp) hwrites
    · refine (hcovered p hp).append ?_
      rw [hids, mem_singleton]
      exact hleft p hp
  · rw [hframes]
    exact fun p hp => h.held p (mem_append_left _ hp)
  · refine nodup_changedIds_append hids h.nodup fun hid => ?_
    obtain ⟨p, hp, heq⟩ := mem_map.mp (h.changed _ hid)
    exact hleft p (mem_append_right _ (hwindow.below_subset p hp)) heq
  · intro id hid
    rw [changedIds_append, hids] at hid
    rw [hbelow]
    rcases mem_append.mp hid with hid | hid
    · obtain ⟨p, hp, rfl⟩ := mem_map.mp (h.changed _ hid)
      refine mem_map_of_mem ?_
      have := hwindow.below_subset p hp
      simp only [mem_append, mem_cons] at this ⊢
      tauto
    · obtain rfl := mem_singleton.mp hid
      refine mem_map.mpr ⟨(rootRef l, rootNode (mergeTrees l fence r)), ?_, rfl⟩
      simp
  · rw [hframes]
    exact nodup_cons.mpr ⟨fun hmem => hmeta (mem_cons_of_mem _ hmem), hnodup⟩
  · intro page hpage hmem
    rw [hframes] at hmem
    rcases mem_append.mp hpage with hpage | hpage
    · refine h.retired page hpage (((hperm.cons _).cons _).mem_iff.mpr ?_)
      simp only [mem_cons] at hmem ⊢
      tauto
    obtain rfl := mem_singleton.mp hpage
    rcases mem_cons.mp hmem with hzero | hmem
    · exact (hroots r (Or.inr rfl)).1 hzero
    rcases mem_cons.mp hmem with hin | hmem
    · exact hmeta (hin ▸ mem_cons_self)
    · exact hright hmem

end Merge

end Shrinking

/-- How the upward loop goes on above a merge: a root without separators is
dropped, any other root is written, and an inner parent is the next node. -/
def continueAbove (s : Store) (handle : BTreeHandle) (tree : MetaNode) (changes : List PreparedPage)
    (retired : List BTreePageRef) (parentPage retained : BTreePageRef) (node : InternalNode)
    (path : List PathEntry) : Except StorageError (List PreparedPage × List BTreePageRef) :=
  if path = [] then
    if node.separators = [] then do
      let height ← lift (collapsedHeight tree)
      let metaChange ← prepareMeta s handle { tree with rootPage := retained, height }
      return (changes ++ [metaChange], retired ++ [parentPage])
    else do
      let parentChange ← prepareInternal s tree parentPage node
      return (changes ++ [parentChange], retired)
  else deleteUp s handle tree changes retired parentPage (.internal node) path

/-- One round of the upward loop: the node is written, or merged and the loop
goes on above. -/
lemma deleteUp_cons_eq_ok {handle : BTreeHandle} {changes changes' : List PreparedPage}
    {retired retired' : List BTreePageRef} {current : DeleteNode} {parent : PathEntry}
    {path : List PathEntry}
    (h : deleteUp s handle tree changes retired page current (parent :: path) =
      .ok (changes', retired')) :
    (∃ size change, current.encodedLen tree = .ok size ∧
      prepareDeleteNode s page tree current = .ok change ∧
      changes' = changes ++ [change] ∧ retired' = retired ∧
      (nodeCapacity tree / 2 ≤ size ∨
        preflightMerge s tree parent.node parent.childPosition page current
          (nodeCapacity tree) = .ok none)) ∨
    ∃ retained merged position rightPage change separator node,
      preflightMerge s tree parent.node parent.childPosition page current
        (nodeCapacity tree) = .ok (some (retained, merged, position)) ∧
      parent.node.child (position + 1) = .ok rightPage ∧
      prepareDeleteNode s retained tree merged = .ok change ∧
      parent.node.removeSeparator position = .ok (separator, node) ∧
      continueAbove s handle tree (changes ++ [change]) (retired ++ [rightPage]) parent.page
        retained node path = .ok (changes', retired') := by
  simp only [deleteUp, bind_eq_ok, lift_eq_ok] at h
  obtain ⟨size, hsize, h⟩ := h
  by_cases hlarge : size ≥ nodeCapacity tree / 2
  · simp only [if_pos hlarge, bind_eq_ok, pure_eq_ok, Prod.mk.injEq] at h
    obtain ⟨change, hchange, rfl, rfl⟩ := h
    exact Or.inl ⟨size, change, hsize, hchange, rfl, rfl, Or.inl hlarge⟩
  rw [if_neg hlarge, bind_eq_ok] at h
  obtain ⟨result, hmerge, h⟩ := h
  cases result with
  | none =>
    simp only [bind_eq_ok, pure_eq_ok, Prod.mk.injEq] at h
    obtain ⟨change, hchange, rfl, rfl⟩ := h
    exact Or.inl ⟨size, change, hsize, hchange, rfl, rfl, Or.inr hmerge⟩
  | some result =>
    obtain ⟨retained, merged, position⟩ := result
    simp only [bind_eq_ok, lift_eq_ok] at h
    obtain ⟨rightPage, hright, change, hchange, ⟨separator, node⟩, hremove, h⟩ := h
    refine Or.inr ⟨retained, merged, position, rightPage, change, separator, node, hmerge,
      hright, hchange, hremove, ?_⟩
    unfold continueAbove
    split_ifs at h ⊢
    · simp only [bind_eq_ok, lift_eq_ok, pure_eq_ok, Prod.mk.injEq] at h ⊢
      obtain ⟨height, hheight, metaChange, hmeta, rfl, rfl⟩ := h
      exact ⟨height, hheight, metaChange, hmeta, by simp, by simp⟩
    · simp only [bind_eq_ok, pure_eq_ok, Prod.mk.injEq] at h ⊢
      obtain ⟨parentChange, hparent, rfl, rfl⟩ := h
      exact ⟨parentChange, hparent, by simp, rfl⟩
    · exact h

section Loop

variable {handle : BTreeHandle} {changes changes' : List PreparedPage}
  {retired retired' : List BTreePageRef} {n : Nat} {before : List (Tree k × IndexEntryKey)}
  {post : List (IndexEntryKey × Tree k)} {tc : Tree k} {outer : Ctx (k + 1) n}

lemma Shrinking.round (h : Shrinking s handle tree changes retired (.up ref before post outer) tc)
    (htree : tree = withRoot tree ((up ref before post outer).plug tc))
    (hrun : deleteUp s handle tree changes retired (rootRef tc) (rootNode tc)
      ((up ref before post outer).path tc) = .ok (changes', retired')) :
    (Planned s handle tree changes' retired' ((up ref before post outer).plug tc) ∧
      ∃ size, (rootNode tc).encodedLen tree = .ok size ∧ (nodeCapacity tree / 2 ≤ size ∨
        ∃ before' l fence r post' side, Window tc before post before' l fence r post' side ∧
          LeavesApart tree.spec (nodeCapacity tree) l r)) ∨
    ∃ before' l fence r post' side changes₁ retired₁,
      Window tc before post before' l fence r post' side ∧
      Shrinking s handle tree changes₁ retired₁ outer
        (.ofBranch (assemble ref before' (mergeTrees l fence r) post')) ∧
      continueAbove s handle tree changes₁ retired₁ ref (rootRef (mergeTrees l fence r))
        ((assemble ref before' (mergeTrees l fence r) post').node rootRef)
        (outer.path (.ofBranch (assemble ref before' (mergeTrees l fence r) post'))) =
          .ok (changes', retired') := by
  have hsiblings : ∀ p ∈ siblingImages before post, Held s tree p.1 p.2 := fun p hp =>
    h.held p (mem_append_right _ (mem_cons_of_mem _ hp))
  rcases deleteUp_cons_eq_ok hrun with ⟨size, change, hsize, hchange, rfl, rfl, hreason⟩ |
    ⟨retained, merged, position, rightPage, change, separator, node, hmerge, hright, hchange,
      hremove, hcontinue⟩
  · left
    refine ⟨h.write hchange htree, size, hsize, hreason.imp id fun hmerge => ?_⟩
    obtain ⟨before', l, fence, r, post', side, hwindow, hapart, -⟩ :=
      preflightMerge_eq_ok hsiblings hmerge
    exact ⟨before', l, fence, r, post', side, hwindow, hapart rfl⟩
  · right
    obtain ⟨before', l, fence, r, post', side, hwindow, -, hsome⟩ :=
      preflightMerge_eq_ok hsiblings hmerge
    obtain ⟨rfl, rfl, rfl⟩ := hsome retained merged position rfl
    rw [hwindow.assemble_eq] at hright hremove
    obtain rfl := child_window hright
    obtain rfl := removeSeparator_window (m := mergeTrees l fence r) (by simp) hremove
    have hpath : outer.path (.ofBranch (assemble ref before tc post)) =
        outer.path (.ofBranch (assemble ref before' (mergeTrees l fence r) post')) :=
      outer.path_congr rfl
    refine ⟨before', l, fence, r, post', side, _, _, hwindow, h.merge hwindow hchange, ?_⟩
    rw [rootRef_mergeTrees, ← hpath]
    exact hcontinue

/-- Above a merge the plan ends with a tree over the sequence reached so far. -/
lemma continueAbove_eq_ok {t : Tree k}
    (h : Shrinking s handle tree changes retired outer (.ofBranch (assemble ref before t post)))
    (htree : tree = withRoot tree (outer.plug (.ofBranch (assemble ref before t post))))
    (hloop : deleteUp s handle tree changes retired ref
        (.internal ((assemble ref before t post).node rootRef))
        (outer.path (.ofBranch (assemble ref before t post))) = .ok (changes', retired') →
      ∃ (m : Nat) (t' : Tree m), Planned s handle tree changes' retired' t' ∧
        pieces t' = outer.left ++ pieces (.ofBranch (assemble ref before t post)) ++ outer.right)
    (hrun : continueAbove s handle tree changes retired ref (rootRef t)
      ((assemble ref before t post).node rootRef)
      (outer.path (.ofBranch (assemble ref before t post))) = .ok (changes', retired')) :
    ∃ (m : Nat) (t' : Tree m), Planned s handle tree changes' retired' t' ∧
      pieces t' = outer.left ++ pieces (.ofBranch (assemble ref before t post)) ++ outer.right := by
  cases outer with
  | up ref' before' post' outer =>
    apply hloop
    simpa [continueAbove, path] using hrun
  | top =>
    simp only [continueAbove, path, if_true] at hrun
    split_ifs at hrun with hempty
    · have hlength : before.length + post.length = 0 := by
        rw [← separators_assemble_length rootRef ref t, hempty]
        rfl
      obtain rfl : before = [] := eq_nil_of_length_eq_zero (by omega)
      obtain rfl : post = [] := eq_nil_of_length_eq_zero (by omega)
      simp only [bind_eq_ok, lift_eq_ok, pure_eq_ok, Prod.mk.injEq] at hrun
      obtain ⟨height, hheight, metaChange, hmeta, rfl, rfl⟩ := hrun
      have htall : tree.height = k + 2 := congrArg MetaNode.height htree
      obtain rfl : height = k + 1 := by
        simp only [collapsedHeight, htall] at hheight
        split_ifs at hheight
        exact (pure_eq_ok.mp hheight).symm
      refine ⟨k, t, h.collapse hmeta, ?_⟩
      simp [left, right, Branch.pieces, assemble]
    · simp only [bind_eq_ok, pure_eq_ok, Prod.mk.injEq] at hrun
      obtain ⟨parentChange, hparent, rfl, rfl⟩ := hrun
      refine ⟨_, _, h.write hparent htree, ?_⟩
      simp [plug, left, right]

lemma pieces_window (ref : BTreePageRef) {before' : List (Tree k × IndexEntryKey)}
    {post' : List (IndexEntryKey × Tree k)} {l r : Tree k} {fence : IndexEntryKey}
    (hwindow : Window tc before post before' l fence r post' side) :
    pieces (.ofBranch (assemble ref before tc post)) =
      leftPieces pieces before' ++ (pieces l ++ .fence fence :: pieces r) ++
        rightPieces pieces post' := by
  rw [hwindow.assemble_eq, pieces_ofBranch, pieces_assemble]
  simp [rightPieces]

/-- Above the leaves, the loop keeps the in-order sequence. -/
lemma deleteUp_eq_ok {c : Ctx k n} (hk : k ≠ 0) (h : Shrinking s handle tree changes retired c tc)
    (htree : tree = withRoot tree (c.plug tc))
    (hrun : deleteUp s handle tree changes retired (rootRef tc) (rootNode tc) (c.path tc) =
      .ok (changes', retired')) :
    ∃ (m : Nat) (t' : Tree m), Planned s handle tree changes' retired' t' ∧
      pieces t' = c.left ++ pieces tc ++ c.right := by
  induction c generalizing changes retired with
  | top =>
    simp only [path, deleteUp, bind_eq_ok, lift_eq_ok] at hrun
    obtain ⟨size, -, hrun⟩ := hrun
    split_ifs at hrun
    simp only [bind_eq_ok, pure_eq_ok, Prod.mk.injEq] at hrun
    obtain ⟨change, hchange, rfl, rfl⟩ := hrun
    exact ⟨_, _, h.write hchange htree, pieces_plug .top tc⟩
  | up ref before post outer ih =>
    rcases h.round htree hrun with ⟨hplan, -⟩ |
      ⟨before', l, fence, r, post', side, changes₁, retired₁, hwindow, hnext, hcontinue⟩
    · exact ⟨_, _, hplan, pieces_plug _ tc⟩
    rw [plug] at htree
    have htree' : tree = withRoot tree
        (outer.plug (.ofBranch (assemble ref before' (mergeTrees l fence r) post'))) :=
      htree.trans (withRoot_plug_congr rfl)
    obtain ⟨m, t', hplan, hpieces⟩ := continueAbove_eq_ok hnext htree'
      (fun hloop => ih (by omega) hnext htree' hloop) hcontinue
    refine ⟨m, t', hplan, ?_⟩
    have hold := pieces_window ref hwindow
    rw [pieces_ofBranch, pieces_assemble] at hold
    rw [hpieces, pieces_ofBranch, pieces_assemble, pieces_mergeTrees hk, ← hold]
    simp [left, right]

end Loop

end Netbadb.BTree
