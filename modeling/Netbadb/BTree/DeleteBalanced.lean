import Netbadb.BTree.DeleteSpec

/-!
`delete_balanced_in` removes one entry. An emptied leaf is always small enough
to be merged with its sibling, so no leaf of a larger tree stays empty.
-/

namespace Netbadb

variable {tree : MetaNode}

namespace BTree

open Fences Outcome Branch List

variable {owner : Option Nat}

section Unlinks

variable {s s' : Store} {handle : BTreeHandle} {changes : List PreparedPage}
  {retired : List BTreePageRef} {n m : Nat} {t : Tree n} {t' : Tree m}

/-- A published unlink batch leaves a file that represents the planned tree. -/
lemma Represents.unlink (h : Represents s handle tree t)
    (hplan : Planned s handle tree changes retired t')
    (hrun : applyUnlinksAndRetire s changes retired owner = (s', .ok ()))
    (hordered : Ordered (cellsOf (pieces t'))) (hlinked : Linked (leaves t') none)
    (hnonempty : m ≠ 0 → ∀ page ∈ leaves t', page.node.entries ≠ []) :
    Represents s' handle (withRoot tree t') t' := by
  have hdisjoint : ∀ page ∈ retired, page.pageId ∉ changedIds changes := by
    intro page hpage hmem
    exact hplan.retired page hpage (mem_cons_of_mem _ (hplan.changed _ hmem))
  obtain ⟨hwritten, hframe, -⟩ := applyUnlinksAndRetire_eq_ok hrun hplan.nodup hdisjoint
  exact hplan.represents h ⟨hwritten, hframe⟩ hordered hlinked hnonempty

end Unlinks

variable {s : Store} {handle : BTreeHandle} {n : Nat} {node : LeafNode} {fence : IndexEntryKey}
  {t : Tree n}

/-- A subtree whose root gets another node starts the upward loop. -/
lemma Represents.shrinking {k : Nat} {c : Ctx k n} {tc : Tree k} (tc' : Tree k)
    (h : Represents s handle tree (c.plug tc)) (hroot : rootRef tc' = rootRef tc)
    (hbelow : belowImages tc' = belowImages tc) : Shrinking s handle tree [] [] c tc' := by
  have hframes : c.frames tc' = c.frames tc := c.frames_congr hroot
  have hids : pageIds tc' = pageIds tc := by rw [pageIds_eq, pageIds_eq, hroot, hbelow]
  have hheld := h.focus_held (rootRef tc, rootNode tc) (rootImage_mem tc)
  refine ⟨?_, ?_, nodup_nil, by simp [changedIds], ?_, by simp, ?_, ?_⟩
  · intro p hp
    rw [hbelow] at hp
    refine Covered.of_held (h.focus_held p ?_) (by simp [changedIds])
    rw [images_eq]
    exact mem_cons_of_mem _ hp
  · rw [hframes]
    exact h.frames_held
  · rw [hframes, hids]
    exact h.focus_nodup
  · rw [hroot]
    exact hheld.fits.nonzero
  · rw [hroot]
    exact hheld.fits.generated

lemma linked_merge {l r : List LeafPage} {left right : LeafPage}
    (h : Linked (l ++ left :: right :: r) none) (hnext : node.nextLeaf = right.node.nextLeaf) :
    Linked (l ++ ⟨left.ref, node⟩ :: r) none := by
  obtain ⟨hl, -, hright, hr⟩ := linked_append.mp h
  exact linked_append.mpr ⟨hl, hnext.trans hright, hr⟩

section Leaf

variable {c : Ctx 0 n} {page : LeafPage} {entry : IndexEntryKey} {l r : List IndexEntryKey}

/-- The tree after an entry left its leaf, before any rebalancing. -/
lemma Represents.removed (h : Represents s handle tree (c.plug (.ofLeaf page)))
    (hentries : page.node.entries = l ++ entry :: r) :
    Ordered (cellsOf (pieces
      (c.plug (.ofLeaf ⟨page.ref, { page.node with entries := l ++ r }⟩)))) ∧
    Linked (leaves (c.plug (.ofLeaf ⟨page.ref, { page.node with entries := l ++ r }⟩))) none ∧
    ∀ x, x ∈ entriesOf (c.plug (.ofLeaf ⟨page.ref, { page.node with entries := l ++ r }⟩)) ↔
      x ≠ entry ∧ x ∈ entriesOf (c.plug (.ofLeaf page)) := by
  have hordered := h.ordered
  have hlinked := h.linked
  refine ⟨?_, ?_, ?_⟩
  · rw [cellsOf_plug] at hordered ⊢
    refine hordered.sublist ?_
    rw [hentries, map_append, map_append, map_cons]
    exact ((((sublist_cons_self _ _).append_left _).append_left _).append_right _)
  · rw [leaves_plug] at hlinked ⊢
    exact linked_replace [⟨page.ref, { page.node with entries := l ++ r }⟩] hlinked rfl
      ⟨rfl, trivial⟩
  · intro x
    have hsorted := hordered.items_sorted
    rw [← entriesOf, entriesOf_plug, hentries] at hsorted
    rw [entriesOf_plug, entriesOf_plug, hentries]
    have hnodup := hsorted.imp (fun {a b} (hab : a < b) => ne_of_lt hab)
    simp only [mem_append, mem_cons]
    constructor
    · intro hx
      refine ⟨?_, by tauto⟩
      rintro rfl
      have hperm : (items (cellsOf c.left) ++ (l ++ x :: r) ++ items (cellsOf c.right)).Perm
          (x :: (items (cellsOf c.left) ++ (l ++ r) ++ items (cellsOf c.right))) := by
        rw [← Multiset.coe_eq_coe]
        simp only [← Multiset.coe_add, ← Multiset.cons_coe, ← Multiset.singleton_add]
        abel
      have := (nodup_cons.mp (hperm.nodup_iff.mp hnodup)).1
      simp only [mem_append] at this
      exact this hx
    · tauto

lemma Represents.beside_nonempty (h : Represents s handle tree (c.plug (.ofLeaf page)))
    (hn : n ≠ 0) : ∀ leaf ∈ leavesOf c.left ++ leavesOf c.right, leaf.node.entries ≠ [] := by
  intro leaf hmem
  apply h.nonempty hn leaf
  rw [leaves_plug, mem_append, mem_cons]
  rw [mem_append] at hmem
  tauto

/-- The pieces around a window of two leaves, seen from the focused one. -/
lemma Window.sides (ref : BTreePageRef) (outer : Ctx 1 n)
    {before before' : List (Tree 0 × IndexEntryKey)} {post post' : List (IndexEntryKey × Tree 0)}
    {left right : LeafPage} {side : Bool}
    (h : Window (.ofLeaf page) before post before' (.ofLeaf left) fence (.ofLeaf right) post' side) :
    (left = page ∧
      (Ctx.up ref before post outer).left = outer.left ++ leftPieces pieces before' ∧
      (Ctx.up ref before post outer).right =
        .fence fence :: .leaf right :: (rightPieces pieces post' ++ outer.right)) ∨
    (right = page ∧
      (Ctx.up ref before post outer).left =
        outer.left ++ leftPieces pieces before' ++ [.leaf left, .fence fence] ∧
      (Ctx.up ref before post outer).right = rightPieces pieces post' ++ outer.right) := by
  generalize hfocus : Tree.ofLeaf page = focus at h
  generalize hleft : Tree.ofLeaf left = l' at h
  generalize hright : Tree.ofLeaf right = r' at h
  cases h with
  | right before k r post =>
    subst hright
    refine Or.inl ⟨hleft.trans hfocus.symm, rfl, ?_⟩
    simp [Ctx.right, rightPieces]
  | left before l k =>
    subst hleft
    refine Or.inr ⟨hright.trans hfocus.symm, ?_, rfl⟩
    simp [Ctx.left, leftPieces]

variable {ref : BTreePageRef}

lemma Fits.next_generated (h : Fits tree ref (.leaf node)) :
    (if node.nextLeaf.any (·.generation.isSome) then 8 else 0) ≤
      if tree.generation.isSome then 8 else 0 := by
  have hnext := h.formatted.2
  cases hlink : node.nextLeaf with
  | none => simp
  | some next => simp [(hnext next hlink).2]

lemma Fits.entries_le (h : Fits tree ref (.leaf node)) :
    (if tree.generation.isSome then 8 else 0) + encodedEntriesSize node.entries ≤
      nodeCapacity tree := by
  obtain ⟨size, hsize, hle⟩ := h.encodedLen
  rw [← leafEncodedLen_eq_ok hsize]
  exact hle

/-- An emptied leaf is small and fits together with any sibling, so a leaf that
stays on its own has entries. -/
lemma Represents.written_nonempty {before : List (Tree 0 × IndexEntryKey)}
    {post : List (IndexEntryKey × Tree 0)} {outer : Ctx 1 n} (node : LeafNode) {size : Nat}
    (h : Represents s handle tree ((Ctx.up ref before post outer).plug (.ofLeaf page)))
    (hnext : node.nextLeaf = page.node.nextLeaf)
    (hsize : (DeleteNode.leaf node).encodedLen tree = .ok size)
    (hreason : nodeCapacity tree / 2 ≤ size ∨
      ∃ before' left fence right post' side,
        Window (.ofLeaf ⟨page.ref, node⟩) before post before' left fence right post' side ∧
          LeavesApart tree.spec (nodeCapacity tree) left right) : node.entries ≠ [] := by
  intro hempty
  have hfocus := h.focus_held (page.ref, .leaf page.node) (by simp)
  rcases hreason with hlarge | ⟨before', left, fence, right, post', side, hwindow, hapart⟩
  · rw [leafEncodedLen_eq_ok hsize, hempty] at hlarge
    simp only [nodeCapacity, singlePayloadCapacity, pageSize, pageHeaderSize, slotSize,
      btreeOwnerSize, encodedEntriesSize, nodeHeaderSize, commonHeaderSize, map_nil,
      sum_nil] at hlarge
    split_ifs at hlarge <;> omega
  · have hsibling : ∀ x : Tree 0, (∀ p ∈ images x, p ∈ siblingImages before post) →
        Fits tree (rootRef x) (.leaf x.leafNode) := by
      intro x hx
      exact (h.frames_held (rootRef x, .leaf x.leafNode) (mem_append_right _
        (mem_cons_of_mem _ (hx _ (rootImage_mem x))))).fits
    cases hwindow with
    | right before k r post =>
      have hright := hsibling right fun p hp => by simp [siblingImages, hp]
      have hlarge := mergeLeavesIfFits_eq_none hapart
      have hflag := hfocus.fits.next_generated
      have hle := hright.entries_le
      simp only [leafNode_ofLeaf, hempty, nil_append, hnext] at hlarge
      omega
    | left before l k =>
      have hleft := hsibling left fun p hp => by simp [siblingImages, hp]
      have hlarge := mergeLeavesIfFits_eq_none hapart
      have hflag := hleft.next_generated
      have hle := hleft.entries_le
      simp only [leafNode_ofLeaf, hempty, append_nil] at hlarge
      omega

end Leaf

/-- Merging two neighbouring leaves in a sequence drops the fence between
them. -/
lemma merged_sequence {before after : List Piece} {left right : LeafPage}
    (hordered : Ordered (cellsOf (before ++ .leaf left :: .fence fence :: .leaf right :: after)))
    (hlinked : Linked (leavesOf (before ++ .leaf left :: .fence fence :: .leaf right :: after)) none) :
    Ordered (cellsOf (before ++ .leaf ⟨left.ref,
      ⟨left.node.entries ++ right.node.entries, right.node.nextLeaf⟩⟩ :: after)) ∧
    Linked (leavesOf (before ++ .leaf ⟨left.ref,
      ⟨left.node.entries ++ right.node.entries, right.node.nextLeaf⟩⟩ :: after)) none ∧
    items (cellsOf (before ++ .leaf ⟨left.ref,
      ⟨left.node.entries ++ right.node.entries, right.node.nextLeaf⟩⟩ :: after)) =
      items (cellsOf (before ++ .leaf left :: .fence fence :: .leaf right :: after)) := by
  refine ⟨?_, ?_, ?_⟩
  · refine hordered.sublist ?_
    simp only [cellsOf_append, cellsOf_leaf_cons, cellsOf_fence_cons, map_append, append_assoc]
    exact ((sublist_cons_self _ _).append_left _).append_left _
  · simp only [leavesOf_append, leavesOf_leaf_cons, leavesOf_fence_cons] at hlinked ⊢
    exact linked_merge hlinked rfl
  · simp

/-- What a plan of `delete_balanced_in` reaches: the entry is gone, the leaves
are linked and in order, and none of them is empty below a root. -/
lemma planDeleteBalanced_eq_ok {entry : IndexEntryKey} {changes : List PreparedPage}
    {retired : List BTreePageRef} (h : Represents s handle tree t)
    (hplan : planDeleteBalanced s handle entry = .ok (changes, retired, owner)) :
    entry ∈ entriesOf t ∧ ∃ (m : Nat) (t' : Tree m), Planned s handle tree changes retired t' ∧
      Ordered (cellsOf (pieces t')) ∧ Linked (leaves t') none ∧
      (m ≠ 0 → ∀ page ∈ leaves t', page.node.entries ≠ []) ∧
      ∀ x, x ∈ entriesOf t' ↔ x ≠ entry ∧ x ∈ entriesOf t := by
  obtain ⟨c, page, hleaf, hfind⟩ := h.findLeafForEntry entry
  obtain rfl := hleaf.plug
  simp only [planDeleteBalanced, h.readMeta, hfind, bind_eq_ok, lift_eq_ok, Except.ok.injEq,
    exists_eq_left'] at hplan
  obtain ⟨_, -, node, hremove, hplan⟩ := hplan
  have hsorted := (h.focus_held (page.ref, .leaf page.node) (by simp)).fits.sorted
  obtain ⟨-, l, r, hentries, rfl⟩ := LeafNode.remove_eq_ok hsorted hremove
  have hpresent : entry ∈ entriesOf (c.plug (.ofLeaf page)) := by
    rw [hleaf.mem_iff, hentries]
    simp
  obtain ⟨hordered, hlinked, hmem⟩ := h.removed hentries
  refine ⟨hpresent, ?_⟩
  by_cases hheight : tree.height = 1
  · simp only [if_pos hheight, bind_eq_ok, pure_eq_ok, Prod.mk.injEq] at hplan
    obtain ⟨change, hchange, rfl, rfl, -⟩ := hplan
    refine ⟨n, _, h.rewriteLeaf hchange, hordered, hlinked, ?_, hmem⟩
    have := h.height
    omega
  · simp only [if_neg hheight, bind_eq_ok, pure_eq_ok, Prod.mk.injEq] at hplan
    obtain ⟨⟨changes', retired'⟩, hup, rfl, rfl, -⟩ := hplan
    have hn : n ≠ 0 := by
      have := h.height
      omega
    have hshrink : Shrinking s handle tree [] [] c
        (.ofLeaf ⟨page.ref, { page.node with entries := l ++ r }⟩) := h.shrinking _ rfl rfl
    have hpath : c.path (.ofLeaf page) =
        c.path (.ofLeaf ⟨page.ref, { page.node with entries := l ++ r }⟩) := c.path_congr rfl
    rw [reverse_reverse, hpath] at hup
    have htree : tree = withRoot tree
        (c.plug (.ofLeaf ⟨page.ref, { page.node with entries := l ++ r }⟩)) :=
      h.eq_withRoot.trans (withRoot_plug_congr rfl)
    have hbeside := h.beside_nonempty hn
    cases c with
    | top => exact absurd rfl hn
    | up ref before post outer =>
      rcases hshrink.round htree hup with ⟨hplanned, size, hsize, hreason⟩ |
        ⟨before', left, fence, right, post', side, changes₁, retired₁, hwindow, hnext,
          hcontinue⟩
      · refine ⟨n, _, hplanned, hordered, hlinked, ?_, hmem⟩
        have hkept := h.written_nonempty
          { page.node with entries := l ++ r } rfl hsize hreason
        intro _ leaf hin
        rw [leaves_plug, mem_append, mem_cons] at hin
        rcases hin with hin | rfl | hin
        · exact hbeside leaf (mem_append_left _ hin)
        · exact hkept
        · exact hbeside leaf (mem_append_right _ hin)
      · cases left using Tree.leafCases with | ofLeaf left => ?_
        cases right using Tree.leafCases with | ofLeaf right => ?_
        rw [Ctx.plug] at htree
        have htree' : tree = withRoot tree (outer.plug
            (.ofBranch (assemble ref before' (mergeTrees (.ofLeaf left) fence (.ofLeaf right))
              post'))) := htree.trans (withRoot_plug_congr rfl)
        obtain ⟨m, t', hplanned, hpieces⟩ := continueAbove_eq_ok hnext htree'
          (fun hloop => deleteUp_eq_ok (by omega) hnext htree' hloop) hcontinue
        -- The sequence around the two leaves, before and after they are merged.
        have hnew : pieces t' = (outer.left ++ leftPieces pieces before') ++
            .leaf ⟨left.ref, ⟨left.node.entries ++ right.node.entries, right.node.nextLeaf⟩⟩ ::
              (rightPieces pieces post' ++ outer.right) := by
          rw [hpieces, pieces_ofBranch, pieces_assemble]
          simp
        have hold : pieces ((Ctx.up ref before post outer).plug
            (.ofLeaf ⟨page.ref, { page.node with entries := l ++ r }⟩)) =
            (outer.left ++ leftPieces pieces before') ++
              .leaf left :: .fence fence :: .leaf right ::
                (rightPieces pieces post' ++ outer.right) := by
          rw [Ctx.plug, Ctx.pieces_plug, pieces_window ref hwindow]
          simp
        rw [hold] at hordered
        rw [leaves, hold] at hlinked
        obtain ⟨hordered', hlinked', hitems⟩ := merged_sequence hordered hlinked
        refine ⟨m, t', hplanned, hnew ▸ hordered', ?_, ?_, ?_⟩
        · rw [leaves, hnew]
          exact hlinked'
        · intro _ leaf hin
          rw [leaves, hnew, leavesOf_append, leavesOf_leaf_cons, mem_append, mem_cons] at hin
          rcases hwindow.sides ref outer with ⟨-, hl, hr⟩ | ⟨-, hl, hr⟩
          · rw [hl, hr, leavesOf_fence_cons, leavesOf_leaf_cons] at hbeside
            have hright := hbeside right (by simp)
            rcases hin with hin | rfl | hin
            · exact hbeside leaf (mem_append_left _ hin)
            · simp [hright]
            · exact hbeside leaf (mem_append_right _ (mem_cons_of_mem _ hin))
          · rw [hl, hr, leavesOf_append] at hbeside
            have hleft := hbeside left (by simp)
            rcases hin with hin | rfl | hin
            · exact hbeside leaf (mem_append_left _ (mem_append_left _ hin))
            · simp [hleft]
            · exact hbeside leaf (mem_append_right _ hin)
        · intro x
          rw [← hmem x, entriesOf, entriesOf, hnew, hold, hitems]

lemma deleteBalancedIn_eq_ok {s' : Store} {key : ScalarValue} {rowId : RowId}
    (h : Represents s handle tree t) (hrun : deleteBalancedIn s handle key rowId = (s', .ok ())) :
    ∃ (m : Nat) (t' : Tree m), Represents s' handle (withRoot tree t') t' ∧
      { key, rowId } ∈ entriesOf t ∧
      ∀ entry, entry ∈ entriesOf t' ↔ entry ≠ { key, rowId } ∧ entry ∈ entriesOf t := by
  rw [deleteBalancedIn] at hrun
  cases hplan : planDeleteBalanced s handle { key, rowId } with
  | error error => simp [hplan, commitUnlinks] at hrun
  | ok plan =>
    simp only [hplan, commitUnlinks] at hrun
    obtain ⟨hpresent, m, t', hplanned, hordered, hlinked, hnonempty, hmem⟩ :=
      planDeleteBalanced_eq_ok h hplan
    exact ⟨m, t', h.unlink hplanned hrun hordered hlinked hnonempty, hpresent, hmem⟩

end BTree

end Netbadb
