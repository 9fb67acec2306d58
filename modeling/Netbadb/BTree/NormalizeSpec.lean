import Netbadb.BTree.DeleteBalanced

/-!
Normalization of a deletion path. Every round takes the topmost node of the
path without a separator and merges it with a sibling, rotates a child into
it, or drops it when it is the root. None of this touches a leaf or the order
of the fences: the in-order sequence of the tree stays the same.
-/

namespace Netbadb.BTree

open Fences Outcome Branch List Ctx Except

/-- A path entry of a context is a branch of the tree with the part of the
path above it. -/
lemma Ctx.path_split {n m : Nat} {c : Ctx n m} {t : Tree n} {deeper above : List PathEntry}
    {entry : PathEntry} (h : c.path t = deeper ++ entry :: above) :
    ∃ (k : Nat) (outer : Ctx (k + 1) m) (ref : BTreePageRef)
      (before : List (Tree k × IndexEntryKey)) (child : Tree k)
      (post : List (IndexEntryKey × Tree k)),
      c.plug t = outer.plug (.ofBranch (assemble ref before child post)) ∧
      entry = ⟨ref, (assemble ref before child post).node rootRef, before.length⟩ ∧
      above = outer.path (.ofBranch (assemble ref before child post)) := by
  induction c generalizing deeper with
  | top => simp [path] at h
  | @up k m ref before post outer ih =>
    cases deeper with
    | nil =>
      obtain ⟨rfl, rfl⟩ := cons.inj h
      exact ⟨k, outer, ref, before, t, post, rfl, rfl, rfl⟩
    | cons first deeper => exact ih (cons.inj h).2

lemma getElem?_reverse_split {α : Type} {l : List α} {i : Nat} {a : α}
    (h : l.reverse[i]? = some a) : ∃ deeper above, l = deeper ++ a :: above ∧ above.length = i := by
  obtain ⟨hi, ha⟩ := List.getElem?_eq_some_iff.mp h
  refine ⟨(l.reverse.drop (i + 1)).reverse, (l.reverse.take i).reverse, ?_, ?_⟩
  · rw [← reverse_inj]
    simp only [reverse_append, reverse_cons, reverse_reverse, append_assoc, singleton_append]
    rw [← ha, ← drop_eq_getElem_cons hi, take_append_drop]
  · simp only [length_reverse, length_take]
    simp only [length_reverse] at hi
    omega

/-- A child moved over the fence between two branches; the fence that was next
to the child takes its place. -/
structure Rotated {k : Nat} (l : Tree (k + 1)) (fence : IndexEntryKey) (r : Tree (k + 1))
    (l' : Tree (k + 1)) (fence' : IndexEntryKey) (r' : Tree (k + 1)) : Prop where
  leftRef : rootRef l' = rootRef l
  rightRef : rootRef r' = rootRef r
  pieces : pieces l' ++ .fence fence' :: pieces r' = pieces l ++ .fence fence :: pieces r
  below : belowImages l' ++ belowImages r' = belowImages l ++ belowImages r

variable {k : Nat}

lemma belowImages_ofBranch (b : Branch (Tree k)) : belowImages (.ofBranch b) = b.below images := rfl

lemma rotate_eq_ok {side : Bool} {l r : Tree (k + 1)} {fence promoted : IndexEntryKey}
    {left right : InternalNode}
    (h : rotate side l.internalNode r.internalNode fence = .ok (left, promoted, right)) :
    ∃ l' r', Rotated l fence r l' promoted r' ∧ left = l'.internalNode ∧
      right = r'.internalNode := by
  cases l using Tree.branchCases with | ofBranch l => ?_
  cases r using Tree.branchCases with | ofBranch r => ?_
  obtain ⟨lref, lfirst, lrest⟩ := l
  obtain ⟨rref, rfirst, rrest⟩ := r
  cases side with
  | true =>
    simp only [rotate, if_true, rotateLeft, bind_eq_ok, pure_eq_ok, Prod.mk.injEq] at h
    obtain ⟨⟨separator, node⟩, hremove, rfl, rfl, rfl⟩ := h
    cases rrest with
    | nil => simp [InternalNode.removeSeparator, Branch.node] at hremove
    | cons q rrest =>
      obtain ⟨rfl, rfl⟩ := hremove
      refine ⟨.ofBranch ⟨lref, lfirst, lrest ++ [(fence, rfirst)]⟩,
        .ofBranch ⟨rref, q.2, rrest⟩, ⟨rfl, rfl, ?_, ?_⟩, ?_, rfl⟩
      · simp [Branch.pieces]
      · simp [belowImages_ofBranch, below]
      · simp [Branch.node]
  | false =>
    simp only [rotate, Bool.false_eq_true, if_false, rotateRight] at h
    rcases eq_nil_or_concat lrest with rfl | ⟨init, q, rfl⟩
    · simp [Branch.node] at h
    simp only [internalNode_ofBranch, Branch.node, concat_eq_append, map_append,
      map_cons, map_nil, List.getLast?_append, List.getLast?_singleton,
      Option.some_or, dropLast_concat, pure_eq_ok, Prod.mk.injEq] at h
    obtain ⟨rfl, rfl, rfl⟩ := h
    refine ⟨.ofBranch ⟨lref, lfirst, init⟩, .ofBranch ⟨rref, q.2, (fence, rfirst) :: rrest⟩,
      ⟨rfl, rfl, ?_, ?_⟩, rfl, rfl⟩
    · simp [Branch.pieces]
    · simp [belowImages_ofBranch, below]

lemma setSeparatorKey_window {T : Type} {root : T → BTreePageRef} {ref : BTreePageRef}
    {before : List (T × IndexEntryKey)} {l r l' r' : T} {post : List (IndexEntryKey × T)}
    {fence fence' : IndexEntryKey} (hl : root l' = root l) (hr : root r' = root r) :
    setSeparatorKey ((assemble ref before l ((fence, r) :: post)).node root) before.length fence' =
      (assemble ref before l' ((fence', r') :: post)).node root := by
  rw [node_assemble_congr ref hl, node_assemble, node_assemble, setSeparatorKey]
  have hlength : before.length = ((linkChildren before l).map (separator root)).length := by simp
  have hmodify := modify_append_length ((linkChildren before l).map (separator root))
    (post.map (separator root)) (separator root (fence, r)) fun separator =>
      { separator with key := fence' }
  rw [← hlength] at hmodify
  simp only [map_cons, hmodify]
  simp [separator, hr]

/-- The pages of a branch, around two neighbouring children. -/
lemma images_window (ref : BTreePageRef) (before : List (Tree k × IndexEntryKey)) (l r : Tree k)
    (fence : IndexEntryKey) (post : List (IndexEntryKey × Tree k)) :
    (images (.ofBranch (assemble ref before l ((fence, r) :: post)))).Perm
      ((ref, .internal ((assemble ref before l ((fence, r) :: post)).node rootRef)) ::
        (rootRef l, rootNode l) :: (rootRef r, rootNode r) ::
          (siblingImages before post ++ (belowImages l ++ belowImages r))) := by
  rw [images_ofBranch, assemble_ref]
  refine Perm.cons _ ?_
  rw [below_assemble, flatMap_cons, images_eq l, images_eq r, siblingImages, ← Multiset.coe_eq_coe]
  simp only [← Multiset.coe_add, ← Multiset.cons_coe, ← Multiset.singleton_add]
  abel

variable {position : Nat} {changes : List PreparedPage} {retired : List BTreePageRef}
  {owner : Option Nat}

section Repair

variable {s : Store} {handle : BTreeHandle} {tree : MetaNode} {n : Nat} {ref : BTreePageRef}
  {before before' : List (Tree (k + 1) × IndexEntryKey)}
  {post post' : List (IndexEntryKey × Tree (k + 1))} {outer : Ctx (k + 2) n}
  {tc l r l' r' : Tree (k + 1)} {fence fence' : IndexEntryKey} {side : Bool}

/-- A rotation writes both children and their parent. -/
lemma Represents.rotateWindow (h : Represents s handle tree ((up ref before post outer).plug tc))
    (hwindow : Window tc before post before' l fence r post' side)
    (hrotated : Rotated l fence r l' fence' r') {leftChange rightChange parentChange : PreparedPage}
    (hleft : prepareInternal s tree (rootRef l) l'.internalNode = .ok leftChange)
    (hright : prepareInternal s tree (rootRef r) r'.internalNode = .ok rightChange)
    (hparent : prepareInternal s tree ref
      ((assemble ref before' l' ((fence', r') :: post')).node rootRef) = .ok parentChange) :
    Planned s handle tree [leftChange, rightChange, parentChange] []
      (outer.plug (.ofBranch (assemble ref before' l' ((fence', r') :: post')))) := by
  obtain ⟨hleftWrites, -⟩ := prepareInternal_eq_ok hleft
  obtain ⟨hrightWrites, -⟩ := prepareInternal_eq_ok hright
  obtain ⟨hparentWrites, -⟩ := prepareInternal_eq_ok hparent
  have hids : changedIds [leftChange, rightChange, parentChange] =
      [(rootRef l).pageId, (rootRef r).pageId, ref.pageId] := by
    simp [changedIds, hleftWrites.reference, hrightWrites.reference, hparentWrites.reference]
  rw [plug, hwindow.assemble_eq] at h
  have hframes : outer.frames (.ofBranch (assemble ref before' l' ((fence', r') :: post'))) =
      outer.frames (.ofBranch (assemble ref before' l ((fence, r) :: post'))) :=
    outer.frames_congr rfl
  have hold := images_window ref before' l r fence post'
  have hnew := images_window ref before' l' r' fence' post'
  rw [hrotated.below, hrotated.leftRef, hrotated.rightRef] at hnew
  have hpageIds : (pageIds (.ofBranch (assemble ref before' l' ((fence', r') :: post')))).Perm
      (pageIds (.ofBranch (assemble ref before' l ((fence, r) :: post')))) := by
    refine (hnew.map (·.1.pageId)).trans (Perm.trans ?_ (hold.map (·.1.pageId)).symm)
    exact Perm.refl _
  have hfocus := (nodup_append.mp (nodup_cons.mp h.focus_nodup).2).1
  rw [pageIds, (hold.map (·.1.pageId)).nodup_iff] at hfocus
  simp only [map_cons] at hfocus
  obtain ⟨href, hfocus⟩ := nodup_cons.mp hfocus
  obtain ⟨hl, hfocus⟩ := nodup_cons.mp hfocus
  obtain ⟨hr, -⟩ := nodup_cons.mp hfocus
  simp only [mem_cons, not_or] at href hl
  have hheld : ∀ p ∈ (ref, .internal ((assemble ref before' l ((fence, r) :: post')).node rootRef)) ::
      (rootRef l, rootNode l) :: (rootRef r, rootNode r) ::
        (siblingImages before' post' ++ (belowImages l ++ belowImages r)), Held s tree p.1 p.2 :=
    fun p hp => h.focus_held p (hold.mem_iff.mpr hp)
  have hrefHeld := (hheld _ mem_cons_self).fits
  have hleftHeld := (hheld (rootRef l, rootNode l) (by simp)).fits
  have hrightHeld := (hheld (rootRef r, rootNode r) (by simp)).fits
  refine Planned.of_plug ?_ ?_ ?_ ?_ ?_ (by simp) (h.eq_withRoot.trans (withRoot_plug_congr rfl))
  · intro p hp
    rcases mem_cons.mp (hnew.mem_iff.mp hp) with rfl | hp
    · exact Covered.of_writes (hparentWrites.fits hrefHeld.nonzero hrefHeld.generated) (by simp)
        hparentWrites
    rcases mem_cons.mp hp with rfl | hp
    · exact Covered.of_writes (hleftWrites.fits hleftHeld.nonzero hleftHeld.generated) (by simp)
        hleftWrites
    rcases mem_cons.mp hp with rfl | hp
    · exact Covered.of_writes (hrightWrites.fits hrightHeld.nonzero hrightHeld.generated) (by simp)
        hrightWrites
    refine Covered.of_held (hheld p (by simp [hp])) ?_
    have hid := mem_map_of_mem (f := fun q : NodeImage => q.1.pageId) hp
    rw [hids]
    simp only [mem_cons, not_mem_nil, or_false, not_or]
    exact ⟨fun heq => hl.2 (heq ▸ hid), fun heq => hr (heq ▸ hid),
      fun heq => href.2.2 (heq ▸ hid)⟩
  · rw [hframes]
    exact h.frames_held
  · rw [hids]
    simp only [nodup_cons, mem_cons, not_mem_nil, or_false, not_or,
      not_false_eq_true, nodup_nil, and_true]
    exact ⟨⟨hl.1, Ne.symm href.1⟩, Ne.symm href.2.1⟩
  · intro id hid
    rw [hids] at hid
    refine hpageIds.mem_iff.mpr ((hold.map (·.1.pageId)).mem_iff.mpr ?_)
    simp only [mem_cons, not_mem_nil, or_false, map_cons] at hid ⊢
    tauto
  · rw [hframes]
    exact ((hpageIds.append_right _).cons _).nodup_iff.mpr h.focus_nodup

lemma siblingFence_eq_ok
    (h : siblingFence ((assemble ref before tc post).node rootRef) before.length = .ok position) :
    ∃ before' l fence r post', Window tc before post before' l fence r post'
        (decide (before.length < ((assemble ref before tc post).node rootRef).separators.length)) ∧
      position = before'.length := by
  have hne : before.length + post.length ≠ 0 := by
    intro hzero
    have hbefore : before.length = 0 := by omega
    have hpost : post.length = 0 := by omega
    simp only [siblingFence, separators_assemble_length, hbefore, hpost] at h
    simp at h
  obtain ⟨before', l, fence, r, post', side, hwindow, hside, hlength⟩ :=
    exists_window rootRef ref tc hne
  refine ⟨before', l, fence, r, post', hside ▸ hwindow, ?_⟩
  rw [hlength, hside]
  simp only [siblingFence] at h
  by_cases hlt : before.length < ((assemble ref before tc post).node rootRef).separators.length
  · rw [if_pos hlt, ok.injEq] at h
    rw [if_pos (decide_eq_true hlt)]
    exact h.symm
  · split_ifs at h
    rw [if_neg (by simpa using hlt)]
    exact (ok.inj h).symm

/-- The repair of one unary node keeps the in-order sequence. -/
lemma planUnaryRepair_eq_ok
    (h : Represents s handle tree ((Ctx.up ref before post outer).plug tc)) {isRoot : Bool}
    (hroot : isRoot = true → outer.path (.ofBranch (assemble ref before tc post)) = [])
    (hplan : planUnaryRepair s handle tree
      ⟨ref, (assemble ref before tc post).node rootRef, before.length⟩
      ⟨rootRef tc, tc.internalNode, position⟩ isRoot = .ok (changes, retired, owner)) :
    ∃ (m : Nat) (t' : Tree m), Planned s handle tree changes retired t' ∧
      pieces t' = pieces ((Ctx.up ref before post outer).plug tc) := by
  simp only [planUnaryRepair, bind_eq_ok, lift_eq_ok, check_eq_ok] at hplan
  obtain ⟨position', hfence, leftPage, hleftPage, rightPage, hrightPage, -, left, hleft, right,
    hright, hplan⟩ := hplan
  obtain ⟨before', l, fence, r, post', hwindow, rfl⟩ := siblingFence_eq_ok hfence
  rw [hwindow.assemble_eq] at hleftPage hrightPage
  obtain rfl := child_focus hleftPage
  obtain rfl := child_window hrightPage
  obtain ⟨hreadLeft, hreadRight⟩ := hwindow.read Tree.internalNode
    (fun page => readInternal s page tree) fun x hx =>
      readInternal_tree fun p hp => h.frames_held p
        (mem_append_right _ (mem_cons_of_mem _ (hx p hp)))
  obtain rfl := ok.inj (hreadLeft.symm.trans hleft)
  obtain rfl := ok.inj (hreadRight.symm.trans hright)
  rw [hwindow.assemble_eq] at hplan
  simp only [getElem?_window, bind_eq_ok, lift_eq_ok] at hplan
  obtain ⟨merged, hmerge, hplan⟩ := hplan
  have hpieces := pieces_window ref hwindow
  cases merged with
  | some merged =>
    simp only [bind_eq_ok, lift_eq_ok] at hplan
    obtain ⟨change, hchange, ⟨separator, node⟩, hremove, hplan⟩ := hplan
    obtain rfl := removeSeparator_window (m := mergeTrees l fence r) (by simp) hremove
    rw [mergeInternalsIfFits_eq_ok hmerge, ← internalNode_mergeTrees] at hchange
    have hnext := (h.shrinking tc rfl rfl).merge hwindow hchange
    have hkept : pieces (.ofBranch (assemble ref before' (mergeTrees l fence r) post')) =
        pieces (.ofBranch (assemble ref before tc post)) := by
      rw [hpieces, pieces_ofBranch, pieces_assemble, pieces_mergeTrees (by omega)]
    by_cases hcollapse : isRoot = true ∧
        ((assemble ref before' (mergeTrees l fence r) post').node rootRef).separators = []
    · rw [if_pos hcollapse] at hplan
      simp only [bind_eq_ok, pure_eq_ok, Prod.mk.injEq] at hplan
      obtain ⟨metaChange, hmeta, rfl, rfl, -⟩ := hplan
      cases outer with
      | up => exact absurd (hroot hcollapse.1) (by simp [path])
      | top =>
        have hlength : before'.length + post'.length = 0 := by
          rw [← separators_assemble_length rootRef ref (mergeTrees l fence r), hcollapse.2]
          rfl
        obtain rfl : before' = [] := eq_nil_of_length_eq_zero (by omega)
        obtain rfl : post' = [] := eq_nil_of_length_eq_zero (by omega)
        have hheight : tree.height - 1 = k + 2 := by
          rw [h.height]
          rfl
        rw [hheight, ← rootRef_mergeTrees l r fence] at hmeta
        refine ⟨k + 1, mergeTrees l fence r, hnext.collapse hmeta, ?_⟩
        rw [plug, plug, ← hkept]
        simp [Branch.pieces, assemble]
    · rw [if_neg hcollapse] at hplan
      simp only [bind_eq_ok, pure_eq_ok, Prod.mk.injEq] at hplan
      obtain ⟨parentChange, hparent, rfl, rfl, -⟩ := hplan
      have htree : tree = withRoot tree
          (outer.plug (.ofBranch (assemble ref before' (mergeTrees l fence r) post'))) := by
        have hold := h.eq_withRoot
        rw [plug] at hold
        exact hold.trans (withRoot_plug_congr rfl)
      refine ⟨n, _, hnext.write hparent htree, ?_⟩
      rw [pieces_plug, plug, pieces_plug, hkept]
  | none =>
    simp only [bind_eq_ok, lift_eq_ok, pure_eq_ok, Prod.mk.injEq] at hplan
    obtain ⟨⟨left, promoted, right⟩, hrotate, leftChange, hleftChange, rightChange,
      hrightChange, parentChange, hparentChange, rfl, rfl, -⟩ := hplan
    obtain ⟨l', r', hrotated, rfl, rfl⟩ := rotate_eq_ok hrotate
    rw [setSeparatorKey_window hrotated.leftRef hrotated.rightRef] at hparentChange
    refine ⟨n, _, h.rotateWindow hwindow hrotated hleftChange hrightChange hparentChange, ?_⟩
    rw [pieces_plug, plug, pieces_plug, hpieces, pieces_ofBranch, pieces_assemble,
      ← hrotated.pieces]
    simp [rightPieces]

end Repair

/-- No internal node on the path to an entry has a single child. -/
def PathBranches (s : Store) (handle : BTreeHandle) (entry : IndexEntryKey) : Prop :=
  ∀ tree page leaf path, readMeta s handle = .ok tree →
    findLeafForEntry s tree entry = .ok (page, leaf, path) →
      ∀ p ∈ path, p.node.separators ≠ []

section Round

variable {s : Store} {handle : BTreeHandle} {tree : MetaNode} {n : Nat} {t : Tree n}
  {entry : IndexEntryKey} {page : LeafPage} {c : Ctx 0 n} {current : PathEntry}

lemma Represents.dropRoot (h : Represents s handle tree (c.plug (.ofLeaf page))) {height : Nat}
    {metaChange : PreparedPage} (hfirst : (c.path (.ofLeaf page)).reverse[0]? = some current)
    (hunary : current.node.separators = []) (hheight : collapsedHeight tree = .ok height)
    (hmeta : prepareMeta s handle
      { tree with rootPage := current.node.firstChild, height } = .ok metaChange) :
    ∃ (m : Nat) (t' : Tree m), Planned s handle tree [metaChange] [current.page] t' ∧
      pieces t' = pieces (c.plug (.ofLeaf page)) := by
  obtain ⟨deeper, above, hpath, habove⟩ := getElem?_reverse_split hfirst
  obtain ⟨k, outer, ref, before, child, post, hplug, rfl, hrest⟩ := path_split hpath
  obtain rfl := eq_nil_of_length_eq_zero habove
  rw [hplug] at h ⊢
  cases outer with
  | up => simp [path] at hrest
  | top =>
    have hlength : before.length + post.length = 0 := by
      rw [← separators_assemble_length rootRef ref child, hunary]
      rfl
    obtain rfl : before = [] := eq_nil_of_length_eq_zero (by omega)
    obtain rfl : post = [] := eq_nil_of_length_eq_zero (by omega)
    obtain rfl : height = k + 1 := by
      simp only [collapsedHeight, h.height] at hheight
      split_ifs at hheight
      exact (pure_eq_ok.mp hheight).symm
    have hshrink : Shrinking s handle tree [] [] .top (.ofBranch ⟨ref, child, []⟩) :=
      h.shrinking (c := .top) (.ofBranch ⟨ref, child, []⟩) rfl rfl
    refine ⟨k, child, hshrink.collapse hmeta, ?_⟩
    simp [plug, Branch.pieces, assemble]

/-- A node with a single child below another node of the path is repaired. -/
lemma Represents.repairNode (h : Represents s handle tree (c.plug (.ofLeaf page)))
    {parent : PathEntry} (hparent : (c.path (.ofLeaf page)).reverse[position]? = some parent)
    (hcurrent : (c.path (.ofLeaf page)).reverse[position + 1]? = some current)
    (hplan : planUnaryRepair s handle tree parent current (decide (position = 0)) =
      .ok (changes, retired, owner)) :
    ∃ (m : Nat) (t' : Tree m), Planned s handle tree changes retired t' ∧
      pieces t' = pieces (c.plug (.ofLeaf page)) := by
  obtain ⟨deeper, above, hpath, habove⟩ := getElem?_reverse_split hcurrent
  obtain ⟨k, outer, ref, before, child, post, hplug, rfl, hrest⟩ := path_split hpath
  cases outer with
  | top =>
    rw [hrest] at habove
    simp [path] at habove
  | up ref' before' post' outer =>
    rw [path] at hrest
    have hlength : (outer.path (.ofBranch (assemble ref' before'
        (.ofBranch (assemble ref before child post)) post'))).length = position := by
      rw [hrest, length_cons] at habove
      omega
    have hfirst : (c.path (.ofLeaf page)).reverse[position]? = some
        ⟨ref', (assemble ref' before' (.ofBranch (assemble ref before child post)) post').node
          rootRef, before'.length⟩ := by
      rw [hpath, hrest, ← hlength]
      simp
    rw [hfirst] at hparent
    obtain rfl := Option.some.inj hparent
    rw [hplug] at h ⊢
    refine planUnaryRepair_eq_ok h ?_ hplan
    intro hroot
    have hzero : position = 0 := of_decide_eq_true hroot
    exact eq_nil_of_length_eq_zero (hlength.trans hzero)

/-- A normalization keeps the sequence of entries and fences. -/
lemma planNormalize_eq_ok (h : Represents s handle tree t)
    {plan : Option (List PreparedPage × List BTreePageRef × Option Nat)}
    (hplan : planNormalize s handle entry = .ok plan) :
    entry ∈ entriesOf t ∧ (plan = none → PathBranches s handle entry) ∧
      ∀ changes retired owner, plan = some (changes, retired, owner) →
        n ≠ 0 ∧ ∃ (m : Nat) (t' : Tree m), Planned s handle tree changes retired t' ∧
          pieces t' = pieces t := by
  obtain ⟨c, page, hleaf, hfind⟩ := h.findLeafForEntry entry
  obtain rfl := hleaf.plug
  simp only [planNormalize, h.readMeta, hfind, bind_eq_ok, lift_eq_ok, ok.injEq,
    exists_eq_left', check_eq_ok] at hplan
  obtain ⟨present, hcontains, hpresent, hplan⟩ := hplan
  have hsorted := (h.focus_held (page.ref, .leaf page.node) (by simp)).fits.sorted
  have hmem : entry ∈ entriesOf (c.plug (.ofLeaf page)) := by
    have hvalid := LeafNode.containsExact_eq_ok hcontains
    rw [LeafNode.containsExact_eq hsorted hvalid, ok.injEq] at hcontains
    rw [hleaf.mem_iff]
    simpa [← hcontains] using hpresent
  refine ⟨hmem, ?_⟩
  have hinner : ∀ {i : Nat} {p : PathEntry},
      (c.path (.ofLeaf page)).reverse[i]? = some p → n ≠ 0 := by
    rintro i p hp rfl
    cases c with
    | top => simp [path] at hp
    | up ref before post outer =>
      have := outer.le
      omega
  cases hidx : (c.path (.ofLeaf page)).reverse.findIdx? (fun p => p.node.separators = []) with
  | none =>
    simp only [hidx, pure_eq_ok] at hplan
    subst hplan
    refine ⟨fun _ => ?_, by simp⟩
    intro tree' page' leaf' path hread hpath
    rw [h.readMeta] at hread
    obtain rfl := ok.inj hread
    rw [hfind] at hpath
    obtain ⟨-, -, rfl⟩ := hpath
    intro p hp hnil
    have := findIdx?_eq_none_iff.mp hidx p hp
    simp [hnil] at this
  | some i =>
    obtain ⟨hlt, hunary, -⟩ := findIdx?_eq_some_iff_getElem.mp hidx
    have hget := getElem?_eq_getElem hlt
    rw [hidx] at hplan
    cases i with
    | zero =>
      simp only [hget, bind_eq_ok, lift_eq_ok, pure_eq_ok] at hplan
      obtain ⟨height, hheight, metaChange, hmeta, rfl⟩ := hplan
      refine ⟨by simp, ?_⟩
      rintro changes retired owner ⟨rfl, rfl, rfl⟩
      exact ⟨hinner hget, h.dropRoot hget (of_decide_eq_true hunary) hheight hmeta⟩
    | succ i =>
      have hparent := getElem?_eq_getElem (Nat.lt_of_succ_lt hlt)
      simp only [hget, hparent, bind_eq_ok, pure_eq_ok] at hplan
      obtain ⟨plan', hrepair, rfl⟩ := hplan
      refine ⟨by simp, ?_⟩
      rintro changes retired owner ⟨rfl⟩
      exact ⟨hinner hget, h.repairNode hparent hget hrepair⟩

/-- After normalization the tree has the same leaves and fences, and its path
to the entry has no node with a single child. -/
lemma normalizeDeletePath_eq_ok {limit : Nat} {s' : Store} (h : Represents s handle tree t)
    (hrun : normalizeDeletePath handle entry limit s = (s', .ok ())) :
    ∃ (m : Nat) (t' : Tree m), Represents s' handle (withRoot tree t') t' ∧
      pieces t' = pieces t ∧ PathBranches s' handle entry := by
  induction limit generalizing s tree n t with
  | zero =>
    simp only [normalizeDeletePath, h.readMeta, Prod.mk.injEq] at hrun
    cases hrun.2
  | succ limit ih =>
    rw [normalizeDeletePath] at hrun
    cases hplan : planNormalize s handle entry with
    | error error => simp [hplan] at hrun
    | ok plan =>
      obtain ⟨-, hdone, hround⟩ := planNormalize_eq_ok h hplan
      cases plan with
      | none =>
        simp only [hplan, Prod.mk.injEq, and_true] at hrun
        subst hrun
        exact ⟨n, t, h.eq_withRoot ▸ h, rfl, hdone rfl⟩
      | some plan =>
        obtain ⟨changes, retired, owner⟩ := plan
        obtain ⟨hn, m, t₁, hplanned, hpieces⟩ := hround changes retired owner rfl
        simp only [hplan, commitUnlinks] at hrun
        cases happly : applyUnlinksAndRetire s changes retired owner with
        | mk s₁ outcome =>
          cases outcome with
          | error error => simp [happly] at hrun
          | ok u =>
            simp only [happly] at hrun
            have h₁ : Represents s₁ handle (withRoot tree t₁) t₁ := by
              refine h.unlink hplanned happly (hpieces ▸ h.ordered) ?_ fun _ => ?_
              · rw [leaves, hpieces]
                exact h.linked
              · rw [leaves, hpieces]
                exact h.nonempty hn
            obtain ⟨m', t', h', hpieces', hbranches⟩ := ih h₁ hrun
            exact ⟨m', t', h', hpieces'.trans hpieces, hbranches⟩

end Round

end Netbadb.BTree
