import Netbadb.BTree.Batch

/-!
Insertion. A leaf that overflows becomes two neighbours with a promoted fence
between them. The upward loop inserts the fence one level higher, and splits
again when that node overflows. Regrouping internal nodes keeps the in-order
sequence of leaves and fences, so only the split of the leaf has to be checked
against the order of the entries.
-/

namespace Netbadb.BTree

open Fences Outcome Branch List Ctx Covered

variable {n m : Nat} {t t' : Tree n}

lemma Ctx.path_congr (c : Ctx n m) (h : rootRef t = rootRef t') : c.path t = c.path t' := by
  induction c with
  | top => rfl
  | up ref before post outer ih =>
    have houter : outer.path (.ofBranch (assemble ref before t post)) =
        outer.path (.ofBranch (assemble ref before t' post)) := ih rfl
    have hnode : (assemble ref before t post).node rootRef =
        (assemble ref before t' post).node rootRef := node_assemble_congr ref h
    simp only [path, houter, hnode]

lemma Ctx.le (c : Ctx n m) : n ≤ m := by
  induction c with
  | top => exact le_refl _
  | up ref before post outer ih => omega

lemma Ctx.rootRef_plug_congr (c : Ctx n m) (h : rootRef t = rootRef t') :
    rootRef (c.plug t) = rootRef (c.plug t') := by
  induction c with
  | top => exact h
  | up ref before post outer ih => exact ih rfl

variable {tree : MetaNode} {promoted : IndexEntryKey} {allocation : NewBTreePage}
  {change : PreparedPage} {changes : List PreparedPage} {T : Type} {root : T → BTreePageRef}

lemma withRoot_plug_congr {c : Ctx n m} (h : rootRef t = rootRef t') :
    withRoot tree (c.plug t) = withRoot tree (c.plug t') := by
  rw [withRoot, withRoot, c.rootRef_plug_congr h]

/-- Inserting a separator after the focused child adds a right neighbour. -/
lemma insertSeparator_assemble {ref : BTreePageRef} {before : List (T × IndexEntryKey)}
    {tl tr : T} {post : List (IndexEntryKey × T)} {node : InternalNode}
    (h : ((assemble ref before tl post).node root).insertSeparator before.length promoted
      (root tr) = .ok node) :
    node = (assemble ref before tl ((promoted, tr) :: post)).node root := by
  simp only [InternalNode.insertSeparator, bind_eq_ok, check_eq_ok, pure_eq_ok] at h
  obtain ⟨_, -, -, _, -, rfl⟩ := h
  rw [node_assemble, node_assemble]
  have hlength : before.length = ((linkChildren before tl).map (separator root)).length := by simp
  have hinsert := insertIdx_append_length ((linkChildren before tl).map (separator root))
    (post.map (separator root)) { key := promoted, rightChild := root tr }
  rw [← hlength] at hinsert
  rw [hinsert]
  rfl

/-- A cut of the separators of a node is a cut of its branch. -/
lemma node_split {b : Branch T} {ls rs : List InternalSeparator} {middle : InternalSeparator}
    (ref : BTreePageRef) (h : (b.node root).separators = ls ++ middle :: rs) :
    ∃ rest t rest', b.rest = rest ++ (middle.key, t) :: rest' ∧
      ({ firstChild := (b.node root).firstChild, separators := ls } : InternalNode) =
        (⟨b.ref, b.first, rest⟩ : Branch T).node root ∧
      ({ firstChild := middle.rightChild, separators := rs } : InternalNode) =
        (⟨ref, t, rest'⟩ : Branch T).node root := by
  rw [node, map_eq_append_iff] at h
  obtain ⟨rest, tail, hrest, rfl, htail⟩ := h
  obtain ⟨p, rest', rfl, rfl, rfl⟩ := map_eq_cons_iff.mp htail
  exact ⟨rest, p.2, rest', hrest, rfl, rfl⟩

/-- The loop state of an insertion: two neighbours that replace one subtree of
the represented tree and wait for their separator. -/
structure Splitting (s : Store) (handle : BTreeHandle) (tree : MetaNode) (alloc : Allocator)
    (changes : List PreparedPage) {k n : Nat} (c : Ctx k n) (tl tr : Tree k) : Prop where
  covered : ∀ p ∈ images tl ++ images tr, Covered s tree changes p
  held : ∀ p ∈ c.frames tl, Held s tree p.1 p.2
  nodup : (changedIds changes).Nodup
  changed : ∀ id ∈ changedIds changes, id ∈ pageIds tl ++ pageIds tr
  inUse : InUse s tree.owner alloc (handle.metaPage.pageId ::
    (pageIds tl ++ pageIds tr ++ (c.frames tl).map (·.1.pageId)))

namespace Splitting

variable {s : Store} {handle : BTreeHandle} {alloc alloc' : Allocator}

lemma newRoot {n : Nat} {tl tr : Tree n} (h : Splitting s handle tree alloc changes .top tl tr)
    (hheader : s.pages[0]? = some .other) {rootChange metaChange : PreparedPage}
    (htake : takePageRef s alloc tree.owner tree.generation.isSome = .ok (allocation, alloc'))
    (hroot : prepareNewInternal tree allocation
      { firstChild := rootRef tl
        separators := [{ key := promoted, rightChild := rootRef tr }] } = .ok rootChange)
    (hmeta : prepareMeta s handle
      { tree with rootPage := allocation.reference, height := n + 2 } = .ok metaChange) :
    Planned s handle tree (changes ++ [rootChange, metaChange]) []
      (.ofBranch ⟨allocation.reference, tl, [(promoted, tr)]⟩) := by
  obtain ⟨hgenerated, htook⟩ := takePageRef_eq_ok htake
  obtain ⟨huse, hnonzero⟩ := h.inUse.take hheader htook
  obtain ⟨hwrites, -⟩ := prepareNewInternal_eq_ok hroot
  obtain ⟨rfl, hsize⟩ := prepareMeta_eq_ok hmeta
  have hids : changedIds [rootChange,
      ⟨handle.metaPage, .metaPage { tree with
        rootPage := allocation.reference, height := n + 2 }, .existing⟩] =
      [allocation.reference.pageId, handle.metaPage.pageId] := by
    simp [changedIds, hwrites.reference]
  have hnodup := huse.nodup
  simp only [frames, map_nil, append_nil] at hnodup
  have himages : images (.ofBranch ⟨allocation.reference, tl, [(promoted, tr)]⟩ : Tree (n + 1)) =
      (allocation.reference, .internal
        { firstChild := rootRef tl
          separators := [{ key := promoted, rightChild := rootRef tr }] }) ::
        (images tl ++ images tr) := by
    simp [below, node]
  have hpageIds : pageIds (.ofBranch ⟨allocation.reference, tl, [(promoted, tr)]⟩ : Tree (n + 1)) =
      allocation.reference.pageId :: (pageIds tl ++ pageIds tr) := by
    simp [pageIds, himages]
  obtain ⟨halloc, hrest⟩ := nodup_cons.mp hnodup
  obtain ⟨hmetaFree, hpages⟩ := nodup_cons.mp hrest
  simp only [mem_cons, not_or] at halloc
  refine ⟨?_, ?_, ?_, ?_, ?_, by simp⟩
  · intro p hp
    rw [himages] at hp
    rcases mem_cons.mp hp with rfl | hp
    · exact of_writes (hwrites.fits hnonzero hgenerated)
        (mem_append_right _ mem_cons_self) hwrites
    refine (h.covered p hp).append ?_
    have hid : p.1.pageId ∈ pageIds tl ++ pageIds tr := by
      rw [pageIds, pageIds, ← map_append]
      exact mem_map_of_mem hp
    rw [hids]
    simp only [mem_cons, not_mem_nil, or_false, not_or]
    exact ⟨fun heq => halloc.2 (heq ▸ hid), fun heq => hmetaFree (heq ▸ hid)⟩
  · rw [changedIds_append, hids]
    refine nodup_append.mpr ⟨h.nodup, by simpa using halloc.1, ?_⟩
    rintro id hid id' hid' rfl
    have hin := h.changed id hid
    simp only [mem_cons, not_mem_nil, or_false] at hid'
    rcases hid' with rfl | rfl
    · exact halloc.2 hin
    · exact hmetaFree hin
  · rw [hpageIds]
    refine nodup_cons.mpr ⟨?_, nodup_cons.mpr ⟨halloc.2, hpages⟩⟩
    simp only [mem_cons, not_or]
    exact ⟨Ne.symm halloc.1, hmetaFree⟩
  · intro id hid
    rw [changedIds_append, hids] at hid
    rw [hpageIds]
    rcases mem_append.mp hid with hid | hid
    · exact mem_cons_of_mem _ (mem_cons_of_mem _ (h.changed id hid))
    · simp only [mem_cons, not_mem_nil, or_false] at hid
      rcases hid with rfl | rfl <;> simp
  · right
    exact ⟨_, mem_append_right _ (mem_cons_of_mem _ mem_cons_self), rfl, rfl, hsize⟩

section Parent

variable {k : Nat} {ref : BTreePageRef} {before : List (Tree k × IndexEntryKey)}
  {post : List (IndexEntryKey × Tree k)} {outer : Ctx (k + 1) n} {tl tr : Tree k}

section

variable (h : Splitting s handle tree alloc changes (.up ref before post outer) tl tr)
include h

/-- The pages of the parent that took the separator, beside those around it. -/
lemma up_inUse (promoted : IndexEntryKey) :
    InUse s tree.owner alloc (handle.metaPage.pageId :: ref.pageId ::
      (((assemble ref before tl ((promoted, tr) :: post)).below images).map (·.1.pageId) ++
        (outer.frames (.ofBranch (assemble ref before tl post))).map (·.1.pageId))) := by
  refine h.inUse.perm (Perm.cons _ ?_)
  simp only [frames, below_assemble, pageIds, map_append, map_cons, flatMap_cons]
  -- Both sides hold the same five groups of pages and the parent.
  rw [← Multiset.coe_eq_coe]
  simp only [← Multiset.coe_add, ← Multiset.cons_coe, Multiset.add_cons]
  congr 1
  abel

lemma up_covered (promoted : IndexEntryKey) :
    ∀ p ∈ (assemble ref before tl ((promoted, tr) :: post)).below images,
      Covered s tree changes p := by
  have hfree : ∀ p ∈ (up ref before post outer).frames tl,
      p.1.pageId ∉ changedIds changes := by
    intro p hp hmem
    obtain ⟨-, hnodup⟩ := nodup_cons.mp h.inUse.nodup
    exact (nodup_append.mp hnodup).2.2 _ (h.changed _ hmem) _ (mem_map_of_mem hp) rfl
  have hsibling : ∀ p ∈ (before.flatMap fun q => images q.1) ++ post.flatMap fun q => images q.2,
      Covered s tree changes p := by
    intro p hp
    have hframe : p ∈ (up ref before post outer).frames tl :=
      mem_append_right _ (mem_cons_of_mem _ hp)
    exact of_held (h.held p hframe) (hfree p hframe)
  intro p hp
  rw [below_assemble, flatMap_cons] at hp
  rcases mem_append.mp hp with hp | hp
  · rcases mem_append.mp hp with hp | hp
    · exact hsibling p (mem_append_left _ hp)
    · exact h.covered p (mem_append_left _ hp)
  · rcases mem_append.mp hp with hp | hp
    · exact h.covered p (mem_append_right _ hp)
    · exact hsibling p (mem_append_right _ hp)

lemma changed_below (promoted : IndexEntryKey) : ∀ id ∈ changedIds changes, id ∈
      ((assemble ref before tl ((promoted, tr) :: post)).below images).map (·.1.pageId) := by
  intro id hid
  have hin := h.changed id hid
  rw [pageIds, pageIds, ← map_append] at hin
  obtain ⟨p, hp, rfl⟩ := mem_map.mp hin
  refine mem_map_of_mem ?_
  rw [below_assemble, flatMap_cons]
  rcases mem_append.mp hp with hp | hp <;> simp [hp]

/-- The page of the parent keeps its number and its pointer format. -/
lemma parent_fits {node : DeleteNode} (hwrites : Writes tree change ref node) :
    Fits tree ref node := by
  have hheld := h.held (ref, .internal ((assemble ref before tl post).node rootRef))
    (mem_append_right _ mem_cons_self)
  exact hwrites.fits hheld.fits.nonzero hheld.fits.generated

lemma absorbed (hchange : prepareInternal s tree ref
      ((assemble ref before tl ((promoted, tr) :: post)).node rootRef) = .ok change)
    (htree : tree = withRoot tree
      (outer.plug (.ofBranch (assemble ref before tl ((promoted, tr) :: post))))) :
    Planned s handle tree (changes ++ [change]) []
      (outer.plug (.ofBranch (assemble ref before tl ((promoted, tr) :: post)))) := by
  obtain ⟨hwrites, -⟩ := prepareInternal_eq_ok hchange
  have hids : changedIds [change] = [ref.pageId] := by simp [changedIds, hwrites.reference]
  have hnodup := (h.up_inUse promoted).nodup
  have hchanged := h.changed_below promoted
  have hframes : outer.frames (.ofBranch (assemble ref before tl ((promoted, tr) :: post))) =
      outer.frames (.ofBranch (assemble ref before tl post)) := outer.frames_congr rfl
  have href := (nodup_cons.mp (nodup_cons.mp hnodup).2).1
  simp only [mem_append, not_or] at href
  refine Planned.of_plug ?_ ?_ ?_ ?_ ?_ (by simp) htree
  · intro p hp
    rcases mem_cons.mp hp with rfl | hp
    · exact of_writes (h.parent_fits hwrites) (by simp) hwrites
    · refine (h.up_covered promoted p hp).append ?_
      rw [hids, mem_singleton]
      exact fun heq => href.1 (heq ▸ mem_map_of_mem hp)
  · intro p hp
    rw [hframes] at hp
    exact h.held p (mem_append_left _ hp)
  · exact nodup_changedIds_append hids h.nodup fun hid => href.1 (hchanged _ hid)
  · exact changedIds_append_subset hids hchanged
  · rw [hframes]
    exact hnodup

/-- The parent overflows in turn: its two halves wait for their separator. -/
lemma splitParent (hheader : s.pages[0]? = some .other) {rightChange leftChange : PreparedPage}
    {t : Tree k} {rest rest' : List (IndexEntryKey × Tree k)} {middle : IndexEntryKey}
    (hrest : (assemble ref before tl ((promoted, tr) :: post)).rest =
      rest ++ (middle, t) :: rest')
    (htake : takePageRef s alloc tree.owner tree.generation.isSome = .ok (allocation, alloc'))
    (hright : prepareNewInternal tree allocation
      ((⟨allocation.reference, t, rest'⟩ : Branch (Tree k)).node rootRef) = .ok rightChange)
    (hleft : prepareInternal s tree ref
      ((⟨ref, headChild before tl, rest⟩ : Branch (Tree k)).node rootRef) = .ok leftChange) :
    Splitting s handle tree alloc' (changes ++ [rightChange, leftChange]) outer
      (.ofBranch ⟨ref, headChild before tl, rest⟩) (.ofBranch ⟨allocation.reference, t, rest'⟩) := by
  obtain ⟨hgenerated, htook⟩ := takePageRef_eq_ok htake
  obtain ⟨huse, hnonzero⟩ := (h.up_inUse promoted).take hheader htook
  obtain ⟨hrightWrites, -⟩ := prepareNewInternal_eq_ok hright
  obtain ⟨hleftWrites, -⟩ := prepareInternal_eq_ok hleft
  have hids : changedIds [rightChange, leftChange] =
      [allocation.reference.pageId, ref.pageId] := by
    simp [changedIds, hrightWrites.reference, hleftWrites.reference]
  have hbelow : (assemble ref before tl ((promoted, tr) :: post)).below images =
      (⟨ref, headChild before tl, rest⟩ : Branch (Tree k)).below images ++
        (⟨allocation.reference, t, rest'⟩ : Branch (Tree k)).below images := by
    rw [below, hrest]
    simp [below, assemble]
  have hframes : outer.frames (.ofBranch ⟨ref, headChild before tl, rest⟩) =
      outer.frames (.ofBranch (assemble ref before tl post)) := outer.frames_congr rfl
  have hnodup := huse.nodup
  obtain ⟨halloc, hnodup⟩ := nodup_cons.mp hnodup
  obtain ⟨hmeta, hnodup⟩ := nodup_cons.mp hnodup
  obtain ⟨href, hnodup⟩ := nodup_cons.mp hnodup
  simp only [mem_cons, mem_append, not_or] at halloc hmeta href
  have hcovered : ∀ p ∈ (assemble ref before tl ((promoted, tr) :: post)).below images,
      Covered s tree (changes ++ [rightChange, leftChange]) p := by
    intro p hp
    refine (h.up_covered promoted p hp).append ?_
    rw [hids]
    simp only [mem_cons, not_mem_nil, or_false, not_or]
    exact ⟨fun heq => halloc.2.2.1 (heq ▸ mem_map_of_mem hp),
      fun heq => href.1 (heq ▸ mem_map_of_mem hp)⟩
  refine ⟨?_, ?_, ?_, ?_, ?_⟩
  · intro p hp
    rcases mem_append.mp hp with hp | hp
    · rcases mem_cons.mp hp with rfl | hp
      · exact of_writes (h.parent_fits hleftWrites) (by simp) hleftWrites
      · exact hcovered p (hbelow ▸ mem_append_left _ hp)
    · rcases mem_cons.mp hp with rfl | hp
      · exact of_writes (hrightWrites.fits hnonzero hgenerated) (by simp) hrightWrites
      · exact hcovered p (hbelow ▸ mem_append_right _ hp)
  · intro p hp
    rw [hframes] at hp
    exact h.held p (mem_append_left _ hp)
  · rw [changedIds_append, hids]
    refine nodup_append.mpr ⟨h.nodup, by simpa using halloc.2.1, ?_⟩
    rintro id hid id' hid' rfl
    have hin := h.changed_below promoted id hid
    simp only [mem_cons, not_mem_nil, or_false] at hid'
    rcases hid' with rfl | rfl
    · exact halloc.2.2.1 hin
    · exact href.1 hin
  · intro id hid
    rw [changedIds_append, hids] at hid
    simp only [pageIds, images_ofBranch, map_cons, mem_append, mem_cons]
    rcases mem_append.mp hid with hid | hid
    · have hin := h.changed_below promoted id hid
      rw [hbelow, map_append, mem_append] at hin
      rcases hin with hin | hin
      · exact Or.inl (Or.inr hin)
      · exact Or.inr (Or.inr hin)
    · simp only [mem_cons, not_mem_nil, or_false] at hid
      rcases hid with rfl | rfl
      · exact Or.inr (Or.inl rfl)
      · exact Or.inl (Or.inl rfl)
  · refine huse.perm ?_
    rw [hframes, hbelow]
    simp only [pageIds, images_ofBranch, map_append, map_cons]
    rw [← Multiset.coe_eq_coe]
    simp only [← Multiset.coe_add, ← Multiset.cons_coe, Multiset.add_cons, Multiset.cons_add]
    rw [Multiset.cons_swap]

end

end Parent

end Splitting

variable {s : Store} {handle : BTreeHandle} {alloc : Allocator}

/-- The upward loop ends with a plan for a tree over the same sequence of
leaves and fences. -/
lemma insertUp_eq_ok {changes' : List PreparedPage} {k : Nat} {c : Ctx k n} {tl tr : Tree k}
    (h : Splitting s handle tree alloc changes c tl tr) (hheader : s.pages[0]? = some .other)
    (htree : tree = withRoot tree (c.plug tl))
    (hrun : insertUp s handle tree alloc changes (rootRef tl) promoted (rootRef tr) (c.path tl) =
      .ok changes') :
    ∃ (m : Nat) (t : Tree m), (m ≠ 0 ∧ m ≤ n + 1) ∧ Planned s handle tree changes' [] t ∧
      pieces t = c.left ++ (pieces tl ++ .fence promoted :: pieces tr) ++ c.right := by
  induction c generalizing alloc changes promoted with
  | @top n =>
    simp only [path, insertUp, bind_eq_ok, check_eq_ok, pure_eq_ok] at hrun
    obtain ⟨⟨allocation, alloc'⟩, htake, rootChange, hroot, -, metaChange, hmeta, rfl⟩ := hrun
    have hheight : tree.height = n + 1 := congrArg MetaNode.height htree
    rw [hheight] at hmeta
    refine ⟨n + 1, .ofBranch ⟨allocation.reference, tl, [(promoted, tr)]⟩,
      ⟨by omega, le_rfl⟩, h.newRoot hheader htake hroot hmeta, ?_⟩
    simp [left, right, Branch.pieces]
  | up ref before post outer ih =>
    simp only [path, insertUp, bind_eq_ok, lift_eq_ok] at hrun
    obtain ⟨node, hinsert, size, -, hrun⟩ := hrun
    obtain rfl := insertSeparator_assemble hinsert
    rw [plug] at htree
    have hroot : tree = withRoot tree
        (outer.plug (.ofBranch (assemble ref before tl ((promoted, tr) :: post)))) :=
      htree.trans (withRoot_plug_congr rfl)
    split_ifs at hrun with hfits
    · simp only [bind_eq_ok, pure_eq_ok] at hrun
      obtain ⟨change, hchange, rfl⟩ := hrun
      refine ⟨_, _, ?_, h.absorbed hchange hroot, ?_⟩
      · have := outer.le
        omega
      · rw [pieces_plug, pieces_ofBranch, pieces_assemble]
        simp [left, right, rightPieces]
    · simp only [bind_eq_ok, lift_eq_ok] at hrun
      obtain ⟨⟨allocation, alloc'⟩, htake, ⟨left, middle, right⟩, hsplit, rightChange, hright,
        leftChange, hleft, hrun⟩ := hrun
      obtain ⟨ls, separator, rs, hseparators, rfl, rfl, rfl⟩ := splitInternal_eq_ok hsplit
      obtain ⟨rest, t, rest', hrest, hleftNode, hrightNode⟩ :=
        node_split allocation.reference hseparators
      rw [hrightNode] at hright
      rw [hleftNode] at hleft
      have hnext := h.splitParent hheader hrest htake hright hleft
      have hpath : outer.path (.ofBranch (assemble ref before tl post)) =
          outer.path (.ofBranch ⟨ref, headChild before tl, rest⟩) := outer.path_congr rfl
      have htree' : tree = withRoot tree
          (outer.plug (.ofBranch ⟨ref, headChild before tl, rest⟩)) :=
        htree.trans (withRoot_plug_congr rfl)
      rw [hpath] at hrun
      obtain ⟨m, t', hm, hplan, hpieces⟩ := ih hnext htree' hrun
      refine ⟨m, t', hm, hplan, ?_⟩
      have hparent : (assemble ref before tl ((promoted, tr) :: post)).pieces pieces =
          pieces (.ofBranch ⟨ref, headChild before tl, rest⟩ : Tree _) ++
            .fence separator.key ::
              pieces (.ofBranch ⟨allocation.reference, t, rest'⟩ : Tree _) := by
        rw [Branch.pieces, hrest]
        simp [Branch.pieces, assemble]
      rw [hpieces, ← hparent, pieces_assemble]
      simp [left, right, rightPieces]

variable {s' : Store} {grants : Nat → PageGrant} {page : LeafPage}

lemma commitPlan_eq_ok {α : Type} {plan : Except StorageError (List PreparedPage × α)} {a : α}
    (h : commitPlan s plan = (s', .ok a)) :
    ∃ changes, plan = .ok (changes, a) ∧ applyChanges s changes = (s', .ok ()) := by
  cases plan with
  | error error => simp [commitPlan] at h
  | ok result =>
    obtain ⟨changes, value⟩ := result
    simp only [commitPlan] at h
    cases happly : applyChanges s changes with
    | mk t outcome =>
      cases outcome with
      | error error => simp [happly] at h
      | ok u =>
        simp only [happly, Prod.mk.injEq, Except.ok.injEq] at h
        obtain ⟨rfl, rfl⟩ := h
        exact ⟨changes, rfl, happly⟩

lemma applyChanges_replaced (h : applyChanges s changes = (s', .ok ()))
    (hnodup : (changedIds changes).Nodup) :
    Replaced s s' changes [] := by
  have hpublished := applyChanges_eq_ok h hnodup
  exact ⟨hpublished.written, fun id hid _ => hpublished.frame id hid⟩

/-- The leaves around a focused leaf, when that leaf is replaced by a run that
starts on the same page and links on to the same leaf. -/
lemma linked_replace {l r : List LeafPage} (pages : List LeafPage)
    (h : Linked (l ++ page :: r) none) (hhead : headRef pages none = some page.ref)
    (hpages : Linked pages page.node.nextLeaf) : Linked (l ++ (pages ++ r)) none := by
  obtain ⟨hl, hnext, hr⟩ := linked_append.mp h
  have hne : pages ≠ [] := by
    rintro rfl
    cases hhead
  refine linked_append.mpr ⟨?_, linked_append.mpr ⟨hnext ▸ hpages, hr⟩⟩
  have hsame : headRef (pages ++ r) none = headRef (page :: r) none := by
    cases pages with
    | nil => exact absurd rfl hne
    | cons first pages => exact hhead
  rwa [hsame]

/-- The group of entries that receives a new one stays in order. -/
lemma LeafFor.ordered_insert {entry : IndexEntryKey} {c : Ctx 0 n} (h : LeafFor t entry c page)
    (hordered : Ordered (cellsOf (pieces t))) {l r : List IndexEntryKey}
    (hentries : page.node.entries = l ++ r) (hl : ∀ x ∈ l, x < entry) (hr : ∀ x ∈ r, entry < x) :
    Ordered (cellsOf c.left ++ (l ++ entry :: r).map .item ++ cellsOf c.right) := by
  rw [← h.plug, cellsOf_plug, hentries] at hordered
  obtain ⟨hleft, -, hcross⟩ := ordered_append.mp hordered
  obtain ⟨-, hgroup, hcross'⟩ := ordered_append.mp hleft
  have hsorted := pairwise_append.mp (ordered_map_item.mp hgroup)
  refine hordered.replace_group ?_ ?_ ?_
  · refine pairwise_append.mpr ⟨hsorted.1, pairwise_cons.mpr ⟨hr, hsorted.2.1⟩, ?_⟩
    intro x hx y hy
    rcases mem_cons.mp hy with rfl | hy
    · exact hl x hx
    · exact hsorted.2.2 x hx y hy
  · intro y hy x hx
    rw [mem_append, mem_cons] at hy
    rcases hy with hy | rfl | hy
    · exact hcross' x hx _ (mem_map_of_mem (mem_append_left _ hy))
    · exact h.left x hx
    · exact hcross' x hx _ (mem_map_of_mem (mem_append_right _ hy))
  · intro y hy x hx
    rw [mem_append, mem_cons] at hy
    rcases hy with hy | rfl | hy
    · exact hcross _ (mem_append_right _ (mem_map_of_mem
        (mem_append_left _ hy))) x hx
    · exact h.right x hx
    · exact hcross _ (mem_append_right _ (mem_map_of_mem
        (mem_append_right _ hy))) x hx

section Leaf

variable {c : Ctx 0 n}

lemma Represents.rewriteLeaf (h : Represents s handle tree (c.plug (.ofLeaf page)))
    {node : LeafNode} (hchange : prepareLeaf s tree page.ref node = .ok change) :
    Planned s handle tree [change] [] (c.plug (.ofLeaf ⟨page.ref, node⟩)) := by
  obtain ⟨hwrites, -⟩ := prepareLeaf_eq_ok hchange
  have hframes : c.frames (.ofLeaf ⟨page.ref, node⟩) = c.frames (.ofLeaf page) := c.frames_congr rfl
  have hheld := h.focus_held (page.ref, .leaf page.node) (by simp)
  have hids : changedIds [change] = [page.ref.pageId] := by simp [changedIds, hwrites.reference]
  refine Planned.of_plug ?_ ?_ (by simp [hids]) ?_ ?_ (by simp) ?_
  · intro p hp
    obtain rfl := mem_singleton.mp hp
    exact of_writes (hwrites.fits hheld.fits.nonzero hheld.fits.generated) (by simp) hwrites
  · rw [hframes]
    exact h.frames_held
  · intro id hid
    rwa [hids] at hid
  · rw [hframes]
    exact h.focus_nodup
  · exact h.eq_withRoot.trans (withRoot_plug_congr rfl)

/-- The two halves of a leaf start the upward loop. -/
lemma Represents.splitLeaf (h : Represents s handle tree (c.plug (.ofLeaf page)))
    {left right : LeafNode} {rightChange leftChange : PreparedPage}
    (htake : takePageRef s (startAllocator s grants) tree.owner tree.generation.isSome =
      .ok (allocation, alloc)) (hright : prepareNewLeaf tree allocation right = .ok rightChange)
    (hleft : prepareLeaf s tree page.ref left = .ok leftChange) :
    Splitting s handle tree alloc [rightChange, leftChange] c (.ofLeaf ⟨page.ref, left⟩)
      (.ofLeaf ⟨allocation.reference, right⟩) := by
  obtain ⟨hgenerated, htook⟩ := takePageRef_eq_ok htake
  obtain ⟨huse, hnonzero⟩ := ((h.inUse grants).perm ((pageIds_plug c _).cons _)).take h.header htook
  obtain ⟨hrightWrites, -⟩ := prepareNewLeaf_eq_ok hright
  obtain ⟨hleftWrites, -⟩ := prepareLeaf_eq_ok hleft
  have hframes : c.frames (.ofLeaf ⟨page.ref, left⟩) = c.frames (.ofLeaf page) := c.frames_congr rfl
  have hheld := h.focus_held (page.ref, .leaf page.node) (by simp)
  have hids : changedIds [rightChange, leftChange] =
      [allocation.reference.pageId, page.ref.pageId] := by
    simp [changedIds, hrightWrites.reference, hleftWrites.reference]
  have hnew := (nodup_cons.mp huse.nodup).1
  simp only [pageIds, images_ofLeaf, map_cons, map_nil, singleton_append, mem_cons, not_or] at hnew
  refine ⟨?_, ?_, ?_, ?_, ?_⟩
  · intro p hp
    rcases mem_append.mp hp with hp | hp
    · obtain rfl := mem_singleton.mp hp
      exact of_writes (hleftWrites.fits hheld.fits.nonzero hheld.fits.generated) (by simp)
        hleftWrites
    · obtain rfl := mem_singleton.mp hp
      exact of_writes (hrightWrites.fits hnonzero hgenerated) (by simp) hrightWrites
  · rw [hframes]
    exact h.frames_held
  · rw [hids]
    simpa using hnew.2.1
  · intro id hid
    rw [hids] at hid
    simpa [pageIds, or_comm] using hid
  · refine huse.perm ?_
    rw [hframes]
    exact (Perm.swap _ _ _).trans (Perm.cons _ (Perm.swap _ _ _))

lemma Ctx.sides_of_zero {k m : Nat} (c : Ctx k m) (hm : m = 0) : c.left = [] ∧ c.right = [] := by
  cases c with
  | top => exact ⟨rfl, rfl⟩
  | up ref before post outer =>
    have := outer.le
    omega

/-- A published plan that replaces one leaf by a linked run of leaves in its
place. -/
lemma Represents.replaceLeaf (h : Represents s handle tree (c.plug (.ofLeaf page))) {s' : Store}
    {m : Nat} {t' : Tree m} {group : List Piece} (hplan : Planned s handle tree changes [] t')
    (happly : applyChanges s changes = (s', .ok ()))
    (hpieces : pieces t' = c.left ++ group ++ c.right)
    (hordered : Ordered (cellsOf c.left ++ cellsOf group ++ cellsOf c.right))
    (hhead : headRef (leavesOf group) none = some page.ref)
    (hlinked : Linked (leavesOf group) page.node.nextLeaf)
    (hnonempty : ∀ leaf ∈ leavesOf group, leaf.node.entries ≠ []) :
    Represents s' handle (withRoot tree t') t' := by
  have hleaves : leaves t' = leavesOf c.left ++ (leavesOf group ++ leavesOf c.right) := by
    rw [leaves, hpieces]
    simp
  have hold := leaves_plug c page
  refine hplan.represents h (applyChanges_replaced happly hplan.nodup) ?_ ?_ ?_
  · rw [hpieces]
    simpa using hordered
  · rw [hleaves]
    exact linked_replace _ (hold ▸ h.linked) hhead hlinked
  intro _ leaf hmem
  have hother : ∀ leaf ∈ leavesOf c.left ++ leavesOf c.right, leaf.node.entries ≠ [] := by
    intro leaf hmem
    by_cases hn : n = 0
    · obtain ⟨hl, hr⟩ := c.sides_of_zero hn
      simp [hl, hr] at hmem
    · apply h.nonempty hn leaf
      rw [hold]
      rcases mem_append.mp hmem with hmem | hmem <;> simp [hmem]
  rw [hleaves, mem_append, mem_append] at hmem
  rcases hmem with hmem | hmem | hmem
  · exact hother leaf (mem_append_left _ hmem)
  · exact hnonempty leaf hmem
  · exact hother leaf (mem_append_right _ hmem)

end Leaf

/-- A successful insertion adds exactly the new entry, and at most one level. -/
lemma insertIn_eq_ok {key : ScalarValue} {rowId : RowId} (h : Represents s handle tree t)
    (hrun : insertIn s grants handle key rowId = (s', .ok ())) :
    ensureEntryFits tree.spec { key, rowId } (entryCapacity tree) = .ok () ∧
    ∃ (m : Nat) (t' : Tree m), m ≤ n + 1 ∧ Represents s' handle (withRoot tree t') t' ∧
      { key, rowId } ∉ entriesOf t ∧
      ∀ entry, entry ∈ entriesOf t' ↔ entry = { key, rowId } ∨ entry ∈ entriesOf t := by
  obtain ⟨changes, hplan, happly⟩ := commitPlan_eq_ok hrun
  generalize ({ key, rowId } : IndexEntryKey) = entry at hplan ⊢
  obtain ⟨c, page, hleaf, hfind⟩ := h.findLeafForEntry entry
  obtain rfl := hleaf.plug
  simp only [planInsert, h.readMeta, hfind, bind_eq_ok, lift_eq_ok, Except.ok.injEq,
    exists_eq_left'] at hplan
  obtain ⟨_, hroom, node, hinsert, size, -, hplan⟩ := hplan
  refine ⟨hroom, ?_⟩
  have hsorted := (h.focus_held (page.ref, .leaf page.node) (by simp)).fits.sorted
  obtain ⟨-, l, r, hentries, hl, hr, rfl⟩ := LeafNode.insert_eq_ok hsorted hinsert
  have habsent : entry ∉ entriesOf (c.plug (.ofLeaf page)) := by
    rw [hleaf.mem_iff, hentries, mem_append]
    rintro (hmem | hmem)
    · exact lt_irrefl entry (hl entry hmem)
    · exact lt_irrefl entry (hr entry hmem)
  have hordered := hleaf.ordered_insert h.ordered hentries hl hr
  have hmem : ∀ group : List Piece, items (cellsOf group) = l ++ entry :: r →
      ∀ {m : Nat} {t' : Tree m}, pieces t' = c.left ++ group ++ c.right →
        ∀ x, x ∈ entriesOf t' ↔ x = entry ∨ x ∈ entriesOf (c.plug (.ofLeaf page)) := by
    intro group hgroup m t' hpieces x
    rw [entriesOf, hpieces, entriesOf_plug, hentries]
    simp only [cellsOf_append, items_append, hgroup, mem_append, mem_cons]
    tauto
  split_ifs at hplan with hfits
  · simp only [bind_eq_ok, pure_eq_ok, Prod.mk.injEq, and_true] at hplan
    obtain ⟨change, hchange, rfl⟩ := hplan
    have hpieces := c.pieces_plug (.ofLeaf ⟨page.ref, { page.node with entries := l ++ entry :: r }⟩)
    refine ⟨n, _, n.le_succ, h.replaceLeaf (h.rewriteLeaf hchange) happly hpieces ?_ rfl ?_ ?_, habsent,
      hmem _ (by simp) hpieces⟩
    · simpa using hordered
    · exact ⟨rfl, trivial⟩
    · simp
  · simp only [bind_eq_ok, lift_eq_ok, pure_eq_ok, Prod.mk.injEq, and_true] at hplan
    obtain ⟨⟨allocation, alloc⟩, htake, ⟨left, right, promoted⟩, hsplit, rightChange, hright,
      leftChange, hleft, changes', hup, rfl⟩ := hplan
    obtain ⟨ys, zs, hys, hcut, rfl, rfl⟩ := splitLeaf_eq_ok hsplit
    have hstart := h.splitLeaf htake hright hleft
    have hpath : c.path (.ofLeaf page) =
        c.path (.ofLeaf ⟨page.ref, ⟨ys, some allocation.reference⟩⟩) := c.path_congr rfl
    rw [reverse_reverse, hpath] at hup
    have htree : tree = withRoot tree
        (c.plug (.ofLeaf ⟨page.ref, ⟨ys, some allocation.reference⟩⟩)) :=
      h.eq_withRoot.trans (withRoot_plug_congr rfl)
    obtain ⟨m, t', ⟨-, hm⟩, hplanned, hpieces⟩ := insertUp_eq_ok hstart h.header htree hup
    refine ⟨m, t', hm, h.replaceLeaf hplanned happly hpieces ?_ rfl ?_ ?_, habsent, hmem _ ?_ hpieces⟩
    · rw [hcut] at hordered
      simpa using hordered.split_group hys
    · exact ⟨rfl, rfl, trivial⟩
    · simp [hys]
    · rw [hcut]
      simp

end Netbadb.BTree
