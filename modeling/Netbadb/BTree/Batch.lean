import Netbadb.BTree.Represents

/-!
Planned batches. An update prepares new images for some pages and unlinks
others. The plan says what the tree looks like afterwards: every node of the
new tree is either written by the batch or was already on its page. Once the
batch is published, the file represents the new tree.
-/

namespace Netbadb.BTree

open Fences Outcome Branch List

def withRoot (tree : MetaNode) {n : Nat} (t : Tree n) : MetaNode :=
  { tree with rootPage := rootRef t, height := n + 1 }

variable {tree : MetaNode} {change : PreparedPage} {page : BTreePageRef} {node : DeleteNode}
  {t : Tree n} {n : Nat}

lemma Fits.withRoot (h : Fits tree page node) (t : Tree n) : Fits (withRoot tree t) page node := by
  obtain ⟨hnonzero, hgenerated, size, hsize, hle⟩ := h
  refine ⟨hnonzero, hgenerated, size, ?_, hle⟩
  cases node <;> exact hsize

lemma Writes.fits (h : Writes tree change page node) (hnonzero : page.pageId ≠ 0)
    (hgenerated : page.generation.isSome = tree.generation.isSome) :
    Fits tree page node :=
  ⟨hnonzero, hgenerated, h.encodes⟩

/-- A node that will be on its page once `changes` are published. -/
structure Covered (s : Store) (tree : MetaNode) (changes : List PreparedPage) (p : NodeImage) :
    Prop where
  fits : Fits tree p.1 p.2
  source : (∃ change ∈ changes, Writes tree change p.1 p.2) ∨
    (s.pages[p.1.pageId]? = some (imageOf tree p.1 p.2) ∧ p.1.pageId ∉ changedIds changes)

lemma changedIds_append (changes changes' : List PreparedPage) :
    changedIds (changes ++ changes') = changedIds changes ++ changedIds changes' :=
  map_append

section Last

/-! One more page changes. -/

variable {changes last : List PreparedPage} {id : Nat}

lemma nodup_changedIds_append (hids : changedIds last = [id])
    (h : (changedIds changes).Nodup) (hnew : id ∉ changedIds changes) :
    (changedIds (changes ++ last)).Nodup := by
  rw [changedIds_append, hids]
  refine nodup_append.mpr ⟨h, by simp, ?_⟩
  rintro i hi _ hlast rfl
  exact hnew (mem_singleton.mp hlast ▸ hi)

lemma changedIds_append_subset {ids : List Nat} (hids : changedIds last = [id])
    (h : ∀ i ∈ changedIds changes, i ∈ ids) :
    ∀ i ∈ changedIds (changes ++ last), i ∈ id :: ids := by
  intro i hi
  rw [changedIds_append, hids] at hi
  rcases mem_append.mp hi with hi | hi
  · exact mem_cons_of_mem _ (h i hi)
  · exact mem_cons.mpr (.inl (mem_singleton.mp hi))

end Last

namespace Covered

variable {s : Store} {changes changes' : List PreparedPage} {p : NodeImage}

lemma of_held (h : Held s tree p.1 p.2) (hfree : p.1.pageId ∉ changedIds changes) :
    Covered s tree changes p :=
  ⟨h.fits, Or.inr ⟨h.stored, hfree⟩⟩

lemma of_writes (hfits : Fits tree p.1 p.2) (hmem : change ∈ changes)
    (h : Writes tree change p.1 p.2) : Covered s tree changes p :=
  ⟨hfits, Or.inl ⟨change, hmem, h⟩⟩

/-- Later changes of other pages keep a node covered. -/
lemma append (h : Covered s tree changes p) (hfree : p.1.pageId ∉ changedIds changes') :
    Covered s tree (changes ++ changes') p := by
  refine ⟨h.fits, h.source.imp ?_ ?_⟩
  · rintro ⟨change, hmem, hwrites⟩
    exact ⟨change, mem_append_left _ hmem, hwrites⟩
  · rintro ⟨hstored, hold⟩
    refine ⟨hstored, ?_⟩
    rw [changedIds_append, mem_append]
    exact fun hmem => hmem.elim hold hfree

end Covered

/-- The page numbers in use while a batch is planned, seen from the allocator:
none of them can be handed out again. -/
structure InUse (s : Store) (owner : Option Nat) (alloc : Allocator) (ids : List Nat) : Prop where
  nodup : ids.Nodup
  below : ∀ id ∈ ids, id < alloc.nextPageId
  start : s.pageCount ≤ alloc.nextPageId
  claimed : ∀ id ∈ ids, Reusable s owner id → id ∈ alloc.claimed

namespace InUse

variable {s : Store} {owner : Option Nat} {alloc alloc' : Allocator} {ids : List Nat}

lemma perm {ids' : List Nat} (h : InUse s owner alloc ids) (hperm : ids.Perm ids') :
    InUse s owner alloc ids' :=
  ⟨hperm.nodup_iff.mp h.nodup, fun id hid => h.below id (hperm.mem_iff.mpr hid), h.start,
    fun id hid => h.claimed id (hperm.mem_iff.mpr hid)⟩

/-- An allocated page is not in use yet and is used from then on. -/
lemma take {page : NewBTreePage} (h : InUse s owner alloc ids)
    (hheader : s.pages[0]? = some .other) (htook : Took s owner alloc alloc' page) :
    InUse s owner alloc' (page.reference.pageId :: ids) ∧ page.reference.pageId ≠ 0 := by
  have hcount : 0 < s.pageCount := (List.getElem?_eq_some_iff.mp hheader).1
  cases htook with
  | fresh hpublication hpage hnext hclaimed =>
    have hstart := h.start
    refine ⟨⟨?_, ?_, by omega, ?_⟩, by omega⟩
    · refine nodup_cons.mpr ⟨fun hmem => ?_, h.nodup⟩
      have := h.below _ hmem
      omega
    · intro id hid
      rcases mem_cons.mp hid with rfl | hid
      · omega
      · have := h.below id hid
        omega
    · intro id hid hreusable
      rw [hclaimed]
      rcases mem_cons.mp hid with rfl | hid
      · obtain ⟨image, himage, -⟩ := hreusable
        have hlt : page.reference.pageId < s.pageCount := (List.getElem?_eq_some_iff.mp himage).1
        omega
      · exact h.claimed id hid hreusable
  | reused hpublication hpage hunclaimed hnext hclaimed =>
    have hlt : page.reference.pageId < s.pageCount := by
      obtain ⟨image, himage, -⟩ := hpage
      exact (List.getElem?_eq_some_iff.mp himage).1
    have hstart := h.start
    refine ⟨⟨?_, ?_, by omega, ?_⟩, ?_⟩
    · exact nodup_cons.mpr ⟨fun hmem => hunclaimed (h.claimed _ hmem hpage), h.nodup⟩
    · intro id hid
      rcases mem_cons.mp hid with rfl | hid
      · omega
      · have := h.below id hid
        omega
    · intro id hid hreusable
      rw [hclaimed]
      rcases mem_cons.mp hid with rfl | hid
      · exact mem_cons_self
      · exact mem_cons_of_mem _ (h.claimed id hid hreusable)
    · intro hzero
      obtain ⟨image, himage, hother, -⟩ := hpage
      rw [hzero, hheader] at himage
      exact hother (Option.some.inj himage).symm

end InUse

/-- At the start of an update the pages of the tree are in use. -/
lemma Represents.inUse {s : Store} {handle : BTreeHandle} (h : Represents s handle tree t)
    (grants : Nat → PageGrant) :
    InUse s tree.owner (startAllocator s grants) (handle.metaPage.pageId :: pageIds t) := by
  refine ⟨h.nodup, ?_, le_refl _, ?_⟩
  · intro id hid
    exact h.ids_lt id (mem_cons_of_mem 0 hid)
  rintro id hid ⟨page, hpage, -, hreason⟩
  have hlive : isRetired page = false ∧ page.owner = tree.owner := by
    rcases mem_cons.mp hid with rfl | hid
    · rw [h.metaStored] at hpage
      obtain rfl := Option.some.inj hpage
      exact ⟨rfl, rfl⟩
    · obtain ⟨p, hp, rfl⟩ := mem_map.mp hid
      rw [(h.held p hp).stored] at hpage
      obtain rfl := Option.some.inj hpage
      exact ⟨isRetired_imageOf .., imageOf_owner ..⟩
  rcases hreason with hretired | howner
  · rw [hlive.1] at hretired
    cases hretired
  · exact absurd hlive.2 howner

section Focused

variable {s : Store} {handle : BTreeHandle} {k : Nat} {c : Ctx k n} {tc : Tree k}

lemma Represents.eq_withRoot (h : Represents s handle tree t) : tree = withRoot tree t := by
  obtain ⟨generation, owner, rootPage, height, spec⟩ := tree
  have hheight := h.height
  have hroot := h.root
  simp only at hheight hroot
  simp only [withRoot, hheight, hroot]

lemma Represents.frames_held (h : Represents s handle tree (c.plug tc)) :
    ∀ p ∈ c.frames tc, Held s tree p.1 p.2 := by
  intro p hp
  exact h.held p ((c.images_plug tc).mem_iff.mpr (mem_append_left _ hp))

lemma Represents.focus_held (h : Represents s handle tree (c.plug tc)) :
    ∀ p ∈ images tc, Held s tree p.1 p.2 := by
  intro p hp
  exact h.held p ((c.images_plug tc).mem_iff.mpr (mem_append_right _ hp))

lemma pageIds_plug (c : Ctx k n) (tc : Tree k) :
    (pageIds (c.plug tc)).Perm (pageIds tc ++ (c.frames tc).map (·.1.pageId)) := by
  refine ((c.images_plug tc).map (·.1.pageId)).trans ?_
  rw [map_append]
  exact perm_append_comm

lemma Represents.focus_nodup (h : Represents s handle tree (c.plug tc)) :
    (handle.metaPage.pageId :: (pageIds tc ++ (c.frames tc).map (·.1.pageId))).Nodup :=
  ((pageIds_plug c tc).cons _).nodup_iff.mp h.nodup

end Focused

/-- A batch that turns a represented tree into `t`. -/
structure Planned (s : Store) (handle : BTreeHandle) (tree : MetaNode)
    (changes : List PreparedPage) (retired : List BTreePageRef) {m : Nat} (t : Tree m) : Prop where
  covered : ∀ p ∈ images t, Covered s tree changes p
  nodup : (changedIds changes).Nodup
  ids : (handle.metaPage.pageId :: pageIds t).Nodup
  changed : ∀ id ∈ changedIds changes, id ∈ handle.metaPage.pageId :: pageIds t
  metadata : (tree = withRoot tree t ∧ handle.metaPage.pageId ∉ changedIds changes) ∨
    ∃ change ∈ changes, change.reference = handle.metaPage ∧
      change.image = .metaPage (withRoot tree t) ∧ ∃ size, encodeMeta (withRoot tree t) = .ok size
  retired : ∀ page ∈ retired, page.pageId ∉ 0 :: handle.metaPage.pageId :: pageIds t

structure Replaced (s s' : Store) (changes : List PreparedPage) (retired : List BTreePageRef) :
    Prop where
  written : ∀ change ∈ changes, s'.pages[change.reference.pageId]? = some change.image
  frame : ∀ id, id ∉ changedIds changes → id ∉ retired.map BTreePageRef.pageId →
    s'.pages[id]? = s.pages[id]?

namespace Planned

variable {s s' : Store} {handle : BTreeHandle} {changes : List PreparedPage}
  {retired : List BTreePageRef} {m : Nat} {t : Tree n} {t' : Tree m}

lemma of_plug {k : Nat} {c : Ctx k n} {tc : Tree k}
    (hcovered : ∀ p ∈ images tc, Covered s tree changes p)
    (hheld : ∀ p ∈ c.frames tc, Held s tree p.1 p.2) (hnodup : (changedIds changes).Nodup)
    (hchanged : ∀ id ∈ changedIds changes, id ∈ pageIds tc)
    (hids : (handle.metaPage.pageId ::
      (pageIds tc ++ (c.frames tc).map (·.1.pageId))).Nodup)
    (hretired : ∀ page ∈ retired, page.pageId ∉ 0 :: handle.metaPage.pageId ::
      (pageIds tc ++ (c.frames tc).map (·.1.pageId))) (htree : tree = withRoot tree (c.plug tc)) :
    Planned s handle tree changes retired (c.plug tc) := by
  have hpageIds := pageIds_plug c tc
  obtain ⟨hmeta, hdisjoint⟩ := nodup_cons.mp hids
  refine ⟨?_, hnodup, (hpageIds.cons _).nodup_iff.mpr hids, ?_, Or.inl ⟨htree, ?_⟩, ?_⟩
  · intro p hp
    rcases mem_append.mp ((c.images_plug tc).mem_iff.mp hp) with hp | hp
    · refine Covered.of_held (hheld p hp) fun hmem => ?_
      exact (nodup_append.mp hdisjoint).2.2 _ (hchanged _ hmem) _
        (mem_map_of_mem hp) rfl
    · exact hcovered p hp
  · intro id hid
    exact mem_cons_of_mem _
      (hpageIds.mem_iff.mpr (mem_append_left _ (hchanged id hid)))
  · exact fun hmem => hmeta (mem_append_left _ (hchanged _ hmem))
  · intro page hpage hmem
    exact hretired page hpage (((hpageIds.cons _).cons _).mem_iff.mp hmem)

lemma held (h : Planned s handle tree changes retired t')
    (hreplaced : Replaced s s' changes retired) : ∀ p ∈ images t', Held s' tree p.1 p.2 := by
  intro p hp
  obtain ⟨hfits, hsource⟩ := h.covered p hp
  refine ⟨hfits, ?_⟩
  rcases hsource with ⟨change, hmem, hwrites⟩ | ⟨hstored, hfree⟩
  · rw [← hwrites.reference, hreplaced.written change hmem, hwrites.image, hwrites.reference]
  rw [hreplaced.frame _ hfree ?_, hstored]
  intro hmem
  obtain ⟨page, hpage, hid⟩ := mem_map.mp hmem
  apply h.retired page hpage
  rw [hid]
  exact mem_cons_of_mem _ (mem_cons_of_mem _ (mem_map_of_mem hp))

/-- A published plan leaves a file that represents the new tree. -/
lemma represents (hold : Represents s handle tree t)
    (h : Planned s handle tree changes retired t') (hreplaced : Replaced s s' changes retired)
    (hordered : Ordered (cellsOf (pieces t'))) (hlinked : Linked (leaves t') none)
    (hnonempty : m ≠ 0 → ∀ page ∈ leaves t', page.node.entries ≠ []) :
    Represents s' handle (withRoot tree t') t' := by
  have hretired : ∀ id ∈ 0 :: handle.metaPage.pageId :: pageIds t',
      id ∉ retired.map BTreePageRef.pageId := by
    intro id hid hmem
    obtain ⟨page, hpage, rfl⟩ := mem_map.mp hmem
    exact h.retired page hpage hid
  have hzero : 0 ∉ changedIds changes := by
    intro hmem
    rcases mem_cons.mp (h.changed 0 hmem) with heq | hmem
    · exact hold.metaNonzero heq.symm
    · obtain ⟨p, hp, hid⟩ := mem_map.mp hmem
      exact (h.covered p hp).fits.nonzero hid
  have hmetaRetired := hretired handle.metaPage.pageId (by simp)
  refine
    { header := ?_, metaStored := ?_, metaNonzero := hold.metaNonzero, metaEncodes := ?_,
      owner := hold.owner, generation := hold.generation, height := rfl, root := rfl,
      held := ?_, nodup := h.ids, ordered := hordered, linked := hlinked,
      nonempty := hnonempty }
  · rw [hreplaced.frame 0 hzero (hretired 0 mem_cons_self), hold.header]
  · rcases h.metadata with ⟨htree, hfree⟩ | ⟨change, hmem, hreference, himage, -⟩
    · rw [hreplaced.frame _ hfree hmetaRetired, hold.metaStored, ← htree]
    · rw [← hreference, hreplaced.written change hmem, himage]
  · rcases h.metadata with ⟨htree, -⟩ | ⟨-, -, -, -, hsize⟩
    · rw [← htree]
      exact hold.metaEncodes
    · exact hsize
  · intro p hp
    have hheld := h.held hreplaced p hp
    refine ⟨hheld.fits.withRoot t', ?_⟩
    rw [hheld.stored]
    cases p.2 <;> rfl

end Planned

end Netbadb.BTree
