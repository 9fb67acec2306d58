import Netbadb.BTree.Batch

/-!
When an update can be written: a page can be prepared with every node that fits
it, and a batch can be published when new pages come in order and the others are
there.
-/

namespace Netbadb.BTree

open Outcome List PageImage

variable {s : Store} {tree : MetaNode} {page : BTreePageRef} {node : DeleteNode}
  {grants : Nat → PageGrant} {alloc : Allocator}

/-- A page that holds a node of the tree can be prepared with another node of the
same kind. -/
lemma Held.prepareDeleteNode {old : DeleteNode} (h : Held s tree page old)
    (hfits : Fits tree page node)
    (hkind : (imageOf tree page old).kind = (imageOf tree page node).kind) :
    prepareDeleteNode s page tree node = .ok ⟨page, imageOf tree page node, .existing⟩ := by
  obtain ⟨size, hsize, hle⟩ := hfits.encodes
  have hprepared : prepareExistingPage s page (imageOf tree page node) size tree.owner =
      .ok ⟨page, imageOf tree page node, .existing⟩ := by
    simp [prepareExistingPage, h.readBTreePage, hkind, validateBTreeOwner, validateBTreeGeneration,
      imageOf_allocationGeneration, not_lt.mpr hle, lift, ok_bind, pure_ok]
  cases node with
  | leaf node =>
    simp only [prepareDeleteNode, prepareLeaf, bind_eq_ok, lift_eq_ok]
    exact ⟨size, hsize, hprepared⟩
  | internal node =>
    simp only [prepareDeleteNode, prepareInternal, bind_eq_ok, lift_eq_ok]
    exact ⟨size, hsize, hprepared⟩

/-- `prepare_new_page` of a node. -/
def prepareNewNode (tree : MetaNode) (allocation : NewBTreePage) :
    DeleteNode → Except StorageError PreparedPage
  | .leaf node => prepareNewLeaf tree allocation node
  | .internal node => prepareNewInternal tree allocation node

lemma Fits.prepareNewNode {allocation : NewBTreePage} (h : Fits tree allocation.reference node) :
    prepareNewNode tree allocation node = .ok ⟨allocation.reference,
      imageOf tree allocation.reference node, allocation.publication⟩ := by
  obtain ⟨size, hsize, hle⟩ := h.encodes
  have hprepared : prepareNewPage allocation (imageOf tree allocation.reference node) size
      tree.owner = .ok ⟨allocation.reference, imageOf tree allocation.reference node,
        allocation.publication⟩ := by
    simp [prepareNewPage, validateBTreeOwner, validateBTreeGeneration,
      imageOf_allocationGeneration, not_lt.mpr hle, lift, ok_bind, pure_ok]
  cases node with
  | leaf node =>
    simp only [prepareNewNode, prepareNewLeaf, bind_eq_ok, lift_eq_ok]
    exact ⟨size, hsize, hprepared⟩
  | internal node =>
    simp only [prepareNewNode, prepareNewInternal, bind_eq_ok, lift_eq_ok]
    exact ⟨size, hsize, hprepared⟩

/-- The size of a metadata page, which a new root does not change. -/
def metaSize (spec : IndexSpec) (owner generation : Option Nat) : Nat :=
  commonHeaderSize + identitySize owner generation + pointerWidth generation.isSome + 4 + 4 +
    (4 + (utf8Bytes (spec.dataType.name.getD "")).length)

lemma encodeMeta_eq_ok {size : Nat} (h : encodeMeta tree = .ok size) :
    size = metaSize tree.spec tree.owner tree.generation ∧
      tree.spec.dataType.name ≠ some "" ∧
        ∃ header, commonHeaderGeneration tree.owner tree.generation = .ok header := by
  simp only [encodeMeta, validateMeta, bind_eq_ok, check_eq_ok, pure_eq_ok] at h
  obtain ⟨_, ⟨_, -, -, hname⟩, header, hheader, width, hwidth, rfl⟩ := h
  obtain ⟨rfl, -⟩ := encodePageRef_eq_ok hwidth
  obtain ⟨rfl, -, -⟩ := commonHeaderGeneration_eq_ok hheader
  exact ⟨rfl, by simpa using hname, _, hheader⟩

/-- The metadata page takes another root and another height. -/
lemma Represents.prepareMeta {handle : BTreeHandle} {n : Nat} {t : Tree n}
    (h : Represents s handle tree t) {root : BTreePageRef} {height : Nat}
    (hsize : metaSize tree.spec tree.owner tree.generation ≤ singlePayloadCapacity)
    (hroot : PageOf tree root) (hheight : height ≠ 0) :
    prepareMeta s handle { tree with rootPage := root, height } =
      .ok ⟨handle.metaPage, .metaPage { tree with rootPage := root, height }, .existing⟩ := by
  obtain ⟨size, hencodes⟩ := h.metaEncodes
  obtain ⟨-, hname, header, hheader⟩ := encodeMeta_eq_ok hencodes
  have hread : readBTreePage s handle.metaPage = .ok (.metaPage tree) :=
    readBTreePage_eq h.metaStored (by rw [h.generation]; rfl)
  have hencode : encodeMeta { tree with rootPage := root, height } =
      .ok (metaSize tree.spec tree.owner tree.generation) := by
    obtain ⟨rfl, -, -⟩ := commonHeaderGeneration_eq_ok hheader
    simp [encodeMeta, validateMeta, hroot.validateRef, hheight, hname, hheader, encodePageRef,
      hroot.generated, metaSize, ok_bind, pure_ok]
  simp only [BTree.prepareMeta, bind_eq_ok, lift_eq_ok]
  refine ⟨_, hencode, ?_⟩
  simp [prepareExistingPage, hread, kind, validateBTreeOwner, PageImage.owner,
    allocationGeneration, validateBTreeGeneration, h.generation, not_lt.mpr hsize, lift,
    ok_bind, pure_ok]

/-- The specification under which a page of any tree with these keys is
recognised. -/
def identitySpec (spec : IndexSpec) : IndexSpec :=
  { dataType := { physical := spec.dataType.physical, name := none }, nullable := true }

lemma validEntry_identity {spec : IndexSpec} {entry : IndexEntryKey} (h : ValidEntry spec entry) :
    ValidEntry (identitySpec spec) entry := by
  refine ⟨?_, h.2⟩
  have hkey := h.1
  simp only [IndexSpec.validateKey, identitySpec] at hkey ⊢
  split_ifs at hkey ⊢ <;> simp_all

/-- The nodes of a tree with recognised keys say which allocation they are. -/
lemma Formatted.identity (h : Formatted tree node)
    (hrecognised : tree.spec.dataType.physical ∈ identityTypes) {owner generation : Nat}
    (howner : tree.owner = some owner) (hgeneration : page.generation = some generation) (id : Nat) :
    identity id (imageOf tree page node) = .ok (⟨id, generation⟩, owner) := by
  have hspec : identitySpec tree.spec ∈ identityTypes.map fun physical : PhysicalType =>
      ({ dataType := { physical, name := none }, nullable := true } : IndexSpec) :=
    mem_map.mpr ⟨_, hrecognised, rfl⟩
  cases node with
  | leaf node =>
    obtain ⟨hvalid, -⟩ := h
    obtain ⟨hnext, hentries, hsorted⟩ := validateLeaf_eq_ok.mp hvalid
    have hany : ((identityTypes.map fun physical : PhysicalType =>
        ({ dataType := { physical, name := none }, nullable := true } : IndexSpec)).any
          fun spec => (validateLeaf spec node).isOk) = true := by
      refine any_eq_true.mpr ⟨_, hspec, ?_⟩
      rw [validateLeaf_eq_ok (u := ()) |>.mpr
        ⟨hnext, fun e he => validEntry_identity (hentries e he), hsorted⟩]
      rfl
    simp [identity, imageOf, kind, PageImage.owner, allocationGeneration,
      howner, hgeneration, hany, lift, ok_bind, pure_ok]
  | internal node =>
    obtain ⟨hvalid, -⟩ := h
    obtain ⟨hfirst, hrest, hsorted⟩ := validateInternal_eq_ok.mp hvalid
    have hany : ((identityTypes.map fun physical : PhysicalType =>
        ({ dataType := { physical, name := none }, nullable := true } : IndexSpec)).any
          fun spec => (validateInternal spec node).isOk) = true := by
      refine any_eq_true.mpr ⟨_, hspec, ?_⟩
      rw [validateInternal_eq_ok (u := ()) |>.mpr
        ⟨hfirst, fun e he => ⟨validEntry_identity (hrest e he).1, (hrest e he).2⟩, hsorted⟩]
      rfl
    simp [identity, imageOf, kind, PageImage.owner, allocationGeneration,
      howner, hgeneration, hany, lift, ok_bind, pure_ok]

def freshIds (changes : List PreparedPage) : List Nat :=
  changedIds (changes.filter (·.publication = .newPage))

lemma readBTreePage_congr {s' : Store} (h : s'.pages[page.pageId]? = s.pages[page.pageId]?) :
    readBTreePage s' page = readBTreePage s page := by
  simp only [readBTreePage, h]

/-- Prepared pages are published one by one, and after each of them the rest still can be. -/
lemma publishPages_ok {changes : List PreparedPage} (count : Nat)
    (hnodup : (changedIds changes).Nodup) (hfresh : freshIds changes = range' s.pageCount count)
    (htransition : ∀ c ∈ changes, c.publication = .transition → c.reference.pageId < s.pageCount)
    (hexisting : ∀ c ∈ changes, c.publication = .existing →
      ∃ image, readBTreePage s c.reference = .ok image) :
    ∃ s', publishPages s changes = (s', .ok ()) := by
  induction changes generalizing s count with
  | nil => exact ⟨s, rfl⟩
  | cons change changes ih =>
    obtain ⟨hnot, hnodup⟩ := nodup_cons.mp hnodup
    have hnext : ∀ (t : Store) (count' : Nat), publishPage s change = .ok t →
        freshIds changes = range' t.pageCount count' →
          ∃ s', publishPages s (change :: changes) = (s', .ok ()) := by
      intro t count' hpage hfresh'
      obtain ⟨-, hgrow, hframe⟩ := publishPage_eq_ok hpage (htransition _ mem_cons_self)
      simp only [publishPages, hpage]
      refine ih count' hnodup hfresh' (fun c hc hp =>
        (htransition c (mem_cons_of_mem _ hc) hp).trans_le hgrow) fun c hc hp => ?_
      have hne : c.reference.pageId ≠ change.reference.pageId :=
        fun heq => hnot (mem_map.mpr ⟨c, hc, heq⟩)
      rw [readBTreePage_congr (hframe _ hne)]
      exact hexisting c (mem_cons_of_mem _ hc) hp
    cases hpublication : change.publication with
    | newPage =>
      have hcons : freshIds (change :: changes) =
          change.reference.pageId :: freshIds changes := by
        simp [freshIds, changedIds, hpublication]
      rw [hcons] at hfresh
      cases count with
      | zero => cases hfresh
      | succ count =>
        rw [range'_succ, cons.injEq] at hfresh
        refine hnext { pages := s.pages ++ [change.image] } count ?_ ?_
        · simp [publishPage, hpublication, hfresh.1, pure, Except.pure]
        · rw [hfresh.2]
          simp [Store.pageCount]
    | transition =>
      refine hnext ⟨s.pages.set change.reference.pageId change.image⟩ count ?_ ?_
      · simp [publishPage, hpublication, pure, Except.pure]
      · simpa [freshIds, hpublication, Store.pageCount] using hfresh
    | existing =>
      obtain ⟨image, hread⟩ := hexisting _ mem_cons_self hpublication
      refine hnext ⟨s.pages.set change.reference.pageId change.image⟩ count ?_ ?_
      · simp [publishPage, hpublication, hread, ok_bind, pure_ok]
      · simpa [freshIds, hpublication, Store.pageCount] using hfresh

/-- A batch whose new pages are the next ones of the file, whose transitions are
accepted, and whose other pages are there. -/
structure Publishable (s : Store) (changes : List PreparedPage) (count : Nat) : Prop where
  fresh : freshIds changes = range' s.pageCount count
  transition : ∀ c ∈ changes, c.publication = .transition → ∃ before,
    s.pages[c.reference.pageId]? = some before ∧
      validateTransition c.reference.pageId before c.image = .ok ()
  existing : ∀ c ∈ changes, c.publication = .existing →
    ∃ image, readBTreePage s c.reference = .ok image

namespace Publishable

variable {changes changes' : List PreparedPage} {count : Nat}

lemma nil : Publishable s [] 0 := ⟨rfl, by simp, by simp⟩

lemma append (count' : Nat) (h : Publishable s changes count)
    (hfresh : freshIds changes' = range' (s.pageCount + count) count')
    (htransition : ∀ c ∈ changes', c.publication = .transition → ∃ before,
      s.pages[c.reference.pageId]? = some before ∧
        validateTransition c.reference.pageId before c.image = .ok ())
    (hexisting : ∀ c ∈ changes', c.publication = .existing →
      ∃ image, readBTreePage s c.reference = .ok image) :
    Publishable s (changes ++ changes') (count + count') := by
  refine ⟨?_, fun c hc => ?_, fun c hc => ?_⟩
  · have happend : freshIds (changes ++ changes') = freshIds changes ++ freshIds changes' := by
      simp [freshIds, changedIds]
    rw [happend, h.fresh, hfresh, range'_append_1]
  · exact (mem_append.mp hc).elim (h.transition c) (htransition c)
  · exact (mem_append.mp hc).elim (h.existing c) (hexisting c)

/-- A page of the file is written again. -/
lemma rewrite (h : Publishable s changes count) (image : PageImage) {old : PageImage}
    (hread : readBTreePage s page = .ok old) :
    Publishable s (changes ++ [⟨page, image, .existing⟩]) count := by
  refine h.append 0 rfl ?_ ?_
  · intro c hc hp
    obtain rfl := mem_singleton.mp hc
    cases hp
  · intro c hc _
    obtain rfl := mem_singleton.mp hc
    exact ⟨old, hread⟩

lemma applyChanges (h : Publishable s changes count) (hnodup : (changedIds changes).Nodup) :
    ∃ s', applyChanges s changes = (s', .ok ()) := by
  have hlog : logChanges s changes = .ok () := by
    refine forM_eq_ok.mpr fun c hc => ?_
    cases hp : c.publication with
    | transition =>
      obtain ⟨before, hbefore, hvalid⟩ := h.transition c hc hp
      simpa [hbefore] using hvalid
    | existing | newPage => rfl
  have hperm := publicationOrder_perm changes
  have hmem := fun {c : PreparedPage} => hperm.mem_iff (a := c)
  simp only [BTree.applyChanges, hlog]
  refine publishPages_ok count ((hperm.map _).nodup_iff.mpr hnodup) ?_ ?_ ?_
  · rw [← h.fresh]
    simp only [freshIds, filter_append, filter_filter]
    congr 1
    have hnew : (fun c : PreparedPage => decide (c.publication = .newPage) &&
        decide (c.publication ≠ .existing)) = fun c => decide (c.publication = .newPage) := by
      funext c
      cases c.publication <;> rfl
    have hnone : (fun c : PreparedPage => decide (c.publication = .newPage) &&
        decide (c.publication = .existing)) = fun _ => false := by
      funext c
      cases c.publication <;> rfl
    rw [hnew, hnone]
    simp
  · intro c hc hp
    obtain ⟨before, hbefore, -⟩ := h.transition c (hmem.mp hc) hp
    exact (List.getElem?_eq_some_iff.mp hbefore).1
  · intro c hc hp
    exact h.existing c (hmem.mp hc) hp

end Publishable

/-- Answers under which every allocation succeeds and can be logged: a reusable
page is offered once, with a generation above the one it had, to a tree whose
pages are recognised. -/
structure SoundGrants (s : Store) (tree : MetaNode) (grants : Nat → PageGrant) : Prop where
  generation : ∀ k, (grants k).generation ≠ 0
  claim : ∀ k id, (grants k).claim = some id →
    tree.spec.dataType.physical ∈ identityTypes ∧ ∃ image old actual, s.pages[id]? = some image ∧
      identity id image = .ok (old, actual) ∧ (isRetired image = true ∨ tree.owner ≠ some actual) ∧
        old.generation < (grants k).generation
  once : ∀ k l id, (grants k).claim = some id → (grants l).claim = some id → k = l

lemma not_live {image : PageImage} {owner actual : Nat}
    (howner : tree.owner = some owner) (h : isRetired image = true ∨ tree.owner ≠ some actual) :
    ¬ (isRetired image = false ∧ actual = owner) := by
  rintro ⟨hretired, rfl⟩
  rcases h with h | h
  · simp [hretired] at h
  · exact h howner

/-- The allocator of a call that took `count` pages from the end of the file. -/
structure Allocating (s : Store) (grants : Nat → PageGrant) (alloc : Allocator) (count : Nat) :
    Prop where
  answers : alloc.grants = grants
  next : alloc.nextPageId = s.pageCount + count
  claimed : ∀ id ∈ alloc.claimed, ∃ k < alloc.taken, (grants k).claim = some id

lemma Allocating.start (s : Store) (grants : Nat → PageGrant) :
    Allocating s grants (startAllocator s grants) 0 :=
  ⟨rfl, rfl, by simp [startAllocator]⟩

/-- A generation the allocator gives makes a page of the tree. -/
lemma PageOf.header_of {generation : Option Nat} (h : PageOf tree page)
    (hgenerated : generation.isSome = tree.generation.isSome)
    (hgeneration : ∀ g, generation = some g → g ≠ 0) :
    ∃ size, commonHeaderGeneration tree.owner generation = .ok size := by
  obtain ⟨size, hsize⟩ := h.header
  rw [← h.generated] at hgenerated
  cases hg : generation with
  | none =>
    rw [hg] at hgenerated
    have hnone : page.generation = none := by simpa using hgenerated.symm
    exact ⟨size, hnone ▸ hsize⟩
  | some g =>
    have hpos := hgeneration g hg
    rw [hg] at hgenerated
    obtain ⟨g', hg'⟩ := Option.isSome_iff_exists.mp hgenerated.symm
    rw [hg'] at hsize
    simp only [commonHeaderGeneration, validateGeneration, if_neg hpos] at hsize ⊢
    cases ho : tree.owner with
    | none => simp [ho, bind_eq_ok] at hsize
    | some owner =>
      have howner : owner ≠ 0 := by
        rintro rfl
        simp [ho, bind_eq_ok, map_eq_ok] at hsize
      simp [howner, ok_bind, pure_ok]

/-- The reusable page of the next answer, when there is one, can be claimed. -/
lemma Allocating.claim {count : Nat} (h : Allocating s grants alloc count)
    (hsound : SoundGrants s tree grants) (hpage : PageOf tree page) :
    claimGranted s alloc tree.owner tree.generation.isSome = .ok none ∨
      ∃ id owner, tree.generation.isSome = true ∧ tree.owner = some owner ∧
        (grants alloc.taken).claim = some id ∧
          claimGranted s alloc tree.owner tree.generation.isSome = .ok (some id) := by
  cases hgenerated : tree.generation.isSome with
  | false => exact .inl rfl
  | true =>
    obtain ⟨size, hsize⟩ := hpage.header
    obtain ⟨owner, howner⟩ := Option.isSome_iff_exists.mp
      ((commonHeaderGeneration_eq_ok hsize).2.1 (hpage.generated.trans hgenerated))
    cases hgrant : (grants alloc.taken).claim with
    | none =>
      left
      simp [claimGranted, howner, h.answers, hgrant, pure, Except.pure]
    | some id =>
      obtain ⟨-, image, old, actual, himage, hidentity, hreason, -⟩ := hsound.claim _ _ hgrant
      have hunclaimed : id ∉ alloc.claimed := by
        intro hmem
        obtain ⟨k, hk, hother⟩ := h.claimed id hmem
        exact absurd (hsound.once _ _ _ hother hgrant) hk.ne
      refine .inr ⟨id, owner, rfl, howner, rfl, ?_⟩
      have hclaim : claimReusable s owner alloc.claimed id = .ok id := by
        simp [claimReusable, himage, hidentity, hunclaimed, not_live howner hreason, ok_bind,
          pure_ok]
      simp [claimGranted, howner, h.answers, hgrant, hclaim]

/-- An allocation succeeds, and a node of the tree can be published on its
page. -/
lemma Allocating.take {count : Nat} (h : Allocating s grants alloc count)
    (hsound : SoundGrants s tree grants) (hpage : PageOf tree page) :
    ∃ allocation alloc' count',
      takePageRef s alloc tree.owner tree.generation.isSome = .ok (allocation, alloc') ∧
        Allocating s grants alloc' count' ∧
        (∃ size, commonHeaderGeneration tree.owner allocation.reference.generation = .ok size) ∧
        ∀ {changes : List PreparedPage} {node : DeleteNode}, Publishable s changes count →
          Formatted tree node → Publishable s (changes ++ [⟨allocation.reference,
            imageOf tree allocation.reference node, allocation.publication⟩]) count' := by
  have hheader : ∀ id, ∃ size, commonHeaderGeneration tree.owner
      (alloc.reference tree.generation.isSome id).generation = .ok size := by
    intro id
    refine hpage.header_of (alloc.reference_generation _ _) fun g hg => ?_
    cases hgenerated : tree.generation.isSome with
    | false => simp [hgenerated, Allocator.reference, BTreePageRef.generation] at hg
    | true =>
      simp only [hgenerated, Allocator.reference, BTreePageRef.generation, if_true,
        Option.some.injEq] at hg
      rw [← hg, h.answers]
      exact hsound.generation _
  rcases h.claim hsound hpage with hclaim | ⟨id, owner, hgenerated, howner, hgrant, hclaim⟩
  · refine ⟨⟨alloc.reference tree.generation.isSome alloc.nextPageId, .newPage⟩,
      { alloc with nextPageId := alloc.nextPageId + 1, taken := alloc.taken + 1 }, count + 1,
      by simp only [takePageRef, hclaim, ok_bind, pure_ok],
      ⟨h.answers, by simp only [h.next]; omega, fun id hid => ?_⟩, hheader _, ?_⟩
    · obtain ⟨k, hk, hgrant⟩ := h.claimed id hid
      exact ⟨k, hk.trans (Nat.lt_succ_self _), hgrant⟩
    · intro changes node hpublishable _
      refine hpublishable.append 1 ?_ ?_ ?_
      · simp [freshIds, changedIds, alloc.reference_pageId, h.next]
      all_goals
        intro c hc hp
        obtain rfl := mem_singleton.mp hc
        cases hp
  · obtain ⟨hrecognised, image, old, actual, himage, hidentity, hreason, hlt⟩ :=
      hsound.claim _ _ hgrant
    refine ⟨⟨alloc.reference tree.generation.isSome id, .transition⟩,
      { alloc with claimed := id :: alloc.claimed, taken := alloc.taken + 1 }, count,
      by simp only [takePageRef, hclaim, ok_bind, pure_ok],
      ⟨h.answers, h.next, fun id' hid => ?_⟩, hheader _, ?_⟩
    · rcases mem_cons.mp hid with rfl | hid
      · exact ⟨_, Nat.lt_succ_self _, hgrant⟩
      · obtain ⟨k, hk, hother⟩ := h.claimed id' hid
        exact ⟨k, hk.trans (Nat.lt_succ_self _), hother⟩
    · intro changes node hpublishable hformatted
      have hgeneration : (alloc.reference tree.generation.isSome id).generation =
          some (grants alloc.taken).generation := by
        simp [hgenerated, Allocator.reference, BTreePageRef.generation, h.answers]
      have hafter := hformatted.identity hrecognised howner hgeneration id
      have hvalid : validateTransition id image
          (imageOf tree (alloc.reference tree.generation.isSome id) node) = .ok () := by
        simp [validateTransition, hidentity, hafter, not_le.mpr hlt, not_live howner hreason,
          ok_bind, pure_ok]
      refine hpublishable.append 0 rfl ?_ ?_
      · intro c hc _
        obtain rfl := mem_singleton.mp hc
        refine ⟨image, ?_, ?_⟩ <;> simp only [alloc.reference_pageId]
        · exact himage
        · exact hvalid
      · intro c hc hp
        obtain rfl := mem_singleton.mp hc
        cases hp

end Netbadb.BTree
