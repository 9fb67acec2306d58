import Netbadb.BTree.Update
import Netbadb.Index.NodeSpec

/-!
What reads return, what a prepared page says about the node it holds, and what
a published batch changes in the file. A node whose pointers have the format of
its tree encodes, and its size is its payload plus the identity words of its page,
so it fits a page exactly when the payload is within the node capacity.
-/

namespace Netbadb.BTree

open Outcome List

@[simp] lemma lift_eq_ok {α : Type} {x : Except IndexError α} {a : α} :
    lift x = .ok a ↔ x = .ok a := by
  cases x <;> simp [lift]

def imageOf (tree : MetaNode) (page : BTreePageRef) : DeleteNode → PageImage
  | .leaf node => .leaf tree.owner page.generation node
  | .internal node => .internal tree.owner page.generation node

def encodeNode (tree : MetaNode) (page : BTreePageRef) : DeleteNode → Except IndexError Nat
  | .leaf node => encodeLeafFor tree node page
  | .internal node => encodeInternalFor tree node page

/-- A node that encodes into its page and has the pointer format of its
tree. -/
structure Fits (tree : MetaNode) (page : BTreePageRef) (node : DeleteNode) : Prop where
  nonzero : page.pageId ≠ 0
  generated : page.generation.isSome = tree.generation.isSome
  encodes : ∃ size, encodeNode tree page node = .ok size ∧ size ≤ singlePayloadCapacity

/-- A node of a tree that the file holds on its page. -/
structure Held (s : Store) (tree : MetaNode) (page : BTreePageRef) (node : DeleteNode) :
    Prop where
  fits : Fits tree page node
  stored : s.pages[page.pageId]? = some (imageOf tree page node)

/-- The number of a page of the file other than page zero. -/
def InFile (s : Store) (page : BTreePageRef) : Prop :=
  page.pageId ≠ 0 ∧ page.pageId < s.pageCount

variable {s : Store} {page : BTreePageRef}

lemma validateChild_eq_ok {u : Unit} : validateChild s page = .ok u ↔ InFile s page := by
  simp only [validateChild, InFile, guard_eq_ok, pure_eq_ok, and_true]
  omega

variable {tree : MetaNode} {node : DeleteNode}

lemma Held.inFile (h : Held s tree page node) : InFile s page := by
  refine ⟨h.fits.nonzero, ?_⟩
  obtain ⟨hlt, -⟩ := List.getElem?_eq_some_iff.mp h.stored
  exact hlt

lemma imageOf_allocationGeneration (tree : MetaNode) (page : BTreePageRef) (node : DeleteNode)
    (id : Nat) : (imageOf tree page node).allocationGeneration id = .ok page.generation := by
  cases node <;> rfl

@[simp] lemma imageOf_owner (tree : MetaNode) (page : BTreePageRef) (node : DeleteNode) :
    (imageOf tree page node).owner = tree.owner := by
  cases node <;> rfl

@[simp] lemma isRetired_imageOf (tree : MetaNode) (page : BTreePageRef) (node : DeleteNode) :
    isRetired (imageOf tree page node) = false := by
  cases node <;> rfl

variable {image : PageImage}

lemma readBTreePage_eq (hstored : s.pages[page.pageId]? = some image)
    (hgeneration : image.allocationGeneration page.pageId = .ok page.generation) :
    readBTreePage s page = .ok image := by
  simp [readBTreePage, hstored, hgeneration, lift, validateBTreeGeneration, ok_bind, pure_ok]

lemma Held.readBTreePage (h : Held s tree page node) :
    readBTreePage s page = .ok (imageOf tree page node) :=
  readBTreePage_eq h.stored (imageOf_allocationGeneration ..)

lemma Fits.header (h : Fits tree page node) :
    ∃ size, commonHeaderGeneration tree.owner page.generation = .ok size := by
  obtain ⟨size, hsize, -⟩ := h.encodes
  cases node with
  | leaf node =>
    simp only [encodeNode, encodeLeafFor, encodeLeafGeneration, bind_eq_ok] at hsize
    obtain ⟨_, -, header, hheader, -⟩ := hsize
    exact ⟨header, hheader⟩
  | internal node =>
    simp only [encodeNode, encodeInternalFor, encodeInternalGeneration, bind_eq_ok] at hsize
    obtain ⟨_, -, header, hheader, -⟩ := hsize
    exact ⟨header, hheader⟩

/-- The size of a node without the identity words of its page. -/
def payload (tree : MetaNode) : DeleteNode → Nat
  | .leaf node => commonHeaderSize + 4 + pointerWidth tree.generation.isSome +
      (node.entries.map encodedEntryLen).sum
  | .internal node => commonHeaderSize + 4 + pointerWidth tree.generation.isSome +
      (node.separators.map fun separator =>
        encodedEntryLen separator.key + pointerWidth tree.generation.isSome).sum

/-- A valid node whose pointers have the format of the tree. -/
def Formatted (tree : MetaNode) : DeleteNode → Prop
  | .leaf node => validateLeaf tree.spec node = .ok () ∧
      ∀ next, node.nextLeaf = some next →
        validateRef next = .ok () ∧ next.generation.isSome = tree.generation.isSome
  | .internal node => validateInternal tree.spec node = .ok () ∧
      node.firstChild.generation.isSome = tree.generation.isSome ∧
        ∀ separator ∈ node.separators,
          separator.rightChild.generation.isSome = tree.generation.isSome

structure PageOf (tree : MetaNode) (page : BTreePageRef) : Prop where
  nonzero : page.pageId ≠ 0
  generated : page.generation.isSome = tree.generation.isSome
  header : ∃ size, commonHeaderGeneration tree.owner page.generation = .ok size

lemma Fits.pageOf (h : Fits tree page node) : PageOf tree page :=
  ⟨h.nonzero, h.generated, h.header⟩

lemma PageOf.validateRef (h : PageOf tree page) : validateRef page = .ok () := by
  obtain ⟨size, hsize⟩ := h.header
  have hgeneration := (commonHeaderGeneration_eq_ok hsize).2.2
  simp only [Netbadb.validateRef]
  cases hg : page.generation with
  | none => simp [h.nonzero, pure, Except.pure]
  | some g => simp [hgeneration g hg, h.nonzero, ok_bind, pure_ok]

/-- The identity words fill a page up from the node capacity. -/
lemma PageOf.capacity (h : PageOf tree page) :
    nodeCapacity tree + identitySize tree.owner page.generation = singlePayloadCapacity := by
  obtain ⟨size, hsize⟩ := h.header
  have howner := (commonHeaderGeneration_eq_ok hsize).2.1
  rw [nodeCapacity, identitySize, h.generated]
  rw [h.generated] at howner
  have hroom : 16 ≤ singlePayloadCapacity := by decide
  cases hg : tree.generation.isSome <;> cases ho : tree.owner.isSome <;>
    simp_all [btreeOwnerSize]
  all_goals omega

lemma Formatted.encodes (h : Formatted tree node) (hpage : PageOf tree page) :
    encodeNode tree page node =
      .ok (payload tree node + identitySize tree.owner page.generation) := by
  obtain ⟨size, hsize⟩ := hpage.header
  obtain ⟨rfl, -, -⟩ := commonHeaderGeneration_eq_ok hsize
  have hpointer : ∀ {reference : BTreePageRef}, validateRef reference = .ok () →
      reference.generation.isSome = tree.generation.isSome →
        encodePageRef (some reference) page.generation.isSome =
          .ok (pointerWidth tree.generation.isSome) := by
    intro reference hvalid hformat
    simp [encodePageRef, hvalid, hformat, hpage.generated, ok_bind, pure_ok]
  cases node with
  | leaf node =>
    obtain ⟨hvalid, hnext⟩ := h
    have hencoded : encodePageRef node.nextLeaf page.generation.isSome =
        .ok (pointerWidth tree.generation.isSome) := by
      cases hn : node.nextLeaf with
      | none => simp [encodePageRef, hpage.generated, pure, Except.pure]
      | some next => exact hpointer (hnext next hn).1 (hnext next hn).2
    simp only [encodeNode, encodeLeafFor, encodeLeafGeneration, bind_eq_ok, pure_eq_ok]
    refine ⟨(), hvalid, _, hsize, _, hencoded, ?_⟩
    rw [payload]
    omega
  | internal node =>
    obtain ⟨hvalid, hfirst, hrest⟩ := h
    obtain ⟨hfirstRef, hrestRef, -⟩ := validateInternal_eq_ok.mp hvalid
    have hseparators : (node.separators.forM fun separator => do
        let _ ← encodePageRef (some separator.rightChild) page.generation.isSome) =
          (.ok () : Except IndexError Unit) := by
      refine forM_eq_ok.mpr fun separator hmem => ?_
      rw [hpointer (hrestRef separator hmem).2 (hrest separator hmem)]
      rfl
    simp only [encodeNode, encodeInternalFor, encodeInternalGeneration, bind_eq_ok, pure_eq_ok]
    refine ⟨(), hvalid, _, hsize, _, hpointer hfirstRef hfirst, (), hseparators, ?_⟩
    rw [payload, hpage.generated]
    omega

/-- A node goes on a page when its payload is within the node capacity. -/
lemma Formatted.fits (h : Formatted tree node) (hpage : PageOf tree page)
    (hle : payload tree node ≤ nodeCapacity tree) : Fits tree page node := by
  refine ⟨hpage.nonzero, hpage.generated, _, h.encodes hpage, ?_⟩
  have := hpage.capacity
  omega

lemma Fits.formatted (h : Fits tree page node) : Formatted tree node := by
  obtain ⟨size, hsize, -⟩ := h.encodes
  cases node with
  | leaf node =>
    obtain ⟨hvalid, hnext⟩ := encodeLeafGeneration_eq_ok hsize
    rw [h.generated] at hnext
    exact ⟨hvalid, hnext⟩
  | internal node =>
    obtain ⟨hvalid, hfirst, hrest⟩ := encodeInternalGeneration_eq_ok hsize
    rw [h.generated] at hfirst hrest
    exact ⟨hvalid, hfirst, hrest⟩

lemma Fits.validateLeaf {node : LeafNode} (h : Fits tree page (.leaf node)) :
    validateLeaf tree.spec node = .ok () := h.formatted.1

lemma Fits.validateInternal {node : InternalNode} (h : Fits tree page (.internal node)) :
    validateInternal tree.spec node = .ok () := h.formatted.1

lemma Fits.sorted {node : LeafNode} (h : Fits tree page (.leaf node)) :
    node.entries.Pairwise (· < ·) :=
  (validateLeaf_eq_ok.mp h.validateLeaf).2.2

lemma Fits.payload_le (h : Fits tree page node) : payload tree node ≤ nodeCapacity tree := by
  obtain ⟨size, hsize, hle⟩ := h.encodes
  rw [h.formatted.encodes h.pageOf, Except.ok.injEq] at hsize
  have := h.pageOf.capacity
  omega

/-- The size that splits and merges compare with the node capacity. -/
lemma Formatted.encodedLen (h : Formatted tree node) :
    node.encodedLen tree = .ok (payload tree node) := by
  cases node with
  | leaf node =>
    obtain ⟨hvalid, hnext⟩ := h
    cases hn : node.nextLeaf with
    | none =>
      simp only [DeleteNode.encodedLen, leafEncodedLen, hvalid, hn, ok_bind, pure_ok, payload,
        encodedEntriesSize, nodeHeaderSize, pointerWidth]
      cases tree.generation.isSome <;> simp
      all_goals omega
    | some next =>
      simp only [DeleteNode.encodedLen, leafEncodedLen, hvalid, hn, (hnext next hn).2, ok_bind,
        pure_ok, payload, encodedEntriesSize, nodeHeaderSize, pointerWidth, ne_eq,
        not_true_eq_false, if_false]
      cases tree.generation.isSome <;> simp
      all_goals omega
  | internal node =>
    obtain ⟨hvalid, hfirst, -⟩ := h
    simp only [DeleteNode.encodedLen, internalEncodedLen, hvalid, hfirst, ok_bind, pure_ok, payload]

/-- The reference of a page that a node fits is a valid one. -/
lemma Fits.validateRef (h : Fits tree page node) : validateRef page = .ok () :=
  h.pageOf.validateRef

/-- Every stored node fits the node capacity of its page. -/
lemma Fits.encodedLen (h : Fits tree page node) :
    ∃ size, node.encodedLen tree = .ok size ∧ size ≤ nodeCapacity tree :=
  ⟨_, h.formatted.encodedLen, h.payload_le⟩

lemma Held.readLeaf {node : LeafNode} (h : Held s tree page (.leaf node)) :
    readLeaf s page tree = .ok node := by
  have hchild : validateChild s page = .ok () := validateChild_eq_ok.mpr h.inFile
  have hread := h.readBTreePage
  rw [imageOf] at hread
  simp [BTree.readLeaf, hchild, hread, validateBTreeOwner, h.fits.validateLeaf, lift, ok_bind,
    pure_ok]

lemma Held.readInternal {node : InternalNode}
    (h : Held s tree page (.internal node)) (hfirst : InFile s node.firstChild)
    (hrest : ∀ separator ∈ node.separators, InFile s separator.rightChild) :
    readInternal s page tree = .ok node := by
  have hchild : validateChild s page = .ok () := validateChild_eq_ok.mpr h.inFile
  have hfirst' : validateChild s node.firstChild = .ok () := validateChild_eq_ok.mpr hfirst
  have hread := h.readBTreePage
  have hseparators : node.separators.forM
      (fun separator => validateChild s separator.rightChild) = .ok () :=
    forM_eq_ok.mpr fun separator hmem => validateChild_eq_ok.mpr (hrest separator hmem)
  rw [imageOf] at hread
  simp only [BTree.readInternal, hchild, hread, validateBTreeOwner, h.fits.validateInternal,
    hfirst', hseparators, lift, ok_bind, pure_ok,
    ne_eq, not_true_eq_false, if_false]

structure Writes (tree : MetaNode) (change : PreparedPage) (page : BTreePageRef)
    (node : DeleteNode) : Prop where
  reference : change.reference = page
  image : change.image = imageOf tree page node
  encodes : ∃ size, encodeNode tree page node = .ok size ∧ size ≤ singlePayloadCapacity

variable {change : PreparedPage} {owner : Option Nat} {size : Nat}

lemma prepareExistingPage_eq_ok (h : prepareExistingPage s page image size owner = .ok change) :
    change = { reference := page, image, publication := .existing } ∧
      size ≤ singlePayloadCapacity ∧ image.owner = owner := by
  simp only [prepareExistingPage, bind_eq_ok, lift_eq_ok, check_eq_ok, pure_eq_ok] at h
  obtain ⟨old, -, -, _, -, _, howner, _, -, _, -, hsize, rfl⟩ := h
  have howner' : owner = image.owner := by
    by_contra hne
    simp [validateBTreeOwner, hne] at howner
  exact ⟨rfl, by omega, howner'.symm⟩

lemma prepareLeaf_eq_ok {node : LeafNode} (h : prepareLeaf s tree page node = .ok change) :
    Writes tree change page (.leaf node) ∧ change.publication = .existing := by
  simp only [prepareLeaf, bind_eq_ok, lift_eq_ok] at h
  obtain ⟨size, hsize, h⟩ := h
  obtain ⟨rfl, hle, -⟩ := prepareExistingPage_eq_ok h
  exact ⟨⟨rfl, rfl, size, hsize, hle⟩, rfl⟩

lemma prepareInternal_eq_ok {node : InternalNode}
    (h : prepareInternal s tree page node = .ok change) :
    Writes tree change page (.internal node) ∧ change.publication = .existing := by
  simp only [prepareInternal, bind_eq_ok, lift_eq_ok] at h
  obtain ⟨size, hsize, h⟩ := h
  obtain ⟨rfl, hle, -⟩ := prepareExistingPage_eq_ok h
  exact ⟨⟨rfl, rfl, size, hsize, hle⟩, rfl⟩

lemma prepareDeleteNode_eq_ok (h : prepareDeleteNode s page tree node = .ok change) :
    Writes tree change page node ∧ change.publication = .existing := by
  cases node with
  | leaf node => exact prepareLeaf_eq_ok h
  | internal node => exact prepareInternal_eq_ok h

lemma prepareMeta_eq_ok {handle : BTreeHandle} (h : prepareMeta s handle tree = .ok change) :
    change = { reference := handle.metaPage, image := .metaPage tree, publication := .existing } ∧
      ∃ size, encodeMeta tree = .ok size := by
  simp only [prepareMeta, bind_eq_ok, lift_eq_ok] at h
  obtain ⟨size, hsize, h⟩ := h
  exact ⟨(prepareExistingPage_eq_ok h).1, size, hsize⟩

variable {allocation : NewBTreePage}

lemma prepareNewPage_eq_ok (h : prepareNewPage allocation image size owner = .ok change) :
    change = { reference := allocation.reference, image, publication := allocation.publication } ∧
      size ≤ singlePayloadCapacity := by
  simp only [prepareNewPage, bind_eq_ok, lift_eq_ok, check_eq_ok, pure_eq_ok] at h
  obtain ⟨_, -, _, -, _, -, hsize, rfl⟩ := h
  exact ⟨rfl, by omega⟩

lemma prepareNewLeaf_eq_ok {node : LeafNode}
    (h : prepareNewLeaf tree allocation node = .ok change) :
    Writes tree change allocation.reference (.leaf node) ∧
      change.publication = allocation.publication := by
  simp only [prepareNewLeaf, bind_eq_ok, lift_eq_ok] at h
  obtain ⟨size, hsize, h⟩ := h
  obtain ⟨rfl, hle⟩ := prepareNewPage_eq_ok h
  exact ⟨⟨rfl, rfl, size, hsize, hle⟩, rfl⟩

lemma prepareNewInternal_eq_ok {node : InternalNode}
    (h : prepareNewInternal tree allocation node = .ok change) :
    Writes tree change allocation.reference (.internal node) ∧
      change.publication = allocation.publication := by
  simp only [prepareNewInternal, bind_eq_ok, lift_eq_ok] at h
  obtain ⟨size, hsize, h⟩ := h
  obtain ⟨rfl, hle⟩ := prepareNewPage_eq_ok h
  exact ⟨⟨rfl, rfl, size, hsize, hle⟩, rfl⟩

variable {id : Nat} {generated : Bool}

lemma identity_eq_ok {page : PageImage} {reference : PageRef} {owner : Nat}
    (h : identity id page = .ok (reference, owner)) : page ≠ .other ∧ page.owner = some owner := by
  simp only [identity, check_eq_ok] at h
  obtain ⟨hkind, h⟩ := h
  have hother : page ≠ .other := by
    rintro rfl
    exact hkind rfl
  cases howner : page.owner with
  | none => simp [howner] at h
  | some actual =>
    simp only [howner, bind_eq_ok, lift_eq_ok] at h
    obtain ⟨generation, -, h⟩ := h
    cases generation with
    | none => simp at h
    | some generation =>
      simp only [ite_eq_iff] at h
      obtain ⟨-, h⟩ | ⟨-, h⟩ := h
      · cases h
        exact ⟨hother, rfl⟩
      · cases h

/-- A page that no live tree of `owner` occupies: a retirement marker or a page
of another owner. -/
def Reusable (s : Store) (owner : Option Nat) (id : Nat) : Prop :=
  ∃ page, s.pages[id]? = some page ∧ page ≠ .other ∧
    (isRetired page = true ∨ page.owner ≠ owner)

/-- The two ways an allocation gets its page. -/
inductive Took (s : Store) (owner : Option Nat) (alloc alloc' : Allocator)
    (page : NewBTreePage) : Prop where
  | fresh (hpublication : page.publication = .newPage)
      (hpage : page.reference.pageId = alloc.nextPageId)
      (hnext : alloc'.nextPageId = alloc.nextPageId + 1)
      (hclaimed : alloc'.claimed = alloc.claimed)
  | reused (hpublication : page.publication = .transition)
      (hpage : Reusable s owner page.reference.pageId)
      (hunclaimed : page.reference.pageId ∉ alloc.claimed)
      (hnext : alloc'.nextPageId = alloc.nextPageId)
      (hclaimed : alloc'.claimed = page.reference.pageId :: alloc.claimed)

lemma claimReusable_eq_ok {owner : Nat} {claimed : List Nat} {id' : Nat}
    (h : claimReusable s owner claimed id = .ok id') :
    id' = id ∧ id ∉ claimed ∧ Reusable s (some owner) id := by
  simp only [claimReusable] at h
  cases hpage : s.pages[id]? with
  | none => simp [hpage] at h
  | some page =>
    simp only [hpage, bind_eq_ok, check_eq_ok, pure_eq_ok] at h
    obtain ⟨⟨reference, actual⟩, hidentity, hclaimed, howner, rfl⟩ := h
    obtain ⟨hother, hactual⟩ := identity_eq_ok hidentity
    refine ⟨rfl, hclaimed, page, hpage, hother, ?_⟩
    cases hretired : isRetired page with
    | true => exact Or.inl rfl
    | false =>
      right
      rw [hactual]
      intro heq
      simp [hretired, Option.some.inj heq] at howner

lemma Allocator.reference_pageId (alloc : Allocator) (generated : Bool) (id : Nat) :
    (alloc.reference generated id).pageId = id := by
  cases generated <;> rfl

lemma Allocator.reference_generation (alloc : Allocator) (generated : Bool) (id : Nat) :
    (alloc.reference generated id).generation.isSome = generated := by
  cases generated <;> rfl

lemma claimGranted_eq_ok {alloc : Allocator}
    (h : claimGranted s alloc owner generated = .ok (some id)) :
    id ∉ alloc.claimed ∧ Reusable s owner id := by
  cases generated with
  | false => simp [claimGranted] at h
  | true =>
    simp only [claimGranted, if_true] at h
    cases owner with
    | none => simp at h
    | some owner =>
      cases hgrant : (alloc.grants alloc.taken).claim with
      | none => simp [hgrant] at h
      | some candidate =>
        simp only [hgrant, map_eq_ok, Option.some.injEq, exists_eq_right] at h
        obtain ⟨rfl, hunclaimed, hpage⟩ := claimReusable_eq_ok h
        exact ⟨hunclaimed, hpage⟩

lemma takePageRef_eq_ok {alloc alloc' : Allocator} {page : NewBTreePage}
    (h : takePageRef s alloc owner generated = .ok (page, alloc')) :
    page.reference.generation.isSome = generated ∧ Took s owner alloc alloc' page := by
  simp only [takePageRef, bind_eq_ok] at h
  obtain ⟨claim, hclaim, h⟩ := h
  cases claim with
  | none =>
    obtain ⟨rfl, rfl⟩ := h
    exact ⟨alloc.reference_generation .., .fresh rfl (alloc.reference_pageId ..) rfl rfl⟩
  | some id =>
    obtain ⟨hunclaimed, hpage⟩ := claimGranted_eq_ok hclaim
    obtain ⟨rfl, rfl⟩ := h
    have hid := alloc.reference_pageId generated id
    exact ⟨alloc.reference_generation .., .reused rfl (hid.symm ▸ hpage)
      (hid.symm ▸ hunclaimed) rfl (by rw [hid])⟩

def changedIds (changes : List PreparedPage) : List Nat :=
  changes.map (·.reference.pageId)

variable {s' : Store}

lemma publishPage_eq_ok (h : publishPage s change = .ok s')
    (htransition : change.publication = .transition → change.reference.pageId < s.pageCount) :
    s'.pages[change.reference.pageId]? = some change.image ∧ s.pageCount ≤ s'.pageCount ∧
      ∀ id, id ≠ change.reference.pageId → s'.pages[id]? = s.pages[id]? := by
  have hset : ∀ {t : Store}, change.reference.pageId < s.pageCount →
      t = { pages := s.pages.set change.reference.pageId change.image } →
      t.pages[change.reference.pageId]? = some change.image ∧ s.pageCount ≤ t.pageCount ∧
        ∀ id, id ≠ change.reference.pageId → t.pages[id]? = s.pages[id]? := by
    rintro t hlt rfl
    refine ⟨getElem?_set_self hlt, by simp [Store.pageCount], ?_⟩
    intro id hne
    exact getElem?_set_ne (Ne.symm hne)
  cases hpublication : change.publication with
  | newPage =>
    simp only [publishPage, hpublication] at h
    split_ifs at h with hcount
    simp only [pure_eq_ok] at h
    subst h
    rw [← hcount]
    refine ⟨by simp [Store.pageCount], by simp [Store.pageCount], ?_⟩
    intro id hne
    rcases Nat.lt_or_gt_of_ne hne with hlt | hgt
    · exact getElem?_append_left hlt
    · have hlen : s.pages.length < id := hgt
      rw [getElem?_eq_none (by simp; omega), getElem?_eq_none (by omega)]
  | transition =>
    simp only [publishPage, hpublication, pure_eq_ok] at h
    exact hset (htransition hpublication) h.symm
  | existing =>
    simp only [publishPage, hpublication, bind_eq_ok, pure_eq_ok] at h
    obtain ⟨page, hread, h⟩ := h
    refine hset ?_ h.symm
    by_contra hge
    have hnone : s.pages[change.reference.pageId]? = none := getElem?_eq_none (not_lt.mp hge)
    simp [readBTreePage, hnone] at hread

/-- What a published batch does to the file: every page of the batch holds its
new image, all others keep theirs. -/
structure Published (s s' : Store) (changes : List PreparedPage) : Prop where
  written : ∀ change ∈ changes, s'.pages[change.reference.pageId]? = some change.image
  frame : ∀ id, id ∉ changedIds changes → s'.pages[id]? = s.pages[id]?
  grows : s.pageCount ≤ s'.pageCount

variable {changes : List PreparedPage} {retired : List BTreePageRef}

lemma publishPages_eq_ok (h : publishPages s changes = (s', .ok ()))
    (hnodup : (changedIds changes).Nodup)
    (htransition : ∀ change ∈ changes, change.publication = .transition →
      change.reference.pageId < s.pageCount) : Published s s' changes := by
  induction changes generalizing s with
  | nil =>
    simp only [publishPages, Prod.mk.injEq, and_true] at h
    subst h
    exact ⟨by simp, fun _ _ => rfl, le_refl _⟩
  | cons change changes ih =>
    simp only [publishPages] at h
    cases hpage : publishPage s change with
    | error error => simp [hpage] at h
    | ok t =>
      simp only [hpage] at h
      obtain ⟨hnew, hgrow, hframe⟩ := publishPage_eq_ok hpage (htransition change mem_cons_self)
      obtain ⟨hnot, hnodup⟩ := nodup_cons.mp hnodup
      have hrest := ih h hnodup fun c hc hp =>
        lt_of_lt_of_le (htransition c (mem_cons_of_mem _ hc) hp) hgrow
      refine ⟨?_, ?_, hgrow.trans hrest.grows⟩
      · intro c hc
        rcases mem_cons.mp hc with rfl | hc
        · rw [hrest.frame _ hnot, hnew]
        · exact hrest.written c hc
      · intro id hid
        simp only [changedIds, map_cons, mem_cons, not_or] at hid
        rw [hrest.frame id hid.2, hframe id hid.1]

/-- Publishing puts the existing pages last, and loses none. -/
lemma publicationOrder_perm (changes : List PreparedPage) :
    (changes.filter (fun c => decide (c.publication ≠ .existing)) ++
      changes.filter (fun c => decide (c.publication = .existing))).Perm changes := by
  refine (filter_append_perm (fun c => decide (c.publication ≠ .existing))
    changes).symm.trans ?_ |>.symm
  simp

lemma applyChanges_eq_ok (h : applyChanges s changes = (s', .ok ()))
    (hnodup : (changedIds changes).Nodup) : Published s s' changes := by
  simp only [applyChanges] at h
  cases hlog : logChanges s changes with
  | error error => simp [hlog] at h
  | ok u =>
    simp only [hlog] at h
    have hperm := publicationOrder_perm changes
    have hids : (changedIds _).Perm (changedIds changes) := hperm.map _
    have hpublished := publishPages_eq_ok h (hids.nodup_iff.mpr hnodup) ?_
    · refine ⟨fun c hc => hpublished.written c (hperm.mem_iff.mpr hc), ?_, hpublished.grows⟩
      intro id hid
      exact hpublished.frame id fun hmem => hid (hids.mem_iff.mp hmem)
    intro change hmem hpublication
    have hone := (forM_eq_ok.mp hlog) change (hperm.mem_iff.mp hmem)
    simp only [hpublication] at hone
    by_contra hge
    have hnone : s.pages[change.reference.pageId]? = none := getElem?_eq_none (not_lt.mp hge)
    simp [hnone] at hone

lemma retirePages_eq_ok {owner : Nat} (h : retirePages s owner retired = (s', .ok ())) :
    s'.pageCount = s.pageCount ∧
      ∀ id, id ∉ retired.map BTreePageRef.pageId → s'.pages[id]? = s.pages[id]? := by
  induction retired generalizing s with
  | nil =>
    simp only [retirePages, Prod.mk.injEq, and_true] at h
    subst h
    exact ⟨rfl, fun _ _ => rfl⟩
  | cons reference retired ih =>
    cases reference with
    | legacy page =>
      obtain ⟨hcount, hframe⟩ := ih h
      refine ⟨hcount, fun id hid => hframe id ?_⟩
      simp only [map_cons, mem_cons, not_or] at hid
      exact hid.2
    | allocated reference =>
      simp only [retirePages] at h
      cases hone : retireBTreePageIn s reference owner with
      | error error => simp [hone] at h
      | ok t =>
        simp only [hone] at h
        obtain ⟨hcount, hframe⟩ := ih h
        simp only [retireBTreePageIn, bind_eq_ok, check_eq_ok, pure_eq_ok] at hone
        obtain ⟨before, -, -, -, _, -, -, _, -, rfl⟩ := hone
        refine ⟨by rw [hcount]; simp [Store.pageCount], ?_⟩
        intro id hid
        simp only [map_cons, mem_cons, not_or] at hid
        rw [hframe id hid.2]
        exact getElem?_set_ne (Ne.symm hid.1)

/-- A published batch followed by the retirement of unlinked pages. -/
lemma applyUnlinksAndRetire_eq_ok (h : applyUnlinksAndRetire s changes retired owner = (s', .ok ()))
    (hnodup : (changedIds changes).Nodup)
    (hdisjoint : ∀ page ∈ retired, page.pageId ∉ changedIds changes) :
    (∀ change ∈ changes, s'.pages[change.reference.pageId]? = some change.image) ∧
    (∀ id, id ∉ changedIds changes → id ∉ retired.map BTreePageRef.pageId →
      s'.pages[id]? = s.pages[id]?) ∧ s.pageCount ≤ s'.pageCount := by
  simp only [applyUnlinksAndRetire] at h
  cases happly : applyChanges s changes with
  | mk t outcome =>
    cases outcome with
    | error error => simp [happly] at h
    | ok u =>
      have hpublished := applyChanges_eq_ok happly hnodup
      simp only [happly] at h
      cases owner with
      | none =>
        simp only [Prod.mk.injEq, and_true] at h
        subst h
        exact ⟨hpublished.written, fun id hid _ => hpublished.frame id hid,
          hpublished.grows⟩
      | some owner =>
        obtain ⟨hcount, hframe⟩ := retirePages_eq_ok h
        refine ⟨?_, ?_, hcount ▸ hpublished.grows⟩
        · intro change hmem
          rw [hframe _ ?_, hpublished.written change hmem]
          intro hretired
          obtain ⟨page, hpage, hid⟩ := mem_map.mp hretired
          exact hdisjoint page hpage (hid ▸ mem_map_of_mem hmem)
        · intro id hid hretired
          rw [hframe id hretired, hpublished.frame id hid]

end Netbadb.BTree
