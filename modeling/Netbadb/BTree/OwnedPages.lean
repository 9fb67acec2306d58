import Netbadb.BTree.LookupSpec

/-!
`collect_owned_pages` on a file that represents a tree. The pending pages are
the roots of a forest; one round takes the first tree and replaces it by its
children, so the loop visits the pages of the forest in order and never meets
one twice.
-/

namespace Netbadb.BTree

open Fences Outcome Branch List BTreePageRef

abbrev Forest := List ((n : Nat) × Tree n)

namespace Forest

variable (forest : Forest)

def images : List NodeImage := forest.flatMap fun t => BTree.images t.2

def pageIds : List Nat := (images forest).map (·.1.pageId)

def rootIds : List Nat := forest.map fun t => (rootRef t.2).pageId

def belowIds : List Nat :=
  forest.flatMap fun t => (belowImages t.2).map (·.1.pageId)

def leaves : List LeafPage := forest.flatMap fun t => BTree.leaves t.2

/-- The queue entries of a forest: every root with its height. -/
def pending : List (BTreePageRef × Nat) :=
  forest.map fun t => (rootRef t.2, t.1 + 1)

lemma pageIds_perm (forest : Forest) :
    (pageIds forest).Perm (rootIds forest ++ belowIds forest) := by
  induction forest with
  | nil => exact List.Perm.refl _
  | cons t forest ih =>
    have hids : pageIds (t :: forest) =
        (rootRef t.2).pageId :: ((belowImages t.2).map (·.1.pageId) ++ pageIds forest) := by
      simp [pageIds, images, images_eq t.2]
    rw [hids]
    refine List.Perm.cons _ ?_
    refine (ih.append_left _).trans ?_
    rw [← append_assoc]
    refine (perm_append_comm.append_right _).trans ?_
    rw [append_assoc]
    exact List.Perm.refl _

end Forest

def childrenOf {n : Nat} (b : Branch (Tree n)) : Forest :=
  ⟨n, b.first⟩ :: b.rest.map fun p => ⟨n, p.2⟩

variable {n : Nat} {tree : MetaNode} {s : Store}

lemma images_childrenOf (b : Branch (Tree n)) : Forest.images (childrenOf b) = b.below images := by
  simp [Forest.images, childrenOf, Branch.below, flatMap_map]

/-- Replacing a branch by its children drops exactly its own page. -/
lemma images_branch_cons (b : Branch (Tree n)) (forest : Forest) :
    Forest.images (⟨n + 1, .ofBranch b⟩ :: forest) =
      (b.ref, .internal (b.node rootRef)) :: Forest.images (childrenOf b ++ forest) := by
  simp only [Forest.images, flatMap_append, flatMap_cons, images_ofBranch]
  rw [← images_childrenOf]
  rfl

lemma leaves_childrenOf (b : Branch (Tree n)) :
    Forest.leaves (childrenOf b) = leaves (.ofBranch b) := by
  simp [Forest.leaves, childrenOf, leaves_ofBranch, flatMap_map]

/-- Queueing pages that nobody owns puts them in front, in reverse order. -/
lemma enqueueChildren_eq (height : Nat) (state : CollectState) {pages : List BTreePageRef}
    (hnodup : (pages.map pageId).Nodup) (hfree : ∀ page ∈ pages, page.pageId ∉ state.owned) :
    pages.foldlM (enqueueChild height) state = .ok { state with
      owned := (pages.map pageId).reverse ++ state.owned
      pending := (pages.map fun page => (page, height)).reverse ++ state.pending } := by
  induction pages generalizing state with
  | nil => rfl
  | cons page pages ih =>
    obtain ⟨hpage, hpages⟩ := nodup_cons.mp hnodup
    have hone : enqueueChild height state page = .ok { state with
        owned := page.pageId :: state.owned
        pending := (page, height) :: state.pending } := by
      simp [enqueueChild, hfree page mem_cons_self, pure, Except.pure]
    have hrest := ih { state with
        owned := page.pageId :: state.owned
        pending := (page, height) :: state.pending } hpages ?_
    · rw [foldlM_cons, hone]
      simpa [ok_bind] using hrest
    · intro other hother hmem
      rcases mem_cons.mp hmem with heq | hmem
      · exact hpage (heq ▸ mem_map_of_mem hother)
      · exact hfree other (mem_cons_of_mem page hother) hmem

/-- A state of the loop with the trees of `forest` still to visit. -/
structure Collecting (s : Store) (tree : MetaNode) (forest : Forest) (state : CollectState) :
    Prop where
  pending : state.pending = Forest.pending forest
  held : ∀ p ∈ Forest.images forest, Held s tree p.1 p.2
  nodup : (Forest.pageIds forest).Nodup
  free : ∀ id ∈ Forest.belowIds forest, id ∉ state.owned
  linked : Linked (Forest.leaves forest) none
  link : ∀ page next, state.previousLink = some (page, next) →
    next = headRef (Forest.leaves forest) none
  sorted : ((Forest.leaves forest).flatMap (·.node.entries)).Pairwise (· < ·)
  above : ∀ key, state.previousKey = some key →
    ∀ entry ∈ (Forest.leaves forest).flatMap (·.node.entries), key < entry

namespace Collecting

variable {forest : Forest} {state : CollectState}

/-- A leaf in front is visited and checked against the leaf before it. -/
lemma leaf {page : LeafPage} (h : Collecting s tree (⟨0, .ofLeaf page⟩ :: forest) state) :
    ∃ state', collectLeaf s tree page.ref { state with
        pending := Forest.pending forest
        pages := page.ref.pageId :: state.pages } = .ok state' ∧
      state'.pages = page.ref.pageId :: state.pages ∧ Collecting s tree forest state' := by
  have hread : readLeaf s page.ref tree = .ok page.node :=
    (h.held (page.ref, .leaf page.node) (by simp [Forest.images])).readLeaf
  have hleaves : Forest.leaves (⟨0, .ofLeaf page⟩ :: forest) = page :: Forest.leaves forest := rfl
  have hlinked := h.linked
  have hsorted := h.sorted
  rw [hleaves] at hlinked hsorted
  rw [flatMap_cons] at hsorted
  obtain ⟨-, hsorted', hlater⟩ := pairwise_append.mp hsorted
  have hnext : ∀ previous next, state.previousLink = some (previous, next) →
      next = some page.ref := h.link
  have horder : ∀ key first, state.previousKey = some key →
      page.node.entries.head? = some first → compareEntryKeys key first = .lt := by
    intro key first hkey hfirst
    apply compareEntryKeys_eq_lt.mpr
    apply h.above key hkey
    rw [hleaves, flatMap_cons]
    exact mem_append_left _ (mem_of_mem_head? hfirst)
  refine ⟨{ state with
    pending := Forest.pending forest
    pages := page.ref.pageId :: state.pages
    previousKey := page.node.entries.getLast?.or state.previousKey
    previousLink := some (page.ref, page.node.nextLeaf) }, ?_, rfl, ?_⟩
  · rcases hlink : state.previousLink with _ | ⟨previous, next⟩ <;>
      rcases hkey : state.previousKey with _ | key <;>
        rcases hfirst : page.node.entries.head? with _ | first
    all_goals
      simp_all [collectLeaf, ok_bind, pure_ok]
  · refine ⟨rfl, ?_, ?_, h.free, hlinked.2, ?_, hsorted', ?_⟩
    · intro p hp
      exact h.held p (mem_append_right _ hp)
    · exact (nodup_cons.mp h.nodup).2
    · intro previous next hlink
      simp only [Option.some.injEq, Prod.mk.injEq] at hlink
      rw [← hlink.2]
      exact hlinked.1
    · intro key hkey entry hentry
      cases hlast : page.node.entries.getLast? with
      | none =>
        simp only [hlast, Option.none_or] at hkey
        apply h.above key hkey
        rw [hleaves, flatMap_cons]
        exact mem_append_right _ hentry
      | some last =>
        simp only [hlast, Option.some_or, Option.some.injEq] at hkey
        subst hkey
        exact hlater last (mem_of_getLast? hlast) entry hentry

lemma internal {b : Branch (Tree n)}
    (h : Collecting s tree (⟨n + 1, .ofBranch b⟩ :: forest) state) :
    ∃ state', collectInternal s tree b.ref (n + 2) { state with
        pending := Forest.pending forest
        pages := b.ref.pageId :: state.pages } = .ok state' ∧
      state'.pages = b.ref.pageId :: state.pages ∧
      Collecting s tree (childrenOf b ++ forest) state' := by
  have himages := images_branch_cons b forest
  have hheld : ∀ p ∈ images (.ofBranch b), Held s tree p.1 p.2 := by
    intro p hp
    exact h.held p (mem_append_left _ hp)
  have hread := readInternal_root hheld
  have hnodup : (Forest.pageIds (childrenOf b ++ forest)).Nodup := by
    have := h.nodup
    rw [Forest.pageIds, himages] at this
    exact (nodup_cons.mp this).2
  set pages := (b.node rootRef).firstChild :: (b.node rootRef).separators.map (·.rightChild)
    with hpages
  have hroots : pages = (childrenOf b).map fun t => rootRef t.2 := by
    simp [hpages, childrenOf, Branch.node, Function.comp_def]
  have hrootIds : pages.map pageId = Forest.rootIds (childrenOf b) := by
    rw [hroots, map_map]
    rfl
  have hsplit := (Forest.pageIds_perm (childrenOf b ++ forest)).nodup_iff.mp hnodup
  have hrootAppend : Forest.rootIds (childrenOf b ++ forest) =
      Forest.rootIds (childrenOf b) ++ Forest.rootIds forest := map_append
  have hbelowAppend : Forest.belowIds (childrenOf b ++ forest) =
      Forest.belowIds (childrenOf b) ++ Forest.belowIds forest := flatMap_append
  have hbelow : Forest.belowIds (⟨n + 1, .ofBranch b⟩ :: forest) =
      Forest.pageIds (childrenOf b) ++ Forest.belowIds forest := by
    rw [Forest.pageIds, images_childrenOf]
    rfl
  have hrootsNodup : (pages.map pageId).Nodup := by
    rw [hrootIds]
    rw [hrootAppend] at hsplit
    exact hsplit.of_append_left.of_append_left
  have hrootsFree : ∀ page ∈ pages, page.pageId ∉ state.owned := by
    intro page hpage
    apply h.free
    rw [hbelow]
    refine mem_append_left _ ((Forest.pageIds_perm _).mem_iff.mpr ?_)
    rw [← hrootIds]
    exact mem_append_left _ (mem_map_of_mem hpage)
  have henqueue := enqueueChildren_eq (n + 1)
    { state with
      pending := Forest.pending forest
      pages := b.ref.pageId :: state.pages }
    (by rw [map_reverse]; exact nodup_reverse.mpr hrootsNodup)
    fun page hpage => hrootsFree page (mem_reverse.mp hpage)
  rw [map_reverse, map_reverse, reverse_reverse, reverse_reverse] at henqueue
  have hleaves : Forest.leaves (childrenOf b ++ forest) =
      Forest.leaves (⟨n + 1, .ofBranch b⟩ :: forest) := by
    rw [Forest.leaves, flatMap_append]
    change Forest.leaves (childrenOf b) ++ _ = _
    rw [leaves_childrenOf]
    rfl
  refine ⟨{ state with
    owned := pages.map pageId ++ state.owned
    pending := pages.map (fun page => (page, n + 1)) ++ Forest.pending forest
    pages := b.ref.pageId :: state.pages }, ?_, rfl, ?_⟩
  · simp only [collectInternal, hread, ok_bind]
    exact henqueue
  refine ⟨?_, ?_, hnodup, ?_, hleaves ▸ h.linked, hleaves ▸ h.link, hleaves ▸ h.sorted,
    hleaves ▸ h.above⟩
  · simp [hroots, Forest.pending, childrenOf, map_map, Function.comp_def]
  · intro p hp
    apply h.held
    rw [himages]
    exact mem_cons_of_mem _ hp
  · intro id hid hmem
    rcases mem_append.mp hmem with hmem | hmem
    · rw [hrootIds] at hmem
      refine (nodup_append.mp hsplit).2.2 id ?_ id hid rfl
      rw [hrootAppend]
      exact mem_append_left _ hmem
    · refine h.free id ?_ hmem
      rw [hbelow]
      rw [hbelowAppend] at hid
      rcases mem_append.mp hid with hid | hid
      · exact mem_append_left _ ((Forest.pageIds_perm _).mem_iff.mpr
          (mem_append_right _ hid))
      · exact mem_append_right _ hid

end Collecting

/-- By induction on the rounds: each takes one page off the forest. -/
lemma collectLoop_eq {forest : Forest} {state : CollectState} {rounds : Nat}
    (h : Collecting s tree forest state) (hrounds : (Forest.images forest).length < rounds) :
    ∃ pages, collectLoop s tree rounds state = .ok pages ∧
      pages.Perm (Forest.pageIds forest ++ state.pages) := by
  induction rounds generalizing forest state with
  | zero => omega
  | succ rounds ih =>
    have hpending := h.pending
    match forest, h, hrounds, hpending with
    | [], h, _, hpending =>
      refine ⟨state.pages, ?_, List.Perm.refl _⟩
      have hnil : state.pending = [] := hpending
      cases hlink : state.previousLink with
      | none => simp [collectLoop, hnil, hlink, pure, Except.pure]
      | some link =>
        obtain ⟨page, next⟩ := link
        obtain rfl : next = none := h.link page next hlink
        simp [collectLoop, hnil, hlink, pure, Except.pure]
    | ⟨0, t⟩ :: forest, h, hrounds, hpending =>
      cases t using Tree.leafCases with | ofLeaf page => ?_
      obtain ⟨state', hcollect, hpages, h'⟩ := h.leaf
      have hcons : state.pending = (page.ref, 1) :: Forest.pending forest := hpending
      obtain ⟨pages, hloop, hperm⟩ := ih h' (by
        simp only [Forest.images, flatMap_cons, length_append] at hrounds ⊢
        simp only [images_ofLeaf, length_singleton] at hrounds
        omega)
      refine ⟨pages, ?_, ?_⟩
      · simp only [collectLoop, hcons, if_true, hcollect, ok_bind]
        exact hloop
      · rw [hpages] at hperm
        exact hperm.trans perm_middle
    | ⟨n + 1, t⟩ :: forest, h, hrounds, hpending =>
      cases t using Tree.branchCases with | ofBranch b => ?_
      obtain ⟨state', hcollect, hpages, h'⟩ := h.internal
      have hcons : state.pending = (b.ref, n + 2) :: Forest.pending forest := hpending
      have himages := images_branch_cons b forest
      obtain ⟨pages, hloop, hperm⟩ := ih h' (by
        rw [himages, length_cons] at hrounds
        omega)
      refine ⟨pages, ?_, ?_⟩
      · have hheight : ¬ n + 2 = 1 := by omega
        simp only [collectLoop, hcons, hheight, if_false, hcollect, ok_bind]
        exact hloop
      · rw [hpages] at hperm
        refine hperm.trans ?_
        rw [Forest.pageIds, Forest.pageIds, himages]
        exact perm_middle

/-- On a represented tree that shares no page with `owned`, the collection
succeeds with the metadata page and every page of the tree, each once. -/
lemma Represents.collectOwnedPages {handle : BTreeHandle} {t : Tree n}
    (h : Represents s handle tree t) {owned : List Nat}
    (hfree : ∀ id ∈ handle.metaPage.pageId :: pageIds t, id ∉ owned) :
    ∃ pages, BTree.collectOwnedPages s handle owned = .ok pages ∧
      pages.Perm (handle.metaPage.pageId :: pageIds t) := by
  obtain ⟨hmeta, hnodup⟩ := nodup_cons.mp h.nodup
  have hids : pageIds t = (rootRef t).pageId :: (belowImages t).map (·.1.pageId) := by
    rw [pageIds, images_eq]
    rfl
  have hforest : Forest.pageIds [⟨n, t⟩] = pageIds t := by
    simp [Forest.pageIds, Forest.images, pageIds]
  have hleaves : Forest.leaves [⟨n, t⟩] = leaves t := by simp [Forest.leaves]
  have hbelow : Forest.belowIds [⟨n, t⟩] = (belowImages t).map (·.1.pageId) := by
    simp [Forest.belowIds]
  have hrun := h.leafRun
  have hstart : Collecting s tree [⟨n, t⟩]
      { pending := [(tree.rootPage, tree.height)]
        owned := tree.rootPage.pageId :: handle.metaPage.pageId :: owned
        pages := [handle.metaPage.pageId]
        previousLink := none
        previousKey := none } := by
    refine ⟨?_, ?_, hforest ▸ hnodup, ?_, hleaves ▸ h.linked, by simp, hleaves ▸ hrun.sorted,
      by simp⟩
    · rw [h.root, h.height]
      rfl
    · intro p hp
      exact h.held p (by simpa [Forest.images] using hp)
    intro id hid hmem
    rw [hbelow] at hid
    have hin : id ∈ pageIds t := hids ▸ mem_cons_of_mem _ hid
    rw [h.root] at hmem
    rcases mem_cons.mp hmem with rfl | hmem
    · exact (nodup_cons.mp (hids ▸ hnodup)).1 hid
    rcases mem_cons.mp hmem with rfl | hmem
    · exact hmeta hin
    · exact hfree id (mem_cons_of_mem _ hin) hmem
  have hcount : (Forest.images [⟨n, t⟩]).length < s.pageCount + 1 := by
    have hsubset : pageIds t ⊆ List.range s.pageCount :=
      fun id hid => mem_range.mpr (h.ids_lt id (by simp [hid]))
    have hlength := (subperm_of_subset hnodup hsubset).length_le
    simp only [pageIds, length_map, length_range] at hlength
    simpa [Forest.images] using Nat.lt_succ_of_le hlength
  obtain ⟨pages, hloop, hperm⟩ := collectLoop_eq hstart hcount
  refine ⟨pages, ?_, ?_⟩
  · have hrootMeta : tree.rootPage.pageId ∉ handle.metaPage.pageId :: owned := by
      have hroot : (rootRef t).pageId ∈ pageIds t := hids ▸ mem_cons_self
      rw [h.root]
      intro hmem
      rcases mem_cons.mp hmem with heq | hmem
      · exact hmeta (heq ▸ hroot)
      · exact hfree _ (mem_cons_of_mem _ hroot) hmem
    have hmetaFree := hfree _ mem_cons_self
    simp only [BTree.collectOwnedPages, h.readMeta, hmetaFree, hrootMeta, if_false, ok_bind]
    exact hloop
  · rw [hforest] at hperm
    exact hperm.trans (perm_append_comm)

end Netbadb.BTree
