import Netbadb.BTree.Tree
import Netbadb.BTree.Lookup
import Netbadb.BTree.StoreSpec

/-!
When a file represents a tree, and where descents end. A descent picks in each
node the child after the separators that satisfy some predicate. The predicate
is closed downwards, so the chosen leaf has all fences that satisfy it on its
left and all others on its right.
-/

namespace Netbadb.BTree

open Fences Outcome Branch List

/-- The page a leaf before `rest` must link to, when `after` follows. -/
def headRef : List LeafPage → Option BTreePageRef → Option BTreePageRef
  | [], after => after
  | page :: _, _ => some page.ref

/-- Every leaf links to its right neighbour and the last one to `after`. -/
def Linked : List LeafPage → Option BTreePageRef → Prop
  | [], _ => True
  | page :: rest, after => page.node.nextLeaf = headRef rest after ∧ Linked rest after

lemma headRef_append (l r : List LeafPage) (after : Option BTreePageRef) :
    headRef (l ++ r) after = headRef l (headRef r after) := by
  cases l <;> rfl

lemma linked_append {l r : List LeafPage} {after : Option BTreePageRef} :
    Linked (l ++ r) after ↔ Linked l (headRef r after) ∧ Linked r after := by
  induction l with
  | nil => simp [Linked]
  | cons page l ih => simp only [cons_append, Linked, headRef_append, ih, and_assoc]

/-- The file holds the tree `t` under a handle: every node on its page, each
page once, entries in order, and the leaves linked. -/
structure Represents (s : Store) (handle : BTreeHandle) (tree : MetaNode) {n : Nat}
    (t : Tree n) : Prop where
  header : s.pages[0]? = some .other
  metaStored : s.pages[handle.metaPage.pageId]? = some (.metaPage tree)
  metaNonzero : handle.metaPage.pageId ≠ 0
  metaEncodes : ∃ size, encodeMeta tree = .ok size
  owner : handle.owner = tree.owner
  generation : handle.metaPage.generation = tree.generation
  height : tree.height = n + 1
  root : tree.rootPage = rootRef t
  held : ∀ p ∈ images t, Held s tree p.1 p.2
  nodup : (handle.metaPage.pageId :: pageIds t).Nodup
  ordered : Ordered (cellsOf (pieces t))
  linked : Linked (leaves t) none
  nonempty : n ≠ 0 → ∀ page ∈ leaves t, page.node.entries ≠ []

variable {n : Nat}

lemma rootImage_mem (t : Tree n) : (rootRef t, rootNode t) ∈ images t := by
  rw [images_eq]
  exact mem_cons_self

variable {b : Branch (Tree n)} {t : Tree n} {tree : MetaNode} {s : Store} {T : Type}

lemma child_images_subset {before : List (Tree n × IndexEntryKey)}
    {post : List (IndexEntryKey × Tree n)} (hb : b = assemble b.ref before t post) :
    ∀ p ∈ images t, p ∈ images (.ofBranch b) := by
  intro p hp
  rw [hb, images_ofBranch, below_assemble]
  simp [hp]

/-- The pages a node points to are in the file when all its subtrees are. -/
lemma children_inFile (hheld : ∀ p ∈ images (.ofBranch b), Held s tree p.1 p.2) :
    InFile s (b.node rootRef).firstChild ∧
      ∀ separator ∈ (b.node rootRef).separators, InFile s separator.rightChild := by
  constructor
  · refine (hheld (rootRef b.first, rootNode b.first) ?_).inFile
    simp [below, rootImage_mem]
  intro separator hmem
  obtain ⟨p, hp, rfl⟩ := mem_map.mp hmem
  refine (hheld (rootRef p.2, rootNode p.2) ?_).inFile
  refine mem_cons_of_mem _ (mem_append_right _ ?_)
  exact mem_flatMap.mpr ⟨p, hp, rootImage_mem p.2⟩

lemma readInternal_root (hheld : ∀ p ∈ images (.ofBranch b), Held s tree p.1 p.2) :
    readInternal s b.ref tree = .ok (b.node rootRef) := by
  have hroot : Held s tree b.ref (.internal (b.node rootRef)) :=
    hheld _ (rootImage_mem (.ofBranch b))
  obtain ⟨hfirst, hrest⟩ := children_inFile hheld
  exact hroot.readInternal hfirst hrest

lemma linkChildren_keys (before : List (T × IndexEntryKey)) (t : T) :
    (linkChildren before t).map (·.1) = before.map (·.2) := by
  induction before with
  | nil => rfl
  | cons p before ih => simp [ih]

lemma child_assemble (root : T → BTreePageRef) (ref : BTreePageRef)
    (before : List (T × IndexEntryKey)) (t : T) (post : List (IndexEntryKey × T)) :
    ((assemble ref before t post).node root).child before.length =
      (validateRef (root t) >>= fun _ => pure (root t)) := by
  rw [node_assemble]
  rcases eq_nil_or_concat before with rfl | ⟨init, last, rfl⟩
  · simp [InternalNode.child]
  · rw [concat_eq_append, linkChildren_snoc]
    simp [InternalNode.child, separator]

/-- The path entries of a context around `t`, deepest first. -/
def Ctx.path : {n m : Nat} → Ctx n m → Tree n → List PathEntry
  | _, _, .top, _ => []
  | n, _, .up ref before post outer, t =>
    let branch : Branch (Tree n) := assemble ref before t post
    { page := ref, node := branch.node rootRef, childPosition := before.length } ::
      outer.path (.ofBranch branch)

/-- The child a predicate selects: the one after the separators satisfying it. -/
def select (p : IndexEntryKey → Bool) (b : Branch (Tree n)) :
    List (Tree n × IndexEntryKey) × Tree n × List (IndexEntryKey × Tree n) :=
  b.focus (partitionPoint (fun separator => p separator.key) (b.node rootRef).separators)

/-- Where a descent ends that selects by `p` in every node. -/
def locate (p : IndexEntryKey → Bool) : {n m : Nat} → Tree n → Ctx n m → Ctx 0 m × LeafPage
  | 0, _, t, c => (c, t)
  | n + 1, _, t, c =>
    let b : Branch (Tree n) := t
    locate p (select p b).2.1 (.up b.ref (select p b).1 (select p b).2.2 c)

variable {m : Nat}

section

variable (p : IndexEntryKey → Bool)

@[simp] lemma locate_ofLeaf {m : Nat} (page : LeafPage)
    (c : Ctx 0 m) : locate p (.ofLeaf page) c = (c, page) := rfl

lemma locate_ofBranch (b : Branch (Tree n)) (c : Ctx (n + 1) m) : locate p (.ofBranch b) c =
      locate p (select p b).2.1 (.up b.ref (select p b).1 (select p b).2.2 c) := rfl

lemma locate_plug (t : Tree n) (c : Ctx n m) :
    (locate p t c).1.plug (.ofLeaf (locate p t c).2) = c.plug t := by
  induction n with
  | zero => rfl
  | succ n ih =>
    cases t using Tree.branchCases with | ofBranch b => ?_
    rw [locate_ofBranch, ih, Ctx.plug, select, assemble_focus]

/-- All fences left of a context satisfy `p` and none on its right does. -/
structure Between (p : IndexEntryKey → Bool) {n m : Nat} (c : Ctx n m) : Prop where
  left : ∀ k ∈ fences (cellsOf c.left), p k = true
  right : ∀ k ∈ fences (cellsOf c.right), p k = false

/-- What a predicate selects in a branch. -/
lemma select_spec (b : Branch (Tree n)) :
    b = assemble b.ref (select p b).1 (select p b).2.1 (select p b).2.2 ∧
      (select p b).1.length =
        partitionPoint (fun separator => p separator.key) (b.node rootRef).separators ∧
      (∀ q ∈ (select p b).1, p q.2 = true) ∧
      ∀ q, (select p b).2.2.head? = some q → p q.1 = false := by
  have hassemble := (assemble_focus (partitionPoint (fun separator => p separator.key)
    (b.node rootRef).separators) b).symm
  have hlength := focus_length (b := b) (i := partitionPoint (fun separator => p separator.key)
    (b.node rootRef).separators) (by
      have := partitionPoint_le (fun separator => p separator.key) (b.node rootRef).separators
      simpa [node] using this)
  change b = assemble b.ref (select p b).1 (select p b).2.1 (select p b).2.2 at hassemble
  change (select p b).1.length = _ at hlength
  refine ⟨hassemble, hlength, ?_⟩
  generalize select p b = chosen at hassemble hlength ⊢
  obtain ⟨before, t, post⟩ := chosen
  have hseparators : (b.node rootRef).separators =
      (linkChildren before t).map (separator rootRef) ++ post.map (separator rootRef) := by
    conv_lhs => rw [hassemble, node_assemble]
  have htake := take_partitionPoint (fun separator => p separator.key) (b.node rootRef).separators
  have hdrop := drop_partitionPoint (fun separator => p separator.key) (b.node rootRef).separators
  rw [← hlength, hseparators, ← linkChildren_length before t,
    ← length_map (separator rootRef)] at htake hdrop
  rw [take_left] at htake
  rw [drop_left] at hdrop
  constructor
  · intro q hq
    have hkey : q.2 ∈ (linkChildren before t).map (·.1) := by
      rw [linkChildren_keys]
      exact mem_map_of_mem hq
    obtain ⟨r, hr, hrq⟩ := mem_map.mp hkey
    have hmem : separator rootRef r ∈ (linkChildren before t).map (separator rootRef) :=
      mem_map_of_mem hr
    rw [htake] at hmem
    have := mem_takeWhile_imp hmem
    rwa [separator, hrq] at this
  · intro q hq
    have hhead : (post.map (separator rootRef)).head? = some (separator rootRef q) := by
      rw [head?_map, hq]
      rfl
    rw [hdrop] at hhead
    have := head?_dropWhile_not (fun separator : InternalSeparator => p separator.key)
      ((linkChildren before t).map (separator rootRef) ++ post.map (separator rootRef))
    rw [hhead] at this
    simpa [separator] using this

end

variable {p : IndexEntryKey → Bool} {entry k : IndexEntryKey}

section

variable (hdown : ∀ a b, a ≤ b → p b = true → p a = true)
include hdown

/-- The left siblings of a selected child are closed by a fence that satisfies
the predicate, and all their other fences are below it. -/
lemma leftPieces_fences {before : List (Tree n × IndexEntryKey)}
    (hordered : Ordered (cellsOf (leftPieces pieces before)))
    (hbefore : ∀ q ∈ before, p q.2 = true) :
    ∀ k ∈ fences (cellsOf (leftPieces pieces before)), p k = true := by
  rcases eq_nil_or_concat before with rfl | ⟨init, last, rfl⟩
  · simp [leftPieces]
  have hcells : cellsOf (leftPieces pieces (init.concat last)) =
      cellsOf (leftPieces pieces init ++ pieces last.1) ++ [.fence last.2] := by
    simp [leftPieces, concat_eq_append, flatMap_append]
  rw [hcells] at hordered ⊢
  intro k hk
  exact hdown k last.2 (hordered.fences_le_last k hk) (hbefore last (by simp))

lemma rightPieces_fences
    {post : List (IndexEntryKey × Tree n)} (hordered : Ordered (cellsOf (rightPieces pieces post)))
    (hpost : ∀ q, post.head? = some q → p q.1 = false) :
    ∀ k ∈ fences (cellsOf (rightPieces pieces post)), p k = false := by
  cases post with
  | nil => simp [rightPieces]
  | cons q post =>
    intro k hk
    have hq := hpost q rfl
    have hle : q.1 ≤ k := hordered.head_le_fences k hk
    cases hpk : p k with
    | false => rfl
    | true => rw [hdown q.1 k hle hpk] at hq; cases hq

lemma locate_between {c : Ctx n m} (hordered : Ordered (cellsOf (pieces t))) (hc : Between p c) :
    Between p (locate p t c).1 := by
  induction n with
  | zero => exact hc
  | succ n ih =>
    cases t using Tree.branchCases with | ofBranch b => ?_
    obtain ⟨hb, -, hbefore, hpost⟩ := select_spec p b
    rw [pieces_ofBranch, hb, pieces_assemble, cellsOf_append, cellsOf_append] at hordered
    obtain ⟨hleft, hright, -⟩ := ordered_append.mp hordered
    obtain ⟨hleft, hchild, -⟩ := ordered_append.mp hleft
    refine ih hchild ⟨?_, ?_⟩
    · intro k hk
      rw [Ctx.left, cellsOf_append, fences_append, mem_append] at hk
      exact hk.elim (hc.left k) (leftPieces_fences hdown hleft hbefore k)
    · intro k hk
      rw [Ctx.right, cellsOf_append, fences_append, mem_append] at hk
      exact hk.elim (rightPieces_fences hdown hright hpost k) (hc.right k)

end

/-- `find_leaf_for_entry` selects by the separators that are not above the
entry. -/
def upTo (entry : IndexEntryKey) (k : IndexEntryKey) : Bool := compareEntryKeys entry k != .lt

lemma upTo_eq_true : upTo entry k = true ↔ k ≤ entry := by
  simp [upTo, compareEntryKeys_eq_lt]

/-- `find_leaf_for_key` selects by the separators with a smaller key. -/
def belowKey (key : ScalarValue) (k : IndexEntryKey) : Bool := compareKeyToEntry key k == .gt

lemma belowKey_eq_true {key : ScalarValue} : belowKey key k = true ↔ k.key < key := by
  simp [belowKey, compareKeyToEntry, compareValues_eq_gt]

section Descents

lemma readChild {b : Branch (Tree n)} {before : List (Tree n × IndexEntryKey)}
    {post : List (IndexEntryKey × Tree n)} (hb : b = assemble b.ref before t post)
    (hheld : ∀ p ∈ images (.ofBranch b), Held s tree p.1 p.2) :
    (b.node rootRef).child before.length = .ok (rootRef t) ∧
      validateChild s (rootRef t) = .ok () := by
  have hroot : Held s tree (rootRef t) (rootNode t) :=
    hheld _ (child_images_subset hb _ (rootImage_mem t))
  refine ⟨?_, validateChild_eq_ok.mpr hroot.inFile⟩
  rw [hb, child_assemble, hroot.fits.validateRef]
  rfl

variable {c : Ctx n m}

lemma descendForEntry_eq (entry : IndexEntryKey) (hheld : ∀ p ∈ images t, Held s tree p.1 p.2) :
    ∃ path, descendForEntry s tree entry n (rootRef t) =
        .ok ((locate (upTo entry) t c).2.ref, (locate (upTo entry) t c).2.node, path) ∧
      (locate (upTo entry) t c).1.path (.ofLeaf (locate (upTo entry) t c).2) =
        path.reverse ++ c.path t := by
  induction n with
  | zero =>
    cases t using Tree.leafCases with | ofLeaf page => ?_
    have hread : readLeaf s page.ref tree = .ok page.node :=
      (hheld (page.ref, .leaf page.node) (by simp)).readLeaf
    exact ⟨[], by simp [descendForEntry, hread, ok_bind, pure_ok], rfl⟩
  | succ n ih =>
    cases t using Tree.branchCases with | ofBranch b => ?_
    obtain ⟨hb, hlength, -, -⟩ := select_spec (upTo entry) b
    obtain ⟨hchild, hvalid⟩ := readChild hb hheld
    have hread := readInternal_root hheld
    have hposition : (b.node rootRef).childPosition entry = (select (upTo entry) b).1.length :=
      hlength.symm
    obtain ⟨path, hdescend, hpath⟩ := ih (t := (select (upTo entry) b).2.1)
      (c := .up b.ref (select (upTo entry) b).1 (select (upTo entry) b).2.2 c)
      fun p hp => hheld p (child_images_subset hb p hp)
    refine ⟨⟨b.ref, b.node rootRef, (select (upTo entry) b).1.length⟩ :: path, ?_, ?_⟩
    · simp only [descendForEntry, rootRef_ofBranch, hread, hposition, hchild, hvalid, hdescend,
        lift, locate_ofBranch, ok_bind, pure_ok]
    · rw [locate_ofBranch, hpath, Ctx.path, ← hb]
      simp

lemma descendForKey_eq (key : ScalarValue) (hheld : ∀ p ∈ images t, Held s tree p.1 p.2) :
    descendForKey s tree key n (rootRef t) = .ok (locate (belowKey key) t c).2.ref := by
  induction n with
  | zero =>
    cases t using Tree.leafCases with | ofLeaf page => ?_
    have hread : readLeaf s page.ref tree = .ok page.node :=
      (hheld (page.ref, .leaf page.node) (by simp)).readLeaf
    simp [descendForKey, hread, ok_bind, pure_ok]
  | succ n ih =>
    cases t using Tree.branchCases with | ofBranch b => ?_
    obtain ⟨hb, hlength, -, -⟩ := select_spec (belowKey key) b
    obtain ⟨hchild, hvalid⟩ := readChild hb hheld
    have hread := readInternal_root hheld
    have hposition : partitionPoint
        (fun separator => compareKeyToEntry key separator.key == .gt)
        (b.node rootRef).separators = (select (belowKey key) b).1.length := hlength.symm
    have hdescend := ih (t := (select (belowKey key) b).2.1)
      (c := .up b.ref (select (belowKey key) b).1 (select (belowKey key) b).2.2 c)
      fun p hp => hheld p (child_images_subset hb p hp)
    simp only [descendForKey, rootRef_ofBranch, hread, hposition, hchild, hvalid, hdescend,
      lift, locate_ofBranch, ok_bind]

lemma descendLeftmost_eq (hheld : ∀ p ∈ images t, Held s tree p.1 p.2) :
    descendLeftmost s tree n (rootRef t) = .ok (locate (fun _ => false) t c).2.ref := by
  induction n with
  | zero =>
    cases t using Tree.leafCases with | ofLeaf page => ?_
    have hread : readLeaf s page.ref tree = .ok page.node :=
      (hheld (page.ref, .leaf page.node) (by simp)).readLeaf
    simp [descendLeftmost, hread, ok_bind, pure_ok]
  | succ n ih =>
    cases t using Tree.branchCases with | ofBranch b => ?_
    obtain ⟨hb, -, hbefore, -⟩ := select_spec (fun _ => false) b
    obtain ⟨-, hvalid⟩ := readChild hb hheld
    have hread := readInternal_root hheld
    have hnil : (select (fun _ => false) b).1 = [] :=
      eq_nil_iff_forall_not_mem.mpr fun q hq => Bool.false_ne_true (hbefore q hq)
    have hfirst : (b.node rootRef).firstChild = rootRef (select (fun _ => false) b).2.1 := by
      conv_lhs => rw [hb, node_assemble, hnil]
      rfl
    have hdescend := ih (t := (select (fun _ => false) b).2.1)
      (c := .up b.ref (select (fun _ => false) b).1 (select (fun _ => false) b).2.2 c)
      fun p hp => hheld p (child_images_subset hb p hp)
    simp only [descendLeftmost, rootRef_ofBranch, hread, hfirst, hvalid, hdescend,
      locate_ofBranch, ok_bind]

end Descents

lemma length_images (t : Tree n) : n + 1 ≤ (images t).length := by
  induction n with
  | zero => cases t using Tree.leafCases with | ofLeaf page => simp
  | succ n ih =>
    cases t using Tree.branchCases with | ofBranch b => ?_
    have hfirst := ih b.first
    simp only [images_ofBranch, below, length_cons, length_append]
    omega

lemma closed_leftPieces (before : List (Tree n × IndexEntryKey)) :
    Closed (cellsOf (leftPieces pieces before)) := by
  rcases eq_nil_or_concat before with rfl | ⟨init, last, rfl⟩
  · exact Or.inl rfl
  · refine Or.inr ⟨cellsOf (leftPieces pieces init ++ pieces last.1), last.2, ?_⟩
    simp [leftPieces, concat_eq_append, flatMap_append]

lemma opened_rightPieces (post : List (IndexEntryKey × Tree n)) :
    Opened (cellsOf (rightPieces pieces post)) := by
  cases post with
  | nil => exact Or.inl rfl
  | cons q post => exact Or.inr ⟨q.1, cellsOf (pieces q.2 ++ rightPieces pieces post), rfl⟩

lemma Ctx.closed_left (c : Ctx n m) : Closed (cellsOf c.left) := by
  induction c with
  | top => exact Or.inl rfl
  | up ref before post outer ih =>
    rw [Ctx.left, cellsOf_append]
    exact ih.append (closed_leftPieces before)

lemma Ctx.opened_right (c : Ctx n m) : Opened (cellsOf c.right) := by
  induction c with
  | top => exact Or.inl rfl
  | up ref before post outer ih =>
    rw [Ctx.right, cellsOf_append]
    exact (opened_rightPieces post).append ih

/-- The leaf of a tree that an entry belongs to: every cell on its left may
stand before the entry, every cell on its right after it. -/
structure LeafFor {n : Nat} (t : Tree n) (entry : IndexEntryKey) (c : Ctx 0 n)
    (page : LeafPage) : Prop where
  plug : c.plug (.ofLeaf page) = t
  left : ∀ x ∈ cellsOf c.left, x.Before (.item entry)
  right : ∀ x ∈ cellsOf c.right, Cell.Before (.item entry) x

lemma cellsOf_plug (c : Ctx 0 n) (page : LeafPage) : cellsOf (pieces (c.plug (.ofLeaf page))) =
      cellsOf c.left ++ page.node.entries.map .item ++ cellsOf c.right := by
  rw [Ctx.pieces_plug]
  simp

lemma entriesOf_plug (c : Ctx 0 n) (page : LeafPage) : entriesOf (c.plug (.ofLeaf page)) =
      items (cellsOf c.left) ++ page.node.entries ++ items (cellsOf c.right) := by
  rw [entriesOf, cellsOf_plug]
  simp

lemma leaves_plug (c : Ctx 0 n) (page : LeafPage) :
    leaves (c.plug (.ofLeaf page)) = leavesOf c.left ++ page :: leavesOf c.right := by
  rw [leaves, Ctx.pieces_plug]
  simp

/-- An entry is in a tree exactly when it is in the leaf it belongs to. -/
lemma LeafFor.mem_iff {c : Ctx 0 n} {page : LeafPage} (h : LeafFor t entry c page) :
    entry ∈ entriesOf t ↔ entry ∈ page.node.entries := by
  rw [← h.plug, entriesOf_plug, mem_append, mem_append]
  constructor
  · rintro ((hmem | hmem) | hmem)
    · exact absurd (h.left _ (mem_items.mp hmem)) (lt_irrefl entry)
    · exact hmem
    · exact absurd (h.right _ (mem_items.mp hmem)) (lt_irrefl entry)
  · exact fun hmem => Or.inl (Or.inr hmem)

namespace Represents

variable {handle : BTreeHandle}

section

variable (h : Represents s handle tree t)
include h

lemma ids_lt : ∀ id ∈ 0 :: handle.metaPage.pageId :: pageIds t, id < s.pageCount := by
  have hlt : ∀ {id : Nat} {page : PageImage}, s.pages[id]? = some page → id < s.pageCount :=
    fun hpage => (List.getElem?_eq_some_iff.mp hpage).1
  intro id hid
  rcases mem_cons.mp hid with rfl | hid
  · exact hlt h.header
  rcases mem_cons.mp hid with rfl | hid
  · exact hlt h.metaStored
  · obtain ⟨p, hp, rfl⟩ := mem_map.mp hid
    exact hlt (h.held p hp).stored

lemma ids_ne_zero : ∀ id ∈ pageIds t, id ≠ 0 := by
  intro id hid
  obtain ⟨p, hp, rfl⟩ := mem_map.mp hid
  exact (h.held p hp).fits.nonzero

/-- Every node has a page of its own, so a tree is lower than its file is
long. -/
lemma height_lt : tree.height < s.pageCount := by
  have hnodup : (0 :: handle.metaPage.pageId :: pageIds t).Nodup := by
    refine nodup_cons.mpr ⟨?_, h.nodup⟩
    rintro hzero
    rcases mem_cons.mp hzero with hzero | hzero
    · exact h.metaNonzero hzero.symm
    · exact h.ids_ne_zero 0 hzero rfl
  have hsubset : 0 :: handle.metaPage.pageId :: pageIds t ⊆ range s.pageCount :=
    fun id hid => mem_range.mpr (h.ids_lt id hid)
  have hlength := (subperm_of_subset hnodup hsubset).length_le
  have himages := length_images t
  have hheight := h.height
  simp only [length_cons, pageIds, length_map, length_range] at hlength
  omega

lemma root_held : Held s tree (rootRef t) (rootNode t) := h.held _ (rootImage_mem t)

lemma readMeta : BTree.readMeta s handle = .ok tree := by
  have hchild : validateChild s handle.metaPage = .ok () :=
    validateChild_eq_ok.mpr ⟨h.metaNonzero, h.ids_lt _ (by simp)⟩
  have hread : readBTreePage s handle.metaPage = .ok (.metaPage tree) :=
    readBTreePage_eq h.metaStored (by rw [h.generation]; rfl)
  have hvalid : validateMeta tree = .ok () := by
    obtain ⟨size, hsize⟩ := h.metaEncodes
    simp only [encodeMeta, bind_eq_ok] at hsize
    obtain ⟨_, hvalid, -⟩ := hsize
    exact hvalid
  have hroot : validateChild s tree.rootPage = .ok () := by
    rw [h.root]
    exact validateChild_eq_ok.mpr h.root_held.inFile
  have hheight : ¬ s.pageCount ≤ tree.height := not_le.mpr h.height_lt
  simp [BTree.readMeta, hchild, hread, hvalid, hroot, hheight, validateBTreeOwner,
    validateBTreeGeneration, h.owner, h.generation, lift, ok_bind, pure_ok]

lemma locate_top {p : IndexEntryKey → Bool} (hdown : ∀ a b, a ≤ b → p b = true → p a = true) :
    ∃ c page, locate p t .top = (c, page) ∧ c.plug (.ofLeaf page) = t ∧ Between p c ∧
      Ordered (cellsOf c.left) ∧ Ordered (cellsOf c.right) := by
  have hplug := locate_plug p t .top
  have hbetween := locate_between hdown h.ordered (c := .top)
    ⟨by simp [Ctx.left], by simp [Ctx.right]⟩
  have hordered := h.ordered
  generalize locate p t .top = chosen at hplug hbetween ⊢
  obtain ⟨c, page⟩ := chosen
  rw [Ctx.plug] at hplug
  rw [← hplug, cellsOf_plug] at hordered
  obtain ⟨hleft, hright, -⟩ := ordered_append.mp hordered
  obtain ⟨hleft, -, -⟩ := ordered_append.mp hleft
  exact ⟨c, page, rfl, hplug, hbetween, hleft, hright⟩

lemma findLeafForEntry (entry : IndexEntryKey) : ∃ c page, LeafFor t entry c page ∧
      BTree.findLeafForEntry s tree entry =
        .ok (page.ref, page.node, (c.path (.ofLeaf page)).reverse) := by
  obtain ⟨path, hdescend, hpath⟩ := descendForEntry_eq entry (c := .top) h.held
  obtain ⟨c, page, hlocate, hplug, hbetween, hleft, hright⟩ := h.locate_top (p := upTo entry)
    fun a b hab hb => upTo_eq_true.mpr (le_trans hab (upTo_eq_true.mp hb))
  rw [hlocate] at hdescend hpath
  refine ⟨c, page, ⟨hplug, ?_, ?_⟩, ?_⟩
  · exact hleft.left_before c.closed_left fun k hk => upTo_eq_true.mp (hbetween.left k hk)
  · refine hright.right_after c.opened_right fun k hk => ?_
    rw [← not_le, ← upTo_eq_true, hbetween.right k hk]
    exact Bool.false_ne_true
  · have hpath' : c.path (.ofLeaf page) = path.reverse ++ [] := hpath
    rw [hpath', append_nil, reverse_reverse]
    simpa [BTree.findLeafForEntry, h.height, h.root] using hdescend

/-- The first leaf that can hold a key: all entries on its left have smaller
keys. -/
lemma findLeafForKey (key : ScalarValue) :
    ∃ (c : Ctx 0 n) (page : LeafPage), c.plug (.ofLeaf page) = t ∧
      (∀ entry ∈ items (cellsOf c.left), entry.key < key) ∧
      BTree.findLeafForKey s tree key = .ok page.ref := by
  have hdescend := descendForKey_eq key (c := .top) h.held
  obtain ⟨c, page, hlocate, hplug, hbetween, hleft, -⟩ := h.locate_top (p := belowKey key)
    fun a b hab hb => belowKey_eq_true.mpr
      (lt_of_le_of_lt (IndexEntryKey.key_mono hab) (belowKey_eq_true.mp hb))
  rw [hlocate] at hdescend
  refine ⟨c, page, hplug, ?_, ?_⟩
  · intro entry hentry
    have hclosed := c.closed_left
    rcases hclosed with hnil | ⟨rest, k, hrest⟩
    · simp [hnil] at hentry
    have hk : k.key < key := belowKey_eq_true.mp (hbetween.left k (by rw [hrest]; simp))
    rw [hrest, items_append, mem_append] at hentry
    have hmem : Cell.item entry ∈ rest := by simpa using mem_items.mp (by simpa using hentry)
    rw [hrest] at hleft
    have hlt : entry < k := (ordered_append.mp hleft).2.2 _ hmem (.fence k) (by simp)
    exact lt_of_le_of_lt (IndexEntryKey.key_le_of_lt hlt) hk
  · simpa [BTree.findLeafForKey, h.height, h.root] using hdescend

lemma findLeftmostLeaf :
    ∃ (c : Ctx 0 n) (page : LeafPage), c.plug (.ofLeaf page) = t ∧ cellsOf c.left = [] ∧
      BTree.findLeftmostLeaf s tree = .ok page.ref := by
  have hdescend := descendLeftmost_eq (c := .top) h.held
  obtain ⟨c, page, hlocate, hplug, hbetween, -, -⟩ :=
    h.locate_top (p := fun _ => false) fun _ _ _ hb => hb
  rw [hlocate] at hdescend
  refine ⟨c, page, hplug, ?_, ?_⟩
  · rcases c.closed_left with hnil | ⟨rest, k, hrest⟩
    · exact hnil
    · exact absurd (hbetween.left k (by rw [hrest]; simp)) Bool.false_ne_true
  · simpa [BTree.findLeftmostLeaf, h.height, h.root] using hdescend

end

end Represents

end Netbadb.BTree
