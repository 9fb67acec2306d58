import Netbadb.BTree.Update
import Netbadb.Index.NodeSpec
import Netbadb.Library.Fences

/-!
Trees of uniform height over page references. A tree of height `n` has `n`
levels of internal nodes above its leaves, so leaves at different depths
cannot be built. Read in order, a tree is a sequence of leaves with exactly
one fence between neighbours. Splitting, merging or rotating internal nodes
regroups that sequence and does not change it.

A context is a tree with one subtree taken out; it is the path of a descent
together with the siblings left and right of it.
-/

namespace Netbadb.BTree

open Fences List

structure LeafPage where
  ref : BTreePageRef
  node : LeafNode

/-- One internal page over subtrees of type `T`. -/
structure Branch (T : Type) where
  ref : BTreePageRef
  first : T
  rest : List (IndexEntryKey × T)

/-- A tree with `n` levels of internal nodes. -/
def Tree : Nat → Type
  | 0 => LeafPage
  | n + 1 => Branch (Tree n)

def Tree.ofLeaf (page : LeafPage) : Tree 0 := page

variable {n : Nat}

def Tree.ofBranch (b : Branch (Tree n)) : Tree (n + 1) := b

@[elab_as_elim]
lemma Tree.leafCases {motive : Tree 0 → Prop} (ofLeaf : ∀ page, motive (.ofLeaf page))
    (t : Tree 0) : motive t := ofLeaf t

@[elab_as_elim]
lemma Tree.branchCases {motive : Tree (n + 1) → Prop} (ofBranch : ∀ b, motive (.ofBranch b))
    (t : Tree (n + 1)) : motive t := ofBranch t

def rootRef : {n : Nat} → Tree n → BTreePageRef
  | 0, t => LeafPage.ref t
  | _ + 1, t => Branch.ref t

inductive Piece where
  | leaf (page : LeafPage)
  | fence (key : IndexEntryKey)

abbrev NodeImage := BTreePageRef × DeleteNode

namespace Branch

variable {T : Type}

/-- The internal node a branch stores, given the pages of its subtrees. -/
def node (root : T → BTreePageRef) (b : Branch T) : InternalNode :=
  { firstChild := root b.first
    separators := b.rest.map fun p => { key := p.1, rightChild := root p.2 } }

def pieces (f : T → List Piece) (b : Branch T) : List Piece :=
  f b.first ++ b.rest.flatMap fun p => .fence p.1 :: f p.2

def below (f : T → List NodeImage) (b : Branch T) : List NodeImage :=
  f b.first ++ b.rest.flatMap fun p => f p.2

/-- The leftmost of some children followed by `t`. -/
def headChild : List (T × IndexEntryKey) → T → T
  | [], t => t
  | (c, _) :: _, _ => c

/-- The children after the leftmost one, each with the fence on its left. -/
def linkChildren : List (T × IndexEntryKey) → T → List (IndexEntryKey × T)
  | [], _ => []
  | (_, k) :: before, t => (k, headChild before t) :: linkChildren before t

/-- A branch seen around its child `t`. -/
def assemble (ref : BTreePageRef) (before : List (T × IndexEntryKey)) (t : T)
    (post : List (IndexEntryKey × T)) : Branch T :=
  { ref, first := headChild before t, rest := linkChildren before t ++ post }

@[simp] lemma headChild_nil (t : T) : headChild [] t = t := rfl

@[simp] lemma headChild_cons (p : T × IndexEntryKey) (before : List (T × IndexEntryKey))
    (t : T) : headChild (p :: before) t = p.1 := rfl

@[simp] lemma linkChildren_nil (t : T) : linkChildren [] t = [] := rfl

@[simp] lemma linkChildren_cons (p : T × IndexEntryKey) (before : List (T × IndexEntryKey))
    (t : T) :
    linkChildren (p :: before) t = (p.2, headChild before t) :: linkChildren before t := rfl

@[simp] lemma assemble_ref (ref : BTreePageRef) (before : List (T × IndexEntryKey)) (t : T)
    (post : List (IndexEntryKey × T)) : (assemble ref before t post).ref = ref := rfl

section

variable (before : List (T × IndexEntryKey))

@[simp] lemma linkChildren_length (t : T) : (linkChildren before t).length = before.length := by
  induction before with
  | nil => rfl
  | cons p before ih => simp [ih]

lemma headChild_snoc (l t : T) (k : IndexEntryKey) :
    headChild (before ++ [(l, k)]) t = headChild before l := by
  cases before <;> rfl

lemma linkChildren_snoc (l t : T) (k : IndexEntryKey) :
    linkChildren (before ++ [(l, k)]) t = linkChildren before l ++ [(k, t)] := by
  induction before with
  | nil => rfl
  | cons p before ih => simp only [cons_append, linkChildren_cons, headChild_snoc, ih]

end

/-- Moving the focus one child to the left. -/
lemma assemble_snoc (ref : BTreePageRef) (before : List (T × IndexEntryKey)) (l t : T)
    (k : IndexEntryKey) (post : List (IndexEntryKey × T)) :
    assemble ref (before ++ [(l, k)]) t post = assemble ref before l ((k, t) :: post) := by
  simp only [assemble, headChild_snoc, linkChildren_snoc, append_assoc, singleton_append]

def focus : Nat → Branch T → List (T × IndexEntryKey) × T × List (IndexEntryKey × T)
  | 0, b => ([], b.first, b.rest)
  | _ + 1, ⟨_, first, []⟩ => ([], first, [])
  | i + 1, ⟨ref, first, (k, c) :: rest⟩ =>
    let inner := focus i ⟨ref, c, rest⟩
    ((first, k) :: inner.1, inner.2)

lemma assemble_focus (i : Nat) (b : Branch T) :
    assemble b.ref (b.focus i).1 (b.focus i).2.1 (b.focus i).2.2 = b := by
  obtain ⟨ref, first, rest⟩ := b
  induction i generalizing first rest with
  | zero => rfl
  | succ i ih =>
    cases rest with
    | nil => rfl
    | cons p rest =>
      have hinner := ih p.2 rest
      simp only [assemble, mk.injEq, true_and] at hinner
      simp only [focus, assemble, headChild_cons, linkChildren_cons, cons_append, hinner]

lemma focus_length {i : Nat} {b : Branch T} (hi : i ≤ b.rest.length) :
    (b.focus i).1.length = i := by
  obtain ⟨ref, first, rest⟩ := b
  induction i generalizing first rest with
  | zero => rfl
  | succ i ih =>
    cases rest with
    | nil => simp at hi
    | cons p rest =>
      have hinner := ih p.2 rest (by simpa using hi)
      simp only [focus, length_cons, hinner]

def leftPieces (f : T → List Piece) (before : List (T × IndexEntryKey)) : List Piece :=
  before.flatMap fun p => f p.1 ++ [.fence p.2]

def rightPieces (f : T → List Piece) (post : List (IndexEntryKey × T)) : List Piece :=
  post.flatMap fun p => .fence p.1 :: f p.2

lemma pieces_assemble (f : T → List Piece) (ref : BTreePageRef)
    (before : List (T × IndexEntryKey)) (t : T) (post : List (IndexEntryKey × T)) :
    (assemble ref before t post).pieces f =
      leftPieces f before ++ f t ++ rightPieces f post := by
  have hleft : f (headChild before t) ++
      ((linkChildren before t).flatMap fun p => .fence p.1 :: f p.2) =
        leftPieces f before ++ f t := by
    induction before with
    | nil => simp [leftPieces]
    | cons p before ih =>
      simp only [leftPieces] at ih
      simp [leftPieces, ih]
  simp only [pieces, assemble, flatMap_append, ← append_assoc, hleft]
  rfl

lemma below_assemble (f : T → List NodeImage) (ref : BTreePageRef)
    (before : List (T × IndexEntryKey)) (t : T) (post : List (IndexEntryKey × T)) :
    (assemble ref before t post).below f =
      (before.flatMap fun p => f p.1) ++ f t ++ post.flatMap fun p => f p.2 := by
  have hleft : f (headChild before t) ++ ((linkChildren before t).flatMap fun p => f p.2) =
      (before.flatMap fun p => f p.1) ++ f t := by
    induction before with
    | nil => simp
    | cons p before ih => simp [ih]
  simp only [below, assemble, flatMap_append, ← append_assoc, hleft]

def separator (root : T → BTreePageRef) (p : IndexEntryKey × T) : InternalSeparator :=
  { key := p.1, rightChild := root p.2 }

lemma node_assemble (root : T → BTreePageRef) (ref : BTreePageRef)
    (before : List (T × IndexEntryKey)) (t : T) (post : List (IndexEntryKey × T)) :
    (assemble ref before t post).node root =
      { firstChild := root (headChild before t)
        separators := (linkChildren before t).map (separator root) ++
          post.map (separator root) } := by
  simp only [node, assemble, map_append]
  rfl

/-- The node of a branch sees its focused child only through its page. -/
lemma node_assemble_congr {root : T → BTreePageRef} {ref : BTreePageRef} (ref' : BTreePageRef)
    {before : List (T × IndexEntryKey)} {t t' : T} {post : List (IndexEntryKey × T)}
    (h : root t = root t') :
    (assemble ref before t post).node root = (assemble ref' before t' post).node root := by
  have hhead : root (headChild before t) = root (headChild before t') := by
    cases before with
    | nil => exact h
    | cons p before => rfl
  have hlink : (linkChildren before t).map (separator root) =
      (linkChildren before t').map (separator root) := by
    clear hhead
    induction before with
    | nil => rfl
    | cons p before ih =>
      have hnext : root (headChild before t) = root (headChild before t') := by
        cases before with
        | nil => exact h
        | cons p before => rfl
      simp only [linkChildren_cons, map_cons, separator, hnext, ih]
  rw [node_assemble, node_assemble, hhead, hlink]

end Branch

open Branch

def pieces : {n : Nat} → Tree n → List Piece
  | 0, t => [.leaf t]
  | _ + 1, t => Branch.pieces pieces t

def images : {n : Nat} → Tree n → List NodeImage
  | 0, t => [(LeafPage.ref t, .leaf (LeafPage.node t))]
  | _ + 1, t => (ref t, .internal (node rootRef t)) :: below images t

def rootNode : {n : Nat} → Tree n → DeleteNode
  | 0, t => .leaf (LeafPage.node t)
  | _ + 1, t => .internal (node rootRef t)

def Tree.leafNode (t : Tree 0) : LeafNode := LeafPage.node t

def Tree.internalNode (t : Tree (n + 1)) : InternalNode := node rootRef t

def belowImages : {n : Nat} → Tree n → List NodeImage
  | 0, _ => []
  | _ + 1, t => below images t

lemma rootNode_zero (t : Tree 0) : rootNode t = .leaf t.leafNode := rfl

lemma rootNode_succ (t : Tree (n + 1)) : rootNode t = .internal t.internalNode := rfl

@[simp] lemma leafNode_ofLeaf (page : LeafPage) : (Tree.ofLeaf page).leafNode = page.node := rfl

@[simp] lemma internalNode_ofBranch (b : Branch (Tree n)) :
    (Tree.ofBranch b).internalNode = b.node rootRef := rfl

@[simp] lemma rootRef_ofLeaf (page : LeafPage) : rootRef (.ofLeaf page) = page.ref := rfl

@[simp] lemma rootRef_ofBranch (b : Branch (Tree n)) : rootRef (.ofBranch b) = b.ref := rfl

@[simp] lemma pieces_ofLeaf (page : LeafPage) : pieces (.ofLeaf page) = [.leaf page] := rfl

@[simp] lemma pieces_ofBranch (b : Branch (Tree n)) : pieces (.ofBranch b) = b.pieces pieces := rfl

@[simp] lemma images_ofLeaf (page : LeafPage) :
    images (.ofLeaf page) = [(page.ref, .leaf page.node)] := rfl

@[simp] lemma images_ofBranch (b : Branch (Tree n)) :
    images (.ofBranch b) = (b.ref, .internal (b.node rootRef)) :: b.below images := rfl

lemma images_eq (t : Tree n) : images t = (rootRef t, rootNode t) :: belowImages t := by
  cases n <;> rfl

def pageIds (t : Tree n) : List Nat := (images t).map (·.1.pageId)

def Piece.cells : Piece → List (Cell IndexEntryKey)
  | .leaf page => page.node.entries.map .item
  | .fence key => [.fence key]

def Piece.leaf? : Piece → Option LeafPage
  | .leaf page => some page
  | .fence _ => none

def cellsOf (ps : List Piece) : List (Cell IndexEntryKey) := ps.flatMap Piece.cells

def leavesOf (ps : List Piece) : List LeafPage := ps.filterMap Piece.leaf?

def entriesOf (t : Tree n) : List IndexEntryKey := items (cellsOf (pieces t))

def leaves (t : Tree n) : List LeafPage := leavesOf (pieces t)

@[simp] lemma cellsOf_nil : cellsOf [] = [] := rfl

@[simp] lemma cellsOf_append (l r : List Piece) :
    cellsOf (l ++ r) = cellsOf l ++ cellsOf r := flatMap_append

@[simp] lemma cellsOf_leaf_cons (page : LeafPage) (ps : List Piece) :
    cellsOf (.leaf page :: ps) = page.node.entries.map .item ++ cellsOf ps := rfl

@[simp] lemma cellsOf_fence_cons (key : IndexEntryKey) (ps : List Piece) :
    cellsOf (.fence key :: ps) = .fence key :: cellsOf ps := rfl

@[simp] lemma leavesOf_nil : leavesOf [] = [] := rfl

@[simp] lemma leavesOf_append (l r : List Piece) :
    leavesOf (l ++ r) = leavesOf l ++ leavesOf r := filterMap_append

@[simp] lemma leavesOf_leaf_cons (page : LeafPage) (ps : List Piece) :
    leavesOf (.leaf page :: ps) = page :: leavesOf ps := rfl

@[simp] lemma leavesOf_fence_cons (key : IndexEntryKey) (ps : List Piece) :
    leavesOf (.fence key :: ps) = leavesOf ps := rfl

lemma items_cellsOf (ps : List Piece) :
    items (cellsOf ps) = (leavesOf ps).flatMap (·.node.entries) := by
  induction ps with
  | nil => rfl
  | cons p ps ih =>
    cases p with
    | leaf page | fence key => simp [ih]

/-- A tree with one subtree of height `n` taken out. -/
inductive Ctx : Nat → Nat → Type where
  | top {n : Nat} : Ctx n n
  | up {n m : Nat} (ref : BTreePageRef) (before : List (Tree n × IndexEntryKey))
      (post : List (IndexEntryKey × Tree n)) (outer : Ctx (n + 1) m) : Ctx n m

namespace Ctx

def plug : {n m : Nat} → Ctx n m → Tree n → Tree m
  | _, _, .top, t => t
  | _, _, .up ref before post outer, t => outer.plug (.ofBranch (assemble ref before t post))

def left : {n m : Nat} → Ctx n m → List Piece
  | _, _, .top => []
  | _, _, .up _ before _ outer => outer.left ++ leftPieces pieces before

def right : {n m : Nat} → Ctx n m → List Piece
  | _, _, .top => []
  | _, _, .up _ _ post outer => rightPieces pieces post ++ outer.right

/-- The pages of a context around the subtree `t`. -/
def frames : {n m : Nat} → Ctx n m → Tree n → List NodeImage
  | _, _, .top, _ => []
  | n, _, .up ref before post outer, t =>
    let branch : Branch (Tree n) := assemble ref before t post
    outer.frames (.ofBranch branch) ++ (ref, .internal (branch.node rootRef)) ::
      ((before.flatMap fun p => images p.1) ++ post.flatMap fun p => images p.2)

variable {m : Nat}

lemma pieces_plug (c : Ctx n m) (t : Tree n) :
    pieces (c.plug t) = c.left ++ pieces t ++ c.right := by
  induction c with
  | top => simp [plug, left, right]
  | up ref before post outer ih =>
    rw [plug, ih, pieces_ofBranch, pieces_assemble]
    simp [left, right]

lemma images_plug (c : Ctx n m) (t : Tree n) :
    (images (c.plug t)).Perm (c.frames t ++ images t) := by
  induction c with
  | top => exact Perm.refl _
  | up ref before post outer ih =>
    rw [plug]
    refine (ih _).trans ?_
    rw [images_ofBranch, below_assemble, assemble_ref]
    simp only [frames, append_assoc, cons_append]
    refine Perm.append_left _ (Perm.cons _ ?_)
    refine Perm.append_left _ ?_
    exact perm_append_comm

/-- A context sees its subtree only through the page of its root. -/
lemma frames_congr (c : Ctx n m) {t t' : Tree n} (h : rootRef t = rootRef t') :
    c.frames t = c.frames t' := by
  induction c with
  | top => rfl
  | up ref before post outer ih =>
    have houter : outer.frames (.ofBranch (assemble ref before t post)) =
        outer.frames (.ofBranch (assemble ref before t' post)) := ih rfl
    have hnode : (assemble ref before t post).node rootRef =
        (assemble ref before t' post).node rootRef := node_assemble_congr ref h
    simp only [frames, houter, hnode]

end Ctx

end Netbadb.BTree
