import Netbadb.BTree.Store

/-!
Tree updates: creation, insertion with splits up to a new root, deletion with
merges up to a root collapse, and the normalization of a deletion path. An
update plans its batch of pages from the current file and publishes it at the
end. The result keeps the file next to the outcome, because a failed update
may already have published a part.
-/

namespace Netbadb.BTree

/-- One internal node of a descent and the child that was chosen. -/
structure PathEntry where
  page : BTreePageRef
  node : InternalNode
  childPosition : Nat
  deriving DecidableEq, Repr

inductive DeleteNode where
  | leaf (node : LeafNode)
  | internal (node : InternalNode)
  deriving DecidableEq, Repr

def DeleteNode.encodedLen (tree : MetaNode) : DeleteNode → Except IndexError Nat
  | .leaf node => leafEncodedLen tree.spec node tree.generation.isSome
  | .internal node => internalEncodedLen tree.spec node

variable (s : Store) (grants : Nat → PageGrant)

def startAllocator : Allocator :=
  { nextPageId := s.pageCount, claimed := [], grants, taken := 0 }

def commitPlan {α : Type} (s : Store) (plan : Except StorageError (List PreparedPage × α)) :
    Store × Except StorageError α :=
  match plan with
  | .error error => (s, .error error)
  | .ok (changes, value) =>
    match applyChanges s changes with
    | (s', .ok ()) => (s', .ok value)
    | (s', .error error) => (s', .error error)

def planCreate (spec : IndexSpec)
    (owner : Option Nat) : Except StorageError (List PreparedPage × BTreeHandle) := do
  let generated := owner.isSome
  let (metaAllocation, alloc) ← takePageRef s (startAllocator s grants) owner generated
  let metaPage := metaAllocation.reference
  let (rootAllocation, _) ← takePageRef s alloc owner generated
  let rootPage := rootAllocation.reference
  let tree : MetaNode :=
    { generation := metaPage.generation, owner, rootPage, height := 1, spec }
  let metaSize ← lift (encodeMeta tree)
  if metaSize > singlePayloadCapacity then
    throw (.index (.nodeTooLarge metaSize singlePayloadCapacity))
  let rootSize ← lift (encodeLeafGeneration spec .empty owner rootPage.generation)
  let metaChange ← prepareNewPage metaAllocation (.metaPage tree) metaSize owner
  let rootChange ←
    prepareNewPage rootAllocation (.leaf owner rootPage.generation .empty) rootSize owner
  return ([metaChange, rootChange], { owner, metaPage })

/-- `create_with_owner_in`: a metadata page and an empty root leaf. -/
def createWithOwnerIn (spec : IndexSpec)
    (owner : Option Nat) : Store × Except StorageError BTreeHandle :=
  commitPlan s (planCreate s grants spec owner)

/-- The descent of `find_leaf_for_entry` over the levels above the leaf. -/
def descendForEntry (s : Store) (tree : MetaNode) (entry : IndexEntryKey) :
    Nat → BTreePageRef → Except StorageError (BTreePageRef × LeafNode × List PathEntry)
  | 0, page => do
      let leaf ← readLeaf s page tree
      return (page, leaf, [])
  | levels + 1, page => do
      let node ← readInternal s page tree
      let childPosition := node.childPosition entry
      let child ← lift (node.child childPosition)
      validateChild s child
      let (leafPage, leaf, path) ← descendForEntry s tree entry levels child
      return (leafPage, leaf, { page, node, childPosition } :: path)

/-- `find_leaf_for_entry`: the leaf an entry belongs to and the path from the
root, root first. -/
def findLeafForEntry (s : Store) (tree : MetaNode) (entry : IndexEntryKey) :
    Except StorageError (BTreePageRef × LeafNode × List PathEntry) :=
  match tree.height with
  | 0 => throw (.index (.invalidHeight tree.height))
  | levels + 1 => descendForEntry s tree entry levels tree.rootPage

def prepareInternal (s : Store) (tree : MetaNode) (page : BTreePageRef) (node : InternalNode) :
    Except StorageError PreparedPage := do
  let size ← lift (encodeInternalFor tree node page)
  prepareExistingPage s page (.internal tree.owner page.generation node) size tree.owner

def prepareLeaf (s : Store) (tree : MetaNode) (page : BTreePageRef) (node : LeafNode) :
    Except StorageError PreparedPage := do
  let size ← lift (encodeLeafFor tree node page)
  prepareExistingPage s page (.leaf tree.owner page.generation node) size tree.owner

variable (s : Store) (handle : BTreeHandle) (tree : MetaNode)

def prepareMeta : Except StorageError PreparedPage := do
  let size ← lift (encodeMeta tree)
  prepareExistingPage s handle.metaPage (.metaPage tree) size tree.owner

def prepareNewInternal (allocation : NewBTreePage) (node : InternalNode) :
    Except StorageError PreparedPage := do
  let size ← lift (encodeInternalFor tree node allocation.reference)
  prepareNewPage allocation
    (.internal tree.owner allocation.reference.generation node) size tree.owner

def prepareNewLeaf (allocation : NewBTreePage) (node : LeafNode) :
    Except StorageError PreparedPage := do
  let size ← lift (encodeLeafFor tree node allocation.reference)
  prepareNewPage allocation
    (.leaf tree.owner allocation.reference.generation node) size tree.owner

/-- The upward loop of `insert_in`: every parent takes the promoted separator
and is split in turn when it overflows; past the root a new root is made. The
path is consumed from its deepest node. -/
def insertUp (s : Store) (handle : BTreeHandle) (tree : MetaNode) (alloc : Allocator)
    (changes : List PreparedPage) (leftPage : BTreePageRef) (promoted : IndexEntryKey)
    (rightPage : BTreePageRef) : List PathEntry → Except StorageError (List PreparedPage)
  | [] => do
      let (allocation, _) ← takePageRef s alloc tree.owner tree.generation.isSome
      let newRoot : InternalNode :=
        { firstChild := leftPage, separators := [{ key := promoted, rightChild := rightPage }] }
      let rootChange ← prepareNewInternal tree allocation newRoot
      if tree.height + 1 ≥ 2 ^ 32 then throw (.index (.invalidHeight tree.height))
      let metaChange ← prepareMeta s handle
        { tree with rootPage := allocation.reference, height := tree.height + 1 }
      return changes ++ [rootChange, metaChange]
  | parent :: path => do
      let node ← lift (parent.node.insertSeparator parent.childPosition promoted rightPage)
      let size ← lift (encodeInternalFor tree node parent.page)
      if size ≤ singlePayloadCapacity then
        let change ← prepareInternal s tree parent.page node
        return changes ++ [change]
      else
        let (allocation, alloc) ← takePageRef s alloc tree.owner tree.generation.isSome
        let (left, nextPromoted, right) ← lift (splitInternal tree.spec node (nodeCapacity tree))
        let rightChange ← prepareNewInternal tree allocation right
        let leftChange ← prepareInternal s tree parent.page left
        insertUp s handle tree alloc (changes ++ [rightChange, leftChange]) parent.page
          nextPromoted allocation.reference path

/-- Room that `ensure_entry_fits` leaves for one entry. -/
def entryCapacity : Nat :=
  nodeCapacity tree - if tree.generation.isSome then 16 else 0

def planInsert (s : Store) (grants : Nat → PageGrant) (handle : BTreeHandle)
    (entry : IndexEntry) : Except StorageError (List PreparedPage × Unit) := do
  let tree ← readMeta s handle
  lift (ensureEntryFits tree.spec entry (entryCapacity tree))
  let (leafPage, leaf, path) ← findLeafForEntry s tree entry
  let leaf ← lift (leaf.insert tree.spec entry)
  let size ← lift (encodeLeafFor tree leaf leafPage)
  if size ≤ singlePayloadCapacity then
    let change ← prepareLeaf s tree leafPage leaf
    return ([change], ())
  else
    let (allocation, alloc) ←
      takePageRef s (startAllocator s grants) tree.owner tree.generation.isSome
    let (left, right, promoted) ← lift (splitLeaf tree.spec leaf.entries leaf.nextLeaf
      allocation.reference (nodeCapacity tree))
    let rightChange ← prepareNewLeaf tree allocation right
    let leftChange ← prepareLeaf s tree leafPage left
    let changes ← insertUp s handle tree alloc [rightChange, leftChange] leafPage promoted
      allocation.reference path.reverse
    return (changes, ())

/-- `insert_in`. -/
def insertIn (s : Store) (grants : Nat → PageGrant) (handle : BTreeHandle) (key : ScalarValue)
    (rowId : RowId) : Store × Except StorageError Unit :=
  commitPlan s (planInsert s grants handle { key, rowId })

/-- The two children around a separator: `(left, right, separator position,
whether the current child is the left one)`. The right sibling is preferred. -/
def siblingsOf (parent : InternalNode) (childPosition : Nat) (currentPage : BTreePageRef) :
    Except IndexError (BTreePageRef × BTreePageRef × Nat × Bool) :=
  if childPosition < parent.separators.length then do
    let right ← parent.child (childPosition + 1)
    return (currentPage, right, childPosition, true)
  else if childPosition = 0 then throw .invalidNodeType
  else do
    let left ← parent.child (childPosition - 1)
    return (left, currentPage, childPosition - 1, false)

def orRead {α : Type} (atHand : Bool) (node : α) (read : Except StorageError α) :
    Except StorageError α :=
  if atHand then .ok node else read

/-- `preflight_merge`: the merged node and the page that keeps it, when the
current child and its sibling fit one page. -/
def preflightMerge (s : Store) (tree : MetaNode) (parent : InternalNode) (childPosition : Nat)
    (currentPage : BTreePageRef) (current : DeleteNode) (capacity : Nat) :
    Except StorageError (Option (BTreePageRef × DeleteNode × Nat)) := do
  let (leftPage, rightPage, separatorPosition, currentIsLeft) ←
    lift (siblingsOf parent childPosition currentPage)
  let some separator := parent.separators[separatorPosition]?
    | throw (.index .invalidNodeType)
  match current with
  | .leaf currentLeaf => do
      let left ← orRead currentIsLeft currentLeaf (readLeaf s leftPage tree)
      let right ← orRead (!currentIsLeft) currentLeaf (readLeaf s rightPage tree)
      if left.entries = [] ∧ leftPage ≠ currentPage then
        throw (.index (.emptyLeaf leftPage.pageId))
      if right.entries = [] ∧ rightPage ≠ currentPage then
        throw (.index (.emptyLeaf rightPage.pageId))
      if left.nextLeaf ≠ some rightPage then
        throw (.index (.invalidLeafLink leftPage.pageId rightPage.pageId
          (left.nextLeaf.map BTreePageRef.pageId)))
      let merged ← lift (mergeLeavesIfFits tree.spec left right capacity)
      return merged.map fun node => (leftPage, .leaf node, separatorPosition)
  | .internal currentNode => do
      let left ← orRead currentIsLeft currentNode (readInternal s leftPage tree)
      let right ← orRead (!currentIsLeft) currentNode (readInternal s rightPage tree)
      let merged ← lift (mergeInternalsIfFits tree.spec left separator.key right capacity)
      return merged.map fun node => (leftPage, .internal node, separatorPosition)

def prepareDeleteNode (s : Store) (page : BTreePageRef) (tree : MetaNode) :
    DeleteNode → Except StorageError PreparedPage
  | .leaf node => prepareLeaf s tree page node
  | .internal node => prepareInternal s tree page node

/-- The height left by a root collapse; a tree keeps at least one level. -/
def collapsedHeight : Except IndexError Nat :=
  if tree.height ≤ 1 then throw (.invalidHeight tree.height) else return tree.height - 1

/-- The upward loop of `delete_balanced_in`. The current node is written as
soon as it is large enough or cannot be merged. -/
def deleteUp (s : Store) (handle : BTreeHandle) (tree : MetaNode) (changes : List PreparedPage)
    (retired : List BTreePageRef) (currentPage : BTreePageRef) (current : DeleteNode) :
    List PathEntry → Except StorageError (List PreparedPage × List BTreePageRef)
  | [] => do
      let size ← lift (current.encodedLen tree)
      if size ≥ nodeCapacity tree / 2 then
        let change ← prepareDeleteNode s currentPage tree current
        return (changes ++ [change], retired)
      else throw (.index (.invalidHeight tree.height))
  | parent :: path => do
      let size ← lift (current.encodedLen tree)
      if size ≥ nodeCapacity tree / 2 then
        let change ← prepareDeleteNode s currentPage tree current
        return (changes ++ [change], retired)
      else
        match ← preflightMerge s tree parent.node parent.childPosition currentPage current
            (nodeCapacity tree) with
        | none =>
          let change ← prepareDeleteNode s currentPage tree current
          return (changes ++ [change], retired)
        | some (retainedPage, merged, separatorPosition) =>
          let rightPage ← lift (parent.node.child (separatorPosition + 1))
          let change ← prepareDeleteNode s retainedPage tree merged
          let (_, node) ← lift (parent.node.removeSeparator separatorPosition)
          if path = [] then
            if node.separators = [] then
              let height ← lift (collapsedHeight tree)
              let metaChange ←
                prepareMeta s handle { tree with rootPage := retainedPage, height }
              return (changes ++ [change, metaChange], retired ++ [rightPage, parent.page])
            else
              let parentChange ← prepareInternal s tree parent.page node
              return (changes ++ [change, parentChange], retired ++ [rightPage])
          else
            deleteUp s handle tree (changes ++ [change]) (retired ++ [rightPage]) parent.page
              (.internal node) path

def planDeleteBalanced (entry : IndexEntry) :
    Except StorageError (List PreparedPage × List BTreePageRef × Option Nat) := do
  let tree ← readMeta s handle
  lift (tree.spec.validateKey entry.key)
  let (leafPage, leaf, path) ← findLeafForEntry s tree entry
  let leaf ← lift (leaf.remove tree.spec entry)
  if tree.height = 1 then
    let change ← prepareLeaf s tree leafPage leaf
    return ([change], [], none)
  else
    let (changes, retired) ← deleteUp s handle tree [] [] leafPage (.leaf leaf) path.reverse
    return (changes, retired, tree.owner)

def commitUnlinks (s : Store)
    (plan : Except StorageError (List PreparedPage × List BTreePageRef × Option Nat)) :
    Store × Except StorageError Unit :=
  match plan with
  | .error error => (s, .error error)
  | .ok (changes, retired, owner) => applyUnlinksAndRetire s changes retired owner

/-- `delete_balanced_in`. -/
def deleteBalancedIn (key : ScalarValue) (rowId : RowId) : Store × Except StorageError Unit :=
  commitUnlinks s (planDeleteBalanced s handle { key, rowId })

/-- Rotates one child from the right sibling to a unary left node. -/
def rotateLeft (left right : InternalNode) (fence : IndexEntryKey) :
    Except IndexError (InternalNode × IndexEntryKey × InternalNode) := do
  let (promoted, right) ← right.removeSeparator 0
  return ({ left with separators :=
      left.separators ++ [{ key := fence, rightChild := right.firstChild }] },
    promoted.key, { right with firstChild := promoted.rightChild })

/-- Rotates one child from the left sibling to a unary right node. -/
def rotateRight (left right : InternalNode) (fence : IndexEntryKey) :
    Except IndexError (InternalNode × IndexEntryKey × InternalNode) :=
  match left.separators.getLast? with
  | none => throw .invalidNodeType
  | some promoted =>
    return ({ left with separators := left.separators.dropLast }, promoted.key,
      { firstChild := promoted.rightChild
        separators := { key := fence, rightChild := right.firstChild } :: right.separators })

def rotate (currentIsLeft : Bool) (left right : InternalNode) (fence : IndexEntryKey) :
    Except IndexError (InternalNode × IndexEntryKey × InternalNode) :=
  if currentIsLeft then rotateLeft left right fence else rotateRight left right fence

/-- The separator between a child and the sibling it is paired with: the right
one, or the left one for the last child. -/
def siblingFence (parent : InternalNode) (childPosition : Nat) : Except IndexError Nat :=
  if childPosition < parent.separators.length then .ok childPosition
  else if childPosition = 0 then .error .invalidNodeType
  else .ok (childPosition - 1)

def setSeparatorKey (node : InternalNode) (position : Nat) (key : IndexEntryKey) : InternalNode :=
  { node with separators := node.separators.modify position fun separator =>
      { separator with key } }

/-- The batch that gives one unary node below the root a sibling boundary:
merge it with its sibling when both fit one page, rotate a child otherwise. -/
def planUnaryRepair (parent current : PathEntry) (parentIsRoot : Bool) :
    Except StorageError (List PreparedPage × List BTreePageRef × Option Nat) := do
  let currentIsLeft := decide (parent.childPosition < parent.node.separators.length)
  let separatorPosition ← lift (siblingFence parent.node parent.childPosition)
  let leftPage ← lift (parent.node.child separatorPosition)
  let rightPage ← lift (parent.node.child (separatorPosition + 1))
  if leftPage = rightPage then throw (.index (.sharedTreePage leftPage.pageId))
  let left ← orRead currentIsLeft current.node (readInternal s leftPage tree)
  let right ← orRead (!currentIsLeft) current.node (readInternal s rightPage tree)
  let some separator := parent.node.separators[separatorPosition]?
    | throw (.index .invalidNodeType)
  let fence := separator.key
  match ← lift (mergeInternalsIfFits tree.spec left fence right (nodeCapacity tree)) with
  | some merged =>
    let change ← prepareInternal s tree leftPage merged
    let (_, parentNode) ← lift (parent.node.removeSeparator separatorPosition)
    if parentIsRoot ∧ parentNode.separators = [] then
      let metaChange ← prepareMeta s handle
        { tree with rootPage := leftPage, height := tree.height - 1 }
      return ([change, metaChange], [rightPage, parent.page], tree.owner)
    else
      let parentChange ← prepareInternal s tree parent.page parentNode
      return ([change, parentChange], [rightPage], tree.owner)
  | none =>
    let (left, promoted, right) ← lift (rotate currentIsLeft left right fence)
    let leftChange ← prepareInternal s tree leftPage left
    let rightChange ← prepareInternal s tree rightPage right
    let parentChange ← prepareInternal s tree parent.page
      (setSeparatorKey parent.node separatorPosition promoted)
    return ([leftChange, rightChange, parentChange], [], tree.owner)

/-- One round of `normalize_delete_path`: `none` when every internal node of
the path has a separator. -/
def planNormalize (entry : IndexEntryKey) :
    Except StorageError
      (Option (List PreparedPage × List BTreePageRef × Option Nat)) := do
  let tree ← readMeta s handle
  let (_, leaf, path) ← findLeafForEntry s tree entry
  let present ← lift (leaf.containsExact tree.spec entry)
  if !present then throw (.index .entryNotFound)
  match path.findIdx? (·.node.separators = []) with
  | none => return none
  | some 0 =>
    let some current := path[0]? | throw (.index .invalidNodeType)
    let height ← lift (collapsedHeight tree)
    let metaChange ←
      prepareMeta s handle { tree with rootPage := current.node.firstChild, height }
    return some ([metaChange], [current.page], tree.owner)
  | some (position + 1) =>
    let some parent := path[position]? | throw (.index .invalidNodeType)
    let some current := path[position + 1]? | throw (.index .invalidNodeType)
    let plan ← planUnaryRepair s handle tree parent current (position = 0)
    return some plan

/-- `normalize_delete_path`, with the number of rounds still allowed. -/
def normalizeDeletePath (handle : BTreeHandle) (entry : IndexEntryKey) :
    Nat → Store → Store × Except StorageError Unit
  | 0, s =>
    match readMeta s handle with
    | .ok tree => (s, .error (.index (.invalidHeight tree.height)))
    | .error error => (s, .error error)
  | limit + 1, s =>
    match planNormalize s handle entry with
    | .error error => (s, .error error)
    | .ok none => (s, .ok ())
    | .ok (some plan) =>
      match commitUnlinks s (.ok plan) with
      | (s', .ok ()) => normalizeDeletePath handle entry limit s'
      | (s', .error error) => (s', .error error)

/-- The checks of `delete_in` before anything is written: whether the entry is
there and whether its path has a unary node. -/
def deletePreflight (entry : IndexEntryKey) : Except StorageError Bool := do
  let tree ← readMeta s handle
  lift (tree.spec.validateKey entry.key)
  let (_, leaf, path) ← findLeafForEntry s tree entry
  let present ← lift (leaf.containsExact tree.spec entry)
  if !present then throw (.index .entryNotFound)
  return path.any (·.node.separators = [])

/-- `delete_in`. -/
def deleteIn (key : ScalarValue) (rowId : RowId) : Store × Except StorageError Unit :=
  match deletePreflight s handle { key, rowId } with
  | .error error => (s, .error error)
  | .ok needsNormalization =>
    let normalized :=
      if needsNormalization then normalizeDeletePath handle { key, rowId } s.pageCount s
      else (s, .ok ())
    match normalized with
    | (s', .error error) => (s', .error error)
    | (s', .ok ()) => deleteBalancedIn s' handle key rowId

end Netbadb.BTree
