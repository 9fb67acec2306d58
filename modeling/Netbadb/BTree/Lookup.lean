import Netbadb.BTree.Update

/-!
Read-only access: exact membership, lookup of one key, lookup of a range, and
the enumeration of the pages a tree owns. Key and range lookups walk the chain
of leaves; the walk stops with an error as soon as a page repeats.
-/

namespace Netbadb.BTree

structure LeafChainState where
  pageCount : Nat
  visited : List BTreePageRef
  previousLeaf : Option (BTreePageRef × IndexEntryKey)

def LeafChainState.new (pageCount : Nat) : LeafChainState :=
  { pageCount, visited := [], previousLeaf := none }

/-- The descent of `find_leaf_for_key` over the levels above the leaf. -/
def descendForKey (s : Store) (tree : MetaNode) (key : ScalarValue) :
    Nat → BTreePageRef → Except StorageError BTreePageRef
  | 0, page => do
      let _ ← readLeaf s page tree
      return page
  | levels + 1, page => do
      let node ← readInternal s page tree
      let position := partitionPoint
        (fun separator => compareKeyToEntry key separator.key == .gt) node.separators
      let child ← lift (node.child position)
      validateChild s child
      descendForKey s tree key levels child

/-- `find_leaf_for_key`: the first leaf that can hold `key`. -/
def findLeafForKey (s : Store) (tree : MetaNode) (key : ScalarValue) :
    Except StorageError BTreePageRef :=
  match tree.height with
  | 0 => throw (.index (.invalidHeight tree.height))
  | levels + 1 => descendForKey s tree key levels tree.rootPage

def descendLeftmost (s : Store) (tree : MetaNode) :
    Nat → BTreePageRef → Except StorageError BTreePageRef
  | 0, page => do
      let _ ← readLeaf s page tree
      return page
  | levels + 1, page => do
      let node ← readInternal s page tree
      validateChild s node.firstChild
      descendLeftmost s tree levels node.firstChild

/-- `find_leftmost_leaf`. -/
def findLeftmostLeaf (s : Store) (tree : MetaNode) : Except StorageError BTreePageRef :=
  match tree.height with
  | 0 => throw (.index (.invalidHeight tree.height))
  | levels + 1 => descendLeftmost s tree levels tree.rootPage

/-- `read_leaf_in_chain`: no page twice, no empty leaf in a longer chain, and
strictly increasing entries across leaves. -/
def readLeafInChain (s : Store) (page : BTreePageRef) (tree : MetaNode)
    (chain : LeafChainState) : Except StorageError (LeafNode × LeafChainState) := do
  let visited := page :: chain.visited
  if page ∈ chain.visited ∨ visited.length > chain.pageCount then
    throw (.index (.leafChainCycle page.pageId))
  let leaf ← readLeaf s page tree
  if leaf.entries = [] ∧ (tree.height > 1 ∨ leaf.nextLeaf.isSome) then
    throw (.index (.emptyLeaf page.pageId))
  if let some (previousPage, previousLast) := chain.previousLeaf then
    match leaf.entries.head? with
    | none => throw (.index (.emptyLeaf page.pageId))
    | some first =>
      if compareEntryKeys previousLast first ≠ .lt then
        throw (.index (.leafChainOrder previousPage.pageId page.pageId))
  let previousLeaf :=
    match leaf.entries.getLast? with
    | some last => some (page, last)
    | none => chain.previousLeaf
  return (leaf, { chain with visited, previousLeaf })

/-- The entries equal to `key` up to the first greater one, and whether a
greater one was seen. -/
def collectEqual (key : ScalarValue) : List IndexEntry → List RowId × Bool
  | [] => ([], false)
  | entry :: rest =>
    match compareKeyToEntry key entry with
    | .eq => (entry.rowId :: (collectEqual key rest).1, (collectEqual key rest).2)
    | .lt => ([], true)
    | .gt => collectEqual key rest

/-- The loop of `lookup`. A walk of more than `pageCount` leaves has already
ended with a cycle error, which bounds the rounds. -/
def lookupWalk (s : Store) (tree : MetaNode) (key : ScalarValue) :
    Nat → LeafChainState → BTreePageRef → Except StorageError (List RowId)
  | 0, _, page => throw (.index (.leafChainCycle page.pageId))
  | rounds + 1, chain, page => do
      let (leaf, chain) ← readLeafInChain s page tree chain
      let start := partitionPoint (fun entry => compareKeyToEntry key entry == .gt) leaf.entries
      let (rows, sawGreater) := collectEqual key (leaf.entries.drop start)
      if sawGreater then return rows
      let shouldFollow := leaf.entries.getLast?.any fun entry => compareKeyToEntry key entry ≠ .lt
      match shouldFollow, leaf.nextLeaf with
      | true, some next => do
          validateChild s next
          let rest ← lookupWalk s tree key rounds chain next
          return rows ++ rest
      | _, _ => return rows

variable (s : Store) (handle : BTreeHandle)

/-- `lookup`: every row of `key`, in row order. -/
def lookup (key : ScalarValue) : Except StorageError (List RowId) := do
  let tree ← readMeta s handle
  lift (tree.spec.validateKey key)
  let page ← findLeafForKey s tree key
  lookupWalk s tree key (s.pageCount + 1) (.new s.pageCount) page

def IndexBound.beforeLower (bound : IndexBound) (entry : IndexEntry) : Bool :=
  match bound with
  | .unbounded => false
  | .included key => compareKeyToEntry key entry == .gt
  | .excluded key => compareKeyToEntry key entry != .lt

def IndexBound.pastUpper (bound : IndexBound) (entry : IndexEntry) : Bool :=
  match bound with
  | .unbounded => false
  | .included key => compareKeyToEntry key entry == .lt
  | .excluded key => compareKeyToEntry key entry != .gt

/-- The entries up to the first one past the upper bound, and whether there
was one. -/
def collectRange (upper : IndexBound) : List IndexEntry → List RowId × Bool
  | [] => ([], false)
  | entry :: rest =>
    if IndexBound.pastUpper upper entry then ([], true)
    else (entry.rowId :: (collectRange upper rest).1, (collectRange upper rest).2)

/-- The loop of `lookup_range`. -/
def lookupRangeWalk (s : Store) (tree : MetaNode) (range : IndexRange) :
    Nat → LeafChainState → BTreePageRef → Except StorageError (List RowId)
  | 0, _, page => throw (.index (.leafChainCycle page.pageId))
  | rounds + 1, chain, page => do
      let (leaf, chain) ← readLeafInChain s page tree chain
      let start := partitionPoint (IndexBound.beforeLower range.lower) leaf.entries
      let (rows, past) := collectRange range.upper (leaf.entries.drop start)
      if past then return rows
      match leaf.nextLeaf with
      | none => return rows
      | some next => do
          validateChild s next
          let rest ← lookupRangeWalk s tree range rounds chain next
          return rows ++ rest

/-- `lookup_range`: the rows of every key in the range, in entry order. -/
def lookupRange (range : IndexRange) : Except StorageError (List RowId) := do
  let tree ← readMeta s handle
  lift (range.validate tree.spec)
  if range.isEmpty then return []
  let page ←
    match range.lower with
    | .unbounded => findLeftmostLeaf s tree
    | .included key | .excluded key => findLeafForKey s tree key
  lookupRangeWalk s tree range (s.pageCount + 1) (.new s.pageCount) page

/-- `contains_exact`. -/
def containsExact (key : ScalarValue) (rowId : RowId) : Except StorageError Bool := do
  let tree ← readMeta s handle
  lift (ensureEntryFits tree.spec { key, rowId } (entryCapacity tree))
  let (_, leaf, _) ← findLeafForEntry s tree { key, rowId }
  lift (leaf.containsExact tree.spec { key, rowId })

/-- The running state of `collect_owned_pages`. -/
structure CollectState where
  pending : List (BTreePageRef × Nat)
  owned : List Nat
  pages : List Nat
  previousLink : Option (BTreePageRef × Option BTreePageRef)
  previousKey : Option IndexEntryKey

/-- Marks one child as owned and queues it before the ones already queued. -/
def enqueueChild (height : Nat) (state : CollectState) (child : BTreePageRef) :
    Except StorageError CollectState :=
  if child.pageId ∈ state.owned then throw (.index (.sharedTreePage child.pageId))
  else return { state with
    owned := child.pageId :: state.owned
    pending := (child, height) :: state.pending }

variable (tree : MetaNode) (page : BTreePageRef)

def collectLeaf (state : CollectState) : Except StorageError CollectState := do
  let leaf ← readLeaf s page tree
  if let some (previous, next) := state.previousLink then
    if next ≠ some page then throw (.index (.invalidLeafChain previous.pageId))
  if let (some previous, some first) := (state.previousKey, leaf.entries.head?) then
    if compareEntryKeys previous first ≠ .lt then throw (.index .invalidEntryOrder)
  return { state with
    previousKey := leaf.entries.getLast?.or state.previousKey
    previousLink := some (page, leaf.nextLeaf) }

def collectInternal (height : Nat) (state : CollectState) : Except StorageError CollectState := do
  let node ← readInternal s page tree
  let children := node.firstChild :: node.separators.map (·.rightChild)
  children.reverse.foldlM (enqueueChild (height - 1)) state

/-- The loop of `collect_owned_pages`. Every queued page is new among the
owned ones and below the page count, which bounds the rounds. -/
def collectLoop (s : Store) (tree : MetaNode) :
    Nat → CollectState → Except StorageError (List Nat)
  | 0, state => throw (.index (.sharedTreePage (state.pages.headD 0)))
  | rounds + 1, state =>
    match state.pending with
    | [] =>
      match state.previousLink with
      | some (last, some _) => throw (.index (.invalidLeafChain last.pageId))
      | _ => return state.pages
    | (page, height) :: pending => do
        let state := { state with pending, pages := page.pageId :: state.pages }
        let state ←
          if height = 1 then collectLeaf s tree page state
          else collectInternal s tree page height state
        collectLoop s tree rounds state

/-- `collect_owned_pages`: the pages reachable from the metadata page, given
the pages already owned by others. -/
def collectOwnedPages (owned : List Nat) : Except StorageError (List Nat) := do
  let tree ← readMeta s handle
  let metaPage := handle.metaPage.pageId
  if metaPage ∈ owned then throw (.index (.sharedTreePage metaPage))
  if tree.rootPage.pageId ∈ metaPage :: owned then
    throw (.index (.sharedTreePage tree.rootPage.pageId))
  collectLoop s tree (s.pageCount + 1)
    { pending := [(tree.rootPage, tree.height)]
      owned := tree.rootPage.pageId :: metaPage :: owned
      pages := [metaPage]
      previousLink := none
      previousKey := none }

end Netbadb.BTree
