import Netbadb.BTree.Lookup
import Netbadb.Wal.Record

/-!
What the build of an index writes: the pages of its tree, and pages of the index
catalog. A catalog is a chain of nodes, one for each page. A node is rewritten
when an identity is reserved, when a page of a dropped tree is claimed, and when
the index is registered; records that do not fit any more move to a new page.
-/

namespace Netbadb.BTree

open Wal.WalRecordKind

/-- An entry of the catalog, with the bytes of its definition and statistics. -/
structure IndexCatalogEntry where
  id : Nat
  retired : Bool
  bytes : Nat
  deriving DecidableEq, Repr

/-- A dropped index whose entry is gone; its tree may still be reachable. -/
structure RetiredIndexOwnership where
  indexId : Nat
  hasMetaPage : Bool
  deriving DecidableEq, Repr

structure IndexCatalogNode where
  nextIndexId : Option Nat
  entries : List IndexCatalogEntry
  pending : List RetiredIndexOwnership
  deriving DecidableEq, Repr

namespace IndexCatalogNode

def ids (node : IndexCatalogNode) : List Nat :=
  node.entries.map (·.id) ++ node.pending.map (·.indexId)

/-- The node without the tree of a dropped index, if it has it. -/
def detached (node : IndexCatalogNode) (owner : Nat) : Option IndexCatalogNode :=
  let dropped := node.entries.filter fun entry => entry.retired && entry.id == owner
  let pending : List RetiredIndexOwnership := node.pending ++ dropped.map fun _ => ⟨owner, false⟩
  if dropped ≠ [] ∨ pending.any (fun record => record.indexId == owner && record.hasMetaPage) then
    some { node with
      entries := node.entries.filter fun entry => !(entry.retired && entry.id == owner)
      pending := pending.map fun record =>
        if record.indexId = owner then { record with hasMetaPage := false } else record }
  else none

end IndexCatalogNode

inductive CatalogError where
  | lengthOverflow
  | nodeTooLarge (size capacity : Nat)
  | duplicateIndexId
  | invalidIndexHighWater (target : Nat)
  | invalidChild
  deriving DecidableEq, Repr

/-- Calls of `write_catalog_node_in`, and the page images they publish. -/
structure CatalogWrites where
  calls : Nat
  images : Nat
  deriving DecidableEq, Repr

def CatalogWrites.add (w w' : CatalogWrites) : CatalogWrites :=
  ⟨w.calls + w'.calls, w.images + w'.images⟩

section Catalog

variable (encodedLen : IndexCatalogNode → Nat) (capacity : Nat)

/-- The loop that moves records to the overflow node until the rest fits. -/
def spill : Nat → IndexCatalogNode → IndexCatalogNode →
    Except CatalogError (IndexCatalogNode × IndexCatalogNode)
  | fuel, node, overflow =>
    if encodedLen node ≤ capacity then .ok (node, overflow)
    else match fuel, node.pending.getLast?, node.entries.getLast? with
      | fuel + 1, some record, _ =>
        spill fuel { node with pending := node.pending.dropLast }
          { overflow with pending := record :: overflow.pending }
      | fuel + 1, none, some entry =>
        spill fuel { node with entries := node.entries.dropLast }
          { overflow with entries := entry :: overflow.entries }
      | _, _, _ => .error .lengthOverflow

/-- `write_catalog_node_in`: the node that is written, and behind it the new one
for what does not fit. The root of an old format gets its floor. -/
def writeCatalogNodeIn (floor : Option Nat) (node : IndexCatalogNode) :
    Except CatalogError (List IndexCatalogNode) := do
  let (node, overflow) ← spill encodedLen capacity (node.pending.length + node.entries.length)
    { node with nextIndexId := node.nextIndexId.or floor } ⟨none, [], []⟩
  if overflow.entries = [] ∧ overflow.pending = [] then return [node]
  if encodedLen overflow > capacity then
    throw (.nodeTooLarge (encodedLen overflow) capacity)
  return [node, overflow]

/-- One call, on the first node of what is left of the chain. -/
def writeFirst (floor : Option Nat) (node : IndexCatalogNode) (rest : List IndexCatalogNode) :
    Except CatalogError (List IndexCatalogNode × CatalogWrites) := do
  let nodes ← writeCatalogNodeIn encodedLen capacity floor node
  return (nodes ++ rest, ⟨1, nodes.length⟩)

variable (chain : List IndexCatalogNode)

/-- The checks of `read_index_catalog` on the identities of the whole chain. -/
def validateCatalog : Except CatalogError Unit :=
  if (chain.flatMap (·.ids)).Nodup then .ok () else .error .duplicateIndexId

def nextIndexId : Nat :=
  (chain.head?.bind (·.nextIndexId)).getD
    (((chain.flatMap (·.entries)).map (·.id)).foldl max 0 + 1)

def advanceIndexIdFloorIn (target : Nat) :
    Except CatalogError (List IndexCatalogNode × CatalogWrites) := do
  validateCatalog chain
  if target = 0 ∨ target < nextIndexId chain then throw (.invalidIndexHighWater target)
  if target = nextIndexId chain then return (chain, ⟨0, 0⟩)
  match chain with
  | [] => throw .invalidChild
  | root :: rest =>
    writeFirst encodedLen capacity none { root with nextIndexId := some target } rest

/-- `append_index_definition`: the entry goes to the last node. -/
def appendIndexDefinition (entry : IndexCatalogEntry) (floor : Option Nat) :
    List IndexCatalogNode → Except CatalogError (List IndexCatalogNode × CatalogWrites)
  | [] => .error .invalidChild
  | [tail] => writeFirst encodedLen capacity floor { tail with entries := tail.entries ++ [entry] } []
  | node :: rest => do
    let (rest, writes) ← appendIndexDefinition entry none rest
    return (node :: rest, writes)

/-- One page of `detach_retired_owner_root`, written when it changes. -/
def detachNode (owner : Nat) (floor : Option Nat) (node : IndexCatalogNode) :
    Except CatalogError (List IndexCatalogNode × CatalogWrites) :=
  match node.detached owner with
  | none => .ok ([node], ⟨0, 0⟩)
  | some node => writeFirst encodedLen capacity floor node []

def detachNodes (owner : Nat) (floor : Option Nat) :
    List IndexCatalogNode → Except CatalogError (List IndexCatalogNode × CatalogWrites)
  | [] => .ok ([], ⟨0, 0⟩)
  | node :: rest => do
    let (nodes, writes) ← detachNode encodedLen capacity owner floor node
    let (rest, writes') ← detachNodes owner none rest
    return (nodes ++ rest, writes.add writes')

def detachRetiredOwnerRoot (owner : Nat) :
    Except CatalogError (List IndexCatalogNode × CatalogWrites) := do
  validateCatalog chain
  detachNodes encodedLen capacity owner (some (nextIndexId chain)) chain

def allocated (changes : List PreparedPage) : Nat := changes.countP (·.publication ≠ .existing)

def claimed (changes : List PreparedPage) : Nat := changes.countP (·.publication = .transition)

/-- The claims of reusable pages. A claim detaches the root of the dropped tree
when the catalog still has it. -/
inductive Claims (chain : List IndexCatalogNode) :
    Nat → List IndexCatalogNode → CatalogWrites → Prop
  | start : Claims chain 0 chain ⟨0, 0⟩
  | plain {n chain' w} (before : Claims chain n chain' w) : Claims chain (n + 1) chain' w
  | detach {n chain' chain'' w w'} (owner : Nat) (before : Claims chain n chain' w)
      (run : detachRetiredOwnerRoot encodedLen capacity chain' owner = .ok (chain'', w')) :
      Claims chain (n + 1) chain'' (w.add w')

structure BuildWrites where
  images : Nat
  allocations : Nat
  catalog : CatalogWrites

/-- A tree that is created and filled, with what was written for it. Between
its insertions other pages of the file, such as those of the catalog, change. -/
inductive Backfill (spec : IndexSpec) (handle : BTreeHandle) (chain : List IndexCatalogNode) :
    Store → List IndexCatalogNode → Nat → BuildWrites → Prop
  | create {s s' grants owner changes chain' w} (header : s.pages[0]? = some .other)
      (plan : planCreate s grants spec (some owner) = .ok (changes, handle))
      (run : applyChanges s changes = (s', .ok ()))
      (claims : Claims encodedLen capacity chain (claimed changes) chain' w) :
      Backfill spec handle chain s' chain' 0 ⟨changes.length, allocated changes, w⟩
  | insert {s s' grants key rowId changes chain' chain'' rows writes w}
      (before : Backfill spec handle chain s chain' rows writes)
      (plan : planInsert s grants handle { key, rowId } = .ok (changes, ()))
      (run : applyChanges s changes = (s', .ok ()))
      (claims : Claims encodedLen capacity chain' (claimed changes) chain'' w) :
      Backfill spec handle chain s' chain'' (rows + 1)
        ⟨writes.images + changes.length, writes.allocations + allocated changes,
          writes.catalog.add w⟩
  | other {s s' owned chain' rows writes}
      (before : Backfill spec handle chain s chain' rows writes)
      (pages : collectOwnedPages s handle [] = .ok owned)
      (header : s'.pages[0]? = s.pages[0]?)
      (frame : ∀ id ∈ owned, s'.pages[id]? = s.pages[id]?) :
      Backfill spec handle chain s' chain' rows writes

/-- `build_index_with_id_in`: the floor, the tree, the registration. -/
inductive Build (spec : IndexSpec) (handle : BTreeHandle) : Nat → BuildWrites → Prop
  | mk {chain chain₁ chain₂ chain₃ target s rows writes w w'} (entry : IndexCatalogEntry)
      (advance : advanceIndexIdFloorIn encodedLen capacity chain target = .ok (chain₁, w))
      (fill : Backfill encodedLen capacity spec handle chain₁ s chain₂ rows writes)
      (register : appendIndexDefinition encodedLen capacity entry (some (nextIndexId chain₂)) chain₂ =
        .ok (chain₃, w')) :
      Build spec handle rows
        ⟨writes.images, writes.allocations, (w.add writes.catalog).add w'⟩

end Catalog

structure HeapIndexBuildWriteBoundInspection where
  rowUpperBound : Nat
  btreePageAllocationUpperBound : Nat
  btreePageImageUpperBound : Nat
  catalogMutationCallUpperBound : Nat
  catalogPageImageUpperBound : Nat
  totalPageImageUpperBound : Nat
  pageGenerationReservationUpperBound : Nat
  heapPageImageWriteBytesUpperBound : Nat
  heapWalWriteBytesUpperBound : Nat
  txnStatusWriteBytesUpperBound : Nat
  totalWriteBytesUpperBound : Nat
  deriving DecidableEq, Repr

inductive BoundError where
  | resourceBoundOverflow
  deriving DecidableEq, Repr

/-- A result of the arithmetic on integers of the given width. -/
def checked (bits n : Nat) : Except BoundError Nat :=
  if n < 2 ^ bits then .ok n else .error .resourceBoundOverflow

def emptyTreePageCount : Nat := 2

/-- `RECORD_SIZE` of the transaction status store. -/
def statusRecordSize : Nat := 32

def heapIndexBuildWriteBound (rows : Nat) :
    Except BoundError HeapIndexBuildWriteBoundInspection := do
  let rowsPlusThree ← checked 128 (rows + 3)
  let backfillImages ← checked 128 (rows * rowsPlusThree)
  let images ← checked 128 (emptyTreePageCount + backfillImages)
  -- An even factor is halved before the multiplication.
  let backfillAllocations ← checked 128
    (if rows % 2 = 0 then rows / 2 * rowsPlusThree else rows * (rowsPlusThree / 2))
  let allocations ← checked 128 (emptyTreePageCount + backfillAllocations)
  let calls ← checked 128 (allocations + 3)
  let catalogImages ← checked 128 (calls * 2)
  let totalImages ← checked 128 (images + catalogImages)
  let heapBytes ← checked 128 (totalImages * pageSize)
  let imageBytes ← checked 128 (totalImages * (Wal.recordHeaderSize + (8 + 2 * pageSize)))
  let reservationBytes ← checked 128
    (allocations * encodedRecordLen .pageGenerationReservation)
  let envelope ← checked 128 (encodedRecordLen .begin +
    encodedRecordLen (.prepare 1))
  let envelope ← checked 128 (envelope + encodedRecordLen .commit)
  let pageBytes ← checked 128 (imageBytes + reservationBytes)
  let walBytes ← checked 128 (pageBytes + envelope)
  let bytes ← checked 128 (heapBytes + walBytes)
  let totalBytes ← checked 128 (bytes + statusRecordSize)
  return {
    rowUpperBound := rows
    btreePageAllocationUpperBound := ← checked 64 allocations
    btreePageImageUpperBound := ← checked 64 images
    catalogMutationCallUpperBound := ← checked 64 calls
    catalogPageImageUpperBound := ← checked 64 catalogImages
    totalPageImageUpperBound := ← checked 64 totalImages
    pageGenerationReservationUpperBound := ← checked 64 allocations
    heapPageImageWriteBytesUpperBound := ← checked 64 heapBytes
    heapWalWriteBytesUpperBound := ← checked 64 walBytes
    txnStatusWriteBytesUpperBound := ← checked 64 statusRecordSize
    totalWriteBytesUpperBound := ← checked 64 totalBytes }

end Netbadb.BTree
