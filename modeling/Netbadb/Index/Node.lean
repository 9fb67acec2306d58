import Netbadb.Index.Order

/-!
The pure part of the B+Tree: key specifications, decoded nodes, their
validation, encoded sizes, splits and merges. Payload bytes are kept as the
decoded node together with its encoded length. A decoder accepts exactly the
nodes its validator accepts, so the validators stand on both the write and the
read path.
-/

namespace Netbadb

inductive IndexError where
  | alreadyRetired (page : PageRef)
  | invalidPageGeneration (generation : Nat)
  | generationMismatch (expected actual : Option Nat)
  | invalidMagic
  | invalidNodeType
  | ownerMismatch (expected actual : Option Nat)
  | invalidHeight (height : Nat)
  | invalidChild (page : Nat)
  | invalidEntryOrder
  | invalidSemanticNamePresence (flag : Nat)
  | sharedTreePage (page : Nat)
  | invalidLeafChain (page : Nat)
  | invalidIndexId (id : Nat)
  | invalidRowId (page : Nat) (generation : Nat)
  | typeMismatch (expected : PhysicalType) (actual : Option PhysicalType)
  | nullNotAllowed
  | duplicateEntry
  | entryNotFound
  | keyTooLarge (size capacity : Nat)
  | nodeTooLarge (size capacity : Nat)
  | leafChainCycle (page : Nat)
  | emptyLeaf (page : Nat)
  | leafChainOrder (left right : Nat)
  | invalidLeafLink (left expected : Nat) (actual : Option Nat)
  deriving DecidableEq, Repr

/-- Persistent key identity and NULL acceptance of one tree. -/
structure IndexSpec where
  dataType : SemanticType
  nullable : Bool
  deriving DecidableEq, Repr

inductive IndexBound where
  | unbounded
  | included (key : ScalarValue)
  | excluded (key : ScalarValue)
  deriving DecidableEq, Repr

structure IndexRange where
  lower : IndexBound
  upper : IndexBound
  deriving DecidableEq, Repr

/-- A persistent tree reference. Raw trees hold legacy references; trees of a
registered index hold the exact allocation. -/
inductive BTreePageRef where
  | legacy (page : Nat)
  | allocated (reference : PageRef)
  deriving DecidableEq, Repr

namespace BTreePageRef

def pageId : BTreePageRef → Nat
  | .legacy page => page
  | .allocated reference => reference.pageId

def generation : BTreePageRef → Option Nat
  | .legacy _ => none
  | .allocated reference => some reference.generation

end BTreePageRef

structure BTreeHandle where
  owner : Option Nat
  metaPage : BTreePageRef
  deriving DecidableEq, Repr

structure MetaNode where
  generation : Option Nat
  owner : Option Nat
  rootPage : BTreePageRef
  height : Nat
  spec : IndexSpec
  deriving DecidableEq, Repr

structure LeafNode where
  entries : List IndexEntry
  nextLeaf : Option BTreePageRef
  deriving DecidableEq, Repr

structure InternalSeparator where
  key : IndexEntryKey
  rightChild : BTreePageRef
  deriving DecidableEq, Repr

structure InternalNode where
  firstChild : BTreePageRef
  separators : List InternalSeparator
  deriving DecidableEq, Repr

def commonHeaderSize : Nat := 8
def nodeHeaderSize : Nat := commonHeaderSize + 4 + 8
def rowIdSize : Nat := 8 + 2 + 4
def btreeOwnerSize : Nat := 8

/-- `slice::partition_point`, for a slice on which `p` holds exactly on an
initial segment. -/
def partitionPoint {α : Type} (p : α → Bool) (xs : List α) : Nat :=
  (xs.takeWhile p).length

/-- `slice::binary_search_by` on a strictly sorted slice: `ok` is the position
of the match and `error` the position where the entry belongs. -/
def binarySearchBy {α : Type} (cmp : α → Ordering) (xs : List α) : Except Nat Nat :=
  let position := partitionPoint (fun x => cmp x == .lt) xs
  match xs[position]? with
  | some x => if cmp x = .eq then .ok position else .error position
  | none => .error position

def IndexSpec.validateKey (spec : IndexSpec) (key : ScalarValue) : Except IndexError Unit :=
  if key = .null then
    if spec.nullable then .ok () else .error .nullNotAllowed
  else if key.physicalType ≠ some spec.dataType.physical then
    .error (.typeMismatch spec.dataType.physical key.physicalType)
  else .ok ()

def IndexBound.validate (spec : IndexSpec) : IndexBound → Except IndexError Unit
  | .unbounded => .ok ()
  | .included key | .excluded key => spec.validateKey key

namespace IndexRange

def validate (range : IndexRange) (spec : IndexSpec) : Except IndexError Unit := do
  range.lower.validate spec
  range.upper.validate spec

/-- Reports whether the explicit endpoints contain no ordered key. -/
def isEmpty (range : IndexRange) : Bool :=
  match range.lower, range.upper with
  | .unbounded, _ | _, .unbounded => false
  | .included low, .included high => compareValues low high == .gt
  | .included low, .excluded high | .excluded low, .included high
  | .excluded low, .excluded high => compareValues low high != .lt

end IndexRange

def validateGeneration (generation : Nat) : Except IndexError Unit :=
  if generation = 0 then .error (.invalidPageGeneration generation) else .ok ()

/-- The index crate's check of one pointer: a nonzero page and generation. -/
def validateRef (reference : BTreePageRef) : Except IndexError Unit := do
  if let some generation := reference.generation then validateGeneration generation
  if reference.pageId = 0 then throw (.invalidChild reference.pageId)

def validateRowId (row : RowId) : Except IndexError Unit :=
  if row.page = 0 ∨ row.generation = 0 then
    .error (.invalidRowId row.page row.generation)
  else .ok ()

/-- Each entry must be strictly below the next one. -/
def validateEntryOrder : List IndexEntryKey → Except IndexError Unit
  | left :: entry :: rest =>
    if compareEntryKeys left entry ≠ .lt then .error .invalidEntryOrder
    else validateEntryOrder (entry :: rest)
  | _ => .ok ()

variable (spec : IndexSpec)

def validateEntry (entry : IndexEntryKey) : Except IndexError Unit := do
  spec.validateKey entry.key
  validateRowId entry.rowId

def validateLeaf (node : LeafNode) : Except IndexError Unit := do
  if let some next := node.nextLeaf then
    if next.pageId = 0 then throw (.invalidChild 0)
  node.entries.forM (validateEntry spec)
  validateEntryOrder node.entries

def validateSeparator (separator : InternalSeparator) : Except IndexError Unit := do
  validateEntry spec separator.key
  validateRef separator.rightChild

def validateInternalOrder (node : InternalNode) : Except IndexError Unit :=
  validateEntryOrder (node.separators.map (·.key))

def validateInternal (node : InternalNode) : Except IndexError Unit := do
  validateRef node.firstChild
  node.separators.forM (validateSeparator spec)
  validateInternalOrder node

def validateMeta (node : MetaNode) : Except IndexError Unit := do
  validateRef node.rootPage
  if node.height = 0 then throw (.invalidHeight node.height)
  if node.spec.dataType.name = some "" then throw (.invalidSemanticNamePresence 1)

namespace LeafNode

def empty : LeafNode := { entries := [], nextLeaf := none }

variable (node : LeafNode) (spec : IndexSpec)

/-- Inserts in full `(key, RowId)` order and rejects an exact duplicate. -/
def insert (entry : IndexEntry) : Except IndexError LeafNode := do
  spec.validateKey entry.key
  validateRowId entry.rowId
  match binarySearchBy (compareEntryKeys · entry) node.entries with
  | .ok _ => throw .duplicateEntry
  | .error index => return { node with entries := node.entries.insertIdx index entry }

/-- Removes exactly one `(key, RowId)` entry while preserving full order. -/
def remove (entry : IndexEntryKey) : Except IndexError LeafNode := do
  spec.validateKey entry.key
  validateRowId entry.rowId
  match binarySearchBy (compareEntryKeys · entry) node.entries with
  | .ok position => return { node with entries := node.entries.eraseIdx position }
  | .error _ => throw .entryNotFound

/-- Reports whether the complete `(key, RowId)` identity is present. -/
def containsExact (entry : IndexEntryKey) : Except IndexError Bool := do
  spec.validateKey entry.key
  validateRowId entry.rowId
  match binarySearchBy (compareEntryKeys · entry) node.entries with
  | .ok _ => return true
  | .error _ => return false

end LeafNode

namespace InternalNode

def child (node : InternalNode) (position : Nat) : Except IndexError BTreePageRef := do
  let child ←
    if position = 0 then pure node.firstChild
    else match node.separators[position - 1]? with
      | some separator => pure separator.rightChild
      | none => throw .invalidNodeType
  validateRef child
  return child

/-- Chooses a child using complete `(key, RowId)` separator order. -/
def childPosition (node : InternalNode) (key : IndexEntryKey) : Nat :=
  partitionPoint (fun separator => compareEntryKeys key separator.key != .lt) node.separators

/-- Inserts a separator immediately after the split child position. -/
def insertSeparator (node : InternalNode) (childPosition : Nat) (key : IndexEntryKey)
    (rightChild : BTreePageRef) : Except IndexError InternalNode := do
  validateRef rightChild
  if childPosition > node.separators.length then throw .invalidNodeType
  let node := { node with
    separators := node.separators.insertIdx childPosition { key, rightChild } }
  validateInternalOrder node
  return node

/-- Removes the separator that owns the child immediately to its right. -/
def removeSeparator (node : InternalNode) (position : Nat) :
    Except IndexError (InternalSeparator × InternalNode) :=
  match node.separators[position]? with
  | some separator =>
    .ok (separator, { node with separators := node.separators.eraseIdx position })
  | none => .error .invalidNodeType

end InternalNode

def encodedKeyLen : ScalarValue → Nat
  | .null => 1
  | .bool _ | .int8 _ | .uint8 _ => 2
  | .int16 _ | .uint16 _ => 3
  | .int32 _ | .uint32 _ | .float32 _ => 5
  | .int64 _ | .uint64 _ | .float64 _ => 9
  | .int128 _ | .uint128 _ => 17
  | .text value => 5 + (utf8Bytes value).length
  | .bytes value => 5 + value.length

def encodedEntryLen (entry : IndexEntry) : Nat := encodedKeyLen entry.key + rowIdSize

def encodedEntriesSize (entries : List IndexEntry) : Nat :=
  nodeHeaderSize + (entries.map encodedEntryLen).sum

/-- Ensures an entry can fit both a leaf and a future internal separator. -/
def ensureEntryFits (spec : IndexSpec) (entry : IndexEntry) (capacity : Nat) :
    Except IndexError Unit := do
  spec.validateKey entry.key
  validateRowId entry.rowId
  spec.validateKey entry.key
  let internalSize := nodeHeaderSize + encodedKeyLen entry.key + rowIdSize + 8
  if internalSize > capacity then throw (.keyTooLarge internalSize capacity)

/-- Encoded size without the owner and generation words, with pointer width. -/
def leafEncodedLen (spec : IndexSpec) (node : LeafNode) (generated : Bool) :
    Except IndexError Nat := do
  validateLeaf spec node
  if let some next := node.nextLeaf then
    if next.generation.isSome ≠ generated then throw .invalidNodeType
  return (if generated then 8 else 0) + encodedEntriesSize node.entries

def pointerWidth (generated : Bool) : Nat := if generated then 16 else 8

/-- Encoded size without the owner and generation words, with pointer widths. -/
def internalEncodedLen (spec : IndexSpec) (node : InternalNode) : Except IndexError Nat := do
  validateInternal spec node
  let width := pointerWidth node.firstChild.generation.isSome
  return commonHeaderSize + 4 + width +
    (node.separators.map fun separator => encodedEntryLen separator.key + width).sum

end Netbadb
