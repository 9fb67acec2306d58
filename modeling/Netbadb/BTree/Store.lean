import Netbadb.Index.Rebalance

/-!
The page file as the B+Tree sees it. A page image is the decoded payload of
one B+Tree page; every other page of the file is opaque. Reads carry the
checks of the buffer pool and of the decoders. Writes are prepared first and
published as one batch, as in the source.

A page image holds no bytes, so the write-ahead log and the buffer frames do
not appear: the batch is the one whose log records and frame writes all
succeeded. What the allocator's scan of reusable pages returned, and the
generation a reservation record got, are inputs of each call.
-/

namespace Netbadb

inductive StorageError where
  | index (error : IndexError)
  | recordTooLarge (size capacity : Nat)
  | invalidPageId (page : Nat)
  | invalidFormat (message : String)
  deriving DecidableEq, Repr

namespace BTree

/-- Lets an index error pass through as a storage error. -/
def lift {α : Type} : Except IndexError α → Except StorageError α
  | .ok value => .ok value
  | .error error => .error (.index error)

inductive PageKind where
  | btreeMeta | btreeLeaf | btreeInternal | other
  deriving DecidableEq, Repr

/-- The decoded content of one page. A retired page keeps the page kind it
had. -/
inductive PageImage where
  | other
  | metaPage (node : MetaNode)
  | leaf (owner : Option Nat) (generation : Option Nat) (node : LeafNode)
  | internal (owner : Option Nat) (generation : Option Nat) (node : InternalNode)
  | retired (kind : PageKind) (reference : PageRef) (owner : Nat)
  deriving DecidableEq, Repr

namespace PageImage

def kind : PageImage → PageKind
  | .other => .other
  | .metaPage _ => .btreeMeta
  | .leaf .. => .btreeLeaf
  | .internal .. => .btreeInternal
  | .retired kind .. => kind

/-- `btree_page_owner`. -/
def owner : PageImage → Option Nat
  | .other => none
  | .metaPage node => node.owner
  | .leaf owner .. => owner
  | .internal owner .. => owner
  | .retired _ _ owner => some owner

/-- `Page::allocation_generation`. -/
def allocationGeneration (id : Nat) : PageImage → Except IndexError (Option Nat)
  | .other => .ok none
  | .metaPage node => .ok node.generation
  | .leaf _ generation _ => .ok generation
  | .internal _ generation _ => .ok generation
  | .retired kind reference _ =>
    if reference.pageId ≠ id ∨ kind = .btreeMeta then .error .invalidNodeType
    else .ok (some reference.generation)

end PageImage

/-- The pages of one file, by page number. -/
structure Store where
  pages : List PageImage
  deriving DecidableEq, Repr

variable (s : Store)

def Store.pageCount : Nat := s.pages.length

def pageSize : Nat := 4 * 1024
def pageHeaderSize : Nat := 28
def slotSize : Nat := 8

/-- `Page::single_payload_capacity`. -/
def singlePayloadCapacity : Nat := pageSize - pageHeaderSize - slotSize

/-- `BufferPool::read_btree_page`. -/
def readBTreePage (reference : BTreePageRef) : Except StorageError PageImage :=
  match s.pages[reference.pageId]? with
  | none => throw (.invalidPageId reference.pageId)
  | some page => do
      let actual ← lift (page.allocationGeneration reference.pageId)
      lift (validateBTreeGeneration reference.generation actual)
      return page

def validateChild (reference : BTreePageRef) : Except StorageError Unit :=
  if reference.pageId = 0 ∨ s.pageCount ≤ reference.pageId then
    throw (.index (.invalidChild reference.pageId))
  else return ()

def readMeta (handle : BTreeHandle) : Except StorageError MetaNode := do
  validateChild s handle.metaPage
  match ← readBTreePage s handle.metaPage with
  | .metaPage node =>
    lift (validateMeta node)
    lift (validateBTreeOwner handle.owner node.owner)
    lift (validateBTreeGeneration handle.metaPage.generation node.generation)
    if s.pageCount ≤ node.height then throw (.index (.invalidHeight node.height))
    validateChild s node.rootPage
    return node
  | _ => throw (.index .invalidNodeType)

def readLeaf (page : BTreePageRef) (tree : MetaNode) : Except StorageError LeafNode := do
  validateChild s page
  match ← readBTreePage s page with
  | .leaf owner _ node =>
    lift (validateBTreeOwner tree.owner owner)
    lift (validateLeaf tree.spec node)
    return node
  | .retired .btreeLeaf _ _ => throw (.index .invalidMagic)
  | _ => throw (.index .invalidNodeType)

def readInternal (page : BTreePageRef) (tree : MetaNode) : Except StorageError InternalNode := do
  validateChild s page
  match ← readBTreePage s page with
  | .internal owner _ node =>
    lift (validateBTreeOwner tree.owner owner)
    lift (validateInternal tree.spec node)
    validateChild s node.firstChild
    node.separators.forM fun separator => validateChild s separator.rightChild
    return node
  | .retired .btreeInternal _ _ => throw (.index .invalidMagic)
  | _ => throw (.index .invalidNodeType)

/-- Room for a node once the identity words are reserved. -/
def nodeCapacity (tree : MetaNode) : Nat :=
  singlePayloadCapacity -
    if tree.generation.isSome then 16 else if tree.owner.isSome then btreeOwnerSize else 0

def encodeLeafFor (tree : MetaNode) (node : LeafNode) (page : BTreePageRef) :
    Except IndexError Nat :=
  encodeLeafGeneration tree.spec node tree.owner page.generation

def encodeInternalFor (tree : MetaNode) (node : InternalNode) (page : BTreePageRef) :
    Except IndexError Nat :=
  encodeInternalGeneration tree.spec node tree.owner page.generation

/-- How a prepared page reaches the file: over its current content, at the end
of the file, or over a page whose previous allocation ended. -/
inductive Publication where
  | existing | newPage | transition
  deriving DecidableEq, Repr

structure PreparedPage where
  reference : BTreePageRef
  image : PageImage
  publication : Publication
  deriving DecidableEq, Repr

/-- `prepare_existing_page`, for an image whose payload has `size` bytes. -/
def prepareExistingPage (reference : BTreePageRef) (image : PageImage) (size : Nat)
    (owner : Option Nat) : Except StorageError PreparedPage := do
  let page ← readBTreePage s reference
  if page.kind ≠ image.kind then throw (.index .invalidNodeType)
  lift (validateBTreeOwner owner page.owner)
  lift (validateBTreeOwner owner image.owner)
  let generation ← lift (image.allocationGeneration reference.pageId)
  lift (validateBTreeGeneration reference.generation generation)
  if size > singlePayloadCapacity then
    throw (.recordTooLarge size singlePayloadCapacity)
  return { reference, image, publication := .existing }

/-- One answer of the allocator: the reusable page its scan claimed, if any,
and the generation reserved for the new allocation. -/
structure PageGrant where
  claim : Option Nat
  generation : Nat
  deriving DecidableEq, Repr

/-- The allocator during one call: the next unused page number and the answers
still to come. Claimed pages leave the cache of candidates. -/
structure Allocator where
  nextPageId : Nat
  claimed : List Nat
  grants : Nat → PageGrant
  taken : Nat

/-- Key types whose payloads `allocation_transition::identity` recognises. -/
def identityTypes : List PhysicalType := [.bool, .int64, .uint64, .text]

/-- `allocation_transition::identity`: the allocation and owner of a page. -/
def identity (id : Nat) (page : PageImage) : Except StorageError (PageRef × Nat) := do
  if page.kind = .other then throw (.index .invalidNodeType)
  let some owner := page.owner | throw (.index .invalidNodeType)
  let some generation ← lift (page.allocationGeneration id) | throw (.index .invalidNodeType)
  let specs : List IndexSpec :=
    identityTypes.map fun physical => { dataType := { physical, name := none }, nullable := true }
  let recognised : Bool :=
    match page with
    | .retired .. => true
    | .metaPage node => (validateMeta node).isOk
    | .leaf _ _ node => specs.any fun spec => (validateLeaf spec node).isOk
    | .internal _ _ node => specs.any fun spec => (validateInternal spec node).isOk
    | .other => false
  if recognised then return ({ pageId := id, generation }, owner)
  else throw (.index .invalidNodeType)

def isRetired : PageImage → Bool
  | .retired .. => true
  | _ => false

/-- `allocation_transition::validate`. -/
def validateTransition (id : Nat) (before after : PageImage) : Except StorageError Unit := do
  let (old, oldOwner) ← identity id before
  let (new, newOwner) ← identity id after
  if old.generation ≥ new.generation ∨ (!isRetired before ∧ oldOwner = newOwner) ∨
      isRetired after then
    throw (.invalidFormat "invalid BTree allocation transition identities")

structure NewBTreePage where
  reference : BTreePageRef
  publication : Publication
  deriving DecidableEq, Repr

/-- `claim_reusable_btree_page` for one candidate of the scan: a retirement
marker, or a page of another owner whose whole index is retired. -/
def claimReusable (owner : Nat) (claimed : List Nat) (id : Nat) : Except StorageError Nat := do
  let some page := s.pages[id]? | throw (.invalidPageId id)
  let (_, actualOwner) ← identity id page
  if id ∈ claimed then throw (.invalidFormat "reusable BTree candidate identity changed")
  if !isRetired page ∧ actualOwner = owner then throw (.index .invalidNodeType)
  return id

variable (alloc : Allocator) (owner : Option Nat) (generated : Bool)

/-- The reusable page of the next grant. Only registered trees reuse pages. -/
def claimGranted : Except StorageError (Option Nat) :=
  if generated then
    match owner, (alloc.grants alloc.taken).claim with
    | none, _ => throw (.index .invalidNodeType)
    | some _, none => return none
    | some owner, some id => some <$> claimReusable s owner alloc.claimed id
  else return none

/-- A reference to a page with the generation of the next grant. -/
def Allocator.reference (alloc : Allocator) (generated : Bool) (id : Nat) : BTreePageRef :=
  if generated then
    .allocated { pageId := id, generation := (alloc.grants alloc.taken).generation }
  else .legacy id

/-- `take_page_ref`. -/
def takePageRef : Except StorageError (NewBTreePage × Allocator) := do
  match ← claimGranted s alloc owner generated with
  | some id =>
    return ({ reference := alloc.reference generated id, publication := .transition },
      { alloc with claimed := id :: alloc.claimed, taken := alloc.taken + 1 })
  | none =>
    return ({ reference := alloc.reference generated alloc.nextPageId, publication := .newPage },
      { alloc with nextPageId := alloc.nextPageId + 1, taken := alloc.taken + 1 })

/-- `prepare_new_page`, for an image whose payload has `size` bytes. -/
def prepareNewPage (allocation : NewBTreePage) (image : PageImage) (size : Nat)
    (owner : Option Nat) : Except StorageError PreparedPage := do
  lift (validateBTreeOwner owner image.owner)
  let generation ← lift (image.allocationGeneration allocation.reference.pageId)
  lift (validateBTreeGeneration allocation.reference.generation generation)
  if size > singlePayloadCapacity then
    throw (.recordTooLarge size singlePayloadCapacity)
  return { reference := allocation.reference, image, publication := allocation.publication }

/-- The log records of a batch: a transition is checked when it is logged. -/
def logChanges (changes : List PreparedPage) : Except StorageError Unit :=
  changes.forM fun change =>
    match change.publication with
    | .transition =>
      match s.pages[change.reference.pageId]? with
      | some before => validateTransition change.reference.pageId before change.image
      | none => throw (.invalidPageId change.reference.pageId)
    | _ => pure ()

/-- Publishes one page. A new page must get the number it was prepared with. -/
def publishPage (change : PreparedPage) : Except StorageError Store :=
  match change.publication with
  | .newPage =>
    if s.pageCount = change.reference.pageId then return { pages := s.pages ++ [change.image] }
    else throw (.index (.invalidChild s.pageCount))
  | .transition => return { pages := s.pages.set change.reference.pageId change.image }
  | .existing => do
      let _ ← readBTreePage s change.reference
      return { pages := s.pages.set change.reference.pageId change.image }

/-- Publishes pages in order. A failure keeps what was published before it;
the transaction then requires a rollback. -/
def publishPages (s : Store) : List PreparedPage → Store × Except StorageError Unit
  | [] => (s, .ok ())
  | change :: rest =>
    match publishPage s change with
    | .ok s' => publishPages s' rest
    | .error error => (s, .error error)

/-- `apply_changes`: log the whole batch, publish new pages and transitions,
then the existing pages. -/
def applyChanges (changes : List PreparedPage) : Store × Except StorageError Unit :=
  match logChanges s changes with
  | .error error => (s, .error error)
  | .ok () =>
    publishPages s (changes.filter (·.publication ≠ .existing) ++
      changes.filter (·.publication = .existing))

/-- `retire_btree_page_in`: the page becomes a retirement marker. -/
def retireBTreePageIn (expected : PageRef) (owner : Nat) : Except StorageError Store := do
  let before ← readBTreePage s (.allocated expected)
  if before.kind ≠ .btreeLeaf ∧ before.kind ≠ .btreeInternal then
    throw (.index .invalidNodeType)
  if isRetired before then throw (.index (.alreadyRetired expected))
  let (actual, actualOwner) ← identity expected.pageId before
  if actual ≠ expected then throw (.index (.invalidChild expected.pageId))
  lift (validateBTreeOwner (some owner) (some actualOwner))
  return { pages := s.pages.set expected.pageId (.retired before.kind expected owner) }

/-- Retires the unlinked pages of a registered tree. Legacy pages have no
generation and stay as orphans. -/
def retirePages (s : Store) (owner : Nat) :
    List BTreePageRef → Store × Except StorageError Unit
  | [] => (s, .ok ())
  | .legacy _ :: rest => retirePages s owner rest
  | .allocated reference :: rest =>
    match retireBTreePageIn s reference owner with
    | .ok s' => retirePages s' owner rest
    | .error error => (s, .error error)

/-- `apply_unlinks_and_retire`. -/
def applyUnlinksAndRetire (changes : List PreparedPage)
    (retired : List BTreePageRef) (owner : Option Nat) : Store × Except StorageError Unit :=
  match applyChanges s changes with
  | (s', .error error) => (s', .error error)
  | (s', .ok ()) =>
    match owner with
    | none => (s', .ok ())
    | some owner => retirePages s' owner retired

end BTree

end Netbadb
