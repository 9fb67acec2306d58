import Netbadb.Mvcc.Visibility
import Netbadb.Library.Outcome

/-!
The versioned heap under concurrent transactions. A transaction reads through
views, writes under the writer lease, may be parked once prepared, and ends by
a commit record whose log position becomes its commit sequence, or by undoing
its pages. Vacuum removes what no view at or after the oldest one can see.

A call is a function of the state. What the source leaves to its files and to
the page allocator (where a record lands, which append fails) is an argument.
-/

namespace Netbadb.Mvcc

structure Version (Row : Type) where
  header : TupleHeader
  row : Row
  deriving DecidableEq, Repr

/-- The stored pages: row versions in scan order, the registered indexes and their entries. -/
structure HeapData (Row Column Key : Type) where
  rows : List (RowId × Version Row)
  plans : List Column
  entries : List (Column × Key × RowId)

inductive IsolationLevel where
  | readCommitted
  | repeatableRead
  deriving DecidableEq, Repr

inductive TxnPhase where
  | active
  | prepared
  | parked
  | commitPending (seq : CommitSeq)
  | rollbackPending
  /-- The handle was dropped; only recovery resolves the transaction. -/
  | dropped
  deriving DecidableEq, Repr

structure Txn where
  isolationLevel : IsolationLevel
  phase : TxnPhase
  commandId : CommandId
  nextCommandId : CommandId
  repeatableReadView : Option CommitSeq
  deriving DecidableEq, Repr

inductive WriterState where
  | idle
  | active (txnId : TxnId)
  | recoveryRequired
  deriving DecidableEq, Repr

/-- The heap with its running transactions. `stack` lists the transactions with page updates
that are neither committed nor undone, newest first, each with the pages it started from: what
its undo restores. `parkedPrepared` is the deque of the parked ones, in the order in which they
were parked. -/
structure HeapState (Row Column Key : Type) where
  data : HeapData Row Column Key
  store : StatusStore
  txns : TxnId → Option Txn
  nextTxnId : TxnId
  nextLsn : CommitSeq
  writer : WriterState
  parkedPrepared : List TxnId
  stack : List (TxnId × HeapData Row Column Key)
  views : List Snapshot

variable {Row Column Key : Type}

namespace HeapData

variable (data : HeapData Row Column Key)

def find (rowId : RowId) : Option (Version Row) :=
  (data.rows.find? fun p => p.1 = rowId).map (·.2)

def scanRows (store : StatusStore) (snapshot : Snapshot) :
    List (RowId × Version Row) → Except MvccError (List (RowId × Row))
  | [] => pure []
  | p :: rows => do
      let visible ← isVisible store p.2.header snapshot
      let rest ← scanRows store snapshot rows
      pure (if visible then (p.1, p.2.row) :: rest else rest)

def scan (store : StatusStore) (snapshot : Snapshot) : Except MvccError (List (RowId × Row)) :=
  scanRows store snapshot data.rows

def place (position : Nat) (rowId : RowId) (version : Version Row) : HeapData Row Column Key :=
  { data with rows := data.rows.take position ++ (rowId, version) :: data.rows.drop position }

def expire (rowId : RowId) (xmax : TxnId) (cmax : CommandId)
    (next : Option RowId) : HeapData Row Column Key :=
  { data with
    rows := data.rows.map fun p =>
      if p.1 = rowId then (p.1, { p.2 with header := p.2.header.expire xmax cmax next }) else p }

def addEntries (value : Column → Row → Key) (data : HeapData Row Column Key) (rowId : RowId)
    (row : Row) : HeapData Row Column Key :=
  { data with
    entries := data.entries ++ data.plans.map fun column => (column, value column row, rowId) }

/-- The entries a new index gets: one for each row the builder's view sees. -/
def backfill (value : Column → Row → Key) (column : Column)
    (rows : List (RowId × Row)) (data : HeapData Row Column Key) : HeapData Row Column Key :=
  { data with
    plans := data.plans ++ [column]
    entries := data.entries ++ rows.map fun p => (column, value column p.2, p.1) }

def deadRows (store : StatusStore) (horizon : CommitSeq) :
    List (RowId × Version Row) → Except MvccError (List (RowId × Version Row))
  | [] => pure []
  | p :: rows => do
      let dead ← isDeadBefore store p.2.header horizon
      let rest ← deadRows store horizon rows
      pure (if dead then p :: rest else rest)

variable [DecidableEq Column] [DecidableEq Key]

/-- Remove the chosen dead versions and the index entries of the chosen dead versions. -/
def reclaim (value : Column → Row → Key) (data : HeapData Row Column Key)
    (dead : List (RowId × Version Row)) (rowGone entryGone : RowId → Bool) :
    HeapData Row Column Key :=
  { data with
    rows := data.rows.filter fun p => ¬ (p.1 ∈ dead.map (·.1) ∧ rowGone p.1)
    entries := data.entries.filter fun e =>
      ¬ (e.1 ∈ data.plans ∧ entryGone e.2.2 ∧
        ∃ p ∈ dead, p.1 = e.2.2 ∧ value e.1 p.2.row = e.2.1) }

end HeapData

/-- How a vacuum's own transaction ends. If neither its commit nor its undo gets through, some
of its removals stay and the writer requires recovery. -/
inductive VacuumEnd where
  | committed
  | undone
  | stuck (rowGone entryGone : RowId → Bool)

inductive Op (Row Column : Type) where
  | begin (isolationLevel : IsolationLevel)
  | beginStatement (txnId : TxnId)
  | beginStatementAt (txnId : TxnId) (visibleCsn : CommitSeq)
  | readView
  | readViewAt (visibleCsn : CommitSeq)
  | currentReadView (txnId : TxnId)
  | dropView (snapshot : Snapshot)
  | acquireWriter (txnId : TxnId)
  | insertIn (txnId : TxnId) (position : Nat) (rowId : RowId) (row : Row)
  | updateIn (txnId : TxnId) (rowId : RowId) (position : Nat) (newRowId : RowId) (row : Row)
  | deleteIn (txnId : TxnId) (rowId : RowId)
  | buildIndexIn (txnId : TxnId) (column : Column)
  | prepare (txnId : TxnId)
  | park (txnId : TxnId)
  | acquireParkedResolution (txnId : TxnId) (abort : Bool)
  | appendCommit (txnId : TxnId)
  | finishCommit (txnId : TxnId) (io : AppendIo)
  | rollback (txnId : TxnId) (io : AppendIo)
  | drop (txnId : TxnId)
  | vacuum (ending : VacuumEnd)

namespace HeapState

def empty (data : HeapData Row Column Key) : HeapState Row Column Key :=
  { data, store := .empty, txns := fun _ => none, nextTxnId := 1, nextLsn := 1
    writer := .idle, parkedPrepared := [], stack := [], views := [] }

variable (s : HeapState Row Column Key) (txnId : TxnId)

def setTxn (txn : Option Txn) : HeapState Row Column Key :=
  { s with txns := Function.update s.txns txnId txn }

def activeTxn : Except MvccError Txn :=
  match s.txns txnId with
  | some txn => if txn.phase = .active then .ok txn else .error .notActive
  | none => .error .notActive

def begin (isolationLevel : IsolationLevel) : HeapState Row Column Key :=
  { s.setTxn s.nextTxnId (some ⟨isolationLevel, .active, 1, 1, none⟩) with
    store := s.store.markActive s.nextTxnId
    nextTxnId := s.nextTxnId + 1 }

/-- The boundary a transaction reads at, keeping the first one under Repeatable Read. -/
def visibleBoundary (txn : Txn) : CommitSeq × HeapState Row Column Key :=
  match txn.isolationLevel, txn.repeatableReadView with
  | .readCommitted, _ => (s.store.maximumCommitSeq, s.setTxn txnId (some txn))
  | .repeatableRead, some visible => (visible, s.setTxn txnId (some txn))
  | .repeatableRead, none =>
    let visible := s.store.maximumCommitSeq
    (visible,
      { s.setTxn txnId (some { txn with repeatableReadView := some visible }) with
        views := ⟨visible, some txnId, txn.commandId⟩ :: s.views })

def nextStatement (txn : Txn) : Txn :=
  { txn with commandId := txn.nextCommandId, nextCommandId := txn.nextCommandId + 1 }

def beginStatement : Except MvccError (HeapState Row Column Key) := do
  let txn ← s.activeTxn txnId
  let txn := nextStatement txn
  let (visible, s) := s.visibleBoundary txnId txn
  pure { s with views := ⟨visible, some txnId, txn.commandId⟩ :: s.views }

def beginStatementAt (visibleCsn : CommitSeq) : Except MvccError (HeapState Row Column Key) := do
  let txn ← s.activeTxn txnId
  if s.store.maximumCommitSeq < visibleCsn then throw .futureVisibilityBoundary
  let txn := nextStatement txn
  pure
    { s.setTxn txnId (some txn) with
      views := ⟨visibleCsn, some txnId, txn.commandId⟩ :: s.views }

/-- A view that belongs to no transaction. -/
def readViewAt (visibleCsn : CommitSeq) : Except MvccError (HeapState Row Column Key) := do
  if s.store.maximumCommitSeq < visibleCsn then throw .futureVisibilityBoundary
  pure { s with views := ⟨visibleCsn, none, 1⟩ :: s.views }

def readView : Except MvccError (HeapState Row Column Key) :=
  s.readViewAt s.store.maximumCommitSeq

/-- The view a write checks its row with; it lasts for the call. -/
def currentReadView : Except MvccError (Snapshot × HeapState Row Column Key) := do
  let txn ← s.activeTxn txnId
  let (visible, s) := s.visibleBoundary txnId txn
  pure (⟨visible, some txnId, txn.commandId⟩, s)

def dropView (snapshot : Snapshot) : HeapState Row Column Key :=
  { s with views := s.views.erase snapshot }

/-- Take the writer lease where it is free. -/
def leaseWriter : Except MvccError (HeapState Row Column Key) :=
  match s.writer with
  | .idle => pure { s with writer := .active txnId }
  | .active other => if other = txnId then pure s else throw (.writerBusy other)
  | .recoveryRequired => throw .recoveryRequired

def acquireWriter : Except MvccError (HeapState Row Column Key) := do
  let _ ← s.activeTxn txnId
  if s.store.poisoned then throw .recoveryRequired
  s.leaseWriter txnId

/-- The first page update of a transaction: its undo restores the pages as they are now. -/
def touch : HeapState Row Column Key :=
  if txnId ∈ s.stack.map (·.1) then s else { s with stack := (txnId, s.data) :: s.stack }

def ensureNoPreparedWriteConflict (xmax : Option TxnId) : Except MvccError Unit :=
  match xmax with
  | none => pure ()
  | some conflicting =>
    if conflicting = txnId then pure ()
    else if conflicting ∈ s.parkedPrepared then throw (.preparedWriteConflict conflicting)
    else pure ()

def readRowWithView (rowId : RowId) (view : Snapshot) : Except MvccError (Version Row) :=
  match s.data.find rowId with
  | none => throw (.rowNotFound rowId)
  | some version => do
      let visible ← isVisible s.store version.header view
      if visible then pure version else throw (.rowNotFound rowId)

variable [DecidableEq Column] [DecidableEq Key] (value : Column → Row → Key)
  (s : HeapState Row Column Key)

def ensureEntries (rowId : RowId) (row : Row) : Except MvccError Unit :=
  if ∀ column ∈ s.data.plans, (column, value column row, rowId) ∈ s.data.entries then pure ()
  else throw .entryNotFound

/-- The allocator hands out a slot generation nobody used. -/
def freshRowId (s : HeapState Row Column Key) (rowId : RowId) : Except MvccError Unit :=
  if rowId ∈ s.data.rows.map (·.1) then throw .rowIdInUse else pure ()

def insertIn (txnId : TxnId) (position : Nat) (rowId : RowId) (row : Row) :
    Except MvccError (HeapState Row Column Key) := do
  let txn ← s.activeTxn txnId
  let s ← s.acquireWriter txnId
  s.freshRowId rowId
  let s := s.touch txnId
  let version : Version Row := ⟨.insertedBy txnId txn.commandId, row⟩
  pure { s with data := (s.data.place position rowId version).addEntries value rowId row }

def updateIn (txnId : TxnId) (rowId : RowId) (position : Nat) (newRowId : RowId) (row : Row) :
    Except MvccError (HeapState Row Column Key) := do
  let (view, s) ← s.currentReadView txnId
  let old ← s.readRowWithView rowId view
  let s ← s.acquireWriter txnId
  s.ensureEntries value rowId old.row
  s.ensureNoPreparedWriteConflict txnId old.header.xmax
  s.freshRowId newRowId
  let s := s.touch txnId
  let version : Version Row := ⟨.insertedBy txnId view.commandId, row⟩
  let expired := s.data.expire rowId txnId view.commandId (some newRowId)
  pure { s with data := (expired.place position newRowId version).addEntries value newRowId row }

def deleteIn (txnId : TxnId) (rowId : RowId) : Except MvccError (HeapState Row Column Key) := do
  let (view, s) ← s.currentReadView txnId
  let old ← s.readRowWithView rowId view
  let s ← s.acquireWriter txnId
  s.ensureEntries value rowId old.row
  s.ensureNoPreparedWriteConflict txnId old.header.xmax
  let s := s.touch txnId
  pure { s with data := s.data.expire rowId txnId view.commandId none }

def buildIndexIn (txnId : TxnId)
    (column : Column) : Except MvccError (HeapState Row Column Key) := do
  let s ← s.acquireWriter txnId
  if column ∈ s.data.plans then throw .indexAlreadyExists
  let (view, s) ← s.currentReadView txnId
  let rows ← s.data.scan s.store view
  let s := s.touch txnId
  pure { s with data := s.data.backfill value column rows }

variable (s : HeapState Row Column Key) (txnId : TxnId)

def prepare : Except MvccError (HeapState Row Column Key) := do
  let txn ← s.activeTxn txnId
  pure (s.setTxn txnId (some { txn with phase := .prepared }))

/-- The writer lease once the transaction no longer holds it. -/
def releaseWriter : WriterState :=
  if s.writer = .active txnId then .idle else s.writer

/-- A prepared transaction goes behind the others and gives its lease back. -/
def park : Except MvccError (HeapState Row Column Key) :=
  match s.txns txnId with
  | none => throw .notActive
  | some txn =>
    if txn.phase = .prepared then
      pure
        { s.setTxn txnId (some { txn with phase := .parked }) with
          writer := s.releaseWriter txnId
          parkedPrepared := s.parkedPrepared ++ [txnId] }
    else throw .notActive

/-- Take the lease for the transaction at the right end of the deque. -/
def acquireParkedResolution (abort : Bool) : Except MvccError (HeapState Row Column Key) :=
  if s.store.poisoned then throw .recoveryRequired
  else
    match (if abort then s.parkedPrepared.getLast? else s.parkedPrepared.head?) with
    | none => throw .notActive
    | some expected =>
      if expected = txnId then s.leaseWriter txnId
      else throw (.preparedResolutionOrder expected)

/-- Append the Commit record; its log position is the commit sequence. The transactions of a
batch do not take the lease for it. -/
def appendCommit : Except MvccError (HeapState Row Column Key) :=
  match s.txns txnId with
  | none => throw .notActive
  | some txn =>
    if txn.phase = .active ∨ txn.phase = .prepared ∨ txn.phase = .parked then
      pure
        { s.setTxn txnId (some { txn with phase := .commitPending s.nextLsn }) with
          nextLsn := s.nextLsn + 1 }
    else throw .notActive

/-- The transaction gives up its lease and its place among the unresolved ones. -/
def release : HeapState Row Column Key :=
  { s.setTxn txnId none with
    writer := s.releaseWriter txnId
    stack := s.stack.filter fun p => p.1 ≠ txnId }

/-- Flush the log and record the outcome; a failure leaves the commit to be retried. Whoever
commits, the front of the deque is popped. -/
def finishCommit (io : AppendIo) : Except MvccError (HeapState Row Column Key) :=
  match s.txns txnId with
  | none => throw .notActive
  | some txn =>
    match txn.phase with
    | .commitPending seq =>
      match s.store.record txnId (.committed seq) io with
      | (store, .ok ()) =>
        pure { s.release txnId with store, parkedPrepared := s.parkedPrepared.tail }
      | (store, .error _) => pure { s with store }
    | _ => throw .notActive

/-- The pages once the transaction's changes are undone. Only the newest of the transactions
with page changes can be undone. -/
def undoPages : Except MvccError (HeapData Row Column Key) :=
  if txnId ∈ s.stack.map (·.1) then
    match s.stack with
    | (top, base) :: _ => if top = txnId then pure base else throw .rollbackOrder
    | [] => throw .rollbackOrder
  else pure s.data

/-- Undo the transaction's pages and record the outcome; a failure to record it leaves the
rollback to be retried. -/
def rollbackInternal (txn : Txn) (io : AppendIo) : Except MvccError (HeapState Row Column Key) := do
  let data ← s.undoPages txnId
  match s.store.record txnId .aborted io with
  | (store, .ok ()) =>
    pure
      { s.release txnId with
        store, data
        parkedPrepared :=
          if txnId ∈ s.parkedPrepared then s.parkedPrepared.dropLast else s.parkedPrepared }
  | (store, .error _) =>
    pure
      { s.setTxn txnId (some { txn with phase := .rollbackPending }) with
        store, data }

def rollback (io : AppendIo) : Except MvccError (HeapState Row Column Key) :=
  match s.txns txnId with
  | none => throw .notActive
  | some txn =>
    match txn.phase with
    | .commitPending _ | .dropped => throw .notActive
    | .parked => do
        let s ← s.acquireParkedResolution txnId true
        s.rollbackInternal txnId txn io
    | .active | .prepared | .rollbackPending => s.rollbackInternal txnId txn io

/-- Whether dropping the handle leaves page updates that only recovery can resolve. -/
def dropRequiresRecovery (txn : Txn) : Bool :=
  decide (txnId ∈ s.parkedPrepared) ||
    (decide (s.writer = .active txnId) &&
      match txn.phase with
      | .prepared | .commitPending _ | .rollbackPending => true
      | .active => decide (txnId ∈ s.stack.map (·.1))
      | .parked | .dropped => false)

def drop : Except MvccError (HeapState Row Column Key) :=
  match s.txns txnId with
  | none => throw .notActive
  | some txn =>
    if txn.phase = .dropped then throw .notActive
    else if s.dropRequiresRecovery txnId txn then
      pure
        { s.setTxn txnId (some { txn with phase := .dropped }) with
          writer := .recoveryRequired }
    else
      pure
        { s.setTxn txnId none with
          writer := if txn.phase = .active then s.releaseWriter txnId else s.writer
          store := s.store.clearActive txnId }

def oldestSnapshot (s : HeapState Row Column Key) : Option CommitSeq :=
  (s.views.map (·.visibleCsn)).min?

def vacuum (ending : VacuumEnd) : Except MvccError (HeapState Row Column Key) := do
  let horizon := s.oldestSnapshot.getD s.store.maximumCommitSeq
  let dead ← HeapData.deadRows s.store horizon s.data.rows
  if dead.isEmpty then pure s
  else
    if s.store.poisoned then throw .recoveryRequired
    match s.writer with
    | .active other => throw (.writerBusy other)
    | .recoveryRequired => throw .recoveryRequired
    | .idle =>
      let txnId := s.nextTxnId
      match ending with
      | .committed =>
        pure
          { s with
            data := s.data.reclaim value dead (fun _ => true) (fun _ => true)
            store := s.store.insertStatus txnId (.committed s.nextLsn)
            nextTxnId := txnId + 1
            nextLsn := s.nextLsn + 1
            parkedPrepared := s.parkedPrepared.tail }
      | .undone =>
        pure
          { s with
            store := s.store.insertStatus txnId .aborted
            nextTxnId := txnId + 1 }
      | .stuck rowGone entryGone =>
        pure
          { s with
            data := s.data.reclaim value dead rowGone entryGone
            store := s.store.markActive txnId
            nextTxnId := txnId + 1
            writer := .recoveryRequired }

def call :
    Op Row Column → Except MvccError (HeapState Row Column Key)
  | .begin isolationLevel => pure (s.begin isolationLevel)
  | .beginStatement txnId => s.beginStatement txnId
  | .beginStatementAt txnId visibleCsn => s.beginStatementAt txnId visibleCsn
  | .readView => s.readView
  | .readViewAt visibleCsn => s.readViewAt visibleCsn
  | .currentReadView txnId => do
      let (_, s) ← s.currentReadView txnId
      pure s
  | .dropView snapshot => pure (s.dropView snapshot)
  | .acquireWriter txnId => s.acquireWriter txnId
  | .insertIn txnId position rowId row => s.insertIn value txnId position rowId row
  | .updateIn txnId rowId position newRowId row =>
    s.updateIn value txnId rowId position newRowId row
  | .deleteIn txnId rowId => s.deleteIn value txnId rowId
  | .buildIndexIn txnId column => s.buildIndexIn value txnId column
  | .prepare txnId => s.prepare txnId
  | .park txnId => s.park txnId
  | .acquireParkedResolution txnId abort => s.acquireParkedResolution txnId abort
  | .appendCommit txnId => s.appendCommit txnId
  | .finishCommit txnId io => s.finishCommit txnId io
  | .rollback txnId io => s.rollback txnId io
  | .drop txnId => s.drop txnId
  | .vacuum ending => s.vacuum value ending

end HeapState

end Netbadb.Mvcc
