import Netbadb.Lsm.Record

/-!
The transactions of one LSM store and the files behind them. A commit is a
batch of mutations and a Commit record in the write-ahead log, synced, and then
entries of the memtable; a participant of a database transaction writes a
Prepare record in between and may be parked, so that another transaction can
take the writer. A flush moves the memtable to an SSTable and starts an empty
log; the two are switched by one rename of the manifest.

The log is a list of records of which some number is synced. Ids and sequences
are natural numbers, and rows and keys are arbitrary. The database's change
stream is off; read views and the arrangement of entries in SSTables are not
part of this model.
-/

namespace Netbadb.Lsm.Engine

variable {Key Row : Type}

def memtableFlushBytes : Nat := 4 * 1024 * 1024
def allocatorReservation : Nat := 1024

/-- What a transaction logs: at most one mutation of every key, a row or, for a
deletion, none. -/
structure Batch (Key Row : Type) where
  mutations : List (Key × Option Row)
  nodup : (mutations.map Prod.fst).Nodup

def Batch.empty : Batch Key Row := ⟨[], List.nodup_nil⟩

structure VersionedEntry (Key Row : Type) where
  key : Key
  version : Nat
  value : Option Row
  deriving DecidableEq

def Batch.entries (batch : Batch Key Row) (version : Nat) : List (VersionedEntry Key Row) :=
  batch.mutations.map fun (key, value) => ⟨key, version, value⟩

inductive LogRecord (Key Row : Type) where
  | mutationBatch (txnId : Nat) (batch : Batch Key Row)
  | prepare (txnId databaseTxnId : Nat)
  | commit (txnId commitSeq : Nat)
  | abort (txnId : Nat)

def LogRecord.txnId : LogRecord Key Row → Nat
  | .mutationBatch txnId _ | .prepare txnId _ | .commit txnId _ | .abort txnId => txnId

/-- Decoding accepts no batch of more mutations. -/
def LogRecord.tooLarge : LogRecord Key Row → Bool
  | .mutationBatch _ batch => decide (maxPendingMutations < batch.mutations.length)
  | _ => false

/-- The outcome of an append. A failed write is cut off again; where that fails
too, the bytes stay behind the end and the log takes no further record. -/
inductive AppendIo where
  | written
  | truncated
  | poisoned
  deriving DecidableEq

structure LsmWal (Key Row : Type) where
  records : List (LogRecord Key Row)
  /-- How many of the records are known to survive a crash. -/
  synced : Nat
  poisoned : Bool

namespace LsmWal

def create : LsmWal Key Row := ⟨[], 0, false⟩

variable (wal : LsmWal Key Row)

def append (record : LogRecord Key Row) (io : AppendIo) : LsmWal Key Row × Bool :=
  if wal.poisoned then (wal, false)
  else match io with
    | .written => ({ wal with records := wal.records ++ [record] }, true)
    | .truncated => (wal, false)
    | .poisoned => ({ wal with records := wal.records ++ [record], poisoned := true }, false)

def sync (ok : Bool) : LsmWal Key Row × Bool :=
  if wal.poisoned then (wal, false)
  else if ok then ({ wal with synced := wal.records.length }, true)
  else (wal, false)

def findCommitSeq (txnId : Nat) : Option Nat :=
  wal.records.findSome? fun
    | .commit actual commitSeq => if actual = txnId then some commitSeq else none
    | _ => none

def hasPrepare (txnId databaseTxnId : Nat) : Bool :=
  wal.records.any fun
    | .prepare actual database => actual = txnId ∧ database = databaseTxnId
    | _ => false

def hasAbort (txnId : Nat) : Bool :=
  wal.records.any fun
    | .abort actual => actual = txnId
    | _ => false

end LsmWal

/-- The files one manifest names, with the ends of the id ranges it reserves. -/
structure Files (Key Row : Type) where
  sstables : List (VersionedEntry Key Row)
  txnReservationEnd : Nat
  commitReservationEnd : Nat
  wal : LsmWal Key Row

inductive TransactionState where
  | active
  | preparePending
  | prepared
  | parkedPreparePending
  | parkedPrepared
  | commitPending
  | changeFinalizePending
  | committed
  | rollbackPending
  | rolledBack
  deriving DecidableEq

structure Transaction (Key Row : Type) where
  state : TransactionState
  /-- The batch the pending writes would log. -/
  pending : Batch Key Row
  preparedDatabaseTxnId : Option Nat
  durableBatch : Option (Batch Key Row)
  pendingCommitSeq : Option Nat
  ownsWriter : Bool
  /-- The handle was dropped, so no call names the transaction any more. -/
  dropped : Bool

structure Commit (Key Row : Type) where
  txnId : Nat
  commitSeq : Nat
  batch : Batch Key Row

def Commit.entries (c : Commit Key Row) : List (VersionedEntry Key Row) :=
  c.batch.entries c.commitSeq

structure LsmShared (Key Row : Type) where
  files : Files Key Row
  /-- The files of the manifest before, while the rename that replaced it may
  still be lost. -/
  fallback : Option (Files Key Row)
  memtable : List (VersionedEntry Key Row)
  nextTxnId : Nat
  nextCommitSeq : Nat
  recoveryRequired : Bool
  writer : Option Nat
  parkedPrepared : List Nat
  /-- The registered transactions; only their number is kept by the code. -/
  outstanding : List Nat
  transactions : Nat → Option (Transaction Key Row)
  /-- The commits that were reported to a caller or found at a reopen. No call
  reads them. -/
  reported : List (Commit Key Row)

/-- A manifest is written aside, renamed and its directory synced. -/
inductive ManifestPublish where
  | installed
  | beforeInstall
  | installedButUnsynced
  deriving DecidableEq

namespace LsmShared

def create : LsmShared Key Row where
  files := ⟨[], allocatorReservation + 1, allocatorReservation + 1, .create⟩
  fallback := none
  memtable := []
  nextTxnId := 1
  nextCommitSeq := 1
  recoveryRequired := false
  writer := none
  parkedPrepared := []
  outstanding := []
  transactions := fun _ => none
  reported := []

variable (s : LsmShared Key Row)

def ready : Bool := !s.recoveryRequired && !s.files.wal.poisoned

def handle (id : Nat) : Option (Transaction Key Row) :=
  (s.transactions id).filter fun t => !t.dropped

def put (id : Nat) (t : Transaction Key Row) : LsmShared Key Row :=
  { s with transactions := Function.update s.transactions id (some t) }

def allocateTxnId (io : ManifestPublish) : LsmShared Key Row × Option Nat :=
  if s.nextTxnId < s.files.txnReservationEnd then
    ({ s with nextTxnId := s.nextTxnId + 1 }, some s.nextTxnId)
  else
    let reserved := { s.files with txnReservationEnd := s.nextTxnId + allocatorReservation }
    match io with
    | .installed => ({ s with files := reserved, nextTxnId := s.nextTxnId + 1 }, some s.nextTxnId)
    | .beforeInstall => (s, none)
    | .installedButUnsynced =>
      ({ s with files := reserved, fallback := some s.files, recoveryRequired := true }, none)

def allocateCommitSeq (io : ManifestPublish) : LsmShared Key Row × Option Nat :=
  if s.nextCommitSeq < s.files.commitReservationEnd then
    ({ s with nextCommitSeq := s.nextCommitSeq + 1 }, some s.nextCommitSeq)
  else
    let reserved := { s.files with commitReservationEnd := s.nextCommitSeq + allocatorReservation }
    match io with
    | .installed =>
      ({ s with files := reserved, nextCommitSeq := s.nextCommitSeq + 1 }, some s.nextCommitSeq)
    | .beforeInstall => (s, none)
    | .installedButUnsynced =>
      ({ s with files := reserved, fallback := some s.files, recoveryRequired := true }, none)

def beginTransaction (io : ManifestPublish) : LsmShared Key Row :=
  if s.ready then
    match s.allocateTxnId io with
    | (s, none) => s
    | (s, some id) =>
      { s.put id ⟨.active, .empty, none, none, none, false, false⟩ with
        outstanding := id :: s.outstanding }
  else s

/-- Appends a record for a transaction and notes what becomes of the
transaction. -/
def append (id : Nat) (record : LogRecord Key Row) (io : AppendIo) (t : Transaction Key Row) :
    LsmShared Key Row × Bool :=
  let (wal, ok) := s.files.wal.append record io
  ({ s.put id t with files := { s.files with wal := wal } }, ok)

def sync (ok : Bool) : LsmShared Key Row × Bool :=
  let (wal, done) := s.files.wal.sync ok
  ({ s with files := { s.files with wal := wal } }, done)

section Maintenance

/-- `cleaned` tells whether the files that are then left over could be
removed. -/
def flushMemtable (io : ManifestPublish) (cleaned : Bool) : LsmShared Key Row × Bool :=
  if s.memtable.isEmpty then (s, true)
  else
    let flushed := { s.files with sstables := s.files.sstables ++ s.memtable, wal := .create }
    match io with
    | .installed => ({ s with files := flushed, memtable := [] }, cleaned)
    | .beforeInstall =>
      ({ s with recoveryRequired := s.recoveryRequired || !cleaned }, false)
    | .installedButUnsynced =>
      ({ s with
          files := flushed, fallback := some s.files, memtable := [], recoveryRequired := true },
        false)

def maintenanceSafe : Bool := s.ready && s.writer.isNone && s.outstanding.isEmpty

def flush (io : ManifestPublish) (cleaned : Bool) : LsmShared Key Row :=
  if s.maintenanceSafe then (s.flushMemtable io cleaned).1 else s

variable [DecidableEq Key]

/-- What a full compaction keeps: the last version of every key, unless it is a
deletion. -/
def collectGarbage (entries : List (VersionedEntry Key Row)) : List (VersionedEntry Key Row) :=
  entries.filter fun e =>
    e.value.isSome && entries.all fun other => !(other.key = e.key && e.version < other.version)

def executeCompaction (garbageCollect : Bool) (io : ManifestPublish) (cleaned : Bool) :
    LsmShared Key Row :=
  let compacted := { s.files with
    sstables := if garbageCollect then collectGarbage s.files.sstables else s.files.sstables }
  match io with
  | .installed => { s with files := compacted }
  | .beforeInstall => { s with recoveryRequired := s.recoveryRequired || !cleaned }
  | .installedButUnsynced =>
    { s with files := compacted, fallback := some s.files, recoveryRequired := true }

def compactOne (io : ManifestPublish) (cleaned : Bool) : LsmShared Key Row :=
  if s.maintenanceSafe ∧ s.memtable.isEmpty then s.executeCompaction false io cleaned else s

def compactFull (flushIo io : ManifestPublish) (flushCleaned cleaned : Bool) : LsmShared Key Row :=
  if s.maintenanceSafe then
    match s.flushMemtable flushIo flushCleaned with
    | (s, true) => s.executeCompaction true io cleaned
    | (s, false) => s
  else s

end Maintenance

section Writer

variable (rowBytes : Row → Nat)

def memtableBytes (memtable : List (VersionedEntry Key Row)) : Nat :=
  (memtable.map fun e => 40 + (e.value.map rowBytes).getD 0).sum

/-- Whether taking the writer flushes the memtable first. -/
def flushesFirst : Bool :=
  decide (memtableFlushBytes ≤ memtableBytes rowBytes s.memtable) && s.writer.isNone

def takeWriter (id : Nat) (t : Transaction Key Row) : LsmShared Key Row :=
  if s.writer.isNone || s.writer == some id then
    { s.put id { t with ownsWriter := true } with writer := some id }
  else s

def acquireWriter (id : Nat) (io : ManifestPublish) (cleaned : Bool) : LsmShared Key Row :=
  match s.handle id with
  | none => s
  | some t =>
    if s.ready ∧ t.state = .active ∧ t.ownsWriter = false then
      if s.flushesFirst rowBytes then
        match s.flushMemtable io cleaned with
        | (s, true) => s.takeWriter id t
        | (s, false) => s
      else s.takeWriter id t
    else s

end Writer

/-- Inserts, updates and deletes of the transaction that holds the writer. -/
def stageWrites (id : Nat) (batch : Batch Key Row) : LsmShared Key Row :=
  match s.handle id with
  | none => s
  | some t =>
    if t.state = .active ∧ t.ownsWriter = true then s.put id { t with pending := batch } else s

/-- Ends a transaction. Commits leave the deque of parked transactions at its
front and rollbacks at its back. -/
def finishTerminal (id : Nat) (t : Transaction Key Row) (state : TransactionState) :
    LsmShared Key Row :=
  { s.put id { t with state := state, pending := .empty, ownsWriter := false } with
    writer := if t.ownsWriter ∧ s.writer = some id then none else s.writer
    parkedPrepared :=
      if state = .committed ∧ s.parkedPrepared.head? = some id then s.parkedPrepared.tail
      else if state = .rolledBack ∧ s.parkedPrepared.getLast? = some id then
        s.parkedPrepared.dropLast
      else s.parkedPrepared
    outstanding := s.outstanding.erase id }

/-- A parked transaction is resolved under the writer, commits from the front
and rollbacks from the back. -/
def acquireParkedResolution (id : Nat) (abort : Bool) : Bool :=
  (if abort then s.parkedPrepared.getLast? else s.parkedPrepared.head?) == some id
    && (s.writer.isNone || s.writer == some id)

/-- A batch names the front of the deque, member by member. Its members are
different, since their handles are borrowed mutably. -/
def batchAdmitted (states : List TransactionState) (members : List (Nat × Nat)) : Bool :=
  s.ready && !members.isEmpty && decide (members.map Prod.fst).Nodup
    && s.parkedPrepared.take members.length == members.map Prod.fst
    && members.all fun (id, databaseTxnId) =>
      match s.handle id with
      | none => false
      | some t => t.state ∈ states ∧ t.preparedDatabaseTxnId = some databaseTxnId

section Commits

variable [DecidableEq Key] [DecidableEq Row]

/-- Adds the mutations of a batch to a memtable; two values for one version of
a key are refused. -/
def applyMutations (version : Nat) : List (Key × Option Row) → List (VersionedEntry Key Row) →
    Option (List (VersionedEntry Key Row))
  | [], memtable => if version = 0 then none else some memtable
  | (key, value) :: rest, memtable =>
    if memtable.any fun e => e.key = key ∧ e.version = version ∧ e.value ≠ value then none
    else applyMutations version rest (memtable ++ [⟨key, version, value⟩])

variable (id : Nat) (t : Transaction Key Row)

def applyCommit : Option (LsmShared Key Row) := do
  let batch ← t.durableBatch
  let commitSeq ← t.pendingCommitSeq
  let memtable ← applyMutations commitSeq batch.mutations s.memtable
  pure { s with memtable := memtable, reported := s.reported ++ [⟨id, commitSeq, batch⟩] }

/-- The end of every single commit, once its record is in the log. -/
def finishCommit (sync : Bool) : LsmShared Key Row :=
  match s.sync sync with
  | (s, false) => s
  | (s, true) =>
    match s.applyCommit id t with
    | none => s
    | some s => s.finishTerminal id t .committed

/-- Appends the Commit record of a retried commit unless the log has it. -/
def ensureCommitRecord (io : AppendIo) : LsmShared Key Row × Bool :=
  match t.pendingCommitSeq with
  | none => (s, false)
  | some expected =>
    match s.files.wal.findCommitSeq id with
    | some existing => (s, existing = expected)
    | none => s.append id (.commit id expected) io t

/-- Draws a commit sequence and appends the Commit record of a prepared
transaction. -/
def decideCommit (reserve : ManifestPublish) (io : AppendIo) :
    LsmShared Key Row × Bool × Transaction Key Row :=
  match s.allocateCommitSeq reserve with
  | (s, none) => (s, false, t)
  | (s, some commitSeq) =>
    let t := { t with state := .commitPending, pendingCommitSeq := some commitSeq }
    let (s, ok) := s.append id (.commit id commitSeq) io t
    (s, ok, t)

/-- Appends the batch of an active transaction; it moves on only when that
succeeds. -/
def appendBatch (id : Nat) (t logged : Transaction Key Row) (io : AppendIo) :
    LsmShared Key Row × Bool :=
  match s.append id (.mutationBatch id t.pending) io t with
  | (s, false) => (s, false)
  | (s, true) => (s.put id logged, true)

def commit (id : Nat) (reserve : ManifestPublish) (first second : AppendIo) (sync : Bool) :
    LsmShared Key Row :=
  match s.handle id with
  | none => s
  | some t =>
    if s.ready then
      match t.state with
      | .active =>
        if t.ownsWriter then
          match s.allocateCommitSeq reserve with
          | (s, none) => s
          | (s, some commitSeq) =>
            let logged := { t with
              state := .commitPending, durableBatch := some t.pending,
              pendingCommitSeq := some commitSeq }
            match s.appendBatch id t logged first with
            | (s, false) => s
            | (s, true) =>
              match s.append id (.commit id commitSeq) second logged with
              | (s, false) => s
              | (s, true) => s.finishCommit id logged sync
        else { s.put id { t with state := .committed } with
          outstanding := s.outstanding.erase id }
      | .commitPending =>
        match s.ensureCommitRecord id t first with
        | (s, false) => s
        | (s, true) => s.finishCommit id t sync
      | _ => s
    else s

def commitPrepared (id databaseTxnId : Nat) (reserve : ManifestPublish) (io : AppendIo)
    (sync : Bool) : LsmShared Key Row :=
  match s.handle id with
  | none => s
  | some t =>
    if s.ready ∧ t.preparedDatabaseTxnId = some databaseTxnId then
      match t.state with
      | .prepared =>
        match s.decideCommit id t reserve io with
        | (s, false, _) => s
        | (s, true, t) => s.finishCommit id t sync
      | .parkedPrepared =>
        if s.acquireParkedResolution id false then
          let t := { t with ownsWriter := true }
          match decideCommit { s.put id t with writer := some id } id t reserve io with
          | (s, false, _) => s
          | (s, true, t) => s.finishCommit id t sync
        else s
      | .commitPending =>
        match s.ensureCommitRecord id t io with
        | (s, false) => s
        | (s, true) => s.finishCommit id t sync
      | _ => s
    else s

def stageCommits : List (Nat × ManifestPublish × AppendIo) → LsmShared Key Row →
    LsmShared Key Row × Bool
  | [], s => (s, true)
  | (id, reserve, io) :: rest, s =>
    match s.handle id with
    | none => (s, false)
    | some t =>
      match t.state with
      | .parkedPrepared =>
        match s.decideCommit id t reserve io with
        | (s, false, _) => (s, false)
        | (s, true, _) => stageCommits rest s
      | .commitPending =>
        match s.ensureCommitRecord id t io with
        | (s, false) => (s, false)
        | (s, true) => stageCommits rest s
      | _ => (s, false)

def applyCommits : List Nat → LsmShared Key Row → LsmShared Key Row
  | [], s => s
  | id :: rest, s =>
    match s.handle id with
    | none => s
    | some t =>
      match s.applyCommit id t with
      | none => s
      | some s => applyCommits rest (s.put id { t with state := .changeFinalizePending })

def commitPreparedBatchAuthoritative (members : List (Nat × Nat))
    (io : List (ManifestPublish × AppendIo)) (sync : Bool) : LsmShared Key Row :=
  if s.batchAdmitted [.parkedPrepared, .commitPending] members ∧ io.length = members.length then
    match stageCommits ((members.map Prod.fst).zip io) s with
    | (s, false) => s
    | (s, true) =>
      match s.sync sync with
      | (s, false) => s
      | (s, true) => applyCommits (members.map Prod.fst) s
  else s

end Commits

section Prepares

variable (id databaseTxnId : Nat)

/-- The records of a prepare up to its sync: the batch and the Prepare record, or
the rest of them on a retry. -/
def logPrepare (t : Transaction Key Row) (first second : AppendIo) :
    LsmShared Key Row × Option (Transaction Key Row) :=
  if databaseTxnId = 0 then (s, none)
  else match t.state with
    | .active =>
      if t.ownsWriter then
        let logged := { t with
          state := .preparePending, durableBatch := some t.pending,
          preparedDatabaseTxnId := some databaseTxnId }
        match s.appendBatch id t logged first with
        | (s, false) => (s, none)
        | (s, true) =>
          match s.append id (.prepare id databaseTxnId) second logged with
          | (s, false) => (s, none)
          | (s, true) => (s, some logged)
      else (s, none)
    | .preparePending =>
      if t.preparedDatabaseTxnId = some databaseTxnId then
        if s.files.wal.hasPrepare id databaseTxnId then (s, some t)
        else match s.append id (.prepare id databaseTxnId) first t with
          | (s, false) => (s, none)
          | (s, true) => (s, some t)
      else (s, none)
    | _ => (s, none)

def prepare (first second : AppendIo) (sync : Bool) : LsmShared Key Row :=
  match s.handle id with
  | none => s
  | some t =>
    if s.ready then
      match s.logPrepare id databaseTxnId t first second with
      | (s, none) => s
      | (s, some t) =>
        match s.sync sync with
        | (s, false) => s
        | (s, true) => s.put id { t with state := .prepared }
    else s

def park (id : Nat) (t : Transaction Key Row) (state : TransactionState) : LsmShared Key Row :=
  { s.put id { t with state := state, ownsWriter := false } with
    parkedPrepared := s.parkedPrepared ++ [id]
    writer := if s.writer = some id then none else s.writer }

/-- `conflict` tells whether a row of the transaction is written by another
parked one. -/
def stageGroupPrepare (first second : AppendIo) (conflict : Bool) : LsmShared Key Row :=
  match s.handle id with
  | none => s
  | some t =>
    if s.ready then
      match s.logPrepare id databaseTxnId t first second with
      | (s, none) => s
      | (s, some t) => if conflict then s else s.park id t .parkedPreparePending
    else s

def parkPrepared (conflict : Bool) : LsmShared Key Row :=
  match s.handle id with
  | none => s
  | some t =>
    if t.preparedDatabaseTxnId = some databaseTxnId ∧ t.state = .prepared ∧ conflict = false then
      s.park id t .parkedPrepared
    else s

def notePrepared : List Nat → LsmShared Key Row → LsmShared Key Row
  | [], s => s
  | id :: rest, s =>
    match s.handle id with
    | none => s
    | some t => notePrepared rest (s.put id { t with state := .parkedPrepared })

def durabilizeGroupPrepareBatch (members : List (Nat × Nat)) (sync : Bool) : LsmShared Key Row :=
  if s.batchAdmitted [.parkedPreparePending, .parkedPrepared] members then
    match s.sync sync with
    | (s, false) => s
    | (s, true) => notePrepared (members.map Prod.fst) s
  else s

end Prepares

section Ends

def finishAll : List Nat → LsmShared Key Row → LsmShared Key Row
  | [], s => s
  | id :: rest, s =>
    match s.handle id with
    | none => s
    | some t => finishAll rest (s.finishTerminal id t .committed)

def finalizeGroupChangesBatch (ids : List Nat) : LsmShared Key Row :=
  if ids.Nodup ∧ ids.all fun id =>
      ((s.handle id).map (·.state)) == some .changeFinalizePending then
    finishAll ids s
  else s

def logAbort (id : Nat) (t : Transaction Key Row) (io : AppendIo) :
    LsmShared Key Row × Option (Transaction Key Row) :=
  match t.state with
  | .prepared | .preparePending =>
    let t := { t with state := .rollbackPending }
    match s.append id (.abort id) io t with
    | (s, false) => (s, none)
    | (s, true) => (s, some t)
  | .parkedPrepared | .parkedPreparePending =>
    if s.acquireParkedResolution id true then
      let t := { t with state := .rollbackPending, ownsWriter := true }
      match append { s with writer := some id } id (.abort id) io t with
      | (s, false) => (s, none)
      | (s, true) => (s, some t)
    else (s, none)
  | .rollbackPending =>
    if s.files.wal.hasAbort id then (s, some t)
    else match s.append id (.abort id) io t with
      | (s, false) => (s, none)
      | (s, true) => (s, some t)
  | _ => (s, none)

def rollbackPrepared (id databaseTxnId : Nat) (io : AppendIo) (sync : Bool) : LsmShared Key Row :=
  match s.handle id with
  | none => s
  | some t =>
    if s.ready ∧ t.preparedDatabaseTxnId = some databaseTxnId then
      match s.logAbort id t io with
      | (s, none) => s
      | (s, some t) =>
        match s.sync sync with
        | (s, false) => s
        | (s, true) => s.finishTerminal id t .rolledBack
    else s

def rollback (id : Nat) : LsmShared Key Row :=
  match s.handle id with
  | none => s
  | some t => if t.state = .active then s.finishTerminal id t .rolledBack else s

/-- Dropping a handle. A transaction that is parked or that holds the writer
with records in the log forces a reopen. -/
def dropHandle (id : Nat) : LsmShared Key Row :=
  match s.handle id with
  | none => s
  | some t =>
    let unresolved := t.state ∈
      [TransactionState.prepared, .preparePending, .commitPending, .rollbackPending]
    { s.put id { t with dropped := true } with
      recoveryRequired := s.recoveryRequired || s.parkedPrepared.contains id
        || (t.ownsWriter && unresolved)
      writer := if t.ownsWriter ∧ ¬ unresolved ∧ s.writer = some id then none else s.writer
      outstanding := s.outstanding.erase id }

end Ends

end LsmShared

/-- The calls on a store and its transactions, with what their file operations
do. -/
inductive Op (Key Row : Type) where
  | beginTransaction (reserve : ManifestPublish)
  | acquireWriter (id : Nat) (publish : ManifestPublish) (cleaned : Bool)
  | stageWrites (id : Nat) (batch : Batch Key Row)
  | commit (id : Nat) (reserve : ManifestPublish) (first second : AppendIo) (sync : Bool)
  | prepare (id databaseTxnId : Nat) (first second : AppendIo) (sync : Bool)
  | stageGroupPrepare (id databaseTxnId : Nat) (first second : AppendIo) (conflict : Bool)
  | parkPrepared (id databaseTxnId : Nat) (conflict : Bool)
  | durabilizeGroupPrepareBatch (members : List (Nat × Nat)) (sync : Bool)
  | commitPrepared (id databaseTxnId : Nat) (reserve : ManifestPublish) (io : AppendIo)
      (sync : Bool)
  | commitPreparedBatchAuthoritative (members : List (Nat × Nat))
      (io : List (ManifestPublish × AppendIo)) (sync : Bool)
  | finalizeGroupChangesBatch (ids : List Nat)
  | rollbackPrepared (id databaseTxnId : Nat) (io : AppendIo) (sync : Bool)
  | rollback (id : Nat)
  | dropHandle (id : Nat)
  | flush (publish : ManifestPublish) (cleaned : Bool)
  | compactOne (publish : ManifestPublish) (cleaned : Bool)
  | compactFull (flushPublish publish : ManifestPublish) (flushCleaned cleaned : Bool)

def LsmShared.call [DecidableEq Key] [DecidableEq Row] (rowBytes : Row → Nat)
    (s : LsmShared Key Row) : Op Key Row → LsmShared Key Row
  | .beginTransaction reserve => s.beginTransaction reserve
  | .acquireWriter id publish cleaned => s.acquireWriter rowBytes id publish cleaned
  | .stageWrites id batch => s.stageWrites id batch
  | .commit id reserve first second sync => s.commit id reserve first second sync
  | .prepare id database first second sync => s.prepare id database first second sync
  | .stageGroupPrepare id database first second conflict =>
    s.stageGroupPrepare id database first second conflict
  | .parkPrepared id database conflict => s.parkPrepared id database conflict
  | .durabilizeGroupPrepareBatch members sync => s.durabilizeGroupPrepareBatch members sync
  | .commitPrepared id database reserve io sync => s.commitPrepared id database reserve io sync
  | .commitPreparedBatchAuthoritative members io sync =>
    s.commitPreparedBatchAuthoritative members io sync
  | .finalizeGroupChangesBatch ids => s.finalizeGroupChangesBatch ids
  | .rollbackPrepared id database io sync => s.rollbackPrepared id database io sync
  | .rollback id => s.rollback id
  | .dropHandle id => s.dropHandle id
  | .flush publish cleaned => s.flush publish cleaned
  | .compactOne publish cleaned => s.compactOne publish cleaned
  | .compactFull flushPublish publish flushCleaned cleaned =>
    s.compactFull flushPublish publish flushCleaned cleaned

end Netbadb.Lsm.Engine
