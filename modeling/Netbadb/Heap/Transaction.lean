import Mathlib.Tactic

/-!
The transactions of one heap storage: their states, the single writer lease and
the deque of prepared transactions that were parked to release it. Logs, pages
and the change stream enter only through the outcome of the operations on them,
each of which may fail at every call.

Transaction ids are natural numbers; `begin` refuses to go past 64 bits.
-/

namespace Netbadb.Heap

abbrev TxnId := Nat
abbrev DatabaseTxnId := Nat

inductive TransactionState where
  | active
  | rollbackRequired
  | preparePending
  | prepared
  | parkedPreparePending
  | parkedPrepared
  | commitPending
  | changeFinalizePending
  | rollbackPending
  | committed
  | rolledBack
  deriving DecidableEq, Repr

inductive WriterState where
  | idle
  | active (txnId : TxnId)
  | recoveryRequired
  deriving DecidableEq, Repr

inductive TransactionError where
  | notActive (txnId : TxnId) (state : TransactionState)
  | notPrepared (txnId : TxnId) (state : TransactionState)
  | idExhausted
  | outstandingTransactionCountOverflow
  | invalidDatabaseTxnId
  | databaseTxnMismatch (txnId : TxnId) (expected : Option DatabaseTxnId) (actual : DatabaseTxnId)
  | writerBusy (txnId : TxnId)
  | recoveryRequired
  | preparedResolutionOrder (txnId expected : TxnId)
  | emptyPreparedCommitBatch
  | preparedCommitBatchStorageMismatch
  | emptyPreparedPrepareBatch
  | preparedPrepareBatchStorageMismatch
  | io
  deriving DecidableEq, Repr

structure Transaction where
  state : TransactionState
  preparedDatabaseTxnId : Option DatabaseTxnId
  /-- Whether the RollbackComplete record was appended. -/
  rollbackComplete : Bool
  /-- An attempt to undo the pages stopped where no later one can go on. -/
  undoStuck : Bool
  registered : Bool
  deriving DecidableEq

/-- The transactions of a heap and the runtime they share. -/
structure HeapState where
  writer : WriterState
  outstanding : Nat
  parkedPrepared : List TxnId
  parkedPreparePending : List TxnId
  /-- The status store could not undo a failed append. -/
  statusPoisoned : Bool
  /-- Maintenance left an allocation undecided; nothing starts before a reopen. -/
  maintenancePending : Bool
  nextTxnId : TxnId
  transactions : TxnId → Option Transaction

def HeapState.empty (nextTxnId : TxnId) : HeapState :=
  ⟨.idle, 0, [], [], false, false, nextTxnId, fun _ => none⟩

/-- How undoing the pages ends. An attempt that fails can leave pages from which
no later one goes on: a page of the transaction's own that was already cut off, or
one that no longer names its allocation. -/
inductive UndoIo where
  | done
  | failed
  | stuck
  deriving DecidableEq

/-- Which of the fallible operations of a call succeed, in the order in which
the calls use them. -/
structure Io where
  changes : Bool
  append : Bool
  flush : Bool
  undo : UndoIo
  completeAppend : Bool
  completeFlush : Bool
  status : Bool
  /-- Whether a failed status append could be cut off again. -/
  statusCleanup : Bool
  publish : Bool

def Io.good : Io := ⟨true, true, true, .done, true, true, true, true, true⟩

/-- One member of a batch: its handle and the database transaction it is for. -/
structure Participant where
  id : TxnId
  txn : Transaction
  databaseTxnId : DatabaseTxnId

abbrev Call := Except TransactionError Unit × HeapState

namespace HeapState

variable (h : HeapState) (x : TxnId) (t : Transaction)

def set : HeapState :=
  { h with transactions := Function.update h.transactions x (some t) }

def setState (state : TransactionState) : HeapState :=
  h.set x { t with state := state }

def releaseWriter (x : TxnId) : HeapState :=
  if h.writer = .active x then { h with writer := .idle } else h

def unregister : HeapState :=
  if t.registered then
    { h.set x { t with registered := false } with outstanding := h.outstanding - 1 }
  else h

def begin (append : Bool) : Call :=
  if h.maintenancePending ∨ h.statusPoisoned then (.error .recoveryRequired, h)
  else if 2 ^ 64 ≤ h.nextTxnId + 1 then (.error .idExhausted, h)
  else if 2 ^ 64 ≤ h.outstanding + 1 then (.error .outstandingTransactionCountOverflow, h)
  else if ¬ append then (.error .io, h)
  else
    (.ok (), { h.set h.nextTxnId ⟨.active, none, false, false, true⟩ with
      outstanding := h.outstanding + 1
      nextTxnId := h.nextTxnId + 1 })

/-- Take the writer lease where it is free. -/
def leaseWriter (x : TxnId) : Call :=
  match h.writer with
  | .idle => (.ok (), { h with writer := .active x })
  | .active y => if y = x then (.ok (), h) else (.error (.writerBusy y), h)
  | .recoveryRequired => (.error .recoveryRequired, h)

def acquireWriter : Call :=
  if t.state ≠ .active then (.error (.notActive x t.state), h)
  else if h.statusPoisoned then (.error .recoveryRequired, h)
  else h.leaseWriter x

/-- A logged write. A compound operation that logs only part of its work leaves
a transaction that can only be rolled back. -/
def write (append compound : Bool) : Call :=
  match h.acquireWriter x t with
  | (.error e, h) => (.error e, h)
  | (.ok _, h) =>
    if append then (.ok (), h)
    else (.error .io, if compound then h.setState x t .rollbackRequired else h)

/-- Pop the end of the deque at which a transaction is resolved. -/
def removeParkedResolution (x : TxnId) (abort : Bool) : Call :=
  match (if abort then h.parkedPrepared.getLast? else h.parkedPrepared.head?) with
  | none => (.ok (), h)
  | some actual =>
    let h := { h with
      parkedPrepared := if abort then h.parkedPrepared.dropLast else h.parkedPrepared.tail }
    if actual ≠ x then (.error (.preparedResolutionOrder x actual), h)
    else (.ok (), { h with parkedPreparePending := h.parkedPreparePending.erase x })

/-- Take the writer lease for the transaction at the right end of the deque. -/
def acquireParkedResolution (abort : Bool) : Call :=
  match (if abort then h.parkedPrepared.getLast? else h.parkedPrepared.head?) with
  | none => (.error (.notPrepared x t.state), h)
  | some expected =>
    if expected ≠ x then (.error (.preparedResolutionOrder x expected), h)
    else h.leaseWriter x

/-- A status append that failed poisons the store where it cannot be undone. -/
def statusFailed (io : Io) : HeapState :=
  if io.statusCleanup then h else { h with statusPoisoned := true }

/-- The commit record is in the log: make it durable and publish the status. -/
def finishCommit (io : Io) : Call :=
  if ¬ io.flush then (.error .io, h)
  else if ¬ io.status then (.error .io, h.statusFailed io)
  else
    let t := { t with state := .committed }
    let h := (h.set x t).releaseWriter x
    match h.removeParkedResolution x false with
    | (.error e, h) => (.error e, h)
    | (.ok _, h) => (if io.publish then .ok () else .error .io, h.unregister x t)

def commit (io : Io) : Call :=
  if h.statusPoisoned then (.error .recoveryRequired, h)
  else
    match t.state with
    | .active =>
      if ¬ io.changes ∨ ¬ io.append then (.error .io, h)
      else
        let t := { t with state := .commitPending }
        (h.set x t).finishCommit x t io
    | .commitPending => h.finishCommit x t io
    | state => (.error (.notActive x state), h)

variable (d : DatabaseTxnId)

def appendPrepare (io : Io) : Except TransactionError (Transaction × HeapState) :=
  if ¬ io.changes ∨ ¬ io.append then .error .io
  else
    let t := { t with state := .preparePending, preparedDatabaseTxnId := some d }
    .ok (t, h.set x t)

def flushPrepare (io : Io) : Call :=
  if io.flush then (.ok (), h.setState x t .prepared) else (.error .io, h)

def prepare (io : Io) : Call :=
  if h.statusPoisoned then (.error .recoveryRequired, h)
  else if d = 0 then (.error .invalidDatabaseTxnId, h)
  else
    match t.state with
    | .active =>
      match h.appendPrepare x t d io with
      | .error e => (.error e, h)
      | .ok (t, h) => h.flushPrepare x t io
    | .preparePending =>
      if t.preparedDatabaseTxnId = some d then h.flushPrepare x t io
      else (.error (.databaseTxnMismatch x t.preparedDatabaseTxnId d), h)
    | .prepared =>
      if t.preparedDatabaseTxnId = some d then (.ok (), h)
      else (.error (.databaseTxnMismatch x t.preparedDatabaseTxnId d), h)
    | state => (.error (.notActive x state), h)

/-- Park a transaction behind the others and give the writer lease back. -/
def park (state : TransactionState) (pending : List TxnId) : HeapState :=
  ({ h with
    parkedPrepared := h.parkedPrepared ++ [x]
    parkedPreparePending := pending }.releaseWriter x).setState x t state

def parkStaged : Call :=
  (.ok (), h.park x t .parkedPreparePending (x :: h.parkedPreparePending))

def stageGroupPrepare (io : Io) : Call :=
  if h.statusPoisoned then (.error .recoveryRequired, h)
  else if d = 0 then (.error .invalidDatabaseTxnId, h)
  else
    match t.state with
    | .active =>
      match h.appendPrepare x t d io with
      | .error e => (.error e, h)
      | .ok (t, h) => h.parkStaged x t
    | .preparePending =>
      if t.preparedDatabaseTxnId = some d then h.parkStaged x t
      else (.error (.databaseTxnMismatch x t.preparedDatabaseTxnId d), h)
    | .parkedPreparePending =>
      if t.preparedDatabaseTxnId = some d then (.ok (), h)
      else (.error (.databaseTxnMismatch x t.preparedDatabaseTxnId d), h)
    | state => (.error (.notActive x state), h)

def validatePreparedDatabaseTxn : Except TransactionError Unit :=
  if h.statusPoisoned then .error .recoveryRequired
  else if t.preparedDatabaseTxnId ≠ some d then
    .error (.databaseTxnMismatch x t.preparedDatabaseTxnId d)
  else .ok ()

def parkPrepared : Call :=
  match h.validatePreparedDatabaseTxn x t d with
  | .error e => (.error e, h)
  | .ok _ =>
    if t.state = .parkedPrepared then (.ok (), h)
    else if t.state ≠ .prepared then (.error (.notPrepared x t.state), h)
    else (.ok (), h.park x t .parkedPrepared h.parkedPreparePending)

/-- Append the Commit record of a prepared transaction and finish. -/
def commitAppended (io : Io) : Call :=
  if ¬ io.append then (.error .io, h)
  else
    let t := { t with state := .commitPending }
    (h.set x t).finishCommit x t io

def commitPrepared (io : Io) : Call :=
  match h.validatePreparedDatabaseTxn x t d with
  | .error e => (.error e, h)
  | .ok _ =>
    match t.state with
    | .prepared => h.commitAppended x t io
    | .parkedPrepared =>
      match h.acquireParkedResolution x t false with
      | (.error e, h) => (.error e, h)
      | (.ok _, h) => h.commitAppended x t io
    | .commitPending => h.finishCommit x t io
    | .committed => (.ok (), h)
    | state => (.error (.notPrepared x state), h)

def finishRollback : Call :=
  let t := { t with state := .rolledBack }
  let h := (h.set x t).releaseWriter x
  if x ∈ h.parkedPrepared then
    match h.removeParkedResolution x true with
    | (.error e, h) => (.error e, h)
    | (.ok _, h) => (.ok (), h.unregister x t)
  else (.ok (), h.unregister x t)

/-- The RollbackComplete record is in the log: make it durable and publish the
status. -/
def publishAborted (io : Io) : Call :=
  if ¬ io.completeFlush then (.error .io, h)
  else if ¬ io.status then (.error .io, h.statusFailed io)
  else
    match h.finishRollback x t with
    | (.error e, h) => (.error e, h)
    | (.ok _, h) => (if io.publish then .ok () else .error .io, h)

/-- The Abort record is in the log: undo the pages and complete the rollback. -/
def completeRollback (io : Io) : Call :=
  if t.rollbackComplete then h.publishAborted x t io
  else if ¬ io.flush then (.error .io, h)
  else if t.undoStuck ∨ io.undo ≠ .done then
    (.error .io, if io.undo = .stuck then h.set x { t with undoStuck := true } else h)
  else if ¬ io.completeAppend then (.error .io, h)
  else
    let t := { t with rollbackComplete := true }
    (h.set x t).publishAborted x t io

/-- Append the Abort record and go on. -/
def rollbackAppended (io : Io) : Call :=
  if ¬ io.append then (.error .io, h)
  else
    let t := { t with state := .rollbackPending }
    (h.set x t).completeRollback x t io

def rollbackInternal (io : Io) (allowPrepared : Bool) : Call :=
  if h.statusPoisoned then (.error .recoveryRequired, h)
  else
    match t.state with
    | .active | .rollbackRequired => h.rollbackAppended x t io
    | .preparePending | .prepared =>
      if allowPrepared then h.rollbackAppended x t io
      else (.error (.notActive x t.state), h)
    | .parkedPreparePending | .parkedPrepared =>
      if allowPrepared then
        match h.acquireParkedResolution x t true with
        | (.error e, h) => (.error e, h)
        | (.ok _, h) => h.rollbackAppended x t io
      else (.error (.notActive x t.state), h)
    | .rollbackPending => h.completeRollback x t io
    | state => (.error (.notActive x state), h)

def rollback (io : Io) : Call := h.rollbackInternal x t io false

def rollbackPrepared (io : Io) : Call :=
  match h.validatePreparedDatabaseTxn x t d with
  | .error e => (.error e, h)
  | .ok _ => h.rollbackInternal x t io true

/-- Every participant is in an allowed state and at its place in the deque. -/
def validatePrefix (allowed : List TransactionState) :
    List (Participant × TxnId) → Except TransactionError Unit
  | [] => .ok ()
  | (p, expected) :: rest =>
    match h.validatePreparedDatabaseTxn p.id p.txn p.databaseTxnId with
    | .error e => .error e
    | .ok _ =>
      if p.txn.state ∉ allowed then .error (.notPrepared p.id p.txn.state)
      else if expected ≠ p.id then .error (.preparedResolutionOrder p.id expected)
      else validatePrefix allowed rest

/-- Append the missing Commit records, `appends` of which succeed. -/
def stageCommits : HeapState → List Participant → Nat → Call
  | h, [], _ => (.ok (), h)
  | h, p :: rest, appends =>
    if p.txn.state = .parkedPrepared then
      match appends with
      | 0 => (.error .io, h)
      | appends + 1 => stageCommits (h.setState p.id p.txn .commitPending) rest appends
    else stageCommits h rest appends

/-- Publish the statuses in order, `statuses` of which succeed. -/
def finishCommits (statusCleanup : Bool) : HeapState → List Participant → Nat → Call
  | h, [], _ => (.ok (), h)
  | h, _ :: _, 0 => (.error .io, if statusCleanup then h else { h with statusPoisoned := true })
  | h, p :: rest, statuses + 1 =>
    match (h.releaseWriter p.id).removeParkedResolution p.id false with
    | (.error e, h) => (.error e, h)
    | (.ok _, h) =>
      let h := (h.unregister p.id p.txn).set p.id
        { p.txn with state := .changeFinalizePending, registered := false }
      finishCommits statusCleanup h rest statuses

def commitPreparedBatchAuthoritative (ps : List Participant) (appends statuses : Nat)
    (flush statusCleanup : Bool) : Call :=
  if ps = [] then (.error .emptyPreparedCommitBatch, h)
  else if h.parkedPrepared.length < ps.length then
    (.error .preparedCommitBatchStorageMismatch, h)
  else
    match h.validatePrefix [.parkedPrepared, .commitPending] (ps.zip h.parkedPrepared) with
    | .error e => (.error e, h)
    | .ok _ =>
      match h.stageCommits ps appends with
      | (.error e, h) => (.error e, h)
      | (.ok _, h) =>
        if ¬ flush then (.error .io, h)
        else h.finishCommits statusCleanup ps statuses

def durabilizeGroupPrepareBatch (ps : List Participant) (flush : Bool) : Call :=
  if ps = [] then (.error .emptyPreparedPrepareBatch, h)
  else if h.parkedPrepared.length < ps.length then
    (.error .preparedPrepareBatchStorageMismatch, h)
  else
    match h.validatePrefix [.parkedPreparePending, .parkedPrepared] (ps.zip h.parkedPrepared) with
    | .error e => (.error e, h)
    | .ok _ =>
      if ¬ flush then (.error .io, h)
      else
        (.ok (), ps.foldl (fun h p =>
          { h.setState p.id p.txn .parkedPrepared with
            parkedPreparePending := h.parkedPreparePending.erase p.id }) h)

end HeapState

inductive Op where
  | begin (append : Bool)
  | write (x : TxnId) (append compound : Bool)
  | prepare (x : TxnId) (d : DatabaseTxnId) (io : Io)
  | stageGroupPrepare (x : TxnId) (d : DatabaseTxnId) (io : Io)
  | parkPrepared (x : TxnId) (d : DatabaseTxnId)
  | commit (x : TxnId) (io : Io)
  | commitPrepared (x : TxnId) (d : DatabaseTxnId) (io : Io)
  | rollback (x : TxnId) (io : Io)
  | rollbackPrepared (x : TxnId) (d : DatabaseTxnId) (io : Io)
  | commitPreparedBatch (xs : List (TxnId × DatabaseTxnId)) (appends statuses : Nat)
      (flush statusCleanup : Bool)
  | durabilizeGroupPrepareBatch (xs : List (TxnId × DatabaseTxnId)) (flush : Bool)

def Op.members : Op → List TxnId
  | .begin _ => []
  | .write x _ _ | .prepare x _ _ | .stageGroupPrepare x _ _ | .parkPrepared x _ | .commit x _
  | .commitPrepared x _ _ | .rollback x _ | .rollbackPrepared x _ _ => [x]
  | .commitPreparedBatch xs _ _ _ _ | .durabilizeGroupPrepareBatch xs _ => xs.map Prod.fst

namespace HeapState

variable (h : HeapState)

/-- A batch borrows the handles of its members, which are therefore distinct. -/
def participants (xs : List (TxnId × DatabaseTxnId)) : Option (List Participant) :=
  if (xs.map Prod.fst).Nodup then
    xs.mapM fun x => (h.transactions x.1).map fun t => ⟨x.1, t, x.2⟩
  else none

def call : Op → Option Call
  | .begin append => some (h.begin append)
  | .write x append compound => (h.transactions x).map fun t => h.write x t append compound
  | .prepare x d io => (h.transactions x).map fun t => h.prepare x t d io
  | .stageGroupPrepare x d io => (h.transactions x).map fun t => h.stageGroupPrepare x t d io
  | .parkPrepared x d => (h.transactions x).map fun t => h.parkPrepared x t d
  | .commit x io => (h.transactions x).map fun t => h.commit x t io
  | .commitPrepared x d io => (h.transactions x).map fun t => h.commitPrepared x t d io
  | .rollback x io => (h.transactions x).map fun t => h.rollback x t io
  | .rollbackPrepared x d io => (h.transactions x).map fun t => h.rollbackPrepared x t d io
  | .commitPreparedBatch xs appends statuses flush statusCleanup =>
    (h.participants xs).map fun ps =>
      h.commitPreparedBatchAuthoritative ps appends statuses flush statusCleanup
  | .durabilizeGroupPrepareBatch xs flush =>
    (h.participants xs).map fun ps => h.durabilizeGroupPrepareBatch ps flush

end HeapState

end Netbadb.Heap
