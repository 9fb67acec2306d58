import Netbadb.Heap.Transaction
import Netbadb.Lsm.Engine

/-!
Rolling back a database transaction before its commit decision.

The coordinator holds one participant for each storage, a heap or an LSM store,
and asks each to roll back. What a participant is asked depends on the state it
is in, which an earlier attempt may have changed. Transactions that change the
schema are not part of this model.
-/

namespace Netbadb.Coordinator

open Heap

open Lsm.Engine (LsmShared AppendIo)

variable {Key Row : Type}

/-- Both engines report their states in one enumeration. -/
abbrev StorageTransactionState := TransactionState

def lsmState : Lsm.Engine.TransactionState → StorageTransactionState
  | .active => .active
  | .preparePending => .preparePending
  | .prepared => .prepared
  | .parkedPreparePending => .parkedPreparePending
  | .parkedPrepared => .parkedPrepared
  | .commitPending => .commitPending
  | .changeFinalizePending => .changeFinalizePending
  | .committed => .committed
  | .rollbackPending => .rollbackPending
  | .rolledBack => .rolledBack

structure CallIo where
  heap : Io
  reserve : Lsm.Engine.ManifestPublish
  first : AppendIo
  second : AppendIo
  sync : Bool

def CallIo.good : CallIo := ⟨.good, .installed, .written, .written, true⟩

inductive StorageTransaction (Key Row : Type) where
  | heap (h : HeapState) (x : TxnId)
  | lsm (s : LsmShared Key Row) (id : Nat)

inductive StorageError where
  | heap (error : TransactionError)
  | lsm
  deriving DecidableEq

namespace StorageTransaction

def state : StorageTransaction Key Row → Option StorageTransactionState
  | .heap h x => (h.transactions x).map (·.state)
  | .lsm s id => (s.handle id).map fun t => lsmState t.state

def onHeap (h : HeapState) (x : TxnId) (call : Transaction → Call) :
    Except StorageError Unit × StorageTransaction Key Row :=
  match h.transactions x with
  | none => (.error (.heap (.notActive x .rolledBack)), .heap h x)
  | some t => ((call t).1.mapError .heap, .heap (call t).2 x)

/-- A call of an LSM store succeeds exactly where it leaves the state it is for. -/
def onLsm (s : LsmShared Key Row) (id : Nat) (state : Lsm.Engine.TransactionState) :
    Except StorageError Unit × StorageTransaction Key Row :=
  (if (s.handle id).map (·.state) = some state then .ok () else .error .lsm, .lsm s id)

def rollback (io : CallIo) :
    StorageTransaction Key Row → Except StorageError Unit × StorageTransaction Key Row
  | .heap h x => onHeap h x fun t => h.rollback x t io.heap
  | .lsm s id => onLsm (s.rollback id) id .rolledBack

def rollbackPrepared (d : DatabaseTxnId) (io : CallIo) :
    StorageTransaction Key Row → Except StorageError Unit × StorageTransaction Key Row
  | .heap h x => onHeap h x fun t => h.rollbackPrepared x t d io.heap
  | .lsm s id => onLsm (s.rollbackPrepared id d io.first io.sync) id .rolledBack

def commit [DecidableEq Key] [DecidableEq Row] (io : CallIo) :
    StorageTransaction Key Row → Except StorageError Unit × StorageTransaction Key Row
  | .heap h x => onHeap h x fun t => h.commit x t io.heap
  | .lsm s id => onLsm (s.commit id io.reserve io.first io.second io.sync) id .committed

end StorageTransaction

inductive ParticipantMode where
  | read
  | write
  deriving DecidableEq

structure StorageParticipant (Key Row : Type) where
  storageId : Nat
  mode : ParticipantMode
  context : StorageTransaction Key Row

inductive TransactionState where
  | active
  | rollbackRequired
  | preparing
  | parkedPreparePending
  | parkedPrepared
  | decisionPending
  | commitDecided
  | applyingCommit
  | finalizePending
  | commitPending
  | rollbackPending
  | committed
  | rolledBack
  deriving DecidableEq

inductive CoordinatorError where
  | storage (error : StorageError)
  | participantStateViolation (storageId : Nat)
  | commitAlreadyDecided (state : TransactionState)
  | notActive (state : TransactionState)
  deriving DecidableEq

def StorageParticipant.update (p : StorageParticipant Key Row)
    (out : Except StorageError Unit × StorageTransaction Key Row) :
    Except CoordinatorError Unit × StorageParticipant Key Row :=
  (out.1.mapError .storage, { p with context := out.2 })

def rollbackParticipant (d : DatabaseTxnId) (io : CallIo) (p : StorageParticipant Key Row) :
    Except CoordinatorError Unit × StorageParticipant Key Row :=
  match p.context.state with
  | some .rolledBack => (.ok (), p)
  | some .committed =>
    if p.mode = .read then (.ok (), p) else (.error (.participantStateViolation p.storageId), p)
  | some .preparePending | some .prepared | some .parkedPreparePending | some .parkedPrepared =>
    p.update (p.context.rollbackPrepared d io)
  | some .active | some .rollbackRequired | some .rollbackPending =>
    p.update (p.context.rollback io)
  | _ => (.error (.participantStateViolation p.storageId), p)

/-- One participant of a failed group member: a read that is about to commit
does so first. -/
def resolveParticipant [DecidableEq Key] [DecidableEq Row] (d : DatabaseTxnId) (io : CallIo)
    (p : StorageParticipant Key Row) : Except CoordinatorError Unit × StorageParticipant Key Row :=
  if p.mode = .read ∧ p.context.state = some .commitPending then
    match p.update (p.context.commit io) with
    | (.error e, p) => (.error e, p)
    | (.ok _, p) => rollbackParticipant d io p
  else rollbackParticipant d io p

/-- The loop over the participants that are due; the first error ends it. -/
def visit (f : StorageParticipant Key Row → Except CoordinatorError Unit × StorageParticipant Key Row)
    (due : StorageParticipant Key Row → Bool) :
    List (StorageParticipant Key Row) →
      Except CoordinatorError Unit × List (StorageParticipant Key Row)
  | [] => (.ok (), [])
  | p :: rest =>
    if due p then
      match f p with
      | (.error e, p) => (.error e, p :: rest)
      | (.ok _, p) => ((visit f due rest).1, p :: (visit f due rest).2)
    else ((visit f due rest).1, p :: (visit f due rest).2)

structure DatabaseTransaction (Key Row : Type) where
  id : DatabaseTxnId
  state : TransactionState
  /-- In the order of their storages. -/
  participants : List (StorageParticipant Key Row)

namespace DatabaseTransaction

abbrev Ios := Nat → CallIo

variable (txn : DatabaseTransaction Key Row)

def visited (out : Except CoordinatorError Unit × List (StorageParticipant Key Row)) :
    Except CoordinatorError Unit × DatabaseTransaction Key Row :=
  match out with
  | (.error e, ps) => (.error e, { txn with state := .rollbackPending, participants := ps })
  | (.ok _, ps) => (.ok (), { txn with state := .rolledBack, participants := ps })

def rollbackBeforeDecision (io : Ios) :
    Except CoordinatorError Unit × DatabaseTransaction Key Row :=
  let rollback := fun p => rollbackParticipant txn.id (io p.storageId) p
  txn.visited (match visit rollback (·.mode = .write) txn.participants with
    | (.error e, ps) => (.error e, ps)
    | (.ok _, ps) => visit rollback (·.mode = .read) ps)

def rollback (io : Ios) : Except CoordinatorError Unit × DatabaseTransaction Key Row :=
  match txn.state with
  | .active | .rollbackRequired | .preparing | .rollbackPending => txn.rollbackBeforeDecision io
  | .decisionPending | .commitDecided | .applyingCommit | .finalizePending | .committed =>
    (.error (.commitAlreadyDecided txn.state), txn)
  | state => (.error (.notActive state), txn)

def resolveFailedGroupMember [DecidableEq Key] [DecidableEq Row] (txn : DatabaseTransaction Key Row)
    (io : Ios) : Except CoordinatorError Unit × DatabaseTransaction Key Row :=
  if txn.state = .rolledBack then (.ok (), txn)
  else if txn.state ≠ .preparing ∧ txn.state ≠ .rollbackPending then
    (.error (.notActive txn.state), txn)
  else
    let out := visit (fun p => resolveParticipant txn.id (io p.storageId) p) (fun _ => true)
      txn.participants.reverse
    txn.visited (out.1, out.2.reverse)

end DatabaseTransaction

end Netbadb.Coordinator
