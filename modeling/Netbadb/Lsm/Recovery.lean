import Netbadb.Lsm.Engine
import Mathlib.Data.List.Sort

/-!
Reopening an LSM store. The records of the log are gathered by transaction, the
resolutions the coordinator supplies are checked against the prepared ones, and
then the committed batches are applied in the order of their transaction ids,
with a Commit or Abort record for every transaction a resolution decides.
-/

namespace Netbadb.Lsm.Engine

variable {Key Row : Type}

inductive PreparedDecision where
  | commit
  | abort
  deriving DecidableEq

structure PreparedTxnResolution where
  databaseTxnId : Nat
  physicalTxnId : Nat
  decision : PreparedDecision
  deriving DecidableEq

inductive PreparedTransactionState where
  | prepared
  | committed
  | rolledBack
  deriving DecidableEq

structure PreparedTransaction where
  databaseTxnId : Nat
  physicalTxnId : Nat
  state : PreparedTransactionState
  deriving DecidableEq

inductive OpenError where
  | invalidWal (reason : String)
  | duplicatePreparedResolution (physicalTxnId : Nat)
  | unknownPreparedResolution (databaseTxnId physicalTxnId : Nat)
  | preparedResolutionMismatch (physicalTxnId expected actual : Nat)
  | preparedResolutionConflictsWithTerminalState (databaseTxnId physicalTxnId : Nat)
      (state : PreparedTransactionState) (decision : PreparedDecision)
  | preparedTransactionRequiresResolution (databaseTxnId physicalTxnId : Nat)
  deriving DecidableEq

structure RecoveredTxn (Key Row : Type) where
  mutations : Option (Batch Key Row)
  prepared : Option Nat
  commit : Option Nat
  aborted : Bool

def RecoveredTxn.empty : RecoveredTxn Key Row := ⟨none, none, none, false⟩

/-- The transactions of a log, with their ids in ascending order and the commit
sequences seen so far. -/
structure Analysis (Key Row : Type) where
  ids : List Nat
  transactions : Nat → RecoveredTxn Key Row
  commits : List Nat

namespace Analysis

def empty : Analysis Key Row := ⟨[], fun _ => .empty, []⟩

def set (a : Analysis Key Row) (id : Nat) (txn : RecoveredTxn Key Row) : Analysis Key Row :=
  { a with
    ids := if id ∈ a.ids then a.ids else a.ids.orderedInsert (· ≤ ·) id
    transactions := Function.update a.transactions id txn }

def step (a : Analysis Key Row) : LogRecord Key Row → Except OpenError (Analysis Key Row)
  | .mutationBatch id batch =>
    let txn := a.transactions id
    if txn.mutations.isSome ∨ txn.commit.isSome ∨ txn.aborted then
      throw (.invalidWal "duplicate or late mutation batch")
    else pure (a.set id { txn with mutations := some batch })
  | .prepare id databaseTxnId =>
    let txn := a.transactions id
    if txn.mutations.isNone ∨ txn.prepared.isSome ∨ txn.commit.isSome ∨ txn.aborted then
      throw (.invalidWal "invalid prepare state transition")
    else pure (a.set id { txn with prepared := some databaseTxnId })
  | .commit id commitSeq =>
    let txn := a.transactions id
    if txn.mutations.isNone ∨ txn.commit.isSome ∨ txn.aborted ∨ commitSeq ∈ a.commits then
      throw (.invalidWal "invalid or duplicate commit state")
    else pure { a.set id { txn with commit := some commitSeq } with
      commits := commitSeq :: a.commits }
  | .abort id =>
    let txn := a.transactions id
    if txn.commit.isSome ∨ txn.aborted then throw (.invalidWal "invalid abort state")
    else pure (a.set id { txn with aborted := true })

end Analysis

def analyzeWal (records : List (LogRecord Key Row)) : Except OpenError (Analysis Key Row) :=
  records.foldlM Analysis.step .empty

def RecoveredTxn.preparedState (txn : RecoveredTxn Key Row) : PreparedTransactionState :=
  if txn.commit.isSome then .committed else if txn.aborted then .rolledBack else .prepared

def classifyPrepared (a : Analysis Key Row) : List PreparedTransaction :=
  a.ids.filterMap fun id =>
    (a.transactions id).prepared.map fun database =>
      ⟨database, id, (a.transactions id).preparedState⟩

/-- The checks of one resolution; `seen` are the ids of those before it. -/
def validateResolution (prepared : List PreparedTransaction) (seen : List Nat)
    (r : PreparedTxnResolution) : Except OpenError (List Nat) :=
  if r.physicalTxnId ∈ seen then throw (.duplicatePreparedResolution r.physicalTxnId)
  else match prepared.find? (·.physicalTxnId = r.physicalTxnId) with
    | none => throw (.unknownPreparedResolution r.databaseTxnId r.physicalTxnId)
    | some t =>
      if t.databaseTxnId ≠ r.databaseTxnId then
        throw (.preparedResolutionMismatch r.physicalTxnId t.databaseTxnId r.databaseTxnId)
      else if t.state = .prepared ∨ (t.state = .committed ∧ r.decision = .commit)
          ∨ (t.state = .rolledBack ∧ r.decision = .abort) then
        pure (r.physicalTxnId :: seen)
      else throw (.preparedResolutionConflictsWithTerminalState r.databaseTxnId r.physicalTxnId
        t.state r.decision)

def validateResolutions (prepared : List PreparedTransaction)
    (resolutions : List PreparedTxnResolution) : Except OpenError Unit := do
  let _ ← resolutions.foldlM (validateResolution prepared) []
  match (prepared.filter (·.state = .prepared)).find? fun t =>
      !resolutions.any (·.physicalTxnId = t.physicalTxnId) with
  | none => pure ()
  | some t => throw (.preparedTransactionRequiresResolution t.databaseTxnId t.physicalTxnId)

/-- The first sequence for a commit decided at a reopen: behind those of the
log, or behind the reserved range where the log has none. -/
def allocateRecoveryCommit (f : Files Key Row) (a : Analysis Key Row) : Nat :=
  match a.commits.max? with
  | some maximum => maximum + 1
  | none => f.commitReservationEnd - 1 + 1

structure Recovery (Key Row : Type) where
  memtable : List (VersionedEntry Key Row)
  records : List (LogRecord Key Row)
  recoveryCommit : Nat
  commits : List (Commit Key Row)

variable [DecidableEq Key] [DecidableEq Row]

def Recovery.apply (r : Recovery Key Row) (id : Nat) (txn : RecoveredTxn Key Row)
    (commitSeq : Nat) : Except OpenError (Recovery Key Row) :=
  match txn.mutations with
  | none => throw (.invalidWal "committed transaction has no mutation batch")
  | some batch =>
    match LsmShared.applyMutations commitSeq batch.mutations r.memtable with
    | none => throw (.invalidWal "same key/version has conflicting mutations")
    | some memtable =>
      pure { r with memtable := memtable, commits := r.commits ++ [⟨id, commitSeq, batch⟩] }

def recoverTxn (a : Analysis Key Row) (resolutions : List PreparedTxnResolution)
    (r : Recovery Key Row) (id : Nat) : Except OpenError (Recovery Key Row) :=
  let txn := a.transactions id
  match txn.commit with
  | some commitSeq => r.apply id txn commitSeq
  | none =>
    if txn.aborted then pure r
    else match txn.prepared with
      | none => pure r
      | some database =>
        match resolutions.find? (·.physicalTxnId = id) with
        | none => throw (.preparedTransactionRequiresResolution database id)
        | some { decision := .commit, .. } =>
          Recovery.apply { r with
            records := r.records ++ [.commit id r.recoveryCommit]
            recoveryCommit := r.recoveryCommit + 1 } id txn r.recoveryCommit
        | some { decision := .abort, .. } =>
          pure { r with records := r.records ++ [.abort id] }

variable (f : Files Key Row) (resolutions : List PreparedTxnResolution)

/-- The part of a reopen up to the end of the loop, over the first `count`
transactions. -/
def Files.recover (count : Nat) : Except OpenError (Recovery Key Row) := do
  if f.wal.records.any LogRecord.tooLarge then
    throw (.invalidWal "invalid transaction ID or mutation count")
  let a ← analyzeWal f.wal.records
  validateResolutions (classifyPrepared a) resolutions
  (a.ids.take count).foldlM (recoverTxn a resolutions)
    ⟨[], f.wal.records, allocateRecoveryCommit f a, []⟩

def maxCommit (entries : List (VersionedEntry Key Row)) (commits : List (Commit Key Row)) : Nat :=
  (entries.map (·.version) ++ commits.map (·.commitSeq)).foldl max 0

/-- Every record found or appended at a reopen is synced. -/
def LsmWal.reopened (records : List (LogRecord Key Row)) : LsmWal Key Row :=
  ⟨records, records.length, false⟩

def Files.openWithResolutions : Except OpenError (LsmShared Key Row) := do
  let r ← f.recover resolutions f.wal.records.length
  let commitEnd := max f.commitReservationEnd (maxCommit f.sstables r.commits + 1)
  pure {
    files := ⟨f.sstables, f.txnReservationEnd, commitEnd, .reopened r.records⟩
    fallback := none
    memtable := r.memtable
    nextTxnId := f.txnReservationEnd
    nextCommitSeq := commitEnd
    recoveryRequired := false
    writer := none
    parkedPrepared := []
    outstanding := []
    transactions := fun _ => none
    reported := r.commits }

def Files.inspectRecovery (f : Files Key Row) : Except OpenError (List PreparedTransaction) := do
  if f.wal.records.any LogRecord.tooLarge then
    throw (.invalidWal "invalid transaction ID or mutation count")
  classifyPrepared <$> analyzeWal f.wal.records

/-- The coordinator's answer: its decision for every transaction in doubt. -/
def resolutionsFor (decision : Nat → PreparedDecision) (prepared : List PreparedTransaction) :
    List PreparedTxnResolution :=
  (prepared.filter (·.state = .prepared)).map fun t =>
    ⟨t.databaseTxnId, t.physicalTxnId, decision t.databaseTxnId⟩

end Netbadb.Lsm.Engine
