import Netbadb.Lsm.Record

/-!
The pending writes of an LSM transaction. Each row has one entry, which says
where the row was, where it is now and what it holds. Admission limits the
number of rows and an estimate of their bytes; the log gets the canonical batch
of the entries, with one mutation for a row that stays at its key and two for a
row that moves.

The allocated row id, the encoded row and its key are inputs, as is what the
store answers about a handle of a committed row. A call that fails leaves the
entries as they were.
-/

namespace Netbadb.Lsm

open Wal

def sstMaxBlockBytes : Nat := 64 * 1024
def sstEntryHeaderBytes : Nat := 32

structure PendingRow where
  originalKey : Option ClusteringKey
  currentKey : ClusteringKey
  row : Option (List UInt8)
  baseVersion : Option LsmCommitSeq
  revision : Nat
  deriving DecidableEq

inductive LsmObservedVersion where
  | committed (version : LsmCommitSeq)
  | pending (revision : Nat)
  deriving DecidableEq

structure LsmRowHandle where
  rowId : LsmRowId
  observed : LsmObservedVersion
  clusteringKey : ClusteringKey
  deriving DecidableEq

/-- The entries by row id, in ascending order of the ids. -/
abbrev PendingRows := List (LsmRowId × PendingRow)

namespace PendingRows

def get (pending : PendingRows) (rowId : LsmRowId) : Option PendingRow :=
  (pending.find? (·.1 = rowId)).map (·.2)

def insert : PendingRows → LsmRowId → PendingRow → PendingRows
  | [], rowId, row => [(rowId, row)]
  | entry :: rest, rowId, row =>
    if rowId < entry.1 then (rowId, row) :: entry :: rest
    else if rowId = entry.1 then (rowId, row) :: rest
    else entry :: insert rest rowId row

def remove (pending : PendingRows) (rowId : LsmRowId) : PendingRows :=
  pending.filter (·.1 ≠ rowId)

end PendingRows

structure LsmTransaction where
  id : TxnId
  pending : PendingRows
  pendingBytes : Nat
  nextRevision : Nat

/-- A transaction without writes. -/
def beginTransaction (id : TxnId) : LsmTransaction := ⟨id, [], 0, 1⟩

def PendingRow.estimate (row : PendingRow) : Nat := 64 + (row.row.map List.length).getD 0

def validateSstableRowBytes (rowBytes : Nat) : Except LsmError Unit :=
  if sstMaxBlockBytes - sstEntryHeaderBytes < rowBytes then
    throw (.resourceLimit "LSM SSTable entry bytes" sstMaxBlockBytes)
  else pure ()

namespace LsmTransaction

variable (t : LsmTransaction)

def takeRevision : Except LsmError (Nat × LsmTransaction) :=
  if t.nextRevision + 1 < 2 ^ 64 then
    pure (t.nextRevision, { t with nextRevision := t.nextRevision + 1 })
  else throw (.allocatorExhausted "pending revision")

/-- The estimate once an entry is replaced. No replacement removes the entry. -/
def checkPendingReplacement (previous : Option PendingRow) (replacementRowBytes : Option Nat) :
    Except LsmError Nat := do
  let previousBytes := (previous.map PendingRow.estimate).getD 0
  let replacementBytes := (replacementRowBytes.map (· + 64)).getD 0
  let total := t.pendingBytes - previousBytes + replacementBytes
  if t.pendingBytes < previousBytes ∨ maxPendingTransactionBytes < total then
    throw (.resourceLimit "LSM pending transaction bytes" maxPendingTransactionBytes)
  let rows := t.pending.length - previous.toList.length + replacementRowBytes.toList.length
  if maxPendingMutations < rows then
    throw (.resourceLimit "LSM pending mutations" maxPendingMutations)
  pure total

variable (refreshed : Option LsmRowHandle) (handle : LsmRowHandle)

/-- A handle is valid where it names the entry as it is, or the latest committed
version of a row without an entry. -/
def validateHandle : Except LsmError Unit :=
  match t.pending.get handle.rowId with
  | some row =>
    if handle.observed = .pending row.revision ∧ handle.clusteringKey = row.currentKey
        ∧ row.row.isSome then pure ()
    else throw (.staleHandle handle.rowId)
  | none => if refreshed = some handle then pure () else throw (.staleHandle handle.rowId)

def insertIn (nextRowId : LsmRowId) (key : ClusteringKey) (encoded : List UInt8) :
    Except LsmError (LsmTransaction × LsmRowHandle) := do
  validateSstableRowBytes encoded.length
  let pendingBytes ← t.checkPendingReplacement none (some encoded.length)
  if nextRowId = 0 then
    throw (.allocatorExhausted "row ID")
  let (revision, t) ← t.takeRevision
  let row : PendingRow := ⟨none, key, some encoded, none, revision⟩
  pure ({ t with pending := t.pending.insert nextRowId row, pendingBytes := pendingBytes },
    ⟨nextRowId, .pending revision, key⟩)

def updatedRow (handle : LsmRowHandle) (key : ClusteringKey) (encoded : List UInt8)
    (revision : Nat) : Except LsmError PendingRow :=
  match t.pending.get handle.rowId, handle.observed with
  | some row, _ => pure { row with currentKey := key, row := some encoded, revision := revision }
  | none, .committed version =>
    pure ⟨some handle.clusteringKey, key, some encoded, some version, revision⟩
  | none, .pending _ => throw (.staleHandle handle.rowId)

def updateIn (key : ClusteringKey)
    (encoded : List UInt8) : Except LsmError (LsmTransaction × LsmRowHandle) := do
  t.validateHandle refreshed handle
  validateSstableRowBytes encoded.length
  let pendingBytes ← t.checkPendingReplacement (t.pending.get handle.rowId) (some encoded.length)
  let (revision, t) ← t.takeRevision
  let row ← t.updatedRow handle key encoded revision
  pure ({ t with pending := t.pending.insert handle.rowId row, pendingBytes := pendingBytes },
    ⟨handle.rowId, .pending revision, key⟩)

/-- A row that the transaction inserted itself leaves no tombstone behind. -/
def insertedHere (rowId : LsmRowId) : Bool :=
  (t.pending.get rowId).any (·.originalKey.isNone)

def deletedRows (handle : LsmRowHandle) (revision : Nat) : Except LsmError PendingRows :=
  match t.pending.get handle.rowId, handle.observed with
  | some row, _ =>
    if row.originalKey.isNone then pure (t.pending.remove handle.rowId)
    else pure (t.pending.insert handle.rowId { row with row := none, revision := revision })
  | none, .committed version =>
    pure (t.pending.insert handle.rowId
      ⟨some handle.clusteringKey, handle.clusteringKey, none, some version, revision⟩)
  | none, .pending _ => throw (.staleHandle handle.rowId)

def deleteIn : Except LsmError LsmTransaction := do
  t.validateHandle refreshed handle
  let replacement := if t.insertedHere handle.rowId then none else some 0
  let pendingBytes ← t.checkPendingReplacement (t.pending.get handle.rowId) replacement
  let (revision, t) ← t.takeRevision
  let pending ← t.deletedRows handle revision
  pure { t with pending := pending, pendingBytes := pendingBytes }

end LsmTransaction

def rowMutations (rowId : LsmRowId) (row : PendingRow) : List WalMutation :=
  (match row.originalKey with
    | some original =>
      if original ≠ row.currentKey ∨ row.row.isNone then [.tombstone ⟨original, rowId⟩] else []
    | none => [])
  ++ (match row.row with
    | some bytes => [.put ⟨row.currentKey, rowId⟩ bytes]
    | none => [])

def LsmTransaction.canonicalBatch (t : LsmTransaction) : Except LsmError (List WalMutation) :=
  match t.pending.find? (fun entry =>
    entry.2.originalKey.isSome ≠ entry.2.baseVersion.isSome) with
  | some entry => throw (.staleHandle entry.1)
  | none => pure ((t.pending.flatMap fun entry => rowMutations entry.1 entry.2).mergeSort
      fun m m' => m.key.place ≤ m'.key.place)

section Runs

/-- What a store answers about its rows. Row ids of stored rows are not zero. -/
structure Committed where
  refreshHandle : LsmRowId → Option LsmRowHandle
  nonzero : refreshHandle 0 = none

/-- A transaction after some writes that were admitted. What the store answers
may change from one write to the next. -/
inductive Admitted (id : TxnId) : LsmTransaction → Prop
  | begin : Admitted id (beginTransaction id)
  | insert {t t' : LsmTransaction} {nextRowId : LsmRowId} {key : ClusteringKey}
      {encoded : List UInt8} {handle : LsmRowHandle} (h : Admitted id t)
      (hinsert : t.insertIn nextRowId key encoded = .ok (t', handle)) : Admitted id t'
  | update {t t' : LsmTransaction} {store : Committed} {handle handle' : LsmRowHandle}
      {key : ClusteringKey} {encoded : List UInt8} (h : Admitted id t)
      (hupdate : t.updateIn (store.refreshHandle handle.rowId) handle key encoded
        = .ok (t', handle')) : Admitted id t'
  | delete {t t' : LsmTransaction} {store : Committed} {handle : LsmRowHandle}
      (h : Admitted id t)
      (hdelete : t.deleteIn (store.refreshHandle handle.rowId) handle = .ok t') : Admitted id t'

end Runs

end Netbadb.Lsm
