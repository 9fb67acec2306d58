import Netbadb.Wal.Scan

/-!
The log manager of one generation file: what it remembers, how it appends and
flushes, and how it is rebuilt from a scan. The file is its bytes, written at
`nextOffset`; ownership of the file and its inode is not modelled.
-/

namespace Netbadb.Wal

open Bytes

structure WalManager where
  generation : UInt64
  baseLsn : Lsn
  checkpointLsn : Option Lsn
  nextTxnId : TxnId
  nextOffset : Nat
  nextLsn : Lsn
  writtenLsn : Option Lsn
  durableLsn : Option Lsn
  /-- `last_by_txn`, `txn_states` and `reservations`. -/
  index : LogIndex
  poisoned : Bool

def nextTxnIdAfter (txnId : TxnId) : Except WalError TxnId :=
  if txnId.toNat + 1 < 2 ^ 64 then pure (txnId + 1) else throw (.invalidNextTxnId txnId)

def beginNextTxnId (txnId : TxnId) (kind : WalRecordKind) : Except WalError (Option TxnId) :=
  if kind = .begin then some <$> nextTxnIdAfter txnId else pure none

/-- The id above every transaction of the records, or the given one. -/
def recordsNextTxnId (fallback : TxnId) (records : List WalRecord) : Except WalError TxnId :=
  match (records.map (·.txnId)).max? with
  | none => pure fallback
  | some maximum => nextTxnIdAfter maximum

def initialHeader : WalHeader :=
  ⟨initialGeneration, initialBaseLsn, none, initialNextTxnId⟩

namespace WalManager

/-- The manager of a file with the given header and records. Readability after
reopening does not prove an earlier sync, so nothing counts as durable. -/
def fromScan (header : WalHeader) (records : List WalRecord) (length : Nat) :
    Except WalError WalManager := do
  let nextLsn ← logicalLsn header.baseLsn length
  let recordsNext ← recordsNextTxnId header.nextTxnId records
  pure
    { generation := header.generation
      baseLsn := header.baseLsn
      checkpointLsn := header.checkpointLsn
      nextTxnId := max header.nextTxnId recordsNext
      nextOffset := length
      nextLsn := nextLsn
      writtenLsn := records.getLast?.map (·.lsn)
      durableLsn := none
      index := .ofRecords records
      poisoned := false }

def ensureHealthy (wal : WalManager) : Except WalError Unit :=
  if wal.poisoned then throw .poisoned else pure ()

def recorded (wal : WalManager) (record : WalRecord) (nextLsn : Lsn) (nextOffset : Nat)
    (beginNext : Option TxnId) : WalManager :=
  { wal with
    nextOffset := nextOffset
    nextLsn := nextLsn
    writtenLsn := some record.lsn
    index := wal.index.insert record
    nextTxnId := (beginNext.map (max · wal.nextTxnId)).getD wal.nextTxnId }

section Append

variable (crc32c : Crc32c) (format : PageFormat)

/-- Everything `append` checks and computes before it touches the file: the
record, its bytes and the manager once they are written. -/
def planAppend (wal : WalManager) (txnId : TxnId) (prevLsn : Option Lsn) (kind : WalRecordKind) :
    Except WalError (WalRecord × List UInt8 × WalManager) := do
  wal.ensureHealthy
  let lsn := wal.nextLsn
  let expectedPrev := wal.index.lastByTxn txnId
  if prevLsn ≠ expectedPrev then
    throw (.invalidPrevLsn lsn expectedPrev prevLsn)
  validateTransactionSequence lsn txnId (wal.index.txnStates txnId) kind
  validatePageImages format lsn kind
  let reservation ← validateTransitionReservation format lsn txnId kind wal.index.reservations
  if ∃ r ∈ reservation, ¬ reaches wal.durableLsn r then
    throw (.invalidPageImage lsn "transition reservation not durable")
  let beginNext ← beginNextTxnId txnId kind
  let record : WalRecord := ⟨lsn, txnId, prevLsn, kind⟩
  let bytes ← encodeRecord crc32c record
  let nextLsn ← checkedAdd lsn bytes.length
  let nextOffset := wal.nextOffset + bytes.length
  if 2 ^ 64 ≤ nextOffset then
    throw .lsnOverflow
  pure (record, bytes, wal.recorded record nextLsn nextOffset beginNext)

def append (wal : WalManager) (file : List UInt8) (txnId : TxnId) (prevLsn : Option Lsn)
    (kind : WalRecordKind) : Except WalError (Lsn × WalManager × List UInt8) := do
  let (record, bytes, wal') ← wal.planAppend crc32c format txnId prevLsn kind
  pure (record.lsn, wal', patch file wal.nextOffset bytes)

end Append

def flushThrough (wal : WalManager) (lsn : Lsn) : Except WalError WalManager := do
  wal.ensureHealthy
  if reaches wal.durableLsn lsn then
    return wal
  if ¬ reaches wal.writtenLsn lsn then
    throw (.flushBeyondWritten lsn wal.writtenLsn)
  return { wal with durableLsn := wal.writtenLsn }

end WalManager

end Netbadb.Wal
