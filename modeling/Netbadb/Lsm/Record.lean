import Netbadb.Types
import Netbadb.Wal.Record

/-!
The write-ahead log of an LSM store. A log is a 32-byte header and records,
each a 20-byte header, a payload and a CRC32C over both. A commit is a batch of
mutations followed by a Commit record, with a Prepare record in between for a
participant of a database transaction.

Offsets into a file or a payload are modelled by the rest of the bytes behind
them.
-/

namespace Netbadb.Lsm

open Bytes Wal

abbrev LsmRowId := UInt64
abbrev LsmCommitSeq := UInt64
abbrev StorageId := UInt64

def walRecordMagic : List UInt8 := [0x4e, 0x42, 0x4c, 0x52]
def walFormatVersion : Nat := 1
def walHeaderSize : Nat := 32
def walRecordHeaderSize : Nat := 20
def walMaxRecordBytes : Nat := 32 * 1024 * 1024
def maxPendingTransactionBytes : Nat := 16 * 1024 * 1024
def maxPendingMutations : Nat := 65536

inductive LsmError where
  | invalidWal (reason : String)
  | invalidManifest (reason : String)
  | unsupportedWalVersion (version : Nat)
  | storageIdMismatch (expected actual : StorageId)
  | walChecksum (offset stored computed : Nat)
  | resourceLimit (resource : String) (limit : Nat)
  | allocatorExhausted (allocator : String)
  | staleHandle (rowId : LsmRowId)
  deriving DecidableEq, Repr

/-- The value of the clustering column, of one of the two types it may have. -/
inductive ClusteringKey where
  | int64 (value : Int64)
  | uint64 (value : UInt64)
  deriving DecidableEq

namespace ClusteringKey

def kind : ClusteringKey → PhysicalType
  | .int64 _ => .int64
  | .uint64 _ => .uint64

def bits : ClusteringKey → UInt64
  | .int64 value => value.toUInt64
  | .uint64 value => value

/-- The place of a key in the derived order: all signed keys come first. -/
def place : ClusteringKey → Nat ×ₗ Int
  | .int64 value => toLex (0, value.toInt)
  | .uint64 value => toLex (1, value.toNat)

end ClusteringKey

structure PhysicalKey where
  clustering : ClusteringKey
  rowId : LsmRowId
  deriving DecidableEq

def PhysicalKey.place (key : PhysicalKey) : (Nat ×ₗ Int) ×ₗ Nat :=
  toLex (key.clustering.place, key.rowId.toNat)

inductive WalMutation where
  | put (key : PhysicalKey) (row : List UInt8)
  | tombstone (key : PhysicalKey)
  deriving DecidableEq

def WalMutation.key : WalMutation → PhysicalKey
  | .put key _ => key
  | .tombstone key => key

inductive WalRecord where
  | mutationBatch (txnId : TxnId) (mutations : List WalMutation)
  | prepare (txnId : TxnId) (databaseTxnId : DatabaseTxnId)
  | commit (txnId : TxnId) (commitSeq : LsmCommitSeq)
  | abort (txnId : TxnId)
  deriving DecidableEq

/-- The tag of a clustering type; only these two have one. -/
def physicalTypeTag : PhysicalType → Except LsmError UInt8
  | .int64 => pure 1
  | .uint64 => pure 2
  | _ => throw (.invalidManifest "unsupported clustering type")

def decodePhysicalType (tag : UInt8) : Except LsmError PhysicalType :=
  if tag = 1 then pure .int64
  else if tag = 2 then pure .uint64
  else throw (.invalidManifest "invalid clustering type tag")

def encodePhysicalKey (key : PhysicalKey) : Except LsmError (List UInt8) := do
  if key.rowId = 0 then
    throw (.invalidManifest "physical key encoding is invalid")
  let tag ← physicalTypeTag key.clustering.kind
  pure ([tag, 0, 0, 0] ++ leBytes 8 key.clustering.bits.toNat ++ leBytes 8 key.rowId.toNat)

def decodeKeyBits (bits : UInt64) : PhysicalType → Except LsmError ClusteringKey
  | .int64 => pure (.int64 bits.toInt64)
  | .uint64 => pure (.uint64 bits)
  | _ => throw (.invalidManifest "unsupported clustering type")

def decodePhysicalKey (bytes : List UInt8) (expected : PhysicalType) :
    Except LsmError PhysicalKey := do
  if bytes.length ≠ 20 ∨ slice bytes 1 3 ≠ [0, 0, 0] then
    throw (.invalidManifest "physical key is malformed")
  let kind ← decodePhysicalType (bytes.getD 0 0)
  if kind ≠ expected then
    throw (.invalidManifest "physical key type differs from manifest")
  let clustering ← decodeKeyBits (readU64 bytes 4) kind
  let rowId := readU64 bytes 12
  if rowId = 0 then
    throw (.invalidManifest "physical key row ID is zero")
  pure ⟨clustering, rowId⟩

section Encode

def WalMutation.rowField : WalMutation → Except LsmError (List UInt8)
  | .put _ row =>
    if 2 ^ 32 ≤ row.length then throw (.resourceLimit "LSM WAL row bytes" (2 ^ 32 - 1))
    else pure (leBytes 4 row.length ++ row)
  | .tombstone _ => pure (leBytes 4 0)

def WalMutation.tag : WalMutation → UInt8
  | .put _ _ => 1
  | .tombstone _ => 2

def encodeWalMutation (mutation : WalMutation) : Except LsmError (List UInt8) := do
  let key ← encodePhysicalKey mutation.key
  let row ← mutation.rowField
  pure ([mutation.tag, 0, 0, 0] ++ key ++ row)

def encodeWalMutations : List WalMutation → Except LsmError (List UInt8)
  | [] => pure []
  | mutation :: rest => do
      let bytes ← encodeWalMutation mutation
      let more ← encodeWalMutations rest
      pure (bytes ++ more)

def WalRecord.tag : WalRecord → UInt8
  | .mutationBatch _ _ => 1
  | .prepare _ _ => 2
  | .commit _ _ => 3
  | .abort _ => 4

def WalRecord.payload : WalRecord → Except LsmError (List UInt8)
  | .mutationBatch txnId mutations => do
      if 2 ^ 32 ≤ mutations.length then
        throw (.resourceLimit "LSM WAL mutation count" maxPendingMutations)
      let bytes ← encodeWalMutations mutations
      pure (leBytes 8 txnId.toNat ++ leBytes 4 mutations.length ++ bytes)
  | .prepare txnId databaseTxnId => pure (leBytes 8 txnId.toNat ++ leBytes 8 databaseTxnId.toNat)
  | .commit txnId commitSeq => pure (leBytes 8 txnId.toNat ++ leBytes 8 commitSeq.toNat)
  | .abort txnId => pure (leBytes 8 txnId.toNat)

def recordHeader (tag : UInt8) (length : Nat) (storageId : StorageId) : List UInt8 :=
  walRecordMagic ++ leBytes 2 walFormatVersion ++ [tag, 0] ++ leBytes 4 length
    ++ leBytes 8 storageId.toNat

def encodeWalRecord (crc32c : Crc32c) (storageId : StorageId) (record : WalRecord) :
    Except LsmError (List UInt8) := do
  let payload ← record.payload
  if walMaxRecordBytes < payload.length then
    throw (.resourceLimit "LSM WAL record bytes" walMaxRecordBytes)
  let bytes := recordHeader record.tag payload.length storageId ++ payload
  pure (bytes ++ leBytes 4 (crc32c bytes).toNat)

end Encode

section Decode

def decodeMutation (tag : UInt8) (key : PhysicalKey) (row : List UInt8) :
    Except LsmError WalMutation :=
  if tag = 1 then pure (.put key row)
  else if tag = 2 then
    if row.length = 0 then pure (.tombstone key)
    else throw (.invalidWal "tombstone has row bytes")
  else throw (.invalidWal "unknown mutation tag")

def decodeMutations : Nat → List UInt8 → Option PhysicalKey →
    Except LsmError (List WalMutation × List UInt8)
  | 0, rest, _ => pure ([], rest)
  | count + 1, rest, previous => do
      if rest.length < 28 then
        throw (.invalidWal "mutation is truncated")
      if slice rest 1 3 ≠ [0, 0, 0] then
        throw (.invalidWal "mutation reserved bytes are nonzero")
      let keyType ← decodePhysicalType (rest.getD 4 0)
      let key ← decodePhysicalKey (slice rest 4 20) keyType
      let length := readU32 rest 24
      let behind := rest.drop 28
      if behind.length < length then
        throw (.invalidWal "row payload is truncated")
      if ∃ p ∈ previous, key.place < p.place then
        throw (.invalidWal "mutation batch is not sorted")
      let mutation ← decodeMutation (rest.getD 0 0) key (behind.take length)
      let (more, tail) ← decodeMutations count (behind.drop length) (some key)
      pure (mutation :: more, tail)

variable (payload : List UInt8)

def decodeBatch : Except LsmError WalRecord := do
  if payload.length < 12 then
    throw (.invalidWal "mutation batch is truncated")
  let txnId := readU64 payload 0
  let count := readU32 payload 8
  if txnId = 0 ∨ maxPendingMutations < count then
    throw (.invalidWal "invalid transaction ID or mutation count")
  if (payload.length - 12) / 28 < count then
    throw (.invalidWal "mutation count exceeds remaining bytes")
  let (mutations, tail) ← decodeMutations count (payload.drop 12) none
  if tail ≠ [] then
    throw (.invalidWal "mutation batch has trailing bytes")
  pure (.mutationBatch txnId mutations)

def decodePrepare : Except LsmError WalRecord := do
  let txnId := readU64 payload 0
  let databaseTxnId := readU64 payload 8
  if txnId = 0 ∨ databaseTxnId = 0 then
    throw (.invalidWal "prepare identity is zero")
  pure (.prepare txnId databaseTxnId)

def decodeCommit : Except LsmError WalRecord := do
  let txnId := readU64 payload 0
  let commitSeq := readU64 payload 8
  if txnId = 0 ∨ commitSeq = 0 then
    throw (.invalidWal "commit identity is zero")
  pure (.commit txnId commitSeq)

def decodeAbort : Except LsmError WalRecord := do
  let txnId := readU64 payload 0
  if txnId = 0 then
    throw (.invalidWal "abort transaction ID is zero")
  pure (.abort txnId)

def expectedLength (tag : UInt8) : Option Nat :=
  if tag = 2 ∨ tag = 3 then some 16 else if tag = 4 then some 8 else none

def decodeWalRecord (tag : UInt8) (payload : List UInt8) : Except LsmError WalRecord :=
  if ∃ expected ∈ expectedLength tag, payload.length ≠ expected then
    throw (.invalidWal "record payload has invalid length")
  else if tag = 1 then decodeBatch payload
  else if tag = 2 then decodePrepare payload
  else if tag = 3 then decodeCommit payload
  else if tag = 4 then decodeAbort payload
  else throw (.invalidWal "unknown record tag")

variable (crc32c : Crc32c) (storageId : StorageId)

/-- The record at the front of the bytes and its payload length, or nothing
where the bytes end inside it. -/
def readRecord (bytes : List UInt8) (offset : Nat) :
    Except LsmError (Option (WalRecord × Nat)) := do
  if slice bytes 0 4 ≠ walRecordMagic then
    throw (.invalidWal "record magic does not match")
  if readU16 bytes 4 ≠ walFormatVersion then
    throw (.unsupportedWalVersion (readU16 bytes 4))
  if bytes.getD 7 0 ≠ 0 then
    throw (.invalidWal "record reserved byte is nonzero")
  let length := readU32 bytes 8
  if walMaxRecordBytes < length then
    throw (.invalidWal "record length exceeds bound")
  if readU64 bytes 12 ≠ storageId then
    throw (.storageIdMismatch storageId (readU64 bytes 12))
  if bytes.length < walRecordHeaderSize + length + 4 then
    return none
  let stored := readU32 bytes (walRecordHeaderSize + length)
  let computed := (crc32c (bytes.take (walRecordHeaderSize + length))).toNat
  if stored ≠ computed then
    throw (.walChecksum offset stored computed)
  let record ← decodeWalRecord (bytes.getD 6 0) (slice bytes walRecordHeaderSize length)
  return some (record, length)

/-- `decode_wal_records` from an offset on: the records and the end of the last
complete one. -/
def decodeWalRecords (bytes : List UInt8) (offset : Nat) (records : List WalRecord) :
    Except LsmError (List WalRecord × Nat) :=
  if bytes.length < walRecordHeaderSize then pure (records, offset)
  else
    match readRecord crc32c storageId bytes offset with
    | .error e => .error e
    | .ok none => pure (records, offset)
    | .ok (some (record, length)) =>
      decodeWalRecords (bytes.drop (walRecordHeaderSize + length + 4))
        (offset + (walRecordHeaderSize + length + 4)) (records ++ [record])
termination_by bytes.length
decreasing_by
  simp only [List.length_drop, walRecordHeaderSize] at *
  omega

def readLog (file : List UInt8) : Except LsmError (List WalRecord × Nat) :=
  decodeWalRecords crc32c storageId (file.drop walHeaderSize) walHeaderSize []

end Decode

end Netbadb.Lsm
