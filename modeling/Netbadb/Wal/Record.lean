import Netbadb.Library.Bytes

/-!
Write-ahead log records and their bytes. A generation file is a 48-byte header
followed by records, each a 40-byte header and a payload whose size is fixed by
the record type. Every record carries its own logical sequence number and a
CRC32C over its bytes with the checksum field zeroed.

The checksum is an arbitrary function of the bytes. How a page image is read
is left to `PageFormat`; the log looks at pages through these functions only.
-/

namespace Netbadb.Wal

open Bytes

abbrev Lsn := UInt64
abbrev TxnId := UInt64
abbrev DatabaseTxnId := UInt64
abbrev PageId := UInt64

abbrev Crc32c := List UInt8 → UInt32

def pageSize : Nat := 4 * 1024

structure PageImage where
  bytes : List UInt8
  size : bytes.length = pageSize
  deriving DecidableEq

/-- A page that was never written. -/
def PageImage.isZero (image : PageImage) : Bool := image.bytes.all (· == 0)

def walMagic : List UInt8 := [0x4e, 0x42, 0x57, 0x4c]
def recordMagic : List UInt8 := [0x57, 0x52, 0x45, 0x43]
def recordFormatVersion : Nat := 5
def recordHeaderSize : Nat := 40
def pageUpdatePayloadSize : Nat := 8 + pageSize * 2
def preparePayloadSize : Nat := 8
def headerChecksumOffset : Nat := 40
def headerChecksumEnd : Nat := 44
def recordChecksumOffset : Nat := 12
def walFormatVersion : Nat := 4
def walHeaderSize : Nat := 48
def walMaxRecordSize : Nat := recordHeaderSize + pageUpdatePayloadSize

def initialGeneration : UInt64 := 1
def initialBaseLsn : Lsn := 1
def initialNextTxnId : TxnId := 1

inductive WalRecordKind where
  | begin
  | pageGenerationReservation
  | pageUpdate (pageId : PageId) (before after : PageImage)
  | pageAllocationTransition (pageId : PageId) (before after : PageImage)
  | commit
  | abort
  | rollbackComplete
  | prepare (databaseTxnId : DatabaseTxnId)
  deriving DecidableEq

structure WalRecord where
  lsn : Lsn
  txnId : TxnId
  prevLsn : Option Lsn
  kind : WalRecordKind
  deriving DecidableEq

inductive WalError where
  | io
  | invalidMagic
  | unsupportedVersion (version : Nat)
  | invalidHeaderSize (size : Nat)
  | invalidReservedBytes
  | headerChecksumMismatch (stored computed : Nat)
  | invalidGeneration (generation : UInt64)
  | invalidBaseLsn (baseLsn : Lsn) (checkpointLsn : Option Lsn)
  | invalidNextTxnId (txnId : TxnId)
  | invalidDatabaseTxnId (lsn : Lsn)
  | generationConflict
  | truncatedHeader
  | truncatedRecord (lsn : Lsn)
  | invalidRecordMagic (lsn : Lsn)
  | unsupportedRecordVersion (lsn : Lsn) (version : Nat)
  | unknownRecordType (lsn : Lsn) (tag : UInt8)
  | invalidRecordLength (lsn : Lsn) (length : Nat)
  | recordTooLarge (lsn : Lsn) (length : Nat)
  | unexpectedRecordLength (lsn : Lsn) (expected actual : Nat)
  | recordChecksumMismatch (lsn : Lsn) (stored computed : Nat)
  | invalidRecordedLsn (expected actual : Lsn)
  | invalidPrevLsn (lsn : Lsn) (expected actual : Option Lsn)
  | invalidTransactionSequence (lsn : Lsn) (txnId : TxnId) (recordType : UInt8)
  | invalidPageImage (lsn : Lsn) (image : String)
  | invalidPageLsn (recordLsn : Lsn) (pageLsn : Option Lsn)
  | lsnOverflow
  | flushBeyondWritten (requested : Lsn) (written : Option Lsn)
  | poisoned
  deriving DecidableEq, Repr

namespace WalRecordKind

def tag : WalRecordKind → UInt8
  | .begin => 1
  | .pageGenerationReservation => 7
  | .pageUpdate _ _ _ => 2
  | .pageAllocationTransition _ _ _ => 8
  | .commit => 3
  | .abort => 4
  | .rollbackComplete => 5
  | .prepare _ => 6

def payloadLen : WalRecordKind → Nat
  | .pageUpdate _ _ _ | .pageAllocationTransition _ _ _ => pageUpdatePayloadSize
  | .prepare _ => preparePayloadSize
  | .begin | .commit | .abort | .rollbackComplete | .pageGenerationReservation => 0

def encodedRecordLen (kind : WalRecordKind) : Nat := recordHeaderSize + kind.payloadLen

def recordVersion : WalRecordKind → Nat
  | .pageAllocationTransition _ _ _ => recordFormatVersion
  | .pageGenerationReservation => 4
  | _ => 3

def payload : WalRecordKind → List UInt8
  | .pageUpdate pageId before after | .pageAllocationTransition pageId before after =>
    leBytes 8 pageId.toNat ++ before.bytes ++ after.bytes
  | .prepare databaseTxnId => leBytes 8 databaseTxnId.toNat
  | _ => []

end WalRecordKind

/-- `u64::checked_add` on a log position. -/
def checkedAdd (lsn : UInt64) (n : Nat) : Except WalError UInt64 :=
  if lsn.toNat + n < 2 ^ 64 then pure (UInt64.ofNat (lsn.toNat + n)) else throw .lsnOverflow

def logicalLsn (baseLsn : Lsn) (physicalOffset : Nat) : Except WalError Lsn := do
  if physicalOffset < walHeaderSize then
    throw .truncatedHeader
  checkedAdd baseLsn (physicalOffset - walHeaderSize)

def recordBytes (record : WalRecord) (checksum : Nat) : List UInt8 :=
  recordMagic ++ leBytes 2 record.kind.recordVersion ++ [record.kind.tag, 0]
    ++ leBytes 4 record.kind.encodedRecordLen ++ leBytes 4 checksum
    ++ (leBytes 8 record.lsn.toNat ++ leBytes 8 record.txnId.toNat
      ++ leBytes 8 ((record.prevLsn.map UInt64.toNat).getD 0) ++ record.kind.payload)

def encodeRecord (crc32c : Crc32c) (record : WalRecord) : Except WalError (List UInt8) := do
  if let .prepare databaseTxnId := record.kind then
    if databaseTxnId = 0 then
      throw (.invalidDatabaseTxnId record.lsn)
  let bytes := recordBytes record 0
  pure (patch bytes recordChecksumOffset (leBytes 4 (crc32c bytes).toNat))

variable (bytes : List UInt8) (offset : Nat)

def readU16 : Nat := leNat (slice bytes offset 2)

def readU32 : Nat := leNat (slice bytes offset 4)

def readU64 : UInt64 :=
  UInt64.ofNat (leNat (slice bytes offset 8))

def readPageImage : PageImage :=
  ⟨(slice bytes offset pageSize).takeD pageSize 0, List.takeD_length ..⟩

/-- The metadata at the front of a generation file. -/
structure WalHeader where
  generation : UInt64
  baseLsn : Lsn
  checkpointLsn : Option Lsn
  nextTxnId : TxnId
  deriving DecidableEq

def validateHeader (header : WalHeader) : Except WalError Unit := do
  if header.generation = 0 then
    throw (.invalidGeneration header.generation)
  if header.baseLsn = 0 ∨ ∃ checkpoint ∈ header.checkpointLsn, header.baseLsn ≤ checkpoint then
    throw (.invalidBaseLsn header.baseLsn header.checkpointLsn)
  if header.nextTxnId = 0 then
    throw (.invalidNextTxnId 0)

def headerBytes (header : WalHeader) (checksum : Nat) : List UInt8 :=
  walMagic ++ leBytes 2 walFormatVersion ++ leBytes 2 walHeaderSize
    ++ leBytes 8 header.generation.toNat ++ leBytes 8 header.baseLsn.toNat
    ++ leBytes 8 ((header.checkpointLsn.map UInt64.toNat).getD 0)
    ++ leBytes 8 header.nextTxnId.toNat ++ leBytes 4 checksum ++ leBytes 4 0

abbrev sealedHeader (crc32c : Crc32c) (header : WalHeader) : List UInt8 :=
  headerBytes header (crc32c (headerBytes header 0)).toNat

def encodeHeader (crc32c : Crc32c) (header : WalHeader) : Except WalError (List UInt8) := do
  validateHeader header
  let bytes := headerBytes header 0
  pure (patch bytes headerChecksumOffset (leBytes 4 (crc32c bytes).toNat))

def readHeader (crc32c : Crc32c) (file : List UInt8) : Except WalError WalHeader := do
  if file.length < walHeaderSize then
    throw .truncatedHeader
  let bytes := slice file 0 walHeaderSize
  if slice bytes 0 4 ≠ walMagic then
    throw .invalidMagic
  let version := readU16 bytes 4
  if version ≠ walFormatVersion then
    throw (.unsupportedVersion version)
  let headerSize := readU16 bytes 6
  if headerSize ≠ walHeaderSize then
    throw (.invalidHeaderSize headerSize)
  if (slice bytes headerChecksumEnd (walHeaderSize - headerChecksumEnd)).any (· != 0) then
    throw .invalidReservedBytes
  let storedChecksum := readU32 bytes headerChecksumOffset
  let computedChecksum := (crc32c (patch bytes headerChecksumOffset (leBytes 4 0))).toNat
  if storedChecksum ≠ computedChecksum then
    throw (.headerChecksumMismatch storedChecksum computedChecksum)
  let rawCheckpoint := readU64 bytes 24
  let header : WalHeader :=
    { generation := readU64 bytes 8
      baseLsn := readU64 bytes 16
      checkpointLsn := if rawCheckpoint ≠ 0 then some rawCheckpoint else none
      nextTxnId := readU64 bytes 32 }
  validateHeader header
  pure header

end Netbadb.Wal
