import Netbadb.Wal.Record
import Netbadb.Library.Outcome

/-!
Reading a generation file back. The scan checks the framing, the checksum, the
position, the transaction chain and the page images of every record, and may
accept one incomplete record at the end of the file.

`validateTransactionSequence`, `validatePageImages` and
`validateTransitionReservation` are also what `append` runs before it writes.
-/

namespace Netbadb.Wal

open Bytes Outcome

inductive PageType where
  | heap | btreeMeta | btreeInternal | btreeLeaf | indexCatalog
  deriving DecidableEq, Repr

namespace PageType

def isBTree : PageType → Bool
  | .btreeMeta | .btreeInternal | .btreeLeaf => true
  | .heap | .indexCatalog => false

end PageType

structure PageHeader where
  pageType : PageType
  pageLsn : Option Lsn
  deriving DecidableEq

structure Page where
  id : PageId
  image : PageImage
  deriving DecidableEq

/-- How the bytes of a page are read. `none` is a format error. The payload
functions read the single payload of a B+Tree page. -/
structure PageFormat where
  /-- The header of a page whose magic, version and checksum hold. -/
  header : Page → Option PageHeader
  /-- The header of a page whose every slot is valid as well. -/
  validated : Page → Option PageHeader
  /-- The index that owns the page. -/
  owner : Page → Option (Option UInt64)
  /-- The page named by a retirement marker. -/
  retired : Page → Option (Option PageId)
  /-- The allocation generation in the payload. -/
  generation : Page → Option (Option UInt64)
  /-- The meta payload, or the node under one of the key types, decodes. -/
  decodes : Page → Bool

namespace PageFormat

variable (format : PageFormat) (page : Page)

def pageLsn : Option (Option Lsn) := do
  let header ← format.header page
  pure header.pageLsn

def allocationGeneration : Option (Option UInt64) := do
  if page.image.isZero then
    return none
  let kind := (← format.header page).pageType
  if kind.isBTree then
    if let some marker ← format.retired page then
      guard (marker = page.id ∧ kind ≠ .btreeMeta)
    format.generation page
  else
    return none

def validateAllocation (expected : Option UInt64) : Option Unit := do
  guard (expected = (← format.allocationGeneration page))

/-- The allocation a B+Tree page belongs to: its page, generation and owner. -/
structure Identity where
  pageId : PageId
  generation : UInt64
  owner : UInt64
  deriving DecidableEq

def identity : Option Identity := do
  let kind := (← format.validated page).pageType
  guard kind.isBTree
  let owner ← (← format.owner page)
  let generation ← (← format.allocationGeneration page)
  let reference : Identity := ⟨page.id, generation, owner⟩
  if (← format.retired page).isSome then
    return reference
  guard (format.decodes page)
  return reference

def isRetired : Option Bool := do
  let _ ← format.identity page
  pure (← format.retired page).isSome

def validateTransition (before after : Page) : Option Unit := do
  let old ← format.identity before
  let new ← format.identity after
  let oldMarker ← format.isRetired before
  guard (old.pageId = new.pageId ∧ old.generation < new.generation)
  guard (oldMarker ∨ old.owner ≠ new.owner)
  guard (¬ (← format.isRetired after))

/-- An ordinary update keeps the owner of a B+Tree page, never starts from a
retired page, and retires only a page with a full identity. -/
def validateBTreeUpdate (before after : Page) : Option Unit := do
  guard ((← format.owner before) = (← format.owner after))
  guard (← format.retired before).isNone
  if (← format.retired after).isSome then
    let _ ← format.identity before

end PageFormat

inductive WalTxnState where
  | active | prepared | aborting | complete
  deriving DecidableEq, Repr

def walStateAfter : WalRecordKind → WalTxnState
  | .begin | .pageUpdate _ _ _ | .pageAllocationTransition _ _ _
  | .pageGenerationReservation => .active
  | .prepare _ => .prepared
  | .abort => .aborting
  | .commit | .rollbackComplete => .complete

/-- What `append` and the scan remember of the records so far. -/
structure LogIndex where
  lastByTxn : TxnId → Option Lsn
  txnStates : TxnId → Option WalTxnState
  reservations : Lsn → Option TxnId

namespace LogIndex

def empty : LogIndex := ⟨fun _ => none, fun _ => none, fun _ => none⟩

def insert (index : LogIndex) (record : WalRecord) : LogIndex :=
  { lastByTxn := Function.update index.lastByTxn record.txnId (some record.lsn)
    txnStates := Function.update index.txnStates record.txnId (some (walStateAfter record.kind))
    reservations :=
      if record.kind = .pageGenerationReservation then
        Function.update index.reservations record.lsn (some record.txnId)
      else index.reservations }

def ofRecords (records : List WalRecord) : LogIndex := records.foldl insert empty

end LogIndex

variable (lsn : Lsn)

def validateTransactionTagSequence (txnId : TxnId) (state : Option WalTxnState)
    (recordType : UInt8) : Except WalError Unit :=
  let valid : Bool := match state, recordType with
    | none, 1 => true
    | some .active, 2 | some .active, 3 | some .active, 4 => true
    | some .active, 6 | some .active, 7 | some .active, 8 => true
    | some .prepared, 3 | some .prepared, 4 => true
    | some .aborting, 5 => true
    | _, _ => false
  if valid then pure () else throw (.invalidTransactionSequence lsn txnId recordType)

def validateTransactionSequence (txnId : TxnId) (state : Option WalTxnState)
    (kind : WalRecordKind) : Except WalError Unit :=
  validateTransactionTagSequence lsn txnId state kind.tag

def orInvalidImage {α : Type} (lsn : Lsn) (image : String) : Option α → Except WalError α
  | some a => pure a
  | none => throw (.invalidPageImage lsn image)

/-- A position at or above another, where no position is below all. -/
def reaches (position : Option Lsn) (lsn : Lsn) : Bool := position.any (lsn ≤ ·)

def validateTransitionReservation (format : PageFormat) (lsn : Lsn) (txnId : TxnId)
    (kind : WalRecordKind) (reservations : Lsn → Option TxnId) : Except WalError (Option Lsn) := do
  if let .pageAllocationTransition pageId _ after := kind then
    let generation ← orInvalidImage lsn "transition generation"
      (format.allocationGeneration ⟨pageId, after⟩)
    let reservation ← orInvalidImage lsn "transition generation" generation
    if reservations reservation ≠ some txnId then
      throw (.invalidPageImage lsn "transition reservation missing or foreign")
    return some reservation
  return none

def validatePageImages (format : PageFormat) (lsn : Lsn) (kind : WalRecordKind) :
    Except WalError Unit := do
  match kind with
  | .pageAllocationTransition pageId before after =>
    let before : Page := ⟨pageId, before⟩
    let after : Page := ⟨pageId, after⟩
    orInvalidImage lsn "allocation transition" (format.validateTransition before after)
    let beforeLsn ← orInvalidImage lsn "before" (format.pageLsn before)
    if reaches beforeLsn lsn then
      throw (.invalidPageImage lsn "transition chronology")
    let generation ← orInvalidImage lsn "after allocation" (format.allocationGeneration after)
    if reaches generation lsn then
      throw (.invalidPageImage lsn "transition chronology")
    let pageLsn ← orInvalidImage lsn "after" (format.pageLsn after)
    if pageLsn ≠ some lsn then
      throw (.invalidPageLsn lsn pageLsn)
  | .pageUpdate pageId before after =>
    let old : Page := ⟨pageId, before⟩
    let afterPage : Page := ⟨pageId, after⟩
    if ¬ before.isZero then
      let beforeLsn ← orInvalidImage lsn "before" (format.pageLsn old)
      if reaches beforeLsn lsn then
        throw (.invalidPageImage lsn "before")
    let pageLsn ← orInvalidImage lsn "after" (format.pageLsn afterPage)
    let generation ← orInvalidImage lsn "after allocation"
      (format.allocationGeneration afterPage)
    if reaches generation lsn then
      throw (.invalidPageImage lsn "unreserved allocation")
    if ¬ before.isZero then
      orInvalidImage lsn "changed allocation" (format.validateAllocation old generation)
      let oldKind := (← orInvalidImage lsn "before kind" (format.header old)).pageType
      let newKind := (← orInvalidImage lsn "after kind" (format.header afterPage)).pageType
      if oldKind ≠ newKind then
        throw (.invalidPageImage lsn "changed page kind")
      if newKind.isBTree then
        orInvalidImage lsn "changed BTree ownership or retired state"
          (format.validateBTreeUpdate old afterPage)
    if pageLsn ≠ some lsn then
      throw (.invalidPageLsn lsn pageLsn)
  | _ => pure ()

def expectedPayloadForTag (tag : UInt8) : Except WalError Nat :=
  match tag with
  | 1 | 3 | 4 | 5 | 7 => pure 0
  | 2 | 8 => pure pageUpdatePayloadSize
  | 6 => pure preparePayloadSize
  | tag => throw (.unknownRecordType lsn tag)

/-- The version and length fields that a record type may carry. -/
def knownVersion (version : Nat) :
    Bool := version = 3 || version = 4 || version = recordFormatVersion

def typeTooNew (version : Nat) (tag : UInt8) : Bool :=
  (decide (version < 4) && tag = 7) || (decide (version < 5) && tag = 8)

def validateLength (tag : UInt8) (totalLen : Nat) : Except WalError Unit := do
  if totalLen < recordHeaderSize then
    throw (.invalidRecordLength lsn totalLen)
  if totalLen > walMaxRecordSize then
    throw (.recordTooLarge lsn totalLen)
  let expected := recordHeaderSize + (← expectedPayloadForTag lsn tag)
  if totalLen ≠ expected then
    throw (.unexpectedRecordLength lsn expected totalLen)

def validateRecordFraming (recordHeader : List UInt8) : Except WalError (UInt8 × Nat) := do
  if slice recordHeader 0 4 ≠ recordMagic then
    throw (.invalidRecordMagic lsn)
  let recordVersion := readU16 recordHeader 4
  if ¬ knownVersion recordVersion then
    throw (.unsupportedRecordVersion lsn recordVersion)
  if recordHeader.getD 7 0 ≠ 0 then
    throw .invalidReservedBytes
  let recordType := recordHeader.getD 6 0
  if typeTooNew recordVersion recordType then
    throw (.unknownRecordType lsn recordType)
  let _ ← expectedPayloadForTag lsn recordType
  let totalLen := readU32 recordHeader 8
  validateLength lsn recordType totalLen
  pure (recordType, totalLen)

def verifyRecordChecksum (crc32c : Crc32c) (lsn : Lsn) (bytes : List UInt8) :
    Except WalError Unit := do
  let stored := readU32 bytes recordChecksumOffset
  let computed := (crc32c (patch bytes recordChecksumOffset (leBytes 4 0))).toNat
  if stored ≠ computed then
    throw (.recordChecksumMismatch lsn stored computed)

/-- The payload size, once the record type is inside the partial header. -/
def partialPayload (bytes : List UInt8) : Except WalError (Option Nat) :=
  if bytes.length ≥ 7 then some <$> expectedPayloadForTag lsn (bytes.getD 6 0) else pure none

def validatePartialRecordHeader (bytes : List UInt8) : Except WalError Unit := do
  let magicLen := min bytes.length recordMagic.length
  if bytes.take magicLen ≠ recordMagic.take magicLen then
    throw (.invalidRecordMagic lsn)
  if bytes.length ≥ 6 ∧ ¬ knownVersion (readU16 bytes 4) then
    throw (.unsupportedRecordVersion lsn (readU16 bytes 4))
  if bytes.length ≥ 7 ∧ typeTooNew (readU16 bytes 4) (bytes.getD 6 0) then
    throw (.unknownRecordType lsn (bytes.getD 6 0))
  let _ ← partialPayload lsn bytes
  if bytes.length ≥ 8 ∧ bytes.getD 7 0 ≠ 0 then
    throw .invalidReservedBytes
  if bytes.length ≥ 12 then
    validateLength lsn (bytes.getD 6 0) (readU32 bytes 8)

/-- The record type and payload of a checked frame, as a record kind. -/
def decodeKind (recordType : UInt8) (payload : List UInt8) : Except WalError WalRecordKind :=
  match recordType with
  | 1 => pure .begin
  | 2 => pure (.pageUpdate (readU64 payload 0) (readPageImage payload 8)
      (readPageImage payload (8 + pageSize)))
  | 8 => pure (.pageAllocationTransition (readU64 payload 0) (readPageImage payload 8)
      (readPageImage payload (8 + pageSize)))
  | 3 => pure .commit
  | 4 => pure .abort
  | 5 => pure .rollbackComplete
  | 7 => pure .pageGenerationReservation
  | 6 =>
    if readU64 payload 0 = 0 then throw (.invalidDatabaseTxnId lsn)
    else pure (.prepare (readU64 payload 0))
  | tag => throw (.unknownRecordType lsn tag)

inductive TailPolicy where
  | reject | allowIncompleteFinalRecord
  deriving DecidableEq, Repr

structure ScanResult where
  records : List WalRecord
  validEnd : Nat
  incompleteTail : Bool
  deriving DecidableEq

inductive ScanStep where
  | tornTail
  | record (record : WalRecord) (nextOffset : Nat)

/-- An incomplete record, where the policy allows one. -/
def tornTail (policy : TailPolicy) (lsn : Lsn) : Except WalError ScanStep :=
  if policy = .allowIncompleteFinalRecord then pure .tornTail else throw (.truncatedRecord lsn)

section Scan

variable (crc32c : Crc32c) (format : PageFormat) {policy : TailPolicy} {record : WalRecord}

def scanRecord (baseLsn : Lsn) (file : List UInt8) (policy : TailPolicy) (index : LogIndex)
    (offset : Nat) : Except WalError ScanStep := do
  let lsn ← logicalLsn baseLsn offset
  let remaining := file.length - offset
  if remaining < recordHeaderSize then
    validatePartialRecordHeader lsn (slice file offset remaining)
    tornTail policy lsn
  else
    let (recordType, totalLen) ← validateRecordFraming lsn (slice file offset recordHeaderSize)
    if totalLen > remaining then
      tornTail policy lsn
    else
      let bytes := slice file offset totalLen
      verifyRecordChecksum crc32c lsn bytes
      let actualLsn := readU64 bytes 16
      if actualLsn ≠ lsn then
        throw (.invalidRecordedLsn lsn actualLsn)
      let txnId := readU64 bytes 24
      let rawPrev := readU64 bytes 32
      let prevLsn := if rawPrev ≠ 0 then some rawPrev else none
      if prevLsn ≠ index.lastByTxn txnId then
        throw (.invalidPrevLsn lsn (index.lastByTxn txnId) prevLsn)
      validateTransactionTagSequence lsn txnId (index.txnStates txnId) recordType
      let kind ← decodeKind lsn recordType (bytes.drop recordHeaderSize)
      validatePageImages format lsn kind
      let _ ← validateTransitionReservation format lsn txnId kind index.reservations
      if 2 ^ 64 ≤ offset + totalLen then
        throw .lsnOverflow
      pure (.record ⟨lsn, txnId, prevLsn, kind⟩ (offset + totalLen))

lemma validateRecordFraming_pos {lsn : Lsn} {header : List UInt8} {tag : UInt8} {len : Nat}
    (h : validateRecordFraming lsn header = .ok (tag, len)) : recordHeaderSize ≤ len := by
  simp only [validateRecordFraming, validateLength, check_eq_ok,
    bind_eq_ok, pure_eq_ok, Prod.mk.injEq] at h
  obtain ⟨-, -, -, -, _, -, _, ⟨hlen, -⟩, -, rfl⟩ := h
  omega

lemma tornTail_ne_record {lsn : Lsn} {next : Nat} :
    tornTail policy lsn ≠ .ok (.record record next) := by
  unfold tornTail
  split_ifs
  · simp [pure, Except.pure]
  · simp

lemma scanRecord_lt {baseLsn : Lsn} {file : List UInt8} {index : LogIndex} {offset next : Nat}
    (h : scanRecord crc32c format baseLsn file policy index offset = .ok (.record record next)) :
    offset < next := by
  rw [scanRecord, bind_eq_ok] at h
  obtain ⟨lsn, -, h⟩ := h
  dsimp only at h
  split_ifs at h with hshort
  · obtain ⟨_, -, h⟩ := bind_eq_ok.mp h
    exact absurd h tornTail_ne_record
  obtain ⟨⟨tag, len⟩, hframing, h⟩ := bind_eq_ok.mp h
  have hlen := validateRecordFraming_pos hframing
  have hpos : 0 < recordHeaderSize := by decide
  by_cases hlong : len > file.length - offset
  · rw [if_pos hlong] at h
    exact absurd h tornTail_ne_record
  rw [if_neg hlong] at h
  simp only [bind_eq_ok, check_eq_ok, pure_eq_ok, ScanStep.record.injEq] at h
  obtain ⟨_, -, -, -, _, -, _, -, _, -, _, -, -, -, rfl⟩ := h
  omega

def scanLoop (baseLsn : Lsn) (file : List UInt8) (policy : TailPolicy) (index : LogIndex)
    (records : List WalRecord) (offset : Nat) : Except WalError ScanResult :=
  if offset < file.length then
    match _hstep : scanRecord crc32c format baseLsn file policy index offset with
    | .error e => .error e
    | .ok .tornTail => .ok ⟨records, offset, true⟩
    | .ok (.record record next) =>
      scanLoop baseLsn file policy (index.insert record) (records ++ [record]) next
  else .ok ⟨records, offset, false⟩
termination_by file.length - offset
decreasing_by
  have hlt := scanRecord_lt crc32c format _hstep
  omega

def scanFile (file : List UInt8) (policy : TailPolicy) : Except WalError ScanResult := do
  let header ← readHeader crc32c file
  scanLoop crc32c format header.baseLsn file policy .empty [] walHeaderSize

end Scan

end Netbadb.Wal
