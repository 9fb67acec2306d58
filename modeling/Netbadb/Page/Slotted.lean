import Netbadb.Library.Outcome
import Netbadb.Wal.Record

/-!
The slotted page: a header, a directory of slots that grows from the front and
record payloads that grow from the end of one 4096-byte array.
-/

namespace Netbadb.Slotted

open Bytes Wal

def pageSize : Nat := 4096
def pageMagic : List UInt8 := [0x4E, 0x42, 0x50, 0x31]
def pageFormatVersion : Nat := 5
def pageHeaderSize : Nat := 28
def slotSize : Nat := 8
def deletedSlotOffset : Nat := 0
def deletedSlotLength : Nat := 65535

inductive PageType where
  | heap
  | bTreeMeta
  | bTreeInternal
  | bTreeLeaf
  | indexCatalog
  deriving DecidableEq, Repr

inductive PageError where
  | invalidMagic
  | unsupportedVersion (version : Nat)
  | checksumMismatch (stored computed : Nat)
  | invalidReservedByte (value : Nat)
  | unknownPageType (tag : Nat)
  | invalidSlotCount (slotCount : Nat)
  | slotDirectoryOutOfBounds (slotCount freeStart : Nat)
  | invalidFreeSpace (freeStart freeEnd : Nat)
  | invalidSlotGeneration (slot generation : Nat)
  | invalidDeletedSlotEncoding (slot offset length : Nat)
  | recordOutOfBounds (slot offset length : Nat)
  | recordOverlapsFreeSpace (slot offset freeEnd : Nat)
  | overlappingRecords (first second : Nat)
  | invalidSlot (slot : Nat)
  | slotDeleted (slot : Nat)
  | wrongPageType (expected actual : PageType)
  | recordTooLarge (size capacity : Nat)
  | pageFull (required available : Nat)
  | updateWouldOverflowPage (slot size capacity : Nat)
  | invalidSinglePayload (pageType : PageType) (slotCount : Nat)
  | invalidSinglePayloadGeneration (pageType : PageType) (generation : Nat)
  | rowNotFound
  | staleRowId (actualGeneration : Nat)
  | rowDeleted
  deriving DecidableEq, Repr

def PageType.tag : PageType → Nat
  | .heap => 2
  | .bTreeMeta => 3
  | .bTreeInternal => 4
  | .bTreeLeaf => 5
  | .indexCatalog => 6

def PageType.fromTag : Nat → Except PageError PageType
  | 2 => pure .heap
  | 3 => pure .bTreeMeta
  | 4 => pure .bTreeInternal
  | 5 => pure .bTreeLeaf
  | 6 => pure .indexCatalog
  | other => throw (.unknownPageType other)

structure PageHeader where
  pageType : PageType
  slotCount : Nat
  freeStart : Nat
  freeEnd : Nat
  pageLsn : Option Nat
  deriving DecidableEq, Repr

def PageHeader.freeSpace (header : PageHeader) : Nat := header.freeEnd - header.freeStart

structure Slot where
  offset : Nat
  length : Nat
  generation : Nat
  deriving DecidableEq, Repr

def isDeletedSlot (slot : Slot) : Prop :=
  slot.offset = deletedSlotOffset ∧ slot.length = deletedSlotLength

instance (slot : Slot) : Decidable (isDeletedSlot slot) :=
  inferInstanceAs (Decidable (_ ∧ _))

structure SlotRef where
  slot : Nat
  generation : Nat
  deriving DecidableEq, Repr

inductive SlotState where
  | live (slot : Slot)
  | deleted (generation : Nat)
  deriving DecidableEq, Repr

structure RebuildSlot where
  generation : Nat
  payload : Option (List UInt8)
  deriving DecidableEq, Repr

structure Page where
  id : Nat
  bytes : List UInt8
  size : bytes.length = pageSize

namespace Page

variable (page : Page)

/-- Overwrite bytes. The source stops at an access outside the array; here it changes nothing,
and no write below is such an access. -/
def write (offset : Nat) (new : List UInt8) : Page :=
  if h : offset + new.length ≤ pageSize then
    { page with
      bytes := patch page.bytes offset new
      size := (length_patch (by rw [page.size]; exact h)).trans page.size }
  else page

def readNat (offset width : Nat) : Nat := leNat (slice page.bytes offset width)

def readU16 (offset : Nat) : Nat := page.readNat offset 2

def writeU16 (offset value : Nat) : Page := page.write offset (leBytes 2 value)

def writeU32 (offset value : Nat) : Page := page.write offset (leBytes 4 value)

section Checksum

variable (crc32c : Crc32c)

def computedChecksum (page : Page) : UInt32 :=
  crc32c (leBytes 8 page.id ++ page.bytes.take 24 ++ [0, 0, 0, 0] ++ page.bytes.drop 28)

def verifyChecksum (page : Page) : Except PageError Unit :=
  let stored := page.readNat 24 4
  let computed := (page.computedChecksum crc32c).toNat
  if stored ≠ computed then throw (.checksumMismatch stored computed) else pure ()

def refreshChecksum (page : Page) : Page :=
  let page := page.write 24 [0, 0, 0, 0]
  page.write 24 (leBytes 4 (page.computedChecksum crc32c).toNat)

end Checksum

def zero (id : Nat) : Page := ⟨id, List.replicate pageSize 0, List.length_replicate⟩

def new (crc32c : Crc32c) (id : Nat) (pageType : PageType) : Page :=
  let page := zero id
  let page := page.write 0 pageMagic
  let page := page.writeU16 4 pageFormatVersion
  let page := page.write 6 [UInt8.ofNat pageType.tag]
  let page := page.writeU16 8 0
  let page := page.writeU16 10 pageHeaderSize
  let page := page.writeU16 12 pageSize
  page.refreshChecksum crc32c

def setPageLsn (crc32c : Crc32c) (page : Page) (lsn : Nat) : Page :=
  (page.write 16 (leBytes 8 lsn)).refreshChecksum crc32c

def entryOffset (index : Nat) : Nat := pageHeaderSize + index * slotSize

def slotAt (page : Page) (slot : Nat) : Slot :=
  ⟨page.readU16 (entryOffset slot), page.readU16 (entryOffset slot + 2),
    page.readNat (entryOffset slot + 4) 4⟩

def writeEntry (page : Page) (index offset length generation : Nat) : Page :=
  let page := page.writeU16 (entryOffset index) offset
  let page := page.writeU16 (entryOffset index + 2) length
  page.writeU32 (entryOffset index + 4) generation

/-- The checks on one slot, against the live ranges of the slots before it. -/
def validateSlot (page : Page) (freeEnd index : Nat) (ranges : List (Nat × Nat × Nat)) :
    Except PageError (List (Nat × Nat × Nat)) := do
  let slot := page.slotAt index
  if slot.generation = 0 then throw (.invalidSlotGeneration index slot.generation)
  if isDeletedSlot slot then pure ranges
  else
    if slot.offset = deletedSlotOffset ∨ slot.length = deletedSlotLength then
      throw (.invalidDeletedSlotEncoding index slot.offset slot.length)
    let stop := slot.offset + slot.length
    if pageSize < slot.offset ∨ pageSize < stop then
      throw (.recordOutOfBounds index slot.offset slot.length)
    if slot.offset < freeEnd then
      throw (.recordOverlapsFreeSpace index slot.offset freeEnd)
    match ranges.find? fun r => slot.offset < r.2.2 ∧ r.2.1 < stop with
    | some r => throw (.overlappingRecords r.1 index)
    | none => pure (ranges ++ [(index, slot.offset, stop)])

def validateSlots (page : Page) (freeEnd : Nat) :
    (remaining index : Nat) → List (Nat × Nat × Nat) → Except PageError Unit
  | 0, _, _ => pure ()
  | remaining + 1, index, ranges => do
      let ranges ← page.validateSlot freeEnd index ranges
      page.validateSlots freeEnd remaining (index + 1) ranges

def header (crc32c : Crc32c) (page : Page) : Except PageError PageHeader := do
  if slice page.bytes 0 4 ≠ pageMagic then throw .invalidMagic
  let version := page.readU16 4
  if version ≠ pageFormatVersion then throw (.unsupportedVersion version)
  page.verifyChecksum crc32c
  if page.readNat 7 1 ≠ 0 then throw (.invalidReservedByte (page.readNat 7 1))
  match (slice page.bytes 14 2).find? (· ≠ 0) with
  | some value => throw (.invalidReservedByte value.toNat)
  | none => do
      let pageType ← PageType.fromTag (page.readNat 6 1)
      let slotCount := page.readU16 8
      let freeStart := page.readU16 10
      let freeEnd := page.readU16 12
      let rawPageLsn := page.readNat 16 8
      let pageLsn := if rawPageLsn ≠ 0 then some rawPageLsn else none
      if (pageSize - pageHeaderSize) / slotSize < slotCount then
        throw (.invalidSlotCount slotCount)
      let directoryEnd := pageHeaderSize + slotCount * slotSize
      if directoryEnd ≠ freeStart then
        throw (.slotDirectoryOutOfBounds slotCount freeStart)
      if freeEnd < freeStart ∨ pageSize < freeEnd then
        throw (.invalidFreeSpace freeStart freeEnd)
      page.validateSlots freeEnd slotCount 0 []
      pure ⟨pageType, slotCount, freeStart, freeEnd, pageLsn⟩

variable (crc32c : Crc32c) (page : Page)

def slotState (slot : Nat) : Except PageError SlotState := do
  let header ← page.header crc32c
  if header.slotCount ≤ slot then throw (.invalidSlot slot)
  let entry := page.slotAt slot
  if isDeletedSlot entry then pure (.deleted entry.generation) else pure (.live entry)

def slot (page : Page) (slot : Nat) : Except PageError Slot := do
  match ← page.slotState crc32c slot with
  | .live entry => pure entry
  | .deleted _ => throw (.slotDeleted slot)

/-- The bytes of a slot; an entry that points past the array has none. -/
def payloadOf (slot : Nat) (entry : Slot) : Except PageError (List UInt8) :=
  if pageSize < entry.offset + entry.length then
    throw (.recordOutOfBounds slot entry.offset entry.length)
  else pure (slice page.bytes entry.offset entry.length)

def readRecord (slot : Nat) : Except PageError (List UInt8) := do
  let entry ← page.slot crc32c slot
  page.payloadOf slot entry

def liveRecord (header : PageHeader) (slot : Nat) :
    Except PageError (Option (Slot × List UInt8)) := do
  if header.slotCount ≤ slot then throw (.invalidSlot slot)
  let entry := page.slotAt slot
  if isDeletedSlot entry then pure none
  else do
    let payload ← page.payloadOf slot entry
    pure (some (entry, payload))

variable (expected : PageType)

def expectPageType : Except PageError PageHeader := do
  let header ← page.header crc32c
  if header.pageType ≠ expected then throw (.wrongPageType expected header.pageType)
  pure header

def rebuildSlots : Except PageError (List RebuildSlot) := do
  let header ← page.header crc32c
  (List.range header.slotCount).mapM fun index => do
    let payload ← page.liveRecord header index
    pure ⟨(page.slotAt index).generation, payload.map (·.2)⟩

/-- Lay the records out, the payloads downwards from `freeEnd`. -/
def layOut (page : Page) (required available : Nat) :
    (freeEnd index : Nat) → List RebuildSlot → Except PageError (Page × Nat)
  | freeEnd, _, [] => pure (page, freeEnd)
  | freeEnd, index, slot :: rest =>
    match slot.payload with
    | some record =>
      if freeEnd < record.length then throw (.pageFull required available)
      else
        layOut
          ((page.write (freeEnd - record.length) record).writeEntry index
            (freeEnd - record.length) record.length slot.generation)
          required available (freeEnd - record.length) (index + 1) rest
    | none =>
      layOut (page.writeEntry index deletedSlotOffset deletedSlotLength slot.generation)
        required available freeEnd (index + 1) rest

def payloadSize (records : List RebuildSlot) : Nat :=
  (records.map fun slot => (slot.payload.map List.length).getD 0).sum

def rebuildBase (id : Nat) (header : PageHeader) : Page :=
  match header.pageLsn with
  | some lsn => (new crc32c id header.pageType).setPageLsn crc32c lsn
  | none => new crc32c id header.pageType

/-- A fresh page with the given records. The page itself is replaced only once the fresh one
passes its own validation. -/
def rebuildRecords (records : List RebuildSlot) (replacement : Option (Nat × Nat)) :
    Except PageError Page := do
  let header ← page.header crc32c
  let directoryEnd := pageHeaderSize + records.length * slotSize
  let size := payloadSize records
  let capacity := pageSize - directoryEnd
  if capacity < size then
    match replacement with
    | some (slot, replaced) =>
      throw (.updateWouldOverflowPage slot replaced (capacity - (size - replaced)))
    | none => throw (.pageFull size capacity)
  else
    let rebuilt := rebuildBase crc32c page.id header
    if 65536 ≤ records.length then throw (.invalidSlotCount 65535)
    let rebuilt := rebuilt.writeU16 8 records.length
    let rebuilt := rebuilt.writeU16 10 directoryEnd
    let (rebuilt, freeEnd) ← rebuilt.layOut size capacity pageSize 0 records
    let rebuilt := rebuilt.writeU16 12 freeEnd
    let rebuilt := rebuilt.refreshChecksum crc32c
    let _ ← rebuilt.header crc32c
    pure rebuilt

def maxRecordSize : Nat := pageSize - pageHeaderSize - slotSize

def reusableSlot (slotCount : Nat) : Option Nat :=
  (List.range slotCount).find? fun index =>
    isDeletedSlot (page.slotAt index) ∧ (page.slotAt index).generation < 2 ^ 32 - 1

def insertRecord (record : List UInt8) : Except PageError (Page × SlotRef) := do
  let header ← page.expectPageType crc32c .heap
  if maxRecordSize < record.length ∨ 65535 < record.length then
    throw (.recordTooLarge record.length maxRecordSize)
  let reusable := page.reusableSlot header.slotCount
  let required := if reusable.isSome then record.length else slotSize + record.length
  let available := header.freeSpace
  if available < required then throw (.pageFull required available)
  let records ← page.rebuildSlots crc32c
  match reusable with
  | some index =>
    let generation : Nat := (records[index]?.map (·.generation)).getD 0
    if 2 ^ 32 ≤ generation + 1 then throw (.pageFull required available)
    let page ← page.rebuildRecords crc32c
      (records.set index ⟨generation + 1, some record⟩) none
    pure (page, ⟨index, generation + 1⟩)
  | none =>
    let page ← page.rebuildRecords crc32c (records ++ [⟨1, some record⟩]) none
    pure (page, ⟨header.slotCount, 1⟩)

def replacePayload (slot : Nat) (payload : Option (List UInt8))
    (replacement : Option (Nat × Nat)) : Except PageError Page := do
  let records ← page.rebuildSlots crc32c
  match records[slot]? with
  | none => throw (.invalidSlot slot)
  | some target =>
    if target.payload.isNone then throw (.slotDeleted slot)
    else page.rebuildRecords crc32c (records.set slot { target with payload }) replacement

def deleteRecord (slot : Nat) : Except PageError Page := do
  let _ ← page.expectPageType crc32c .heap
  page.replacePayload crc32c slot none none

def replaceRecord (slot : Nat) (record : List UInt8) : Except PageError Page := do
  let _ ← page.expectPageType crc32c .heap
  if maxRecordSize < record.length ∨ 65535 < record.length then
    throw (.recordTooLarge record.length maxRecordSize)
  page.replacePayload crc32c slot (some record) (some (slot, record.length))

def initializeSinglePayload (payload : List UInt8) : Except PageError Page := do
  let header ← page.expectPageType crc32c expected
  if expected = .heap ∨ header.slotCount ≠ 0 then
    throw (.invalidSinglePayload expected header.slotCount)
  if maxRecordSize < payload.length ∨ 65535 < payload.length then
    throw (.recordTooLarge payload.length maxRecordSize)
  page.rebuildRecords crc32c [⟨1, some payload⟩] none

def validateSinglePayload : Except PageError Unit := do
  let header ← page.expectPageType crc32c expected
  if expected = .heap ∨ header.slotCount ≠ 1 then
    throw (.invalidSinglePayload expected header.slotCount)
  match ← page.slotState crc32c 0 with
  | .live slot =>
    if slot.generation = 1 then pure ()
    else throw (.invalidSinglePayloadGeneration expected slot.generation)
  | .deleted generation => throw (.invalidSinglePayloadGeneration expected generation)

def replaceSinglePayload (payload : List UInt8) : Except PageError Page := do
  page.validateSinglePayload crc32c expected
  if maxRecordSize < payload.length ∨ 65535 < payload.length then
    throw (.recordTooLarge payload.length maxRecordSize)
  page.rebuildRecords crc32c [⟨1, some payload⟩] (some (0, payload.length))

/-- Read a row by its locator: the slot must still carry the locator's generation. -/
def readRow (row : SlotRef) : Except PageError (List UInt8) := do
  let header ← page.header crc32c
  if header.pageType ≠ .heap then throw .rowNotFound
  match ← page.slotState crc32c row.slot with
  | .live slot =>
    if row.generation ≠ slot.generation then throw (.staleRowId slot.generation)
    page.readRecord crc32c row.slot
  | .deleted generation =>
    if row.generation ≠ generation then throw (.staleRowId generation)
    throw .rowDeleted

end Page

end Netbadb.Slotted
