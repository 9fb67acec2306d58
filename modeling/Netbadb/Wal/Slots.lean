import Netbadb.Wal.Manager

/-!
The two generation files of a log. A rotation creates the next generation in
the free slot, makes it durable and then removes the old file; opening selects
the newest complete generation and removes the other one.

Every file operation may fail. A failed operation has no effect on the disk, a
failed write leaves a prefix of its bytes. Stopping at an operation is the same
as that operation failing, so a crash inside `rotate` or `openSelected` is the
failing call followed by a crash.
-/

namespace Netbadb.Wal

open Bytes

/-- The log root path and its alternate. -/
inductive Slot where
  | root | alternate
  deriving DecidableEq, Repr

def Slot.other : Slot → Slot
  | .root => .alternate
  | .alternate => .root

/-- One name of the log directory and the file under it. -/
structure SlotFile where
  bytes : List UInt8
  /-- How many bytes are known to be on the device. -/
  synced : Nat
  /-- Whether a process finds the name. -/
  linked : Bool
  /-- Whether the name was there at the last directory sync. -/
  linkedOnDisk : Bool
  deriving DecidableEq

namespace SlotFile

def absent : SlotFile := ⟨[], 0, false, false⟩

variable (file : SlotFile)

def sync : SlotFile := { file with synced := file.bytes.length }

def setLen (length : Nat) : SlotFile :=
  { file with bytes := file.bytes.take length, synced := min file.synced length }

def unlink : SlotFile := { file with linked := false }

def syncName : SlotFile := { file with linkedOnDisk := file.linked }

/-- What a power loss may leave: the name as the process had it or as it was
synchronised, and any prefix of the file that keeps the synchronised bytes. -/
inductive Crash (file : SlotFile) : SlotFile → Prop
  | lost (h : file.linked = false ∨ file.linkedOnDisk = false) : Crash file absent
  | kept (h : file.linked = true ∨ file.linkedOnDisk = true) {n : Nat}
      (hsynced : file.synced ≤ n) (hn : n ≤ file.bytes.length) :
      Crash file ⟨file.bytes.take n, n, true, true⟩

end SlotFile

abbrev Disk := Slot → SlotFile

namespace Disk

variable (disk : Disk) (slot : Slot)

def set (file : SlotFile) : Disk := Function.update disk slot file

def syncDirectory (disk : Disk) : Disk := fun slot => (disk slot).syncName

def syncFile : Disk := disk.set slot (disk slot).sync

def unlinkFile : Disk := disk.set slot (disk slot).unlink

end Disk

structure Running where
  wal : WalManager
  slot : Slot

inductive WriteOutcome where
  | done
  /-- The write failed behind `written` bytes; `truncated` tells whether the
  file could be cut back. -/
  | failed (written : Nat) (truncated : Bool)

/-- The file operation of `rotate` that fails. -/
inductive RotationFault where
  | flush
  | createTarget
  | writeHeader (written : Nat)
  | syncTarget
  | syncDirectory
  | removeOld
  | syncRemoval
  deriving DecidableEq

/-- The file operation of `openSelected` that fails. -/
inductive OpenFault where
  | setLen
  | syncFile
  | syncDirectory
  | removeSuperseded
  | syncRemoval
  deriving DecidableEq

structure LogOutcome (α : Type) where
  result : Except WalError α
  running : Running
  disk : Disk

section Operations

variable (crc32c : Crc32c) (format : PageFormat) (running : Running) (disk : Disk)

def appendTo (txnId : TxnId) (prevLsn : Option Lsn)
    (kind : WalRecordKind) (write : WriteOutcome) : LogOutcome Lsn :=
  let file := disk running.slot
  match running.wal.planAppend crc32c format txnId prevLsn kind with
  | .error e => ⟨.error e, running, disk⟩
  | .ok (record, bytes, wal') =>
    match write with
    | .done =>
      ⟨.ok record.lsn, { running with wal := wal' },
        disk.set running.slot
          { file with bytes := patch file.bytes running.wal.nextOffset bytes }⟩
    | .failed _ true => ⟨.error .io, running, disk⟩
    | .failed written false =>
      ⟨.error .io, { running with wal := { running.wal with poisoned := true } },
        disk.set running.slot
          { file with
            bytes := patch file.bytes running.wal.nextOffset (bytes.take written) }⟩

/-- `flush_through`, with the outcome of `sync_data` where it is called. -/
def flushTo (lsn : Lsn) (syncs : Bool) : LogOutcome Unit :=
  match running.wal.flushThrough lsn with
  | .error e => ⟨.error e, running, disk⟩
  | .ok wal' =>
    if reaches running.wal.durableLsn lsn then ⟨.ok (), running, disk⟩
    else if syncs then
      ⟨.ok (), { running with wal := wal' }, disk.set running.slot (disk running.slot).sync⟩
    else ⟨.error .io, running, disk⟩

def nextHeader (wal : WalManager) (nextTxnId : TxnId) : Except WalError WalHeader := do
  if 2 ^ 64 ≤ wal.generation.toNat + 1 then
    throw (.invalidGeneration wal.generation)
  let header : WalHeader :=
    { generation := wal.generation + 1
      baseLsn := wal.nextLsn
      checkpointLsn := wal.writtenLsn.or wal.checkpointLsn
      nextTxnId := nextTxnId }
  validateHeader header
  pure header

def switched (header : WalHeader) : WalManager :=
  { generation := header.generation
    baseLsn := header.baseLsn
    checkpointLsn := header.checkpointLsn
    nextTxnId := header.nextTxnId
    nextOffset := walHeaderSize
    nextLsn := header.baseLsn
    writtenLsn := none
    durableLsn := none
    index := .empty
    poisoned := false }

def poison (running : Running) : Running :=
  { running with wal := { running.wal with poisoned := true } }

/-- The part of `rotate` behind its checks: create the target, switch to it and
remove the old file. -/
def installGeneration (header : WalHeader)
    (bytes : List UInt8) (fault : Option RotationFault) : LogOutcome Unit :=
  let target := running.slot.other
  let failed (running : Running) (disk : Disk) : LogOutcome Unit :=
    ⟨.error .io, poison running, disk⟩
  let created (written synced : Nat) : Disk :=
    disk.set target ⟨bytes.take written, synced, true, (disk target).linkedOnDisk⟩
  let durable := (created bytes.length bytes.length).syncDirectory
  let next : Running := ⟨switched header, target⟩
  let removed := durable.set running.slot (durable running.slot).unlink
  match fault with
  | some .createTarget => failed running disk
  | some (.writeHeader written) => failed running (created written 0)
  | some .syncTarget => failed running (created bytes.length 0)
  | some .syncDirectory => failed running (created bytes.length bytes.length)
  | some .removeOld => failed next durable
  | some .syncRemoval => failed next removed
  | _ => ⟨.ok (), next, removed.syncDirectory⟩

/-- The flush at the start of a rotation, where there is anything to flush. -/
def flushWritten (syncs : Bool) : LogOutcome Unit :=
  match running.wal.writtenLsn with
  | some written => flushTo running disk written syncs
  | none => ⟨.ok (), running, disk⟩

/-- Start a new generation after the caller has synchronised every page of the
current one. -/
def rotate (nextTxnId : TxnId) (fault : Option RotationFault) : LogOutcome Unit :=
  if running.wal.poisoned then ⟨.error .poisoned, running, disk⟩
  else if nextTxnId = 0 ∨ nextTxnId < running.wal.nextTxnId then
    ⟨.error (.invalidNextTxnId nextTxnId), running, disk⟩
  else
    let flushed := flushWritten running disk (fault ≠ some .flush)
    match flushed.result with
    | .error e => ⟨.error e, flushed.running, flushed.disk⟩
    | .ok _ =>
      match (do
        let header ← nextHeader flushed.running.wal nextTxnId
        let bytes ← encodeHeader crc32c header
        pure (header, bytes)) with
      | .error e => ⟨.error e, flushed.running, flushed.disk⟩
      | .ok (header, bytes) =>
        if (flushed.disk running.slot.other).linked then
          ⟨.error .generationConflict, flushed.running, flushed.disk⟩
        else installGeneration flushed.running flushed.disk header bytes fault

structure Candidate where
  slot : Slot
  header : WalHeader
  scan : ScanResult

/-- A generation file that could not be read, with its generation if known. -/
structure Unreadable where
  slot : Slot
  generation : Option UInt64
  error : WalError

variable (disk : Disk)

def readSlot (slot : Slot) : Option (Candidate ⊕ Unreadable) :=
  let file := disk slot
  if file.linked = false then none
  else if file.bytes.length < walHeaderSize then
    some (.inr ⟨slot, none, .truncatedHeader⟩)
  else
    match readHeader crc32c file.bytes with
    | .error e => some (.inr ⟨slot, none, e⟩)
    | .ok header =>
      match scanFile crc32c format file.bytes .allowIncompleteFinalRecord with
      | .ok scan => some (.inl ⟨slot, header, scan⟩)
      | .error e => some (.inr ⟨slot, some header.generation, e⟩)

/-- At most two candidates, the older one first. -/
def sortCandidates : List Candidate → List Candidate
  | [a, b] => if b.header.generation < a.header.generation then [b, a] else [a, b]
  | candidates => candidates

/-- The position a successor names as its checkpoint. -/
def Candidate.checkpoint (older : Candidate) : Option Lsn :=
  (older.scan.records.getLast?.map (·.lsn)).or older.header.checkpointLsn

/-- The least transaction id a successor may offer. -/
def Candidate.nextTxnId (older : Candidate) : Nat :=
  match (older.scan.records.map (·.txnId)).max? with
  | none => older.header.nextTxnId.toNat
  | some maximum => max (min (maximum.toNat + 1) (2 ^ 64 - 1)) older.header.nextTxnId.toNat

def validateGenerationCandidates : List Candidate → Except WalError Unit
  | [older, newer] => do
      if newer.header.generation = older.header.generation then
        throw .generationConflict
      if 2 ^ 64 ≤ older.header.generation.toNat + 1 then
        throw (.invalidGeneration older.header.generation)
      let olderEnd ← logicalLsn older.header.baseLsn older.scan.validEnd
      if newer.header.generation ≠ older.header.generation + 1
          ∨ newer.header.baseLsn ≠ olderEnd
          ∨ newer.header.checkpointLsn ≠ older.checkpoint
          ∨ newer.header.nextTxnId.toNat < older.nextTxnId then
        throw .generationConflict
  | _ => pure ()

def blocksOpen (selected : UInt64) (failure : Unreadable) : Bool :=
  match failure.generation with
  | some generation => selected ≤ generation
  | none => failure.error ≠ .truncatedHeader

def selectGeneration : Except WalError (Candidate × List Slot) := do
  let slots := [Slot.root, Slot.alternate].filterMap (readSlot crc32c format disk)
  let candidates := slots.filterMap Sum.getLeft?
  let failures := slots.filterMap Sum.getRight?
  let sorted := sortCandidates candidates
  match sorted.getLast? with
  | none => throw ((failures.head?.map (·.error)).getD .io)
  | some selected =>
    validateGenerationCandidates sorted
    match failures.find? (blocksOpen selected.header.generation) with
    | some failure => throw failure.error
    | none => pure (selected, sorted.dropLast.map (·.slot) ++ failures.map (·.slot))

/-- The disk after the superseded slots are removed, one after the other. -/
def removeSuperseded (slots : List Slot) : Disk :=
  slots.foldl (fun disk slot => (disk.unlinkFile slot).syncDirectory) disk

/-- The disk once an incomplete tail of the selected file is cut off. -/
def cutTail (selected : Candidate) : Disk :=
  if selected.scan.incompleteTail then
    disk.set selected.slot ((disk selected.slot).setLen selected.scan.validEnd)
  else disk

/-- Open the newest generation: cut an incomplete tail off, synchronise the
file and its directory, and only then remove the superseded file. -/
def openSelected (fault : Option OpenFault) : Except WalError (Running × List WalRecord) × Disk :=
  match selectGeneration crc32c format disk with
  | .error e => (.error e, disk)
  | .ok (selected, superseded) =>
    let cut := cutTail disk selected
    let synced := cut.syncFile selected.slot
    let durable := synced.syncDirectory
    if selected.scan.incompleteTail ∧ fault = some .setLen then (.error .io, disk)
    else if fault = some .syncFile then (.error .io, cut)
    else if fault = some .syncDirectory then (.error .io, synced)
    else
      match superseded, fault with
      | _ :: _, some .removeSuperseded => (.error .io, durable)
      | slot :: _, some .syncRemoval => (.error .io, durable.unlinkFile slot)
      | _, _ =>
        let disk' := removeSuperseded durable superseded
        match WalManager.fromScan selected.header selected.scan.records
          selected.scan.validEnd with
        | .error e => (.error e, disk')
        | .ok wal => (.ok (⟨wal, selected.slot⟩, selected.scan.records), disk')

end Operations

/-- The first generation, made durable by `create`. -/
def createdDisk (crc32c : Crc32c) : Disk := fun slot =>
  match slot with
  | .root =>
    let bytes := headerBytes initialHeader (crc32c (headerBytes initialHeader 0)).toNat
    ⟨bytes, bytes.length, true, true⟩
  | .alternate => .absent

end Netbadb.Wal
