import Netbadb.Wal.Slots
import Netbadb.Wal.Generation

/-!
The states of a log over appends, flushes, rotations, crashes and reopens, and
the invariant that every one of them has. Either one generation file is alone
on the disk, or a complete generation file stands next to a successor of which
a prefix of the header has been written.
-/

namespace Netbadb.Wal

open Bytes

def WalRecord.endLsn (r : WalRecord) : Nat := r.lsn.toNat + r.kind.encodedRecordLen

/-- The position up to which the running log is known to be on the device. -/
def Running.durableEnd (running : Running) (disk : Disk) : Nat :=
  running.wal.baseLsn.toNat + ((disk running.slot).synced - walHeaderSize)

/-- A log is in use, or closed with the durable position it had. -/
inductive Phase where
  | running (running : Running)
  | closed (durable : Nat)

def Phase.durable (disk : Disk) : Phase → Nat
  | .running r => r.durableEnd disk
  | .closed d => d

structure LogState where
  disk : Disk
  phase : Phase
  /-- The records that appends returned and that no crash has lost. -/
  kept : List WalRecord
  /-- Those of them in the current generation. -/
  current : List WalRecord
  /-- Whether a rotation got as far as creating the next generation, and may
  drop the current one. -/
  superseding : Bool

section Steps

variable (crc32c : Crc32c) (format : PageFormat)

inductive Step : LogState → LogState → Prop
  | append {s : LogState} {running : Running} {txnId : TxnId} {prevLsn : Option Lsn}
      {kind : WalRecordKind} {lsn : Lsn} {running' : Running} {disk' : Disk}
      (hphase : s.phase = .running running)
      (happend : appendTo crc32c format running s.disk txnId prevLsn kind .done
        = ⟨.ok lsn, running', disk'⟩) :
      Step s { s with
        disk := disk'
        phase := .running running'
        kept := s.kept ++ [⟨lsn, txnId, prevLsn, kind⟩]
        current := s.current ++ [⟨lsn, txnId, prevLsn, kind⟩] }
  | appendFailed {s : LogState} {running : Running} {txnId : TxnId} {prevLsn : Option Lsn}
      {kind : WalRecordKind} {write : WriteOutcome} {e : WalError} {running' : Running}
      {disk' : Disk} (hphase : s.phase = .running running)
      (happend : appendTo crc32c format running s.disk txnId prevLsn kind write
        = ⟨.error e, running', disk'⟩) :
      Step s { s with disk := disk', phase := .running running' }
  | flush {s : LogState} {running : Running} {lsn : Lsn} {syncs : Bool}
      (hphase : s.phase = .running running) :
      Step s { s with
        disk := (flushTo running s.disk lsn syncs).disk
        phase := .running (flushTo running s.disk lsn syncs).running }
  | rotated {s : LogState} {running running' : Running} {nextTxnId : TxnId} {disk' : Disk}
      {fault : Option RotationFault} (hphase : s.phase = .running running)
      (hrotate : rotate crc32c running s.disk nextTxnId fault = ⟨.ok (), running', disk'⟩) :
      Step s { s with disk := disk', phase := .running running', current := [] }
  | rotateFailed {s : LogState} {running running' : Running} {nextTxnId : TxnId} {disk' : Disk}
      {fault : Option RotationFault} {e : WalError} (hphase : s.phase = .running running)
      (hrotate : rotate crc32c running s.disk nextTxnId fault = ⟨.error e, running', disk'⟩) :
      Step s { s with
        disk := disk'
        phase := .running running'
        superseding := s.superseding || (running'.wal.poisoned && !running.wal.poisoned) }
  | close {s : LogState} {running : Running} (hphase : s.phase = .running running) :
      Step s { s with phase := .closed (running.durableEnd s.disk) }
  | crash {s : LogState} {disk' : Disk}
      (hcrash : ∀ slot, (s.disk slot).Crash (disk' slot)) :
      Step s { s with disk := disk', phase := .closed (s.phase.durable s.disk) }
  | openFailed {s : LogState} {durable : Nat} {fault : Option OpenFault} {e : WalError}
      {disk' : Disk} (hphase : s.phase = .closed durable)
      (hopen : openSelected crc32c format s.disk fault = (.error e, disk')) :
      Step s { s with disk := disk' }
  | opened {s : LogState} {durable : Nat} {fault : Option OpenFault} {running : Running}
      {records : List WalRecord} {disk' : Disk} (hphase : s.phase = .closed durable)
      (hopen : openSelected crc32c format s.disk fault = (.ok (running, records), disk')) :
      Step s
        { disk := disk'
          phase := .running running
          kept := s.kept.filter (·.endLsn ≤ running.wal.nextLsn.toNat)
          current := records
          superseding := false }

inductive Reachable : LogState → Prop
  | created {wal : WalManager}
      (hwal : WalManager.fromScan initialHeader [] walHeaderSize = .ok wal) :
      Reachable ⟨createdDisk crc32c, .running ⟨wal, .root⟩, [], [], false⟩
  | step {s s' : LogState} (hs : Reachable s) (hstep : Step crc32c format s s') : Reachable s'

end Steps

section Invariant

variable (crc32c : Crc32c) (format : PageFormat)

/-- A slot holds a prefix of a legal log. The records in front of the durable
position are among the synchronised bytes. -/
structure Held (header : WalHeader) (all : List WalRecord) (full : List UInt8)
    (file : SlotFile) (durable : Nat) : Prop where
  log : LogFile crc32c format header all full
  front : file.bytes = full.take file.bytes.length
  synced : walHeaderSize ≤ file.synced ∧ file.synced ≤ file.bytes.length
  keeps : ∃ inside outside, all = inside ++ outside
    ∧ walHeaderSize + (logBytes crc32c inside).length ≤ file.synced
    ∧ durable ≤ header.baseLsn.toNat + (logBytes crc32c inside).length

/-- The header of the generation that follows a log. -/
structure Successor (header : WalHeader) (all : List WalRecord) (full : List UInt8)
    (next : WalHeader) : Prop where
  valid : validateHeader next = .ok ()
  generation : next.generation.toNat = header.generation.toNat + 1
  base : next.baseLsn.toNat = header.baseLsn.toNat + (full.length - walHeaderSize)
  checkpoint : next.checkpointLsn = (all.getLast?.map (·.lsn)).or header.checkpointLsn
  offered : header.nextTxnId.toNat ≤ next.nextTxnId.toNat
  unused : ∀ r ∈ all, r.txnId.toNat < next.nextTxnId.toNat

/-- What the two slots hold. A successor is there only while one supersedes. -/
inductive Layout (disk : Disk) (superseding : Bool) (slot : Slot) (header : WalHeader)
    (all : List WalRecord) (full : List UInt8) (durable : Nat) : Prop
  | alone (held : Held crc32c format header all full (disk slot) durable)
      (named : (disk slot).linked = true ∧ (disk slot).linkedOnDisk = true)
      (free : (disk slot.other).linked = false ∧ (disk slot.other).linkedOnDisk = false) :
      Layout disk superseding slot header all full durable
  | succession {next : WalHeader} (hsuperseding : superseding = true)
      (log : LogFile crc32c format header all full)
      (complete : (disk slot).bytes = full ∧ (disk slot).synced = full.length)
      (successor : Successor header all full next)
      (started : (disk slot.other).bytes
        = (headerBytes next (crc32c (headerBytes next 0)).toNat).take
          (disk slot.other).bytes.length)
      (written : (disk slot.other).synced ≤ (disk slot.other).bytes.length)
      (named : ((disk slot).linked = true ∧ (disk slot).linkedOnDisk = true)
        ∨ ((disk slot.other).linked = true ∧ (disk slot.other).linkedOnDisk = true
          ∧ (disk slot.other).synced = walHeaderSize))
      (reached : durable ≤ next.baseLsn.toNat) :
      Layout disk superseding slot header all full durable

/-- The manager agrees with the header and the records of its file. -/
structure Mirrors (header : WalHeader) (wal : WalManager) (file : List UInt8)
    (records : List WalRecord) : Prop extends Manages crc32c format header wal file records where
  generation : wal.generation = header.generation
  baseLsn : wal.baseLsn = header.baseLsn
  checkpointLsn : wal.checkpointLsn = header.checkpointLsn
  writtenLsn : wal.writtenLsn = records.getLast?.map (·.lsn)
  offered : header.nextTxnId.toNat ≤ wal.nextTxnId.toNat
  unused : ∀ r ∈ records, r.txnId.toNat < wal.nextTxnId.toNat

/-- The records up to the durable position of a manager are synchronised. -/
def Flushed (header : WalHeader) (wal : WalManager) (all : List WalRecord) (file : SlotFile) :
    Prop :=
  ∀ lsn ∈ wal.durableLsn, lsn.toNat < wal.nextLsn.toNat
    ∧ ∀ r ∈ all, r.lsn ≤ lsn → recordEnd header.baseLsn r ≤ file.synced

/-- The offsets and positions of a file are within 64 bits. -/
def Small (header : WalHeader) (file : List UInt8) : Prop :=
  file.length < 2 ^ 64 ∧ header.baseLsn.toNat + (file.length - walHeaderSize) < 2 ^ 64

structure Sound (disk : Disk) (phase : Phase) (kept current : List WalRecord)
    (superseding : Bool) (slot : Slot) (header : WalHeader) (all : List WalRecord)
    (full : List UInt8) : Prop where
  layout : Layout crc32c format disk superseding slot header all full (phase.durable disk)
  checkpoint : header.checkpointLsn ≠ some 0
  small : Small header full
  bounded : ∀ r ∈ all, r.txnId.toNat + 1 < 2 ^ 64
  kept : ∀ r ∈ kept, r ∈ all
    ∨ (r.endLsn ≤ header.baseLsn.toNat ∧ r.txnId.toNat < header.nextTxnId.toNat)
  current : superseding = false → ∀ r ∈ current, r ∈ all
  healthy : ∀ running, phase = .running running → running.wal.poisoned = false →
    running.slot = slot ∧ superseding = false ∧ full = (disk slot).bytes
      ∧ Mirrors crc32c format header running.wal full all
      ∧ Flushed header running.wal all (disk slot)

end Invariant

end Netbadb.Wal
