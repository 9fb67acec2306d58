import Netbadb.Wal.Rotation

/-!
Every step of a log keeps its invariant.
-/

namespace Netbadb.Wal

open Bytes List Disk SlotFile Running Outcome

variable {crc32c : Crc32c} {format : PageFormat} {header : WalHeader}
  {all kept current : List WalRecord} {full : List UInt8} {slot : Slot} {durable : Nat}
  {disk disk' : Disk} {superseding : Bool} {running running' : Running}

@[simp] lemma Slot.other_other (slot : Slot) : slot.other.other = slot := by
  cases slot <;> rfl

lemma Slot.other_ne (slot : Slot) : slot.other ≠ slot := by
  cases slot <;> decide

@[simp] lemma Disk.set_same (disk : Disk) (slot : Slot) (file : SlotFile) :
    disk.set slot file slot = file := Function.update_self ..

@[simp] lemma Disk.set_other (disk : Disk) (slot : Slot) (file : SlotFile) :
    disk.set slot file slot.other = disk slot.other :=
  Function.update_of_ne slot.other_ne ..

@[simp] lemma Disk.set_of_other (disk : Disk) (slot : Slot) (file : SlotFile) :
    disk.set slot.other file slot = disk slot :=
  Function.update_of_ne slot.other_ne.symm ..

/-- A front of the records that fits into a prefix is in what its scan returns. -/
lemma LogFile.le_validEnd {inside outside : List WalRecord} {n : Nat}
    (h : LogFile crc32c format header (inside ++ outside) full)
    (hinside : walHeaderSize + (logBytes crc32c inside).length ≤ n) (hn : n ≤ full.length) :
    walHeaderSize + (logBytes crc32c inside).length
      ≤ (prefixScan header.baseLsn (inside ++ outside) n).validEnd := by
  obtain ⟨inside', outside', k, hsplit, rfl, -, hnext, hscan⟩ := h.cut (by omega) hn
  rw [hscan]
  dsimp only
  rcases append_eq_append_iff.mp hsplit with ⟨mid, hmid, -⟩ | ⟨mid, hmid, hout⟩
  · rw [hmid, logBytes_append, length_append]
    omega
  cases mid with
  | nil => simp [hmid]
  | cons r mid =>
    have hr := hnext r (by rw [hout]; rfl)
    rw [hmid, logBytes_append, logBytes_cons, length_append, length_append,
      length_encodedBytes] at hinside
    omega

/-- The records of a file end at or before the position of its end. -/
lemma LogFile.endLsn_le (h : LogFile crc32c format header all full) :
    ∀ r ∈ all, r.endLsn ≤ header.baseLsn.toNat + (full.length - walHeaderSize) := by
  intro r hr
  have hbounds := (h.legal.recordEnd_bounds crc32c r hr).2
  have hlen := h.length_eq
  simp only [recordEnd] at hbounds
  rw [WalRecord.endLsn]
  omega

variable {txnId : TxnId} {records : List WalRecord}

lemma LogIndex.exists_of_txnStates (h : (LogIndex.ofRecords records).txnStates txnId ≠ none) :
    ∃ r ∈ records, r.txnId = txnId := by
  induction records using reverseRecOn with
  | nil => exact absurd rfl h
  | append_singleton records r ih =>
    rw [LogIndex.ofRecords_concat] at h
    by_cases htxn : txnId = r.txnId
    · exact ⟨r, by simp, htxn.symm⟩
    · have hold : (LogIndex.ofRecords records).txnStates txnId ≠ none := by
        simpa [LogIndex.insert, Function.update_of_ne htxn] using h
      obtain ⟨s, hs, htxn⟩ := ih hold
      exact ⟨s, mem_append_left _ hs, htxn⟩

lemma nextTxnIdAfter_eq_ok {next : TxnId} (h : nextTxnIdAfter txnId = .ok next) :
    next.toNat = txnId.toNat + 1 ∧ txnId.toNat + 1 < 2 ^ 64 := by
  unfold nextTxnIdAfter at h
  split_ifs at h with hlt
  · cases h
    refine ⟨?_, hlt⟩
    rw [UInt64.toNat_add, UInt64.toNat_one, Nat.mod_eq_of_lt hlt]

variable {lsn : Lsn} {kind : WalRecordKind}

/-- Only a Begin opens a transaction. -/
lemma state_of_sequence {state : Option WalTxnState}
    (h : validateTransactionSequence lsn txnId state kind = .ok ()) (hkind : kind ≠ .begin) :
    state ≠ none := by
  rintro rfl
  cases kind <;> simp [validateTransactionSequence, validateTransactionTagSequence,
    WalRecordKind.tag] at h hkind

variable {wal' wal : WalManager} {r : WalRecord} {bytes : List UInt8}

/-- A planned record is within the ids its manager will offer next. -/
lemma Planned.txnId_lt
    (hplan : Planned crc32c format wal r bytes wal') (h : Mirrors crc32c format header wal full all)
    (hbounded : ∀ q ∈ all, q.txnId.toNat + 1 < 2 ^ 64) :
    r.txnId.toNat < wal'.nextTxnId.toNat ∧ wal.nextTxnId.toNat ≤ wal'.nextTxnId.toNat
      ∧ r.txnId.toNat + 1 < 2 ^ 64 := by
  obtain ⟨nextLsn, beginNext, -, hbegin, rfl⟩ := hplan.recorded
  by_cases hkind : r.kind = .begin
  · rw [beginNextTxnId, if_pos hkind, map_eq_ok] at hbegin
    obtain ⟨next, hnext, rfl⟩ := hbegin
    obtain ⟨hnext, hlt⟩ := nextTxnIdAfter_eq_ok hnext
    have hmax : (wal.recorded r nextLsn (wal.nextOffset + r.kind.encodedRecordLen)
        (some next)).nextTxnId.toNat = max next.toNat wal.nextTxnId.toNat :=
      UInt64.toNat_max next wal.nextTxnId
    omega
  · rw [beginNextTxnId, if_neg hkind, pure_eq_ok] at hbegin
    subst hbegin
    have hstate := state_of_sequence hplan.sequenced hkind
    rw [h.indexed] at hstate
    obtain ⟨q, hq, htxn⟩ := LogIndex.exists_of_txnStates hstate
    rw [← htxn]
    exact ⟨h.unused q hq, le_rfl, hbounded q hq⟩

lemma small_headerBytes (header : WalHeader) (checksum : Nat) :
    Small header (headerBytes header checksum) := by
  have hlt := header.baseLsn.toNat_lt
  rw [Small, length_headerBytes]
  exact ⟨by decide, by omega⟩

variable {file : SlotFile}

lemma Held.grow {new tail : List UInt8} (h : Held crc32c format header all full file durable)
    (hfull : full = file.bytes)
    (hlog : LogFile crc32c format header (all ++ records) (full ++ (new ++ tail))) :
    Held crc32c format header (all ++ records) (full ++ (new ++ tail))
      { file with bytes := full ++ new } durable := by
  obtain ⟨inside, outside, rfl, hinside, hdurable⟩ := h.keeps
  refine ⟨hlog, ?_, ?_, inside, outside ++ records, by rw [append_assoc], hinside, hdurable⟩
  · rw [← append_assoc, take_left]
  · have hsynced := h.synced
    dsimp only
    rw [length_append, hfull]
    omega

/-- The durable position does not depend on what was written behind it. -/
lemma Running.durableEnd_set (hbase : wal'.baseLsn = running.wal.baseLsn) (bytes : List UInt8) :
    durableEnd ⟨wal', running.slot⟩
        (disk.set running.slot { disk running.slot with bytes := bytes })
      = running.durableEnd disk := by
  simp only [durableEnd, set_same, hbase]

lemma Flushed.append {bytes new : List UInt8} (h : Flushed header wal all file)
    (hplan : Planned crc32c format wal r bytes wal') :
    Flushed header wal' (all ++ [r]) { file with bytes := new } := by
  obtain ⟨nextLsn, beginNext, hnext, -, rfl⟩ := hplan.recorded
  intro lsn hlsn
  obtain ⟨hlt, hsynced⟩ := h lsn hlsn
  refine ⟨?_, ?_⟩
  · change lsn.toNat < nextLsn.toNat
    omega
  intro q hq hle
  rcases mem_append.mp hq with hq | hq
  · exact hsynced q hq hle
  · rw [mem_singleton.mp hq, hplan.position, UInt64.le_iff_toNat_le] at hle
    omega

variable {prevLsn : Option Lsn} {syncs : Bool}

lemma encodeHeader_eq_ok (h : encodeHeader crc32c header = .ok bytes) :
    validateHeader header = .ok ()
      ∧ bytes = sealedHeader crc32c header := by
  simp only [encodeHeader, bind_eq_ok, pure_eq_ok, patch_header_checksum] at h
  obtain ⟨_, hvalid, rfl⟩ := h
  exact ⟨hvalid, rfl⟩

variable {nextTxnId : TxnId} {next : WalHeader} {write : WriteOutcome}

section Mirror

variable (h : Mirrors crc32c format header wal full all)

include h

lemma Mirrors.append (hbounded : ∀ q ∈ all, q.txnId.toNat + 1 < 2 ^ 64)
    (hplan : Planned crc32c format wal r bytes wal') :
    Mirrors crc32c format header wal' (patch full wal.nextOffset bytes) (all ++ [r]) := by
  obtain ⟨hr, hle, -⟩ := hplan.txnId_lt h hbounded
  have hmanages := h.toManages.append hplan
  obtain ⟨nextLsn, beginNext, -, -, rfl⟩ := hplan.recorded
  refine ⟨hmanages, h.generation, h.baseLsn, h.checkpointLsn, ?_, h.offered.trans hle, ?_⟩
  · rw [getLast?_concat]
    rfl
  intro q hq
  rcases mem_append.mp hq with hq | hq
  · exact lt_of_lt_of_le (h.unused q hq) hle
  · rw [mem_singleton.mp hq]
    exact hr

lemma Mirrors.fits : Small header full :=
  ⟨h.small, by rw [← h.position]; exact UInt64.toNat_lt _⟩

lemma Mirrors.writtenLsn_lt : ∀ lsn ∈ wal.writtenLsn, lsn.toNat < wal.nextLsn.toNat := by
  intro lsn hlsn
  rw [h.writtenLsn, Option.mem_def, Option.map_eq_some_iff] at hlsn
  obtain ⟨r, hr, rfl⟩ := hlsn
  have hend := h.endLsn_le r (mem_of_getLast? hr)
  have hpos := (encodedRecordLen_le r.kind).1
  have hsize : 0 < recordHeaderSize := by decide
  rw [WalRecord.endLsn] at hend
  rw [h.position]
  omega

lemma Mirrors.flushed (hwritten : ∀ lsn ∈ wal.durableLsn, lsn.toNat < wal.nextLsn.toNat)
    (hsynced : full.length ≤ file.synced) : Flushed header wal all file := by
  intro lsn hlsn
  refine ⟨hwritten lsn hlsn, fun r hr _ => ?_⟩
  have hbounds := (h.legal.recordEnd_bounds crc32c r hr).2
  have hlen := h.length_eq
  omega

lemma Mirrors.successor (hle : ¬ nextTxnId < wal.nextTxnId)
    (hnext : nextHeader wal nextTxnId = .ok next) : Successor header all full next := by
  simp only [nextHeader, check_eq_ok, bind_eq_ok, pure_eq_ok] at hnext
  obtain ⟨hgeneration, _, hvalid, rfl⟩ := hnext
  rw [UInt64.lt_iff_toNat_lt, not_lt] at hle
  refine ⟨hvalid, ?_, h.position, ?_, h.offered.trans hle,
    fun r hr => lt_of_lt_of_le (h.unused r hr) hle⟩
  · rw [h.generation] at hgeneration ⊢
    rw [UInt64.toNat_add, UInt64.toNat_one, Nat.mod_eq_of_lt (not_le.mp hgeneration)]
  · rw [h.writtenLsn, h.checkpointLsn]

end Mirror

section

variable (h : Successor header all full next)
include h

lemma Successor.checkpoint_ne_zero
    (hlog : LogFile crc32c format header all full) (hne : header.checkpointLsn ≠ some 0) :
    next.checkpointLsn ≠ some 0 := by
  rw [h.checkpoint]
  cases hlast : all.getLast? with
  | none => simpa using hne
  | some r =>
    have hr := hlog.lsn_ne_zero r (mem_of_getLast? hlast)
    simpa using hr

/-- What was kept before a rotation is behind the start of the next generation. -/
lemma Successor.kept_behind (hlog : LogFile crc32c format header all full)
    (hkept : ∀ r ∈ kept, r ∈ all
      ∨ (r.endLsn ≤ header.baseLsn.toNat ∧ r.txnId.toNat < header.nextTxnId.toNat)) :
    ∀ r ∈ kept, r.endLsn ≤ next.baseLsn.toNat ∧ r.txnId.toNat < next.nextTxnId.toNat := by
  intro r hr
  rw [h.base]
  rcases hkept r hr with hmem | ⟨hend, htxn⟩
  · exact ⟨hlog.endLsn_le r hmem, h.unused r hmem⟩
  · exact ⟨by omega, lt_of_lt_of_le htxn h.offered⟩

lemma Successor.logFile : LogFile crc32c format next [] (sealedHeader crc32c next) :=
  ⟨by rw [logBytes_nil, append_nil], h.valid, trivial⟩

lemma Successor.mirrors : Mirrors crc32c format next (switched next)
      (sealedHeader crc32c next) [] := by
  refine ⟨⟨h.logFile, ?_, ?_, ?_, rfl⟩, rfl, rfl, rfl, rfl, le_rfl, by simp⟩
  · rfl
  · rw [length_headerBytes]
    decide
  · rfl

/-- The state of a log whose only file is a fresh successor. -/
lemma Successor.alone (hbytes : (disk slot).bytes = sealedHeader crc32c next)
    (hsynced : (disk slot).synced = walHeaderSize)
    (hnamed : (disk slot).linked = true ∧ (disk slot).linkedOnDisk = true)
    (hfree : (disk slot.other).linked = false ∧ (disk slot.other).linkedOnDisk = false)
    (hdurable : durable ≤ next.baseLsn.toNat) :
    Layout crc32c format disk superseding slot next []
      (sealedHeader crc32c next) durable := by
  refine .alone ⟨h.logFile, ?_, ?_, [], [], rfl, ?_, ?_⟩ hnamed hfree
  · rw [hbytes, take_length]
  · rw [hbytes, hsynced, length_headerBytes]
    exact ⟨le_rfl, le_rfl⟩
  · rw [hsynced, logBytes_nil]
    rfl
  · exact hdurable

/-- A successor of which a prefix of the header has been written. -/
lemma Successor.beside (hlog : LogFile crc32c format header all full) (written : Nat)
    (hcomplete : (disk slot).bytes = full ∧ (disk slot).synced = full.length)
    (hbytes : (disk slot.other).bytes
      = (sealedHeader crc32c next).take written)
    (hsynced : (disk slot.other).synced ≤ min written walHeaderSize)
    (hnamed : ((disk slot).linked = true ∧ (disk slot).linkedOnDisk = true)
      ∨ ((disk slot.other).linked = true ∧ (disk slot.other).linkedOnDisk = true
        ∧ (disk slot.other).synced = walHeaderSize)) (hdurable : durable ≤ next.baseLsn.toNat) :
    Layout crc32c format disk true slot header all full durable := by
  have hlen : (disk slot.other).bytes.length = min written walHeaderSize := by
    rw [hbytes, length_take, length_headerBytes]
  refine .succession rfl hlog hcomplete h ?_ (by rw [hlen]; exact hsynced) hnamed hdurable
  rw [hlen, hbytes, ← length_sealedHeader crc32c next, ← take_eq_take_min]

end

lemma flushTo_running :
    (flushTo running disk lsn syncs).running.wal.nextTxnId = running.wal.nextTxnId
      ∧ (flushTo running disk lsn syncs).running.wal.poisoned = running.wal.poisoned := by
  unfold flushTo
  cases hflush : running.wal.flushThrough lsn with
  | error e => exact ⟨rfl, rfl⟩
  | ok wal' =>
    obtain ⟨-, hwal, -⟩ := flushThrough_eq_ok hflush
    split_ifs
    · exact ⟨rfl, rfl⟩
    · rcases hwal with rfl | rfl <;> exact ⟨rfl, rfl⟩
    · exact ⟨rfl, rfl⟩

lemma appendTo_durableEnd :
    (appendTo crc32c format running disk txnId prevLsn kind write).running.durableEnd
        (appendTo crc32c format running disk txnId prevLsn kind write).disk
      = running.durableEnd disk := by
  unfold appendTo
  cases hplan : running.wal.planAppend crc32c format txnId prevLsn kind with
  | error e => rfl
  | ok plan =>
    obtain ⟨r, bytes, wal'⟩ := plan
    obtain ⟨hplanned, -⟩ := planAppend_eq_ok hplan
    obtain ⟨_, _, -, -, rfl⟩ := hplanned.recorded
    cases write with
    | done => exact durableEnd_set (by rfl) _
    | failed written truncated =>
      cases truncated with
      | true => rfl
      | false => exact durableEnd_set (by rfl) _

variable {fault : Option RotationFault} {e : WalError}

section Running

variable (h : Sound crc32c format disk (.running running) kept current superseding slot header all full)

include h

lemma Sound.held (hhealthy : running.wal.poisoned = false) :
    Held crc32c format header all full (disk slot) (running.durableEnd disk)
      ∧ ((disk slot).linked = true ∧ (disk slot).linkedOnDisk = true)
      ∧ ((disk slot.other).linked = false ∧ (disk slot.other).linkedOnDisk = false) := by
  obtain ⟨-, hsuperseding, -⟩ := h.healthy running rfl hhealthy
  cases h.layout with
  | alone held named free => exact ⟨held, named, free⟩
  | succession hs => rw [hsuperseding] at hs; cases hs

lemma Sound.append (happend : appendTo crc32c format running disk txnId prevLsn kind .done
      = ⟨.ok lsn, running', disk'⟩) :
    ∃ full', Sound crc32c format disk' (.running running') (kept ++ [⟨lsn, txnId, prevLsn, kind⟩])
      (current ++ [⟨lsn, txnId, prevLsn, kind⟩]) superseding slot header
      (all ++ [⟨lsn, txnId, prevLsn, kind⟩]) full' := by
  unfold appendTo at happend
  cases hplan : running.wal.planAppend crc32c format txnId prevLsn kind with
  | error e => simp [hplan] at happend
  | ok plan =>
    obtain ⟨r, bytes, wal'⟩ := plan
    simp only [hplan, LogOutcome.mk.injEq, Except.ok.injEq] at happend
    obtain ⟨rfl, rfl, rfl⟩ := happend
    obtain ⟨hplanned, hr⟩ := planAppend_eq_ok hplan
    obtain ⟨rfl, hsuperseding, hfull, hmirrors, hflushed⟩ := h.healthy running rfl hplanned.healthy
    obtain ⟨held, named, free⟩ := h.held hplanned.healthy
    have hgrown := hmirrors.append h.bounded hplanned
    obtain ⟨-, -, hbound⟩ := hplanned.txnId_lt hmirrors h.bounded
    rw [show (⟨r.lsn, txnId, prevLsn, kind⟩ : WalRecord) = r by rw [hr], ← hfull]
    rw [hmirrors.atEnd, patch_length] at hgrown ⊢
    refine ⟨full ++ bytes, ?_, h.checkpoint, hgrown.fits, ?_, ?_, ?_, ?_⟩
    · refine .alone ?_ (by simpa using named) (by simpa using free)
      have hlog := hgrown.toLogFile
      rw [← append_nil bytes] at hlog
      have hheld := held.grow hfull hlog
      rw [append_nil] at hheld
      rw [Phase.durable, durableEnd_set (hgrown.baseLsn.trans hmirrors.baseLsn.symm), set_same]
      exact hheld
    · intro q hq
      rcases mem_append.mp hq with hq | hq
      · exact h.bounded q hq
      · rw [mem_singleton.mp hq]
        exact hbound
    · intro q hq
      rcases mem_append.mp hq with hq | hq
      · exact (h.kept q hq).imp_left (mem_append_left _)
      · exact .inl (mem_append_right _ hq)
    · intro _ q hq
      rcases mem_append.mp hq with hq | hq
      · exact mem_append_left _ (h.current hsuperseding q hq)
      · exact mem_append_right _ hq
    · rintro running' ⟨⟩ -
      exact ⟨rfl, hsuperseding, by rw [set_same], hgrown,
        by rw [set_same]; exact hflushed.append hplanned⟩

/-- A write that failed leaves the log as it was, or poisoned with a part of the
record at its end. -/
lemma Sound.appendFailed (happend : appendTo crc32c format running disk txnId prevLsn kind write
      = ⟨.error e, running', disk'⟩) :
    ∃ all' full', Sound crc32c format disk' (.running running') kept current superseding slot
      header all' full' := by
  unfold appendTo at happend
  cases hplan : running.wal.planAppend crc32c format txnId prevLsn kind with
  | error e =>
    simp only [hplan, LogOutcome.mk.injEq] at happend
    obtain ⟨-, rfl, rfl⟩ := happend
    exact ⟨all, full, h⟩
  | ok plan =>
    obtain ⟨r, bytes, wal'⟩ := plan
    cases write with
    | done => simp [hplan] at happend
    | failed written truncated =>
      cases truncated with
      | true =>
        simp only [hplan, LogOutcome.mk.injEq] at happend
        obtain ⟨-, rfl, rfl⟩ := happend
        exact ⟨all, full, h⟩
      | false =>
        simp only [hplan, LogOutcome.mk.injEq] at happend
        obtain ⟨-, rfl, rfl⟩ := happend
        obtain ⟨hplanned, -⟩ := planAppend_eq_ok hplan
        obtain ⟨rfl, hsuperseding, hfull, hmirrors, hflushed⟩ := h.healthy running rfl hplanned.healthy
        obtain ⟨held, named, free⟩ := h.held hplanned.healthy
        have hgrown := hmirrors.append h.bounded hplanned
        obtain ⟨-, -, hbound⟩ := hplanned.txnId_lt hmirrors h.bounded
        rw [hmirrors.atEnd, patch_length, ← take_append_drop written bytes] at hgrown
        rw [← hfull, hmirrors.atEnd, patch_length]
        refine ⟨all ++ [r], _, ?_, h.checkpoint, hgrown.fits, ?_, ?_, ?_, ?_⟩
        · refine .alone ?_ (by simpa using named) (by simpa using free)
          rw [Phase.durable, durableEnd_set (by rfl), set_same]
          exact held.grow hfull hgrown.toLogFile
        · intro q hq
          rcases mem_append.mp hq with hq | hq
          · exact h.bounded q hq
          · rw [mem_singleton.mp hq]
            exact hbound
        · exact fun q hq => (h.kept q hq).imp_left (mem_append_left _)
        · exact fun _ q hq => mem_append_left _ (h.current hsuperseding q hq)
        · rintro running' ⟨⟩ hhealthy
          cases hhealthy

lemma Sound.synced (hhealthy : running.wal.poisoned = false)
    (hwal : wal' = running.wal ∨ wal' = { running.wal with durableLsn := running.wal.writtenLsn }) :
    Sound crc32c format (disk.set running.slot (disk running.slot).sync)
      (.running ⟨wal', running.slot⟩) kept current superseding slot header all full := by
  obtain ⟨rfl, hsuperseding, hfull, hmirrors, hflushed⟩ := h.healthy running rfl hhealthy
  obtain ⟨held, named, free⟩ := h.held hhealthy
  have hmirrors' : Mirrors crc32c format header wal' full all := by
    rcases hwal with rfl | rfl
    · exact hmirrors
    · exact ⟨⟨hmirrors.toLogFile, hmirrors.atEnd, hmirrors.small, hmirrors.position,
        hmirrors.indexed⟩, hmirrors.generation, hmirrors.baseLsn, hmirrors.checkpointLsn,
        hmirrors.writtenLsn, hmirrors.offered, hmirrors.unused⟩
  have hlen := hmirrors.length_eq
  refine ⟨.alone ?_ ?_ ?_, h.checkpoint, h.small, h.bounded, h.kept, h.current, ?_⟩
  · rw [set_same]
    refine ⟨held.log, held.front, ?_, all, [], by rw [append_nil], ?_, ?_⟩
    · simp only [sync, ← hfull]
      omega
    · simp only [sync, ← hfull]
      omega
    · simp only [Phase.durable, durableEnd, set_same, sync, ← hfull, hmirrors'.baseLsn]
      omega
  · simpa [sync] using named
  · simpa [sync] using free
  · rintro running' ⟨⟩ -
    refine ⟨rfl, hsuperseding, by rw [set_same]; exact hfull, hmirrors', ?_⟩
    rw [set_same]
    refine hmirrors'.flushed ?_ (by rw [hfull]; rfl)
    rcases hwal with rfl | rfl
    · exact fun lsn hlsn => (hflushed lsn hlsn).1
    · exact hmirrors.writtenLsn_lt

/-- A flush leaves the log as it was, or with its file synchronised. -/
lemma Sound.flush : Sound crc32c format (flushTo running disk lsn syncs).disk
      (.running (flushTo running disk lsn syncs).running) kept current superseding slot header all
      full := by
  unfold flushTo
  cases hflush : running.wal.flushThrough lsn with
  | error e => exact h
  | ok wal' =>
    obtain ⟨hhealthy, hwal, -⟩ := flushThrough_eq_ok hflush
    split_ifs
    · exact h
    · exact h.synced hhealthy hwal
    · exact h

/-- Every stop of a rotation leaves a sound log; the stops differ only in the two slots
and the manager. -/
lemma Sound.interrupted {fault : Option RotationFault} (hhealthy : running.wal.poisoned = false)
    (hsynced : (disk slot).synced = full.length) (hsuccessor : Successor header all full next)
    (hinstall : installGeneration running disk next
      (sealedHeader crc32c next) fault = ⟨.error e, running', disk'⟩) :
    Sound crc32c format disk' (.running running') kept current true slot header all full := by
  obtain ⟨rfl, -, hfull, hmirrors, -⟩ := h.healthy running rfl hhealthy
  obtain ⟨held, named, free⟩ := h.held hhealthy
  have hheader := length_sealedHeader crc32c next
  have hdurable : running.durableEnd disk = next.baseLsn.toNat := by
    rw [durableEnd, hmirrors.baseLsn, hsynced, hsuccessor.base]
  have hstop : ∀ (disk' : Disk) (running' : Running),
      running'.wal.poisoned = true →
      Layout crc32c format disk' true running.slot header all full (running'.durableEnd disk') →
      Sound crc32c format disk' (.running running') kept current true running.slot header all
        full := by
    intro disk' running' hpoisoned hlayout
    refine ⟨hlayout, h.checkpoint, h.small, h.bounded, h.kept, by simp, ?_⟩
    rintro _ ⟨⟩ hhealthy
    rw [hpoisoned] at hhealthy
    cases hhealthy
  unfold installGeneration at hinstall
  split at hinstall
  · cases hinstall
    exact hstop _ _ rfl (.alone held named free)
  · rename_i written
    cases hinstall
    apply hstop _ _ rfl
    apply hsuccessor.beside held.log written
    · simpa using ⟨hfull.symm, hsynced⟩
    · simp
    · simp
    · exact .inl (by simpa using named)
    · rw [← hdurable]
      simp [durableEnd, poison]
  · cases hinstall
    apply hstop _ _ rfl
    apply hsuccessor.beside held.log walHeaderSize
    · simpa using ⟨hfull.symm, hsynced⟩
    · simp [hheader]
    · simp
    · exact .inl (by simpa using named)
    · rw [← hdurable]
      simp [durableEnd, poison]
  · cases hinstall
    apply hstop _ _ rfl
    apply hsuccessor.beside held.log walHeaderSize
    · simpa using ⟨hfull.symm, hsynced⟩
    · simp [hheader]
    · simp [hheader]
    · exact .inl (by simpa using named)
    · rw [← hdurable]
      simp [durableEnd, poison]
  · cases hinstall
    apply hstop _ _ rfl
    apply hsuccessor.beside held.log walHeaderSize
    · simpa [syncDirectory, syncName] using ⟨hfull.symm, hsynced⟩
    · simp [syncDirectory, syncName, hheader]
    · simp [syncDirectory, syncName, hheader]
    · exact .inl (by simpa [syncDirectory, syncName] using named.1)
    · simp [durableEnd, poison, switched, syncDirectory, syncName, hheader]
  · cases hinstall
    apply hstop _ _ rfl
    apply hsuccessor.beside held.log walHeaderSize
    · simpa [syncDirectory, syncName, unlink] using ⟨hfull.symm, hsynced⟩
    · simp [syncDirectory, syncName, hheader]
    · simp [syncDirectory, syncName, hheader]
    · exact .inr (by simp [syncDirectory, syncName, hheader])
    · simp [durableEnd, poison, switched, syncDirectory, syncName, hheader]
  · cases hinstall

lemma Sound.installed {fault : Option RotationFault}
    (hhealthy : running.wal.poisoned = false) (hsuccessor : Successor header all full next)
    (hinstall : installGeneration running disk next
      (sealedHeader crc32c next) fault = ⟨.ok (), running', disk'⟩) :
    Sound crc32c format disk' (.running running') kept [] superseding slot.other next []
      (sealedHeader crc32c next) := by
  obtain ⟨rfl, hsuperseding, hfull, hmirrors, -⟩ := h.healthy running rfl hhealthy
  have hheader := length_sealedHeader crc32c next
  have hout : running' = ⟨switched next, running.slot.other⟩
      ∧ disk' running.slot.other = ⟨sealedHeader crc32c next,
        walHeaderSize, true, true⟩
      ∧ (disk' running.slot).linked = false ∧ (disk' running.slot).linkedOnDisk = false := by
    unfold installGeneration at hinstall
    split at hinstall <;> cases hinstall
    refine ⟨rfl, ?_, ?_, ?_⟩
    · simp [syncDirectory, syncName, hheader]
    all_goals simp [syncDirectory, syncName, unlink]
  obtain ⟨rfl, hnew, hold⟩ := hout
  refine ⟨hsuccessor.alone (by rw [hnew]) (by rw [hnew]) (by rw [hnew]; exact ⟨rfl, rfl⟩)
      (by rw [Slot.other_other]; exact hold) ?_,
    hsuccessor.checkpoint_ne_zero hmirrors.toLogFile h.checkpoint, small_headerBytes _ _,
    by simp, fun r hr => .inr (hsuccessor.kept_behind hmirrors.toLogFile h.kept r hr), by simp, ?_⟩
  · rw [Phase.durable, durableEnd, hnew]
    exact le_rfl
  · rintro _ ⟨⟩ -
    exact ⟨rfl, hsuperseding, by rw [hnew], hsuccessor.mirrors, by simp [Flushed, switched]⟩

lemma Sound.flushWritten (syncs : Bool) (hhealthy : running.wal.poisoned = false) :
    Sound crc32c format (flushWritten running disk syncs).disk
        (.running (flushWritten running disk syncs).running) kept current superseding slot header
        all full
      ∧ (Wal.flushWritten running disk syncs).running.wal.nextTxnId = running.wal.nextTxnId
      ∧ (Wal.flushWritten running disk syncs).running.wal.poisoned = false := by
  unfold Wal.flushWritten
  cases running.wal.writtenLsn with
  | none => exact ⟨h, rfl, hhealthy⟩
  | some written => exact ⟨h.flush, flushTo_running.1, flushTo_running.2.trans hhealthy⟩

/-- A rotation goes on only with a synchronised file. -/
lemma Sound.flushWritten_synced (syncs : Bool) (hhealthy : running.wal.poisoned = false)
    (hok : (Wal.flushWritten running disk syncs).result = .ok ()) :
    ((Wal.flushWritten running disk syncs).disk slot).synced = full.length := by
  obtain ⟨rfl, -, hfull, hmirrors, hflushed⟩ := h.healthy running rfl hhealthy
  obtain ⟨held, -, -⟩ := h.held hhealthy
  have hsynced := held.synced
  rw [← hfull] at hsynced
  unfold Wal.flushWritten at hok ⊢
  cases hwritten : running.wal.writtenLsn with
  | none =>
    rw [hmirrors.writtenLsn, Option.map_eq_none_iff, List.getLast?_eq_none_iff] at hwritten
    have hlen := hmirrors.length_eq
    rw [hwritten, logBytes_nil] at hlen
    exact le_antisymm hsynced.2 (by rw [hlen]; exact hsynced.1)
  | some written =>
    rw [hwritten] at hok
    dsimp only at hok ⊢
    unfold flushTo at hok ⊢
    cases hflush : running.wal.flushThrough written with
    | error e =>
      rw [hflush] at hok
      cases hok
    | ok wal' =>
      rw [hflush] at hok
      split_ifs at hok ⊢ with hdurable hsyncs
      · -- Already durable: the last record, and so the file, is synchronised.
        obtain ⟨lsn, hlsn, hle⟩ := (Option.any_eq_true _ _).mp hdurable
        rw [hmirrors.writtenLsn, Option.map_eq_some_iff] at hwritten
        obtain ⟨r, hr, rfl⟩ := hwritten
        have hend := (hflushed lsn hlsn).2 r (mem_of_getLast? hr) (by simpa using hle)
        have hlast := hmirrors.lastEnd
        rw [hr, Option.map_some, Option.getD_some] at hlast
        exact le_antisymm hsynced.2 (by rw [← hlast]; exact hend)
      · dsimp only
        rw [set_same, sync, ← hfull]

lemma Sound.flush_durableEnd : running.durableEnd disk
      ≤ (flushTo running disk lsn syncs).running.durableEnd (flushTo running disk lsn syncs).disk := by
  unfold flushTo
  cases hflush : running.wal.flushThrough lsn with
  | error e => exact le_rfl
  | ok wal' =>
    obtain ⟨hhealthy, hwal, -⟩ := flushThrough_eq_ok hflush
    obtain ⟨rfl, -, -, -, -⟩ := h.healthy running rfl hhealthy
    have hsynced := (h.held hhealthy).1.synced
    have hbase : wal'.baseLsn = running.wal.baseLsn := by
      rcases hwal with rfl | rfl <;> rfl
    split_ifs
    · exact le_rfl
    · simp only [durableEnd, set_same, sync, hbase]
      omega
    · exact le_rfl

lemma Sound.flushWritten_durable (syncs : Bool) :
    running.durableEnd disk ≤ (Wal.flushWritten running disk syncs).running.durableEnd
      (Wal.flushWritten running disk syncs).disk := by
  unfold Wal.flushWritten
  cases running.wal.writtenLsn with
  | none => exact le_rfl
  | some written => exact h.flush_durableEnd

/-- A rotation is refused, or it installs a successor of a synchronised file. -/
lemma Sound.rotate_cases {result : Except WalError Unit}
    (hrotate : rotate crc32c running disk nextTxnId fault = ⟨result, running', disk'⟩) :
    (∃ e, result = .error e ∧ running'.wal.poisoned = running.wal.poisoned
      ∧ running.durableEnd disk ≤ running'.durableEnd disk'
      ∧ Sound crc32c format disk' (.running running') kept current superseding slot header all full)
    ∨ ∃ next mid, ∃ midDisk : Disk, Successor header all full next
      ∧ Sound crc32c format midDisk (.running mid) kept current superseding slot header all full
      ∧ running.durableEnd disk ≤ mid.durableEnd midDisk
      ∧ running.wal.poisoned = false ∧ mid.wal.poisoned = false
      ∧ (midDisk slot).synced = full.length
      ∧ installGeneration mid midDisk next (sealedHeader crc32c next)
          fault = ⟨result, running', disk'⟩ := by
  unfold rotate at hrotate
  split_ifs at hrotate with hpoisoned hinvalid
  · cases hrotate
    exact .inl ⟨_, rfl, rfl, le_rfl, h⟩
  · cases hrotate
    exact .inl ⟨_, rfl, rfl, le_rfl, h⟩
  have hhealthy : running.wal.poisoned = false := by simpa using hpoisoned
  obtain ⟨hsound, hnextTxnId, hstill⟩ := h.flushWritten (fault ≠ some .flush) hhealthy
  have hsynced := h.flushWritten_synced (fault ≠ some .flush) hhealthy
  have hdurable := h.flushWritten_durable (fault ≠ some .flush)
  generalize Wal.flushWritten running disk (fault ≠ some .flush) = flushed
    at hrotate hsound hnextTxnId hstill hsynced hdurable
  dsimp only at hrotate
  have hrefused : ∀ e, (⟨.error e, flushed.running, flushed.disk⟩ : LogOutcome Unit)
      = ⟨result, running', disk'⟩ → ∃ e, result = .error e
        ∧ running'.wal.poisoned = running.wal.poisoned
        ∧ running.durableEnd disk ≤ running'.durableEnd disk'
        ∧ Sound crc32c format disk' (.running running') kept current superseding slot header all
          full := by
    rintro e ⟨⟩
    exact ⟨e, rfl, hstill.trans hhealthy.symm, hdurable, hsound⟩
  cases hresult : flushed.result with
  | error e =>
    rw [hresult] at hrotate
    exact .inl (hrefused e hrotate)
  | ok _ =>
    rw [hresult] at hrotate
    dsimp only at hrotate
    split at hrotate
    · exact .inl (hrefused _ hrotate)
    rename_i next bytes hplan
    simp only [bind_eq_ok, pure_eq_ok, Prod.mk.injEq] at hplan
    obtain ⟨_, hnext, _, hencode, rfl, rfl⟩ := hplan
    obtain ⟨-, rfl⟩ := encodeHeader_eq_ok hencode
    split_ifs at hrotate
    · exact .inl (hrefused _ hrotate)
    obtain ⟨-, -, -, hmirrors, -⟩ := hsound.healthy _ rfl hstill
    have hle : ¬ nextTxnId < flushed.running.wal.nextTxnId := by
      rw [hnextTxnId]
      exact fun hlt => hinvalid (.inr hlt)
    exact .inr ⟨_, flushed.running, flushed.disk, hmirrors.successor hle hnext, hsound,
      hdurable, hhealthy, hstill, hsynced hresult, hrotate⟩

lemma Sound.rotated
    (hrotate : rotate crc32c running disk nextTxnId fault = ⟨.ok (), running', disk'⟩) :
    ∃ slot' header' all' full', Sound crc32c format disk' (.running running') kept [] superseding
      slot' header' all' full' := by
  rcases h.rotate_cases hrotate with ⟨e, he, -⟩ |
      ⟨next, mid, midDisk, hsuccessor, hsound, -, -, hmid, -, hinstall⟩
  · cases he
  · exact ⟨_, _, _, _, hsound.installed hmid hsuccessor hinstall⟩

lemma Sound.rotateFailed
    (hrotate : rotate crc32c running disk nextTxnId fault = ⟨.error e, running', disk'⟩) :
    Sound crc32c format disk' (.running running') kept current
      (superseding || (running'.wal.poisoned && !running.wal.poisoned)) slot header all full := by
  rcases h.rotate_cases hrotate with
    ⟨_, -, hpoisoned, -, hsound⟩
      | ⟨next, mid, midDisk, hsuccessor, hsound, -, hhealthy, hmid, hsynced, hinstall⟩
  · rw [hpoisoned, Bool.and_not_self, Bool.or_false]
    exact hsound
  have hinterrupted := hsound.interrupted hmid hsynced hsuccessor hinstall
  have hpoisoned : running'.wal.poisoned = true := by
    by_contra hne
    obtain ⟨-, hfalse, -⟩ := hinterrupted.healthy running' rfl (by simpa using hne)
    cases hfalse
  rw [hpoisoned, hhealthy, Bool.not_false, Bool.and_self, Bool.or_true]
  exact hinterrupted

end Running

end Netbadb.Wal
