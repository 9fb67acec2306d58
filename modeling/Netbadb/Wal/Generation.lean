import Netbadb.Wal.TornTail

/-!
One generation file over its life: created with a header, appended to, flushed,
and cut at any length by a crash and reopened. At every point the file holds
exactly the records the appends of this generation wrote and it still keeps,
and a scan of it, or of any prefix of it, returns them.
-/

namespace Netbadb.Wal

open Bytes List Outcome WalManager

variable {bytes : List UInt8} {r : WalRecord} {txnId : TxnId} {lsn : Lsn} {offset : Nat}

section

variable {crc32c : Crc32c} {format : PageFormat}

lemma checkedAdd_eq_ok {a b : UInt64} {n : Nat} (h : checkedAdd a n = .ok b) :
    b.toNat = a.toNat + n := by
  unfold checkedAdd at h
  split_ifs at h with hlt
  · cases h
    exact UInt64.toNat_ofNat_of_lt' hlt

lemma logicalLsn_eq_ok {base : Lsn} (h : logicalLsn base offset = .ok lsn) :
    lsn.toNat = base.toNat + (offset - walHeaderSize) := by
  rw [logicalLsn, check_eq_ok] at h
  exact checkedAdd_eq_ok h.2

lemma encodeRecord_eq_ok (h : encodeRecord crc32c r = .ok bytes) : bytes = encodedBytes crc32c r
      ∧ ∀ databaseTxnId, r.kind = .prepare databaseTxnId → databaseTxnId ≠ 0 := by
  have hpatch : patch (recordBytes r 0) recordChecksumOffset
      (leBytes 4 (crc32c (recordBytes r 0)).toNat) = encodedBytes crc32c r :=
    patch_checksum r 0 _
  simp only [encodeRecord, hpatch] at h
  cases hkind : r.kind with
  | prepare databaseTxnId =>
    simp only [hkind, check_eq_ok, pure_eq_ok] at h
    refine ⟨h.2.symm, ?_⟩
    rintro _ ⟨⟩
    exact h.1
  | _ =>
    simp only [hkind, pure_eq_ok] at h
    exact ⟨h.symm, by simp⟩

/-- What a planned append has checked, and what it leaves in the manager. -/
structure Planned (crc32c : Crc32c) (format : PageFormat) (wal : WalManager) (r : WalRecord)
    (bytes : List UInt8) (wal' : WalManager) : Prop where
  healthy : wal.poisoned = false
  position : r.lsn = wal.nextLsn
  encoded : bytes = encodedBytes crc32c r
  chained : r.prevLsn = wal.index.lastByTxn r.txnId
  sequenced :
    validateTransactionSequence r.lsn r.txnId (wal.index.txnStates r.txnId) r.kind = .ok ()
  imaged : validatePageImages format r.lsn r.kind = .ok ()
  reserved : ∃ reservation,
    validateTransitionReservation format r.lsn r.txnId r.kind wal.index.reservations
      = .ok reservation
  named : ∀ databaseTxnId, r.kind = .prepare databaseTxnId → databaseTxnId ≠ 0
  fits : wal.nextOffset + r.kind.encodedRecordLen < 2 ^ 64
  recorded : ∃ nextLsn beginNext,
    nextLsn.toNat = wal.nextLsn.toNat + r.kind.encodedRecordLen
      ∧ beginNextTxnId r.txnId r.kind = .ok beginNext
      ∧ wal' = wal.recorded r nextLsn (wal.nextOffset + r.kind.encodedRecordLen) beginNext

lemma planAppend_eq_ok {wal wal' : WalManager} {prevLsn : Option Lsn} {kind : WalRecordKind}
    (h : wal.planAppend crc32c format txnId prevLsn kind = .ok (r, bytes, wal')) :
    Planned crc32c format wal r bytes wal' ∧ r = ⟨wal.nextLsn, txnId, prevLsn, kind⟩ := by
  simp only [planAppend, ensureHealthy, bind_eq_ok,
    check_eq_ok, guard_eq_ok, pure_eq_ok, Prod.mk.injEq] at h
  obtain ⟨_, ⟨hhealthy, -⟩, hprev, _, hsequence, _, himages, reservation, hreservation, -,
    beginNext, hbegin, encoded, hencode, nextLsn, hnext, hoffset, rfl, rfl, rfl⟩ := h
  obtain ⟨rfl, hnamed⟩ := encodeRecord_eq_ok hencode
  have hlsn := checkedAdd_eq_ok hnext
  rw [length_encodedBytes] at hlsn hoffset ⊢
  exact ⟨⟨by simpa using hhealthy, rfl, rfl, not_not.mp hprev, hsequence, himages,
    ⟨reservation, hreservation⟩, hnamed, not_le.mp hoffset, nextLsn, beginNext, hlsn, hbegin,
    rfl⟩, rfl⟩

end

structure Manages (crc32c : Crc32c) (format : PageFormat) (header : WalHeader)
    (wal : WalManager) (file : List UInt8) (records : List WalRecord) : Prop
    extends LogFile crc32c format header records file where
  atEnd : wal.nextOffset = file.length
  small : file.length < 2 ^ 64
  position : wal.nextLsn.toNat = header.baseLsn.toNat + (file.length - walHeaderSize)
  indexed : wal.index = LogIndex.ofRecords records

namespace LogIndex

lemma ofRecords_concat (records : List WalRecord) (r : WalRecord) :
    ofRecords (records ++ [r]) = (ofRecords records).insert r := by
  rw [ofRecords, foldl_append]
  rfl

/-- The last position of a transaction is the position of one of the records. -/
lemma exists_of_lastByTxn {records : List WalRecord}
    (h : (ofRecords records).lastByTxn txnId = some lsn) : ∃ r ∈ records, r.lsn = lsn := by
  induction records using reverseRecOn with
  | nil => cases h
  | append_singleton records r ih =>
    rw [ofRecords_concat] at h
    by_cases htxn : txnId = r.txnId
    · subst htxn
      have hlsn : r.lsn = lsn := by simpa [insert] using h
      exact ⟨r, by simp, hlsn⟩
    · have hold : (ofRecords records).lastByTxn txnId = some lsn := by
        simpa [insert, Function.update_of_ne htxn] using h
      obtain ⟨s, hs, hlsn⟩ := ih hold
      exact ⟨s, mem_append_left _ hs, hlsn⟩

end LogIndex

section Runs

variable {crc32c : Crc32c} {format : PageFormat} {header : WalHeader} {wal wal' : WalManager}
  {file : List UInt8} {records : List WalRecord}

lemma Legal.baseLsn_le {baseLsn : Lsn} {index : LogIndex}
    (h : Legal format baseLsn index offset records) :
    ∀ r ∈ records, baseLsn.toNat ≤ r.lsn.toNat := by
  induction records generalizing index offset with
  | nil => simp
  | cons s rest ih =>
    intro r hr
    rcases mem_cons.mp hr with rfl | hr
    · have hposition := h.1.position
      omega
    · exact ih h.2 r hr

lemma LogFile.lsn_ne_zero (h : LogFile crc32c format header records file) :
    ∀ r ∈ records, r.lsn ≠ 0 := by
  intro r hr hzero
  have hle := h.legal.baseLsn_le r hr
  have hbase := (validateHeader_eq_ok.mp h.valid).2.1
  rw [hzero, UInt64.toNat_zero, Nat.le_zero] at hle
  exact hbase (UInt64.toNat_inj.mp hle)

/-- An append keeps the manager and the file together. -/
lemma Manages.append (h : Manages crc32c format header wal file records)
    (hplan : Planned crc32c format wal r bytes wal') :
    Manages crc32c format header wal' (patch file wal.nextOffset bytes) (records ++ [r]) := by
  have hlen := h.length_eq
  have hfits := hplan.fits
  obtain ⟨nextLsn, beginNext, hnext, -, rfl⟩ := hplan.recorded
  have hposition := h.position
  rw [hplan.encoded, h.atEnd, patch_length]
  have haccepted : Accepted format header.baseLsn (LogIndex.ofRecords records) file.length r :=
    { placed := by omega
      position := by rw [hplan.position, h.position]
      fits := by rw [← h.atEnd]; exact hfits
      chained := by rw [← h.indexed]; exact hplan.chained
      previous := by
        intro hzero
        rw [hplan.chained, h.indexed] at hzero
        obtain ⟨s, hs, hlsn⟩ := LogIndex.exists_of_lastByTxn hzero
        exact h.lsn_ne_zero s hs hlsn
      sequenced := by rw [← h.indexed]; exact hplan.sequenced
      imaged := hplan.imaged
      reserved := by rw [← h.indexed]; exact hplan.reserved
      named := hplan.named }
  refine ⟨⟨?_, h.valid, ?_⟩, ?_, ?_, ?_, ?_⟩
  · rw [logBytes_append, logBytes_cons, logBytes_nil, append_nil, ← append_assoc, ← h.bytes]
  · rw [legal_append crc32c, ← hlen]
    exact ⟨h.legal, haccepted, trivial⟩
  · rw [length_append, length_encodedBytes, ← h.atEnd]
    rfl
  · rw [length_append, length_encodedBytes, ← h.atEnd]
    exact hfits
  · change nextLsn.toNat = _
    rw [length_append, length_encodedBytes, hnext]
    omega
  · rw [LogIndex.ofRecords_concat, ← h.indexed]
    rfl

lemma fromScan_eq_ok {length : Nat} (h : WalManager.fromScan header records length = .ok wal) :
    wal.nextOffset = length
      ∧ wal.nextLsn.toNat = header.baseLsn.toNat + (length - walHeaderSize)
      ∧ wal.index = LogIndex.ofRecords records := by
  simp only [fromScan, bind_eq_ok, pure_eq_ok] at h
  obtain ⟨nextLsn, hlsn, recordsNext, -, rfl⟩ := h
  exact ⟨rfl, logicalLsn_eq_ok hlsn, rfl⟩

lemma flushThrough_eq_ok (h : wal.flushThrough lsn = .ok wal') :
    wal.poisoned = false ∧ (wal' = wal ∨ wal' = { wal with durableLsn := wal.writtenLsn })
      ∧ reaches wal'.durableLsn lsn := by
  simp only [flushThrough, ensureHealthy, bind_eq_ok, guard_eq_ok] at h
  obtain ⟨_, ⟨hhealthy, -⟩, h⟩ := h
  refine ⟨by simpa using hhealthy, ?_⟩
  by_cases hdurable : reaches wal.durableLsn lsn = true
  · rw [if_pos hdurable, pure_eq_ok] at h
    exact h ▸ ⟨.inl rfl, hdurable⟩
  · rw [if_neg hdurable, check_eq_ok, pure_eq_ok] at h
    exact h.2 ▸ ⟨.inr rfl, not_not.mp h.1⟩

/-- A manager rebuilt from the scan of a file manages it. -/
lemma Manages.ofScan {header' : WalHeader} (h : LogFile crc32c format header records file)
    (hsmall : file.length < 2 ^ 64) (hbase : header'.baseLsn = header.baseLsn)
    (hscan : WalManager.fromScan header' records file.length = .ok wal) :
    Manages crc32c format header wal file records := by
  obtain ⟨hoffset, hposition, hindex⟩ := fromScan_eq_ok hscan
  exact ⟨h, hoffset, hsmall, by rw [hposition, hbase], hindex⟩

/-- The life of one generation: a manager, its file, and the records that
appends wrote and the file still keeps. A crash leaves any prefix of the file,
and reopening cuts an incomplete record off its end. -/
inductive Generation (crc32c : Crc32c) (format : PageFormat) (header : WalHeader) :
    WalManager → List UInt8 → List WalRecord → Prop
  | created {wal : WalManager} {file : List UInt8}
      (hfile : encodeHeader crc32c header = .ok file)
      (hwal : fromScan header [] walHeaderSize = .ok wal) :
      Generation crc32c format header wal file []
  | appended {wal wal' : WalManager} {file file' : List UInt8} {records : List WalRecord}
      {txnId : TxnId} {prevLsn : Option Lsn} {kind : WalRecordKind} {lsn : Lsn}
      (hrun : Generation crc32c format header wal file records)
      (happend : wal.append crc32c format file txnId prevLsn kind = .ok (lsn, wal', file')) :
      Generation crc32c format header wal' file' (records ++ [⟨lsn, txnId, prevLsn, kind⟩])
  | flushed {wal wal' : WalManager} {file : List UInt8} {records : List WalRecord} {lsn : Lsn}
      (hrun : Generation crc32c format header wal file records)
      (hflush : wal.flushThrough lsn = .ok wal') :
      Generation crc32c format header wal' file records
  | reopened {wal wal' : WalManager} {file : List UInt8} {records : List WalRecord} {n : Nat}
      {header' : WalHeader} {scan : ScanResult}
      (hrun : Generation crc32c format header wal file records)
      (hheader : walHeaderSize ≤ n) (hcut : n ≤ file.length)
      (hread : readHeader crc32c (file.take n) = .ok header')
      (hscan : scanFile crc32c format (file.take n) .allowIncompleteFinalRecord = .ok scan)
      (hwal : fromScan header' scan.records scan.validEnd = .ok wal') :
      Generation crc32c format header wal' ((file.take n).take scan.validEnd) scan.records

/-- At every point of its life a generation file is managed. -/
lemma Generation.manages (h : Generation crc32c format header wal file records) :
    Manages crc32c format header wal file records := by
  induction h with
  | created hfile hwal =>
    simp only [encodeHeader, bind_eq_ok, pure_eq_ok, patch_header_checksum] at hfile
    obtain ⟨_, hvalid, rfl⟩ := hfile
    have hlog : LogFile crc32c format header []
        (sealedHeader crc32c header) :=
      ⟨by rw [logBytes_nil, append_nil], hvalid, trivial⟩
    rw [← length_sealedHeader crc32c header] at hwal
    exact Manages.ofScan hlog (by rw [length_headerBytes]; decide) rfl hwal
  | appended hrun happend ih =>
    simp only [append, bind_eq_ok, pure_eq_ok] at happend
    obtain ⟨⟨r, bytes, wal'⟩, hplan, hresult⟩ := happend
    obtain ⟨rfl, rfl, rfl⟩ := by simpa only [Prod.mk.injEq] using hresult
    obtain ⟨hplanned, rfl⟩ := planAppend_eq_ok hplan
    exact ih.append hplanned
  | flushed hrun hflush ih =>
    obtain ⟨-, rfl | rfl, -⟩ := flushThrough_eq_ok hflush
    · exact ih
    · exact ⟨ih.toLogFile, ih.atEnd, ih.small, ih.position, ih.indexed⟩
  | reopened hrun hheader hcut hread hscan hwal ih =>
    rw [ih.scanFile_take hheader hcut] at hscan
    cases hscan
    rw [ih.readHeader_take hheader] at hread
    cases hread
    obtain ⟨hlength, hle⟩ := ih.validEnd_eq hheader hcut
    rw [take_take, min_eq_left hle]
    rw [← hlength] at hwal
    refine Manages.ofScan (ih.prefixFile hheader hcut) ?_ ?_ hwal
    · exact lt_of_le_of_lt (length_take_le' _ _) ih.small
    · rfl

/-- The torn-tail theorem. A scan of a generation file returns exactly the
records its appends wrote, at the positions they returned. A scan of any prefix
of the file that keeps the header succeeds, returns exactly the records that
lie wholly inside, and ends behind the last of them. -/
theorem Generation.scans_records (h : Generation crc32c format header wal file records) :
    (∀ policy, scanFile crc32c format file policy = .ok ⟨records, file.length, false⟩)
      ∧ ∀ n, walHeaderSize ≤ n → n ≤ file.length →
        scanFile crc32c format (file.take n) .allowIncompleteFinalRecord
          = .ok (prefixScan header.baseLsn records n) := by
  have hfile := h.manages.toLogFile
  exact ⟨hfile.scanFile_eq, fun n hheader hn => hfile.scanFile_take hheader hn⟩

end Runs

/-- A format without any valid page, for logs without page images. -/
def blankPages : PageFormat :=
  ⟨fun _ => none, fun _ => none, fun _ => none, fun _ => none, fun _ => none, fun _ => false⟩

lemma generation_begin_commit :
    ∃ wal file, Generation (fun _ => 0) blankPages initialHeader wal file
        [⟨1, 7, none, .begin⟩, ⟨41, 7, some 1, .commit⟩] ∧ file.length = 128 := by
  refine ⟨_, _, @Generation.appended _ _ _ _ _ _ _ _ 7 (some 1) .commit _
    (@Generation.appended _ _ _ _ _ _ _ _ 7 none .begin _ (.created rfl rfl) rfl) rfl, ?_⟩
  decide +kernel

/-- A log of a Begin and a Commit, cut inside the Commit. -/
theorem Generation.scans_begin_of_cut_commit :
    ∃ wal file, Generation (fun _ => 0) blankPages initialHeader wal file
        [⟨1, 7, none, .begin⟩, ⟨41, 7, some 1, .commit⟩]
      ∧ scanFile (fun _ => 0) blankPages (file.take 100) .allowIncompleteFinalRecord
        = .ok ⟨[⟨1, 7, none, .begin⟩], 88, true⟩ := by
  obtain ⟨wal, file, hrun, hlen⟩ := generation_begin_commit
  refine ⟨wal, file, hrun, ?_⟩
  rw [hrun.scans_records.2 100 (by decide) (by omega)]
  decide +kernel

end Netbadb.Wal
