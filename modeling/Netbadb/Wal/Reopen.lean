import Netbadb.Wal.RotationSpec

/-!
Crashes and reopens keep the invariant of a log. Whatever a crash leaves, one
generation is selected, and it holds everything that was durable.
-/

namespace Netbadb.Wal

open Bytes List SlotFile Disk WalManager UInt64 Outcome

variable {crc32c : Crc32c} {format : PageFormat} {header next : WalHeader}
  {all kept current : List WalRecord} {full : List UInt8} {slot : Slot} {durable : Nat}
  {disk disk' : Disk} {phase : Phase} {superseding : Bool} {running : Running}

lemma Sound.closed
    (h : Sound crc32c format disk phase kept current superseding slot header all full)
    (hlayout : Layout crc32c format disk' superseding slot header all full durable) :
    Sound crc32c format disk' (.closed durable) kept current superseding slot header all full :=
  ⟨hlayout, h.checkpoint, h.small, h.bounded, h.kept, h.current, by rintro _ ⟨⟩⟩

variable {file : SlotFile}

lemma Held.length_le (h : Held crc32c format header all full file durable) :
    file.bytes.length ≤ full.length := by
  have hlen := congrArg length h.front
  rw [length_take] at hlen
  omega

variable {file' : SlotFile} {selected : Candidate} {superseded : List Slot}

lemma Held.crash (h : Held crc32c format header all full file durable)
    (hnamed : file.linked = true ∧ file.linkedOnDisk = true) (hcrash : file.Crash file') :
    Held crc32c format header all full file' durable
      ∧ file'.linked = true ∧ file'.linkedOnDisk = true := by
  cases hcrash with
  | lost hlost => simp [hnamed] at hlost
  | @kept _ n hsynced hn =>
    obtain ⟨inside, outside, hall, hinside, hdurable⟩ := h.keeps
    have hlen : (file.bytes.take n).length = n := by rw [length_take, min_eq_left hn]
    refine ⟨⟨h.log, ?_, ?_, inside, outside, hall, hinside.trans hsynced, hdurable⟩, rfl, rfl⟩
    · rw [hlen, h.front, take_take, min_eq_left hn]
    · rw [hlen]
      exact ⟨h.synced.1.trans hsynced, le_rfl⟩

/-- The files of a complete log whose successor is gone. -/
lemma Successor.held_old (h : Successor header all full next)
    (hlog : LogFile crc32c format header all full)
    (hcomplete : file.bytes = full ∧ file.synced = full.length)
    (hdurable : durable ≤ next.baseLsn.toNat) :
    Held crc32c format header all full file durable := by
  have hlen := hlog.length_eq
  have hbase := h.base
  refine ⟨hlog, ?_, ?_, all, [], by rw [append_nil], ?_, ?_⟩
  · rw [hcomplete.1, take_length]
  · rw [hcomplete.1, hcomplete.2]
    omega
  · omega
  · omega

/-- The state in which the successor has taken over. -/
lemma Successor.sound_new (h : Successor header all full next)
    (hsound : Sound crc32c format disk phase kept current superseding slot header all full)
    (hlog : LogFile crc32c format header all full) (hsuperseding : superseding = true)
    (hlayout : Layout crc32c format disk' superseding slot.other next []
      (sealedHeader crc32c next) durable) :
    Sound crc32c format disk' (.closed durable) kept current superseding slot.other next []
      (sealedHeader crc32c next) :=
  ⟨hlayout, h.checkpoint_ne_zero hlog hsound.checkpoint, small_headerBytes _ _,
    by simp, fun r hr => .inr (h.kept_behind hlog hsound.kept r hr),
    fun hfalse => by simp [hsuperseding] at hfalse, by rintro _ ⟨⟩⟩

/-- A complete file either stays complete or is gone. -/
lemma crash_complete (hcomplete : file.bytes = full ∧ file.synced = full.length)
    (hcrash : file.Crash file') : file' = .absent ∨ file' = ⟨full, full.length, true, true⟩ := by
  cases hcrash with
  | lost => exact .inl rfl
  | @kept _ n hsynced hn =>
    rw [hcomplete.2] at hsynced
    rw [hcomplete.1] at hn ⊢
    obtain rfl := le_antisymm hn hsynced
    rw [take_length]
    exact .inr rfl

/-- A prefix that was started either stays one or is gone. -/
lemma crash_started (hstarted : file.bytes = full.take file.bytes.length)
    (hcrash : file.Crash file') :
    file' = .absent ∨ (file'.bytes = full.take file'.bytes.length
      ∧ file'.synced = file'.bytes.length ∧ file.synced ≤ file'.synced
      ∧ file'.linked = true ∧ file'.linkedOnDisk = true) := by
  cases hcrash with
  | lost => exact .inl rfl
  | @kept _ n hsynced hn =>
    have hlen : (file.bytes.take n).length = n := by rw [length_take, min_eq_left hn]
    refine .inr ⟨?_, hlen.symm, hsynced, rfl, rfl⟩
    rw [hlen, hstarted, take_take, min_eq_left hn]

/-- A synchronised name survives a crash. -/
lemma SlotFile.Crash.ne_absent (hnamed : file.linked = true ∧ file.linkedOnDisk = true) :
    ¬ file.Crash .absent := by
  intro hcrash
  generalize hfile : absent = file' at hcrash
  cases hcrash with
  | lost hlost => simp [hnamed] at hlost
  | kept => simp [absent] at hfile

lemma crash_free (hfree : file.linked = false ∧ file.linkedOnDisk = false)
    (hcrash : file.Crash file') : file' = .absent := by
  cases hcrash with
  | lost => rfl
  | kept hkept => simp [hfree] at hkept

/-- A crash leaves one generation, or a complete one next to its successor. -/
lemma Sound.crash (h : Sound crc32c format disk phase kept current superseding slot header all full)
    (hcrash : ∀ slot, (disk slot).Crash (disk' slot)) :
    ∃ slot' header' all' full', Sound crc32c format disk' (.closed (phase.durable disk)) kept
      current superseding slot' header' all' full' := by
  cases h.layout with
  | alone held named free =>
    obtain ⟨held', named'⟩ := held.crash named (hcrash slot)
    have hother := crash_free free (hcrash slot.other)
    exact ⟨slot, header, all, full, h.closed (.alone held' named' (by rw [hother]; exact ⟨rfl, rfl⟩))⟩
  | @succession next hsuperseding log complete successor started written named reached =>
    have hold := crash_complete complete (hcrash slot)
    have hnew := crash_started started (hcrash slot.other)
    rcases hold with hold | hold
    · -- Only a successor that was synchronised completely lets the old name go.
      have hnamed : (disk slot.other).linked = true ∧ (disk slot.other).linkedOnDisk = true
          ∧ (disk slot.other).synced = walHeaderSize := by
        rcases named with named | named
        · exact absurd (hold ▸ hcrash slot) (Crash.ne_absent named)
        · exact named
      rcases hnew with hnew | ⟨hbytes, hsynced, hle, hlinked⟩
      · exact absurd (hnew ▸ hcrash slot.other)
          (Crash.ne_absent ⟨hnamed.1, hnamed.2.1⟩)
      have hheader := length_headerBytes next (crc32c (headerBytes next 0)).toNat
      rw [take_of_length_le (by omega)] at hbytes
      refine ⟨slot.other, next, [], _, successor.sound_new h log hsuperseding
        (successor.alone hbytes ?_ hlinked ?_ reached)⟩
      · rw [hsynced, hbytes, hheader]
      · rw [Slot.other_other, hold]
        exact ⟨rfl, rfl⟩
    · refine ⟨slot, header, all, full, h.closed ?_⟩
      rcases hnew with hnew | ⟨hbytes, hsynced, -, -⟩
      · refine .alone (successor.held_old log ?_ reached) ?_ ?_
        · rw [hold]
          exact ⟨rfl, rfl⟩
        · rw [hold]
          exact ⟨rfl, rfl⟩
        · rw [hnew]
          exact ⟨rfl, rfl⟩
      · refine .succession hsuperseding log ?_ successor hbytes hsynced.le (.inl ?_) reached
        all_goals
          rw [hold]
          exact ⟨rfl, rfl⟩

section Select

variable {c d : Candidate}

lemma readSlot_of_unlinked (hlinked : (disk slot).linked = false) :
    readSlot crc32c format disk slot = none := by
  rw [readSlot, if_pos hlinked]

lemma readSlot_of_short (hlinked : (disk slot).linked = true)
    (hshort : (disk slot).bytes.length < walHeaderSize) :
    readSlot crc32c format disk slot = some (.inr ⟨slot, none, .truncatedHeader⟩) := by
  rw [readSlot, if_neg (by simp [hlinked]), if_pos hshort]

/-- A slot with a prefix of a legal log is read as its whole records. -/
lemma readSlot_of_log (hlog : LogFile crc32c format header all full)
    (hcheckpoint : header.checkpointLsn ≠ some 0) (hlinked : (disk slot).linked = true)
    (hfront : (disk slot).bytes = full.take (disk slot).bytes.length)
    (hheader : walHeaderSize ≤ (disk slot).bytes.length) :
    readSlot crc32c format disk slot
      = some (.inl ⟨slot, header, prefixScan header.baseLsn all (disk slot).bytes.length⟩) := by
  have hle : (disk slot).bytes.length ≤ full.length := by
    have hlen := congrArg length hfront
    rw [length_take] at hlen
    omega
  have hread := hlog.readHeader_take hheader
  have hscan := hlog.scanFile_take hheader hle
  rw [← hfront] at hread hscan
  have hfilter : header.checkpointLsn.filter (· ≠ 0) = header.checkpointLsn := by
    cases hlsn : header.checkpointLsn with
    | none => rfl
    | some lsn =>
      rw [hlsn] at hcheckpoint
      simpa using hcheckpoint
  rw [hfilter] at hread
  rw [readSlot, if_neg (by simp [hlinked]), if_neg (not_lt.mpr hheader), hread]
  rw [hscan]

section

variable (hc : readSlot crc32c format disk slot = some (.inl c))
include hc

lemma selectGeneration_single (hother : readSlot crc32c format disk slot.other = none) :
    selectGeneration crc32c format disk = .ok (c, []) := by
  cases slot <;> simp [Slot.other] at hother <;>
    simp [selectGeneration, hc, hother, sortCandidates, validateGenerationCandidates]

/-- A file that ends inside its header was never a generation. -/
lemma selectGeneration_beside_short (hother : readSlot crc32c format disk slot.other
      = some (.inr ⟨slot.other, none, .truncatedHeader⟩)) :
    selectGeneration crc32c format disk = .ok (c, [slot.other]) := by
  cases slot <;> simp [Slot.other] at hother <;>
    simp [selectGeneration, hc, hother, sortCandidates, validateGenerationCandidates,
      blocksOpen, Slot.other] <;> rfl

lemma selectGeneration_newer (hd : readSlot crc32c format disk slot.other = some (.inl d))
    (hlt : c.header.generation < d.header.generation)
    (hvalid : validateGenerationCandidates [c, d] = .ok ()) :
    selectGeneration crc32c format disk = .ok (d, [c.slot]) := by
  have hnot : ¬ d.header.generation < c.header.generation := by
    rw [lt_iff_toNat_lt] at hlt ⊢
    omega
  cases slot <;> simp [Slot.other] at hd <;>
    simp [selectGeneration, hc, hd, sortCandidates, hlt, hnot, hvalid]

end

instance lawfulOrderMax : Std.LawfulOrderMax UInt64 where
  max_eq_or a b := by
    rw [← UInt64.toNat_inj, ← UInt64.toNat_inj, toNat_max]
    omega
  max_le_iff a b c := by
    rw [le_iff_toNat_le, le_iff_toNat_le, le_iff_toNat_le, toNat_max]
    omega

lemma Successor.nextTxnId_le (h : Successor header all full next) {length : Nat} {torn : Bool} :
    Candidate.nextTxnId ⟨slot, header, ⟨all, length, torn⟩⟩ ≤ next.nextTxnId.toNat := by
  unfold Candidate.nextTxnId
  cases hmax : (all.map (·.txnId)).max? with
  | none => exact h.offered
  | some maximum =>
    obtain ⟨r, hr, rfl⟩ := mem_map.mp (max?_mem hmax)
    have hunused := h.unused r hr
    have hoffered := h.offered
    dsimp only
    omega

lemma Successor.validates (h : Successor header all full next)
    (hlog : LogFile crc32c format header all full) (scan : ScanResult) :
    validateGenerationCandidates
      [⟨slot, header, ⟨all, full.length, false⟩⟩, ⟨slot.other, next, scan⟩] = .ok () := by
  have hgeneration := h.generation
  have hlt := next.generation.toNat_lt
  have hbase := next.baseLsn.toNat_lt
  have hlen := hlog.length_eq
  have hnext : next.generation = header.generation + 1 := by
    apply UInt64.toNat_inj.mp
    rw [UInt64.toNat_add, toNat_one, Nat.mod_eq_of_lt (by omega), hgeneration]
  have hend : logicalLsn header.baseLsn full.length = .ok next.baseLsn := by
    rw [← UInt64.ofNat_toNat (x := next.baseLsn), h.base]
    rw [h.base] at hbase
    simp only [logicalLsn, checkedAdd, check_eq_ok]
    exact ⟨by omega, by rw [if_pos (by omega)]; rfl⟩
  have hne : next.generation ≠ header.generation := by
    intro heq
    rw [heq] at hgeneration
    omega
  simp only [validateGenerationCandidates, check_eq_ok, bind_eq_ok,
    guard_eq_ok]
  refine ⟨hne, by omega, next.baseLsn, hend, ?_, rfl⟩
  rintro (hgen | hbase | hcheckpoint | htxn)
  · exact hgen hnext
  · exact hbase rfl
  · exact hcheckpoint h.checkpoint
  · exact absurd h.nextTxnId_le (not_le.mpr htxn)

end Select

/-- What opening does once a generation is selected: every stage may fail, and
behind the last one the manager is built from the scan. -/
lemma openSelected_cases {fault : Option OpenFault}
    {result : Except WalError (Running × List WalRecord)}
    (hselect : selectGeneration crc32c format disk = .ok (selected, superseded))
    (hopen : openSelected crc32c format disk fault = (result, disk')) :
    let cut := cutTail disk selected
    let synced := cut.syncFile selected.slot
    let durable := synced.syncDirectory
    (∃ e, result = .error e ∧ (disk' = disk ∨ disk' = cut ∨ disk' = synced ∨ disk' = durable
        ∨ ∃ slot rest, superseded = slot :: rest ∧ disk' = durable.unlinkFile slot))
      ∨ (disk' = removeSuperseded durable superseded
        ∧ result = (fun wal => (⟨wal, selected.slot⟩, selected.scan.records))
          <$> fromScan selected.header selected.scan.records
            selected.scan.validEnd) := by
  unfold openSelected at hopen
  rw [hselect] at hopen
  dsimp only at hopen ⊢
  split_ifs at hopen with htail hfile hdirectory
  · cases hopen
    exact .inl ⟨_, rfl, .inl rfl⟩
  · cases hopen
    exact .inl ⟨_, rfl, .inr (.inl rfl)⟩
  · cases hopen
    exact .inl ⟨_, rfl, .inr (.inr (.inl rfl))⟩
  split at hopen
  · cases hopen
    exact .inl ⟨_, rfl, .inr (.inr (.inr (.inl rfl)))⟩
  · cases hopen
    exact .inl ⟨_, rfl, .inr (.inr (.inr (.inr ⟨_, _, rfl, rfl⟩)))⟩
  cases hscan : fromScan selected.header selected.scan.records
    selected.scan.validEnd with
  | error e | ok wal =>
    rw [hscan] at hopen
    cases hopen
    exact .inr ⟨rfl, rfl⟩

lemma openSelected_none
    (hselect : selectGeneration crc32c format disk = .ok (selected, superseded)) :
    openSelected crc32c format disk none
      = ((fun wal => (⟨wal, selected.slot⟩, selected.scan.records))
          <$> fromScan selected.header selected.scan.records selected.scan.validEnd,
        removeSuperseded ((cutTail disk selected).syncFile selected.slot).syncDirectory
          superseded) := by
  unfold openSelected
  rw [hselect]
  dsimp only
  rw [if_neg (by simp), if_neg (by simp), if_neg (by simp)]
  cases fromScan selected.header selected.scan.records selected.scan.validEnd <;>
    cases superseded <;> rfl

def openStages (disk : Disk) (selected : Candidate) (superseded : List Slot) : List Disk :=
  let cut := cutTail disk selected
  let synced := cut.syncFile selected.slot
  let durable := synced.syncDirectory
  [disk, cut, synced, durable] ++ superseded.map durable.unlinkFile

def openedDisk (disk : Disk) (selected : Candidate) (superseded : List Slot) : Disk :=
  removeSuperseded ((cutTail disk selected).syncFile selected.slot).syncDirectory superseded

/-- What the selected generation is good for: it is alone in the end, it reaches
the durable position, and it has every record in front of its end. -/
structure Selection (crc32c : Crc32c) (format : PageFormat) (durable : Nat)
    (kept current : List WalRecord) (superseding : Bool) (selected : Candidate)
    (bytes : List UInt8) (disk : Disk) : Prop where
  log : LogFile crc32c format selected.header selected.scan.records bytes
  ends : selected.scan.validEnd = bytes.length
  checkpoint : selected.header.checkpointLsn ≠ some 0
  small : Small selected.header bytes
  bounded : ∀ r ∈ selected.scan.records, r.txnId.toNat + 1 < 2 ^ 64
  file : disk selected.slot = ⟨bytes, bytes.length, true, true⟩
  free : (disk selected.slot.other).linked = false
    ∧ (disk selected.slot.other).linkedOnDisk = false
  reached : durable ≤ selected.header.baseLsn.toNat + (bytes.length - walHeaderSize)
  kept : ∀ r ∈ kept, r.endLsn ≤ selected.header.baseLsn.toNat + (bytes.length - walHeaderSize) →
    r ∈ selected.scan.records ∨ (r.endLsn ≤ selected.header.baseLsn.toNat
      ∧ r.txnId.toNat < selected.header.nextTxnId.toNat)
  current : superseding = false → ∀ r ∈ current,
    r.endLsn ≤ selected.header.baseLsn.toNat + (bytes.length - walHeaderSize) →
    r ∈ selected.scan.records

lemma LogFile.prefixScan_length (h : LogFile crc32c format header all full) :
    prefixScan header.baseLsn all full.length = ⟨all, full.length, false⟩ := by
  have hlen := h.length_eq
  have hscan := h.scanFile_take (by omega) (le_refl full.length)
  rw [take_length, h.scanFile_eq] at hscan
  exact (Except.ok.inj hscan).symm

section Alone

section

variable (h : Held crc32c format header all full file durable)
include h

/-- Cutting the incomplete tail keeps what is durable. -/
lemma Held.cut (scan : ScanResult)
    (hscan : scan = prefixScan header.baseLsn all file.bytes.length) :
    Held crc32c format header all full
        (if scan.incompleteTail then file.setLen scan.validEnd else file) durable
      ∧ (if scan.incompleteTail then file.setLen scan.validEnd else file).bytes
        = full.take scan.validEnd := by
  subst hscan
  have hheader : walHeaderSize ≤ file.bytes.length := h.synced.1.trans h.synced.2
  obtain ⟨hlen, hle⟩ := h.log.validEnd_eq hheader h.length_le
  obtain ⟨inside, outside, hall, hinside, hdurable⟩ := h.keeps
  have hfits := (hall ▸ h.log).le_validEnd (hinside.trans h.synced.2) h.length_le
  rw [← hall] at hfits
  split_ifs with htail
  · have hcut : file.bytes.take (prefixScan header.baseLsn all file.bytes.length).validEnd
        = full.take (prefixScan header.baseLsn all file.bytes.length).validEnd := by
      calc file.bytes.take (prefixScan header.baseLsn all file.bytes.length).validEnd
          = (full.take file.bytes.length).take
              (prefixScan header.baseLsn all file.bytes.length).validEnd := by rw [← h.front]
        _ = _ := by rw [take_take, min_eq_left hle]
    have hsynced := h.synced
    refine ⟨⟨h.log, ?_, ?_, inside, outside, hall, ?_, hdurable⟩, hcut⟩
    · simp only [setLen, hcut, hlen]
    · simp only [setLen, hcut, hlen]
      omega
    · simp only [setLen]
      omega
  · -- A scan without an incomplete tail ends at the end of the file.
    have hend : (prefixScan header.baseLsn all file.bytes.length).validEnd
        = file.bytes.length := by
      simp only [prefixScan, decide_eq_true_eq] at htail hle ⊢
      omega
    exact ⟨h, by rw [hend]; exact h.front⟩

lemma Held.sync : Held crc32c format header all full file.sync durable := by
  obtain ⟨inside, outside, hall, hinside, hdurable⟩ := h.keeps
  have hsynced := h.synced
  exact ⟨h.log, h.front, ⟨hsynced.1.trans hsynced.2, le_rfl⟩, inside, outside, hall,
    hinside.trans hsynced.2, hdurable⟩

lemma Held.congr {file' : SlotFile}
    (hbytes : file'.bytes = file.bytes) (hsynced : file'.synced = file.synced) :
    Held crc32c format header all full file' durable := by
  refine ⟨h.log, ?_, ?_, ?_⟩
  · rw [hbytes]
    exact h.front
  · rw [hbytes, hsynced]
    exact h.synced
  · rw [hsynced]
    exact h.keeps

end

end Alone

@[simp] lemma Disk.syncDirectory_apply (disk : Disk) (slot : Slot) :
    disk.syncDirectory slot = (disk slot).syncName := rfl

@[simp] lemma Disk.syncFile_same (disk : Disk) (slot : Slot) :
    disk.syncFile slot slot = (disk slot).sync := set_same ..

@[simp] lemma Disk.syncFile_other (disk : Disk) (slot : Slot) :
    disk.syncFile slot slot.other = disk slot.other := set_other ..

lemma cutTail_same (disk : Disk) (selected : Candidate) : cutTail disk selected selected.slot
      = if selected.scan.incompleteTail then (disk selected.slot).setLen selected.scan.validEnd
        else disk selected.slot := by
  unfold cutTail
  split_ifs
  · rw [set_same]
  · rfl

lemma cutTail_other (disk : Disk) (selected : Candidate) :
    cutTail disk selected selected.slot.other = disk selected.slot.other := by
  unfold cutTail
  split_ifs
  · rw [set_other]
  · rfl

section Alone

/-- A record in front of the end of a scan is in it. -/
lemma LogFile.mem_prefixScan (h : LogFile crc32c format header all full) {n : Nat}
    (hheader : walHeaderSize ≤ n) (hn : n ≤ full.length) {r : WalRecord} (hr : r ∈ all)
    (hend : r.endLsn ≤ header.baseLsn.toNat
      + ((prefixScan header.baseLsn all n).validEnd - walHeaderSize)) :
    r ∈ (prefixScan header.baseLsn all n).records := by
  have hle := (h.validEnd_eq hheader hn).2
  have hbase := h.legal.baseLsn_le r hr
  refine mem_filter.mpr ⟨hr, decide_eq_true ?_⟩
  rw [WalRecord.endLsn] at hend
  rw [recordEnd]
  omega

/-- One generation alone is selected and stays alone through every stage. -/
lemma Sound.select_alone
    (h : Sound crc32c format disk (.closed durable) kept current superseding slot header all full)
    (held : Held crc32c format header all full (disk slot) durable)
    (named : (disk slot).linked = true ∧ (disk slot).linkedOnDisk = true)
    (free : (disk slot.other).linked = false ∧ (disk slot.other).linkedOnDisk = false) :
    let selected : Candidate :=
      ⟨slot, header, prefixScan header.baseLsn all (disk slot).bytes.length⟩
    selectGeneration crc32c format disk = .ok (selected, [])
      ∧ (∀ disk' ∈ openStages disk selected [],
        Sound crc32c format disk' (.closed durable) kept current superseding slot header all full)
      ∧ Selection crc32c format durable kept current superseding selected
        (full.take selected.scan.validEnd) (openedDisk disk selected []) := by
  intro selected
  have hheader : walHeaderSize ≤ (disk slot).bytes.length := held.synced.1.trans held.synced.2
  have hselect : selectGeneration crc32c format disk = .ok (selected, []) :=
    selectGeneration_single
      (readSlot_of_log held.log h.checkpoint named.1 held.front hheader)
      (readSlot_of_unlinked free.1)
  obtain ⟨hcut, hbytes⟩ := held.cut selected.scan rfl
  have hsame := cutTail_same disk selected
  have hother := cutTail_other disk selected
  have hnamed : (cutTail disk selected slot).linked = true
      ∧ (cutTail disk selected slot).linkedOnDisk = true := by
    rw [hsame]
    split_ifs
    all_goals exact named
  rw [← hsame] at hcut hbytes
  rw [← hother] at free
  refine ⟨hselect, ?_, ?_⟩
  · intro disk' hdisk'
    simp only [openStages, map_nil, append_nil, mem_cons, not_mem_nil, or_false] at hdisk'
    rcases hdisk' with rfl | rfl | rfl | rfl
    · exact h
    · exact h.closed (.alone hcut hnamed free)
    · refine h.closed (.alone ?_ ?_ ?_)
      · rw [syncFile_same]
        exact hcut.sync
      · rw [syncFile_same]
        exact hnamed
      · rw [syncFile_other]
        exact free
    · refine h.closed (.alone ?_ ?_ ?_)
      · rw [syncDirectory_apply, syncFile_same]
        exact hcut.sync.congr rfl rfl
      · rw [syncDirectory_apply, syncFile_same]
        exact ⟨hnamed.1, hnamed.1⟩
      · rw [syncDirectory_apply, syncFile_other]
        exact ⟨free.1, free.1⟩
  · obtain ⟨hlen, hle⟩ := held.log.validEnd_eq hheader held.length_le
    obtain ⟨inside, outside, hall, hinside, hdurable⟩ := held.keeps
    have hfits := (hall ▸ held.log).le_validEnd (hinside.trans held.synced.2) held.length_le
    rw [← hall] at hfits
    have hmem : ∀ r ∈ all, r.endLsn ≤ header.baseLsn.toNat
        + ((full.take selected.scan.validEnd).length - walHeaderSize) →
        r ∈ selected.scan.records := by
      intro r hr hend
      rw [hlen] at hend
      exact held.log.mem_prefixScan hheader held.length_le hr hend
    refine ⟨held.log.prefixFile hheader held.length_le, hlen.symm, h.checkpoint, ?_, ?_, ?_, ?_,
      ?_, ?_, ?_⟩
    · obtain ⟨hsmall, hfits⟩ := h.small
      have htake : (full.take selected.scan.validEnd).length ≤ full.length := length_take_le' _ _
      exact ⟨by omega, by dsimp only [selected] at htake ⊢; omega⟩
    · exact fun r hr => h.bounded r (mem_filter.mp hr).1
    · change ((cutTail disk selected).syncFile slot slot).syncName = _
      rw [syncFile_same]
      have hcutBytes : (cutTail disk selected slot).bytes = full.take selected.scan.validEnd := hbytes
      simp only [sync, syncName, hcutBytes, hnamed.1]
    · change ((cutTail disk selected).syncFile slot slot.other).syncName.linked = false
        ∧ ((cutTail disk selected).syncFile slot slot.other).syncName.linkedOnDisk = false
      rw [syncFile_other]
      exact ⟨free.1, free.1⟩
    · dsimp only [selected]
      omega
    · exact fun r hr hend => (h.kept r hr).imp_left (hmem r · hend)
    · exact fun hs r hr hend => hmem r (h.current hs r hr) hend

end Alone

section Succession

lemma Successor.stage (h : Successor header all full next)
    (hsound : Sound crc32c format disk phase kept current superseding slot header all full)
    (hsuperseding : superseding = true) (hlog : LogFile crc32c format header all full)
    (hcomplete : (disk' slot).bytes = full ∧ (disk' slot).synced = full.length)
    (hstarted : (disk' slot.other).bytes
      = (sealedHeader crc32c next).take
        (disk' slot.other).bytes.length)
    (hwritten : (disk' slot.other).synced ≤ (disk' slot.other).bytes.length)
    (hnamed : ((disk' slot).linked = true ∧ (disk' slot).linkedOnDisk = true)
      ∨ ((disk' slot.other).linked = true ∧ (disk' slot.other).linkedOnDisk = true
        ∧ (disk' slot.other).synced = walHeaderSize)) (hdurable : durable ≤ next.baseLsn.toNat) :
    Sound crc32c format disk' (.closed durable) kept current superseding slot header all full :=
  hsound.closed (.succession hsuperseding hlog hcomplete h hstarted hwritten hnamed hdurable)

section

variable
  (h : Sound crc32c format disk (.closed durable) kept current superseding slot header all full)
  (hsuperseding : superseding = true) (log : LogFile crc32c format header all full)
  (complete : (disk slot).bytes = full ∧ (disk slot).synced = full.length)
  (successor : Successor header all full next)
include h hsuperseding log complete successor

/-- The old generation is selected while its successor is incomplete. -/
lemma Sound.select_old (started : (disk slot.other).bytes
      = (sealedHeader crc32c next).take
        (disk slot.other).bytes.length)
    (written : (disk slot.other).synced ≤ (disk slot.other).bytes.length)
    (reached : durable ≤ next.baseLsn.toNat) (hlinked : (disk slot).linked = true)
    (superseded : List Slot) (hsuperseded : superseded = [slot.other]
      ∨ (superseded = [] ∧ (disk slot.other).linked = false))
    (hselected : selected = ⟨slot, header, ⟨all, full.length, false⟩⟩) :
    (∀ disk' ∈ openStages disk selected superseded,
        Sound crc32c format disk' (.closed durable) kept current superseding slot header all full)
      ∧ Selection crc32c format durable kept current superseding selected full
        (openedDisk disk selected superseded) := by
  subst hselected
  have hcut : cutTail disk ⟨slot, header, ⟨all, full.length, false⟩⟩ = disk := rfl
  have hfile : (disk slot).sync = disk slot := by
    have hlength : (disk slot).bytes.length = (disk slot).synced := by rw [complete.1, complete.2]
    rw [sync, hlength]
  have hsync : disk.syncFile slot = disk := by
    rw [syncFile, hfile]
    exact Function.update_eq_self slot disk
  have hbase := successor.base
  constructor
  · intro disk' hdisk'
    simp only [openStages, hcut, hsync, mem_append, mem_cons, not_mem_nil, or_false,
      mem_map] at hdisk'
    have hdurable : Sound crc32c format disk.syncDirectory (.closed durable) kept current
        superseding slot header all full :=
      successor.stage h hsuperseding log complete started written (.inl ⟨hlinked, hlinked⟩) reached
    rcases hdisk' with (rfl | rfl | rfl | rfl) | ⟨old, hold, rfl⟩
    · exact h
    · exact h
    · exact h
    · exact hdurable
    rcases hsuperseded with rfl | ⟨rfl, -⟩
    · rw [mem_singleton.mp hold]
      apply successor.stage h hsuperseding log
      · simpa [unlinkFile, syncName] using complete
      · simpa [unlinkFile, syncName, unlink] using started
      · simpa [unlinkFile, syncName, unlink] using written
      · exact .inl (by simpa [unlinkFile, syncName] using hlinked)
      · exact reached
    · cases hold
  · have hopened : openedDisk disk ⟨slot, header, ⟨all, full.length, false⟩⟩ superseded
        = removeSuperseded disk.syncDirectory superseded := by
      rw [openedDisk, hcut, hsync]
    have hbytes := complete.1
    have hsynced := complete.2
    refine ⟨log, rfl, h.checkpoint, h.small, h.bounded, ?_, ?_, by dsimp only; omega,
      fun r hr _ => h.kept r hr, fun hs r hr _ => h.current hs r hr⟩
    · rw [hopened]
      rcases hsuperseded with rfl | ⟨rfl, -⟩
      · simp [removeSuperseded, unlinkFile, syncName, hbytes, hsynced, hlinked]
      · simp [removeSuperseded, syncName, hbytes, hsynced, hlinked]
    · rw [hopened]
      rcases hsuperseded with rfl | ⟨rfl, hunlinked⟩
      · simp [removeSuperseded, unlinkFile, syncName, unlink]
      · simp [removeSuperseded, syncName, hunlinked]

/-- The successor is selected once its header is complete. -/
lemma Sound.select_new (started : (disk slot.other).bytes = sealedHeader crc32c next)
    (named : ((disk slot).linked = true ∧ (disk slot).linkedOnDisk = true)
      ∨ ((disk slot.other).linked = true ∧ (disk slot.other).linkedOnDisk = true
        ∧ (disk slot.other).synced = walHeaderSize)) (reached : durable ≤ next.baseLsn.toNat)
    (hlinked : (disk slot.other).linked = true) (superseded : List Slot)
    (hsuperseded : superseded = [slot] ∨ (superseded = [] ∧ (disk slot).linked = false))
    (hselected : selected = ⟨slot.other, next, ⟨[], walHeaderSize, false⟩⟩) :
    (∀ disk' ∈ openStages disk selected superseded,
        Sound crc32c format disk' (.closed durable) kept current superseding slot header all full)
      ∧ Selection crc32c format durable kept current superseding selected
        (sealedHeader crc32c next)
        (openedDisk disk selected superseded) := by
  subst hselected
  have hcut : cutTail disk ⟨slot.other, next, ⟨[], walHeaderSize, false⟩⟩ = disk := rfl
  have hheader := length_sealedHeader crc32c next
  have hold : disk.syncFile slot.other slot = disk slot := set_of_other ..
  constructor
  · intro disk' hdisk'
    simp only [openStages, hcut, mem_append, mem_cons, not_mem_nil, or_false, mem_map] at hdisk'
    rcases hdisk' with (rfl | rfl | rfl | rfl) | ⟨old, hmem, rfl⟩
    · exact h
    · exact h
    · apply successor.stage h hsuperseding log
      · rw [hold]
        exact complete
      · simp [sync, started]
      · simp [sync]
      · simpa [hold, sync, started, hheader] using
          named.imp_right fun hnamed => ⟨hnamed.1, hnamed.2.1⟩
      · exact reached
    · apply successor.stage h hsuperseding log
      · simpa [hold, syncName] using complete
      · simp [sync, syncName, started]
      · simp [sync, syncName]
      · exact .inr (by simp [sync, syncName, started, hheader, hlinked])
      · exact reached
    · rcases hsuperseded with rfl | ⟨rfl, -⟩
      · rw [mem_singleton.mp hmem]
        apply successor.stage h hsuperseding log
        · simpa [unlinkFile, hold, syncName, unlink] using complete
        · simp [unlinkFile, sync, syncName, started]
        · simp [unlinkFile, sync, syncName]
        · exact .inr (by
            simp [unlinkFile, sync, syncName, started, hheader, hlinked])
        · exact reached
      · cases hmem
  · have hkept := successor.kept_behind log h.kept
    refine ⟨successor.logFile, hheader.symm, successor.checkpoint_ne_zero log h.checkpoint,
      small_headerBytes _ _, by simp, ?_, ?_, by dsimp only; omega,
      fun r hr _ => .inr (hkept r hr), fun hs => by simp [hsuperseding] at hs⟩
    · rw [openedDisk, hcut]
      rcases hsuperseded with rfl | ⟨rfl, -⟩
      · simp [removeSuperseded, unlinkFile, sync, syncName, started, hlinked]
      · simp [removeSuperseded, sync, syncName, started, hlinked]
    · rw [openedDisk, hcut, Slot.other_other]
      rcases hsuperseded with rfl | ⟨rfl, hunlinked⟩
      · simp [removeSuperseded, unlinkFile, syncName, unlink]
      · simp [removeSuperseded, hold, syncName, hunlinked]

end

end Succession

/-- A closed log always has a generation to select, and no stage of opening it
loses the invariant. -/
lemma Sound.select
    (h : Sound crc32c format disk (.closed durable) kept current superseding slot header all full) :
    ∃ selected superseded bytes,
      selectGeneration crc32c format disk = .ok (selected, superseded)
      ∧ (∀ disk' ∈ openStages disk selected superseded,
        Sound crc32c format disk' (.closed durable) kept current superseding slot header all full)
      ∧ Selection crc32c format durable kept current superseding selected bytes
        (openedDisk disk selected superseded) := by
  cases h.layout with
  | alone held named free => exact ⟨_, _, _, h.select_alone held named free⟩
  | @succession next hsuperseding log complete successor started written named reached =>
    have hheader := length_sealedHeader crc32c next
    have hlen := log.length_eq
    have hnewLen : (disk slot.other).bytes.length ≤ walHeaderSize := by
      have hlength := congrArg length started
      rw [length_take, hheader] at hlength
      omega
    have hold : (disk slot).linked = true → readSlot crc32c format disk slot
        = some (.inl ⟨slot, header, ⟨all, full.length, false⟩⟩) := by
      intro hlinked
      have hread := readSlot_of_log log h.checkpoint hlinked
        (by rw [complete.1, take_length]) (by rw [complete.1]; omega)
      rw [complete.1, log.prefixScan_length] at hread
      exact hread
    have hnew : (disk slot.other).linked = true →
        (disk slot.other).bytes.length = walHeaderSize →
        (disk slot.other).bytes = sealedHeader crc32c next
        ∧ readSlot crc32c format disk slot.other
          = some (.inl ⟨slot.other, next, ⟨[], walHeaderSize, false⟩⟩) := by
      intro hlinked hwhole
      have hbytes := started
      rw [hwhole, ← hheader, take_length] at hbytes
      refine ⟨hbytes, ?_⟩
      have hfresh : LogFile crc32c format next [] _ := successor.logFile
      have hread := readSlot_of_log hfresh
        (successor.checkpoint_ne_zero log h.checkpoint) hlinked
        (by rw [hwhole, ← hheader, take_length]; exact hbytes) hwhole.ge
      rw [hwhole, ← hheader, hfresh.prefixScan_length, hheader] at hread
      exact hread
    have hlt : header.generation < next.generation := by
      rw [lt_iff_toNat_lt, successor.generation]
      omega
    cases hslot : (disk slot).linked with
    | true =>
      cases hother : (disk slot.other).linked with
      | false =>
        exact ⟨_, [], full, selectGeneration_single (hold hslot)
          (readSlot_of_unlinked hother), h.select_old hsuperseding log complete successor
          started written reached hslot [] (.inr ⟨rfl, hother⟩) rfl⟩
      | true =>
        rcases lt_or_eq_of_le hnewLen with hshort | hwhole
        · exact ⟨_, _, full, selectGeneration_beside_short (hold hslot)
            (readSlot_of_short hother hshort), h.select_old hsuperseding log complete
            successor started written reached hslot _ (.inl rfl) rfl⟩
        · obtain ⟨hbytes, hread⟩ := hnew hother hwhole
          exact ⟨_, _, _, selectGeneration_newer (hold hslot) hread hlt
            (successor.validates log _), h.select_new hsuperseding log complete successor
            hbytes named reached hother _ (.inl rfl) rfl⟩
    | false =>
      -- The old name is gone, so the successor was synchronised completely.
      obtain ⟨hlinked, -, hsynced⟩ := named.resolve_left (by simp [hslot])
      obtain ⟨hbytes, hread⟩ := hnew hlinked (by omega)
      exact ⟨_, [], _, selectGeneration_single hread
        (readSlot_of_unlinked (by rw [Slot.other_other]; exact hslot)),
        h.select_new hsuperseding log complete successor hbytes named reached hlinked []
        (.inr ⟨rfl, hslot⟩) rfl⟩

section Open

variable {bytes : List UInt8} {wal : WalManager} {records : List WalRecord}

/-- The ids a manager offers are above those of its records. -/
lemma recordsNextTxnId_eq_ok {fallback nextTxnId : TxnId}
    (h : recordsNextTxnId fallback records = .ok nextTxnId) :
    ∀ r ∈ records, r.txnId.toNat < nextTxnId.toNat := by
  intro r hr
  unfold recordsNextTxnId at h
  cases hmax : (records.map (·.txnId)).max? with
  | none =>
    rw [max?_eq_none_iff, map_eq_nil_iff] at hmax
    rw [hmax] at hr
    cases hr
  | some maximum =>
    rw [hmax] at h
    obtain ⟨hnext, -⟩ := nextTxnIdAfter_eq_ok h
    have hle := (max?_eq_some_iff.mp hmax).2 r.txnId (mem_map_of_mem hr)
    rw [le_iff_toNat_le] at hle
    omega

lemma recordsNextTxnId_ok (fallback : TxnId) (h : ∀ r ∈ records, r.txnId.toNat + 1 < 2 ^ 64) :
    ∃ nextTxnId, recordsNextTxnId fallback records = .ok nextTxnId := by
  unfold recordsNextTxnId
  cases hmax : (records.map (·.txnId)).max? with
  | none => exact ⟨_, rfl⟩
  | some maximum =>
    obtain ⟨r, hr, rfl⟩ := mem_map.mp (max?_mem hmax)
    exact ⟨_, by dsimp only; rw [nextTxnIdAfter, if_pos (h r hr)]; rfl⟩

lemma logicalLsn_ok (baseLsn : Lsn) (length : Nat) (hheader : walHeaderSize ≤ length)
    (hfits : baseLsn.toNat + (length - walHeaderSize) < 2 ^ 64) :
    ∃ lsn, logicalLsn baseLsn length = .ok lsn := by
  refine ⟨ofNat (baseLsn.toNat + (length - walHeaderSize)), ?_⟩
  simp only [logicalLsn, checkedAdd, check_eq_ok]
  exact ⟨by omega, by rw [if_pos (by omega)]; rfl⟩

/-- The manager of a selected generation can be built. -/
lemma Selection.fromScan_ok
    (h : Selection crc32c format durable kept current superseding selected bytes disk) :
    ∃ wal, fromScan selected.header selected.scan.records selected.scan.validEnd
      = .ok wal := by
  have hlen := h.log.length_eq
  obtain ⟨nextLsn, hlsn⟩ := logicalLsn_ok selected.header.baseLsn bytes.length (by omega)
    h.small.2
  obtain ⟨nextTxnId, htxn⟩ := recordsNextTxnId_ok selected.header.nextTxnId h.bounded
  rw [h.ends, fromScan, hlsn]
  exact ⟨_, by rw [htxn]; rfl⟩

section

variable (h : Selection crc32c format durable kept current superseding selected bytes disk)
  (hwal : fromScan selected.header selected.scan.records selected.scan.validEnd = .ok wal)
include h hwal

lemma Selection.mirrors : Mirrors crc32c format selected.header wal bytes selected.scan.records
      ∧ wal.durableLsn = none := by
  rw [h.ends] at hwal
  have hmanages := Manages.ofScan h.log h.small.1 rfl hwal
  simp only [fromScan, bind_eq_ok, pure_eq_ok] at hwal
  obtain ⟨nextLsn, -, recordsNext, htxn, rfl⟩ := hwal
  refine ⟨⟨hmanages, rfl, rfl, rfl, rfl, ?_, ?_⟩, rfl⟩
  · rw [toNat_max]
    omega
  intro r hr
  have hlt := recordsNextTxnId_eq_ok htxn r hr
  rw [toNat_max]
  omega

/-- An opened log is sound, with what was kept in front of its end. -/
lemma Selection.sound : Sound crc32c format disk (.running ⟨wal, selected.slot⟩)
      (kept.filter (·.endLsn ≤ wal.nextLsn.toNat)) selected.scan.records false selected.slot
      selected.header selected.scan.records bytes := by
  obtain ⟨hmirrors, hnone⟩ := h.mirrors hwal
  have hlen := h.log.length_eq
  refine ⟨.alone ⟨h.log, ?_, ?_, selected.scan.records, [], by rw [append_nil], ?_, ?_⟩ ?_
    h.free, h.checkpoint, h.small, h.bounded, ?_, fun _ r hr => hr, ?_⟩
  · rw [h.file, take_length]
  · rw [h.file]
    dsimp only
    omega
  · rw [h.file]
    dsimp only
    omega
  · rw [Phase.durable, Running.durableEnd, hmirrors.baseLsn, h.file]
    dsimp only
    omega
  · rw [h.file]
    exact ⟨rfl, rfl⟩
  · intro r hr
    obtain ⟨hr, hend⟩ := mem_filter.mp hr
    rw [decide_eq_true_eq, hmirrors.position] at hend
    exact h.kept r hr hend
  · rintro _ ⟨⟩ -
    exact ⟨rfl, rfl, by rw [h.file], hmirrors, by simp [Flushed, hnone]⟩

end

end Open

end Netbadb.Wal
