import Netbadb.Wal.Reopen

/-!
Log positions and transaction ids over a whole run of appends, flushes,
rotations, crashes and reopens.
-/

namespace Netbadb.Wal

open Bytes List

variable {crc32c : Crc32c} {format : PageFormat} {s s' : LogState} {wal : WalManager}

def LogState.Sound (crc32c : Crc32c) (format : PageFormat) (s : LogState) : Prop :=
  ∃ slot header all full, Wal.Sound crc32c format s.disk s.phase s.kept s.current s.superseding
    slot header all full

lemma sound_created (hwal : WalManager.fromScan initialHeader [] walHeaderSize = .ok wal) :
    LogState.Sound crc32c format ⟨createdDisk crc32c, .running ⟨wal, .root⟩, [], [], false⟩ := by
  have hheader := length_headerBytes initialHeader (crc32c (headerBytes initialHeader 0)).toNat
  have hselection : Selection crc32c format 0 [] [] false ⟨.root, initialHeader, ⟨[], walHeaderSize, false⟩⟩
      (headerBytes initialHeader (crc32c (headerBytes initialHeader 0)).toNat)
      (createdDisk crc32c) := by
    refine ⟨⟨by rw [logBytes_nil, append_nil], by decide, trivial⟩, hheader.symm, by decide,
      small_headerBytes _ _, by simp, rfl, ⟨rfl, rfl⟩, Nat.zero_le _, by simp, by simp⟩
  exact ⟨_, _, _, _, hselection.sound hwal⟩

section Open

variable {durable : Nat} {kept current : List WalRecord} {superseding : Bool} {disk disk' : Disk}
  {selected : Candidate} {superseded : List Slot} {bytes : List UInt8} {fault : Option OpenFault}

lemma openFailed_stage {e : WalError}
    (h : Selection crc32c format durable kept current superseding selected bytes
      (openedDisk disk selected superseded))
    (hselect : selectGeneration crc32c format disk = .ok (selected, superseded))
    (hopen : openSelected crc32c format disk fault = (.error e, disk')) :
    disk' ∈ openStages disk selected superseded := by
  rcases openSelected_cases hselect hopen with
    ⟨_, -, rfl | rfl | rfl | rfl | ⟨slot, rest, rfl, rfl⟩⟩ | ⟨-, hresult⟩
  · simp [openStages]
  · simp [openStages]
  · simp [openStages]
  · simp [openStages]
  · simp [openStages]
  · obtain ⟨wal, hwal⟩ := h.fromScan_ok
    rw [hwal] at hresult
    cases hresult

/-- A log that was opened is its selected generation. -/
lemma opened_selection {running : Running} {records : List WalRecord}
    (hselect : selectGeneration crc32c format disk = .ok (selected, superseded))
    (hopen : openSelected crc32c format disk fault = (.ok (running, records), disk')) :
    ∃ wal, WalManager.fromScan selected.header selected.scan.records selected.scan.validEnd
        = .ok wal
      ∧ running = ⟨wal, selected.slot⟩ ∧ records = selected.scan.records
      ∧ disk' = openedDisk disk selected superseded := by
  rcases openSelected_cases hselect hopen with ⟨_, hresult, -⟩ | ⟨hdisk, hresult⟩
  · cases hresult
  · obtain ⟨wal, hwal, hpair⟩ := Outcome.map_eq_ok.mp hresult.symm
    obtain ⟨rfl, rfl⟩ := Prod.mk.inj hpair
    exact ⟨wal, hwal, rfl, rfl, hdisk⟩

end Open

/-- Every step keeps the log sound. -/
lemma Step.sound (hstep : Step crc32c format s s') (h : s.Sound crc32c format) :
    s'.Sound crc32c format := by
  obtain ⟨slot, header, all, full, h⟩ := h
  cases hstep with
  | append hphase happend =>
    rw [hphase] at h
    obtain ⟨full', h'⟩ := h.append happend
    exact ⟨_, _, _, _, h'⟩
  | appendFailed hphase happend =>
    rw [hphase] at h
    obtain ⟨all', full', h'⟩ := h.appendFailed happend
    exact ⟨_, _, _, _, h'⟩
  | flush hphase =>
    rw [hphase] at h
    exact ⟨_, _, _, _, h.flush⟩
  | rotated hphase hrotate =>
    rw [hphase] at h
    exact h.rotated hrotate
  | rotateFailed hphase hrotate =>
    rw [hphase] at h
    exact ⟨_, _, _, _, h.rotateFailed hrotate⟩
  | close hphase =>
    rw [hphase] at h
    exact ⟨_, _, _, _, h.closed h.layout⟩
  | crash hcrash => exact h.crash hcrash
  | openFailed hphase hopen =>
    rw [hphase] at h
    obtain ⟨selected, superseded, bytes, hselect, hstages, hselection⟩ := h.select
    have hstage := openFailed_stage hselection hselect hopen
    rw [LogState.Sound, hphase]
    exact ⟨_, _, _, _, hstages _ hstage⟩
  | opened hphase hopen =>
    rw [hphase] at h
    obtain ⟨selected, superseded, bytes, hselect, -, hselection⟩ := h.select
    obtain ⟨wal, hwal, rfl, rfl, rfl⟩ := opened_selection hselect hopen
    exact ⟨_, _, _, _, hselection.sound hwal⟩

lemma Reachable.sound (h : Reachable crc32c format s) : s.Sound crc32c format := by
  induction h with
  | created hwal => exact sound_created hwal
  | step hs hstep ih => exact hstep.sound ih

/-- The position up to which a log is known to be on the device. -/
def LogState.durable (s : LogState) : Nat := s.phase.durable s.disk

/-- What a stopped process or a power loss leaves of a log. -/
def LogState.Stopped (s : LogState) (disk : Disk) : Prop :=
  disk = s.disk ∨ ∀ slot, (s.disk slot).Crash (disk slot)

variable {running running' : Running} {disk' disk : Disk} {result : Except WalError Unit}
  {fault : Option RotationFault} {header : WalHeader}

lemma installGeneration_durableEnd {bytes : List UInt8}
    (hbase : running.durableEnd disk = header.baseLsn.toNat)
    (hinstall : installGeneration running disk header bytes fault = ⟨result, running', disk'⟩) :
    running.durableEnd disk ≤ running'.durableEnd disk' := by
  have hsame : ∀ file, running.durableEnd disk
      ≤ (poison running).durableEnd (disk.set running.slot.other file) := by
    intro file
    simp [Running.durableEnd, poison]
  have hnext : ∀ disk' : Disk, running.durableEnd disk
      ≤ Running.durableEnd ⟨switched header, running.slot.other⟩ disk' := by
    intro disk'
    rw [hbase]
    simp [Running.durableEnd, switched]
  unfold installGeneration at hinstall
  split at hinstall <;> cases hinstall
  · exact le_rfl
  · exact hsame _
  · exact hsame _
  · exact hsame _
  all_goals exact hnext _

/-- A rotation does not move the durable position back. -/
lemma Sound.rotate_durableEnd {kept current : List WalRecord} {superseding : Bool} {slot : Slot}
    {all : List WalRecord} {full : List UInt8} {nextTxnId : TxnId}
    (h : Sound crc32c format disk (.running running) kept current superseding slot header all full)
    (hrotate : rotate crc32c running disk nextTxnId fault = ⟨result, running', disk'⟩) :
    running.durableEnd disk ≤ running'.durableEnd disk' := by
  rcases h.rotate_cases hrotate with ⟨_, -, -, hle, -⟩ |
    ⟨next, mid, midDisk, hsuccessor, hsound, hle, -, hmid, hsynced, hinstall⟩
  · exact hle
  · obtain ⟨rfl, -, -, hmirrors, -⟩ := hsound.healthy mid rfl hmid
    have hbase : mid.durableEnd midDisk = next.baseLsn.toNat := by
      rw [Running.durableEnd, hmirrors.baseLsn, hsynced, hsuccessor.base]
    exact hle.trans (installGeneration_durableEnd hbase hinstall)

/-- No step takes back a durable position or record. -/
lemma Step.keeps_durable (hstep : Step crc32c format s s') (h : s.Sound crc32c format) :
    s.durable ≤ s'.durable ∧ ∀ r ∈ s.kept, r.endLsn ≤ s.durable → r ∈ s'.kept := by
  obtain ⟨slot, header, all, full, h⟩ := h
  unfold LogState.durable
  cases hstep with
  | @append running txnId prevLsn kind _ _ _ hphase happend =>
    have hdurable := @appendTo_durableEnd crc32c format s.disk running txnId kind prevLsn .done
    rw [happend] at hdurable
    rw [hphase]
    exact ⟨hdurable.ge, fun r hr _ => mem_append_left _ hr⟩
  | @appendFailed running txnId prevLsn kind write _ _ _ hphase happend =>
    have hdurable := @appendTo_durableEnd crc32c format s.disk running txnId kind prevLsn write
    rw [happend] at hdurable
    rw [hphase]
    exact ⟨hdurable.ge, fun r hr _ => hr⟩
  | flush hphase =>
    rw [hphase] at h ⊢
    exact ⟨h.flush_durableEnd, fun r hr _ => hr⟩
  | rotated hphase hrotate | rotateFailed hphase hrotate =>
    rw [hphase] at h ⊢
    exact ⟨h.rotate_durableEnd hrotate, fun r hr _ => hr⟩
  | close hphase | openFailed hphase hopen =>
    rw [hphase]
    exact ⟨le_rfl, fun r hr _ => hr⟩
  | crash hcrash => exact ⟨le_rfl, fun r hr _ => hr⟩
  | opened hphase hopen =>
    rw [hphase] at h ⊢
    obtain ⟨selected, superseded, bytes, hselect, -, hselection⟩ := h.select
    obtain ⟨wal, hwal, rfl, rfl, rfl⟩ := opened_selection hselect hopen
    obtain ⟨hmirrors, -⟩ := hselection.mirrors hwal
    have hreached := hselection.reached
    have hposition := hmirrors.position
    constructor
    · dsimp only [Phase.durable, Running.durableEnd]
      rw [hmirrors.baseLsn, hselection.file]
      exact hreached
    · intro r hr hend
      refine mem_filter.mpr ⟨hr, decide_eq_true ?_⟩
      dsimp only [Phase.durable] at hend ⊢
      omega

lemma run_keeps_durable (hrun : Relation.ReflTransGen (Step crc32c format) s s')
    (h : s.Sound crc32c format) :
    s'.Sound crc32c format ∧ s.durable ≤ s'.durable
      ∧ ∀ r ∈ s.kept, r.endLsn ≤ s.durable → r ∈ s'.kept := by
  induction hrun with
  | refl => exact ⟨h, le_rfl, fun r hr _ => hr⟩
  | tail _ hstep ih =>
    obtain ⟨hsound, hle, hkept⟩ := ih
    obtain ⟨hle', hkept'⟩ := hstep.keeps_durable hsound
    exact ⟨hstep.sound hsound, hle.trans hle',
      fun r hr hend => hkept' r (hkept r hr hend) (hend.trans hle)⟩

/-- The next append is behind everything that was kept. -/
lemma LogState.Sound.append_lsn {txnId : TxnId} {prevLsn : Option Lsn} {kind : WalRecordKind}
    {write : WriteOutcome} {lsn : Lsn} (h : s.Sound crc32c format)
    (hphase : s.phase = .running running)
    (happend : appendTo crc32c format running s.disk txnId prevLsn kind write
      = ⟨.ok lsn, running', disk'⟩) : ∀ r ∈ s.kept, r.lsn < lsn := by
  obtain ⟨slot, header, all, full, h⟩ := h
  rw [hphase] at h
  unfold appendTo at happend
  cases hplan : running.wal.planAppend crc32c format txnId prevLsn kind with
  | error e =>
    rw [hplan] at happend
    cases happend
  | ok plan =>
    obtain ⟨r', bytes, wal'⟩ := plan
    rw [hplan] at happend
    have hlsn : r'.lsn = lsn := by
      cases write with
      | done =>
        cases happend
        rfl
      | failed written truncated => cases truncated <;> cases happend
    obtain ⟨hplanned, -⟩ := planAppend_eq_ok hplan
    obtain ⟨-, -, -, hmirrors, -⟩ := h.healthy running rfl hplanned.healthy
    have hposition := hmirrors.position
    intro r hr
    have hpos := (encodedRecordLen_le r.kind).1
    have hsize : 0 < recordHeaderSize := by decide
    rw [UInt64.lt_iff_toNat_lt, ← hlsn, hplanned.position, hposition]
    rcases h.kept r hr with hmem | ⟨hend, -⟩
    · have hend := hmirrors.endLsn_le r hmem
      rw [WalRecord.endLsn] at hend
      omega
    · rw [WalRecord.endLsn] at hend
      omega

/-- A log that was stopped has one generation to open. -/
lemma LogState.Sound.stopped (h : s.Sound crc32c format) (hstop : s.Stopped disk) :
    ∃ slot header all full, Wal.Sound crc32c format disk (.closed s.durable) s.kept s.current
      s.superseding slot header all full := by
  obtain ⟨slot, header, all, full, h⟩ := h
  rcases hstop with rfl | hcrash
  · exact ⟨_, _, _, _, h.closed h.layout⟩
  · exact h.crash hcrash

/-- Over every run: an append returns a position behind those of all records
that were returned and not lost, and durable records are never lost. After a
stop or a crash at any point, also inside a rotation or an open, the log opens.
An open that succeeds leaves one generation, which reaches the durable position,
offers ids above those of the durable records, and returns every durable record
unless a rotation was replacing their generation. -/
theorem Reachable.positions_grow (h : Reachable crc32c format s) :
    (∀ running txnId prevLsn kind write lsn running' disk', s.phase = .running running →
      appendTo crc32c format running s.disk txnId prevLsn kind write = ⟨.ok lsn, running', disk'⟩ →
      ∀ r ∈ s.kept, r.lsn < lsn)
    ∧ (∀ s', Relation.ReflTransGen (Step crc32c format) s s' →
      s.durable ≤ s'.durable ∧ ∀ r ∈ s.kept, r.endLsn ≤ s.durable → r ∈ s'.kept)
    ∧ ∀ disk, s.Stopped disk →
      (∃ running records disk',
        openSelected crc32c format disk none = (.ok (running, records), disk'))
      ∧ ∀ fault running records disk',
        openSelected crc32c format disk fault = (.ok (running, records), disk') →
        ((disk' running.slot).linked = true ∧ (disk' running.slot.other).linked = false)
        ∧ s.durable ≤ running.wal.nextLsn.toNat
        ∧ (∀ r ∈ s.kept, r.endLsn ≤ s.durable → r.txnId < running.wal.nextTxnId)
        ∧ (s.superseding = false → ∀ r ∈ s.current, r.endLsn ≤ s.durable → r ∈ records) := by
  refine ⟨?_, fun s' hrun => (run_keeps_durable hrun h.sound).2, ?_⟩
  · intro running txnId prevLsn kind write lsn running' disk' hphase happend
    exact h.sound.append_lsn hphase happend
  intro disk hstop
  obtain ⟨slot, header, all, full, hsound⟩ := h.sound.stopped hstop
  obtain ⟨selected, superseded, bytes, hselect, -, hselection⟩ := hsound.select
  constructor
  · obtain ⟨wal, hwal⟩ := hselection.fromScan_ok
    exact ⟨⟨wal, selected.slot⟩, selected.scan.records, openedDisk disk selected superseded,
      by rw [openSelected_none hselect, hwal]; rfl⟩
  intro fault running records disk' hopen
  obtain ⟨wal, hwal, rfl, rfl, rfl⟩ := opened_selection hselect hopen
  obtain ⟨hmirrors, -⟩ := hselection.mirrors hwal
  have hreached := hselection.reached
  have hposition := hmirrors.position
  refine ⟨⟨by rw [hselection.file], hselection.free.1⟩, by dsimp only; omega, ?_, ?_⟩
  · intro r hr hend
    rw [UInt64.lt_iff_toNat_lt]
    rcases hselection.kept r hr (by omega) with hmem | ⟨-, htxn⟩
    · exact hmirrors.unused r hmem
    · exact lt_of_lt_of_le htxn hmirrors.offered
  · exact fun hs r hr hend => hselection.current hs r hr (by omega)

lemma openSelected_created (hwal : WalManager.fromScan initialHeader [] walHeaderSize = .ok wal) :
    openSelected crc32c format (createdDisk crc32c) none
      = (.ok (⟨wal, .root⟩, []), createdDisk crc32c) := by
  have hheader := length_headerBytes initialHeader (crc32c (headerBytes initialHeader 0)).toNat
  have hlog : LogFile crc32c format initialHeader [] (createdDisk crc32c .root).bytes :=
    ⟨by rw [logBytes_nil, append_nil]; rfl, by decide, trivial⟩
  have hlen : (createdDisk crc32c .root).bytes.length = walHeaderSize := hheader
  have hread : readSlot crc32c format (createdDisk crc32c) .root
      = some (.inl ⟨.root, initialHeader, ⟨[], walHeaderSize, false⟩⟩) := by
    exact readSlot_of_log hlog (by decide) rfl (by rw [take_length]) hlen.ge
  rw [openSelected_none (selectGeneration_single hread (readSlot_of_unlinked rfl)), hwal]
  refine Prod.ext rfl ?_
  funext slot
  cases slot with
  | root | alternate => rfl

lemma reachable_begin : ∃ wal out, WalManager.fromScan initialHeader [] walHeaderSize = .ok wal
      ∧ appendTo (fun _ => 0) blankPages ⟨wal, .root⟩ (createdDisk fun _ => 0) 7 none .begin .done
        = out
      ∧ out.result = .ok 1
      ∧ Reachable (fun _ => 0) blankPages
        ⟨out.disk, .running out.running, [⟨1, 7, none, .begin⟩], [⟨1, 7, none, .begin⟩], false⟩ := by
  refine ⟨_, _, rfl, rfl, rfl, ?_⟩
  exact .step (.created rfl) (@Step.append _ _ ⟨_, _, _, _, _⟩ _ 7 none .begin 1 _ _ rfl rfl)

/-- A record that a power loss took with it does not count: its position is
returned again. -/
theorem lost_position_returned_again :
    ∃ wal out s', Reachable (fun _ => 0) blankPages
        ⟨createdDisk fun _ => 0, .running ⟨wal, .root⟩, [], [], false⟩
      ∧ appendTo (fun _ => 0) blankPages ⟨wal, .root⟩ (createdDisk fun _ => 0) 7 none .begin .done
        = out
      ∧ out.result = .ok 1
      ∧ Relation.ReflTransGen (Step (fun _ => 0) blankPages)
        ⟨out.disk, .running out.running, [⟨1, 7, none, .begin⟩], [⟨1, 7, none, .begin⟩], false⟩ s'
      ∧ ∃ running, s'.phase = .running running
        ∧ (appendTo (fun _ => 0) blankPages running s'.disk 7 none .begin .done).result
          = .ok 1 := by
  obtain ⟨wal, out, hwal, hout, hresult, -⟩ := reachable_begin
  have hcrash : ∀ slot, (out.disk slot).Crash (createdDisk (fun _ => 0) slot) := by
    cases hwal
    subst hout
    intro slot
    cases slot with
    | root =>
      have hfile : ∀ file : SlotFile, file.linked = true → file.synced = walHeaderSize →
          walHeaderSize ≤ file.bytes.length →
          createdDisk (fun _ => 0) .root
            = ⟨file.bytes.take walHeaderSize, walHeaderSize, true, true⟩ →
          file.Crash (createdDisk (fun _ => 0) .root) := by
        intro file hlinked hsynced hlen heq
        rw [heq]
        exact .kept (.inl hlinked) hsynced.le hlen
      exact hfile _ (by decide +kernel) (by decide +kernel) (by decide +kernel) (by decide +kernel)
    | alternate => exact .lost (.inl (by decide +kernel))
  generalize hdisk : createdDisk (fun _ => 0) = disk at hout hcrash
  have hopen : openSelected (fun _ => 0) blankPages disk none = (.ok (⟨wal, .root⟩, []), disk) := by
    rw [← hdisk]
    exact openSelected_created hwal
  refine ⟨wal, out, _, hdisk ▸ .created hwal, hout, hresult,
    (Relation.ReflTransGen.single (.crash hcrash)).tail (.opened rfl hopen), _, rfl, ?_⟩
  rw [hout]
  exact hresult

/-- A rotation that stopped inside the header of the next generation, behind the
synchronised Begin of transaction 7. -/
lemma reachable_rotation_cut : ∃ s, Reachable (fun _ => 0) blankPages s ∧ s.superseding = true
      ∧ s.kept = [⟨1, 7, none, .begin⟩] ∧ s.durable = 41
      ∧ (s.disk .root).linked = true ∧ (s.disk .root).synced = (s.disk .root).bytes.length
      ∧ (s.disk .alternate).linked = true ∧ (s.disk .alternate).synced = 0
      ∧ (s.disk .alternate).bytes.length = 20 := by
  obtain ⟨wal, out, hwal, hout, -, hreachable⟩ := reachable_begin
  cases hwal
  subst hout
  refine ⟨_, hreachable.step
    (@Step.rotateFailed _ _ _ _ _ 8 _ (some (.writeHeader 20)) .io rfl rfl), ?_⟩
  decide +kernel

/-- A power loss leaves ten bytes of that header. The log opens with the old
generation, behind the record, and goes on with it. -/
theorem Reachable.rotation_cut_opens :
    ∃ s disk running records disk', Reachable (fun _ => 0) blankPages s ∧ s.superseding = true
      ∧ (∀ slot, (s.disk slot).Crash (disk slot)) ∧ (disk .alternate).bytes.length = 10
      ∧ openSelected (fun _ => 0) blankPages disk none = (.ok (running, records), disk')
      ∧ 41 ≤ running.wal.nextLsn.toNat ∧ 7 < running.wal.nextTxnId
      ∧ Reachable (fun _ => 0) blankPages
        ⟨disk', .running running, [⟨1, 7, none, .begin⟩], records, false⟩ := by
  obtain ⟨s, hs, hsuperseding, hkept, hdurable, hroot, hsynced, hlinked, hfree, hlength⟩ :=
    reachable_rotation_cut
  let length (slot : Slot) : Nat := if slot = .root then (s.disk .root).bytes.length else 10
  obtain ⟨disk, hdisk⟩ : ∃ disk : Disk, disk = fun slot =>
      ⟨(s.disk slot).bytes.take (length slot), length slot, true, true⟩ := ⟨_, rfl⟩
  have hcrash : ∀ slot, (s.disk slot).Crash (disk slot) := by
    intro slot
    rw [hdisk]
    cases slot with
    | root => exact .kept (.inl hroot) hsynced.le le_rfl
    | alternate =>
      exact .kept (.inl hlinked) (hfree.le.trans (Nat.zero_le _)) (by simp [length, hlength])
  obtain ⟨⟨running, records, disk', hopen⟩, hopened⟩ := hs.positions_grow.2.2 disk (.inr hcrash)
  obtain ⟨-, hreached, hoffered, -⟩ := hopened none running records disk' hopen
  have hreopened := (hs.step (.crash hcrash)).step (.opened rfl hopen)
  have hend : (⟨1, 7, none, .begin⟩ : WalRecord).endLsn = 41 := rfl
  have hfilter : s.kept.filter (fun r => r.endLsn ≤ running.wal.nextLsn.toNat)
      = [⟨1, 7, none, .begin⟩] := by
    rw [hkept, filter_singleton, hend]
    simp [hdurable ▸ hreached]
  have htorn : (disk .alternate).bytes.length = 10 := by simp [hdisk, length, hlength]
  refine ⟨s, disk, running, records, disk', hs, hsuperseding, hcrash, htorn, hopen,
    hdurable ▸ hreached, ?_, hfilter ▸ hreopened⟩
  exact hoffered _ (by rw [hkept]; exact mem_singleton_self _) (by rw [hend, hdurable])

end Netbadb.Wal
