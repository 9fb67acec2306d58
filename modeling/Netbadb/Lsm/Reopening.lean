import Netbadb.Lsm.DurableCalls

/-!
Reopening what a crash left. The log of an image is gathered by transaction, the
coordinator is asked about those in doubt, and the loop over the transactions
ends with the memtable of exactly the commits that are then in the log.
-/

namespace Netbadb.Lsm.Engine

open Versions List LogRecord

variable {Key Row : Type} {id q d : Nat} {b : Batch Key Row} {a : Analysis Key Row}
  {records l : List (LogRecord Key Row)} {decision : Nat → PreparedDecision}
  {txn : RecoveredTxn Key Row}

lemma find?_eq_of_unique {α : Type} {p : α → Bool} {l : List α} {x : α} (hmem : x ∈ l)
    (hp : p x = true) (hunique : ∀ y ∈ l, p y = true → y = x) : l.find? p = some x := by
  cases hfind : l.find? p with
  | none => exact absurd hp (by simpa using find?_eq_none.mp hfind x hmem)
  | some y => rw [hunique y (mem_of_find?_eq_some hfind) (find?_some hfind)]

/-- The database transaction that decides about a transaction of the log. -/
def doubt (l : List (LogRecord Key Row)) : Option Nat :=
  if (summary l).commit = none ∧ (summary l).aborted = false then (summary l).prepared else none

lemma mem_classifyPrepared {t : PreparedTransaction} :
    t ∈ classifyPrepared a ↔ t.physicalTxnId ∈ a.ids ∧
      (a.transactions t.physicalTxnId).prepared = some t.databaseTxnId ∧
        t.state = (a.transactions t.physicalTxnId).preparedState := by
  simp only [classifyPrepared, mem_filterMap, Option.map_eq_some_iff]
  constructor
  · rintro ⟨id, hid, d, hd, rfl⟩
    exact ⟨hid, hd, rfl⟩
  · rintro ⟨hid, hd, hstate⟩
    refine ⟨t.physicalTxnId, hid, t.databaseTxnId, hd, ?_⟩
    rw [← hstate]

lemma preparedState_eq_prepared :
    txn.preparedState = .prepared ↔ txn.commit = none ∧ txn.aborted = false := by
  unfold RecoveredTxn.preparedState
  cases txn.commit <;> cases txn.aborted <;> simp

lemma mem_resolutionsFor {r : PreparedTxnResolution} (h : Analyzed records a) :
    r ∈ resolutionsFor decision (classifyPrepared a) ↔
      doubt (recordsOf r.physicalTxnId records) = some r.databaseTxnId ∧
        r.decision = decision r.databaseTxnId := by
  simp only [resolutionsFor, mem_map, mem_filter, mem_classifyPrepared, decide_eq_true_eq]
  constructor
  · rintro ⟨t, ⟨⟨hid, hd, hstate⟩, hprepared⟩, rfl⟩
    rw [hstate, preparedState_eq_prepared] at hprepared
    rw [h.transactions] at hd hprepared
    exact ⟨by simp only [doubt]; rw [if_pos hprepared]; exact hd, rfl⟩
  · rintro ⟨hdoubt, hdecision⟩
    unfold doubt at hdoubt
    split at hdoubt
    · rename_i hopen
      refine ⟨⟨r.databaseTxnId, r.physicalTxnId, .prepared⟩, ⟨⟨?_, ?_, ?_⟩, rfl⟩, ?_⟩
      · rw [h.mem_ids]
        intro hnil
        simp [hnil, summary] at hdoubt
      · rw [h.transactions]
        exact hdoubt
      · rw [eq_comm, preparedState_eq_prepared, h.transactions]
        exact hopen
      · rw [← hdecision]
    · cases hdoubt

lemma nodup_classifyPrepared (h : a.ids.Nodup) :
    ((classifyPrepared a).map (·.physicalTxnId)).Nodup := by
  have hsub : ((classifyPrepared a).map (·.physicalTxnId)).Sublist a.ids := by
    unfold classifyPrepared
    generalize a.ids = ids
    induction ids with
    | nil => simp
    | cons id rest ih =>
      rw [filterMap_cons]
      split
      · exact ih.cons id
      · rename_i t ht
        obtain ⟨d, -, rfl⟩ := Option.map_eq_some_iff.mp ht
        exact ih.cons_cons id
  exact hsub.nodup h

/-- Resolutions for different prepared transactions pass one after the other. -/
lemma validateResolution_all (prepared : List PreparedTransaction)
    (resolutions : List PreparedTxnResolution) :
    ∀ seen : List Nat, (resolutions.map (·.physicalTxnId)).Nodup →
      (∀ r ∈ resolutions, r.physicalTxnId ∉ seen) →
      (∀ r ∈ resolutions, prepared.find? (·.physicalTxnId = r.physicalTxnId)
        = some ⟨r.databaseTxnId, r.physicalTxnId, .prepared⟩) →
      ∃ seen', resolutions.foldlM (validateResolution prepared) seen = .ok seen' := by
  induction resolutions with
  | nil => exact fun _ _ _ _ => ⟨_, rfl⟩
  | cons r rest ih =>
    intro seen hnodup hnew hfind
    obtain ⟨hr, hrest⟩ := nodup_cons.mp hnodup
    have hstep : validateResolution prepared seen r = .ok (r.physicalTxnId :: seen) := by
      simp [validateResolution, hnew r mem_cons_self, hfind r mem_cons_self, pure, Except.pure]
    have hnew' : ∀ r' ∈ rest, r'.physicalTxnId ∉ r.physicalTxnId :: seen := by
      intro r' hr' hmem
      rcases mem_cons.mp hmem with heq | hmem
      · exact hr (mem_map.mpr ⟨r', hr', heq⟩)
      · exact hnew r' (mem_cons_of_mem _ hr') hmem
    obtain ⟨seen', hseen⟩ := ih _ hrest hnew' fun r' hr' => hfind r' (mem_cons_of_mem _ hr')
    exact ⟨seen', by rw [foldlM_cons, hstep]; exact hseen⟩

/-- The coordinator's answer passes the checks of a reopen. -/
lemma validateResolutions_ok (h : Analyzed records a) :
    validateResolutions (classifyPrepared a) (resolutionsFor decision (classifyPrepared a))
      = .ok () := by
  have hnodup := nodup_classifyPrepared h.nodup_ids
  have hunique : ∀ t ∈ classifyPrepared a, ∀ t' ∈ classifyPrepared a,
      t'.physicalTxnId = t.physicalTxnId → t' = t :=
    fun t ht t' ht' heq => inj_on_of_nodup_map hnodup ht' ht heq
  obtain ⟨seen, hseen⟩ := validateResolution_all (classifyPrepared a)
    (resolutionsFor decision (classifyPrepared a)) []
    (by
      have hsub : ((resolutionsFor decision (classifyPrepared a)).map (·.physicalTxnId)).Sublist
          ((classifyPrepared a).map (·.physicalTxnId)) := by
        simp only [resolutionsFor, map_map]
        exact (filter_sublist).map _
      exact hsub.nodup hnodup)
    (by simp)
    (by
      intro r hr
      obtain ⟨t, ht, rfl⟩ := mem_map.mp hr
      obtain ⟨ht, hstate⟩ := mem_filter.mp ht
      have hprepared : t.state = .prepared := of_decide_eq_true hstate
      rw [find?_eq_of_unique ht (by simp) fun t' ht' heq => hunique t ht t' ht' (by simpa using heq),
        ← hprepared])
  have hall : ((classifyPrepared a).filter (·.state = .prepared)).find? (fun t =>
      !(resolutionsFor decision (classifyPrepared a)).any (·.physicalTxnId = t.physicalTxnId))
        = none := by
    refine find?_eq_none.mpr fun t ht => ?_
    simp only [Bool.not_eq_true', Bool.not_eq_false, any_eq_true, decide_eq_true_eq]
    exact ⟨_, mem_map_of_mem ht, rfl⟩
  simp only [validateResolutions, hseen, hall]
  rfl

lemma resolution_for (h : Analyzed records a) (hdoubt : doubt (recordsOf id records) = some d) :
    (resolutionsFor decision (classifyPrepared a)).find? (·.physicalTxnId = id)
      = some ⟨d, id, decision d⟩ := by
  refine find?_eq_of_unique ((mem_resolutionsFor h).mpr ⟨hdoubt, rfl⟩) (by simp) ?_
  rintro ⟨d', id', dec⟩ hmem heq
  obtain rfl : id' = id := by simpa using heq
  obtain ⟨hdoubt', hdec⟩ := (mem_resolutionsFor h).mp hmem
  obtain rfl : d' = d := by simpa [hdoubt] using hdoubt'.symm
  rw [show dec = decision d' from hdec]

structure Openable (records : List (LogRecord Key Row)) : Prop where
  shaped : ∀ id, Shaped id (recordsOf id records)
  distinct : DistinctCommits records
  pos : ∀ id q, .commit id q ∈ records → 0 < q
  readable : ∀ r ∈ records, r.tooLarge = false

/-- The log after the loop went over the transactions in `done`: those in doubt
have the outcome that was decided, from the sequence `first` on. -/
structure Replayed (decision : Nat → PreparedDecision) (records : List (LogRecord Key Row))
    (first : Nat) (done : List Nat) (r : Recovery Key Row) : Prop where
  openable : Openable r.records
  others : ∀ id ∉ done, recordsOf id r.records = recordsOf id records
  settled : ∀ id ∈ done, doubt (recordsOf id records) = none →
    recordsOf id r.records = recordsOf id records
  committed : ∀ id ∈ done, ∀ d, doubt (recordsOf id records) = some d → decision d = .commit →
    ∃ q, first ≤ q ∧ recordsOf id r.records = recordsOf id records ++ [.commit id q]
  aborted : ∀ id ∈ done, ∀ d, doubt (recordsOf id records) = some d → decision d = .abort →
    recordsOf id r.records = recordsOf id records ++ [.abort id]
  below : ∀ id q, .commit id q ∈ r.records → q < r.recoveryCommit
  first_pos : 0 < first
  first_le : first ≤ r.recoveryCommit
  mem_commits : ∀ c, c ∈ r.commits ↔ c.txnId ∈ done ∧
    .commit c.txnId c.commitSeq ∈ r.records ∧ .mutationBatch c.txnId c.batch ∈ r.records
  mem_memtable : ∀ e, e ∈ r.memtable ↔ ∃ c ∈ r.commits, e ∈ c.entries

variable {first : Nat} {done : List Nat} {r r' : Recovery Key Row} {x : LogRecord Key Row}
  {f : Files Key Row}

lemma Openable.snoc (h : Openable records)
    (hshaped : Shaped x.txnId (recordsOf x.txnId records ++ [x]))
    (hcommit : ∀ id q, x = .commit id q → 0 < q ∧ ∀ id', .commit id' q ∉ records)
    (hreadable : x.tooLarge = false) : Openable (records ++ [x]) where
  shaped := by
    intro id
    by_cases hid : x.txnId = id
    · subst hid
      rw [recordsOf_snoc_self records rfl]
      exact hshaped
    · rw [recordsOf_snoc_other records hid]
      exact h.shaped id
  distinct := by
    intro id₁ id₂ q h₁ h₂
    simp only [mem_append, mem_singleton] at h₁ h₂
    rcases h₁ with h₁ | h₁ <;> rcases h₂ with h₂ | h₂
    · exact h.distinct id₁ id₂ q h₁ h₂
    · exact absurd h₁ ((hcommit id₂ q h₂.symm).2 id₁)
    · exact absurd h₂ ((hcommit id₁ q h₁.symm).2 id₂)
    · rw [← h₁] at h₂
      cases h₂
      rfl
  pos := by
    intro id q hmem
    simp only [mem_append, mem_singleton] at hmem
    exact hmem.elim (h.pos id q) fun heq => (hcommit id q heq.symm).1
  readable := by
    intro y hy
    simp only [mem_append, mem_singleton] at hy
    exact hy.elim (h.readable y) fun heq => heq ▸ hreadable

section Loop

variable [DecidableEq Key] [DecidableEq Row]

/-- Applying a commit of the log whose transaction the loop has not seen. -/
lemma Openable.apply (h : Openable r.records) (hcommits : ∀ c, c ∈ r.commits ↔ c.txnId ∈ done ∧
      .commit c.txnId c.commitSeq ∈ r.records ∧ .mutationBatch c.txnId c.batch ∈ r.records)
    (hmemtable : ∀ e, e ∈ r.memtable ↔ ∃ c ∈ r.commits, e ∈ c.entries) (hid : id ∉ done)
    (hb : txn.mutations = some b) (hbatch : .mutationBatch id b ∈ r.records)
    (hcommit : .commit id q ∈ r.records) :
    ∃ r', r.apply id txn q = .ok r' ∧ r'.records = r.records ∧
      r'.recoveryCommit = r.recoveryCommit ∧
      (∀ c, c ∈ r'.commits ↔ c.txnId ∈ id :: done ∧
        .commit c.txnId c.commitSeq ∈ r.records ∧ .mutationBatch c.txnId c.batch ∈ r.records) ∧
      ∀ e, e ∈ r'.memtable ↔ ∃ c ∈ r'.commits, e ∈ c.entries := by
  have hpos := h.pos id q hcommit
  -- No entry of the memtable has this version: its commit would have been this one.
  have hfresh : ∀ e ∈ r.memtable, e.version = q → e.key ∉ b.mutations.map Prod.fst := by
    intro e he hversion
    obtain ⟨c, hc, hentry⟩ := (hmemtable e).mp he
    obtain ⟨hdone', hlogged, -⟩ := (hcommits c).mp hc
    rw [version_of_mem_entries hentry] at hversion
    have heq := h.distinct c.txnId id q (hversion ▸ hlogged) hcommit
    exact absurd (heq ▸ hdone') hid
  refine ⟨{ r with memtable := r.memtable ++ b.entries q, commits := r.commits ++ [⟨id, q, b⟩] },
    ?_, rfl, rfl, fun c => ?_, fun e => ?_⟩
  · simp only [Recovery.apply, hb, applyMutations_ok hpos b.nodup hfresh]
    rfl
  · simp only [mem_append, hcommits, mem_cons, not_mem_nil, or_false]
    constructor
    · rintro (⟨hdone', hc⟩ | rfl)
      · exact ⟨.inr hdone', hc⟩
      · exact ⟨.inl rfl, hcommit, hbatch⟩
    rintro ⟨heq | hdone', hc, hcb⟩
    · obtain ⟨id', q', b'⟩ := c
      obtain rfl : id' = id := heq
      have hshaped := h.shaped id'
      obtain ⟨b₀, l, hhead, hl⟩ := hshaped.of_commit (commit_mem_recordsOf.mpr hcommit)
      have hq : q' = q := by
        have hmem := commit_mem_recordsOf.mpr hc
        rw [hl, mem_append] at hmem
        have hlast := hmem.resolve_left hhead.commit_notMem
        simpa using hlast
      have hbb : b' = b := hshaped.batch_unique (batch_mem_recordsOf.mpr hcb)
        (batch_mem_recordsOf.mpr hbatch)
      right
      rw [hq, hbb]
    · exact .inl ⟨hdone', hc, hcb⟩
  · simp only [mem_append, hmemtable, mem_singleton]
    constructor
    · rintro (⟨c, hc, he⟩ | he)
      · exact ⟨c, .inl hc, he⟩
      · exact ⟨_, .inr rfl, he⟩
    · rintro ⟨c, hc | rfl, he⟩
      · exact .inl ⟨c, hc, he⟩
      · exact .inr he

end Loop

section

variable (h : Replayed decision records first done r)
include h

/-- A transaction that is not in doubt leaves the log as it is. -/
lemma Replayed.keep (hid : id ∉ done)
    (hdoubt : doubt (recordsOf id records) = none) (hrecords : r'.records = r.records)
    (hnext : r'.recoveryCommit = r.recoveryCommit)
    (hcommits : ∀ c, c ∈ r'.commits ↔ c.txnId ∈ id :: done ∧
      .commit c.txnId c.commitSeq ∈ r.records ∧ .mutationBatch c.txnId c.batch ∈ r.records)
    (hmemtable : ∀ e, e ∈ r'.memtable ↔ ∃ c ∈ r'.commits, e ∈ c.entries) :
    Replayed decision records first (id :: done) r' := by
  refine ⟨?_, ?_, ?_, ?_, ?_, ?_, h.first_pos, hnext ▸ h.first_le, ?_, hmemtable⟩ <;>
    rw [hrecords]
  · exact h.openable
  · exact fun id' hid' => h.others id' fun hmem => hid' (mem_cons_of_mem _ hmem)
  · intro id' hid' hd
    rcases mem_cons.mp hid' with rfl | hid'
    · exact h.others id' hid
    · exact h.settled id' hid' hd
  · intro id' hid' d hd hdecision
    rcases mem_cons.mp hid' with rfl | hid'
    · simp [hdoubt] at hd
    · exact h.committed id' hid' d hd hdecision
  · intro id' hid' d hd hdecision
    rcases mem_cons.mp hid' with rfl | hid'
    · simp [hdoubt] at hd
    · exact h.aborted id' hid' d hd hdecision
  · exact hnext ▸ h.below
  · exact hcommits

/-- A transaction without an outcome to decide or to apply is passed over. -/
lemma Replayed.skip (hid : id ∉ done) (hdoubt : doubt (recordsOf id records) = none)
    (hcommit : ∀ q, .commit id q ∉ recordsOf id records) :
    Replayed decision records first (id :: done) r := by
  refine h.keep hid hdoubt rfl rfl (fun c => ?_) h.mem_memtable
  rw [h.mem_commits, mem_cons]
  refine ⟨fun h => ⟨.inr h.1, h.2⟩, ?_⟩
  rintro ⟨rfl | hdone, hc⟩
  · have hmem := commit_mem_recordsOf.mpr hc.1
    rw [h.others _ hid] at hmem
    exact absurd hmem (hcommit _)
  · exact ⟨hdone, hc⟩

/-- The log grows by the outcome of one transaction in doubt. -/
lemma Replayed.decide (hid : id ∉ done)
    (hdoubt : doubt (recordsOf id records) = some d) (hx : x.txnId = id)
    (hx' : decision d = .commit ∧ (∃ q, first ≤ q ∧ x = .commit id q) ∨
      decision d = .abort ∧ x = .abort id) (hrecords : r'.records = r.records ++ [x])
    (hopenable : Openable r'.records)
    (hbelow : ∀ id q, .commit id q ∈ r'.records → q < r'.recoveryCommit)
    (hfirst : first ≤ r'.recoveryCommit) (hcommits : ∀ c, c ∈ r'.commits ↔ c.txnId ∈ id :: done ∧
      .commit c.txnId c.commitSeq ∈ r'.records ∧ .mutationBatch c.txnId c.batch ∈ r'.records)
    (hmemtable : ∀ e, e ∈ r'.memtable ↔ ∃ c ∈ r'.commits, e ∈ c.entries) :
    Replayed decision records first (id :: done) r' := by
  have hself : recordsOf id r'.records = recordsOf id records ++ [x] := by
    rw [hrecords, recordsOf_snoc_self _ hx, h.others id hid]
  have hother : ∀ id', id' ≠ id → recordsOf id' r'.records = recordsOf id' r.records := by
    intro id' hne
    rw [hrecords, recordsOf_snoc_other _ (by rw [hx]; exact hne.symm)]
  have hne : ∀ id' ∈ done, id' ≠ id := fun id' hmem heq => hid (heq ▸ hmem)
  refine ⟨hopenable, ?_, ?_, ?_, ?_, hbelow, h.first_pos, hfirst, hcommits, hmemtable⟩
  · intro id' hid'
    simp only [mem_cons, not_or] at hid'
    rw [hother id' hid'.1]
    exact h.others id' hid'.2
  · intro id' hid' hd
    rcases mem_cons.mp hid' with rfl | hid'
    · simp [hdoubt] at hd
    · rw [hother id' (hne id' hid')]
      exact h.settled id' hid' hd
  · intro id' hid' d' hd hdecision
    rcases mem_cons.mp hid' with rfl | hid'
    · obtain rfl : d = d' := by simpa [hdoubt] using hd
      rcases hx' with ⟨-, q, hq, rfl⟩ | ⟨habort, -⟩
      · exact ⟨q, hq, hself⟩
      · simp [hdecision] at habort
    · rw [hother id' (hne id' hid')]
      exact h.committed id' hid' d' hd hdecision
  · intro id' hid' d' hd hdecision
    rcases mem_cons.mp hid' with rfl | hid'
    · obtain rfl : d = d' := by simpa [hdoubt] using hd
      rcases hx' with ⟨hcommit, -⟩ | ⟨-, rfl⟩
      · simp [hdecision] at hcommit
      · exact hself
    · rw [hother id' (hne id' hid')]
      exact h.aborted id' hid' d' hd hdecision

end

/-- The sequences a reopen gives out are behind those of the log, and behind
the reserved range where the log has none. -/
lemma allocateRecoveryCommit_spec (ha : Analyzed records a) : 0 < allocateRecoveryCommit f a ∧
      (∀ id q, .commit id q ∈ records → q < allocateRecoveryCommit f a) ∧
      ((∃ id q, .commit id q ∈ records ∧ q < allocateRecoveryCommit f a) ∨
        f.commitReservationEnd ≤ allocateRecoveryCommit f a) := by
  unfold allocateRecoveryCommit
  cases hmax : a.commits.max? with
  | none =>
    have hnil : a.commits = [] := max?_eq_none_iff.mp hmax
    refine ⟨Nat.succ_pos _, fun id q hmem => ?_, .inr (by dsimp only; omega)⟩
    have hq := (ha.mem_commits q).mpr ⟨id, hmem⟩
    simp [hnil] at hq
  | some m =>
    obtain ⟨hmem, hle⟩ := max?_eq_some_iff.mp hmax
    obtain ⟨id, hid⟩ := (ha.mem_commits m).mp hmem
    refine ⟨Nat.succ_pos _, fun id q hq => ?_, .inl ⟨id, m, hid, Nat.lt_succ_self m⟩⟩
    exact Nat.lt_succ_of_le (hle q ((ha.mem_commits q).mpr ⟨id, hq⟩))

lemma summary_prepared (b : Batch Key Row) :
    summary [.mutationBatch id b, .prepare id d] = ⟨some b, some d, none, false⟩ := rfl

section Step

variable [DecidableEq Key] [DecidableEq Row]

section

variable (h : Replayed decision records first done r) (ha : Analyzed records a) (hid : id ∉ done)
include h ha hid

/-- A transaction in doubt that the coordinator committed: its Commit record is
appended first and then applied. -/
lemma Replayed.step_commit {b : Batch Key Row}
    (hl : recordsOf id records = [.mutationBatch id b, .prepare id d])
    (hdoubt : doubt (recordsOf id records) = some d) (hdecision : decision d = .commit) :
    ∃ r', recoverTxn a (resolutionsFor decision (classifyPrepared a)) r id = .ok r' ∧
      Replayed decision records first (id :: done) r' := by
  have htxn := ha.transactions id
  have hsame := h.others id hid
  rw [hl] at htxn hsame
  rw [summary_prepared] at htxn
  have hopenable : Openable (r.records ++ [.commit id r.recoveryCommit]) := by
    refine h.openable.snoc ?_ ?_ rfl
    · simp only [txnId, hsame]
      exact .commit (.prepared d) _
    · rintro id' q heq
      cases heq
      exact ⟨h.first_pos.trans_le h.first_le,
        fun id'' hmem => lt_irrefl _ (h.below id'' _ hmem)⟩
  have hcommits : ∀ c, c ∈ r.commits ↔ c.txnId ∈ done ∧
      .commit c.txnId c.commitSeq ∈ r.records ++ [.commit id r.recoveryCommit] ∧
        .mutationBatch c.txnId c.batch ∈ r.records ++ [.commit id r.recoveryCommit] := by
    intro c
    rw [h.mem_commits]
    simp only [mem_append, mem_singleton, reduceCtorEq, or_false, commit.injEq]
    refine and_congr_right fun hdone => and_congr_left fun _ => ?_
    exact ⟨.inl, fun hc => hc.resolve_right fun heq => hid (heq.1 ▸ hdone)⟩
  have hmem : .mutationBatch id b ∈ recordsOf id r.records := by simp [hsame]
  obtain ⟨r', happly, hrecords, hnext, hcommits', hmemtable'⟩ :=
    Openable.apply (r := { r with
      records := r.records ++ [.commit id r.recoveryCommit]
      recoveryCommit := r.recoveryCommit + 1 }) hopenable hcommits h.mem_memtable hid
      (show (a.transactions id).mutations = some b by rw [htxn]) (q := r.recoveryCommit)
      (mem_append_left _ (batch_mem_recordsOf.mp hmem)) (by simp)
  refine ⟨r', ?_, h.decide hid hdoubt (x := .commit id r.recoveryCommit) rfl
    (.inl ⟨hdecision, _, h.first_le, rfl⟩) hrecords (by rw [hrecords]; exact hopenable)
    ?_ ?_ (by rw [hrecords]; exact hcommits') hmemtable'⟩
  · rw [htxn] at happly
    simp only [recoverTxn, htxn, resolution_for ha hdoubt, hdecision]
    exact happly
  · intro id' q hmem
    rw [hrecords] at hmem
    rw [hnext]
    rcases mem_append.mp hmem with hmem | hmem
    · exact (h.below id' q hmem).trans (Nat.lt_succ_self _)
    · obtain ⟨-, rfl⟩ : id' = id ∧ q = r.recoveryCommit := by simpa using hmem
      exact Nat.lt_succ_self _
  · rw [hnext]
    exact h.first_le.trans (Nat.le_succ _)

lemma Replayed.step_abort {b : Batch Key Row}
    (hl : recordsOf id records = [.mutationBatch id b, .prepare id d])
    (hdoubt : doubt (recordsOf id records) = some d) (hdecision : decision d = .abort) :
    ∃ r', recoverTxn a (resolutionsFor decision (classifyPrepared a)) r id = .ok r' ∧
      Replayed decision records first (id :: done) r' := by
  have htxn := ha.transactions id
  have hsame := h.others id hid
  rw [hl] at htxn hsame
  rw [summary_prepared] at htxn
  have hopenable : Openable (r.records ++ [.abort id]) := by
    refine h.openable.snoc ?_ (by simp) rfl
    simp only [txnId, hsame]
    exact .abort (.prepared d)
  refine ⟨{ r with records := r.records ++ [.abort id] }, ?_,
    h.decide hid hdoubt (x := .abort id) rfl (.inr ⟨hdecision, rfl⟩) rfl hopenable
      (fun id' q hmem => h.below id' q (by simpa using hmem)) h.first_le (fun c => ?_)
      h.mem_memtable⟩
  · simp only [recoverTxn, htxn, resolution_for ha hdoubt, hdecision]
    rfl
  · rw [h.mem_commits]
    simp only [mem_append, mem_cons, not_mem_nil, reduceCtorEq, or_false]
    refine ⟨fun h => ⟨.inr h.1, h.2⟩, ?_⟩
    rintro ⟨heq | hdone, hc, hcb⟩
    · have hmem := commit_mem_recordsOf.mpr hc
      rw [heq, hsame] at hmem
      simp at hmem
    · exact ⟨hdone, hc, hcb⟩

lemma Replayed.step (hshaped : Shaped id (recordsOf id records)) :
    ∃ r', recoverTxn a (resolutionsFor decision (classifyPrepared a)) r id = .ok r' ∧
      Replayed decision records first (id :: done) r' := by
  have htxn := ha.transactions id
  have hsame := h.others id hid
  generalize hl : recordsOf id records = l at hshaped
  rw [hl] at htxn hsame
  cases hshaped with
  | nil =>
    refine ⟨r, by simp [recoverTxn, htxn, summary, pure, Except.pure], h.skip hid ?_ ?_⟩
    · simp [hl, doubt, summary]
    · simp [hl]
  | @head b _ hhead =>
    obtain ⟨hb, hcommit, haborted⟩ := hhead.summary_eq
    cases hhead with
    | batch =>
      refine ⟨r, ?_, h.skip hid ?_ ?_⟩
      · simp [recoverTxn, htxn, summary, commit?, isAbort, database?, pure, Except.pure]
      · simp [hl, doubt, summary, database?]
      · simp [hl]
    | prepared d =>
      have hdoubt : doubt (recordsOf id records) = some d := by
        rw [hl, doubt, if_pos ⟨hcommit, haborted⟩]
        rfl
      cases hdecision : decision d with
      | commit => exact h.step_commit ha hid hl hdoubt hdecision
      | abort => exact h.step_abort ha hid hl hdoubt hdecision
  | @commit b _ hhead q =>
    rw [hhead.summary_commit] at htxn
    have hdoubt : doubt (recordsOf id records) = none := by
      rw [hl, doubt, hhead.summary_commit]
      simp
    have hb : (a.transactions id).mutations = some b := by rw [htxn]; exact hhead.summary_eq.1
    obtain ⟨r', happly, hrecords, hnext, hcommits', hmemtable'⟩ :=
      h.openable.apply (q := q) h.mem_commits h.mem_memtable hid hb
        (batch_mem_recordsOf.mp (by rw [hsame]; simp [hhead.batch_mem]))
        (commit_mem_recordsOf.mp (by rw [hsame]; simp))
    refine ⟨r', by simp only [recoverTxn, htxn] at happly ⊢; exact happly, ?_⟩
    exact h.keep hid hdoubt hrecords hnext hcommits' hmemtable'
  | abort hhead =>
    refine ⟨r, ?_, h.skip hid ?_ ?_⟩
    · rw [hhead.summary_abort] at htxn
      simp [recoverTxn, htxn, hhead.summary_eq.2.1, pure, Except.pure]
    · rw [hl, doubt, hhead.summary_abort]
      simp
    · intro q hmem
      rw [hl, mem_append] at hmem
      exact hmem.elim hhead.commit_notMem (by simp)

end

lemma Replayed.run (ha : Analyzed records a)
    (hshaped : ∀ id, Shaped id (recordsOf id records)) (ids : List Nat) :
    ∀ {done : List Nat} {r : Recovery Key Row}, Replayed decision records first done r →
      ids.Nodup → (∀ id ∈ ids, id ∉ done) →
      ∃ r', ids.foldlM (recoverTxn a (resolutionsFor decision (classifyPrepared a))) r = .ok r' ∧
        Replayed decision records first (ids.reverse ++ done) r' := by
  induction ids with
  | nil => exact fun h _ _ => ⟨_, rfl, h⟩
  | cons id rest ih =>
    intro done r h hnodup hnew
    obtain ⟨hid, hrest⟩ := nodup_cons.mp hnodup
    obtain ⟨r₁, hstep, h₁⟩ := h.step ha (hnew id mem_cons_self) (hshaped id)
    have hnew' : ∀ id' ∈ rest, id' ∉ id :: done := by
      intro id' hid' hmem
      rcases mem_cons.mp hmem with rfl | hmem
      · exact hid hid'
      · exact hnew id' (mem_cons_of_mem _ hid') hmem
    obtain ⟨r', hrun, h'⟩ := ih h₁ hrest hnew'
    refine ⟨r', by rw [foldlM_cons, hstep]; exact hrun, ?_⟩
    simpa using h'

/-- Reopening an openable log with the coordinator's answer, over the first
`count` transactions. -/
lemma Files.recover_eq (decision : Nat → PreparedDecision) (h : Openable f.wal.records)
    (count : Nat) :
    ∃ a r, analyzeWal f.wal.records = .ok a ∧ Analyzed f.wal.records a ∧
      f.recover (resolutionsFor decision (classifyPrepared a)) count = .ok r ∧
        Replayed decision f.wal.records (allocateRecoveryCommit f a)
          (a.ids.take count).reverse r := by
  obtain ⟨a, hanalyze, ha⟩ := analyzeWal_eq h.shaped h.distinct
  obtain ⟨hpos, hbelow, -⟩ := allocateRecoveryCommit_spec (f := f) ha
  have hstart : Replayed decision f.wal.records (allocateRecoveryCommit f a) []
      ⟨[], f.wal.records, allocateRecoveryCommit f a, []⟩ :=
    ⟨h, fun _ _ => rfl, by simp, by simp, by simp, hbelow, hpos, le_rfl, by simp, by simp⟩
  obtain ⟨r, hrun, hr⟩ := Replayed.run ha h.shaped (a.ids.take count) hstart
    (ha.nodup_ids.sublist (take_sublist _ _)) (by simp)
  refine ⟨a, r, hanalyze, ha, ?_, by simpa using hr⟩
  have hread : ¬ f.wal.records.any tooLarge = true := by simpa using h.readable
  simp only [Files.recover, if_neg hread, hanalyze]
  change (validateResolutions _ _ >>= fun _ => _) = _
  rw [validateResolutions_ok ha]
  exact hrun

end Step

end Netbadb.Lsm.Engine
