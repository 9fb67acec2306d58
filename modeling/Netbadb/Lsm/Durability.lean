import Netbadb.Lsm.DurableSteps
import Netbadb.Lsm.Reopening

/-!
Runs of an LSM store with crashes and reopens. A crash keeps every synced record
of the log and some of the others, and either manifest while a rename is not
synced; a reopen may itself be cut off by a crash. Whatever is left, the next
reopen shows the commits that were reported, those the coordinator resolves to
commit, and perhaps commits whose outcome was never reported.

A flush inside the admission of a writer breaks this: it drops the log, with the
records of transactions that are parked.
-/

namespace Netbadb.Lsm.Engine

open Versions List LogRecord LsmWal

variable {Key Row : Type}

section Runs

variable [DecidableEq Key] [DecidableEq Row]

/-- Opening with the coordinator's decisions for the transactions in doubt. -/
def Files.reopen (f : Files Key Row) (decision : Nat → PreparedDecision) :
    Except OpenError (LsmShared Key Row) := do
  let prepared ← f.inspectRecovery
  f.openWithResolutions (resolutionsFor decision prepared)

/-- What a crash may leave on disk. -/
inductive Image (s : LsmShared Key Row) (decision : Nat → PreparedDecision) :
    Files Key Row → Prop where
  /-- One of the two manifests, with some of the log behind what is synced. -/
  | crash {f : Files Key Row} (hf : s.files = f ∨ s.fallback = some f) (kept : Nat)
      (hkept : f.wal.synced ≤ kept) :
      Image s decision { f with wal := .reopened (f.wal.records.take kept) }
  /-- A crash in the loop of a reopen. -/
  | again {f : Files Key Row} (h : Image s decision f) {prepared : List PreparedTransaction}
      (hprepared : f.inspectRecovery = .ok prepared) (count : Nat) {r : Recovery Key Row}
      (hr : f.recover (resolutionsFor decision prepared) count = .ok r) :
      Image s decision { f with wal := .reopened r.records }

/-- The stores that calls, crashes and reopens lead to, where every call meets a
condition. -/
inductive Run (rowBytes : Row → Nat) (cond : LsmShared Key Row → Op Key Row → Prop) :
    LsmShared Key Row → Prop where
  | create : Run rowBytes cond .create
  | call {s : LsmShared Key Row} (h : Run rowBytes cond s) (op : Op Key Row) (hop : cond s op) :
      Run rowBytes cond (s.call rowBytes op)
  | reopen {s s' : LsmShared Key Row} {f : Files Key Row} (h : Run rowBytes cond s)
      (decision : Nat → PreparedDecision) (himage : Image s decision f)
      (hopen : f.reopen decision = .ok s') :
      Run rowBytes cond { s' with reported := s.reported ++ s'.reported }

end Runs

variable {s : LsmShared Key Row} {f : Files Key Row} {id q d : Nat}
  {decision : Nat → PreparedDecision} {flushed here : List (Commit Key Row)}
  {l : List (LogRecord Key Row)}

/-- A commit that may be in the log although nobody was told so. -/
def OpenCommit (s : LsmShared Key Row) (c : Commit Key Row) : Prop :=
  ∃ t, s.transactions c.txnId = some t ∧ t.state = .commitPending ∧
    t.pendingCommitSeq = some c.commitSeq ∧ t.durableBatch = some c.batch

/-- A commit that the coordinator decided at a reopen. -/
def ResolvedCommit (decision : Nat → PreparedDecision) (f : Files Key Row) (c : Commit Key Row) :
    Prop :=
  ∃ d, .prepare c.txnId d ∈ f.wal.records ∧ decision d = .commit

structure ImageOk (s : LsmShared Key Row) (decision : Nat → PreparedDecision) (f : Files Key Row)
    (flushed here : List (Commit Key Row)) : Prop where
  openable : Openable f.wal.records
  txn_lt : ∀ r ∈ f.wal.records, r.txnId < f.txnReservationEnd
  txn_end : s.nextTxnId ≤ f.txnReservationEnd
  commit_end : s.nextCommitSeq ≤ f.commitReservationEnd
  rows : ∀ k v, Live (entrySet f.sstables) k v ↔ Live (commitSet flushed) k v
  sst_lt : ∀ e ∈ f.sstables, e.version < f.commitReservationEnd
  sst_above : ∀ id q, .commit id q ∈ f.wal.records → ∀ e ∈ f.sstables, e.version < q
  flushed_above : ∀ id q, .commit id q ∈ f.wal.records → ∀ c ∈ flushed, c.commitSeq < q
  flushed_gone : ∀ c ∈ flushed, recordsOf c.txnId f.wal.records = []
  here_logged : ∀ c ∈ here, .mutationBatch c.txnId c.batch ∈ f.wal.records ∧
    .commit c.txnId c.commitSeq ∈ f.wal.records
  reported : ∀ c, c ∈ s.reported ↔ c ∈ flushed ∨ c ∈ here
  attributed : ∀ c : Commit Key Row, .commit c.txnId c.commitSeq ∈ f.wal.records →
    .mutationBatch c.txnId c.batch ∈ f.wal.records →
      c ∈ s.reported ∨ OpenCommit s c ∨ ResolvedCommit decision f c
  prepared : ∀ id t, s.transactions id = some t → (t.state = .prepared ∨ t.state = .parkedPrepared) →
    ∃ b d, t.durableBatch = some b ∧ t.preparedDatabaseTxnId = some d ∧
      .mutationBatch id b ∈ f.wal.records ∧ .prepare id d ∈ f.wal.records ∧
        (∀ q, .commit id q ∈ f.wal.records → decision d = .commit) ∧
          (.abort id ∈ f.wal.records → decision d = .abort)
  closed : ∀ id t, s.transactions id = some t → (t.state = .active ∨ t.state = .rolledBack) →
    (∀ q, .commit id q ∉ f.wal.records) ∧ doubt (recordsOf id f.wal.records) = none

lemma doubt_eq_some (h : doubt l = some d) :
    (∃ id, .prepare id d ∈ l) ∧ (∀ id q, .commit id q ∉ l) ∧ ∀ id, .abort id ∉ l := by
  unfold doubt at h
  split at h
  · rename_i hopen
    obtain ⟨hcommit, haborted⟩ := hopen
    refine ⟨?_, fun id q hmem => ?_, fun id hmem => ?_⟩
    · obtain ⟨r, hr, hd⟩ := exists_of_findSome?_eq_some h
      cases r <;> simp [database?] at hd
      subst hd
      exact ⟨_, hr⟩
    · have hnone := findSome?_eq_none_iff.mp hcommit _ hmem
      simp [commit?] at hnone
    · have hnone : ∀ r ∈ l, ¬ r.isAbort = true := by simpa [summary] using haborted
      exact hnone _ hmem rfl
  · cases h

/-- The records of a transaction in a prefix of the log are a prefix of its
records, and all of them when they are synced. -/
lemma recordsOf_take {wal : LsmWal Key Row} {kept : Nat} (hkept : wal.synced ≤ kept) (id : Nat) :
    (∃ rest, recordsOf id wal.records = recordsOf id (wal.records.take kept) ++ rest) ∧
      (wal.Synced id → recordsOf id (wal.records.take kept) = recordsOf id wal.records) := by
  have hsplit : recordsOf id wal.records
      = recordsOf id (wal.records.take kept) ++ recordsOf id (wal.records.drop kept) := by
    rw [← recordsOf_append, take_append_drop]
  refine ⟨⟨_, hsplit⟩, fun hsynced => ?_⟩
  have hnone : recordsOf id (wal.records.drop kept) = [] := by
    refine filter_eq_nil_iff.mpr fun r hr => ?_
    simpa using hsynced r ((drop_sublist_drop_left _ hkept).subset hr)
  rw [hsplit, hnone, append_nil]

section Image

variable {t : Transaction Key Row} (h : FilesOk s f flushed here) {kept : Nat}
  (hkept : f.wal.synced ≤ kept)
include h

/-- A Commit record is reported, or its transaction is waiting for the outcome. -/
lemma FilesOk.image_attributed {c : Commit Key Row}
    (hcommit : .commit c.txnId c.commitSeq ∈ f.wal.records)
    (hbatch : .mutationBatch c.txnId c.batch ∈ f.wal.records) :
    c ∈ s.reported ∨ OpenCommit s c := by
  have hbatch' := batch_mem_recordsOf.mpr hbatch
  rcases h.attributed c.txnId c.commitSeq hcommit with ⟨c', hc', hid, hseq⟩ |
    ⟨t, ht, hstate, hseq⟩
  · have hhere : c' ∈ here := by
      refine ((h.reported c').mp hc').resolve_left fun hflushed => ?_
      have hgone := h.flushed_gone c' hflushed
      rw [hid] at hgone
      simp [hgone] at hbatch'
    have hb := h.shaped c.txnId |>.batch_unique hbatch'
      (batch_mem_recordsOf.mpr (hid ▸ mem_of_mem_take (h.here_logged c' hhere).1))
    obtain ⟨id, q, b⟩ := c
    obtain ⟨id', q', b'⟩ := c'
    obtain rfl : id' = id := hid
    obtain rfl : q' = q := hseq
    obtain rfl : b = b' := hb
    exact .inl hc'
  · refine .inr ⟨t, ht, hstate, hseq, ?_⟩
    have hlogged := h.logged c.txnId t ht
    unfold Logged at hlogged
    rw [hstate] at hlogged
    obtain ⟨b, q, l, hb, -, hhead, hrecords⟩ := hlogged
    have hmem : .mutationBatch c.txnId c.batch ∈ l := by
      rcases hrecords with hrecords | hrecords
      · rwa [hrecords] at hbatch'
      · rw [hrecords] at hbatch'
        simpa using hbatch'
    rw [hb, hhead.batch_eq hmem]

include hkept

lemma FilesOk.image_openable : Openable (f.wal.records.take kept) := by
  have hsub : ∀ r ∈ f.wal.records.take kept, r ∈ f.wal.records := fun r => mem_of_mem_take
  refine ⟨fun id => ?_, fun id id' q hq hq' => ?_, fun id q hq => ?_, fun r hr => ?_⟩
  · obtain ⟨rest, hrest⟩ := (recordsOf_take hkept id).1
    exact (hrest ▸ h.shaped id).of_append
  · exact h.distinct id id' q (hsub _ hq) (hsub _ hq')
  · exact (h.commit_lt id q (hsub _ hq)).1
  · exact h.readable r (hsub r hr)

/-- The two records of a prepared transaction are synced. -/
lemma FilesOk.image_prepared (ht : s.transactions id = some t)
    (hstate : t.state = .prepared ∨ t.state = .parkedPrepared) :
    ∃ b d, t.durableBatch = some b ∧ t.preparedDatabaseTxnId = some d ∧
      recordsOf id (f.wal.records.take kept) = [.mutationBatch id b, .prepare id d] := by
  have hlogged := h.logged id t ht
  unfold Logged at hlogged
  obtain ⟨b, d, hb, hd, hrecords, hsynced⟩ : ∃ b d, t.durableBatch = some b ∧
      t.preparedDatabaseTxnId = some d ∧
        recordsOf id f.wal.records = [.mutationBatch id b, .prepare id d] ∧
          f.wal.Synced id := by
    rcases hstate with hs | hs <;> rw [hs] at hlogged <;> exact hlogged
  exact ⟨b, d, hb, hd, ((recordsOf_take hkept id).2 hsynced).trans hrecords⟩

/-- A transaction that is active or rolled back has at most a batch in the log, or an
Abort record that is synced. -/
lemma FilesOk.image_closed (ht : s.transactions id = some t)
    (hstate : t.state = .active ∨ t.state = .rolledBack) :
    (∀ r ∈ recordsOf id f.wal.records, ∃ b, r = .mutationBatch id b) ∨
      (.abort id ∈ recordsOf id (f.wal.records.take kept) ∧
        ∀ q, .commit id q ∉ recordsOf id f.wal.records) := by
  have hlogged := h.logged id t ht
  unfold Logged at hlogged
  rcases hstate with hs | hs <;> rw [hs] at hlogged
  · rcases hlogged.2 with hl | ⟨-, b, hl⟩ <;> rw [hl]
    all_goals exact .inl (by simp)
  rcases hlogged with hl | ⟨-, b, hl⟩ | ⟨b, l, hhead, hl, hsynced⟩
  · exact .inl (by simp [hl])
  · exact .inl (by simp [hl])
  refine .inr ⟨?_, fun q hq => ?_⟩
  · rw [(recordsOf_take hkept id).2 hsynced, hl]
    simp
  · rw [hl, mem_append] at hq
    exact hq.elim hhead.commit_notMem (by simp)

lemma FilesOk.image :
    ImageOk s decision { f with wal := .reopened (f.wal.records.take kept) } flushed here := by
  have hsub : ∀ r ∈ f.wal.records.take kept, r ∈ f.wal.records := fun r => mem_of_mem_take
  refine {
    openable := h.image_openable hkept
    txn_lt := fun r hr => (h.txn_lt r (hsub r hr)).trans_le h.txn_end
    txn_end := h.txn_end
    commit_end := h.commit_end
    rows := h.rows
    sst_lt := fun e he => (h.sst_lt e he).trans_le h.commit_end
    sst_above := fun id q hq => h.sst_above q (.inl ⟨id, hsub _ hq⟩)
    flushed_above := fun id q hq => h.flushed_above q (.inl ⟨id, hsub _ hq⟩)
    flushed_gone := fun c hc => ?_
    here_logged := fun c hc => ?_
    reported := h.reported
    attributed := fun c hcommit hbatch =>
      (h.image_attributed (hsub _ hcommit) (hsub _ hbatch)).imp_right .inl
    prepared := fun id t ht hstate => ?_
    closed := fun id t ht hstate => ?_ }
  · obtain ⟨rest, hrest⟩ := (recordsOf_take hkept c.txnId).1
    rw [h.flushed_gone c hc] at hrest
    exact (append_eq_nil_iff.mp hrest.symm).1
  · have htake : ∀ r ∈ f.wal.records.take f.wal.synced, r ∈ f.wal.records.take kept :=
      fun r hr => (take_prefix_take_left hkept).subset hr
    exact ⟨htake _ (h.here_logged c hc).1, htake _ (h.here_logged c hc).2⟩
  · obtain ⟨b, d, hb, hd, hkeeps⟩ := h.image_prepared hkept ht hstate
    refine ⟨b, d, hb, hd, batch_mem_recordsOf.mp (hkeeps ▸ by simp),
      prepare_mem_recordsOf.mp (hkeeps ▸ by simp), fun q hq => ?_, fun ha => ?_⟩
    · have hmem : _ ∈ recordsOf id (f.wal.records.take kept) := commit_mem_recordsOf.mpr hq
      simp [hkeeps] at hmem
    · have hmem : _ ∈ recordsOf id (f.wal.records.take kept) := abort_mem_recordsOf.mpr ha
      simp [hkeeps] at hmem
  · have hcases := h.image_closed hkept ht hstate
    refine ⟨fun q hq => ?_, ?_⟩
    · have hmem := commit_mem_recordsOf.mpr (hsub _ hq)
      rcases hcases with honly | ⟨-, hnone⟩
      · obtain ⟨b, hb⟩ := honly _ hmem
        cases hb
      · exact hnone q hmem
    · by_contra hdoubt
      obtain ⟨d, hd⟩ := Option.ne_none_iff_exists'.mp hdoubt
      obtain ⟨⟨id', hprepare⟩, -, hnoabort⟩ := doubt_eq_some hd
      rcases hcases with honly | ⟨habort, -⟩
      · have hmem := mem_recordsOf.mp hprepare
        obtain ⟨b, hb⟩ := honly _ (mem_recordsOf.mpr ⟨hsub _ hmem.1, hmem.2⟩)
        cases hb
      · exact hnoabort id habort

end Image

section Replay

variable {records : List (LogRecord Key Row)} {first : Nat} {done : List Nat}
  {r : Recovery Key Row}

section

variable (h : Replayed decision records first done r) {x : LogRecord Key Row}
include h

/-- A transaction keeps its records, or it was in doubt and has the outcome that
was decided. -/
lemma Replayed.grows (id : Nat) : recordsOf id r.records = recordsOf id records ∨
      ∃ d, doubt (recordsOf id records) = some d ∧
        ((decision d = .commit ∧ ∃ q, first ≤ q ∧
            recordsOf id r.records = recordsOf id records ++ [.commit id q]) ∨
          (decision d = .abort ∧
            recordsOf id r.records = recordsOf id records ++ [.abort id])) := by
  by_cases hid : id ∈ done
  · cases hdoubt : doubt (recordsOf id records) with
    | none => exact .inl (h.settled id hid hdoubt)
    | some d =>
      refine .inr ⟨d, rfl, ?_⟩
      cases hdecision : decision d with
      | commit => exact .inl ⟨rfl, h.committed id hid d hdoubt hdecision⟩
      | abort => exact .inr ⟨rfl, h.aborted id hid d hdoubt hdecision⟩
  · exact .inl (h.others id hid)

lemma Replayed.keeps (hx : x ∈ records) : x ∈ r.records := by
  have hmem := mem_recordsOf.mpr ⟨hx, rfl⟩
  suffices h : x ∈ recordsOf x.txnId r.records from (mem_recordsOf.mp h).1
  rcases h.grows x.txnId with heq | ⟨d, -, ⟨-, q, -, heq⟩ | ⟨-, heq⟩⟩ <;> rw [heq]
  · exact hmem
  all_goals exact mem_append_left _ hmem

lemma Replayed.origin (hx : x ∈ r.records) :
    x ∈ records ∨ ∃ d, doubt (recordsOf x.txnId records) = some d ∧
      ((decision d = .commit ∧ ∃ q, first ≤ q ∧ x = .commit x.txnId q) ∨
        (decision d = .abort ∧ x = .abort x.txnId)) := by
  have hmem := mem_recordsOf.mpr ⟨hx, rfl⟩
  rcases h.grows x.txnId with heq | ⟨d, hd, ⟨hdecision, q, hq, heq⟩ | ⟨hdecision, heq⟩⟩ <;>
    rw [heq] at hmem
  · exact .inl (mem_recordsOf.mp hmem).1
  · rcases mem_append.mp hmem with hmem | hmem
    · exact .inl (mem_recordsOf.mp hmem).1
    · exact .inr ⟨d, hd, .inl ⟨hdecision, q, hq, by simpa using hmem⟩⟩
  · rcases mem_append.mp hmem with hmem | hmem
    · exact .inl (mem_recordsOf.mp hmem).1
    · exact .inr ⟨d, hd, .inr ⟨hdecision, by simpa using hmem⟩⟩

/-- A Commit record of a replayed log was there or was decided. -/
lemma Replayed.commit_origin (hcommit : .commit id q ∈ r.records) : .commit id q ∈ records ∨
      ∃ d, doubt (recordsOf id records) = some d ∧ decision d = .commit ∧ first ≤ q := by
  refine (h.origin hcommit).imp_right ?_
  rintro ⟨d, hd, ⟨hdecision, q', hq', heq⟩ | ⟨-, heq⟩⟩
  · cases heq
    exact ⟨d, hd, hdecision, hq'⟩
  · cases heq

end

lemma doubt_prepare (hdoubt : doubt (recordsOf id records) = some d) : .prepare id d ∈ records := by
  obtain ⟨⟨id', hmem⟩, -, -⟩ := doubt_eq_some hdoubt
  obtain ⟨hmem', hid⟩ := mem_recordsOf.mp hmem
  obtain rfl : id' = id := hid
  exact hmem'

lemma doubt_of_prepare (hshaped : Shaped id (recordsOf id records))
    (hprepare : .prepare id d ∈ records) (hcommit : ∀ q, .commit id q ∉ records)
    (habort : .abort id ∉ records) : doubt (recordsOf id records) = some d := by
  have hnocommit : (summary (recordsOf id records)).commit = none := by
    refine findSome?_eq_none_iff.mpr fun x hx => ?_
    obtain ⟨hmem, hid⟩ := mem_recordsOf.mp hx
    cases x with
    | commit id' q =>
      obtain rfl : id' = id := hid
      exact absurd hmem (hcommit q)
    | _ => rfl
  have hnoabort : (summary (recordsOf id records)).aborted = false := by
    refine any_eq_false.mpr fun x hx => ?_
    obtain ⟨hmem, hid⟩ := mem_recordsOf.mp hx
    cases x with
    | abort id' =>
      obtain rfl : id' = id := hid
      exact absurd hmem habort
    | _ => simp [isAbort]
  have hmem := prepare_mem_recordsOf.mpr hprepare
  rw [doubt, if_pos ⟨hnocommit, hnoabort⟩]
  cases hfind : (summary (recordsOf id records)).prepared with
  | none =>
    have hnone := findSome?_eq_none_iff.mp hfind _ hmem
    simp [database?] at hnone
  | some d' =>
    obtain ⟨x, hx, hd⟩ := exists_of_findSome?_eq_some hfind
    cases x <;> simp only [database?, reduceCtorEq, Option.some.injEq] at hd
    obtain rfl := hd
    obtain ⟨-, hid⟩ := mem_recordsOf.mp hx
    obtain rfl := (hid : _ = id)
    rw [hshaped.prepare_unique hmem hx]

/-- A replay keeps what an image holds: the decision that was logged is the one for the
same database transaction. -/
lemma ImageOk.replayed (h : ImageOk s decision f flushed here)
    (hr : Replayed decision f.wal.records first done r)
    (hsst : ∀ e ∈ f.sstables, e.version < first) (hflushed : ∀ c ∈ flushed, c.commitSeq < first) :
    ImageOk s decision { f with wal := .reopened r.records } flushed here where
  openable := hr.openable
  txn_lt := by
    intro x hx
    rcases hr.origin hx with hx | ⟨d, hd, -⟩
    · exact h.txn_lt x hx
    · have hlt := h.txn_lt _ (doubt_prepare hd)
      exact hlt
  txn_end := h.txn_end
  commit_end := h.commit_end
  rows := h.rows
  sst_lt := h.sst_lt
  sst_above := by
    intro id q hq e he
    rcases hr.commit_origin hq with hq | ⟨d, -, -, hle⟩
    · exact h.sst_above id q hq e he
    · exact (hsst e he).trans_le hle
  flushed_above := by
    intro id q hq c hc
    rcases hr.commit_origin hq with hq | ⟨d, -, -, hle⟩
    · exact h.flushed_above id q hq c hc
    · exact (hflushed c hc).trans_le hle
  flushed_gone := by
    intro c hc
    have hgone := h.flushed_gone c hc
    rcases hr.grows c.txnId with heq | ⟨d, hd, -⟩
    · exact heq.trans hgone
    · rw [hgone] at hd
      cases hd
  here_logged := fun c hc => ⟨hr.keeps (h.here_logged c hc).1, hr.keeps (h.here_logged c hc).2⟩
  reported := h.reported
  attributed := by
    intro c hcommit hbatch
    have hbatch' : .mutationBatch c.txnId c.batch ∈ f.wal.records := by
      refine (hr.origin hbatch).resolve_right ?_
      rintro ⟨d, -, ⟨-, q, -, heq⟩ | ⟨-, heq⟩⟩ <;> cases heq
    rcases hr.commit_origin hcommit with hcommit | ⟨d, hd, hdecision, -⟩
    · refine (h.attributed c hcommit hbatch').imp_right (Or.imp_right ?_)
      rintro ⟨d, hprepare, hdecision⟩
      exact ⟨d, hr.keeps hprepare, hdecision⟩
    · exact .inr (.inr ⟨d, hr.keeps (doubt_prepare hd), hdecision⟩)
  prepared := by
    intro id t ht hstate
    obtain ⟨b, d, hb, hd, hbatch, hprepare, hcommit, habort⟩ := h.prepared id t ht hstate
    have hsame : ∀ d', doubt (recordsOf id f.wal.records) = some d' → d' = d := by
      intro d' hd'
      exact (h.openable.shaped id).prepare_unique
        (prepare_mem_recordsOf.mpr (doubt_prepare hd')) (prepare_mem_recordsOf.mpr hprepare)
    refine ⟨b, d, hb, hd, hr.keeps hbatch, hr.keeps hprepare, fun q hq => ?_, fun ha => ?_⟩
    · rcases hr.commit_origin hq with hq | ⟨d', hd', hdecision, -⟩
      · exact hcommit q hq
      · exact hsame d' hd' ▸ hdecision
    · rcases hr.origin ha with ha | ⟨d', hd', ⟨-, q, -, heq⟩ | ⟨hdecision, -⟩⟩
      · exact habort ha
      · cases heq
      · exact hsame d' hd' ▸ hdecision
  closed := by
    intro id t ht hstate
    obtain ⟨hnone, hdoubt⟩ := h.closed id t ht hstate
    have hsame : recordsOf id r.records = recordsOf id f.wal.records := by
      refine (hr.grows id).resolve_right ?_
      rintro ⟨d, hd, -⟩
      simp [hdoubt] at hd
    refine ⟨fun q hq => hnone q ?_, ?_⟩
    · have hmem := commit_mem_recordsOf.mpr hq
      simp only [reopened] at hmem
      rw [hsame] at hmem
      exact commit_mem_recordsOf.mp hmem
    · simp only [reopened]
      rw [hsame]
      exact hdoubt

end Replay

variable {a : Analysis Key Row}

/-- The sequences a reopen gives out are behind everything in the SSTables. -/
lemma ImageOk.first_above (h : ImageOk s decision f flushed here) (hinv : Inv s)
    (ha : Analyzed f.wal.records a) :
    (∀ e ∈ f.sstables, e.version < allocateRecoveryCommit f a) ∧
      ∀ c ∈ flushed, c.commitSeq < allocateRecoveryCommit f a := by
  rcases (allocateRecoveryCommit_spec (f := f) ha).2.2 with ⟨id, q, hmem, hlt⟩ | hend
  · exact ⟨fun e he => (h.sst_above id q hmem e he).trans hlt,
      fun c hc => (h.flushed_above id q hmem c hc).trans hlt⟩
  · refine ⟨fun e he => (h.sst_lt e he).trans_le hend, fun c hc => ?_⟩
    have hlt := (hinv.reported_lt c ((h.reported c).mpr (.inl hc))).2
    exact (hlt.trans_le h.commit_end).trans_le hend

lemma inspectRecovery_eq (h : Openable f.wal.records) (ha : analyzeWal f.wal.records = .ok a) :
    f.inspectRecovery = .ok (classifyPrepared a) := by
  have hread : ¬ f.wal.records.any tooLarge = true := by simpa using h.readable
  simp only [Files.inspectRecovery, if_neg hread, ha]
  rfl

lemma le_maxCommit (entries : List (VersionedEntry Key Row)) (commits : List (Commit Key Row)) :
    (∀ e ∈ entries, e.version ≤ maxCommit entries commits) ∧
      ∀ c ∈ commits, c.commitSeq ≤ maxCommit entries commits := by
  have hle : ∀ (l : List Nat) (init : Nat), init ≤ l.foldl max init ∧
      ∀ n ∈ l, n ≤ l.foldl max init := by
    intro l
    induction l with
    | nil => simp
    | cons x rest ih =>
      intro init
      obtain ⟨hinit, hrest⟩ := ih (max init x)
      refine ⟨(le_max_left _ _).trans hinit, fun n hn => ?_⟩
      rcases mem_cons.mp hn with rfl | hn
      · exact (le_max_right _ _).trans hinit
      · exact hrest n hn
  have hall := (hle (entries.map (·.version) ++ commits.map (·.commitSeq)) 0).2
  exact ⟨fun e he => hall _ (mem_append_left _ (mem_map_of_mem he)),
    fun c hc => hall _ (mem_append_right _ (mem_map_of_mem hc))⟩

variable {records : List (LogRecord Key Row)} {first : Nat} {r : Recovery Key Row}

/-- In a replayed log every transaction with records was gone over. -/
lemma Replayed.mem_commits_of_all (ha : Analyzed records a)
    (hr : Replayed decision records first a.ids.reverse r) (c : Commit Key Row) :
    c ∈ r.commits ↔ .commit c.txnId c.commitSeq ∈ r.records ∧
      .mutationBatch c.txnId c.batch ∈ r.records := by
  rw [hr.mem_commits]
  refine ⟨fun h => h.2, fun h => ⟨?_, h⟩⟩
  rw [mem_reverse, ha.mem_ids]
  intro hnil
  have hsame : recordsOf c.txnId r.records = recordsOf c.txnId records := by
    refine (hr.grows c.txnId).resolve_right ?_
    rintro ⟨d, hd, -⟩
    rw [hnil] at hd
    cases hd
  have hmem := commit_mem_recordsOf.mpr h.1
  rw [hsame, hnil] at hmem
  simp at hmem

lemma Replayed.unprepare {done : List Nat} (hr : Replayed decision records first done r)
    (h : .prepare id d ∈ r.records) : .prepare id d ∈ records := by
  refine (hr.origin h).resolve_right ?_
  rintro ⟨d', -, ⟨-, q, -, heq⟩ | ⟨-, heq⟩⟩ <;> cases heq

/-- A transaction that is prepared and resolved to commit has a Commit record
after the replay. -/
lemma Replayed.resolved (ha : Analyzed records a)
    (hr : Replayed decision records first a.ids.reverse r) (hopen : Openable records)
    (hprepare : .prepare id d ∈ records) (hdecision : decision d = .commit)
    (habort : .abort id ∉ records) : ∃ q, .commit id q ∈ r.records := by
  by_cases hcommit : ∃ q, .commit id q ∈ records
  · obtain ⟨q, hq⟩ := hcommit
    exact ⟨q, hr.keeps hq⟩
  have hdone : id ∈ a.ids.reverse := by
    rw [mem_reverse, ha.mem_ids]
    exact ne_nil_of_mem (prepare_mem_recordsOf.mpr hprepare)
  have hdoubt := doubt_of_prepare (hopen.shaped id) hprepare (fun q hq => hcommit ⟨q, hq⟩) habort
  obtain ⟨q, -, heq⟩ := hr.committed id hdone d hdoubt hdecision
  refine ⟨q, commit_mem_recordsOf.mp ?_⟩
  simp [heq]

lemma Inv.create : Inv (LsmShared.create : LsmShared Key Row) := by
  refine {
    current := ⟨[], [], {
      shaped := fun _ => .nil
      logged := by simp [LsmShared.create]
      synced_le := le_rfl
      distinct := by simp [DistinctCommits, LsmShared.create, LsmWal.create]
      commit_lt := by simp [LsmShared.create, LsmWal.create]
      commit_end := by simp [LsmShared.create]
      txn_lt := by simp [LsmShared.create, LsmWal.create]
      txn_end := by simp [LsmShared.create]
      readable := by simp [LsmShared.create, LsmWal.create]
      attributed := by simp [LsmShared.create, LsmWal.create]
      rows := by simp [Live, entrySet, commitSet, LsmShared.create]
      sst_lt := by simp [LsmShared.create]
      sst_above := by simp [LsmShared.create]
      flushed_above := by simp
      flushed_gone := by simp
      here_logged := by simp
      reported := by simp [LsmShared.create] }, by simp [LsmShared.create]⟩
    fallback := by simp [LsmShared.create]
    commit_pos := Nat.one_pos
    txn_lt := by simp [LsmShared.create]
    seq_lt := by simp [LsmShared.create]
    seq_unique := by simp [LsmShared.create]
    seq_logged := by simp [LsmShared.create]
    reported_lt := by simp [LsmShared.create]
    reported_decided := by simp [LsmShared.create]
    decided_reported := by simp [LsmShared.create]
    held := by simp [LsmShared.create]
    owner := by simp [LsmShared.create]
    registered := by simp [LsmShared.create]
    abandoned := by simp [LsmShared.create] }

section Reopen

variable [DecidableEq Key] [DecidableEq Row]

lemma Image.ok (hinv : Inv s) (h : Image s decision f) :
    ∃ flushed here, ImageOk s decision f flushed here := by
  induction h with
  | @crash f hf kept hkept =>
    rcases hf with rfl | hf
    · obtain ⟨flushed, here, hok⟩ := hinv.filesOk
      exact ⟨flushed, here, hok.image hkept⟩
    · obtain ⟨-, flushed, here, hok⟩ := hinv.fallback f hf
      exact ⟨flushed, here, hok.image hkept⟩
  | @again f h prepared hprepared count r hr ih =>
    obtain ⟨flushed, here, hok⟩ := ih
    obtain ⟨a, r', hanalyze, ha, hrecover, hreplayed⟩ :=
      Files.recover_eq decision hok.openable count
    obtain rfl : classifyPrepared a = prepared := by
      simpa [inspectRecovery_eq hok.openable hanalyze] using hprepared
    obtain rfl : r' = r := by simpa [hrecover] using hr
    obtain ⟨hsst, hflushed⟩ := hok.first_above hinv ha
    exact ⟨flushed, here, hok.replayed hreplayed hsst hflushed⟩

/-- The log of a full reopen: every transaction in it was gone over. -/
lemma ImageOk.reopen (h : ImageOk s decision f flushed here) : ∃ a r, Analyzed f.wal.records a ∧
      Replayed decision f.wal.records (allocateRecoveryCommit f a) a.ids.reverse r ∧
        f.reopen decision = .ok {
          files := ⟨f.sstables, f.txnReservationEnd,
            max f.commitReservationEnd (maxCommit f.sstables r.commits + 1), .reopened r.records⟩
          fallback := none
          memtable := r.memtable
          nextTxnId := f.txnReservationEnd
          nextCommitSeq := max f.commitReservationEnd (maxCommit f.sstables r.commits + 1)
          recoveryRequired := false
          writer := none
          parkedPrepared := []
          outstanding := []
          transactions := fun _ => none
          reported := r.commits } := by
  obtain ⟨a, r, hanalyze, ha, hrecover, hreplayed⟩ :=
    Files.recover_eq decision h.openable f.wal.records.length
  -- There are at most as many transactions as records.
  have hall : a.ids.take f.wal.records.length = a.ids := by
    refine take_of_length_le ?_
    have hsub : a.ids ⊆ f.wal.records.map txnId := by
      intro id hid
      obtain ⟨x, hx⟩ := exists_mem_of_ne_nil _ ((ha.mem_ids id).mp hid)
      obtain ⟨hmem, rfl⟩ := mem_recordsOf.mp hx
      exact mem_map_of_mem hmem
    have hle := (ha.nodup_ids.subperm hsub).length_le
    simpa using hle
  rw [hall] at hreplayed
  refine ⟨a, r, ha, hreplayed, ?_⟩
  simp only [Files.reopen, inspectRecovery_eq h.openable hanalyze]
  change f.openWithResolutions (resolutionsFor decision (classifyPrepared a)) = _
  simp only [Files.openWithResolutions, hrecover]
  rfl

/-- A reopened image satisfies the invariant again. -/
lemma ImageOk.inv_reopen (h : ImageOk s decision f flushed here) (hinv : Inv s)
    {s' : LsmShared Key Row} (hopen : f.reopen decision = .ok s') :
    Inv { s' with reported := s.reported ++ s'.reported } := by
  obtain ⟨a, r, ha, hr, heq⟩ := h.reopen
  obtain rfl := Except.ok.inj (heq.symm.trans hopen)
  obtain ⟨hsst, hflushed⟩ := h.first_above hinv ha
  have himage := h.replayed hr hsst hflushed
  have hcommits := hr.mem_commits_of_all ha
  have hbatch : ∀ id q, .commit id q ∈ r.records → ∃ b, ⟨id, q, b⟩ ∈ r.commits := by
    intro id q hq
    obtain ⟨b, l, hhead, hl⟩ := (hr.openable.shaped id).of_commit (commit_mem_recordsOf.mpr hq)
    refine ⟨b, (hcommits ⟨id, q, b⟩).mpr ⟨hq, batch_mem_recordsOf.mp ?_⟩⟩
    rw [hl]
    simp [hhead.batch_mem]
  have hhere : ∀ c ∈ here, c ∈ r.commits :=
    fun c hc => (hcommits c).mpr ⟨(himage.here_logged c hc).2, (himage.here_logged c hc).1⟩
  have hreported : ∀ c, c ∈ s.reported ++ r.commits ↔ c ∈ flushed ∨ c ∈ r.commits := by
    intro c
    rw [mem_append, h.reported]
    exact ⟨fun hc => hc.elim (Or.imp_right (hhere c)) .inr, Or.imp_left .inl⟩
  have hmax := le_maxCommit f.sstables r.commits
  have hlt : ∀ id q, .commit id q ∈ r.records →
      q < max f.commitReservationEnd (maxCommit f.sstables r.commits + 1) := by
    intro id q hq
    obtain ⟨b, hb⟩ := hbatch id q hq
    exact (Nat.lt_succ_of_le (hmax.2 _ hb)).trans_le (le_max_right _ _)
  refine {
    current := ⟨flushed, r.commits, {
      shaped := hr.openable.shaped
      logged := by simp
      synced_le := le_rfl
      distinct := hr.openable.distinct
      commit_lt := fun id q hq => ⟨hr.openable.pos id q hq, hlt id q hq⟩
      commit_end := le_rfl
      txn_lt := himage.txn_lt
      txn_end := le_rfl
      readable := hr.openable.readable
      attributed := fun id q hq => ?_
      rows := h.rows
      sst_lt := fun e he => (h.sst_lt e he).trans_le (le_max_left _ _)
      sst_above := fun q hq => ?_
      flushed_above := fun q hq => ?_
      flushed_gone := himage.flushed_gone
      here_logged := fun c hc => ?_
      reported := hreported }, hr.mem_memtable⟩
    fallback := by simp
    commit_pos := (Nat.succ_pos _).trans_le (le_max_right _ _)
    txn_lt := by simp
    seq_lt := by simp
    seq_unique := by simp
    seq_logged := by simp
    reported_lt := fun c hc => ?_
    reported_decided := by simp
    decided_reported := by simp
    held := by simp
    owner := by simp
    registered := by simp
    abandoned := by simp }
  · obtain ⟨b, hb⟩ := hbatch id q hq
    exact .inl ⟨_, (hreported _).mpr (.inr hb), rfl, rfl⟩
  · rcases hq with ⟨id, hq⟩ | ⟨id, t, ht, -⟩
    · exact himage.sst_above id q hq
    · simp at ht
  · rcases hq with ⟨id, hq⟩ | ⟨id, t, ht, -⟩
    · exact himage.flushed_above id q hq
    · simp at ht
  · simp only [reopened, take_length]
    exact ⟨((hcommits c).mp hc).2, ((hcommits c).mp hc).1⟩
  · rcases mem_append.mp hc with hc | hc
    · obtain ⟨htxn, hseq⟩ := hinv.reported_lt c hc
      exact ⟨htxn.trans_le h.txn_end, (hseq.trans_le h.commit_end).trans_le (le_max_left _ _)⟩
    · exact ⟨himage.txn_lt _ ((hcommits c).mp hc).1, hlt _ _ ((hcommits c).mp hc).1⟩

variable {rowBytes : Row → Nat}

lemma Run.inv (h : Run rowBytes (fun s op => op.Admissible rowBytes s) s) : Inv s := by
  induction h with
  | create => exact .create
  | call h op hop ih => exact ih.call hop
  | reopen h decision himage hopen ih =>
    obtain ⟨flushed, here, hok⟩ := himage.ok ih
    exact hok.inv_reopen ih hopen

/-- After any run in which no writer is admitted by a flush while a parked
transaction is undecided, and in which no batch is logged that decoding refuses,
every image a crash may leave opens with the coordinator's decisions. The rows
are then those of the commits that were reported and of the recovered ones, each
of which was reported, waits for its outcome or is resolved to commit. A prepared
transaction follows the decision, and one that was rolled back or wrote nothing
is not there. -/
theorem Run.reopen_exact
    (hrun : Run rowBytes (fun s op => op.Admissible rowBytes s) s) (himage : Image s decision f) :
    ∃ s', f.reopen decision = .ok s' ∧
      (∀ k v, Live (entrySet (s'.files.sstables ++ s'.memtable)) k v ↔
        Live (commitSet (s.reported ++ s'.reported)) k v) ∧
      (∀ c ∈ s'.reported, c ∈ s.reported ∨ OpenCommit s c ∨ ResolvedCommit decision f c) ∧
      (∀ id t, s.transactions id = some t → t.state.decided = true → t.durableBatch = none ∨
        ∃ b q, t.durableBatch = some b ∧ ⟨id, q, b⟩ ∈ s.reported) ∧
      (∀ id t, s.transactions id = some t →
        (t.state = .prepared ∨ t.state = .parkedPrepared) →
        ∃ b d, t.durableBatch = some b ∧ t.preparedDatabaseTxnId = some d ∧
          (decision d = .commit → ∃ q, ⟨id, q, b⟩ ∈ s'.reported) ∧
          (decision d = .abort → ∀ c ∈ s.reported ++ s'.reported, c.txnId ≠ id)) ∧
      ∀ id t, s.transactions id = some t → (t.state = .active ∨ t.state = .rolledBack) →
        ∀ c ∈ s.reported ++ s'.reported, c.txnId ≠ id := by
  have hinv := hrun.inv
  obtain ⟨flushed, here, h⟩ := himage.ok hinv
  obtain ⟨a, r, ha, hr, heq⟩ := h.reopen
  obtain ⟨hsst, hflushed⟩ := h.first_above hinv ha
  have himage' := h.replayed hr hsst hflushed
  have hcommits := hr.mem_commits_of_all ha
  have hinv' := h.inv_reopen hinv heq
  have hundecided : ∀ id t, s.transactions id = some t → t.state.decided = false →
      (∀ q, .commit id q ∉ r.records) → ∀ c ∈ s.reported ++ r.commits, c.txnId ≠ id := by
    intro id t ht hstate hnone c hc hid
    rcases mem_append.mp hc with hc | hc
    · exact hinv.not_reported ht hstate hc hid
    · exact hnone _ (hid ▸ ((hcommits c).mp hc).1)
  refine ⟨_, heq, ?_, ?_, ?_, ?_, ?_⟩
  · intro k v
    obtain ⟨flushed', here', hok, hmem⟩ := hinv'.current
    have hunion : commitSet (s.reported ++ r.commits) = commitSet flushed' ∪ commitSet here' := by
      rw [← commitSet_append]
      ext e
      simp only [commitSet, Set.mem_ofPred_eq, mem_append]
      refine exists_congr fun c => and_congr_left fun _ => ?_
      rw [← mem_append]
      exact hok.reported c
    rw [hunion, entrySet_append, entrySet_eq_commitSet hmem]
    exact hok.live_union hok.here_inUse
  · intro c hc
    obtain ⟨hcommit, hbatch⟩ := (hcommits c).mp hc
    refine (himage'.attributed c hcommit hbatch).imp_right (Or.imp_right ?_)
    rintro ⟨d, hprepare, hdecision⟩
    exact ⟨d, hr.unprepare hprepare, hdecision⟩
  · intro id t ht hdecided
    refine (hinv.decided_reported id t ht hdecided).imp_right ?_
    rintro ⟨b, q, hb, -, hc⟩
    exact ⟨b, q, hb, hc⟩
  · intro id t ht hstate
    obtain ⟨b, d, hb, hd, hbatch, hprepare, hcommit, habort⟩ := himage'.prepared id t ht hstate
    have hopen : t.state.decided = false := by rcases hstate with hs | hs <;> rw [hs] <;> rfl
    refine ⟨b, d, hb, hd, fun hdecision => ?_, fun hdecision => ?_⟩
    · obtain ⟨q, hq⟩ := hr.resolved ha h.openable (hr.unprepare hprepare) hdecision
        fun hmem => by simpa [hdecision] using habort (hr.keeps hmem)
      exact ⟨q, (hcommits ⟨id, q, b⟩).mpr ⟨hq, hbatch⟩⟩
    · refine hundecided id t ht hopen fun q hq => ?_
      simp [hcommit q hq] at hdecision
  · intro id t ht hstate
    have hopen : t.state.decided = false := by rcases hstate with hs | hs <;> rw [hs] <;> rfl
    exact hundecided id t ht hopen (himage'.closed id t ht hstate).1

/-- A transaction is prepared, and the store reopens with its commit decided. -/
theorem Run.reopen_exact_prepared :
    ∃ (s s' : LsmShared Nat Nat) (f : Files Nat Nat) (c : Commit Nat Nat),
      Run (fun row => row) (fun s op => op.Admissible (fun row => row) s) s ∧
        Image s (fun _ => .commit) f ∧ f.reopen (fun _ => .commit) = .ok s' ∧
          c ∈ s'.reported ∧ c.batch.mutations = [(7, some 70)] := by
  have hrun : Run (fun row => row) (fun s op => op.Admissible (fun row => row) s)
      ((((LsmShared.create.call (fun row => row) (.beginTransaction .installed)).call
        (fun row => row) (.acquireWriter 1 .installed true)).call
        (fun row => row) (.stageWrites 1 ⟨[(7, some 70)], by decide⟩)).call
        (fun row => row) (.prepare 1 9 .written .written true)) := by
    refine (((Run.create.call _ trivial).call _ ?_).call _ trivial).call _ ?_
    · intro hflush
      cases hflush
    · intro t ht hactive
      obtain rfl := Option.some.inj ht
      decide
  obtain ⟨s, hs⟩ : ∃ s, s = (((LsmShared.create.call (fun row => row)
      (.beginTransaction .installed)).call (fun row => row) (.acquireWriter 1 .installed true)).call
      (fun row => row) (.stageWrites 1 ⟨[(7, some 70)], by decide⟩)).call
      (fun row => row) (.prepare 1 9 .written .written true) := ⟨_, rfl⟩
  rw [← hs] at hrun
  have hsynced : s.files.wal.synced ≤ 2 := by rw [hs]; exact le_rfl
  have himage : Image s (fun _ => .commit) _ := .crash (.inl rfl) 2 hsynced
  obtain ⟨s', hopen, -, -, -, hprepared, -⟩ := hrun.reopen_exact himage
  obtain ⟨t, ht, hstate, hbatch⟩ : ∃ t, s.transactions 1 = some t ∧ t.state = .prepared ∧
      t.durableBatch = some ⟨[(7, some 70)], by decide⟩ := by
    rw [hs]
    exact ⟨_, rfl, rfl, rfl⟩
  obtain ⟨b, d, hb, -, hcommit, -⟩ := hprepared 1 t ht (.inl hstate)
  obtain rfl := Option.some.inj (hbatch.symm.trans hb)
  obtain ⟨q, hq⟩ := hcommit rfl
  exact ⟨s, s', _, _, hrun, himage, hopen, hq, rfl⟩

/-- At every point of a run, across flushes, compactions, crashes and reopens, the
store shows exactly the rows of the reported commits, and none of a transaction
that is not decided. -/
theorem Run.rows_reported (hrun : Run rowBytes (fun s op => op.Admissible rowBytes s) s) :
    (∀ k v, Live (entrySet (s.files.sstables ++ s.memtable)) k v ↔
      Live (commitSet s.reported) k v) ∧
    ∀ id t, s.transactions id = some t → t.state.decided = false →
      ∀ c ∈ s.reported, c.txnId ≠ id := by
  have hinv := hrun.inv
  obtain ⟨flushed, here, hok, hmem⟩ := hinv.current
  refine ⟨fun k v => ?_, fun id t ht hopen c hc => hinv.not_reported ht hopen hc⟩
  have hunion : commitSet s.reported = commitSet flushed ∪ commitSet here := by
    rw [← commitSet_append]
    ext e
    exact exists_congr fun c => and_congr_left fun _ => (hok.reported c).trans mem_append.symm
  rw [hunion, entrySet_append, entrySet_eq_commitSet hmem]
  exact hok.live_union hok.here_inUse

lemma run_one_commit : ∃ s : LsmShared Nat Nat,
    Run (fun row => row) (fun s op => op.Admissible (fun row => row) s) s ∧
      s.reported.length = 1 := by
  refine ⟨_, (((Run.create.call (.beginTransaction .installed) trivial).call
    (.acquireWriter 1 .installed true) nofun).call
    (.stageWrites 1 ⟨[(7, some 70)], by decide⟩) trivial).call
    (.commit 1 .installed .written .written true) ?_, rfl⟩
  intro t ht hactive
  obtain rfl := Option.some.inj ht
  decide

theorem Run.rows_reported_commit : ∃ s : LsmShared Nat Nat, s.reported.length = 1 ∧
      ∀ k v, Live (entrySet (s.files.sstables ++ s.memtable)) k v ↔
        Live (commitSet s.reported) k v := by
  obtain ⟨s, hrun, hone⟩ := run_one_commit
  exact ⟨s, hone, hrun.rows_reported.1⟩

/-- In every run one live handle at most owns the writer, a transaction whose outcome
is open owns it or is parked, and no such transaction is there when maintenance starts. -/
theorem Run.writer_exclusive (hrun : Run rowBytes (fun s op => op.Admissible rowBytes s) s) :
    (∀ id id' t t', s.transactions id = some t → s.transactions id' = some t' →
      t.dropped = false → t'.dropped = false → t.ownsWriter = true → t'.ownsWriter = true →
        id = id') ∧
    (∀ id t, s.transactions id = some t → t.state.unresolved = true →
      s.writer = some id ∧ t.ownsWriter = true ∨ id ∈ s.parkedPrepared) ∧
    (s.maintenanceSafe = true →
      ∀ id t, s.transactions id = some t → t.state.unresolved = false) := by
  have hinv := hrun.inv
  refine ⟨?_, fun id t ht hopen => ?_, fun hsafe => (hinv.settled hsafe).2⟩
  · intro id id' t t' ht ht' hlive hlive' hown hown'
    have hwriter := hinv.owner id t ht hlive hown
    exact Option.some.inj (hwriter.symm.trans (hinv.owner id' t' ht' hlive' hown'))
  · exact (hinv.held id t ht hopen).imp_left fun hheld => ⟨hheld.1, hheld.2.1⟩

/-- The calls that lose the records of transaction 1: it is parked, transaction 2
fills the memtable, and the admission of transaction 3 flushes it. -/
def flushWhileParked : List (Op Nat Nat) :=
  [.beginTransaction .installed, .acquireWriter 1 .installed true,
    .stageWrites 1 ⟨[(0, some 5)], by decide⟩, .prepare 1 9 .written .written true,
    .parkPrepared 1 9 false,
    .beginTransaction .installed, .acquireWriter 2 .installed true,
    .stageWrites 2 ⟨(range 70).map fun k => (k + 1, some 60000), by decide +kernel⟩,
    .commit 2 .installed .written .written true,
    .beginTransaction .installed, .acquireWriter 3 .installed true, .rollback 3,
    .commitPrepared 1 9 .installed .written true]

/-- Transaction 1 is prepared and parked while transaction 2 writes: one of them owns
the writer, the other is in the deque. -/
theorem Run.writer_exclusive_parked : ∃ s : LsmShared Nat Nat, s.writer = some 2 ∧
    (∃ t, s.transactions 1 = some t ∧ t.state.unresolved = true) ∧
    (∀ id t, s.transactions id = some t → t.dropped = false → t.ownsWriter = true → id = 2) ∧
    1 ∈ s.parkedPrepared := by
  have hrun : Run (fun row : Nat => row) (fun s op => op.Admissible (fun row => row) s)
      ((flushWhileParked.take 7).foldl (LsmShared.call fun row => row) LsmShared.create) := by
    refine (((((((Run.create.call (.beginTransaction .installed) trivial).call
      (.acquireWriter 1 .installed true) nofun).call
      (.stageWrites 1 ⟨[(0, some 5)], by decide⟩) trivial).call
      (.prepare 1 9 .written .written true) fun t ht _ => ?_).call (.parkPrepared 1 9 false)
      trivial).call (.beginTransaction .installed) trivial).call (.acquireWriter 2 .installed true)
      nofun)
    obtain rfl := Option.some.inj ht
    decide
  obtain ⟨hone, hheld, -⟩ := hrun.writer_exclusive
  refine ⟨(flushWhileParked.take 7).foldl (LsmShared.call fun row => row) LsmShared.create, rfl,
    ⟨_, rfl, rfl⟩, fun id t ht hlive hown => ?_, ?_⟩
  · exact hone id 2 t _ ht rfl hlive rfl hown rfl
  · exact (hheld 1 _ rfl rfl).resolve_left fun h => by cases h.1

lemma Run.calls (h : Run rowBytes (fun _ _ => True) s) (ops : List (Op Key Row)) :
    Run rowBytes (fun _ _ => True) (ops.foldl (LsmShared.call rowBytes) s) := by
  induction ops generalizing s with
  | nil => exact h
  | cons op rest ih => exact ih (h.call op trivial)

/-- The commit of transaction 1 is reported, and no reopen succeeds. -/
theorem Run.reopen_fails :
    ∃ (s : LsmShared Nat Nat) (f : Files Nat Nat) (c : Commit Nat Nat),
      Run (fun row => row) (fun _ _ => True) s ∧ c ∈ s.reported ∧ c.txnId = 1 ∧
        c.batch.mutations = [(0, some 5)] ∧ ∀ decision, Image s decision f ∧
          f.reopen decision = .error (.invalidWal "invalid or duplicate commit state") := by
  have hlog : (flushWhileParked.foldl (LsmShared.call fun row => row)
      LsmShared.create).files.wal = ⟨[.commit 1 2], 1, false⟩ := by rfl
  refine ⟨_, _, ⟨1, 2, ⟨[(0, some 5)], by decide⟩⟩, Run.create.calls flushWhileParked, ?_, rfl, rfl,
    fun decision => ⟨.crash (.inl rfl) 1 ?_, ?_⟩⟩
  · have hreported : ∃ c, (flushWhileParked.foldl (LsmShared.call fun row => row)
        LsmShared.create).reported = [c, ⟨1, 2, ⟨[(0, some 5)], by decide⟩⟩] := ⟨_, rfl⟩
    obtain ⟨c, hreported⟩ := hreported
    simp [hreported]
  · rw [hlog]
  · simp only [hlog]
    rfl

end Reopen

end Netbadb.Lsm.Engine
