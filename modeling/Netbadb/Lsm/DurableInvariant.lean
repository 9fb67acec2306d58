import Netbadb.Lsm.LogShape
import Netbadb.Library.Versions
import Netbadb.Library.Outcome

/-!
What holds between the calls on an LSM store. The log has, for every
transaction, the records its state calls for, and they are synced where a caller
was told so; the commits that were reported are exactly those of the SSTables
and of the memtable, and the latter are synced in the log. The same holds of the
files of the manifest before, while the rename that replaced it may be lost.

Every call moves one transaction at a time: it gets a new state and perhaps a
record. `Inv.advance` says once what such a move needs.
-/

namespace Netbadb.Lsm.Engine

open Versions List Outcome

variable {Key Row : Type}

def TransactionState.unresolved : TransactionState → Bool
  | .preparePending | .prepared | .parkedPreparePending | .parkedPrepared
  | .commitPending | .rollbackPending => true
  | _ => false

def TransactionState.isParked : TransactionState → Bool
  | .parkedPreparePending | .parkedPrepared => true
  | _ => false

def TransactionState.decided : TransactionState → Bool
  | .changeFinalizePending | .committed => true
  | _ => false

def TransactionState.ended : TransactionState → Bool
  | .committed | .rolledBack => true
  | _ => false

/-- Every record of the transaction survives a crash. -/
def LsmWal.Synced (wal : LsmWal Key Row) (id : Nat) : Prop :=
  ∀ r ∈ wal.records.drop wal.synced, r.txnId ≠ id

/-- The records that the state of a transaction calls for. A poisoned log may
hold a batch whose append was reported to have failed. -/
def Logged (wal : LsmWal Key Row) (id : Nat) (t : Transaction Key Row) : Prop :=
  match t.state with
  | .active =>
    t.durableBatch = none ∧ (recordsOf id wal.records = []
      ∨ wal.poisoned = true ∧ ∃ b, recordsOf id wal.records = [.mutationBatch id b])
  | .preparePending => ∃ b d, t.durableBatch = some b ∧ t.preparedDatabaseTxnId = some d ∧
      (recordsOf id wal.records = [.mutationBatch id b] ∨
        recordsOf id wal.records = [.mutationBatch id b, .prepare id d])
  | .parkedPreparePending => ∃ b d, t.durableBatch = some b ∧ t.preparedDatabaseTxnId = some d ∧
      recordsOf id wal.records = [.mutationBatch id b, .prepare id d]
  | .prepared | .parkedPrepared =>
    ∃ b d, t.durableBatch = some b ∧ t.preparedDatabaseTxnId = some d ∧
      recordsOf id wal.records = [.mutationBatch id b, .prepare id d] ∧ wal.Synced id
  | .commitPending => ∃ b q l, t.durableBatch = some b ∧ t.pendingCommitSeq = some q ∧
      Head id b l ∧
        (recordsOf id wal.records = l ∨ recordsOf id wal.records = l ++ [.commit id q])
  | .changeFinalizePending | .committed =>
    recordsOf id wal.records = [] ∨
      ∃ b q l, t.durableBatch = some b ∧ t.pendingCommitSeq = some q ∧ Head id b l ∧
        recordsOf id wal.records = l ++ [.commit id q] ∧ wal.Synced id
  | .rollbackPending => ∃ b l, t.durableBatch = some b ∧ Head id b l ∧
      (recordsOf id wal.records = l ∨ recordsOf id wal.records = l ++ [.abort id])
  | .rolledBack =>
    recordsOf id wal.records = []
      ∨ (wal.poisoned = true ∧ ∃ b, recordsOf id wal.records = [.mutationBatch id b])
      ∨ ∃ b l, Head id b l ∧ recordsOf id wal.records = l ++ [.abort id] ∧ wal.Synced id

def entrySet (entries : List (VersionedEntry Key Row)) : Set (Key × ℕ × Option Row) :=
  {e | ⟨e.1, e.2.1, e.2.2⟩ ∈ entries}

def commitSet (commits : List (Commit Key Row)) : Set (Key × ℕ × Option Row) :=
  {e | ∃ c ∈ commits, ⟨e.1, e.2.1, e.2.2⟩ ∈ c.entries}

lemma version_of_mem_entries {c : Commit Key Row} {e : VersionedEntry Key Row}
    (h : e ∈ c.entries) : e.version = c.commitSeq := by
  obtain ⟨m, -, rfl⟩ := mem_map.mp h
  rfl

/-- A transaction with an open outcome has the writer, or it is in the deque. -/
def Held (writer : Option Nat) (parked : List Nat) (id : Nat) (t : Transaction Key Row) : Prop :=
  (writer = some id ∧ t.ownsWriter = true ∧ t.state.isParked = false) ∨ id ∈ parked

def InUse (s : LsmShared Key Row) (f : Files Key Row) (q : Nat) : Prop :=
  (∃ id, .commit id q ∈ f.wal.records) ∨
    ∃ id t, s.transactions id = some t ∧ t.state = .commitPending ∧ t.pendingCommitSeq = some q

/-- What a crash would find: `flushed` are the commits of the SSTables and
`here` those of the memtable. -/
structure FilesOk (s : LsmShared Key Row) (f : Files Key Row)
    (flushed here : List (Commit Key Row)) : Prop where
  shaped : ∀ id, Shaped id (recordsOf id f.wal.records)
  logged : ∀ id t, s.transactions id = some t → Logged f.wal id t
  synced_le : f.wal.synced ≤ f.wal.records.length
  distinct : DistinctCommits f.wal.records
  commit_lt : ∀ id q, .commit id q ∈ f.wal.records → 0 < q ∧ q < s.nextCommitSeq
  commit_end : s.nextCommitSeq ≤ f.commitReservationEnd
  txn_lt : ∀ r ∈ f.wal.records, r.txnId < s.nextTxnId
  txn_end : s.nextTxnId ≤ f.txnReservationEnd
  readable : ∀ r ∈ f.wal.records, r.tooLarge = false
  attributed : ∀ id q, .commit id q ∈ f.wal.records →
    (∃ c ∈ s.reported, c.txnId = id ∧ c.commitSeq = q) ∨
      ∃ t, s.transactions id = some t ∧ t.state = .commitPending ∧ t.pendingCommitSeq = some q
  rows : ∀ k v, Live (entrySet f.sstables) k v ↔ Live (commitSet flushed) k v
  sst_lt : ∀ e ∈ f.sstables, e.version < s.nextCommitSeq
  sst_above : ∀ q, InUse s f q → ∀ e ∈ f.sstables, e.version < q
  flushed_above : ∀ q, InUse s f q → ∀ c ∈ flushed, c.commitSeq < q
  flushed_gone : ∀ c ∈ flushed, recordsOf c.txnId f.wal.records = []
  here_logged : ∀ c ∈ here, .mutationBatch c.txnId c.batch ∈ f.wal.records.take f.wal.synced ∧
    .commit c.txnId c.commitSeq ∈ f.wal.records.take f.wal.synced
  reported : ∀ c, c ∈ s.reported ↔ c ∈ flushed ∨ c ∈ here

structure Inv (s : LsmShared Key Row) : Prop where
  current : ∃ flushed here, FilesOk s s.files flushed here ∧
    ∀ e, e ∈ s.memtable ↔ ∃ c ∈ here, e ∈ c.entries
  fallback : ∀ f, s.fallback = some f →
    s.recoveryRequired = true ∧ ∃ flushed here, FilesOk s f flushed here
  commit_pos : 0 < s.nextCommitSeq
  txn_lt : ∀ id t, s.transactions id = some t → id < s.nextTxnId
  seq_lt : ∀ id t q, s.transactions id = some t → t.pendingCommitSeq = some q →
    0 < q ∧ q < s.nextCommitSeq
  seq_unique : ∀ id id' t t' q, s.transactions id = some t → s.transactions id' = some t' →
    t.pendingCommitSeq = some q → t'.pendingCommitSeq = some q → id = id'
  seq_logged : ∀ id id' t q, s.transactions id = some t → t.pendingCommitSeq = some q →
    .commit id' q ∈ s.files.wal.records → id' = id
  reported_lt : ∀ c ∈ s.reported, c.txnId < s.nextTxnId ∧ c.commitSeq < s.nextCommitSeq
  reported_decided : ∀ c ∈ s.reported, ∀ t, s.transactions c.txnId = some t →
    t.state.decided = true
  decided_reported : ∀ id t, s.transactions id = some t → t.state.decided = true →
    t.durableBatch = none ∨
      ∃ b q, t.durableBatch = some b ∧ t.pendingCommitSeq = some q ∧ ⟨id, q, b⟩ ∈ s.reported
  held : ∀ id t, s.transactions id = some t → t.state.unresolved = true →
    Held s.writer s.parkedPrepared id t
  owner : ∀ id t, s.transactions id = some t → t.dropped = false → t.ownsWriter = true →
    s.writer = some id
  registered : ∀ id t, s.transactions id = some t → t.dropped = false → t.state.ended = false →
    id ∈ s.outstanding
  abandoned : ∀ id t, s.transactions id = some t → t.dropped = true → t.state.unresolved = true →
    s.recoveryRequired = true

variable {s s' : LsmShared Key Row} {f : Files Key Row} {id : Nat} {t t' : Transaction Key Row}
  {flushed here : List (Commit Key Row)} {extra : List (LogRecord Key Row)}

lemma Inv.fallback_none (h : Inv s) (hready : s.recoveryRequired = false) : s.fallback = none := by
  cases hf : s.fallback with
  | none => rfl
  | some f => simp [(h.fallback f hf).1] at hready

/-- The log after a move: some records of one transaction more, perhaps a sync,
perhaps poisoned. -/
structure LsmWal.Extends (wal wal' : LsmWal Key Row) (id : Nat)
    (extra : List (LogRecord Key Row)) : Prop where
  records : wal'.records = wal.records ++ extra
  own : ∀ r ∈ extra, r.txnId = id
  synced_le : wal.synced ≤ wal'.synced
  synced_length : wal'.synced ≤ wal'.records.length
  poisoned : wal.poisoned = true → wal'.poisoned = true

section Extends

variable {wal wal' : LsmWal Key Row} {id' : Nat}

section

variable (h : wal.Extends wal' id extra)
include h

lemma LsmWal.Extends.recordsOf_self :
    recordsOf id wal'.records = recordsOf id wal.records ++ extra := by
  rw [h.records, recordsOf_append]
  congr 1
  exact filter_eq_self.mpr fun r hr => by simpa using h.own r hr

lemma LsmWal.Extends.recordsOf_other (hid : id' ≠ id) :
    recordsOf id' wal'.records = recordsOf id' wal.records := by
  have hnone : recordsOf id' extra = [] :=
    filter_eq_nil_iff.mpr fun r hr => by simpa [h.own r hr] using hid.symm
  rw [h.records, recordsOf_append, hnone, append_nil]

lemma LsmWal.Extends.synced
    (hle : wal.synced ≤ wal.records.length) (hid : ∀ r ∈ extra, r.txnId ≠ id')
    (hs : wal.Synced id') : wal'.Synced id' := by
  intro r hr
  have hr : r ∈ wal'.records.drop wal.synced := (drop_sublist_drop_left _ h.synced_le).subset hr
  rw [h.records, drop_append_of_le_length hle, mem_append] at hr
  rcases hr with hr | hr
  · exact hs r hr
  · exact hid r hr

lemma LsmWal.Extends.mem_take (hle : wal.synced ≤ wal.records.length) {r : LogRecord Key Row}
    (hr : r ∈ wal.records.take wal.synced) : r ∈ wal'.records.take wal'.synced := by
  have hpre : wal.records.take wal.synced = wal'.records.take wal.synced := by
    rw [h.records, take_append_of_le_length hle]
  rw [hpre] at hr
  exact (take_prefix_take_left h.synced_le).subset hr

end

/-- A log that only grows for others keeps what a transaction's state calls
for. -/
lemma Logged.mono (h : Logged wal id' t)
    (hrecords : recordsOf id' wal'.records = recordsOf id' wal.records)
    (hsynced : wal.Synced id' → wal'.Synced id')
    (hpoisoned : wal.poisoned = true → wal'.poisoned = true) : Logged wal' id' t := by
  unfold Logged at h ⊢
  rw [hrecords]
  split at h
  · exact ⟨h.1, h.2.imp_right fun ⟨hp, hb⟩ => ⟨hpoisoned hp, hb⟩⟩
  · exact h
  · exact h
  · obtain ⟨b, d, hb, hd, hl, hs⟩ := h
    exact ⟨b, d, hb, hd, hl, hsynced hs⟩
  · obtain ⟨b, d, hb, hd, hl, hs⟩ := h
    exact ⟨b, d, hb, hd, hl, hsynced hs⟩
  · exact h
  · exact h.imp_right fun ⟨b, q, l, hb, hq, hl, hr, hs⟩ => ⟨b, q, l, hb, hq, hl, hr, hsynced hs⟩
  · exact h.imp_right fun ⟨b, q, l, hb, hq, hl, hr, hs⟩ => ⟨b, q, l, hb, hq, hl, hr, hsynced hs⟩
  · exact h
  · exact h.imp_right (Or.imp (fun ⟨hp, hb⟩ => ⟨hpoisoned hp, hb⟩)
      fun ⟨b, l, hl, hr, hs⟩ => ⟨b, l, hl, hr, hsynced hs⟩)

lemma LsmWal.Extends.logged_other (h : wal.Extends wal' id extra)
    (hle : wal.synced ≤ wal.records.length) (hid : id' ≠ id) (hl : Logged wal id' t) :
    Logged wal' id' t :=
  hl.mono (h.recordsOf_other hid)
    (h.synced hle fun r hr => by rw [h.own r hr]; exact hid.symm) h.poisoned

end Extends

/-- A sequence that was drawn and not used yet. -/
structure Fresh (s : LsmShared Key Row) (q : Nat) : Prop where
  pos : 0 < q
  lt : q < s.nextCommitSeq
  no_fallback : s.fallback = none
  above : ∀ e ∈ s.files.sstables, e.version < q
  reported_lt : ∀ c ∈ s.reported, c.commitSeq < q
  unused : ∀ id t, s.transactions id = some t → t.pendingCommitSeq ≠ some q
  unlogged : ∀ id, .commit id q ∉ s.files.wal.records

/-- A move of one transaction to a new state, with records of its own. -/
structure Advance (s s' : LsmShared Key Row) (id : Nat) (t' : Transaction Key Row)
    (extra : List (LogRecord Key Row)) : Prop where
  transactions : s'.transactions = Function.update s.transactions id (some t')
  sstables : s'.files.sstables = s.files.sstables
  txnEnd : s'.files.txnReservationEnd = s.files.txnReservationEnd
  commitEnd : s'.files.commitReservationEnd = s.files.commitReservationEnd
  wal : s.files.wal.Extends s'.files.wal id extra
  fallback : s'.fallback = s.fallback
  memtable : s'.memtable = s.memtable
  nextTxnId : s'.nextTxnId = s.nextTxnId
  nextCommitSeq : s'.nextCommitSeq = s.nextCommitSeq
  reported : s'.reported = s.reported
  recovery : s.recoveryRequired = true → s'.recoveryRequired = true
  writer : ∀ id', id' ≠ id → s.writer = some id' → s'.writer = some id'
  parked : ∀ id', id' ≠ id → id' ∈ s.parkedPrepared → id' ∈ s'.parkedPrepared
  outstanding : ∀ id', id' ≠ id → id' ∈ s.outstanding → id' ∈ s'.outstanding
  txn_lt : id < s.nextTxnId
  readable : ∀ r ∈ extra, r.tooLarge = false
  shaped : Shaped id (recordsOf id s'.files.wal.records)
  logged : Logged s'.files.wal id t'
  logged_fallback : ∀ f, s.fallback = some f → Logged f.wal id t'
  commits : ∀ id' q, .commit id' q ∈ extra →
    t'.state = .commitPending ∧ t'.pendingCommitSeq = some q
  extra_open : extra ≠ [] → t'.state.decided = false
  pending : ∀ t, s.transactions id = some t → t.state = .commitPending →
    t'.state = .commitPending ∧ t'.pendingCommitSeq = t.pendingCommitSeq
  seq : ∀ q, t'.pendingCommitSeq = some q → Fresh s q ∨
    ∃ t, s.transactions id = some t ∧ t.pendingCommitSeq = some q ∧
      (t'.state = .commitPending → t.state = .commitPending)
  decided : ∀ c ∈ s.reported, c.txnId = id → t'.state.decided = true
  decided_reported : t'.state.decided = true → t'.durableBatch = none ∨
    ∃ b q, t'.durableBatch = some b ∧ t'.pendingCommitSeq = some q ∧ ⟨id, q, b⟩ ∈ s.reported
  held : t'.state.unresolved = true → Held s'.writer s'.parkedPrepared id t'
  owner : t'.dropped = false → t'.ownsWriter = true → s'.writer = some id
  registered : t'.dropped = false → t'.state.ended = false → id ∈ s'.outstanding
  abandoned : t'.dropped = true → t'.state.unresolved = true → s'.recoveryRequired = true

namespace Advance

section

variable (h : Advance s s' id t' extra) {l : List (LogRecord Key Row)} {id' : Nat}
include h

/-- A transaction after the move is the moved one or one from before. -/
lemma cases_transaction {t : Transaction Key Row} (ht : s'.transactions id' = some t) :
    (id' = id ∧ t = t') ∨ (id' ≠ id ∧ s.transactions id' = some t) := by
  rw [h.transactions] at ht
  exact (update_eq_some ht).imp_left fun ⟨hid, heq⟩ => ⟨hid, (Option.some.inj heq).symm⟩

lemma at_self : s'.transactions id = some t' := by simp [h.transactions]

lemma at_other (hid : id' ≠ id) : s'.transactions id' = s.transactions id' := by
  simp [h.transactions, hid]

/-- The sequences in use after a move were in use before or are fresh. -/
lemma inUse {f f' : Files Key Row} (hrecords : f'.wal.records = f.wal.records ++ l)
    (hl : ∀ r ∈ l, r ∈ extra) {q : Nat} (hq : InUse s' f' q) : InUse s f q ∨ Fresh s q := by
  have hmoved : t'.state = .commitPending → t'.pendingCommitSeq = some q →
      InUse s f q ∨ Fresh s q := by
    intro hstate hseq
    rcases h.seq q hseq with hfresh | ⟨t, ht, htseq, hpending⟩
    · exact .inr hfresh
    · exact .inl (.inr ⟨id, t, ht, hpending hstate, htseq⟩)
  rcases hq with ⟨id', hmem⟩ | ⟨id', t, ht, hstate, hseq⟩
  · rw [hrecords, mem_append] at hmem
    rcases hmem with hmem | hmem
    · exact .inl (.inl ⟨id', hmem⟩)
    · obtain ⟨hstate, hseq⟩ := h.commits id' q (hl _ hmem)
      exact hmoved hstate hseq
  · rcases h.cases_transaction ht with ⟨rfl, rfl⟩ | ⟨-, ht⟩
    · exact hmoved hstate hseq
    · exact .inl (.inr ⟨id', t, ht, hstate, hseq⟩)

/-- The files before or behind a move, where the log grows by `l`. -/
lemma filesOk (hinv : Inv s) {f f' : Files Key Row} (hok : FilesOk s f flushed here)
    (hsstables : f'.sstables = f.sstables) (htxnEnd : f'.txnReservationEnd = f.txnReservationEnd)
    (hcommitEnd : f'.commitReservationEnd = f.commitReservationEnd)
    (hwal : f.wal.Extends f'.wal id l) (hl : ∀ r ∈ l, r ∈ extra)
    (hshaped : Shaped id (recordsOf id f'.wal.records)) (hlogged : Logged f'.wal id t')
    (hown : ∀ q id', .commit id q ∈ l → .commit id' q ∈ f.wal.records → id' = id)
    (hfresh : ∀ q, Fresh s q → ∀ e ∈ f.sstables, e.version < q) :
    FilesOk s' f' flushed here where
  shaped := by
    intro id'
    by_cases hid : id' = id
    · exact hid ▸ hshaped
    · exact hwal.recordsOf_other hid ▸ hok.shaped id'
  logged := by
    intro id' t ht
    rcases h.cases_transaction ht with ⟨rfl, rfl⟩ | ⟨hid, ht⟩
    · exact hlogged
    · exact hwal.logged_other hok.synced_le hid (hok.logged id' t ht)
  synced_le := hwal.synced_length
  distinct := by
    intro id₁ id₂ q h₁ h₂
    rw [hwal.records, mem_append] at h₁ h₂
    have hid : ∀ id', .commit id' q ∈ l → id' = id := fun id' hmem => hwal.own _ hmem
    rcases h₁ with h₁ | h₁ <;> rcases h₂ with h₂ | h₂
    · exact hok.distinct id₁ id₂ q h₁ h₂
    · obtain rfl := hid id₂ h₂
      exact hown q id₁ h₂ h₁
    · obtain rfl := hid id₁ h₁
      exact (hown q id₂ h₁ h₂).symm
    · rw [hid id₁ h₁, hid id₂ h₂]
  commit_lt := by
    intro id' q hmem
    rw [hwal.records, mem_append] at hmem
    rw [h.nextCommitSeq]
    rcases hmem with hmem | hmem
    · exact hok.commit_lt id' q hmem
    · rcases h.seq q (h.commits id' q (hl _ hmem)).2 with hfresh | ⟨t, ht, hseq, -⟩
      · exact ⟨hfresh.pos, hfresh.lt⟩
      · exact hinv.seq_lt id t q ht hseq
  commit_end := by rw [h.nextCommitSeq, hcommitEnd]; exact hok.commit_end
  txn_lt := by
    intro r hr
    rw [hwal.records, mem_append] at hr
    rw [h.nextTxnId]
    rcases hr with hr | hr
    · exact hok.txn_lt r hr
    · rw [hwal.own r hr]
      exact h.txn_lt
  txn_end := by rw [h.nextTxnId, htxnEnd]; exact hok.txn_end
  readable := by
    intro r hr
    rw [hwal.records, mem_append] at hr
    exact hr.elim (hok.readable r) fun hr => h.readable r (hl r hr)
  attributed := by
    intro id' q hmem
    rw [hwal.records, mem_append] at hmem
    rw [h.reported]
    rcases hmem with hmem | hmem
    · rcases hok.attributed id' q hmem with hrep | ⟨t, ht, hstate, hseq⟩
      · exact .inl hrep
      · by_cases hid : id' = id
        · subst hid
          obtain ⟨hstate', hseq'⟩ := h.pending t ht hstate
          exact .inr ⟨t', h.at_self, hstate', hseq'.trans hseq⟩
        · exact .inr ⟨t, by rw [h.at_other hid]; exact ht, hstate, hseq⟩
    · obtain rfl : id' = id := hwal.own _ hmem
      obtain ⟨hstate, hseq⟩ := h.commits id' q (hl _ hmem)
      exact .inr ⟨t', h.at_self, hstate, hseq⟩
  rows := by rw [hsstables]; exact hok.rows
  sst_lt := by rw [hsstables, h.nextCommitSeq]; exact hok.sst_lt
  sst_above := by
    intro q hq
    rw [hsstables]
    exact (h.inUse hwal.records hl hq).elim (hok.sst_above q) (hfresh q)
  flushed_above := by
    intro q hq c hc
    rcases h.inUse hwal.records hl hq with hq | hq
    · exact hok.flushed_above q hq c hc
    · exact hq.reported_lt c ((hok.reported c).mpr (.inl hc))
  flushed_gone := by
    intro c hc
    by_cases hid : c.txnId = id
    · have hdecided := h.decided c ((hok.reported c).mpr (.inl hc)) hid
      have hnone : l = [] := by
        rw [eq_nil_iff_forall_not_mem]
        intro r hr
        have hopen := h.extra_open (ne_nil_of_mem (hl r hr))
        simp [hdecided] at hopen
      have hsame := hwal.recordsOf_self
      rw [hnone, append_nil] at hsame
      rw [hid, hsame, ← hid]
      exact hok.flushed_gone c hc
    · rw [hwal.recordsOf_other hid]
      exact hok.flushed_gone c hc
  here_logged := fun c hc =>
    ⟨hwal.mem_take hok.synced_le (hok.here_logged c hc).1,
      hwal.mem_take hok.synced_le (hok.here_logged c hc).2⟩
  reported := by rw [h.reported]; exact hok.reported

end

end Advance

lemma LsmWal.Extends.refl {wal : LsmWal Key Row} (h : wal.synced ≤ wal.records.length) :
    wal.Extends wal id [] :=
  ⟨by simp, by simp, le_rfl, h, fun h => h⟩

/-- Every move of one transaction keeps the invariant. -/
lemma Inv.advance (hinv : Inv s) (h : Advance s s' id t' extra) : Inv s' where
  current := by
    obtain ⟨flushed, here, hok, hmem⟩ := hinv.current
    refine ⟨flushed, here, ?_, by rw [h.memtable]; exact hmem⟩
    refine h.filesOk hinv hok h.sstables h.txnEnd h.commitEnd h.wal (fun r hr => hr) h.shaped
      h.logged ?_ fun q hq => hq.above
    intro q id' hcommit hmem
    rcases h.seq q (h.commits id q hcommit).2 with hfresh | ⟨t, ht, hseq, -⟩
    · exact absurd hmem (hfresh.unlogged id')
    · exact hinv.seq_logged id id' t q ht hseq hmem
  fallback := by
    intro f hf
    rw [h.fallback] at hf
    obtain ⟨hrecovery, flushed, here, hok⟩ := hinv.fallback f hf
    refine ⟨h.recovery hrecovery, flushed, here, ?_⟩
    refine h.filesOk hinv hok rfl rfl rfl (.refl hok.synced_le) (by simp) (hok.shaped id)
      (h.logged_fallback f hf) (by simp) fun q hq => ?_
    exact absurd hf (by simp [hq.no_fallback])
  commit_pos := by rw [h.nextCommitSeq]; exact hinv.commit_pos
  txn_lt := by
    intro id' t ht
    rw [h.nextTxnId]
    rcases h.cases_transaction ht with ⟨rfl, -⟩ | ⟨-, ht⟩
    · exact h.txn_lt
    · exact hinv.txn_lt id' t ht
  seq_lt := by
    intro id' t q ht hseq
    rw [h.nextCommitSeq]
    rcases h.cases_transaction ht with ⟨rfl, rfl⟩ | ⟨-, ht⟩
    · rcases h.seq q hseq with hfresh | ⟨t, ht, hseq, -⟩
      · exact ⟨hfresh.pos, hfresh.lt⟩
      · exact hinv.seq_lt id' t q ht hseq
    · exact hinv.seq_lt id' t q ht hseq
  seq_unique := by
    have hmoved : ∀ id' t q, id' ≠ id → s.transactions id' = some t →
        t'.pendingCommitSeq = some q → t.pendingCommitSeq ≠ some q := by
      intro id' t q hid ht hseq' hseq
      rcases h.seq q hseq' with hfresh | ⟨t₀, ht₀, hseq₀, -⟩
      · exact hfresh.unused id' t ht hseq
      · exact hid (hinv.seq_unique id' id t t₀ q ht ht₀ hseq hseq₀)
    intro id₁ id₂ t₁ t₂ q ht₁ ht₂ hseq₁ hseq₂
    rcases h.cases_transaction ht₁ with ⟨rfl, rfl⟩ | ⟨hid₁, ht₁⟩ <;>
      rcases h.cases_transaction ht₂ with ⟨rfl, rfl⟩ | ⟨hid₂, ht₂⟩
    · rfl
    · exact absurd hseq₂ (hmoved id₂ t₂ q hid₂ ht₂ hseq₁)
    · exact absurd hseq₁ (hmoved id₁ t₁ q hid₁ ht₁ hseq₂)
    · exact hinv.seq_unique id₁ id₂ t₁ t₂ q ht₁ ht₂ hseq₁ hseq₂
  seq_logged := by
    intro id₁ id₂ t q ht hseq hmem
    rw [h.wal.records, mem_append] at hmem
    rcases h.cases_transaction ht with ⟨rfl, rfl⟩ | ⟨hid, ht⟩ <;> rcases hmem with hmem | hmem
    · rcases h.seq q hseq with hfresh | ⟨t, ht, hseq, -⟩
      · exact absurd hmem (hfresh.unlogged id₂)
      · exact hinv.seq_logged id₁ id₂ t q ht hseq hmem
    · exact h.wal.own _ hmem
    · exact hinv.seq_logged id₁ id₂ t q ht hseq hmem
    · rcases h.seq q (h.commits id₂ q hmem).2 with hfresh | ⟨t₀, ht₀, hseq₀, -⟩
      · exact absurd hseq (hfresh.unused id₁ t ht)
      · obtain rfl : id₂ = id := h.wal.own _ hmem
        exact (hinv.seq_unique id₁ id₂ t t₀ q ht ht₀ hseq hseq₀).symm
  reported_lt := by rw [h.reported, h.nextTxnId, h.nextCommitSeq]; exact hinv.reported_lt
  reported_decided := by
    intro c hc t ht
    rw [h.reported] at hc
    rcases h.cases_transaction ht with ⟨hid, rfl⟩ | ⟨-, ht⟩
    · exact h.decided c hc hid
    · exact hinv.reported_decided c hc t ht
  decided_reported := by
    intro id' t ht hdecided
    rw [h.reported]
    rcases h.cases_transaction ht with ⟨rfl, rfl⟩ | ⟨-, ht⟩
    · exact h.decided_reported hdecided
    · exact hinv.decided_reported id' t ht hdecided
  held := by
    intro id' t ht hunresolved
    rcases h.cases_transaction ht with ⟨rfl, rfl⟩ | ⟨hid, ht⟩
    · exact h.held hunresolved
    · exact (hinv.held id' t ht hunresolved).imp
        (fun ⟨hwriter, hrest⟩ => ⟨h.writer id' hid hwriter, hrest⟩) (h.parked id' hid)
  owner := by
    intro id' t ht hdropped howns
    rcases h.cases_transaction ht with ⟨rfl, rfl⟩ | ⟨hid, ht⟩
    · exact h.owner hdropped howns
    · exact h.writer id' hid (hinv.owner id' t ht hdropped howns)
  registered := by
    intro id' t ht hdropped hended
    rcases h.cases_transaction ht with ⟨rfl, rfl⟩ | ⟨hid, ht⟩
    · exact h.registered hdropped hended
    · exact h.outstanding id' hid (hinv.registered id' t ht hdropped hended)
  abandoned := by
    intro id' t ht hdropped hunresolved
    rcases h.cases_transaction ht with ⟨rfl, rfl⟩ | ⟨-, ht⟩
    · exact h.abandoned hdropped hunresolved
    · exact h.recovery (hinv.abandoned id' t ht hdropped hunresolved)

end Netbadb.Lsm.Engine
