import Netbadb.Lsm.DurableMoves

/-!
Every call on an LSM store keeps the invariant, as long as no flush happens
while a transaction is still undecided and no batch is logged that a reopen
would refuse to read.
-/

namespace Netbadb.Lsm.Engine

open Versions LsmWal TransactionState
open List

variable {Key Row : Type} {s s' : LsmShared Key Row} {id q : Nat} {t t' : Transaction Key Row}
  {r : LogRecord Key Row} {f : Files Key Row}
  {l : List (LogRecord Key Row)} {b : Batch Key Row} {wal : LsmWal Key Row}

lemma entrySet_append (l l' : List (VersionedEntry Key Row)) :
    entrySet (l ++ l') = entrySet l ∪ entrySet l' := by
  ext e
  simp [entrySet]

lemma commitSet_append (l l' : List (Commit Key Row)) :
    commitSet (l ++ l') = commitSet l ∪ commitSet l' := by
  ext e
  simp only [commitSet, mem_append, Set.mem_ofPred_eq, Set.mem_union]
  constructor
  · rintro ⟨c, hc | hc, he⟩
    · exact .inl ⟨c, hc, he⟩
    · exact .inr ⟨c, hc, he⟩
  · rintro (⟨c, hc, he⟩ | ⟨c, hc, he⟩)
    · exact ⟨c, .inl hc, he⟩
    · exact ⟨c, .inr hc, he⟩

lemma entrySet_eq_commitSet {entries : List (VersionedEntry Key Row)}
    {commits : List (Commit Key Row)} (h : ∀ e, e ∈ entries ↔ ∃ c ∈ commits, e ∈ c.entries) :
    entrySet entries = commitSet commits := by
  ext e
  exact h _

/-- The SSTables and the commits of the log show the rows of both lists of
commits. -/
lemma FilesOk.live_union {flushed here commits : List (Commit Key Row)}
    (h : FilesOk s f flushed here) (hinUse : ∀ c ∈ commits, InUse s f c.commitSeq) {k : Key}
    {v : Row} :
    Live (entrySet f.sstables ∪ commitSet commits) k v ↔
      Live (commitSet flushed ∪ commitSet commits) k v := by
  refine live_union_congr h.rows ?_ ?_
  · rintro a ha m ⟨c, hc, hm⟩
    have hversion : m.2.1 = c.commitSeq := version_of_mem_entries hm
    rw [hversion]
    exact h.sst_above _ (hinUse c hc) _ ha
  · rintro a ⟨c', hc', ha⟩ m ⟨c, hc, hm⟩
    have hversion : m.2.1 = c.commitSeq := version_of_mem_entries hm
    have hversion' : a.2.1 = c'.commitSeq := version_of_mem_entries ha
    rw [hversion, hversion']
    exact h.flushed_above _ (hinUse c hc) c' hc'

lemma FilesOk.here_inUse {flushed here : List (Commit Key Row)} (h : FilesOk s f flushed here) :
    ∀ c ∈ here, InUse s f c.commitSeq :=
  fun c hc => .inl ⟨c.txnId, mem_of_mem_take (h.here_logged c hc).2⟩

/-- What a flush leaves when every transaction is settled or has not written. -/
lemma FilesOk.flushed {flushed here : List (Commit Key Row)} (hinv : Inv s)
    (h : FilesOk s s.files flushed here)
    (hmem : ∀ e, e ∈ s.memtable ↔ ∃ c ∈ here, e ∈ c.entries)
    (hquiet : ∀ id t, s.transactions id = some t → t.state.unresolved = false) :
    FilesOk s { s.files with sstables := s.files.sstables ++ s.memtable, wal := .create }
      (flushed ++ here) [] where
  shaped := fun _ => .nil
  logged := by
    intro id t ht
    have hstate := hquiet id t ht
    have hlogged := h.logged id t ht
    unfold Logged at hlogged ⊢
    cases hs : t.state <;> simp_all [create, unresolved]
  synced_le := le_rfl
  distinct := by simp [DistinctCommits, create]
  commit_lt := by simp [create]
  commit_end := h.commit_end
  txn_lt := by simp [create]
  txn_end := h.txn_end
  readable := by simp [create]
  attributed := by simp [create]
  rows := by
    intro k v
    simp only [entrySet_append, commitSet_append, entrySet_eq_commitSet hmem]
    exact h.live_union h.here_inUse
  sst_lt := by
    intro e he
    rcases mem_append.mp he with he | he
    · exact h.sst_lt e he
    · obtain ⟨c, hc, he⟩ := (hmem e).mp he
      rw [version_of_mem_entries he]
      exact (hinv.reported_lt c ((h.reported c).mpr (.inr hc))).2
  sst_above := by
    rintro q (⟨id, hlog⟩ | ⟨id, t, ht, hstate, -⟩)
    · simp [create] at hlog
    · simpa [hstate, unresolved] using hquiet id t ht
  flushed_above := by
    rintro q (⟨id, hlog⟩ | ⟨id, t, ht, hstate, -⟩)
    · simp [create] at hlog
    · simpa [hstate, unresolved] using hquiet id t ht
  flushed_gone := fun _ _ => rfl
  here_logged := by simp
  reported := by simpa using h.reported

lemma Inv.flushMemtable (h : Inv s) (hrec : s.recoveryRequired = false)
    (hquiet : ∀ id t, s.transactions id = some t → t.state.unresolved = false)
    (io : ManifestPublish) (cleaned : Bool) : Inv (s.flushMemtable io cleaned).1 := by
  obtain ⟨flushed, here, hok, hmem⟩ := h.current
  have hflushed := hok.flushed h hmem hquiet
  have hseq : ∀ id id' t q, s.transactions id = some t → t.pendingCommitSeq = some q →
      .commit id' q ∈ (create : LsmWal Key Row).records → id' = id := by
    simp [create]
  unfold LsmShared.flushMemtable
  split
  · exact h
  cases io with
  | installed =>
    exact { h with
      current := ⟨_, _, { hflushed with }, by simp⟩
      fallback := by simp [h.fallback_none hrec]
      seq_logged := hseq }
  | beforeInstall =>
    refine { h with
      current := ⟨flushed, here, { hok with }, hmem⟩
      fallback := by simp [h.fallback_none hrec]
      abandoned := fun id t ht hd hu => ?_ }
    simp [h.abandoned id t ht hd hu]
  | installedButUnsynced =>
    refine { h with
      current := ⟨_, _, { hflushed with }, by simp⟩
      fallback := fun f hf => ?_
      seq_logged := hseq
      abandoned := fun _ _ _ _ _ => rfl }
    obtain rfl : s.files = f := by simpa using hf
    exact ⟨rfl, flushed, here, { hok with }⟩

/-- A maintenance call finds every transaction settled. -/
lemma Inv.settled (h : Inv s) (hsafe : s.maintenanceSafe = true) : s.recoveryRequired = false ∧
      ∀ id t, s.transactions id = some t → t.state.unresolved = false := by
  simp only [LsmShared.maintenanceSafe, LsmShared.ready, Bool.and_eq_true, Bool.not_eq_true',
    List.isEmpty_iff] at hsafe
  refine ⟨hsafe.1.1.1, fun id t ht => ?_⟩
  by_contra hu
  rw [Bool.not_eq_false] at hu
  cases hd : t.dropped with
  | true => simp [h.abandoned id t ht hd hu] at hsafe
  | false =>
    have hmem := h.registered id t ht hd (ended_of_unresolved hu).1
    simp [hsafe.2] at hmem

section Compaction

variable [DecidableEq Key]

lemma entrySet_collectGarbage (entries : List (VersionedEntry Key Row)) :
    entrySet (LsmShared.collectGarbage entries) = latest (entrySet entries) := by
  ext ⟨k, n, x⟩
  simp only [LsmShared.collectGarbage, entrySet, latest, Set.mem_ofPred_eq, mem_filter,
    Bool.and_eq_true, all_eq_true, Bool.not_eq_true', Bool.and_eq_false_iff,
    decide_eq_false_iff_not]
  refine and_congr_right fun _ => and_congr_right fun _ => ⟨fun h n' x' hmem => ?_, ?_⟩
  · exact not_lt.mp ((h _ hmem).resolve_left (by simp))
  rintro h ⟨k', n', x'⟩ hmem
  by_cases hk : k' = k
  · subst hk
    exact .inr (not_lt.mpr (h n' x' hmem))
  · exact .inl hk

lemma FilesOk.compacted {flushed here : List (Commit Key Row)} (h : FilesOk s f flushed here)
    (garbageCollect : Bool) :
    FilesOk s { f with sstables :=
      if garbageCollect then LsmShared.collectGarbage f.sstables else f.sstables }
      flushed here := by
  cases garbageCollect with
  | false => exact h
  | true =>
    have hsub : ∀ e ∈ LsmShared.collectGarbage f.sstables, e ∈ f.sstables :=
      fun e he => (mem_filter.mp he).1
    exact { h with
      rows := fun k v => by
        simp only [if_true, entrySet_collectGarbage, live_latest]
        exact h.rows k v
      sst_lt := fun e he => h.sst_lt e (hsub e he)
      sst_above := fun q hq e he => h.sst_above q hq e (hsub e he) }

lemma Inv.executeCompaction (h : Inv s) (hrec : s.recoveryRequired = false)
    (garbageCollect : Bool) (io : ManifestPublish) (cleaned : Bool) :
    Inv (s.executeCompaction garbageCollect io cleaned) := by
  obtain ⟨flushed, here, hok, hmem⟩ := h.current
  have hcompacted := hok.compacted garbageCollect
  unfold LsmShared.executeCompaction
  cases io with
  | installed =>
    exact { h with
      current := ⟨flushed, here, { hcompacted with }, hmem⟩
      fallback := by simp [h.fallback_none hrec] }
  | beforeInstall =>
    refine { h with
      current := ⟨flushed, here, { hok with }, hmem⟩
      fallback := by simp [h.fallback_none hrec]
      abandoned := fun id t ht hd hu => ?_ }
    simp [h.abandoned id t ht hd hu]
  | installedButUnsynced =>
    refine { h with
      current := ⟨flushed, here, { hcompacted with }, hmem⟩
      fallback := fun f hf => ?_
      abandoned := fun _ _ _ _ _ => rfl }
    obtain rfl : s.files = f := by simpa using hf
    exact ⟨rfl, flushed, here, { hok with }⟩

end Compaction

lemma LsmShared.finishTerminal_put (state state' : TransactionState) :
    (s.put id { t with state := state }).finishTerminal id { t with state := state } state'
      = s.finishTerminal id t state' := by
  rw [LsmShared.finishTerminal, LsmShared.finishTerminal, LsmShared.put_put]
  rfl

lemma Inv.finishTerminal (h : Inv s) (ht : s.transactions id = some t) {state : TransactionState}
    (hended : state.ended = true) (hpending : t.state ≠ .commitPending)
    (hdecided : t.state.decided = state.decided)
    (hlogged : ∀ wal : LsmWal Key Row, Logged wal id t →
      (s.files.wal = wal ∨ s.recoveryRequired = true) →
        Logged wal id { t with state := state, pending := .empty, ownsWriter := false }) :
    Inv (s.finishTerminal id t state) := by
  have hunresolved : state.unresolved = false ∧ state ≠ .commitPending := by
    cases state <;> simp_all [ended, unresolved]
  refine h.quiet ht { t with state := state, pending := .empty, ownsWriter := false }
    (fun h => h) ?_ ?_ ?_ hlogged ?_ rfl (.inl rfl) ?_ ?_ ?_ ?_ ?_ ?_
  · intro id' hid hwriter
    have hne : s.writer ≠ some id := by rw [hwriter]; simpa using hid
    rw [if_neg (fun h => hne h.2)]
    exact hwriter
  · -- The deque loses at most the transaction itself.
    intro id' hid hmem
    split
    · rename_i hfront
      obtain ⟨rest, hrest⟩ : ∃ rest, s.parkedPrepared = id :: rest := by
        cases hp : s.parkedPrepared with
        | nil => simp [hp] at hfront
        | cons x rest => exact ⟨rest, by simpa [hp] using hfront.2⟩
      rw [hrest] at hmem ⊢
      simpa [hid] using hmem
    · split
      · rename_i hback
        have hsplit := dropLast_append_getLast? id hback.2
        rw [← hsplit] at hmem
        simpa [hid] using hmem
      · exact hmem
  · exact fun id' hid hmem => (mem_erase_of_ne hid).mpr hmem
  · exact ⟨fun h => absurd h hpending, fun h => absurd h hunresolved.2⟩
  · exact fun h => hdecided ▸ h
  · exact fun h => .inl (hdecided.trans h)
  · simp [hunresolved.1]
  · simp
  · simp [hended]
  · simp [hunresolved.1]

section Finish

variable [DecidableEq Key] [DecidableEq Row]

/-- The end of a commit whose records are all in the log. -/
lemma Inv.finishCommit (h : Inv s) (hw : Working s id t) (hstate : t.state = .commitPending)
    (hb : t.durableBatch = some b) (hq : t.pendingCommitSeq = some q) (hhead : Head id b l)
    (hrecords : recordsOf id s.files.wal.records = l ++ [.commit id q]) (sync : Bool) :
    Inv (s.finishCommit id t sync) := by
  have hsync := h.sync sync
  unfold LsmShared.finishCommit
  split
  · next s₁ heq => simpa [heq] using hsync
  rename_i s₁ heq
  replace hsync : Inv s₁ := by simpa [heq] using hsync
  obtain ⟨rfl, hall⟩ := LsmShared.sync_ok heq
  split
  · exact hsync
  rename_i s₂ happly
  have happlied := hsync.apply ⟨hw.at_id, hw.dropped, hw.recovery, hw.healthy⟩ hstate hb hq
    hhead hrecords (hall id) happly
  rw [← LsmShared.finishTerminal_put .changeFinalizePending .committed]
  refine happlied.finishTerminal ?_ rfl (by simp) rfl ?_
  · simp [LsmShared.put]
  · exact fun wal hlogged _ => hlogged

end Finish

/-- The Commit record of a transaction, where it is not in the log yet. -/
lemma Inv.appendCommit (h : Inv s) (hw : Working s id t) (t' : Transaction Key Row)
    (hp : Proceeds s t t') (hstate : t'.state = .commitPending) (hb : t'.durableBatch = some b)
    (hq : t'.pendingCommitSeq = some q) (hhead : Head id b l)
    (hrecords : recordsOf id s.files.wal.records = l) (io : AppendIo) :
    Inv (s.append id (.commit id q) io t').1 ∧
      ((s.append id (.commit id q) io t').2 = true →
        Working (s.append id (.commit id q) io t').1 id t' ∧
          recordsOf id (s.append id (.commit id q) io t').1.files.wal.records
            = l ++ [.commit id q]) := by
  have happend := h.append hw hp (r := .commit id q) io rfl rfl
    (by rw [hrecords]; exact .commit hhead q)
    (by rintro id' q' heq; cases heq; exact ⟨hstate, hq⟩)
    (by unfold Logged; rw [hstate]; exact ⟨b, q, l, hb, hq, hhead, .inl hrecords⟩)
    (by
      intro wal hwal
      unfold Logged
      rw [hstate]
      exact ⟨b, q, l, hb, hq, hhead, .inr (hrecords ▸ hwal)⟩)
  rwa [hrecords] at happend

lemma LsmWal.findCommitSeq_eq_some (h : wal.findCommitSeq id = some q) :
    .commit id q ∈ wal.records := by
  obtain ⟨r, hr, hq⟩ := exists_of_findSome?_eq_some h
  cases r <;> simp at hq
  obtain ⟨rfl, rfl⟩ := hq
  exact hr

lemma LsmWal.findCommitSeq_eq_none (h : wal.findCommitSeq id = none) :
    .commit id q ∉ wal.records := by
  intro hmem
  have := findSome?_eq_none_iff.mp h _ hmem
  simp at this

/-- A retried commit finds its record or appends it. -/
lemma Inv.ensureCommitRecord (h : Inv s) (hw : Working s id t)
    (hstate : t.state = .commitPending) (io : AppendIo) :
    Inv (s.ensureCommitRecord id t io).1 ∧ ((s.ensureCommitRecord id t io).2 = true →
      Working (s.ensureCommitRecord id t io).1 id t ∧
        ∃ b q l, t.durableBatch = some b ∧ t.pendingCommitSeq = some q ∧ Head id b l ∧
          recordsOf id (s.ensureCommitRecord id t io).1.files.wal.records
            = l ++ [.commit id q]) := by
  have hlogged := h.logged hw.at_id
  unfold Logged at hlogged
  rw [hstate] at hlogged
  obtain ⟨b, q, l, hb, hq, hhead, hrecords⟩ := hlogged
  unfold LsmShared.ensureCommitRecord
  simp only [hq]
  split
  · rename_i existing hfind
    refine ⟨h, fun _ => ⟨hw, b, q, l, hb, rfl, hhead, hrecords.resolve_left fun hl => ?_⟩⟩
    exact hhead.commit_notMem (hl ▸ commit_mem_recordsOf.mpr (findCommitSeq_eq_some hfind))
  rename_i hfind
  have hl : recordsOf id s.files.wal.records = l := hrecords.resolve_right fun hl =>
    findCommitSeq_eq_none (q := q) hfind (commit_mem_recordsOf.mp (by rw [hl]; simp))
  have happend := h.appendCommit hw t (.refl hw.dropped (by rw [hstate]; rfl)) hstate hb hq hhead
    hl io
  exact ⟨happend.1, fun hok => ⟨(happend.2 hok).1, b, q, l, hb, rfl, hhead, (happend.2 hok).2⟩⟩

/-- The batch of an active transaction that holds the writer. -/
lemma Inv.appendBatch (h : Inv s) (hw : Working s id t) (hactive : t.state = .active)
    (howns : t.ownsWriter = true) (hfit : t.pending.mutations.length ≤ maxPendingMutations)
    (t' : Transaction Key Row) (hstate : t'.state.unresolved = true)
    (hunparked : t'.state.isParked = false) (hdropped : t'.dropped = false)
    (howns' : t'.ownsWriter = true)
    (hseq : ∀ q, t'.pendingCommitSeq = some q → Fresh s q ∨
      t.pendingCommitSeq = some q ∧ t'.state ≠ .commitPending)
    (hlogged : ∀ wal : LsmWal Key Row,
      recordsOf id wal.records = [.mutationBatch id t.pending] → Logged wal id t') (io : AppendIo) :
    Inv (s.appendBatch id t t' io).1 ∧ ((s.appendBatch id t t' io).2 = true →
      Working (s.appendBatch id t t' io).1 id t' ∧
        recordsOf id (s.appendBatch id t t' io).1.files.wal.records
          = [.mutationBatch id t.pending]) := by
  obtain ⟨flushed, here, hok⟩ := h.filesOk
  have hclean := h.logged hw.at_id
  unfold Logged at hclean
  rw [hactive] at hclean
  have hnone : recordsOf id s.files.wal.records = [] :=
    hclean.2.resolve_right (by simp [hw.healthy])
  have hrecords : recordsOf id (s.files.wal.records ++ [.mutationBatch id t.pending])
      = [.mutationBatch id t.pending] := by
    have hid : (LogRecord.mutationBatch id t.pending).txnId = id := rfl
    rw [recordsOf_snoc_self _ hid, hnone, nil_append]
  have hext : ∀ poisoned, s.files.wal.Extends { s.files.wal with
      records := s.files.wal.records ++ [.mutationBatch id t.pending], poisoned := poisoned } id
      [.mutationBatch id t.pending] :=
    fun poisoned => .snoc hok.synced_le rfl (by simp [hw.healthy])
  have hfit' : ∀ r ∈ [LogRecord.mutationBatch id t.pending], r.tooLarge = false := by
    simpa [LogRecord.tooLarge] using hfit
  have hstays : Proceeds s t t := ⟨by rw [hactive]; rfl, by rw [hactive]; rfl,
    by rw [hactive]; rfl, hw.dropped, rfl, fun h => .inl h,
    by simp [hactive, isParked], fun h => ⟨h, rfl⟩,
    fun _ hq => .inr ⟨hq, fun h => h⟩⟩
  have hmoves : Proceeds s t t' := ⟨by rw [hactive]; rfl,
    (ended_of_unresolved hstate).2, by rw [hactive]; rfl, hdropped,
    howns'.trans howns.symm, fun _ => .inr howns, by simp [hunparked],
    fun h => by simp [hactive] at h,
    fun q hq => (hseq q hq).imp_right fun ⟨hq, hne⟩ => ⟨hq, fun h => absurd h hne⟩⟩
  rcases s.files.wal.append_eq (.mutationBatch id t.pending) io hw.healthy with heq | heq | heq
  · refine ⟨?_, by simp [LsmShared.appendBatch, LsmShared.append, heq]⟩
    have hkept := h.log hw hstays (.refl hok.synced_le) (by simp) (hok.shaped id)
      (h.logged hw.at_id) (by simp)
    simpa [LsmShared.appendBatch, LsmShared.append, heq] using hkept
  · have hlog := h.log hw hmoves (hext false) hfit' (by rw [hrecords]; exact .head .batch)
      (hlogged _ hrecords) (by simp)
    refine ⟨?_, fun _ => ⟨⟨?_, hdropped, ?_, ?_⟩, ?_⟩⟩
    · simpa [LsmShared.appendBatch, LsmShared.append, LsmShared.put, heq, hw.healthy] using hlog
    all_goals
      simp [LsmShared.appendBatch, LsmShared.append, LsmShared.put, heq, hw.healthy, hw.recovery,
        hrecords]
  · refine ⟨?_, by simp [LsmShared.appendBatch, LsmShared.append, heq]⟩
    have hlog := h.log hw hstays (hext true) hfit'
      (by rw [hrecords]; exact .head .batch)
      (by unfold Logged; rw [hactive]; exact ⟨hclean.1, .inr ⟨rfl, t.pending, hrecords⟩⟩) (by simp)
    simpa [LsmShared.appendBatch, LsmShared.append, heq] using hlog

section Commits

variable [DecidableEq Key] [DecidableEq Row]

lemma Inv.retryCommit (h : Inv s) (hw : Working s id t) (hstate : t.state = .commitPending)
    (io : AppendIo) (sync : Bool) :
    Inv (match s.ensureCommitRecord id t io with
      | (s, false) => s
      | (s, true) => s.finishCommit id t sync) := by
  have hensure := h.ensureCommitRecord hw hstate io
  split
  · next s₁ heq => simpa [heq] using hensure.1
  · rename_i s₁ heq
    rw [heq] at hensure
    obtain ⟨hw₁, b, q, l, hb, hq, hhead, hrecords⟩ := hensure.2 rfl
    exact hensure.1.finishCommit hw₁ hstate hb hq hhead hrecords sync

end Commits

end Netbadb.Lsm.Engine
