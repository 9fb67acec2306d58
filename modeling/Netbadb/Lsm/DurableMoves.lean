import Netbadb.Lsm.DurableInvariant

/-!
The moves the calls on an LSM store are made of: taking and releasing the
writer, appending a record, syncing the log, drawing a commit sequence, applying
a commit, and the switches to a new manifest.
-/

namespace Netbadb.Lsm.Engine

open Versions List LsmShared Outcome

variable {Key Row : Type} {s s' : LsmShared Key Row} {id q commitEnd txnEnd : Nat}
  {t t' : Transaction Key Row} {extra : List (LogRecord Key Row)} {r : LogRecord Key Row}
  {wal : LsmWal Key Row} {memtable : List (VersionedEntry Key Row)}

lemma TransactionState.ended_of_unresolved {state : TransactionState}
    (h : state.unresolved = true) : state.ended = false ∧ state.decided = false := by
  cases state <;> simp_all [unresolved, ended, decided]

/-- A call works on the transaction: its handle exists and the store takes
writes. -/
structure Working (s : LsmShared Key Row) (id : Nat) (t : Transaction Key Row) : Prop where
  at_id : s.transactions id = some t
  dropped : t.dropped = false
  recovery : s.recoveryRequired = false
  healthy : s.files.wal.poisoned = false

lemma LsmShared.handle_eq_some (h : s.handle id = some t) :
    s.transactions id = some t ∧ t.dropped = false := by
  simpa [handle, Option.filter_eq_some_iff] using h

lemma LsmShared.working (h : s.handle id = some t) (hready : s.ready = true) : Working s id t := by
  obtain ⟨hat, hdropped⟩ := handle_eq_some h
  simp only [ready, Bool.and_eq_true, Bool.not_eq_true'] at hready
  exact ⟨hat, hdropped, hready.1, hready.2⟩

lemma LsmShared.put_put (t t' : Transaction Key Row) : (s.put id t).put id t' = s.put id t' := by
  simp [put]

lemma Inv.filesOk (h : Inv s) : ∃ flushed here, FilesOk s s.files flushed here := by
  obtain ⟨flushed, here, hok, -⟩ := h.current
  exact ⟨flushed, here, hok⟩

lemma Inv.logged (h : Inv s) (ht : s.transactions id = some t) : Logged s.files.wal id t := by
  obtain ⟨_, _, hok⟩ := h.filesOk
  exact hok.logged id t ht

/-- No commit was reported for a transaction that is not decided. -/
lemma Inv.not_reported (h : Inv s) (ht : s.transactions id = some t)
    (hstate : t.state.decided = false) {c : Commit Key Row} (hc : c ∈ s.reported) :
    c.txnId ≠ id := by
  rintro rfl
  have hdecided := h.reported_decided c hc t ht
  simp [hdecided] at hstate

/-- The writer, the deque and the registration may change with a transaction's
state as long as others keep theirs. -/
lemma Inv.quiet (h : Inv s) (ht : s.transactions id = some t) (t' : Transaction Key Row)
    {writer : Option Nat} {parked outstanding : List Nat} {recovery : Bool}
    (hrecovery : s.recoveryRequired = true → recovery = true)
    (hwriter : ∀ id', id' ≠ id → s.writer = some id' → writer = some id')
    (hparked : ∀ id', id' ≠ id → id' ∈ s.parkedPrepared → id' ∈ parked)
    (houtstanding : ∀ id', id' ≠ id → id' ∈ s.outstanding → id' ∈ outstanding)
    (hlogged : ∀ wal : LsmWal Key Row, Logged wal id t →
      (s.files.wal = wal ∨ s.recoveryRequired = true) → Logged wal id t')
    (hpending : t.state = .commitPending ↔ t'.state = .commitPending)
    (hseq : t'.pendingCommitSeq = t.pendingCommitSeq)
    (hbatch : t'.durableBatch = t.durableBatch ∨ t'.state.decided = false)
    (hdecided : t.state.decided = true → t'.state.decided = true)
    (hdecided' : t'.state.decided = true → t.state.decided = true ∨ t'.durableBatch = none)
    (hheld : t'.state.unresolved = true → Held writer parked id t')
    (howner : t'.dropped = false → t'.ownsWriter = true → writer = some id)
    (hregistered : t'.dropped = false → t'.state.ended = false → id ∈ outstanding)
    (habandoned : t'.dropped = true → t'.state.unresolved = true → recovery = true) :
    Inv { s.put id t' with
      writer := writer, parkedPrepared := parked, outstanding := outstanding,
      recoveryRequired := recovery } := by
  obtain ⟨flushed, here, hok⟩ := h.filesOk
  refine h.advance (?_ : Advance s _ id t' [])
  exact {
    transactions := rfl, sstables := rfl, txnEnd := rfl, commitEnd := rfl
    wal := .refl hok.synced_le
    fallback := rfl, memtable := rfl, nextTxnId := rfl, nextCommitSeq := rfl, reported := rfl
    recovery := hrecovery, writer := hwriter, parked := hparked, outstanding := houtstanding
    txn_lt := h.txn_lt id t ht
    readable := by simp
    shaped := hok.shaped id
    logged := hlogged _ (hok.logged id t ht) (.inl rfl)
    logged_fallback := by
      intro f hf
      obtain ⟨hrec, _, _, hfok⟩ := h.fallback f hf
      exact hlogged _ (hfok.logged id t ht) (.inr hrec)
    commits := by simp
    extra_open := by simp
    pending := by
      intro t₀ ht₀ hstate
      obtain rfl : t₀ = t := by simpa [ht₀] using ht
      exact ⟨hpending.mp hstate, hseq⟩
    seq := fun q hq => .inr ⟨t, ht, hseq ▸ hq, hpending.mpr⟩
    decided := fun c hc hid => hdecided (h.reported_decided c hc t (hid ▸ ht))
    decided_reported := by
      intro hd
      rcases hdecided' hd with ht' | hnone
      · rw [hseq, hbatch.resolve_right (by simp [hd])]
        exact h.decided_reported id t ht ht'
      · exact .inl hnone
    held := hheld, owner := howner, registered := hregistered, abandoned := habandoned }

lemma LsmWal.append_eq (wal : LsmWal Key Row) (r : LogRecord Key Row) (io : AppendIo)
    (h : wal.poisoned = false) :
    wal.append r io = (wal, false) ∨
      wal.append r io = ({ wal with records := wal.records ++ [r] }, true) ∨
      wal.append r io = ({ wal with records := wal.records ++ [r], poisoned := true }, false) := by
  cases io <;> simp [LsmWal.append, h]

lemma LsmWal.Extends.snoc (hle : wal.synced ≤ wal.records.length) (hr : r.txnId = id)
    {poisoned : Bool} (hp : wal.poisoned = true → poisoned = true) :
    wal.Extends { wal with records := wal.records ++ [r], poisoned := poisoned } id [r] :=
  ⟨rfl, by simpa using hr, le_rfl, by simp; omega, hp⟩

/-- A transaction moves on to a state that is still open, with the same claim to
the writer. -/
structure Proceeds (s : LsmShared Key Row) (t t' : Transaction Key Row) : Prop where
  undecided : t.state.decided = false
  undecided' : t'.state.decided = false
  unended : t.state.ended = false
  dropped : t'.dropped = false
  owns : t'.ownsWriter = t.ownsWriter
  held : t'.state.unresolved = true → t.state.unresolved = true ∨ t.ownsWriter = true
  parked : t'.state.isParked = true → t.state.isParked = true ∧ t.state.unresolved = true
  pending : t.state = .commitPending →
    t'.state = .commitPending ∧ t'.pendingCommitSeq = t.pendingCommitSeq
  seq : ∀ q, t'.pendingCommitSeq = some q → Fresh s q ∨
    t.pendingCommitSeq = some q ∧ (t'.state = .commitPending → t.state = .commitPending)

lemma Proceeds.refl (hdropped : t.dropped = false) (h : t.state.unresolved = true) :
    Proceeds s t t :=
  have hstate := TransactionState.ended_of_unresolved h
  ⟨hstate.2, hstate.2, hstate.1, hdropped, rfl, fun h => .inl h, fun hp => ⟨hp, h⟩,
    fun h => ⟨h, rfl⟩, fun _ hq => .inr ⟨hq, fun h => h⟩⟩

section

variable (h : Inv s) (hw : Working s id t) (hp : Proceeds s t t')
include h hw hp

lemma Inv.held_of_proceeds
    (hunresolved : t'.state.unresolved = true) : Held s.writer s.parkedPrepared id t' := by
  cases hparked : t'.state.isParked with
  | true =>
    obtain ⟨hparked', hunresolved'⟩ := hp.parked hparked
    exact .inr ((h.held id t hw.at_id hunresolved').resolve_left (by simp [hparked']))
  | false =>
    rcases hp.held hunresolved with hu | howns
    · exact (h.held id t hw.at_id hu).imp_left fun ⟨hwriter, howns, _⟩ =>
        ⟨hwriter, hp.owns.trans howns, hparked⟩
    · exact .inl ⟨h.owner id t hw.at_id hw.dropped howns, hp.owns.trans howns, hparked⟩

/-- The move of a transaction that a call works on, perhaps with a record. -/
lemma Inv.log (hwal : s.files.wal.Extends wal id extra)
    (hreadable : ∀ r ∈ extra, r.tooLarge = false) (hshaped : Shaped id (recordsOf id wal.records))
    (hlogged : Logged wal id t') (hcommits : ∀ id' q, .commit id' q ∈ extra →
      t'.state = .commitPending ∧ t'.pendingCommitSeq = some q) :
    Inv { s.put id t' with files := { s.files with wal := wal } } := by
  refine h.advance (?_ : Advance s _ id t' extra)
  exact {
    transactions := rfl, sstables := rfl, txnEnd := rfl, commitEnd := rfl, wal := hwal
    fallback := rfl, memtable := rfl, nextTxnId := rfl, nextCommitSeq := rfl, reported := rfl
    recovery := fun h => h, writer := fun _ _ h => h, parked := fun _ _ h => h
    outstanding := fun _ _ h => h
    txn_lt := h.txn_lt id t hw.at_id
    readable := hreadable, shaped := hshaped, logged := hlogged
    logged_fallback := by simp [h.fallback_none hw.recovery]
    commits := hcommits
    extra_open := fun _ => hp.undecided'
    pending := by
      intro t₀ ht₀ hstate
      obtain rfl : t₀ = t := by simpa [ht₀] using hw.at_id
      exact hp.pending hstate
    seq := fun q hq => (hp.seq q hq).imp_right fun ⟨hq, hp⟩ => ⟨t, hw.at_id, hq, hp⟩
    decided := fun c hc hid => absurd hid (h.not_reported hw.at_id hp.undecided hc)
    decided_reported := by simp [hp.undecided']
    held := h.held_of_proceeds hw hp
    owner := fun _ hown => h.owner id t hw.at_id hw.dropped (hp.owns ▸ hown)
    registered := fun _ _ => h.registered id t hw.at_id hw.dropped hp.unended
    abandoned := by simp [hp.dropped] }

/-- The log has a record more or it has not; either way the transaction is
noted. -/
lemma Inv.append (io : AppendIo) (hr : r.txnId = id) (hfit : r.tooLarge = false)
    (hshaped : Shaped id (recordsOf id s.files.wal.records ++ [r]))
    (hcommit : ∀ id' q, r = .commit id' q →
      t'.state = .commitPending ∧ t'.pendingCommitSeq = some q) (hkeep : Logged s.files.wal id t')
    (hgrow : ∀ wal : LsmWal Key Row,
      recordsOf id wal.records = recordsOf id s.files.wal.records ++ [r] → Logged wal id t') :
    Inv (s.append id r io t').1 ∧ ((s.append id r io t').2 = true →
      Working (s.append id r io t').1 id t' ∧
        recordsOf id (s.append id r io t').1.files.wal.records
          = recordsOf id s.files.wal.records ++ [r]) := by
  obtain ⟨flushed, here, hok⟩ := h.filesOk
  have hrecords := recordsOf_snoc_self s.files.wal.records hr
  have hlog : ∀ poisoned, Inv { s.put id t' with files := { s.files with
      wal := { s.files.wal with records := s.files.wal.records ++ [r], poisoned := poisoned } } } :=
    fun poisoned => h.log hw hp (.snoc hok.synced_le hr (by simp [hw.healthy])) (by simpa using hfit)
      (by rw [hrecords]; exact hshaped) (hgrow _ hrecords) (by
        intro id' q hmem
        exact hcommit id' q (mem_singleton.mp hmem).symm)
  rcases s.files.wal.append_eq r io hw.healthy with heq | heq | heq
  · refine ⟨?_, by simp [LsmShared.append, heq]⟩
    have hkept := h.log hw hp (.refl hok.synced_le) (by simp) (hok.shaped id) hkeep (by simp)
    simpa [LsmShared.append, heq] using hkept
  · refine ⟨by simpa [LsmShared.append, heq, hw.healthy] using hlog false, fun _ => ?_⟩
    refine ⟨⟨?_, hp.dropped, hw.recovery, ?_⟩, ?_⟩ <;>
      simp [LsmShared.append, put, heq, hw.healthy, hrecords]
  · exact ⟨by simpa [LsmShared.append, heq] using hlog true, by simp [LsmShared.append, heq]⟩

end

lemma LsmWal.sync_eq (wal : LsmWal Key Row) (ok : Bool) :
    wal.sync ok = (wal, false) ∨ wal.sync ok = ({ wal with synced := wal.records.length }, true) := by
  unfold LsmWal.sync
  split
  · exact .inl rfl
  · split
    · exact .inr rfl
    · exact .inl rfl

/-- Only the log changes, and only by more of it being synced. -/
lemma Inv.sync (h : Inv s) (ok : Bool) : Inv (s.sync ok).1 := by
  obtain ⟨flushed, here, hok, hmem⟩ := h.current
  rcases s.files.wal.sync_eq ok with heq | heq
  · rwa [show (s.sync ok).1 = s from by simp [LsmShared.sync, heq]]
  have hs : (s.sync ok).1 = { s with files := { s.files with
      wal := { s.files.wal with synced := s.files.wal.records.length } } } := by
    simp [LsmShared.sync, heq]
  rw [hs]
  refine { h with
    current := ⟨flushed, here, { hok with
      logged := fun id t ht => ?_
      synced_le := le_rfl
      here_logged := fun c hc => ?_ }, hmem⟩
    fallback := fun f hf => ?_ }
  · exact (hok.logged id t ht).mono rfl (fun _ => by simp [LsmWal.Synced]) fun h => h
  · simp only [take_length]
    exact ⟨mem_of_mem_take (hok.here_logged c hc).1,
      mem_of_mem_take (hok.here_logged c hc).2⟩
  · obtain ⟨hrec, flushed, here, hfok⟩ := h.fallback f hf
    exact ⟨hrec, flushed, here, { hfok with }⟩

lemma Inv.of_sync {ok synced : Bool} (h : Inv s) (heq : s.sync ok = (s', synced)) : Inv s' := by
  simpa [heq] using h.sync ok

lemma LsmShared.sync_ok {ok : Bool} (hsync : s.sync ok = (s', true)) :
    s' = { s with files := { s.files with
      wal := { s.files.wal with synced := s.files.wal.records.length } } } ∧
      ∀ id, s'.files.wal.Synced id := by
  rcases s.files.wal.sync_eq ok with heq | heq <;>
    simp [sync, heq] at hsync
  subst hsync
  exact ⟨rfl, fun id => by simp [LsmWal.Synced]⟩

/-- Reserving a longer range of ids changes nothing that a reopen relies on. -/
lemma FilesOk.reserve {f f' : Files Key Row} {flushed here : List (Commit Key Row)}
    (h : FilesOk s f flushed here) (hsstables : f'.sstables = f.sstables) (hwal : f'.wal = f.wal)
    (htransactions : s'.transactions = s.transactions) (hreported : s'.reported = s.reported)
    (hcommit : s.nextCommitSeq ≤ s'.nextCommitSeq) (htxn : s.nextTxnId ≤ s'.nextTxnId)
    (hcommitEnd : s'.nextCommitSeq ≤ f'.commitReservationEnd)
    (htxnEnd : s'.nextTxnId ≤ f'.txnReservationEnd) : FilesOk s' f' flushed here where
  shaped := hwal ▸ h.shaped
  logged := by rw [hwal, htransactions]; exact h.logged
  synced_le := hwal ▸ h.synced_le
  distinct := hwal ▸ h.distinct
  commit_lt := by
    rw [hwal]
    exact fun id q hq => ⟨(h.commit_lt id q hq).1, (h.commit_lt id q hq).2.trans_le hcommit⟩
  commit_end := hcommitEnd
  txn_lt := by
    rw [hwal]
    exact fun r hr => (h.txn_lt r hr).trans_le htxn
  txn_end := htxnEnd
  readable := hwal ▸ h.readable
  attributed := by rw [hwal, htransactions, hreported]; exact h.attributed
  rows := by rw [hsstables]; exact h.rows
  sst_lt := by
    rw [hsstables]
    exact fun e he => (h.sst_lt e he).trans_le hcommit
  sst_above := by
    unfold InUse
    rw [hsstables, hwal, htransactions]
    exact h.sst_above
  flushed_above := by
    unfold InUse
    rw [hwal, htransactions]
    exact h.flushed_above
  flushed_gone := by rw [hwal]; exact h.flushed_gone
  here_logged := by rw [hwal]; exact h.here_logged
  reported := by rw [hreported]; exact h.reported

/-- The store after drawing an id: one counter is further and the manifest may
reserve more; with a rename that may be lost, nothing was drawn. -/
lemma Inv.reserve (h : Inv s) (hrec : s.recoveryRequired = false) {nextTxnId nextCommitSeq : Nat}
    (htxn : s.nextTxnId ≤ nextTxnId) (hcommit : s.nextCommitSeq ≤ nextCommitSeq)
    (htxnEnd : nextTxnId ≤ txnEnd) (hcommitEnd : nextCommitSeq ≤ commitEnd) :
    Inv { s with
      files := { s.files with txnReservationEnd := txnEnd, commitReservationEnd := commitEnd }
      nextTxnId := nextTxnId, nextCommitSeq := nextCommitSeq } := by
  obtain ⟨flushed, here, hok, hmem⟩ := h.current
  exact { h with
    current := ⟨flushed, here, hok.reserve rfl rfl rfl rfl hcommit htxn hcommitEnd htxnEnd, hmem⟩
    fallback := by simp [h.fallback_none hrec]
    commit_pos := h.commit_pos.trans_le hcommit
    txn_lt := fun id t ht => (h.txn_lt id t ht).trans_le htxn
    seq_lt := fun id t q ht hq =>
      ⟨(h.seq_lt id t q ht hq).1, (h.seq_lt id t q ht hq).2.trans_le hcommit⟩
    reported_lt := fun c hc =>
      ⟨(h.reported_lt c hc).1.trans_le htxn, (h.reported_lt c hc).2.trans_le hcommit⟩ }

lemma Inv.reserve_unsynced (h : Inv s) (htxnEnd : s.nextTxnId ≤ txnEnd)
    (hcommitEnd : s.nextCommitSeq ≤ commitEnd) :
    Inv { s with
      files := { s.files with txnReservationEnd := txnEnd, commitReservationEnd := commitEnd }
      fallback := some s.files, recoveryRequired := true } := by
  obtain ⟨flushed, here, hok, hmem⟩ := h.current
  refine { h with
    current := ⟨flushed, here, hok.reserve rfl rfl rfl rfl le_rfl le_rfl hcommitEnd htxnEnd, hmem⟩
    fallback := fun f hf => ?_
    abandoned := fun _ _ _ _ _ => rfl }
  obtain rfl : s.files = f := by simpa using hf
  exact ⟨rfl, flushed, here, { hok with }⟩

lemma Inv.fresh (h : Inv s) (hrec : s.recoveryRequired = false) : Fresh { s with
      files := { s.files with commitReservationEnd := commitEnd }
      nextCommitSeq := s.nextCommitSeq + 1 } s.nextCommitSeq := by
  obtain ⟨flushed, here, hok⟩ := h.filesOk
  exact {
    pos := h.commit_pos
    lt := Nat.lt_succ_self _
    no_fallback := h.fallback_none hrec
    above := hok.sst_lt
    reported_lt := fun c hc => (h.reported_lt c hc).2
    unused := fun id t ht hq => absurd (h.seq_lt id t _ ht hq).2 (lt_irrefl _)
    unlogged := fun id hq => absurd (hok.commit_lt id _ hq).2 (lt_irrefl _) }

lemma Inv.allocateCommitSeq (h : Inv s) (hw : Working s id t) (io : ManifestPublish) :
    (∃ s', s.allocateCommitSeq io = (s', none) ∧ Inv s') ∨
      ∃ s', s.allocateCommitSeq io = (s', some s.nextCommitSeq) ∧ Inv s' ∧ Working s' id t ∧
        Fresh s' s.nextCommitSeq ∧ s'.files.wal = s.files.wal := by
  obtain ⟨flushed, here, hok⟩ := h.filesOk
  unfold LsmShared.allocateCommitSeq
  split
  · rename_i hlt
    exact .inr ⟨_, rfl, h.reserve hw.recovery le_rfl (Nat.le_succ _) hok.txn_end hlt,
      ⟨hw.at_id, hw.dropped, hw.recovery, hw.healthy⟩, h.fresh hw.recovery, rfl⟩
  cases io with
  | installed =>
    refine .inr ⟨_, rfl, h.reserve hw.recovery le_rfl (Nat.le_succ _) hok.txn_end ?_,
      ⟨hw.at_id, hw.dropped, hw.recovery, hw.healthy⟩, h.fresh hw.recovery, rfl⟩
    simp [allocatorReservation]
  | beforeInstall => exact .inl ⟨s, rfl, h⟩
  | installedButUnsynced =>
    exact .inl ⟨_, rfl, h.reserve_unsynced hok.txn_end (Nat.le_add_right _ _)⟩

/-- The state behind the commit of a transaction whose records are synced. -/
def LsmShared.applied (s : LsmShared Key Row) (id : Nat) (t : Transaction Key Row) (q : Nat)
    (b : Batch Key Row) : LsmShared Key Row :=
  LsmShared.put { s with
    memtable := s.memtable ++ b.entries q
    reported := s.reported ++ [⟨id, q, b⟩] } id { t with state := .changeFinalizePending }

variable {b : Batch Key Row} {l : List (LogRecord Key Row)} {flushed here : List (Commit Key Row)}

/-- What holds of every transaction and of the new entry holds after it is put. -/
lemma forall_applied {P : Nat → Transaction Key Row → Prop}
    (hold : ∀ id' t₀, s.transactions id' = some t₀ → P id' t₀)
    (hnew : P id { t with state := .changeFinalizePending }) (id' : Nat) (t₀ : Transaction Key Row)
    (ht₀ : (s.applied id t q b).transactions id' = some t₀) : P id' t₀ := by
  rcases update_eq_some ht₀ with ⟨rfl, ⟨⟩⟩ | ⟨-, ht₀⟩
  · exact hnew
  · exact hold id' t₀ ht₀

lemma InUse.of_applied {q' : Nat} (h : InUse (s.applied id t q b) s.files q') :
    InUse s s.files q' := by
  rcases h with hlog | ⟨id', t₀, ht₀, hst, hsq⟩
  · exact .inl hlog
  · rcases update_eq_some ht₀ with ⟨-, ⟨⟩⟩ | ⟨-, ht₀⟩
    · cases hst
    · exact .inr ⟨id', t₀, ht₀, hst, hsq⟩

lemma mem_take_of_synced (hsynced : s.files.wal.Synced id) {r : LogRecord Key Row}
    (hr : r ∈ recordsOf id s.files.wal.records) :
    r ∈ s.files.wal.records.take s.files.wal.synced := by
  obtain ⟨hr, hid⟩ := mem_recordsOf.mp hr
  rw [← take_append_drop s.files.wal.synced s.files.wal.records, mem_append] at hr
  exact hr.resolve_right fun hr => hsynced r hr hid

lemma FilesOk.applied (hok : FilesOk s s.files flushed here) (ht : s.transactions id = some t)
    (hb : t.durableBatch = some b) (hq : t.pendingCommitSeq = some q) (hhead : Head id b l)
    (hrecords : recordsOf id s.files.wal.records = l ++ [.commit id q])
    (hsynced : s.files.wal.Synced id) :
    FilesOk (s.applied id t q b) s.files flushed (here ++ [⟨id, q, b⟩]) := by
  refine { hok with
    logged := forall_applied hok.logged (.inr ⟨b, q, l, hb, hq, hhead, hrecords, hsynced⟩)
    sst_above := fun q' hq' => hok.sst_above q' hq'.of_applied
    flushed_above := fun q' hq' => hok.flushed_above q' hq'.of_applied
    attributed := fun id' q' hcommit => ?_
    here_logged := fun c hc => ?_
    reported := fun c => ?_ }
  · rcases hok.attributed id' q' hcommit with ⟨c, hc, hid⟩ | ⟨t₀, ht₀, hst, hsq⟩
    · exact .inl ⟨c, mem_append_left _ hc, hid⟩
    by_cases hid : id' = id
    · subst hid
      obtain rfl : t₀ = t := by simpa [ht₀] using ht
      exact .inl ⟨⟨id', q, b⟩, mem_append_right _ mem_cons_self, rfl, by simpa [hq] using hsq⟩
    · exact .inr ⟨t₀, by simp [LsmShared.applied, put, hid, ht₀], hst, hsq⟩
  · rcases mem_append.mp hc with hc | hc
    · exact hok.here_logged c hc
    · obtain rfl : c = ⟨id, q, b⟩ := by simpa using hc
      exact ⟨mem_take_of_synced hsynced (by simp [hrecords, hhead.batch_mem]),
        mem_take_of_synced hsynced (by simp [hrecords])⟩
  · simp only [LsmShared.applied, put, mem_append, hok.reported, mem_singleton]
    tauto

lemma Inv.seq_unique_applied (h : Inv s) (ht : s.transactions id = some t) :
    ∀ id₁ id₂ t₁ t₂ q', (s.applied id t q b).transactions id₁ = some t₁ →
      (s.applied id t q b).transactions id₂ = some t₂ →
      t₁.pendingCommitSeq = some q' → t₂.pendingCommitSeq = some q' → id₁ = id₂ := by
  intro id₁ id₂ t₁ t₂ q' ht₁ ht₂ hsq₁ hsq₂
  rcases update_eq_some ht₁ with ⟨rfl, ⟨⟩⟩ | ⟨-, hold₁⟩ <;>
    rcases update_eq_some ht₂ with ⟨rfl, ⟨⟩⟩ | ⟨-, hold₂⟩
  · rfl
  · exact h.seq_unique id₁ id₂ t t₂ q' ht hold₂ hsq₁ hsq₂
  · exact h.seq_unique id₁ id₂ t₁ t q' hold₁ ht hsq₁ hsq₂
  · exact h.seq_unique id₁ id₂ t₁ t₂ q' hold₁ hold₂ hsq₁ hsq₂

lemma mem_memtable_applied (hmem : ∀ e, e ∈ s.memtable ↔ ∃ c ∈ here, e ∈ c.entries)
    (e : VersionedEntry Key Row) : e ∈ (s.applied id t q b).memtable ↔
      ∃ c ∈ here ++ [⟨id, q, b⟩], e ∈ c.entries := by
  simp only [LsmShared.applied, put, mem_append, hmem, mem_singleton]
  constructor
  · rintro (⟨c, hc, he⟩ | he)
    · exact ⟨c, .inl hc, he⟩
    · exact ⟨_, .inr rfl, he⟩
  · rintro ⟨c, hc | rfl, he⟩
    · exact .inl ⟨c, hc, he⟩
    · exact .inr he

section Apply

variable [DecidableEq Key] [DecidableEq Row] {mutations : List (Key × Option Row)} {version : Nat}

lemma applyMutations_eq {memtable' : List (VersionedEntry Key Row)}
    (h : applyMutations version mutations memtable = some memtable') :
    memtable' = memtable ++ mutations.map fun (key, value) => ⟨key, version, value⟩ := by
  induction mutations generalizing memtable with
  | nil => by_cases hv : version = 0 <;> simp_all [applyMutations]
  | cons m rest ih =>
    rw [applyMutations] at h
    split at h
    · cases h
    · simpa using ih h

/-- Mutations of different keys at a version nothing else has go in. -/
lemma applyMutations_ok (hpos : 0 < version) (hnodup : (mutations.map Prod.fst).Nodup)
    (hfresh : ∀ e ∈ memtable, e.version = version → e.key ∉ mutations.map Prod.fst) :
    applyMutations version mutations memtable =
      some (memtable ++ mutations.map fun (key, value) => ⟨key, version, value⟩) := by
  induction mutations generalizing memtable with
  | nil => simp [applyMutations, hpos.ne']
  | cons m rest ih =>
    obtain ⟨key, value⟩ := m
    rw [applyMutations, if_neg, ih]
    · simp
    · exact (nodup_cons.mp hnodup).2
    · intro e he hv
      rcases mem_append.mp he with he | he
      · exact fun hmem => hfresh e he hv (by simp at hmem ⊢; exact .inr hmem)
      · obtain rfl : e = ⟨key, version, value⟩ := by simpa using he
        exact (nodup_cons.mp hnodup).1
    · simp only [any_eq_true, decide_eq_true_eq, not_exists, not_and]
      intro e he hkey hv
      exact absurd (by simp [hkey]) (hfresh e he hv)

lemma applyCommit_eq (hb : t.durableBatch = some b) (hq : t.pendingCommitSeq = some q)
    (happly : s.applyCommit id t = some s') :
    s'.put id { t with state := .changeFinalizePending } = s.applied id t q b := by
  simp only [applyCommit, hb, hq, Option.bind_eq_bind, Option.bind_some,
    Option.bind_eq_some_iff, Option.pure_def, Option.some.injEq] at happly
  obtain ⟨memtable, happly, rfl⟩ := happly
  rw [applyMutations_eq happly]
  rfl

/-- A commit whose records are synced becomes visible and counts as reported. -/
lemma Inv.apply (h : Inv s) (hw : Working s id t) (hstate : t.state = .commitPending)
    (hb : t.durableBatch = some b) (hq : t.pendingCommitSeq = some q) (hhead : Head id b l)
    (hrecords : recordsOf id s.files.wal.records = l ++ [.commit id q])
    (hsynced : s.files.wal.Synced id) (happly : s.applyCommit id t = some s') :
    Inv (s'.put id { t with state := .changeFinalizePending }) := by
  obtain ⟨flushed, here, hok, hmem⟩ := h.current
  rw [applyCommit_eq hb hq happly]
  refine
    { current := ⟨flushed, _, hok.applied hw.at_id hb hq hhead hrecords hsynced,
        mem_memtable_applied hmem⟩
      fallback := by simp [LsmShared.applied, put, h.fallback_none hw.recovery]
      commit_pos := h.commit_pos
      txn_lt := forall_applied h.txn_lt (h.txn_lt id t hw.at_id)
      seq_unique := h.seq_unique_applied hw.at_id
      held := forall_applied h.held nofun
      owner := forall_applied h.owner (h.owner id t hw.at_id)
      registered := forall_applied h.registered fun hdropped _ =>
        h.registered id t hw.at_id hdropped (by rw [hstate]; rfl)
      abandoned := forall_applied h.abandoned fun _ => nofun
      seq_lt := fun id' t₀ q' => forall_applied (fun id' t₀ => h.seq_lt id' t₀ q')
        (h.seq_lt id t q' hw.at_id) id' t₀
      seq_logged := fun id₁ id₂ t₀ q' => forall_applied (fun id' t₀ => h.seq_logged id' id₂ t₀ q')
        (h.seq_logged id id₂ t q' hw.at_id) id₁ t₀
      reported_lt := fun c hc => ?_
      reported_decided := fun c hc t₀ ht₀ => ?_
      decided_reported := fun id' t₀ ht₀ hdecided => ?_ }
  · rcases mem_append.mp hc with hc | hc
    · exact h.reported_lt c hc
    · obtain rfl : c = ⟨id, q, b⟩ := by simpa using hc
      exact ⟨h.txn_lt id t hw.at_id, (h.seq_lt id t q hw.at_id hq).2⟩
  · rcases update_eq_some ht₀ with ⟨-, ⟨⟩⟩ | ⟨hid, ht₀⟩
    · rfl
    · rcases mem_append.mp hc with hc | hc
      · exact h.reported_decided c hc t₀ ht₀
      · obtain rfl : c = ⟨id, q, b⟩ := by simpa using hc
        exact absurd rfl hid
  · rcases update_eq_some ht₀ with ⟨rfl, ⟨⟩⟩ | ⟨-, ht₀⟩
    · exact .inr ⟨b, q, hb, hq, mem_append_right _ mem_cons_self⟩
    · refine (h.decided_reported id' t₀ ht₀ hdecided).imp_right ?_
      rintro ⟨b', q', hb', hq', hc⟩
      exact ⟨b', q', hb', hq', mem_append_left _ hc⟩

end Apply

end Netbadb.Lsm.Engine
