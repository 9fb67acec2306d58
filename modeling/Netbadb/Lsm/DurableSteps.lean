import Netbadb.Lsm.DurableCalls

/-!
The calls on an LSM store one by one, and the step lemma they add up to.
-/

namespace Netbadb.Lsm.Engine

open List TransactionState LsmShared Prod LsmShared

variable {Key Row : Type} {s s' : LsmShared Key Row} {id q d : Nat} {t t' : Transaction Key Row}
  {state : TransactionState} {b : Batch Key Row} {wal : LsmWal Key Row}

lemma LsmShared.ready_eq (h : s.ready = true) :
    s.recoveryRequired = false ∧ s.files.wal.poisoned = false := by
  simpa [ready] using h

lemma Inv.takeWriter (h : Inv s) (ht : s.transactions id = some t) (hactive : t.state = .active) :
    Inv (s.takeWriter id t) := by
  unfold LsmShared.takeWriter
  split
  · rename_i hfree
    refine h.quiet ht { t with ownsWriter := true } (fun h => h) ?_ (fun _ _ h => h)
      (fun _ _ h => h) (fun _ h _ => h) .rfl rfl (.inl rfl) (fun h => h) (fun h => .inl h)
      (by simp [hactive, unresolved]) (fun _ _ => rfl)
      (h.registered id t ht) (by simp [hactive, unresolved])
    intro id' hid hwriter
    simp [hwriter, hid] at hfree
  · exact h

lemma LsmShared.flushMemtable_transactions (io : ManifestPublish) (cleaned : Bool) :
    (s.flushMemtable io cleaned).1.transactions = s.transactions := by
  unfold flushMemtable
  split
  · rfl
  · cases io <;> rfl

lemma LsmShared.flushMemtable_recovery {io : ManifestPublish} {cleaned : Bool}
    (h : s.flushMemtable io cleaned = (s', true)) : s'.recoveryRequired = s.recoveryRequired := by
  unfold flushMemtable at h
  split at h
  · cases h; rfl
  · cases io <;> cases h
    rfl

/-- Taking the free writer: whoever is unresolved by then is parked. -/
lemma Inv.acquireWriter (h : Inv s) (rowBytes : Row → Nat) (io : ManifestPublish) (cleaned : Bool)
    (hparked : s.flushesFirst rowBytes = true → ∀ id' ∈ s.parkedPrepared, ∀ t,
      s.transactions id' = some t → t.state.unresolved = false) :
    Inv (s.acquireWriter rowBytes id io cleaned) := by
  unfold LsmShared.acquireWriter
  split
  · exact h
  rename_i t hhandle
  obtain ⟨ht, -⟩ := handle_eq_some hhandle
  split
  · rename_i hcall
    obtain ⟨hready, hactive, -⟩ := hcall
    split
    · rename_i hflush
      have hquiet : ∀ id' t', s.transactions id' = some t' →
          t'.state.unresolved = false := by
        intro id' t' ht'
        by_contra hu
        rw [Bool.not_eq_false] at hu
        have hfree : s.writer = none := by
          simpa [flushesFirst] using (Bool.and_eq_true_iff.mp hflush).2
        rcases h.held id' t' ht' hu with ⟨hwriter, -⟩ | hmem
        · simp [hfree] at hwriter
        · simp [hparked hflush id' hmem t' ht'] at hu
      have hinv := h.flushMemtable (ready_eq hready).1 hquiet io cleaned
      have hsame := flushMemtable_transactions (s := s) io cleaned
      split
      · rename_i s₁ heq
        rw [heq] at hinv hsame
        exact hinv.takeWriter (by rw [hsame]; exact ht) hactive
      · next s₁ heq => simpa [heq] using hinv
    · exact h.takeWriter ht hactive
  · exact h

lemma Inv.stageWrites (h : Inv s) (batch : Batch Key Row) : Inv (s.stageWrites id batch) := by
  unfold LsmShared.stageWrites
  split
  · exact h
  rename_i t hhandle
  obtain ⟨ht, hdropped⟩ := handle_eq_some hhandle
  split
  · exact h.quiet ht { t with pending := batch } (fun h => h) (fun _ _ h => h)
      (fun _ _ h => h) (fun _ _ h => h) (fun _ h _ => h) .rfl rfl (.inl rfl) (fun h => h)
      (fun h => .inl h) (h.held id t ht) (h.owner id t ht) (h.registered id t ht)
      (h.abandoned id t ht)
  · exact h

/-- A new transaction has nothing in any log. -/
lemma Inv.register (h : Inv s) (hnone : ∀ r ∈ s.files.wal.records, r.txnId ≠ id)
    (hrec : s.recoveryRequired = false) (hlt : id < s.nextTxnId)
    (hreported : ∀ c ∈ s.reported, c.txnId ≠ id) (hnew : s.transactions id = none) :
    Inv { s.put id ⟨.active, .empty, none, none, none, false, false⟩ with
      outstanding := id :: s.outstanding } := by
  obtain ⟨flushed, here, hok⟩ := h.filesOk
  have hrecords : recordsOf id s.files.wal.records = [] :=
    filter_eq_nil_iff.mpr (by simpa using hnone)
  refine h.advance (?_ : Advance s _ id ⟨.active, .empty, none, none, none, false, false⟩ [])
  exact {
    transactions := rfl, sstables := rfl, txnEnd := rfl, commitEnd := rfl
    wal := .refl hok.synced_le
    fallback := rfl, memtable := rfl, nextTxnId := rfl, nextCommitSeq := rfl, reported := rfl
    recovery := fun h => h, writer := fun _ _ h => h, parked := fun _ _ h => h
    outstanding := fun _ _ h => mem_cons_of_mem _ h
    txn_lt := hlt
    readable := by simp
    shaped := hok.shaped id
    logged := ⟨rfl, .inl hrecords⟩
    logged_fallback := by simp [h.fallback_none hrec]
    commits := by simp
    extra_open := by simp
    pending := by simp [hnew]
    seq := by simp
    decided := fun c hc hid => absurd hid (hreported c hc)
    decided_reported := by simp [decided]
    held := by simp [unresolved]
    owner := by simp
    registered := fun _ _ => mem_cons_self
    abandoned := by simp }

lemma Inv.beginTransaction (h : Inv s) (io : ManifestPublish) : Inv (s.beginTransaction io) := by
  obtain ⟨flushed, here, hok⟩ := h.filesOk
  unfold LsmShared.beginTransaction
  split
  · rename_i hready
    have hrec := (ready_eq hready).1
    have hregister : ∀ txnEnd, s.nextTxnId + 1 ≤ txnEnd →
        ∀ s₁, s₁ = { s with
          files := { s.files with txnReservationEnd := txnEnd }, nextTxnId := s.nextTxnId + 1 } →
        Inv { s₁.put s.nextTxnId ⟨.active, .empty, none, none, none, false, false⟩ with
          outstanding := s.nextTxnId :: s₁.outstanding } := by
      rintro txnEnd hle s₁ rfl
      refine (h.reserve hrec (Nat.le_succ _) le_rfl hle hok.commit_end).register ?_ hrec
        (Nat.lt_succ_self _) ?_ ?_
      · exact fun r hr => (hok.txn_lt r hr).ne
      · exact fun c hc => (h.reported_lt c hc).1.ne
      · by_contra hsome
        obtain ⟨t, ht⟩ := Option.ne_none_iff_exists'.mp hsome
        exact lt_irrefl _ (h.txn_lt _ t ht)
    unfold allocateTxnId
    split_ifs with hlt
    · exact hregister _ hlt _ rfl
    · cases io with
      | installed => exact hregister _ (by simp [allocatorReservation]) _ rfl
      | beforeInstall => exact h
      | installedButUnsynced => exact h.reserve_unsynced (Nat.le_add_right _ _) hok.commit_end
  · exact h

/-- The batch and the Prepare record of a transaction are in the log. -/
def HasPrepared (s : LsmShared Key Row) (id : Nat) (t : Transaction Key Row) : Prop :=
  ∃ b d, t.durableBatch = some b ∧ t.preparedDatabaseTxnId = some d ∧
    recordsOf id s.files.wal.records = [.mutationBatch id b, .prepare id d]

lemma Inv.appendPrepare (h : Inv s) (hw : Working s id t) (hstate : t.state = .preparePending)
    (hb : t.durableBatch = some b) (hd : t.preparedDatabaseTxnId = some d)
    (hrecords : recordsOf id s.files.wal.records = [.mutationBatch id b]) {io : AppendIo}
    {s' : LsmShared Key Row} {ok : Bool} (hrun : s.append id (.prepare id d) io t = (s', ok)) :
    Inv s' ∧ (ok = true → Working s' id t ∧ HasPrepared s' id t) := by
  have happend := h.append hw (.refl hw.dropped (by rw [hstate]; rfl)) (r := .prepare id d) io
    rfl rfl (by rw [hrecords]; exact .head (.prepared d)) (by simp)
    (h.logged hw.at_id) (by
      intro wal hwal
      unfold Logged
      rw [hstate]
      exact ⟨b, d, hb, hd, .inr (by rw [hwal, hrecords]; rfl)⟩)
  rw [hrun] at happend
  refine ⟨happend.1, fun hok => ⟨(happend.2 hok).1, b, d, hb, hd, ?_⟩⟩
  rw [(happend.2 hok).2, hrecords]
  rfl

lemma LsmWal.hasPrepare_iff : wal.hasPrepare id d = true ↔ .prepare id d ∈ wal.records := by
  simp only [LsmWal.hasPrepare, any_eq_true]
  constructor
  · rintro ⟨r, hr, hmatch⟩
    cases r <;> simp at hmatch
    obtain ⟨rfl, rfl⟩ := hmatch
    exact hr
  · exact fun h => ⟨_, h, by simp⟩

section

variable (h : Inv s)
include h

/-- Wherever the two appends stop, the invariant holds. -/
lemma Inv.logPrepare (hw : Working s id t)
    (hfit : t.state = .active → t.pending.mutations.length ≤ maxPendingMutations)
    (d : Nat) (first second : AppendIo) :
    Inv (s.logPrepare id d t first second).1 ∧
      ∀ t', (s.logPrepare id d t first second).2 = some t' →
        Working (s.logPrepare id d t first second).1 id t' ∧ t'.state = .preparePending ∧
          HasPrepared (s.logPrepare id d t first second).1 id t' := by
  unfold LsmShared.logPrepare
  split
  · exact ⟨h, by simp⟩
  cases hstate : t.state with
  | active =>
    dsimp only
    split
    · rename_i howns
      have hbatch := h.appendBatch hw hstate howns (hfit hstate) { t with
          state := .preparePending, durableBatch := some t.pending,
          preparedDatabaseTxnId := some d } rfl rfl hw.dropped howns
        (fun q hq => .inr ⟨hq, by simp⟩)
        (fun wal hwal => ⟨t.pending, d, rfl, rfl, .inl hwal⟩) first
      split
      · next s₁ heq => exact ⟨by simpa [heq] using hbatch.1, by simp⟩
      rename_i s₁ heq
      rw [heq] at hbatch
      obtain ⟨hw₁, hrecords⟩ := hbatch.2 rfl
      split
      · next hrun => exact ⟨(hbatch.1.appendPrepare hw₁ rfl rfl rfl hrecords hrun).1, by simp⟩
      next hrun =>
      obtain ⟨hinv, hok⟩ := hbatch.1.appendPrepare hw₁ rfl rfl rfl hrecords hrun
      refine ⟨hinv, fun t' ht' => ?_⟩
      obtain rfl := Option.some.inj ht'
      exact ⟨(hok rfl).1, rfl, (hok rfl).2⟩
    · exact ⟨h, by simp⟩
  | preparePending =>
    dsimp only
    have hlogged := h.logged hw.at_id
    unfold Logged at hlogged
    rw [hstate] at hlogged
    obtain ⟨b, d', hb, hd, hrecords⟩ := hlogged
    split
    · rename_i hsame
      obtain rfl : d' = d := by simpa [hd] using hsame
      split
      · rename_i hhas
        have hmem := prepare_mem_recordsOf.mpr (LsmWal.hasPrepare_iff.mp hhas)
        refine ⟨h, fun t' ht' => ?_⟩
        obtain rfl := Option.some.inj ht'
        exact ⟨hw, hstate, b, d', hb, hd, hrecords.resolve_left fun hl => by simp [hl] at hmem⟩
      · rename_i hhas
        have hl : recordsOf id s.files.wal.records = [.mutationBatch id b] := by
          refine hrecords.resolve_right fun hl => hhas (LsmWal.hasPrepare_iff.mpr ?_)
          exact prepare_mem_recordsOf.mp (by simp [hl])
        split
        · next hrun => exact ⟨(h.appendPrepare hw hstate hb hd hl hrun).1, by simp⟩
        next hrun =>
        obtain ⟨hinv, hok⟩ := h.appendPrepare hw hstate hb hd hl hrun
        refine ⟨hinv, fun t' ht' => ?_⟩
        obtain rfl := Option.some.inj ht'
        exact ⟨(hok rfl).1, hstate, (hok rfl).2⟩
    · exact ⟨h, by simp⟩
  | _ => exact ⟨h, by simp⟩

/-- Once its records are synced, a transaction counts as prepared. -/
lemma Inv.notePrepared_one (hw : Working s id t)
    (hstate : t.state = .preparePending ∧ state = .prepared ∨
      (t.state = .parkedPreparePending ∨ t.state = .parkedPrepared) ∧ state = .parkedPrepared)
    (hhas : HasPrepared s id t) (hsynced : s.files.wal.Synced id) :
    Inv (s.put id { t with state := state }) := by
  obtain ⟨b, d, hb, hd, hrecords⟩ := hhas
  have hunresolved : t.state.unresolved = true ∧ t.state ≠ .commitPending := by
    rcases hstate with ⟨h, -⟩ | ⟨h | h, -⟩ <;> simp [h, unresolved]
  have hunresolved' : state.unresolved = true ∧ state ≠ .commitPending := by
    rcases hstate with ⟨-, rfl⟩ | ⟨-, rfl⟩ <;> simp [unresolved]
  have hheld := h.held id t hw.at_id hunresolved.1
  refine h.quiet hw.at_id { t with state := state } (fun h => h) (fun _ _ h => h)
    (fun _ _ h => h) (fun _ _ h => h) ?_ ?_ rfl (.inl rfl) ?_ ?_
    ?_ (h.owner id t hw.at_id) ?_ ?_
  · rintro wal - hwal
    obtain rfl := hwal.resolve_right (ne_true_of_eq_false hw.recovery)
    unfold Logged
    rcases hstate with ⟨-, rfl⟩ | ⟨-, rfl⟩ <;> exact ⟨b, d, hb, hd, hrecords, hsynced⟩
  · exact ⟨fun h => absurd h hunresolved.2, fun h => absurd h hunresolved'.2⟩
  · simp [(ended_of_unresolved hunresolved.1).2]
  · simp [(ended_of_unresolved hunresolved'.1).2]
  · intro _
    rcases hstate with ⟨-, rfl⟩ | ⟨hparked, rfl⟩
    · exact hheld.imp_left fun hh => ⟨hh.1, hh.2.1, rfl⟩
    · refine .inr (hheld.resolve_left ?_)
      rcases hparked with hs | hs <;> simp [hs, isParked]
  · exact fun hd _ => h.registered id t hw.at_id hd
      (ended_of_unresolved hunresolved.1).1
  · exact fun hd _ => h.abandoned id t hw.at_id hd hunresolved.1

lemma Inv.prepare (d : Nat) (first second : AppendIo) (sync : Bool)
    (hfit : ∀ t, s.transactions id = some t → t.state = .active →
      t.pending.mutations.length ≤ maxPendingMutations) :
    Inv (s.prepare id d first second sync) := by
  unfold LsmShared.prepare
  split
  · exact h
  rename_i t hhandle
  split
  · rename_i hready
    have hw := working hhandle hready
    have hlog := h.logPrepare hw (hfit t hw.at_id) d first second
    split
    · next s₁ heq => simpa [heq] using hlog.1
    rename_i s₁ t₁ heq
    rw [heq] at hlog
    obtain ⟨hw₁, hstate, hhas⟩ := hlog.2 t₁ rfl
    split
    · next s₂ heq₂ => exact hlog.1.of_sync heq₂
    rename_i s₂ heq₂
    have hsync := hlog.1.of_sync heq₂
    obtain ⟨rfl, hall⟩ := sync_ok heq₂
    exact hsync.notePrepared_one ⟨hw₁.at_id, hw₁.dropped, hw₁.recovery, hw₁.healthy⟩
      (.inl ⟨hstate, rfl⟩) hhas (hall id)
  · exact h

/-- Parking: the transaction is in the deque, so it needs the writer no more. -/
lemma Inv.park (ht : s.transactions id = some t) (hdropped : t.dropped = false)
    (hunresolved : t.state.unresolved = true) (hpending : t.state ≠ .commitPending)
    (hstate : state = .parkedPreparePending ∨ state = .parkedPrepared)
    (hlogged : ∀ wal : LsmWal Key Row, Logged wal id t →
      (s.files.wal = wal ∨ s.recoveryRequired = true) →
        Logged wal id { t with state := state, ownsWriter := false }) :
    Inv (s.park id t state) := by
  have hunresolved' : state.unresolved = true ∧ state ≠ .commitPending := by
    rcases hstate with rfl | rfl <;> simp [unresolved]
  refine h.quiet ht { t with state := state, ownsWriter := false } (fun h => h) ?_
    (fun _ _ h => mem_append_left _ h) (fun _ _ h => h) hlogged ?_ rfl (.inl rfl) ?_ ?_
    (fun _ => .inr (by simp)) (by simp) ?_ (by simp [hdropped])
  · intro id' hid hwriter
    rw [if_neg (by rw [hwriter]; simpa using hid)]
    exact hwriter
  · exact ⟨fun h => absurd h hpending, fun h => absurd h hunresolved'.2⟩
  · simp [(ended_of_unresolved hunresolved).2]
  · simp [(ended_of_unresolved hunresolved'.1).2]
  · exact fun hd _ => h.registered id t ht hd
      (ended_of_unresolved hunresolved).1

lemma Inv.stageGroupPrepare (d : Nat) (first second : AppendIo) (conflict : Bool)
    (hfit : ∀ t, s.transactions id = some t → t.state = .active →
      t.pending.mutations.length ≤ maxPendingMutations) :
    Inv (s.stageGroupPrepare id d first second conflict) := by
  unfold LsmShared.stageGroupPrepare
  split
  · exact h
  rename_i t hhandle
  split
  · rename_i hready
    have hw := working hhandle hready
    have hlog := h.logPrepare hw (hfit t hw.at_id) d first second
    split
    · next s₁ heq => simpa [heq] using hlog.1
    rename_i s₁ t₁ heq
    rw [heq] at hlog
    obtain ⟨hw₁, hstate, b, d', hb, hd, hrecords⟩ := hlog.2 t₁ rfl
    split
    · exact hlog.1
    refine hlog.1.park hw₁.at_id hw₁.dropped (by rw [hstate]; rfl) (by simp [hstate])
      (.inl rfl) ?_
    rintro wal - hwal
    obtain rfl := hwal.resolve_right (ne_true_of_eq_false hw₁.recovery)
    exact ⟨b, d', hb, hd, hrecords⟩
  · exact h

lemma Inv.parkPrepared (d : Nat) (conflict : Bool) : Inv (s.parkPrepared id d conflict) := by
  unfold LsmShared.parkPrepared
  split
  · exact h
  rename_i t hhandle
  obtain ⟨ht, hdropped⟩ := handle_eq_some hhandle
  split
  · rename_i hcall
    obtain ⟨-, hstate, -⟩ := hcall
    refine h.park ht hdropped (by rw [hstate]; rfl) (by simp [hstate]) (.inr rfl) ?_
    intro wal hlogged _
    unfold Logged at hlogged ⊢
    rw [hstate] at hlogged
    exact hlogged
  · exact h

lemma Inv.commitReadOnly (hw : Working s id t) (hactive : t.state = .active)
    (howns : t.ownsWriter = false) :
    Inv { s.put id { t with state := .committed } with outstanding := s.outstanding.erase id } := by
  have hlogged := h.logged hw.at_id
  unfold Logged at hlogged
  rw [hactive] at hlogged
  refine h.quiet hw.at_id { t with state := .committed } (fun h => h) (fun _ _ h => h)
    (fun _ _ h => h) ?_ ?_ (by simp [hactive]) rfl (.inl rfl) (fun _ => rfl)
    (fun _ => .inr hlogged.1) (by simp [unresolved]) (by simp [howns])
    (by simp [ended]) (by simp [unresolved])
  · exact fun id' hid hmem => (mem_erase_of_ne hid).mpr hmem
  · rintro wal - hwal
    obtain rfl := hwal.resolve_right (ne_true_of_eq_false hw.recovery)
    exact .inl (hlogged.2.resolve_right (by simp [hw.healthy]))

end

section Decide

variable {r : LogRecord Key Row} {id' : Nat}

lemma LsmShared.append_frame (r' : LogRecord Key Row) {io : AppendIo} (hid : id' ≠ id) :
    (s.append id r io t).1.transactions id' = s.transactions id' ∧
      (r' ∈ s.files.wal.records → r' ∈ (s.append id r io t).1.files.wal.records) := by
  refine ⟨by simp [append, put, hid], fun hr' => ?_⟩
  cases hp : s.files.wal.poisoned <;> cases io <;>
    simp [append, LsmWal.append, put, hp, hr']

/-- A prepared transaction whose Commit record is in the log. -/
def Committable (s : LsmShared Key Row) (id : Nat) (t : Transaction Key Row) : Prop :=
  t.state = .commitPending ∧ ∃ b q l, t.durableBatch = some b ∧ t.pendingCommitSeq = some q ∧
    Head id b l ∧ recordsOf id s.files.wal.records = l ++ [.commit id q]

lemma Inv.decideCommit (h : Inv s) (hw : Working s id t)
    (hstate : t.state = .prepared ∨ t.state = .parkedPrepared)
    (reserve : ManifestPublish) (io : AppendIo) :
    Inv (s.decideCommit id t reserve io).1 ∧ ((s.decideCommit id t reserve io).2.1 = true →
      Working (s.decideCommit id t reserve io).1 id (s.decideCommit id t reserve io).2.2 ∧
        Committable (s.decideCommit id t reserve io).1 id (s.decideCommit id t reserve io).2.2) := by
  have hlogged := h.logged hw.at_id
  unfold Logged at hlogged
  obtain ⟨b, d, hb, hd, hrecords⟩ : ∃ b d, t.durableBatch = some b ∧
      t.preparedDatabaseTxnId = some d ∧
        recordsOf id s.files.wal.records = [.mutationBatch id b, .prepare id d] := by
    rcases hstate with hs | hs <;> rw [hs] at hlogged <;>
      exact hlogged.imp fun b ⟨d, hb, hd, hl, _⟩ => ⟨d, hb, hd, hl⟩
  have hunresolved : t.state.unresolved = true ∧ t.state ≠ .commitPending := by
    rcases hstate with hs | hs <;> simp [hs, unresolved]
  rcases h.allocateCommitSeq hw reserve with ⟨s₁, heq, hinv⟩ | ⟨s₁, heq, hinv, hw₁, hfresh, hwal⟩
  · simpa [LsmShared.decideCommit, heq] using hinv
  have happend := hinv.appendCommit hw₁ { t with
      state := .commitPending, pendingCommitSeq := some s.nextCommitSeq }
    ⟨(ended_of_unresolved hunresolved.1).2, rfl,
      (ended_of_unresolved hunresolved.1).1, hw.dropped, rfl,
      fun _ => .inl hunresolved.1, fun h => (by cases h), fun h => absurd h hunresolved.2,
      fun q hq => .inl (Option.some.inj hq ▸ hfresh)⟩
    rfl hb rfl (.prepared d) (by rw [hwal]; exact hrecords) io
  simp only [LsmShared.decideCommit, heq]
  exact ⟨happend.1, fun hok => ⟨(happend.2 hok).1, rfl, b, _, _, hb, rfl, .prepared d,
    (happend.2 hok).2⟩⟩

lemma LsmShared.allocateCommitSeq_frame (reserve : ManifestPublish) :
    (s.allocateCommitSeq reserve).1.transactions = s.transactions ∧
      (s.allocateCommitSeq reserve).1.files.wal = s.files.wal := by
  unfold allocateCommitSeq
  split
  · exact ⟨rfl, rfl⟩
  · cases reserve <;> exact ⟨rfl, rfl⟩

lemma LsmShared.decideCommit_frame (reserve : ManifestPublish) (io : AppendIo) (hid : id' ≠ id) :
    (s.decideCommit id t reserve io).1.transactions id' = s.transactions id' ∧
      (r ∈ s.files.wal.records → r ∈ (s.decideCommit id t reserve io).1.files.wal.records) := by
  have hframe := allocateCommitSeq_frame (s := s) reserve
  unfold decideCommit
  split
  · rename_i s₁ heq
    rw [heq] at hframe
    exact ⟨by rw [hframe.1], fun hr => by rw [hframe.2]; exact hr⟩
  rename_i s₁ q heq
  rw [heq] at hframe
  refine ⟨?_, fun hr => ?_⟩
  · exact (append_frame r hid).1.trans (congrFun hframe.1 id')
  · exact (append_frame r hid).2 (by rw [hframe.2]; exact hr)

lemma LsmShared.ensureCommitRecord_frame (io : AppendIo) (hid : id' ≠ id) :
    (s.ensureCommitRecord id t io).1.transactions id' = s.transactions id' ∧
      (r ∈ s.files.wal.records → r ∈ (s.ensureCommitRecord id t io).1.files.wal.records) := by
  unfold ensureCommitRecord
  split
  · exact ⟨rfl, fun hr => hr⟩
  · split
    · exact ⟨rfl, fun hr => hr⟩
    · exact append_frame r hid

end Decide

/-- A parked transaction takes the writer to be resolved. -/
lemma Inv.takeResolution (h : Inv s) (ht : s.transactions id = some t) {abort : Bool}
    (hstate : t.state = .parkedPrepared ∨ t.state = .parkedPreparePending)
    (hacquire : s.acquireParkedResolution id abort = true) :
    Inv { s.put id { t with ownsWriter := true } with writer := some id } := by
  have hparked : t.state.unresolved = true ∧ t.state.isParked = true := by
    rcases hstate with hs | hs <;> simp [hs, unresolved, isParked]
  refine h.quiet ht { t with ownsWriter := true } (fun h => h) ?_ (fun _ _ h => h)
    (fun _ _ h => h) (fun _ h _ => h) .rfl rfl (.inl rfl) (fun h => h) (fun h => .inl h)
    (fun _ => .inr ((h.held id t ht hparked.1).resolve_left (by simp [hparked.2])))
    (fun _ _ => rfl) (h.registered id t ht) (h.abandoned id t ht)
  intro id' hid hwriter
  simp [acquireParkedResolution, hwriter, hid] at hacquire

/-- A member of a batch whose Commit record is in the log. -/
def Staged (s : LsmShared Key Row) (id : Nat) : Prop :=
  ∃ t, s.transactions id = some t ∧ t.dropped = false ∧ t.state = .commitPending ∧
    ∃ q, .commit id q ∈ s.files.wal.records

lemma Inv.staged_committable (h : Inv s) (hs : Staged s id) :
    ∃ t, s.transactions id = some t ∧ t.dropped = false ∧ Committable s id t := by
  obtain ⟨t, ht, hdropped, hstate, q, hmem⟩ := hs
  have hlogged := h.logged ht
  unfold Logged at hlogged
  rw [hstate] at hlogged
  obtain ⟨b, q', l, hb, hq, hhead, hrecords⟩ := hlogged
  refine ⟨t, ht, hdropped, hstate, b, q', l, hb, hq, hhead, hrecords.resolve_left fun hl => ?_⟩
  exact hhead.commit_notMem (hl ▸ commit_mem_recordsOf.mpr hmem)

lemma Committable.staged (hw : Working s id t) (hc : Committable s id t) : Staged s id := by
  obtain ⟨hstate, b, q, l, -, -, -, hrecords⟩ := hc
  exact ⟨t, hw.at_id, hw.dropped, hstate, q, commit_mem_recordsOf.mp (by rw [hrecords]; simp)⟩

/-- Records are only added and other transactions left alone, so members that
were staged stay so. -/
lemma Staged.frame {id' : Nat} (hs : Staged s id')
    (htransactions : s'.transactions id' = s.transactions id')
    (hrecords : ∀ r ∈ s.files.wal.records, r ∈ s'.files.wal.records) : Staged s' id' := by
  obtain ⟨t, ht, hdropped, hstate, q, hmem⟩ := hs
  exact ⟨t, by rw [htransactions]; exact ht, hdropped, hstate, q, hrecords _ hmem⟩

section Commits

variable [DecidableEq Key] [DecidableEq Row]

lemma Inv.finishDecided (h : Inv s) (hw : Working s id t) (hc : Committable s id t)
    (sync : Bool) : Inv (s.finishCommit id t sync) := by
  obtain ⟨hstate, b, q, l, hb, hq, hhead, hrecords⟩ := hc
  exact h.finishCommit hw hstate hb hq hhead hrecords sync

lemma Inv.decideAndFinish (h : Inv s) (hw : Working s id t)
    (hstate : t.state = .prepared ∨ t.state = .parkedPrepared) (reserve : ManifestPublish)
    (io : AppendIo) (sync : Bool) :
    Inv (match s.decideCommit id t reserve io with
      | (s, false, _) => s
      | (s, true, t) => s.finishCommit id t sync) := by
  have hdecide := h.decideCommit hw hstate reserve io
  split
  · next s₁ t₁ heq => simpa [heq] using hdecide.1
  · rename_i s₁ t₁ heq
    rw [heq] at hdecide
    exact hdecide.1.finishDecided (hdecide.2 rfl).1 (hdecide.2 rfl).2 sync

lemma Inv.commit (h : Inv s) (reserve : ManifestPublish) (first second : AppendIo) (sync : Bool)
    (hfit : ∀ t, s.transactions id = some t → t.state = .active →
      t.pending.mutations.length ≤ maxPendingMutations) :
    Inv (s.commit id reserve first second sync) := by
  unfold LsmShared.commit
  split
  · exact h
  rename_i t hhandle
  split
  · rename_i hready
    have hw := working hhandle hready
    split
    · rename_i hactive
      split
      · rename_i howns
        rcases h.allocateCommitSeq hw reserve with
          ⟨s₁, heq, hinv⟩ | ⟨s₁, heq, hinv, hw₁, hfresh, -⟩
        · simpa [heq] using hinv
        simp only [heq]
        have hbatch := hinv.appendBatch hw₁ hactive howns (hfit t hw.at_id hactive)
          { t with
            state := .commitPending, durableBatch := some t.pending,
            pendingCommitSeq := some s.nextCommitSeq } rfl rfl hw.dropped howns
          (fun q hq => .inl (Option.some.inj hq ▸ hfresh))
          (fun wal hwal => ⟨t.pending, _, _, rfl, rfl, .batch, .inl hwal⟩) first
        split
        · next s₂ heq₂ => simpa [heq₂] using hbatch.1
        rename_i s₂ heq₂
        rw [heq₂] at hbatch
        obtain ⟨hw₂, hrecords⟩ := hbatch.2 rfl
        have hcommit := hbatch.1.appendCommit hw₂ _ (.refl hw₂.dropped rfl) rfl rfl
          rfl .batch hrecords second
        split
        · next s₃ heq₃ => simpa [heq₃] using hcommit.1
        · rename_i s₃ heq₃
          rw [heq₃] at hcommit
          obtain ⟨hw₃, hrecords₃⟩ := hcommit.2 rfl
          exact hcommit.1.finishCommit hw₃ rfl rfl rfl .batch hrecords₃ sync
      · rename_i howns
        exact h.commitReadOnly hw hactive (by simpa using howns)
    · next hpending => exact h.retryCommit hw hpending first sync
    · exact h
  · exact h

lemma Inv.commitPrepared (h : Inv s) (d : Nat) (reserve : ManifestPublish) (io : AppendIo)
    (sync : Bool) : Inv (s.commitPrepared id d reserve io sync) := by
  unfold LsmShared.commitPrepared
  split
  · exact h
  rename_i t hhandle
  split
  · rename_i hcall
    have hw := working hhandle hcall.1
    split
    · next hstate => exact h.decideAndFinish hw (.inl hstate) reserve io sync
    · rename_i hstate
      split
      · rename_i hacquire
        have htaken := h.takeResolution hw.at_id (.inl hstate) hacquire
        have hw₁ : Working { s.put id { t with ownsWriter := true } with
            writer := some id } id { t with ownsWriter := true } :=
          ⟨by simp [put], hw.dropped, hw.recovery, hw.healthy⟩
        exact htaken.decideAndFinish hw₁ (.inr hstate) reserve io sync
      · exact h
    · next hstate => exact h.retryCommit hw hstate io sync
    · exact h
  · exact h

end Commits

/-- Staging a batch: member after member gets its Commit record. -/
lemma Inv.stageCommits (members : List (Nat × ManifestPublish × AppendIo)) :
    ∀ {s : LsmShared Key Row} (done : List Nat), Inv s → s.ready = true →
      (∀ id ∈ done, Staged s id) → (∀ m ∈ members, m.1 ∉ done) → (members.map fst).Nodup →
      Inv (stageCommits members s).1 ∧
        ((stageCommits members s).2 = true →
          (stageCommits members s).1.ready = true ∧
            ∀ id, id ∈ done ∨ id ∈ members.map fst →
              Staged (stageCommits members s).1 id) := by
  induction members with
  | nil =>
    intro s done h hready hdone _ _
    exact ⟨h, fun _ => ⟨hready, fun id hid => hdone id (by simpa using hid)⟩⟩
  | cons m rest ih =>
    obtain ⟨id, reserve, io⟩ := m
    intro s done h hready hdone hnew hnodup
    obtain ⟨hid, hrest⟩ : id ∉ rest.map fst ∧ (rest.map fst).Nodup := by
      simpa using hnodup
    -- One member: it is staged and the ones before it stay so.
    have hstep : ∀ s₁ t₁, Inv s₁ → Working s₁ id t₁ → Committable s₁ id t₁ →
        (∀ id', id' ≠ id → s₁.transactions id' = s.transactions id') →
        (∀ r ∈ s.files.wal.records, r ∈ s₁.files.wal.records) →
        Inv (LsmShared.stageCommits rest s₁).1 ∧
          ((LsmShared.stageCommits rest s₁).2 = true →
            (LsmShared.stageCommits rest s₁).1.ready = true ∧
              ∀ id', id' ∈ done ∨ id' ∈ id :: rest.map fst →
                Staged (LsmShared.stageCommits rest s₁).1 id') := by
      intro s₁ t₁ hinv hw₁ hc htransactions hrecords
      have hdone₁ : ∀ id' ∈ id :: done, Staged s₁ id' := by
        intro id' hmem
        rcases mem_cons.mp hmem with rfl | hmem'
        · exact hc.staged hw₁
        · have hne : id' ≠ id := by
            rintro rfl
            exact hnew _ mem_cons_self hmem'
          exact (hdone id' hmem').frame (htransactions id' hne) hrecords
      have hnew₁ : ∀ m ∈ rest, m.1 ∉ id :: done := by
        intro m hm hmem
        rcases mem_cons.mp hmem with heq | hmem
        · exact hid (heq ▸ mem_map_of_mem hm)
        · exact hnew m (mem_cons_of_mem _ hm) hmem
      have hind := ih _ hinv (by simp [ready, hw₁.recovery, hw₁.healthy]) hdone₁ hnew₁
        hrest
      refine ⟨hind.1, fun hok => ⟨(hind.2 hok).1, fun id' hmem => (hind.2 hok).2 id' ?_⟩⟩
      simp only [mem_cons] at hmem ⊢
      tauto
    simp only [LsmShared.stageCommits, map_cons]
    split
    · exact ⟨h, by simp⟩
    rename_i t hhandle
    have hw := LsmShared.working hhandle hready
    split
    · rename_i hstate
      have hdecide := h.decideCommit hw (.inr hstate) reserve io
      have hframe := fun (id' : Nat) (r : LogRecord Key Row) (hne : id' ≠ id) =>
        decideCommit_frame (s := s) (t := t) (r := r) reserve io hne
      split
      · next s₁ t₁ heq => exact ⟨by simpa [heq] using hdecide.1, by simp⟩
      rename_i s₁ t₁ heq
      rw [heq] at hdecide hframe
      exact hstep s₁ t₁ hdecide.1 (hdecide.2 rfl).1 (hdecide.2 rfl).2
        (fun id' hne => (hframe id' (.abort 0) hne).1)
        (fun r hr => (hframe (id + 1) r (Nat.succ_ne_self id)).2 hr)
    · rename_i hstate
      have hensure := h.ensureCommitRecord hw hstate io
      have hframe := fun (id' : Nat) (r : LogRecord Key Row) (hne : id' ≠ id) =>
        ensureCommitRecord_frame (s := s) (t := t) (r := r) io hne
      split
      · next s₁ heq => exact ⟨by simpa [heq] using hensure.1, by simp⟩
      rename_i s₁ heq
      rw [heq] at hensure hframe
      exact hstep s₁ t hensure.1 (hensure.2 rfl).1 ⟨hstate, (hensure.2 rfl).2⟩
        (fun id' hne => (hframe id' (.abort 0) hne).1)
        (fun r hr => (hframe (id + 1) r (Nat.succ_ne_self id)).2 hr)
    · exact ⟨h, by simp⟩

lemma LsmShared.batchAdmitted_eq {states : List TransactionState} {members : List (Nat × Nat)}
    (h : s.batchAdmitted states members = true) :
    s.ready = true ∧ (members.map fst).Nodup ∧
      ∀ id ∈ members.map fst, ∃ t, s.handle id = some t ∧ t.state ∈ states := by
  simp only [batchAdmitted, Bool.and_eq_true, decide_eq_true_eq, all_eq_true] at h
  obtain ⟨⟨⟨⟨hready, -⟩, hnodup⟩, -⟩, hall⟩ := h
  refine ⟨hready, hnodup, fun id hid => ?_⟩
  obtain ⟨m, hm, rfl⟩ := mem_map.mp hid
  have hmember := hall m hm
  split at hmember
  · cases hmember
  · next t ht => exact ⟨t, ht, (of_decide_eq_true hmember).1⟩

section Batches

variable [DecidableEq Key] [DecidableEq Row]

lemma LsmShared.applyCommit_frame (h : s.applyCommit id t = some s') :
    s'.transactions = s.transactions ∧ s'.files = s.files ∧
      s'.recoveryRequired = s.recoveryRequired := by
  simp only [applyCommit, Option.bind_eq_bind, Option.bind_eq_some_iff, Option.pure_def,
    Option.some.injEq] at h
  obtain ⟨b, -, q, -, memtable, -, rfl⟩ := h
  exact ⟨rfl, rfl, rfl⟩

/-- The memtable takes the staged members of a synced batch one after the
other. -/
lemma Inv.applyCommits (ids : List Nat) :
    ∀ {s : LsmShared Key Row}, Inv s → s.ready = true → (∀ id, s.files.wal.Synced id) →
      ids.Nodup → (∀ id ∈ ids, Staged s id) → Inv (applyCommits ids s) := by
  induction ids with
  | nil => exact fun h _ _ _ _ => h
  | cons id rest ih =>
    intro s h hready hsynced hnodup hstaged
    obtain ⟨hid, hrest⟩ := nodup_cons.mp hnodup
    obtain ⟨t, ht, hdropped, hstate, b, q, l, hb, hq, hhead, hrecords⟩ :=
      h.staged_committable (hstaged id mem_cons_self)
    have hhandle : s.handle id = some t := by simp [handle, ht, hdropped]
    rw [LsmShared.applyCommits, hhandle]
    dsimp only
    split
    · exact h
    rename_i s₁ happly
    obtain ⟨htransactions, hfiles, hrec⟩ := applyCommit_frame happly
    have hw := working hhandle hready
    refine ih (h.apply hw hstate hb hq hhead hrecords (hsynced id) happly) ?_ ?_ hrest ?_
    · simpa [ready, put, hfiles, hrec] using hready
    · simpa [put, hfiles] using hsynced
    intro id' hid'
    have hne : id' ≠ id := fun heq => hid (heq ▸ hid')
    refine (hstaged id' (mem_cons_of_mem _ hid')).frame ?_ ?_
    · simp [put, htransactions, hne]
    · simp [put, hfiles]

lemma Inv.commitPreparedBatchAuthoritative (h : Inv s) (members : List (Nat × Nat))
    (io : List (ManifestPublish × AppendIo)) (sync : Bool) :
    Inv (s.commitPreparedBatchAuthoritative members io sync) := by
  unfold LsmShared.commitPreparedBatchAuthoritative
  split
  · rename_i hadmitted
    obtain ⟨hready, hnodup, -⟩ := batchAdmitted_eq hadmitted.1
    have hids : ((members.map fst).zip io).map fst = members.map fst :=
      map_fst_zip (by simp [hadmitted.2])
    have hstage := Inv.stageCommits ((members.map fst).zip io) [] h hready
      (by simp) (by simp) (by rw [hids]; exact hnodup)
    split
    · next s₁ heq => simpa [heq] using hstage.1
    rename_i s₁ heq
    rw [heq] at hstage
    obtain ⟨hready₁, hstaged⟩ := hstage.2 rfl
    split
    · next s₂ heq₂ => exact hstage.1.of_sync heq₂
    rename_i s₂ heq₂
    have hsync := hstage.1.of_sync heq₂
    obtain ⟨rfl, hall⟩ := sync_ok heq₂
    refine Inv.applyCommits _ hsync hready₁ hall hnodup fun id hid => ?_
    exact (hstaged id (.inr (by rw [hids]; exact hid))).frame rfl fun r hr => hr
  · exact h

end Batches

lemma Inv.notePrepared (ids : List Nat) :
    ∀ {s : LsmShared Key Row}, Inv s → s.ready = true → (∀ id, s.files.wal.Synced id) →
      (∀ id ∈ ids, ∃ t, s.handle id = some t ∧
        t.state ∈ [parkedPreparePending, .parkedPrepared]) →
      Inv (notePrepared ids s) := by
  induction ids with
  | nil => exact fun h _ _ _ => h
  | cons id rest ih =>
    intro s h hready hsynced hstates
    obtain ⟨t, hhandle, hstate⟩ := hstates id mem_cons_self
    have hw := working hhandle hready
    have hstate' : t.state = .parkedPreparePending ∨ t.state = .parkedPrepared := by
      simpa using hstate
    have hhas : HasPrepared s id t := by
      have hlogged := h.logged hw.at_id
      unfold Logged at hlogged
      rcases hstate' with hs | hs <;> rw [hs] at hlogged
      · exact hlogged
      · obtain ⟨b, d, hb, hd, hrecords, -⟩ := hlogged
        exact ⟨b, d, hb, hd, hrecords⟩
    rw [LsmShared.notePrepared, hhandle]
    refine ih (h.notePrepared_one hw (.inr ⟨hstate', rfl⟩) hhas (hsynced id)) hready hsynced ?_
    intro id' hid'
    obtain ⟨t', hhandle', hs'⟩ := hstates id' (mem_cons_of_mem _ hid')
    by_cases hid : id' = id
    · subst hid
      exact ⟨{ t with state := .parkedPrepared },
        by simp [handle, put, hw.dropped], by simp⟩
    · exact ⟨t', by simpa [handle, put, hid] using hhandle', hs'⟩

lemma Inv.durabilizeGroupPrepareBatch (h : Inv s) (members : List (Nat × Nat)) (sync : Bool) :
    Inv (s.durabilizeGroupPrepareBatch members sync) := by
  unfold LsmShared.durabilizeGroupPrepareBatch
  split
  · rename_i hadmitted
    obtain ⟨hready, -, hstates⟩ := batchAdmitted_eq hadmitted
    have hsync := h.sync sync
    split
    · next s₁ heq => simpa [heq] using hsync
    · rename_i s₁ heq
      replace hsync : Inv s₁ := by simpa [heq] using hsync
      obtain ⟨rfl, hall⟩ := sync_ok heq
      exact Inv.notePrepared _ hsync hready hall hstates
  · exact h

lemma Inv.finishAll (ids : List Nat) : ∀ {s : LsmShared Key Row}, Inv s → ids.Nodup →
      (∀ id ∈ ids, ∃ t, s.handle id = some t ∧ t.state = .changeFinalizePending) →
      Inv (finishAll ids s) := by
  induction ids with
  | nil => exact fun h _ _ => h
  | cons id rest ih =>
    intro s h hnodup hstates
    obtain ⟨hid, hrest⟩ := nodup_cons.mp hnodup
    obtain ⟨t, hhandle, hstate⟩ := hstates id mem_cons_self
    rw [LsmShared.finishAll, hhandle]
    refine ih (h.finishTerminal (handle_eq_some hhandle).1 rfl (by simp [hstate])
      (by rw [hstate]; rfl) ?_) hrest ?_
    · intro wal hlogged _
      unfold Logged at hlogged ⊢
      rw [hstate] at hlogged
      exact hlogged
    · intro id' hid'
      have hne : id' ≠ id := fun heq => hid (heq ▸ hid')
      obtain ⟨t', hhandle', hs'⟩ := hstates id' (mem_cons_of_mem _ hid')
      refine ⟨t', ?_, hs'⟩
      simpa [handle, LsmShared.finishTerminal, put, hne] using hhandle'

lemma Inv.finalizeGroupChangesBatch (h : Inv s) (ids : List Nat) :
    Inv (s.finalizeGroupChangesBatch ids) := by
  unfold LsmShared.finalizeGroupChangesBatch
  split
  · rename_i hadmitted
    refine Inv.finishAll ids h hadmitted.1 fun id hid => ?_
    have hstate := all_eq_true.mp hadmitted.2 id hid
    simp only [beq_iff_eq, Option.map_eq_some_iff] at hstate
    exact hstate
  · exact h

lemma LsmWal.hasAbort_iff : wal.hasAbort id = true ↔ .abort id ∈ wal.records := by
  simp only [LsmWal.hasAbort, any_eq_true]
  constructor
  · rintro ⟨r, hr, hmatch⟩
    cases r <;> simp at hmatch
    obtain rfl := hmatch
    exact hr
  · exact fun h => ⟨_, h, by simp⟩

lemma Inv.appendAbort (h : Inv s) (hw : Working s id t) (t' : Transaction Key Row)
    (hp : Proceeds s t t') (hstate : t'.state = .rollbackPending) {l : List (LogRecord Key Row)}
    (hb : t'.durableBatch = some b) (hhead : Head id b l)
    (hrecords : recordsOf id s.files.wal.records = l) (io : AppendIo) :
    Inv (s.append id (.abort id) io t').1 ∧ ((s.append id (.abort id) io t').2 = true →
      Working (s.append id (.abort id) io t').1 id t' ∧
        recordsOf id (s.append id (.abort id) io t').1.files.wal.records = l ++ [.abort id]) := by
  have happend := h.append hw hp (r := .abort id) io rfl rfl
    (by rw [hrecords]; exact .abort hhead) (by simp)
    (by unfold Logged; rw [hstate]; exact ⟨b, l, hb, hhead, .inl hrecords⟩)
    (by
      intro wal hwal
      unfold Logged
      rw [hstate]
      exact ⟨b, l, hb, hhead, .inr (hrecords ▸ hwal)⟩)
  rwa [hrecords] at happend

/-- What the log has of a transaction that was prepared or is about to be. -/
lemma Inv.head_of_unresolved (h : Inv s) (ht : s.transactions id = some t)
    (hstate : t.state = .prepared ∨ t.state = .preparePending ∨ t.state = .parkedPrepared ∨
      t.state = .parkedPreparePending) :
    ∃ b l, t.durableBatch = some b ∧ Head id b l ∧ recordsOf id s.files.wal.records = l := by
  have hlogged := h.logged ht
  unfold Logged at hlogged
  rcases hstate with hs | hs | hs | hs <;> rw [hs] at hlogged
  · obtain ⟨b, d, hb, -, hl, -⟩ := hlogged
    exact ⟨b, _, hb, .prepared d, hl⟩
  · obtain ⟨b, d, hb, -, hl | hl⟩ := hlogged
    · exact ⟨b, _, hb, .batch, hl⟩
    · exact ⟨b, _, hb, .prepared d, hl⟩
  · obtain ⟨b, d, hb, -, hl, -⟩ := hlogged
    exact ⟨b, _, hb, .prepared d, hl⟩
  · obtain ⟨b, d, hb, -, hl⟩ := hlogged
    exact ⟨b, _, hb, .prepared d, hl⟩

/-- A transaction on its way back whose Abort record is in the log. -/
def Abortable (s : LsmShared Key Row) (id : Nat) (t : Transaction Key Row) : Prop :=
  t.state = .rollbackPending ∧
    ∃ b l, Head id b l ∧ recordsOf id s.files.wal.records = l ++ [.abort id]

section

variable (h : Inv s) (hw : Working s id t)
  (hstate : t.state = .prepared ∨ t.state = .preparePending ∨ t.state = .parkedPrepared ∨
    t.state = .parkedPreparePending)
  (io : AppendIo)
include h hw hstate io

lemma Inv.startAbort : Inv (s.append id (.abort id) io { t with state := .rollbackPending }).1 ∧
      ((s.append id (.abort id) io { t with state := .rollbackPending }).2 = true →
        Working (s.append id (.abort id) io { t with state := .rollbackPending }).1 id
            { t with state := .rollbackPending } ∧
          Abortable (s.append id (.abort id) io { t with state := .rollbackPending }).1 id
            { t with state := .rollbackPending }) := by
  obtain ⟨b, l, hb, hhead, hrecords⟩ := h.head_of_unresolved hw.at_id hstate
  have hunresolved : t.state.unresolved = true ∧ t.state ≠ .commitPending := by
    rcases hstate with hs | hs | hs | hs <;> simp [hs, unresolved]
  have happend := h.appendAbort hw { t with state := .rollbackPending }
    ⟨(ended_of_unresolved hunresolved.1).2, rfl,
      (ended_of_unresolved hunresolved.1).1, hw.dropped, rfl,
      fun _ => .inl hunresolved.1, fun h => (by cases h), fun h => absurd h hunresolved.2,
      fun q hq => .inr ⟨hq, by simp⟩⟩
    rfl hb hhead hrecords io
  exact ⟨happend.1, fun hok => ⟨(happend.2 hok).1, rfl, b, l, hhead, (happend.2 hok).2⟩⟩

lemma Inv.startAbort_out (out : LsmShared Key Row × Option (Transaction Key Row))
    (hout : out = match s.append id (.abort id) io { t with state := .rollbackPending } with
      | (s, false) => (s, none)
      | (s, true) => (s, some { t with state := .rollbackPending })) :
    Inv out.1 ∧ ∀ t', out.2 = some t' → Working out.1 id t' ∧ Abortable out.1 id t' := by
  subst hout
  have happend := h.startAbort hw hstate io
  split
  · next s₁ heq => exact ⟨by simpa [heq] using happend.1, by simp⟩
  rename_i s₁ heq
  rw [heq] at happend
  refine ⟨happend.1, fun t' ht' => ?_⟩
  obtain rfl := Option.some.inj ht'
  exact happend.2 rfl

end

/-- A parked transaction takes the writer before it is aborted. -/
lemma Inv.logAbort (h : Inv s) (hw : Working s id t) (io : AppendIo) :
    Inv (s.logAbort id t io).1 ∧ ∀ t', (s.logAbort id t io).2 = some t' →
      Working (s.logAbort id t io).1 id t' ∧ Abortable (s.logAbort id t io).1 id t' := by
  have hparked : t.state = .parkedPrepared ∨ t.state = .parkedPreparePending →
      ∀ out : LsmShared Key Row × Option (Transaction Key Row),
        out = (if s.acquireParkedResolution id true then
          match LsmShared.append { s with writer := some id } id (.abort id) io
              { t with state := .rollbackPending, ownsWriter := true } with
          | (s, false) => (s, none)
          | (s, true) => (s, some { t with state := .rollbackPending, ownsWriter := true })
          else (s, none)) →
        Inv out.1 ∧ ∀ t', out.2 = some t' → Working out.1 id t' ∧ Abortable out.1 id t' := by
    rintro hstate out rfl
    split
    · rename_i hacquire
      refine (h.takeResolution hw.at_id hstate hacquire).startAbort_out
        (t := { t with ownsWriter := true })
        ⟨by simp [put], hw.dropped, hw.recovery, hw.healthy⟩
        (.inr (.inr hstate)) io _ ?_
      simp [LsmShared.append, put]
    · exact ⟨h, by simp⟩
  unfold LsmShared.logAbort
  cases hstate : t.state with
  | prepared => exact h.startAbort_out hw (.inl hstate) io _ rfl
  | preparePending => exact h.startAbort_out hw (.inr (.inl hstate)) io _ rfl
  | parkedPrepared => exact hparked (.inl hstate) _ rfl
  | parkedPreparePending => exact hparked (.inr hstate) _ rfl
  | rollbackPending =>
    dsimp only
    have hlogged := h.logged hw.at_id
    unfold Logged at hlogged
    rw [hstate] at hlogged
    obtain ⟨b, l, hb, hhead, hrecords⟩ := hlogged
    split
    · rename_i hhas
      have hmem := abort_mem_recordsOf.mpr (LsmWal.hasAbort_iff.mp hhas)
      refine ⟨h, fun t' ht' => ?_⟩
      obtain rfl := Option.some.inj ht'
      exact ⟨hw, hstate, b, l, hhead,
        hrecords.resolve_left fun hl => hhead.abort_notMem (hl ▸ hmem)⟩
    · rename_i hhas
      have hl : recordsOf id s.files.wal.records = l := by
        refine hrecords.resolve_right fun hl => hhas (LsmWal.hasAbort_iff.mpr ?_)
        exact abort_mem_recordsOf.mp (by simp [hl])
      have happend := h.appendAbort hw t (.refl hw.dropped (by rw [hstate]; rfl)) hstate hb
        hhead hl io
      split
      · next s₁ heq => exact ⟨by simpa [heq] using happend.1, by simp⟩
      rename_i s₁ heq
      rw [heq] at happend
      refine ⟨happend.1, fun t' ht' => ?_⟩
      obtain rfl := Option.some.inj ht'
      exact ⟨(happend.2 rfl).1, hstate, b, l, hhead, (happend.2 rfl).2⟩
  | _ => exact ⟨h, by simp⟩

lemma Inv.rollbackPrepared (h : Inv s) (d : Nat) (io : AppendIo) (sync : Bool) :
    Inv (s.rollbackPrepared id d io sync) := by
  unfold LsmShared.rollbackPrepared
  split
  · exact h
  rename_i t hhandle
  split
  · rename_i hcall
    have hlog := h.logAbort (working hhandle hcall.1) io
    split
    · next s₁ heq => simpa [heq] using hlog.1
    rename_i s₁ t₁ heq
    rw [heq] at hlog
    obtain ⟨hw₁, hstate, b, l, hhead, hrecords⟩ := hlog.2 t₁ rfl
    split
    · next s₂ heq₂ => exact hlog.1.of_sync heq₂
    rename_i s₂ heq₂
    have hsync := hlog.1.of_sync heq₂
    obtain ⟨rfl, hall⟩ := sync_ok heq₂
    refine hsync.finishTerminal hw₁.at_id rfl (by simp [hstate])
      (by rw [hstate]; rfl) ?_
    rintro wal - hwal
    obtain rfl := hwal.resolve_right (ne_true_of_eq_false hw₁.recovery)
    exact .inr (.inr ⟨b, l, hhead, hrecords, hall id⟩)
  · exact h

lemma Inv.rollback (h : Inv s) : Inv (s.rollback id) := by
  unfold LsmShared.rollback
  split
  · exact h
  rename_i t hhandle
  split
  · rename_i hactive
    refine h.finishTerminal (handle_eq_some hhandle).1 rfl (by simp [hactive])
      (by rw [hactive]; rfl) ?_
    intro wal hlogged _
    unfold Logged at hlogged ⊢
    rw [hactive] at hlogged
    exact hlogged.2.imp_right .inl
  · exact h

lemma Inv.dropHandle (h : Inv s) : Inv (s.dropHandle id) := by
  unfold LsmShared.dropHandle
  split
  · exact h
  rename_i t hhandle
  obtain ⟨ht, hdropped⟩ := handle_eq_some hhandle
  have hopen : t.state.unresolved = true → t.state.isParked = false → t.state ∈
      [prepared, .preparePending, .commitPending, .rollbackPending] := by
    cases t.state <;> simp [unresolved, isParked]
  refine h.quiet ht { t with dropped := true } ?_ ?_ (fun _ _ h => h) ?_ (fun _ h _ => h) .rfl
    rfl (.inl rfl) (fun h => h) (fun h => .inl h) ?_ (by simp) (by simp) ?_
  · intro hrec
    simp [hrec]
  · intro id' hid hwriter
    simp [hwriter, hid]
  · exact fun id' hid hmem => (mem_erase_of_ne hid).mpr hmem
  · intro hunresolved
    refine (h.held id t ht hunresolved).imp_left ?_
    rintro ⟨hwriter, howns, hparked⟩
    exact ⟨by rw [if_neg (fun hc => hc.2.1 (hopen hunresolved hparked))]; exact hwriter,
      howns, hparked⟩
  · intro _ hunresolved
    rcases h.held id t ht hunresolved with ⟨-, howns, hparked⟩ | hmem
    · simp only [howns, hopen hunresolved hparked]
      simp
    · simp [hmem]

section Maintenance

lemma Inv.flush (h : Inv s) (io : ManifestPublish) (cleaned : Bool) : Inv (s.flush io cleaned) := by
  unfold LsmShared.flush
  split
  · rename_i hsafe
    obtain ⟨hrec, hquiet⟩ := h.settled hsafe
    exact h.flushMemtable hrec hquiet io cleaned
  · exact h

variable [DecidableEq Key]

lemma Inv.compactOne (h : Inv s) (io : ManifestPublish) (cleaned : Bool) :
    Inv (s.compactOne io cleaned) := by
  unfold LsmShared.compactOne
  split
  · next hsafe => exact h.executeCompaction (h.settled hsafe.1).1 false io cleaned
  · exact h

lemma Inv.compactFull (h : Inv s) (flushIo io : ManifestPublish) (flushCleaned cleaned : Bool) :
    Inv (s.compactFull flushIo io flushCleaned cleaned) := by
  unfold LsmShared.compactFull
  split
  · rename_i hsafe
    obtain ⟨hrec, hquiet⟩ := h.settled hsafe
    have hflush := h.flushMemtable hrec hquiet flushIo flushCleaned
    split
    · rename_i s₁ heq
      rw [heq] at hflush
      exact hflush.executeCompaction ((flushMemtable_recovery heq).trans hrec) true io
        cleaned
    · next s₁ heq => simpa [heq] using hflush
  · exact h

end Maintenance

/-- No flush while a parked transaction is undecided, and no batch that decoding
refuses. -/
def Op.Admissible (rowBytes : Row → Nat) (s : LsmShared Key Row) : Op Key Row → Prop
  | .acquireWriter _ _ _ => s.flushesFirst rowBytes = true → ∀ id ∈ s.parkedPrepared, ∀ t,
      s.transactions id = some t → t.state.unresolved = false
  | .commit id _ _ _ _ | .prepare id _ _ _ _ | .stageGroupPrepare id _ _ _ _ =>
    ∀ t, s.transactions id = some t → t.state = .active →
      t.pending.mutations.length ≤ maxPendingMutations
  | _ => True

lemma Inv.call [DecidableEq Key] [DecidableEq Row] {rowBytes : Row → Nat} {op : Op Key Row}
    (h : Inv s) (hop : op.Admissible rowBytes s) : Inv (s.call rowBytes op) := by
  cases op with
  | beginTransaction reserve => exact h.beginTransaction reserve
  | acquireWriter id publish cleaned => exact h.acquireWriter rowBytes publish cleaned hop
  | stageWrites id batch => exact h.stageWrites batch
  | commit id reserve first second sync => exact h.commit reserve first second sync hop
  | prepare id database first second sync => exact h.prepare database first second sync hop
  | stageGroupPrepare id database first second conflict =>
    exact h.stageGroupPrepare database first second conflict hop
  | parkPrepared id database conflict => exact h.parkPrepared database conflict
  | durabilizeGroupPrepareBatch members sync => exact h.durabilizeGroupPrepareBatch members sync
  | commitPrepared id database reserve io sync => exact h.commitPrepared database reserve io sync
  | commitPreparedBatchAuthoritative members io sync =>
    exact h.commitPreparedBatchAuthoritative members io sync
  | finalizeGroupChangesBatch ids => exact h.finalizeGroupChangesBatch ids
  | rollbackPrepared id database io sync => exact h.rollbackPrepared database io sync
  | rollback id => exact h.rollback
  | dropHandle id => exact h.dropHandle
  | flush publish cleaned => exact h.flush publish cleaned
  | compactOne publish cleaned => exact h.compactOne publish cleaned
  | compactFull flushPublish publish flushCleaned cleaned =>
    exact h.compactFull flushPublish publish flushCleaned cleaned

end Netbadb.Lsm.Engine
