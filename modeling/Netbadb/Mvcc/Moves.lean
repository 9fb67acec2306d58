import Netbadb.Mvcc.Layers

/-!
What a call can do to the heap, one elementary move at a time, and the
invariant every move keeps.
-/

namespace Netbadb.Mvcc

open List Function StatusStore HeapState Option Nat Outcome

variable {Row Column Key : Type} {p : RowId × Version Row} {seq : CommitSeq} {y : TxnId}
  {store : StatusStore}

/-- Neither parked nor resolved, and still with its handle. -/
def TxnPhase.Running (phase : TxnPhase) : Prop := phase = .active ∨ phase = .prepared

structure Inv (s : HeapState Row Column Key) : Prop where
  rowIds : (s.data.rows.map (·.1)).Nodup
  marked : ∀ p ∈ s.data.rows, p.2.header.xmax ≠ none → p.2.header.cmax ≠ none
  stacked : Stacked s.store s.data.rows s.stack
  stackIds : (s.stack.map (·.1)).Nodup
  running : ∀ x ∈ s.stack.map (·.1), s.txns x ≠ none
  /-- A writer that still runs is the newest and holds the lease, unless recovery is required. -/
  top : ∀ x txn, s.txns x = some txn → txn.phase.Running → x ∈ s.stack.map (·.1) →
    (s.stack.map (·.1)).head? = some x ∧ (s.writer = .active x ∨ s.writer = .recoveryRequired)
  /-- The other unresolved writers are in the deque. -/
  placed : ∀ x ∈ s.stack.map (·.1),
    x ∈ s.parkedPrepared ∨ s.writer = .active x ∨ s.writer = .recoveryRequired
  known : ∀ x txn, s.txns x = some txn →
    s.store.durable x = none ∧ s.store.active x = true ∧ x < s.nextTxnId
  fresh : ∀ x, s.nextTxnId ≤ x → s.store.durable x = none
  commands : ∀ x txn, s.txns x = some txn → txn.phase = .active →
    txn.commandId ≤ txn.nextCommandId ∧
      ∀ p ∈ s.data.rows, p.2.header.xmax = some x → ∀ c, p.2.header.cmax = some c →
        c ≤ txn.commandId
  pending : ∀ x txn seq, s.txns x = some txn → txn.phase = .commitPending seq → seq < s.nextLsn
  kept : ∀ x txn visible, s.txns x = some txn → txn.repeatableReadView = some visible →
    visible ≤ s.store.maximumCommitSeq
  bounded : ∀ x seq, s.store.durable x = some (.committed seq) → seq ≤ s.store.maximumCommitSeq
  lsn : s.store.maximumCommitSeq < s.nextLsn
  /-- A view lies at or before the newest commit, and its own transaction after it. -/
  views : ∀ v ∈ s.views, v.visibleCsn ≤ s.store.maximumCommitSeq ∧
    ∀ x seq, v.ownTxn = some x → s.store.durable x = some (.committed seq) → v.visibleCsn < seq

/-- The state a heap is opened in: every transaction the rows name has committed. -/
structure Opened (s : HeapState Row Column Key) : Prop where
  rowIds : (s.data.rows.map (·.1)).Nodup
  marked : ∀ p ∈ s.data.rows, p.2.header.xmax ≠ none → p.2.header.cmax ≠ none
  settled : Settled s.store [] s.data.rows
  txns : ∀ x, s.txns x = none
  writer : s.writer = .idle
  stack : s.stack = []
  views : s.views = []
  fresh : ∀ x, s.nextTxnId ≤ x → s.store.durable x = none
  bounded : ∀ x seq, s.store.durable x = some (.committed seq) → seq ≤ s.store.maximumCommitSeq
  lsn : s.store.maximumCommitSeq < s.nextLsn

lemma Opened.inv {s : HeapState Row Column Key} (h : Opened s) : Inv s where
  rowIds := h.rowIds
  marked := h.marked
  stacked := by rw [h.stack]; exact .bottom h.settled
  stackIds := by simp [h.stack]
  running := by simp [h.stack]
  top := by simp [h.stack]
  placed := by simp [h.stack]
  known := by simp [h.txns]
  fresh := h.fresh
  commands := by simp [h.txns]
  pending := by simp [h.txns]
  kept := by simp [h.txns]
  bounded := h.bounded
  lsn := h.lsn
  views := by simp [h.views]

/-- One elementary change. `who` are the transactions whose row changes are made or undone. -/
inductive Move [DecidableEq Column] [DecidableEq Key] (value : Column → Row → Key)
    (who : TxnId → Prop) :
    HeapState Row Column Key → HeapState Row Column Key → Prop
  | begin (s) (isolationLevel) : Move value who s (s.begin isolationLevel)
  | statement (s) (x : TxnId) (txn txn' : Txn) (added : List Snapshot)
      (hx : s.txns x = some txn) (hactive : txn.phase = .active) (hactive' : txn'.phase = .active)
      (hcommand : txn.commandId ≤ txn'.commandId)
      (hnext : txn.commandId ≤ txn.nextCommandId → txn'.commandId ≤ txn'.nextCommandId)
      (hkept : ∀ visible, txn'.repeatableReadView = some visible →
        visible ≤ s.store.maximumCommitSeq)
      (hadded : ∀ v ∈ added,
        v.visibleCsn ≤ s.store.maximumCommitSeq ∧ v.ownTxn = some x) :
      Move value who s { s.setTxn x (some txn') with views := added ++ s.views }
  | readView (s) (visibleCsn : CommitSeq) (hcurrent : visibleCsn ≤ s.store.maximumCommitSeq) :
      Move value who s { s with views := ⟨visibleCsn, none, 1⟩ :: s.views }
  | acquire (s) (x : TxnId) (hidle : s.writer = .idle) :
      Move value who s { s with writer := .active x }
  | touch (s) (x : TxnId) (txn : Txn) (hx : s.txns x = some txn)
      (hwriter : s.writer = .active x) (hnew : x ∉ s.stack.map (·.1)) :
      Move value who s { s with stack := (x, s.data) :: s.stack }
  | insert (s) (x : TxnId) (txn : Txn) (position : Nat) (rowId : RowId) (row : Row)
      (hwho : who x) (hx : s.txns x = some txn) (hactive : txn.phase = .active)
      (hwriter : x ∈ s.stack.map (·.1)) (hfresh : rowId ∉ s.data.rows.map (·.1)) :
      Move value who s
        { s with
          data := (s.data.place position rowId
            ⟨.insertedBy x txn.commandId, row⟩).addEntries value rowId row }
  | update (s) (x : TxnId) (txn : Txn) (visible : CommitSeq) (rowId : RowId)
      (old : Version Row) (position : Nat) (newRowId : RowId) (row : Row)
      (hwho : who x) (hx : s.txns x = some txn) (hactive : txn.phase = .active)
      (hwriter : x ∈ s.stack.map (·.1)) (hfind : s.data.find rowId = some old)
      (hvisible : isVisible s.store old.header ⟨visible, some x, txn.commandId⟩ = .ok true)
      (hlive : old.header.xmax = none) (hfresh : newRowId ∉ s.data.rows.map (·.1)) :
      Move value who s
        { s with
          data := ((s.data.expire rowId x txn.commandId (some newRowId)).place position newRowId
            ⟨.insertedBy x txn.commandId, row⟩).addEntries value newRowId row }
  | delete (s) (x : TxnId) (txn : Txn) (visible : CommitSeq) (rowId : RowId)
      (old : Version Row) (hwho : who x) (hx : s.txns x = some txn)
      (hactive : txn.phase = .active)
      (hwriter : x ∈ s.stack.map (·.1)) (hfind : s.data.find rowId = some old)
      (hvisible : isVisible s.store old.header ⟨visible, some x, txn.commandId⟩ = .ok true)
      (hlive : old.header.xmax = none) :
      Move value who s { s with data := s.data.expire rowId x txn.commandId none }
  | buildIndex (s) (column : Column) (rows : List (RowId × Row)) :
      Move value who s { s with data := s.data.backfill value column rows }
  | prepare (s) (x : TxnId) (txn : Txn) (hx : s.txns x = some txn)
      (hactive : txn.phase = .active) :
      Move value who s (s.setTxn x (some { txn with phase := .prepared }))
  | park (s) (x : TxnId) (txn : Txn) (hx : s.txns x = some txn) :
      Move value who s
        { s.setTxn x (some { txn with phase := .parked }) with
          writer := s.releaseWriter x
          parkedPrepared := s.parkedPrepared ++ [x] }
  | appendCommit (s) (x : TxnId) (txn : Txn) (hx : s.txns x = some txn) :
      Move value who s
        { s.setTxn x (some { txn with phase := .commitPending s.nextLsn }) with
          nextLsn := s.nextLsn + 1 }
  | poison (s) : Move value who s { s with store := { s.store with poisoned := true } }
  | commit (s) (x : TxnId) (txn : Txn) (seq : CommitSeq) (hx : s.txns x = some txn)
      (hlater : s.store.maximumCommitSeq < seq) (hlsn : seq < s.nextLsn)
      (holdest : x ∈ s.stack.map (·.1) → (s.stack.map (·.1)).getLast? = some x)
      (hpops : ∀ y, s.parkedPrepared.head? = some y → y = x) :
      Move value who s
        { s.release x with
          store := s.store.insertStatus x (.committed seq)
          parkedPrepared := s.parkedPrepared.tail }
  | undo (s) (x : TxnId) (txn : Txn) (data : HeapData Row Column Key) (hwho : who x)
      (hx : s.txns x = some txn) (hundo : s.undoPages x = .ok data) :
      Move value who s
        { s.setTxn x (some { txn with phase := .rollbackPending }) with data }
  | abort (s) (x : TxnId) (txn : Txn) (data : HeapData Row Column Key) (hwho : who x)
      (hx : s.txns x = some txn) (hundo : s.undoPages x = .ok data)
      (hpops : x ∈ s.parkedPrepared → s.parkedPrepared.getLast? = some x) :
      Move value who s
        { s.release x with
          store := s.store.insertStatus x .aborted, data
          parkedPrepared :=
            if x ∈ s.parkedPrepared then s.parkedPrepared.dropLast else s.parkedPrepared }
  | dropped (s) (x : TxnId) (txn : Txn) (hx : s.txns x = some txn) :
      Move value who s
        { s.setTxn x (some { txn with phase := .dropped }) with writer := .recoveryRequired }
  | forgotten (s) (x : TxnId) (txn : Txn) (hx : s.txns x = some txn)
      (hout : x ∉ s.stack.map (·.1)) (writer : WriterState)
      (hwriter : writer = s.writer ∨ s.writer = .active x ∧ writer = .idle) :
      Move value who s { s.setTxn x none with writer, store := s.store.clearActive x }
  | reclaim (s) (dead : List (RowId × Version Row)) (rowGone entryGone : RowId → Bool)
      (hstack : s.stack = [])
      (hdead : HeapData.deadRows s.store
        (s.oldestSnapshot.getD s.store.maximumCommitSeq) s.data.rows = .ok dead) :
      Move value who s { s with data := s.data.reclaim value dead rowGone entryGone }
  | vacuumCommit (s) :
      Move value who s
        { s with
          store := s.store.insertStatus s.nextTxnId (.committed s.nextLsn)
          nextTxnId := s.nextTxnId + 1
          nextLsn := s.nextLsn + 1 }
  | vacuumUndone (s) :
      Move value who s
        { s with
          store := s.store.insertStatus s.nextTxnId .aborted
          nextTxnId := s.nextTxnId + 1 }
  | vacuumStuck (s) (hidle : s.writer = .idle) :
      Move value who s
        { s with
          store := s.store.markActive s.nextTxnId
          nextTxnId := s.nextTxnId + 1
          writer := .recoveryRequired }

namespace Inv

variable {s : HeapState Row Column Key} {x : TxnId} {txn : Txn}

lemma status_running (h : Inv s) (hx : s.txns x = some txn) : s.store.status x = .ok .active := by
  obtain ⟨hdurable, hactive, -⟩ := h.known x txn hx
  simp [status, hdurable, hactive]

lemma status_unresolved (h : Inv s) (hx : x ∈ s.stack.map (·.1)) :
    s.store.status x = .ok .active := by
  obtain ⟨txn, htxn⟩ := ne_none_iff_exists'.mp (h.running x hx)
  exact h.status_running htxn

lemma ne_of_committed (h : Inv s) (hx : s.txns x = some txn)
    (hy : s.store.status y = .ok (.committed seq)) : y ≠ x := by
  rintro rfl
  rw [h.status_running hx] at hy
  cases hy

lemma durable_of_committed (h : store.status x = .ok (.committed seq)) :
    store.durable x = some (.committed seq) := by
  unfold status at h
  cases hd : store.durable x with
  | some status =>
    rw [hd] at h
    cases h
    rfl
  | none =>
    rw [hd] at h
    cases ha : store.active x <;> simp [ha] at h

lemma new_resolved (h : Inv s) : s.nextTxnId ∉ s.stack.map (·.1) := by
  intro hmem
  obtain ⟨txn, hx⟩ := ne_none_iff_exists'.mp (h.running _ hmem)
  exact absurd (h.known _ _ hx).2.2 (lt_irrefl _)

lemma not_mentions_new (h : Inv s) (hp : p ∈ s.data.rows) : ¬ p.2.header.Mentions s.nextTxnId := by
  intro hm
  rcases h.stacked.settled p hp _ hm with ⟨seq, hseq⟩ | hmem
  · have hd := durable_of_committed hseq
    rw [h.fresh _ (le_refl _)] at hd
    cases hd
  · exact h.new_resolved hmem

/-- Everything a running writer wrote on is below it. -/
lemma top_of_running (h : Inv s) (hx : s.txns x = some txn) (hactive : txn.phase = .active)
    (hmem : x ∈ s.stack.map (·.1)) : ∃ base rest, s.stack = (x, base) :: rest := by
  have hhead := (h.top x txn hx (.inl hactive) hmem).1
  cases hstack : s.stack with
  | nil => simp [hstack] at hhead
  | cons p rest =>
    simp only [hstack, map_cons, head?_cons, some.injEq] at hhead
    exact ⟨p.2, rest, by rw [← hhead]⟩

end Inv

section Keeps

variable {s : HeapState Row Column Key} {status : TxnStatus}

/-- Recording the outcome of a transaction that is not committed forgets no commit. -/
lemma committed_insertStatus {x : TxnId} (hx : store.durable x = none)
    (h : store.status y = .ok (.committed seq)) :
    (store.insertStatus x status).status y = .ok (.committed seq) := by
  have hne : y ≠ x := by
    rintro rfl
    have := Inv.durable_of_committed h
    rw [hx] at this
    cases this
  rwa [status_insertStatus_other hne]

lemma committed_markActive {x : TxnId} (h : store.status y = .ok (.committed seq)) :
    (store.markActive x).status y = .ok (.committed seq) := by
  have hd := Inv.durable_of_committed h
  simp [status, markActive, hd]

section

variable (h : Inv s) {x : TxnId}
include h

/-- The bounds of the commit numbers after an outcome is recorded. -/
lemma Inv.insertStatus_bounds (x : TxnId) {nextLsn : CommitSeq} (hnext : s.nextLsn ≤ nextLsn)
    (hseq : ∀ seq, status = .committed seq → s.store.maximumCommitSeq < seq ∧ seq < nextLsn) :
    (∀ y seq, (s.store.insertStatus x status).durable y = some (.committed seq) →
      seq ≤ (s.store.insertStatus x status).maximumCommitSeq) ∧
    (s.store.insertStatus x status).maximumCommitSeq < nextLsn ∧
    ∀ v ∈ s.views, v.visibleCsn ≤ (s.store.insertStatus x status).maximumCommitSeq ∧
      ∀ y seq, v.ownTxn = some y →
        (s.store.insertStatus x status).durable y = some (.committed seq) →
          v.visibleCsn < seq := by
  refine ⟨fun y seq hy => ?_, ?_, fun v hv => ?_⟩
  · rcases update_eq_some hy with ⟨-, ⟨⟩⟩ | ⟨-, hy⟩
    · exact Nat.le_max_right ..
    · exact Nat.le_trans (h.bounded y seq hy) maximumCommitSeq_le_insertStatus
  · have hlsn := Nat.lt_of_lt_of_le h.lsn hnext
    cases status with
    | active | aborted => exact hlsn
    | committed seq => exact Nat.max_lt.mpr ⟨hlsn, (hseq seq rfl).2⟩
  · obtain ⟨hle, hown⟩ := h.views v hv
    refine ⟨Nat.le_trans hle maximumCommitSeq_le_insertStatus, fun y seq hy hd => ?_⟩
    rcases update_eq_some hd with ⟨-, hd⟩ | ⟨-, hd⟩
    · exact Nat.lt_of_le_of_lt hle (hseq seq (some.inj hd)).1
    · exact hown y seq hy hd

lemma Inv.begin (isolationLevel : IsolationLevel) : Inv (s.begin isolationLevel) := by
  have hunresolved := h.new_resolved
  have hrows : ∀ p ∈ s.data.rows, ¬ p.2.header.Mentions s.nextTxnId :=
    fun p hp => h.not_mentions_new hp
  exact
    { h with
      stacked := h.stacked.mono fun x seq hseq => ⟨seq, committed_markActive hseq⟩
      running := by
        intro x hx
        by_cases hxn : x = s.nextTxnId
        · exact absurd (hxn ▸ hx) hunresolved
        · simpa [HeapState.begin, HeapState.setTxn, hxn] using h.running x hx
      top := by
        intro x txn hx hrunning hmem
        rcases update_eq_some hx with ⟨rfl, -⟩ | ⟨-, hx⟩
        · exact absurd hmem hunresolved
        · exact h.top x txn hx hrunning hmem
      known := by
        intro x txn hx
        rcases update_eq_some hx with ⟨rfl, -⟩ | ⟨hne, hx⟩
        · exact ⟨h.fresh _ (le_refl _), update_self .., lt_succ_self _⟩
        · obtain ⟨hd, ha, hlt⟩ := h.known x txn hx
          exact ⟨hd, (update_of_ne hne ..).trans ha, lt_succ_of_lt hlt⟩
      fresh := fun x hx => h.fresh x (le_of_succ_le hx)
      commands := by
        intro x txn hx hactive
        rcases update_eq_some hx with ⟨rfl, ⟨⟩⟩ | ⟨-, hx⟩
        · exact ⟨le_refl 1, fun p hp hxmax => absurd (.inr hxmax) (hrows p hp)⟩
        · exact h.commands x txn hx hactive
      pending := by
        intro x txn seq hx hphase
        rcases update_eq_some hx with ⟨rfl, ⟨⟩⟩ | ⟨-, hx⟩
        · cases hphase
        · exact h.pending x txn seq hx hphase
      kept := by
        intro x txn visible hx hkept
        rcases update_eq_some hx with ⟨rfl, ⟨⟩⟩ | ⟨-, hx⟩
        · cases hkept
        · exact h.kept x txn visible hx hkept }

lemma Inv.withTxn {txn txn' : Txn} (hx : s.txns x = some txn)
    (hrunning : txn'.phase.Running → txn.phase.Running)
    (hactive : txn'.phase = .active → txn.phase = .active ∧ txn.commandId ≤ txn'.commandId ∧
      (txn.commandId ≤ txn.nextCommandId → txn'.commandId ≤ txn'.nextCommandId))
    (hpending : ∀ seq, txn'.phase = .commitPending seq → seq < s.nextLsn)
    (hkept : ∀ visible, txn'.repeatableReadView = some visible →
      visible ≤ s.store.maximumCommitSeq) : Inv (s.setTxn x (some txn')) :=
  { h with
    running := by
      intro y hy
      by_cases hyx : y = x
      · simp [setTxn, hyx]
      · simpa [setTxn, hyx] using h.running y hy
    top := by
      intro y t hy ht hmem
      rcases update_eq_some hy with ⟨rfl, ⟨⟩⟩ | ⟨-, hy⟩
      · exact h.top y txn hx (hrunning ht) hmem
      · exact h.top y t hy ht hmem
    known := by
      intro y t hy
      rcases update_eq_some hy with ⟨rfl, -⟩ | ⟨-, hy⟩
      · exact h.known y txn hx
      · exact h.known y t hy
    commands := by
      intro y t hy ht
      rcases update_eq_some hy with ⟨rfl, ⟨⟩⟩ | ⟨-, hy⟩
      · obtain ⟨hwas, hle, hnext⟩ := hactive ht
        obtain ⟨hcommand, hrows⟩ := h.commands y txn hx hwas
        exact ⟨hnext hcommand, fun p hp hxmax c hc => le_trans (hrows p hp hxmax c hc) hle⟩
      · exact h.commands y t hy ht
    pending := by
      intro y t seq hy ht
      rcases update_eq_some hy with ⟨rfl, ⟨⟩⟩ | ⟨-, hy⟩
      · exact hpending seq ht
      · exact h.pending y t seq hy ht
    kept := by
      intro y t visible hy ht
      rcases update_eq_some hy with ⟨rfl, ⟨⟩⟩ | ⟨-, hy⟩
      · exact hkept visible ht
      · exact h.kept y t visible hy ht }

lemma Inv.addViews (added : List Snapshot)
    (hadded : ∀ v ∈ added, v.visibleCsn ≤ s.store.maximumCommitSeq ∧
      ∀ x, v.ownTxn = some x → s.store.durable x = none) :
    Inv { s with views := added ++ s.views } :=
  { h with
    views := by
      intro v hv
      rcases mem_append.mp hv with hv | hv
      · refine ⟨(hadded v hv).1, fun x seq hown hseq => ?_⟩
        have hnone := (hadded v hv).2 x hown
        rw [hnone] at hseq
        cases hseq
      · exact h.views v hv }

lemma Inv.dropView (snapshot : Snapshot) : Inv (s.dropView snapshot) :=
  { h with views := fun v hv => h.views v (mem_of_mem_erase hv) }

lemma Inv.bumpLsn : Inv { s with nextLsn := s.nextLsn + 1 } :=
  { h with
    pending := fun x txn seq hx hseq => lt_succ_of_lt (h.pending x txn seq hx hseq)
    lsn := lt_succ_of_lt h.lsn }

lemma Inv.poison : Inv { s with store := { s.store with poisoned := true } } :=
  { h with stacked := h.stacked.mono fun _ seq hseq => ⟨seq, hseq⟩ }

/-- A transaction that no longer runs gives its lease up. -/
lemma Inv.releaseLease (hphase : ∀ txn, s.txns x = some txn → ¬ txn.phase.Running)
    (hplaced : x ∈ s.stack.map (·.1) → x ∈ s.parkedPrepared) :
    Inv { s with writer := s.releaseWriter x } := by
  by_cases hwriter : s.writer = .active x
  · have hrelease : s.releaseWriter x = .idle := if_pos hwriter
    rw [hrelease]
    refine { h with top := fun y txn hy hrunning hmem => ?_, placed := fun y hy => .inl ?_ }
    · rcases (h.top y txn hy hrunning hmem).2 with hlease | hlease
      · rw [hwriter] at hlease
        cases hlease
        exact absurd hrunning (hphase txn hy)
      · rw [hwriter] at hlease
        cases hlease
    · rcases h.placed y hy with hparked | hlease | hlease
      · exact hparked
      · rw [hwriter] at hlease
        cases hlease
        exact hplaced hy
      · rw [hwriter] at hlease
        cases hlease
  · have hrelease : s.releaseWriter x = s.writer := if_neg hwriter
    rw [hrelease]
    exact h

lemma Inv.park {txn : Txn} (hx : s.txns x = some txn) :
    Inv { s.setTxn x (some { txn with phase := .parked }) with
      writer := s.releaseWriter x, parkedPrepared := s.parkedPrepared ++ [x] } := by
  have hset := @withTxn _ _ _ s h x txn { txn with phase := .parked } hx (by simp [TxnPhase.Running])
    nofun nofun (fun visible => h.kept x txn visible hx)
  have hpushed : Inv { s.setTxn x (some { txn with phase := .parked }) with
      parkedPrepared := s.parkedPrepared ++ [x] } :=
    { hset with placed := fun y hy => (hset.placed y hy).imp_left (mem_append_left _) }
  refine @releaseLease _ _ _ _ hpushed x (fun t ht => ?_) fun _ => mem_append_right _ (mem_singleton_self x)
  rcases update_eq_some ht with ⟨-, ⟨⟩⟩ | ⟨hne, -⟩
  · simp [TxnPhase.Running]
  · exact absurd rfl hne

lemma Inv.acquire (x : TxnId) (hidle : s.writer = .idle) : Inv { s with writer := .active x } :=
  { h with
    top := fun y txn hy hrunning hmem => by
      have := (h.top y txn hy hrunning hmem).2
      simp [hidle] at this
    placed := fun y hy => .inl (by simpa [hidle] using h.placed y hy) }

/-- The lease holder changes its first page, on top of the pages as they are. -/
lemma Inv.touch {txn : Txn} (hx : s.txns x = some txn) (hwriter : s.writer = .active x)
    (hnew : x ∉ s.stack.map (·.1)) : Inv { s with stack := (x, s.data) :: s.stack } :=
  { h with
    stacked := .above x s.data (.refl x _) h.stacked
    stackIds := nodup_cons.mpr ⟨hnew, h.stackIds⟩
    running := by
      intro y hy
      rcases mem_cons.mp hy with rfl | hy
      · simp [hx]
      · exact h.running y hy
    top := by
      intro y t hy ht hmem
      rcases mem_cons.mp hmem with rfl | hmem
      · exact ⟨rfl, .inl hwriter⟩
      · have hlease := (h.top y t hy ht hmem).2
        simp only [hwriter, WriterState.active.injEq, reduceCtorEq, or_false] at hlease
        exact absurd (hlease ▸ hmem) hnew
    placed := by
      intro y hy
      rcases mem_cons.mp hy with rfl | hy
      · exact .inr (.inl hwriter)
      · exact h.placed y hy }

lemma Inv.dropped {txn : Txn} (hx : s.txns x = some txn) :
    Inv { s.setTxn x (some { txn with phase := .dropped }) with writer := .recoveryRequired } := by
  have hset := @withTxn _ _ _ s h x txn { txn with phase := .dropped } hx
    (by simp [TxnPhase.Running]) nofun nofun (fun visible => h.kept x txn visible hx)
  exact
    { hset with
      top := fun y t hy ht hmem => ⟨(hset.top y t hy ht hmem).1, .inr rfl⟩
      placed := fun _ _ => .inr (.inr rfl) }

/-- A transaction without page updates goes, and nothing remembers it. -/
lemma Inv.forgotten {txn : Txn} (hx : s.txns x = some txn) (hout : x ∉ s.stack.map (·.1))
    (writer : WriterState) (hwriter : writer = s.writer ∨ s.writer = .active x ∧ writer = .idle) :
    Inv { s.setTxn x none with writer, store := s.store.clearActive x } := by
  have hother : ∀ y t, update s.txns x none y = some t → y ≠ x ∧ s.txns y = some t :=
    fun y t hy => (update_eq_some hy).resolve_left nofun
  have hne : ∀ y ∈ s.stack.map (·.1), y ≠ x := fun y hy heq => hout (heq ▸ hy)
  -- The lease of another transaction is not touched.
  have hlease : ∀ y ∈ s.stack.map (·.1), (s.writer = .active y ∨ s.writer = .recoveryRequired) →
      writer = .active y ∨ writer = .recoveryRequired := by
    intro y hy hlease
    rcases hwriter with rfl | ⟨hx, -⟩
    · exact hlease
    · simp only [hx, WriterState.active.injEq, reduceCtorEq, or_false] at hlease
      exact absurd hlease.symm (hne y hy)
  exact
    { h with
      stacked := h.stacked.mono fun y seq hy => ⟨seq, by
        rw [status_clearActive_other (h.ne_of_committed hx hy)]
        exact hy⟩
      running := fun y hy => by
        simpa only [setTxn, update_of_ne (hne y hy)] using h.running y hy
      top := fun y t hy ht hmem =>
        (h.top y t (hother y t hy).2 ht hmem).imp_right (hlease y hmem)
      placed := fun y hy => (h.placed y hy).imp_right (hlease y hy)
      known := fun y t hy => by
        obtain ⟨hyx, hy⟩ := hother y t hy
        obtain ⟨hd, ha, hlt⟩ := h.known y t hy
        exact ⟨hd, (update_of_ne hyx ..).trans ha, hlt⟩
      commands := fun y t hy => h.commands y t (hother y t hy).2
      pending := fun y t seq hy => h.pending y t seq (hother y t hy).2
      kept := fun y t visible hy => h.kept y t visible (hother y t hy).2 }

end

end Keeps

section Ends

variable {s : HeapState Row Column Key} {data : HeapData Row Column Key} {x : TxnId} {txn : Txn}

/-- A transaction ends: its outcome is recorded and its place given up. -/
lemma Inv.ended (h : Inv s) (hx : s.txns x = some txn) (status : TxnStatus)
    (data : HeapData Row Column Key) (parkedPrepared : List TxnId)
    (hparked : ∀ y ∈ s.parkedPrepared, y ≠ x → y ∈ parkedPrepared)
    (hseq : ∀ seq, status = .committed seq →
      s.store.maximumCommitSeq < seq ∧ seq < s.nextLsn) (hrowIds : (data.rows.map (·.1)).Nodup)
    (hmarked : ∀ p ∈ data.rows, p.2.header.xmax ≠ none → p.2.header.cmax ≠ none)
    (hstacked : Stacked (s.store.insertStatus x status) data.rows
      (s.stack.filter fun p => p.1 ≠ x))
    (hcommands : ∀ y t, y ≠ x → s.txns y = some t → t.phase = .active → ∀ p ∈ data.rows,
      p.2.header.xmax = some y → p ∈ s.data.rows) :
    Inv { s.release x with store := s.store.insertStatus x status, data, parkedPrepared } := by
  obtain ⟨hdurable, -, hlt⟩ := h.known x txn hx
  have hother : ∀ y t, update s.txns x none y = some t → y ≠ x ∧ s.txns y = some t :=
    fun y t hy => (update_eq_some hy).resolve_left nofun
  obtain ⟨hbounded, hlsn, hviews⟩ := h.insertStatus_bounds x (le_refl _) hseq
  have hmem : ∀ y, y ∈ (s.stack.filter fun p => p.1 ≠ x).map (·.1) →
      y ≠ x ∧ y ∈ s.stack.map (·.1) := by
    intro y hy
    obtain ⟨p, hp, rfl⟩ := mem_map.mp hy
    obtain ⟨hp, hne⟩ := mem_filter.mp hp
    exact ⟨by simpa using hne, mem_map_of_mem hp⟩
  have hrelease : ∀ y, y ≠ x → (s.writer = .active y ∨ s.writer = .recoveryRequired) →
      s.releaseWriter x = .active y ∨ s.releaseWriter x = .recoveryRequired := by
    intro y hyx hlease
    unfold releaseWriter
    rw [if_neg (by rcases hlease with h | h <;> simp [h, hyx])]
    exact hlease
  exact
    { rowIds := hrowIds
      marked := hmarked
      stacked := hstacked
      stackIds := h.stackIds.sublist ((filter_sublist).map _)
      running := by
        intro y hy
        obtain ⟨hyx, hy⟩ := hmem y hy
        have : update s.txns x none y = s.txns y := update_of_ne hyx ..
        simpa only [release, setTxn, this] using h.running y hy
      top := by
        intro y t hy ht hy'
        obtain ⟨hyx, hy⟩ := hother y t hy
        obtain ⟨hhead, hlease⟩ := h.top y t hy ht (hmem y hy').2
        refine ⟨?_, hrelease y hyx hlease⟩
        obtain ⟨below, hstack⟩ := head?_eq_some_iff.mp hhead
        obtain ⟨p, rest, hp, rfl, -⟩ := map_eq_cons_iff.mp hstack
        simp [release, hp, hyx]
      placed := by
        intro y hy
        obtain ⟨hyx, hy⟩ := hmem y hy
        exact (h.placed y hy).imp (hparked y · hyx) (hrelease y hyx)
      known := by
        intro y t hy
        obtain ⟨hyx, hy⟩ := hother y t hy
        obtain ⟨hd, ha, hl⟩ := h.known y t hy
        exact ⟨(update_of_ne hyx ..).trans hd, (update_of_ne hyx ..).trans ha, hl⟩
      fresh := by
        intro y hy
        have hyx : y ≠ x := by
          rintro rfl
          exact absurd hlt (Nat.not_lt.mpr hy)
        exact (update_of_ne hyx ..).trans (h.fresh y hy)
      commands := by
        intro y t hy ht
        obtain ⟨hyx, hy⟩ := hother y t hy
        obtain ⟨hcommand, hrows⟩ := h.commands y t hy ht
        exact ⟨hcommand, fun p hp hxmax =>
          hrows p (hcommands y t hyx hy ht p hp hxmax) hxmax⟩
      pending := by
        intro y t seq hy ht
        obtain ⟨hyx, hy⟩ := hother y t hy
        exact h.pending y t seq hy ht
      kept := by
        intro y t visible hy ht
        obtain ⟨hyx, hy⟩ := hother y t hy
        exact Nat.le_trans (h.kept y t visible hy ht)
          maximumCommitSeq_le_insertStatus
      bounded := hbounded
      lsn := hlsn
      views := hviews }

lemma Inv.commit (h : Inv s) (hx : s.txns x = some txn) (hlater : s.store.maximumCommitSeq < seq)
    (hlsn : seq < s.nextLsn)
    (holdest : x ∈ s.stack.map (·.1) → (s.stack.map (·.1)).getLast? = some x)
    (hpops : ∀ y, s.parkedPrepared.head? = some y → y = x) :
    Inv { s.release x with
      store := s.store.insertStatus x (.committed seq)
      parkedPrepared := s.parkedPrepared.tail } := by
  refine h.ended hx (.committed seq) s.data _ ?_ ?_ h.rowIds h.marked ?_
    fun _ _ _ _ _ p hp _ => hp
  · intro y hy hyx
    cases hparked : s.parkedPrepared with
    | nil => simp [hparked] at hy
    | cons front rest =>
      rw [hparked] at hy
      exact (mem_cons.mp hy).resolve_left fun heq => hyx (heq.trans (hpops front (by rw [hparked]; rfl)))
  · rintro seq' hseq
    cases hseq
    exact ⟨hlater, hlsn⟩
  · exact h.stacked.commit_oldest x h.stackIds holdest
      (fun y seq' hy => ⟨seq', committed_insertStatus (h.known x txn hx).1 hy⟩)
      ⟨seq, status_insertStatus_self⟩

lemma undoPages_cases (h : s.undoPages x = .ok data) :
    (x ∉ s.stack.map (·.1) ∧ data = s.data) ∨ ∃ rest, s.stack = (x, data) :: rest := by
  unfold undoPages at h
  by_cases hmem : x ∈ s.stack.map (·.1)
  · rw [if_pos hmem] at h
    cases hstack : s.stack with
    | nil => rw [hstack] at h; cases h
    | cons p rest =>
      rw [hstack] at h
      by_cases hp : p.1 = x
      · simp only [hp, if_true, Outcome.pure_eq_ok] at h
        exact .inr ⟨rest, by rw [← h, ← hp]⟩
      · simp [hp] at h
  · rw [if_neg hmem, Outcome.pure_eq_ok] at h
    exact .inl ⟨hmem, h.symm⟩

/-- What a running writer other than the top one has marked cannot be below the top. -/
lemma Inv.commands_below (h : Inv s) {base : HeapData Row Column Key}
    {rest : List (TxnId × HeapData Row Column Key)} (hstack : s.stack = (x, base) :: rest)
    (hy : s.txns y = some txn) (hactive : txn.phase = .active) (hp : p ∈ base.rows)
    (hxmax : p.2.header.xmax = some y) : False := by
  have hbelow : Stacked s.store base.rows rest := by
    have := h.stacked
    rw [hstack] at this
    cases this with
    | above _ _ _ below => exact below
  rcases hbelow.settled p hp y (.inr hxmax) with ⟨seq, hseq⟩ | hmem
  · exact h.ne_of_committed hy hseq rfl
  have hids := h.stackIds
  rw [hstack, map_cons, nodup_cons] at hids
  have hhead := (h.top y txn hy (.inl hactive)
    (by simp [hstack]; exact .inr (by simpa using hmem))).1
  simp only [hstack, map_cons, head?_cons, some.injEq] at hhead
  exact hids.1 (hhead ▸ hmem)

lemma Inv.undo (h : Inv s) (hx : s.txns x = some txn) (hundo : s.undoPages x = .ok data) :
    Inv { s.setTxn x (some { txn with phase := .rollbackPending }) with data } := by
  have hset := @withTxn _ _ _ s h x txn { txn with phase := .rollbackPending } hx
    (by simp [TxnPhase.Running]) (nofun) (nofun)
    (fun visible => h.kept x txn visible hx)
  rcases undoPages_cases hundo with ⟨-, rfl⟩ | ⟨rest, hstack⟩
  · exact hset
  have hstacked := h.stacked
  rw [hstack] at hstacked
  cases hstacked with
  | above _ _ layer below =>
    exact
      { hset with
        rowIds := h.rowIds.sublist layer.ids_sublist
        marked := fun p hp hd => h.marked p (layer.mem_of_deleted hp hd) hd
        stacked := by
          change Stacked s.store data.rows s.stack
          rw [hstack]
          exact .above x data (.refl x _) below
        commands := by
          intro y t hy ht
          refine ⟨(hset.commands y t hy ht).1, fun p hp hxmax => ?_⟩
          rcases update_eq_some hy with ⟨rfl, ⟨⟩⟩ | ⟨-, hy⟩
          · cases ht
          · exact (h.commands_below hstack hy ht hp hxmax).elim }

lemma Inv.abort (h : Inv s) (hx : s.txns x = some txn) (hundo : s.undoPages x = .ok data)
    (hpops : x ∈ s.parkedPrepared → s.parkedPrepared.getLast? = some x) :
    Inv { s.release x with
      store := s.store.insertStatus x .aborted, data
      parkedPrepared :=
        if x ∈ s.parkedPrepared then s.parkedPrepared.dropLast else s.parkedPrepared } := by
  have hparked : ∀ y ∈ s.parkedPrepared, y ≠ x →
      y ∈ (if x ∈ s.parkedPrepared then s.parkedPrepared.dropLast else s.parkedPrepared) := by
    intro y hy hyx
    split
    · next hmem =>
      rw [← dropLast_append_getLast? x (hpops hmem)] at hy
      exact (mem_append.mp hy).resolve_right (by simpa using hyx)
    · exact hy
  have hmono : ∀ y seq, s.store.status y = .ok (.committed seq) →
      ∃ seq', (s.store.insertStatus x .aborted).status y = .ok (.committed seq') :=
    fun y seq hy => ⟨seq, committed_insertStatus (h.known x txn hx).1 hy⟩
  have hids := h.stackIds
  have hstacked := h.stacked
  rcases undoPages_cases hundo with ⟨hnot, rfl⟩ | ⟨rest, hstack⟩
  · refine h.ended hx .aborted s.data _ hparked (nofun) h.rowIds h.marked ?_
      fun _ _ _ _ _ p hp _ => hp
    have hfilter : (s.stack.filter fun p => p.1 ≠ x) = s.stack := by
      refine filter_eq_self.mpr fun p hp => ?_
      have : p.1 ≠ x := fun heq => hnot (heq ▸ mem_map_of_mem hp)
      simpa using this
    rw [hfilter]
    exact hstacked.mono hmono
  · rw [hstack] at hstacked hids
    rw [map_cons, nodup_cons] at hids
    cases hstacked with
    | above _ _ layer below =>
      refine h.ended hx .aborted data _ hparked (nofun)
        (h.rowIds.sublist layer.ids_sublist)
        (fun p hp hd => h.marked p (layer.mem_of_deleted hp hd) hd) ?_
        fun y t _ hy ht p hp hxmax => (h.commands_below hstack hy ht hp hxmax).elim
      have hfilter : (s.stack.filter fun p => p.1 ≠ x) = rest := by
        rw [hstack, filter_cons_of_neg (by simp)]
        refine filter_eq_self.mpr fun p hp => ?_
        have : p.1 ≠ x := fun heq => hids.1 (mem_map.mpr ⟨p, hp, heq⟩)
        simpa using this
      rw [hfilter]
      exact below.mono hmono

end Ends

end Netbadb.Mvcc
