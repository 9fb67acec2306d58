import Netbadb.Mvcc.Calls

/-!
A held view keeps seeing what it saw, and vacuum takes nothing from it.
-/

namespace Netbadb.Mvcc

open List StatusStore HeapData

variable {Row Column Key : Type} {dead : List (RowId × Version Row)} {view : Snapshot}
  {x : TxnId} {txn : Txn}

section Dead

variable {store : StatusStore} {rows : List (RowId × Version Row)} {p : RowId × Version Row}
  {s : HeapState Row Column Key}

lemma mem_deadRows {horizon : CommitSeq} (h : deadRows store horizon rows = .ok dead)
    (hp : p ∈ dead) :
    p ∈ rows ∧ isDeadBefore store p.2.header horizon = .ok true := by
  induction rows generalizing dead with
  | nil =>
    cases h
    cases hp
  | cons q rows ih =>
    simp only [deadRows, Outcome.bind_eq_ok, Outcome.pure_eq_ok] at h
    obtain ⟨isDead, hdead, rest, hrest, rfl⟩ := h
    cases isDead with
    | true =>
      rcases mem_cons.mp hp with rfl | hp
      · exact ⟨mem_cons_self, hdead⟩
      · exact (ih hrest hp).imp_left (mem_cons_of_mem _)
    | false => exact (ih hrest hp).imp_left (mem_cons_of_mem _)

lemma horizon_le (hheld : view ∈ s.views) :
    s.oldestSnapshot.getD s.store.maximumCommitSeq ≤ view.visibleCsn := by
  have hmem : view.visibleCsn ∈ s.views.map (·.visibleCsn) := mem_map_of_mem hheld
  unfold HeapState.oldestSnapshot
  cases hmin : (s.views.map (·.visibleCsn)).min? with
  | none =>
    rw [min?_eq_none_iff] at hmin
    rw [hmin] at hmem
    cases hmem
  | some oldest => exact (min?_eq_some_iff.mp hmin).2 _ hmem

/-- What is dead at the horizon is invisible to every held view. -/
lemma Inv.dead_invisible (h : Inv s) (hstack : s.stack = []) (hheld : view ∈ s.views)
    (hp : p ∈ s.data.rows) (hdead : isDeadBefore s.store p.2.header
      (s.oldestSnapshot.getD s.store.maximumCommitSeq) = .ok true) :
    isVisible s.store p.2.header view = .ok false := by
  have hsettled : ∀ x, p.2.header.Mentions x → ∃ seq, s.store.status x = .ok (.committed seq) := by
    intro x hx
    rcases h.stacked.settled p hp x hx with hcommitted | hmem
    · exact hcommitted
    · rw [hstack] at hmem
      cases hmem
  obtain ⟨inserted, hinserted⟩ := hsettled p.2.header.xmin (.inl rfl)
  unfold isDeadBefore at hdead
  rw [hinserted] at hdead
  cases hxmax : p.2.header.xmax with
  | none => simp [hxmax] at hdead
  | some x =>
    obtain ⟨seq, hseq⟩ := hsettled x (.inr hxmax)
    simp only [hxmax, hseq, Except.ok.injEq, decide_eq_true_eq] at hdead
    have hle : seq ≤ view.visibleCsn := Nat.le_trans hdead (horizon_le hheld)
    have hother : view.ownTxn ≠ some x := by
      intro hown
      have hlt := (h.views view hheld).2 x seq hown (Inv.durable_of_committed hseq)
      exact absurd hle (Nat.not_le.mpr hlt)
    have hdeleted : ∀ visible, insertedVisible s.store p.2.header view = .ok visible →
        isVisible s.store p.2.header view = .ok false := by
      intro visible hvisible
      unfold isVisible
      rw [hvisible]
      cases visible with
      | false => rfl
      | true => simp [hxmax, hother, hseq, Nat.not_lt.mpr hle]
    by_cases hown : view.ownTxn = some p.2.header.xmin
    · exact hdeleted _ (if_pos hown)
    · refine hdeleted (decide (inserted ≤ view.visibleCsn)) ?_
      unfold insertedVisible
      rw [if_neg hown, hinserted]

end Dead

section Step

variable {s s' : HeapState Row Column Key} {value : Column → Row → Key} {who : TxnId → Prop}
  {view : Snapshot} {data : HeapData Row Column Key} {store : StatusStore}

lemma Inv.outside_running (h : Inv s) (hx : s.txns x = some txn) (hown : view.ownTxn ≠ some x) :
    Outside s.store view x :=
  ⟨hown, .inl (h.status_running hx)⟩

/-- A write within the top layer is invisible to the views of others. -/
lemma Inv.scan_write (h : Inv s) (hx : s.txns x = some txn) (hactive : txn.phase = .active)
    (hwriter : x ∈ s.stack.map (·.1)) (hown : view.ownTxn ≠ some x) {rows : List (RowId × Version Row)}
    (hlayer : ∀ base, Layer x base s.data.rows → Layer x base rows) :
    scanRows s.store view rows = scanRows s.store view s.data.rows := by
  obtain ⟨base, rest, hstack⟩ := h.top_of_running hx hactive hwriter
  have hstacked := h.stacked
  rw [hstack] at hstacked
  have houtside := h.outside_running hx hown
  cases hstacked with
  | above _ _ layer below =>
    rw [(hlayer _ layer).scanRows_eq houtside, layer.scanRows_eq houtside]

lemma Inv.scan_undo (h : Inv s) (hx : s.txns x = some txn) (hundo : s.undoPages x = .ok data)
    (hown : view.ownTxn ≠ some x) :
    data.scan s.store view = s.data.scan s.store view := by
  rcases undoPages_cases hundo with ⟨-, rfl⟩ | ⟨rest, hstack⟩
  · rfl
  · have hstacked := h.stacked
    rw [hstack] at hstacked
    cases hstacked with
    | above _ _ layer below => exact (layer.scanRows_eq (h.outside_running hx hown)).symm

/-- Statuses that say the same about the transactions of every version give the same scan. -/
lemma scan_congr (h : ∀ p ∈ data.rows, ∀ x, p.2.header.Mentions x → Agrees s.store store view x) :
    data.scan store view = data.scan s.store view :=
  scanRows_congr fun p hp =>
    isVisible_congr (h p hp _ (.inl rfl)) fun x hx => h p hp x (.inr hx)

/-- The outcome of a transaction nobody has heard of changes no scan. -/
lemma Inv.scan_new (h : Inv s) (hstore : ∀ y, y ≠ s.nextTxnId → store.status y = s.store.status y) :
    s.data.scan store view = s.data.scan s.store view := by
  refine scan_congr fun p hp x hx => .inl (hstore x ?_)
  rintro rfl
  exact h.not_mentions_new hp hx

lemma Inv.scan_commit (h : Inv s) {seq : CommitSeq} (hx : s.txns x = some txn)
    (hlater : s.store.maximumCommitSeq < seq) (hheld : view ∈ s.views) :
    s.data.scan (s.store.insertStatus x (.committed seq)) view = s.data.scan s.store view := by
  refine scan_congr fun p hp y hy => ?_
  by_cases hyx : y = x
  · subst hyx
    by_cases hown : view.ownTxn = some y
    · exact .inr (.inl hown)
    · have hlt : view.visibleCsn < seq := Nat.lt_of_le_of_lt (h.views view hheld).1 hlater
      exact .inr (.inr ⟨h.outside_running hx hown,
        hown, .inr (.inr ⟨seq, status_insertStatus_self, hlt⟩)⟩)
  · exact .inl (status_insertStatus_other hyx)

lemma Inv.scan_abort (h : Inv s) (hx : s.txns x = some txn) (hundo : s.undoPages x = .ok data)
    (hown : view.ownTxn ≠ some x) :
    data.scan (s.store.insertStatus x .aborted) view = s.data.scan s.store view := by
  rw [← h.scan_undo hx hundo hown]
  refine scan_congr fun p hp y hy => ?_
  by_cases hyx : y = x
  · subst hyx
    exact .inr (.inr ⟨h.outside_running hx hown,
      hown, .inr (.inl status_insertStatus_self)⟩)
  · exact .inl (status_insertStatus_other hyx)

/-- A transaction without page updates is named by no version. -/
lemma Inv.scan_forgotten (h : Inv s) (hx : s.txns x = some txn) (hout : x ∉ s.stack.map (·.1)) :
    s.data.scan (s.store.clearActive x) view = s.data.scan s.store view := by
  refine scan_congr fun p hp y hy => .inl (status_clearActive_other ?_)
  rintro rfl
  rcases h.stacked.settled p hp y hy with ⟨seq, hseq⟩ | hmem
  · exact h.ne_of_committed hx hseq rfl
  · exact hout hmem

/-- A scan has an answer: the status of every transaction the rows name is known. -/
lemma Inv.scan_ok (h : Inv s) (view : Snapshot) : ∃ rows, s.data.scan s.store view = .ok rows := by
  refine scanRows_ok fun p hp => isVisible_ok ?_ fun x hx => ⟨?_, h.marked p hp (by simp [hx])⟩
  · rcases h.stacked.settled p hp _ (.inl rfl) with ⟨seq, hseq⟩ | hmem
    · exact ⟨_, hseq⟩
    · exact ⟨_, h.status_unresolved hmem⟩
  · rcases h.stacked.settled p hp x (.inr hx) with ⟨seq, hseq⟩ | hmem
    · exact ⟨_, hseq⟩
    · exact ⟨_, h.status_unresolved hmem⟩

variable [DecidableEq Column] [DecidableEq Key]

lemma Inv.scan_reclaim (h : Inv s) (hheld : view ∈ s.views) (hstack : s.stack = [])
    (rowGone entryGone : RowId → Bool) (hdead : deadRows s.store
      (s.oldestSnapshot.getD s.store.maximumCommitSeq) s.data.rows = .ok dead) :
    (s.data.reclaim value dead rowGone entryGone).scan s.store view =
      s.data.scan s.store view := by
  refine scanRows_filter _ fun p hp hgone => ?_
  simp only [decide_eq_false_iff_not, not_not] at hgone
  obtain ⟨q, hq, hid⟩ := mem_map.mp hgone.1
  obtain ⟨hmem, hisDead⟩ := mem_deadRows hdead hq
  have heq : q = p := inj_on_of_nodup_map h.rowIds hmem hp hid
  subst heq
  exact h.dead_invisible hstack hheld hp hisDead

/-- One move leaves the scan of every held view as it was. -/
lemma Inv.scan_move (h : Inv s) (hmove : Move value who s s') (hheld : view ∈ s.views)
    (hother : ∀ x, who x → view.ownTxn ≠ some x) :
    s'.data.scan s'.store view = s.data.scan s.store view := by
  cases hmove with
  | begin level => exact h.scan_new fun y hy => status_markActive_other hy
  | statement | readView | acquire | touch => rfl
  | insert x txn position rowId row hwho hx hactive hwriter hfresh =>
    exact h.scan_write hx hactive hwriter (hother x hwho) fun base layer =>
      layer.place position _ rfl (fun y hy => nomatch hy)
  | update x txn visible rowId old position newRowId row hwho hx hactive hwriter hfind hvisible
      hlive hfresh =>
    exact h.scan_write hx hactive hwriter (hother x hwho) fun base layer =>
      (layer.expire rowId _ _ (h.live_of_find hfind hlive)).place position _ rfl
        (fun y hy => nomatch hy)
  | delete x txn visible rowId old hwho hx hactive hwriter hfind hvisible hlive =>
    exact h.scan_write hx hactive hwriter (hother x hwho) fun base layer =>
      layer.expire rowId _ _ (h.live_of_find hfind hlive)
  | buildIndex | prepare | park | appendCommit | dropped => rfl
  | poison => exact scan_congr fun _ _ _ _ => .inl rfl
  | commit x txn seq hx hlater hlsn holdest hpops => exact h.scan_commit hx hlater hheld
  | undo x txn data hwho hx hundo => exact h.scan_undo hx hundo (hother x hwho)
  | abort x txn data hwho hx hundo hpops => exact h.scan_abort hx hundo (hother x hwho)
  | forgotten x txn hx hout writer hwriter => exact h.scan_forgotten hx hout
  | reclaim dead rowGone entryGone hstack hdead =>
    exact h.scan_reclaim hheld hstack rowGone entryGone hdead
  | vacuumCommit | vacuumUndone => exact h.scan_new fun y hy => status_insertStatus_other hy
  | vacuumStuck => exact h.scan_new fun y hy => status_markActive_other hy

lemma Move.views_subset (hmove : Move value who s s') (hheld : view ∈ s.views) :
    view ∈ s'.views := by
  cases hmove with
  | statement => exact mem_append_right _ hheld
  | readView => exact mem_cons_of_mem _ hheld
  | begin | acquire | touch | insert | update | delete | buildIndex | prepare | park | appendCommit
  | poison | commit | undo | abort | dropped | forgotten | reclaim | vacuumCommit | vacuumUndone
  | vacuumStuck => exact hheld

lemma Inv.scan_moves (h : Inv s) (hmoves : Moves value who s s') (hheld : view ∈ s.views)
    (hother : ∀ x, who x → view.ownTxn ≠ some x) :
    s'.data.scan s'.store view = s.data.scan s.store view := by
  induction hmoves with
  | refl => rfl
  | step first rest ih =>
    rw [ih (h.move first) (first.views_subset hheld), h.scan_move first hheld hother]

variable {op : Op Row Column}

lemma Inv.call (h : Inv s) (hok : InOrder s op) (hcall : s.call value op = .ok s') : Inv s' := by
  rcases call_moves h hok hcall with ⟨snapshot, rfl⟩ | hmoves
  · cases hcall
    exact h.dropView snapshot
  · exact h.moves hmoves

lemma Inv.scan_call (h : Inv s) (hok : InOrder s op) (hcall : s.call value op = .ok s')
    (hheld : view ∈ s.views) (hother : ∀ x, op.WritesFor x → view.ownTxn ≠ some x) :
    s'.data.scan s'.store view = s.data.scan s.store view := by
  rcases call_moves h hok hcall with ⟨snapshot, rfl⟩ | hmoves
  · cases hcall
    rfl
  · exact h.scan_moves hmoves hheld hother

end Step

def HeapState.Seen (s : HeapState Row Column Key) (view : Snapshot) (rowId : RowId) : Prop :=
  ∃ version, s.data.find rowId = some version ∧
    isVisible s.store version.header view = .ok true

lemma Inv.seen_iff {s : HeapState Row Column Key} (h : Inv s) {rows : List (RowId × Row)}
    (hscan : s.data.scan s.store view = .ok rows) (rowId : RowId) :
    s.Seen view rowId ↔ ∃ row, (rowId, row) ∈ rows := by
  constructor
  · rintro ⟨version, hfind, hvisible⟩
    exact ⟨version.row, (mem_scanRows hscan rowId version.row).mpr
      ⟨version.header, mem_of_find hfind, hvisible⟩⟩
  · rintro ⟨row, hmem⟩
    obtain ⟨header, hrow, hvisible⟩ := (mem_scanRows hscan rowId row).mp hmem
    exact ⟨_, find_of_mem h.rowIds hrow, hvisible⟩

lemma opened_empty (plans : List Column) :
    Opened (HeapState.empty (⟨[], plans, []⟩ : HeapData Row Column Key)) where
  rowIds := nodup_nil
  marked := nofun
  settled := nofun
  txns := fun _ => rfl
  writer := rfl
  stack := rfl
  views := rfl
  fresh := fun _ _ => rfl
  bounded := nofun
  lsn := Nat.zero_lt_one

variable [DecidableEq Column] [DecidableEq Key]

/-- Calls one after another, each allowed by the condition. -/
inductive Run (value : Column → Row → Key) (ok : HeapState Row Column Key → Op Row Column → Prop) :
    HeapState Row Column Key → HeapState Row Column Key → Prop
  | refl (s) : Run value ok s s
  | step {s s₁ s₂} (run : Run value ok s s₁) (op : Op Row Column) (hok : ok s₁ op)
      (hcall : s₁.call value op = .ok s₂) : Run value ok s s₂

/-- A run through which the view stays held, and in which its own transaction, if it has one,
changes no rows. -/
inductive HeldRun (value : Column → Row → Key)
    (ok : HeapState Row Column Key → Op Row Column → Prop) (view : Snapshot) :
    HeapState Row Column Key → HeapState Row Column Key → Prop
  | refl (s) (hheld : view ∈ s.views) : HeldRun value ok view s s
  | step {s s₁ s₂} (run : HeldRun value ok view s s₁) (op : Op Row Column) (hok : ok s₁ op)
      (hother : ∀ x, op.WritesFor x → view.ownTxn ≠ some x)
      (hcall : s₁.call value op = .ok s₂) (hheld : view ∈ s₂.views) : HeldRun value ok view s s₂

section Runs

variable {s₀ s s' : HeapState Row Column Key} {value : Column → Row → Key} {view : Snapshot}

lemma Run.inv (h : Inv s) (hrun : Run value InOrder s s') : Inv s' := by
  induction hrun with
  | refl => exact h
  | step run op hok hcall ih => exact ih.call hok hcall

lemma HeldRun.held {ok} (hrun : HeldRun value ok view s s') : view ∈ s'.views := by
  cases hrun with
  | refl hheld | step run op hok hother hcall hheld => exact hheld

lemma HeldRun.inv (h : Inv s) (hrun : HeldRun value InOrder view s s') : Inv s' := by
  induction hrun with
  | refl => exact h
  | step run op hok hother hcall hheld ih => exact ih.call hok hcall

lemma HeldRun.scan_eq (h : Inv s) (hrun : HeldRun value InOrder view s s') :
    s'.data.scan s'.store view = s.data.scan s.store view := by
  induction hrun with
  | refl => rfl
  | step run op hok hother hcall hheld ih =>
    rw [(run.inv h).scan_call hok hcall run.held hother, ih]

/-- Vacuum leaves the index entries of the versions a held view sees. -/
lemma Inv.vacuum_entries (h : Inv s) (hheld : view ∈ s.views) (hstack : s.stack = [])
    {ending : VacuumEnd} (hcall : s.call value (.vacuum ending) = .ok s') {column : Column}
    {key : Key} {rowId : RowId} (hseen : s.Seen view rowId)
    (hentry : (column, key, rowId) ∈ s.data.entries) : (column, key, rowId) ∈ s'.data.entries := by
  have hkeep : ∀ dead rowGone entryGone, deadRows s.store
      (s.oldestSnapshot.getD s.store.maximumCommitSeq) s.data.rows = .ok dead →
      (column, key, rowId) ∈ (s.data.reclaim value dead rowGone entryGone).entries := by
    intro dead rowGone entryGone hdead
    refine mem_filter.mpr ⟨hentry, ?_⟩
    simp only [decide_eq_true_eq]
    rintro ⟨-, -, p, hp, hid, -⟩
    obtain ⟨hmem, hisDead⟩ := mem_deadRows hdead hp
    obtain ⟨version, hfind, hvisible⟩ := hseen
    rw [eq_of_find h.rowIds hfind hmem hid] at hisDead hmem
    have hhidden := h.dead_invisible hstack hheld hmem hisDead
    rw [hvisible] at hhidden
    cases hhidden
  simp only [HeapState.call, HeapState.vacuum, Outcome.bind_eq_ok] at hcall
  obtain ⟨dead, hdead, hcall⟩ := hcall
  by_cases hempty : dead.isEmpty = true
  · simp only [hempty, if_true, Outcome.pure_eq_ok] at hcall
    exact hcall ▸ hentry
  simp only [hempty, Bool.false_eq_true, if_false, Outcome.check_eq_ok] at hcall
  obtain ⟨-, hcall⟩ := hcall
  cases hwriter : s.writer with
  | active other | recoveryRequired => rw [hwriter] at hcall; cases hcall
  | idle =>
    rw [hwriter] at hcall
    cases ending with
    | committed =>
      cases hcall
      exact hkeep dead _ _ hdead
    | undone =>
      cases hcall
      exact hentry
    | stuck rowGone entryGone =>
      cases hcall
      exact hkeep dead rowGone entryGone hdead

/-- While a view is held, it sees the same versions and scans the same rows, whatever the other
transactions do, and vacuum leaves the index entries of what it sees. The commits are published
in the order of their log positions and by the oldest unresolved writer, a transaction that ends
takes only its own entry from the deque, one with page updates is dropped only while it has the
lease or its entry, vacuum runs while nothing is parked or unresolved, and nobody deletes a
version whose deletion its view is too old to see. -/
theorem HeldRun.view_stable (hopened : Opened s₀) (hrun : Run value InOrder s₀ s)
    (hheld : HeldRun value InOrder view s s') :
    (∃ rows, s.data.scan s.store view = .ok rows ∧ s'.data.scan s'.store view = .ok rows) ∧
      (∀ rowId, s'.Seen view rowId ↔ s.Seen view rowId) ∧
      ∀ ending s'', InOrder s' (.vacuum ending) → s'.call value (.vacuum ending) = .ok s'' →
        ∀ column key rowId, s'.Seen view rowId → (column, key, rowId) ∈ s'.data.entries →
          (column, key, rowId) ∈ s''.data.entries := by
  have hinv := hrun.inv hopened.inv
  have hinv' := hheld.inv hinv
  obtain ⟨rows, hscan⟩ := hinv.scan_ok view
  have hscan' := (hheld.scan_eq hinv).trans hscan
  refine ⟨⟨rows, hscan, hscan'⟩, fun rowId => ?_, ?_⟩
  · rw [hinv'.seen_iff hscan', hinv.seen_iff hscan]
  · intro ending s'' hok hcall column key rowId hseen hentry
    exact hinv'.vacuum_entries hheld.held hok.1 hcall hseen hentry

/-- In such a run a transaction that ended without a commit has left no version, and every scan
has an answer: the versions of the view's own transaction and of those committed at its boundary. -/
theorem Run.reads_committed (hopened : Opened s₀) (hrun : Run value InOrder s₀ s) :
    (∀ p ∈ s.data.rows, ∀ x, p.2.header.Mentions x →
      (∃ seq, s.store.status x = .ok (.committed seq)) ∨ s.txns x ≠ none) ∧
    ∀ view, ∃ rows, s.data.scan s.store view = .ok rows ∧ ∀ rowId row, (rowId, row) ∈ rows →
      ∃ header, (rowId, ⟨header, row⟩) ∈ s.data.rows ∧ (view.ownTxn = some header.xmin ∨
        ∃ seq ≤ view.visibleCsn, s.store.status header.xmin = .ok (.committed seq)) := by
  have hinv := hrun.inv hopened.inv
  have hsettled := hinv.stacked.settled
  refine ⟨fun p hp x hx => (hsettled p hp x hx).imp_right (hinv.running x), fun view => ?_⟩
  obtain ⟨rows, hscan⟩ := hinv.scan_ok view
  refine ⟨rows, hscan, fun rowId row hmem => ?_⟩
  obtain ⟨header, hrow, hvisible⟩ := (mem_scanRows hscan rowId row).mp hmem
  refine ⟨header, hrow, or_iff_not_imp_left.mpr fun hown => ?_⟩
  by_contra hnone
  -- the inserter is then one whose versions the view does not see
  have houtside : Outside s.store view header.xmin := by
    refine ⟨hown, ?_⟩
    rcases hsettled _ hrow _ (.inl rfl) with ⟨seq, hseq⟩ | hmem
    · exact .inr (.inr ⟨seq, hseq, Nat.lt_of_not_le fun hle => hnone ⟨seq, hle, hseq⟩⟩)
    · exact .inl (hinv.status_unresolved hmem)
  rw [houtside.isVisible_of_xmin] at hvisible
  cases hvisible

end Runs

def numberHeap : HeapState Nat Unit Nat :=
  .empty ⟨[], [()], []⟩

def firstRow : RowId := ⟨2, 0, 1⟩

/-- A parked transaction, and one without page updates whose handle was dropped. -/
theorem Run.reads_committed_parked : ∃ s : HeapState Nat Unit Nat,
    s.data.rows ≠ [] ∧ s.parkedPrepared = [1] ∧ s.store.status 2 = .error (.unknownTransaction 2) ∧
      ∃ rows, s.data.scan s.store ⟨0, none, 1⟩ = .ok rows := by
  have hrun : Run (fun _ row => row) InOrder numberHeap _ :=
    .step (.step (.step (.step (.step (.step (.refl _)
      (.begin .readCommitted) trivial rfl)
      (.insertIn 1 0 firstRow 7) trivial rfl)
      (.prepare 1) trivial rfl)
      (.park 1) trivial rfl)
      (.begin .readCommitted) trivial rfl)
      (.drop 2) (fun _ _ hmem => absurd hmem (by decide)) rfl
  obtain ⟨rows, hscan, -⟩ := (hrun.reads_committed (opened_empty [()])).2 ⟨0, none, 1⟩
  exact ⟨_, cons_ne_nil _ _, rfl, rfl, rows, hscan⟩

/-- The commit record of the first transaction is written before that of the second, but the
append of its status fails and is retried after the second one committed: the view opened in
between does not see the row, then does. -/
theorem late_publication_changes_view :
    ∃ s s' : HeapState Nat Unit Nat, ∃ view : Snapshot,
      Run (fun _ row => row) (fun _ _ => True) numberHeap s ∧
        HeldRun (fun _ row => row) (fun _ _ => True) view s s' ∧
        s.data.scan s.store view = .ok [] ∧
        s'.data.scan s'.store view = .ok [(firstRow, 7)] ∧
        ¬ s.Seen view firstRow ∧ s'.Seen view firstRow := by
  refine ⟨_, _, ⟨2, none, 1⟩,
    .step (.step (.step (.step (.step (.step (.step (.step (.refl _)
      (.begin .readCommitted) trivial rfl)
      (.insertIn 1 0 firstRow 7) trivial rfl)
      (.appendCommit 1) trivial rfl)
      (.finishCommit 1 .truncated) trivial rfl)
      (.begin .readCommitted) trivial rfl)
      (.appendCommit 2) trivial rfl)
      (.finishCommit 2 .synced) trivial rfl)
      .readView trivial rfl,
    .step (.refl _ mem_cons_self)
      (.finishCommit 1 .synced) trivial (fun _ hx => hx.elim) rfl mem_cons_self,
    rfl, rfl, ?_, ⟨_, rfl, rfl⟩⟩
  rintro ⟨version, hfind, hvisible⟩
  cases hfind
  cases hvisible

/-- A view of a committed row, a deletion of the row by a later transaction, and a vacuum. -/
theorem view_stable_across_delete :
    ∃ s s' : HeapState Nat Unit Nat, ∃ view : Snapshot,
      Run (fun _ row => row) InOrder numberHeap s ∧
        HeldRun (fun _ row => row) InOrder view s s' ∧ s'.Seen view firstRow := by
  obtain ⟨s, s', hrun, hheld, hseen⟩ : ∃ s s' : HeapState Nat Unit Nat,
      Run (fun _ row => row) InOrder numberHeap s ∧
        HeldRun (fun _ row => row) InOrder ⟨1, none, 1⟩ s s' ∧ s.Seen ⟨1, none, 1⟩ firstRow := by
    refine ⟨_, _,
      .step (.step (.step (.step (.step (.refl _)
        (.begin .readCommitted) trivial rfl)
        (.insertIn 1 0 firstRow 7) trivial rfl)
        (.appendCommit 1) trivial rfl)
        (.finishCommit 1 .synced) ⟨fun _ => rfl, nofun, ?_⟩ rfl)
        .readView trivial rfl,
      .step (.step (.step (.step (.step (.refl _ mem_cons_self)
        (.begin .readCommitted) trivial (fun _ hx => hx.elim) rfl mem_cons_self)
        (.deleteIn 2 firstRow) ?_ (nofun) rfl mem_cons_self)
        (.appendCommit 2) trivial (fun _ hx => hx.elim) rfl mem_cons_self)
        (.finishCommit 2 .synced) ⟨fun _ => rfl, nofun, ?_⟩ (fun _ hx => hx.elim) rfl mem_cons_self)
        (.vacuum .committed) ⟨rfl, rfl⟩ (fun _ hx => hx.elim) rfl mem_cons_self,
      ⟨_, rfl, rfl⟩⟩
    · intro txn seq hx hphase
      cases hx
      cases hphase
      exact Nat.zero_lt_one
    · intro old y seq view s₁ hfind hxmax
      cases hfind
      cases hxmax
    · intro txn seq hx hphase
      cases hx
      cases hphase
      exact Nat.lt_succ_self 1
  exact ⟨s, s', _, hrun, hheld,
    ((HeldRun.view_stable (opened_empty [()]) hrun hheld).2.1 firstRow).mpr hseen⟩

end Netbadb.Mvcc
