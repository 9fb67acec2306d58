import Netbadb.Mvcc.Rows

/-!
Every call is a sequence of elementary moves, provided that commits are
published in log order by the oldest unresolved writer, that a transaction which
ends takes only its own entry from the deque, and that nobody deletes a version
whose deletion its view is too old to see.
-/

namespace Netbadb.Mvcc

open Outcome HeapState

variable {Row Column Key : Type}

section Checks

variable {s : HeapState Row Column Key} {x : TxnId} {txn : Txn} {old : Version Row} {rowId : RowId}
  {view : Snapshot}

lemma activeTxn_ok (h : s.activeTxn x = .ok txn) : s.txns x = some txn ∧ txn.phase = .active := by
  unfold activeTxn at h
  cases hx : s.txns x with
  | none => rw [hx] at h; cases h
  | some t =>
    rw [hx] at h
    by_cases hphase : t.phase = .active
    · simp only [hphase, if_true, Except.ok.injEq] at h
      exact ⟨by rw [h], h ▸ hphase⟩
    · simp [hphase] at h

/-- Choosing a boundary keeps the transaction's command and may pin a view. -/
lemma visibleBoundary_spec (txn : Txn) (hkept : ∀ visible, txn.repeatableReadView = some visible →
      visible ≤ s.store.maximumCommitSeq) :
    ∃ txn' added, (s.visibleBoundary x txn).2 =
        { s.setTxn x (some txn') with views := added ++ s.views } ∧
      txn'.phase = txn.phase ∧ txn'.commandId = txn.commandId ∧
      txn'.nextCommandId = txn.nextCommandId ∧
      (∀ visible, txn'.repeatableReadView = some visible →
        visible ≤ s.store.maximumCommitSeq) ∧
      (∀ v ∈ added, v.visibleCsn ≤ s.store.maximumCommitSeq ∧ v.ownTxn = some x) ∧
      (s.visibleBoundary x txn).1 ≤ s.store.maximumCommitSeq := by
  unfold visibleBoundary
  cases hlevel : txn.isolationLevel with
  | readCommitted =>
    exact ⟨txn, [], rfl, rfl, rfl, rfl, hkept, by simp, Nat.le_refl _⟩
  | repeatableRead =>
    cases hview : txn.repeatableReadView with
    | some visible =>
      exact ⟨txn, [], rfl, rfl, rfl, rfl, hkept, by simp, hkept visible hview⟩
    | none =>
      refine ⟨{ txn with
          isolationLevel := .repeatableRead
          repeatableReadView := some s.store.maximumCommitSeq },
        [_], rfl, rfl, rfl, rfl, ?_, ?_, Nat.le_refl _⟩
      · rintro visible hvisible
        cases hvisible
        exact Nat.le_refl _
      · simp

lemma readRowWithView_ok (hcall : s.readRowWithView rowId view = .ok old) :
    s.data.find rowId = some old ∧ isVisible s.store old.header view = .ok true := by
  unfold readRowWithView at hcall
  cases hfind : s.data.find rowId with
  | none => rw [hfind] at hcall; cases hcall
  | some version =>
    rw [hfind] at hcall
    simp only [bind_eq_ok] at hcall
    obtain ⟨visible, hvisible, hcall⟩ := hcall
    cases visible with
    | true =>
      simp only [if_true, pure_eq_ok] at hcall
      subst hcall
      exact ⟨rfl, hvisible⟩
    | false => simp at hcall

/-- A version that passes the checks of a write has not been deleted. -/
lemma Inv.live_of_checks (h : Inv s) (hx : s.txns x = some txn) (hactive : txn.phase = .active)
    (hwriter : s.writer = .active x) (hown : view.ownTxn = some x)
    (hcommand : txn.commandId = view.commandId) (hfind : s.data.find rowId = some old)
    (hvisible : isVisible s.store old.header view = .ok true)
    (hconflict : s.ensureNoPreparedWriteConflict x old.header.xmax = .ok ())
    (hsees : ∀ y seq, old.header.xmax = some y → s.store.status y = .ok (.committed seq) →
      seq ≤ view.visibleCsn) : old.header.xmax = none := by
  have hmem := HeapData.mem_of_find hfind
  cases hxmax : old.header.xmax with
  | none => rfl
  | some y =>
    by_cases hyx : y = x
    · -- its own deletion: an earlier command made it
      subst hyx
      have hcheck : ∀ c, old.header.cmax = some c → c ≤ txn.commandId :=
        (h.commands y txn hx hactive).2 _ hmem hxmax
      have hinserted : insertedVisible s.store old.header view = .ok true := by
        unfold isVisible at hvisible
        cases hi : insertedVisible s.store old.header view with
        | error e => rw [hi] at hvisible; cases hvisible
        | ok visible => cases visible <;> simp [hi] at hvisible ⊢
      cases hcmax : old.header.cmax with
      | none => simp [isVisible, hinserted, hxmax, hown, hcmax] at hvisible
      | some c =>
        simp only [isVisible, hinserted, hxmax, hown, hcmax, if_true, Except.ok.injEq,
          decide_eq_true_eq] at hvisible
        exact absurd (hcheck c hcmax) (Nat.not_le.mpr (hcommand ▸ hvisible))
    · have hother : view.ownTxn ≠ some y := by
        rw [hown]
        exact fun heq => hyx (Option.some.inj heq).symm
      rcases h.stacked.settled _ hmem y (.inr hxmax) with ⟨seq, hseq⟩ | hunresolved
      · -- a commit the view includes
        have hle := hsees y seq hxmax hseq
        unfold isVisible at hvisible
        cases hi : insertedVisible s.store old.header view with
        | error e => rw [hi] at hvisible; cases hvisible
        | ok visible =>
          cases visible with
          | false => rw [hi] at hvisible; cases hvisible
          | true =>
            simp only [hi, hxmax, hother, if_false, hseq, Except.ok.injEq,
              decide_eq_true_eq] at hvisible
            exact absurd hle (Nat.not_le.mpr hvisible)
      · -- a parked transaction
        have hparked : y ∈ s.parkedPrepared := by
          refine (h.placed y hunresolved).resolve_right ?_
          simpa [hwriter] using fun heq : x = y => hyx heq.symm
        simp [ensureNoPreparedWriteConflict, hxmax, hyx, hparked] at hconflict

lemma freshRowId_ok (h : s.freshRowId rowId = .ok ()) : rowId ∉ s.data.rows.map (·.1) := by
  intro hmem
  simp only [freshRowId, hmem, if_true] at h
  cases h

lemma Inv.record_cases (h : Inv s) (hx : s.txns x = some txn) (status : TxnStatus) (io : AppendIo) :
    s.store.record x status io = (s.store.insertStatus x status, .ok ()) ∨
      ∃ e, s.store.record x status io = (s.store, .error e) ∨
        s.store.record x status io = ({ s.store with poisoned := true }, .error e) := by
  obtain ⟨hdurable, -, -⟩ := h.known x txn hx
  unfold StatusStore.record
  by_cases hpoisoned : s.store.poisoned = true
  · exact .inr ⟨_, .inl (if_pos hpoisoned)⟩
  rw [if_neg hpoisoned, hdurable]
  cases io with
  | synced => exact .inl rfl
  | truncated => exact .inr ⟨_, .inl rfl⟩
  | left => exact .inr ⟨_, .inr rfl⟩

@[simp] lemma touch_data : (s.touch x).data = s.data := by
  unfold touch
  split <;> rfl

@[simp] lemma touch_store : (s.touch x).store = s.store := by
  unfold touch
  split <;> rfl

@[simp] lemma touch_txns : (s.touch x).txns = s.txns := by
  unfold touch
  split <;> rfl

end Checks

variable [DecidableEq Column] [DecidableEq Key]

inductive Moves (value : Column → Row → Key) (who : TxnId → Prop) :
    HeapState Row Column Key → HeapState Row Column Key → Prop
  | refl (s) : Moves value who s s
  | step {s s₁ s₂} (first : Move value who s s₁) (rest : Moves value who s₁ s₂) :
      Moves value who s s₂

/-- The call changes or undoes rows on behalf of the transaction. -/
def Op.WritesFor : Op Row Column → TxnId → Prop
  | .insertIn txnId _ _ _, x => txnId = x
  | .updateIn txnId _ _ _ _, x => txnId = x
  | .deleteIn txnId _, x => txnId = x
  | .rollback txnId _, x => txnId = x
  | _, _ => False

variable (s : HeapState Row Column Key)

/-- The transaction's view is no older than the commit that deleted the version, if any did. -/
def HeapState.SeesDeletion (x : TxnId) (rowId : RowId) : Prop :=
  ∀ old y seq view s₁, s.data.find rowId = some old → old.header.xmax = some y →
    s.store.status y = .ok (.committed seq) → s.currentReadView x = .ok (view, s₁) →
    seq ≤ view.visibleCsn

/-- The transaction has no page updates, or those of no other unresolved one are older. -/
def HeapState.Oldest (x : TxnId) : Prop :=
  x ∈ s.stack.map (·.1) → (s.stack.map (·.1)).getLast? = some x

/-- Commits are published in the order of their log positions and of their page updates. A
transaction that ends pops its own entry of the deque or none, and one with page updates is
dropped only where that asks for recovery. A deletion is not repeated from a view that cannot
see it. -/
def InOrder : Op Row Column → Prop
  | .finishCommit x _ =>
    s.Oldest x ∧ (∀ y, s.parkedPrepared.head? = some y → y = x) ∧
      ∀ txn seq, s.txns x = some txn → txn.phase = .commitPending seq →
        s.store.maximumCommitSeq < seq
  | .rollback x _ => x ∈ s.parkedPrepared → s.parkedPrepared.getLast? = some x
  | .drop x => ∀ txn, s.txns x = some txn → x ∈ s.stack.map (·.1) →
      s.dropRequiresRecovery x txn = true
  | .updateIn x rowId _ _ _ => s.SeesDeletion x rowId
  | .deleteIn x rowId => s.SeesDeletion x rowId
  | .vacuum _ => s.stack = [] ∧ s.parkedPrepared = []
  | _ => True

section Parts

variable {s s' : HeapState Row Column Key} {value : Column → Row → Key} {who : TxnId → Prop}
  {x : TxnId} {position : Nat} {io : AppendIo} {row : Row}

lemma Moves.one (h : Move value who s s') : Moves value who s s' :=
  .step h (.refl s')

lemma Moves.trans {s₁ : HeapState Row Column Key} (h : Moves value who s s₁)
    (h' : Moves value who s₁ s') : Moves value who s s' := by
  induction h with
  | refl => exact h'
  | step first rest ih => exact .step first (ih h')

lemma Inv.moves (h : Inv s) (hmoves : Moves value who s s') : Inv s' := by
  induction hmoves with
  | refl => exact h
  | step first rest ih => exact ih (h.move first)

lemma beginStatement_moves (h : Inv s) (hcall : s.beginStatement x = .ok s') :
    Moves value who s s' := by
  simp only [beginStatement, bind_eq_ok, pure_eq_ok] at hcall
  obtain ⟨txn, htxn, rfl⟩ := hcall
  obtain ⟨hx, hactive⟩ := activeTxn_ok htxn
  obtain ⟨txn', added, heq, hphase, hcommand, hnext, hkept, hadded, hvisible⟩ :=
    @visibleBoundary_spec _ _ _ s x (nextStatement txn) fun visible =>
      h.kept x txn visible hx
  rw [heq]
  refine .one (.statement s x txn txn' (_ :: added) hx hactive (hphase.trans hactive) ?_ ?_ hkept ?_)
  · rw [hcommand]
    exact (h.commands x txn hx hactive).1
  · intro _
    rw [hcommand, hnext]
    exact Nat.le_succ _
  · intro v hv
    rcases List.mem_cons.mp hv with rfl | hv
    · exact ⟨hvisible, rfl⟩
    · exact hadded v hv

lemma beginStatementAt_moves (h : Inv s) {visibleCsn : CommitSeq}
    (hcall : s.beginStatementAt x visibleCsn = .ok s') : Moves value who s s' := by
  simp only [beginStatementAt, bind_eq_ok, pure_eq_ok, check_eq_ok] at hcall
  obtain ⟨txn, htxn, hcurrent, rfl⟩ := hcall
  obtain ⟨hx, hactive⟩ := activeTxn_ok htxn
  refine .one (.statement s x txn (nextStatement txn) [_] hx hactive hactive
    (h.commands x txn hx hactive).1 (fun _ => Nat.le_succ _)
    (fun visible => h.kept x txn visible hx) ?_)
  intro v hv
  rw [List.mem_singleton] at hv
  subst hv
  exact ⟨Nat.not_lt.mp hcurrent, rfl⟩

lemma readViewAt_moves {visibleCsn : CommitSeq} (hcall : s.readViewAt visibleCsn = .ok s') :
    Moves value who s s' := by
  simp only [readViewAt, pure_eq_ok, check_eq_ok] at hcall
  obtain ⟨hcurrent, rfl⟩ := hcall
  exact .one (.readView s visibleCsn (Nat.not_lt.mp hcurrent))

structure ReadyToWrite (s s₁ : HeapState Row Column Key) (x : TxnId) (view : Snapshot) : Prop where
  own : view.ownTxn = some x
  running : ∃ txn, s₁.txns x = some txn ∧ txn.phase = .active ∧ txn.commandId = view.commandId
  data : s₁.data = s.data
  store : s₁.store = s.store
  writer : s₁.writer = s.writer
  stack : s₁.stack = s.stack

lemma currentReadView_moves (h : Inv s) {view : Snapshot} {s₁ : HeapState Row Column Key}
    (hcall : s.currentReadView x = .ok (view, s₁)) :
    Moves value who s s₁ ∧ ReadyToWrite s s₁ x view := by
  simp only [currentReadView, bind_eq_ok, pure_eq_ok, Prod.mk.injEq] at hcall
  obtain ⟨txn, htxn, rfl, rfl⟩ := hcall
  obtain ⟨hx, hactive⟩ := activeTxn_ok htxn
  obtain ⟨txn', added, heq, hphase, hcommand, hnext, hkept, hadded, -⟩ :=
    @visibleBoundary_spec _ _ _ s x txn fun visible => h.kept x txn visible hx
  rw [heq]
  refine ⟨.one (.statement s x txn txn' added hx hactive (hphase.trans hactive)
    (Nat.le_of_eq hcommand.symm) (fun hle => by rw [hcommand, hnext]; exact hle) hkept hadded), ?_⟩
  exact ⟨rfl, ⟨txn', by simp [setTxn], hphase.trans hactive, hcommand⟩, rfl, rfl, rfl,
    rfl⟩

lemma leaseWriter_moves (hcall : s.leaseWriter x = .ok s') :
    Moves value who s s' ∧ s' = { s with writer := .active x } := by
  unfold leaseWriter at hcall
  cases hwriter : s.writer with
  | idle =>
    rw [hwriter] at hcall
    cases hcall
    exact ⟨.one (.acquire s x hwriter), rfl⟩
  | active other =>
    rw [hwriter] at hcall
    by_cases hother : other = x
    · simp only [hother, if_true, pure_eq_ok] at hcall
      subst hcall
      rw [← hother, ← hwriter]
      exact ⟨.refl s, rfl⟩
    · simp [hother] at hcall
  | recoveryRequired =>
    rw [hwriter] at hcall
    cases hcall

lemma acquireWriter_moves (hcall : s.acquireWriter x = .ok s') :
    Moves value who s s' ∧ s' = { s with writer := .active x } := by
  simp only [acquireWriter, bind_eq_ok, check_eq_ok] at hcall
  obtain ⟨txn, htxn, -, hcall⟩ := hcall
  exact leaseWriter_moves hcall

lemma acquireParkedResolution_moves {abort : Bool}
    (hcall : s.acquireParkedResolution x abort = .ok s') :
    Moves value who s s' ∧ s' = { s with writer := .active x } := by
  unfold acquireParkedResolution at hcall
  split at hcall
  · cases hcall
  split at hcall
  · cases hcall
  split at hcall
  · exact leaseWriter_moves hcall
  · cases hcall

/-- Before its first page update the lease holder is put on the stack. -/
lemma touch_moves {txn : Txn} (hx : s.txns x = some txn) (hwriter : s.writer = .active x) :
    Moves value who s (s.touch x) ∧ x ∈ (s.touch x).stack.map (·.1) := by
  unfold touch
  split
  · next hmem => exact ⟨.refl s, hmem⟩
  · next hnew => exact ⟨.one (.touch s x txn hx hwriter hnew), by simp⟩

/-- The checks of an update or a deletion, as a prefix of moves. -/
lemma write_checks (h : Inv s) {rowId : RowId} {view : Snapshot} {old : Version Row}
    {s₁ s₂ : HeapState Row Column Key} (hsees : s.SeesDeletion x rowId)
    (hview : s.currentReadView x = .ok (view, s₁)) (hread : s₁.readRowWithView rowId view = .ok old)
    (hacquire : s₁.acquireWriter x = .ok s₂)
    (hconflict : s₂.ensureNoPreparedWriteConflict x old.header.xmax = .ok ()) :
    Moves value who s (s₂.touch x) ∧ x ∈ (s₂.touch x).stack.map (·.1) ∧
      s₂.data.find rowId = some old ∧ old.header.xmax = none ∧
      isVisible s₂.store old.header view = .ok true ∧
      ∃ txn, s₂.txns x = some txn ∧ txn.phase = .active ∧ txn.commandId = view.commandId ∧
        view = ⟨view.visibleCsn, some x, txn.commandId⟩ := by
  obtain ⟨hmoves, hready⟩ := @currentReadView_moves _ _ _ _ _ s value who x h view s₁ hview
  obtain ⟨hfind, hvisible⟩ := readRowWithView_ok hread
  obtain ⟨hmoves', rfl⟩ := @acquireWriter_moves _ _ _ _ _ s₁ s₂ value who x hacquire
  obtain ⟨txn, hx, hactive, hcommand⟩ := hready.running
  have hmoves := hmoves.trans hmoves'
  have hlive := (h.moves hmoves).live_of_checks hx hactive rfl hready.own hcommand hfind hvisible
    hconflict fun y seq hxmax hseq => by
      refine hsees old y seq view s₁ ?_ hxmax ?_ hview
      · rw [← hready.data]
        exact hfind
      · rw [← hready.store]
        exact hseq
  obtain ⟨htouch, hmem⟩ :=
    @touch_moves _ _ _ _ _ { s₁ with writer := .active x } value who x txn hx rfl
  refine ⟨hmoves.trans htouch, hmem, hfind, hlive, hvisible, txn, hx, hactive, hcommand, ?_⟩
  obtain ⟨visible, own, command⟩ := view
  have hown := hready.own
  simp only at hown hcommand
  rw [hown, hcommand]

lemma insertIn_moves {rowId : RowId} (hwho : who x)
    (hcall : s.insertIn value x position rowId row = .ok s') : Moves value who s s' := by
  simp only [insertIn, bind_eq_ok, pure_eq_ok] at hcall
  obtain ⟨txn, htxn, s₁, hacquire, u, hfresh, rfl⟩ := hcall
  obtain ⟨hx, hactive⟩ := activeTxn_ok htxn
  obtain ⟨hmoves, rfl⟩ := @acquireWriter_moves _ _ _ _ _ s s₁ value who x hacquire
  obtain ⟨htouch, hmem⟩ :=
    @touch_moves _ _ _ _ _ { s with writer := .active x } value who x txn hx rfl
  exact (hmoves.trans htouch).trans (.one (.insert _ x txn position rowId row hwho
    (by rwa [touch_txns]) hactive hmem (by rw [touch_data]; exact freshRowId_ok hfresh)))

lemma updateIn_moves (h : Inv s) {rowId newRowId : RowId} (hwho : who x)
    (hsees : s.SeesDeletion x rowId)
    (hcall : s.updateIn value x rowId position newRowId row = .ok s') : Moves value who s s' := by
  simp only [updateIn, bind_eq_ok, pure_eq_ok] at hcall
  obtain ⟨⟨view, s₁⟩, hview, old, hread, s₂, hacquire, u₁, hentries, u₂, hconflict, u₃, hfresh,
    rfl⟩ := hcall
  obtain ⟨hmoves, hmem, hfind, hlive, hvisible, txn, hx, hactive, hcommand, hview'⟩ :=
    @write_checks _ _ _ _ _ s value who x h rowId view old s₁ s₂ hsees hview hread hacquire
      hconflict
  rw [hview'] at hvisible
  have hmove := @Move.update _ _ _ _ _ value who (s₂.touch x) x txn view.visibleCsn rowId old
    position newRowId row hwho (by rwa [touch_txns]) hactive hmem (by rwa [touch_data])
    (by rwa [touch_store]) hlive (by rw [touch_data]; exact freshRowId_ok hfresh)
  rw [hcommand] at hmove
  exact hmoves.trans (.one hmove)

lemma deleteIn_moves (h : Inv s) {rowId : RowId} (hwho : who x) (hsees : s.SeesDeletion x rowId)
    (hcall : s.deleteIn value x rowId = .ok s') : Moves value who s s' := by
  simp only [deleteIn, bind_eq_ok, pure_eq_ok] at hcall
  obtain ⟨⟨view, s₁⟩, hview, old, hread, s₂, hacquire, u₁, hentries, u₂, hconflict, rfl⟩ := hcall
  obtain ⟨hmoves, hmem, hfind, hlive, hvisible, txn, hx, hactive, hcommand, hview'⟩ :=
    @write_checks _ _ _ _ _ s value who x h rowId view old s₁ s₂ hsees hview hread hacquire
      hconflict
  rw [hview'] at hvisible
  have hmove := @Move.delete _ _ _ _ _ value who (s₂.touch x) x txn view.visibleCsn rowId old
    hwho (by rwa [touch_txns]) hactive hmem (by rwa [touch_data]) (by rwa [touch_store]) hlive
  rw [hcommand] at hmove
  exact hmoves.trans (.one hmove)

lemma buildIndexIn_moves (h : Inv s) {column : Column}
    (hcall : s.buildIndexIn value x column = .ok s') : Moves value who s s' := by
  simp only [buildIndexIn, bind_eq_ok, pure_eq_ok, check_eq_ok] at hcall
  obtain ⟨s₁, hacquire, -, ⟨view, s₂⟩, hview, rows, hrows, rfl⟩ := hcall
  obtain ⟨hmoves, rfl⟩ := @acquireWriter_moves _ _ _ _ _ s s₁ value who x hacquire
  obtain ⟨hmoves', hready⟩ :=
    @currentReadView_moves _ _ _ _ _ _ value who x (h.moves hmoves) view s₂ hview
  obtain ⟨txn, hx, -⟩ := hready.running
  obtain ⟨htouch, -⟩ := @touch_moves _ _ _ _ _ s₂ value who x txn hx hready.writer
  exact ((hmoves.trans hmoves').trans htouch).trans (.one (.buildIndex _ column rows))

lemma prepare_moves (hcall : s.prepare x = .ok s') : Moves value who s s' := by
  simp only [prepare, bind_eq_ok, pure_eq_ok] at hcall
  obtain ⟨txn, htxn, rfl⟩ := hcall
  obtain ⟨hx, hactive⟩ := activeTxn_ok htxn
  exact .one (.prepare s x txn hx hactive)

lemma park_moves (hcall : s.park x = .ok s') : Moves value who s s' := by
  unfold park at hcall
  cases hx : s.txns x with
  | none => rw [hx] at hcall; cases hcall
  | some txn =>
    rw [hx] at hcall
    by_cases hphase : txn.phase = .prepared
    · simp only [hphase, if_true, pure_eq_ok] at hcall
      subst hcall
      exact .one (.park s x txn hx)
    · simp [hphase] at hcall

lemma appendCommit_moves (hcall : s.appendCommit x = .ok s') : Moves value who s s' := by
  unfold appendCommit at hcall
  cases hx : s.txns x with
  | none => rw [hx] at hcall; cases hcall
  | some txn =>
    rw [hx] at hcall
    by_cases hphase : txn.phase = .active ∨ txn.phase = .prepared ∨ txn.phase = .parked
    · simp only [hphase, if_true, pure_eq_ok] at hcall
      subst hcall
      exact .one (.appendCommit s x txn hx)
    · simp [hphase] at hcall

lemma finishCommit_moves (h : Inv s) (holdest : s.Oldest x)
    (hpops : ∀ y, s.parkedPrepared.head? = some y → y = x) (hlater : ∀ txn seq, s.txns x = some txn → txn.phase = .commitPending seq →
      s.store.maximumCommitSeq < seq) (hcall : s.finishCommit x io = .ok s') :
    Moves value who s s' := by
  unfold finishCommit at hcall
  cases hx : s.txns x with
  | none => rw [hx] at hcall; cases hcall
  | some txn =>
    rw [hx] at hcall
    cases hphase : txn.phase with
    | commitPending seq =>
      simp only [hphase] at hcall
      rcases h.record_cases hx (.committed seq) io with hrec | ⟨e, hrec | hrec⟩
      · rw [hrec] at hcall
        cases hcall
        exact .one (.commit s x txn seq hx (hlater txn seq hx hphase)
          (h.pending x txn seq hx hphase) holdest hpops)
      · rw [hrec] at hcall
        cases hcall
        exact .refl s
      · rw [hrec] at hcall
        cases hcall
        exact .one (.poison s)
    | active | prepared | parked | rollbackPending | dropped => simp [hphase] at hcall

lemma rollbackInternal_moves (h : Inv s) {txn : Txn} (hx : s.txns x = some txn) (hwho : who x)
    (hpops : x ∈ s.parkedPrepared → s.parkedPrepared.getLast? = some x)
    (hcall : s.rollbackInternal x txn io = .ok s') : Moves value who s s' := by
  simp only [rollbackInternal, bind_eq_ok] at hcall
  obtain ⟨data, hundo, hcall⟩ := hcall
  rcases h.record_cases hx .aborted io with hrec | ⟨e, hrec | hrec⟩
  · rw [hrec] at hcall
    cases hcall
    exact .one (.abort s x txn data hwho hx hundo hpops)
  · rw [hrec] at hcall
    cases hcall
    exact .one (.undo s x txn data hwho hx hundo)
  · rw [hrec] at hcall
    cases hcall
    exact .step (.undo s x txn data hwho hx hundo) (.one (.poison _))

lemma rollback_moves (h : Inv s) (hwho : who x)
    (hpops : x ∈ s.parkedPrepared → s.parkedPrepared.getLast? = some x)
    (hcall : s.rollback x io = .ok s') : Moves value who s s' := by
  unfold rollback at hcall
  cases hx : s.txns x with
  | none => rw [hx] at hcall; cases hcall
  | some txn =>
    rw [hx] at hcall
    cases hphase : txn.phase with
    | commitPending seq | dropped => simp [hphase] at hcall
    | active | prepared | rollbackPending =>
      exact rollbackInternal_moves h hx hwho hpops (by simpa [hphase] using hcall)
    | parked =>
      simp only [hphase, bind_eq_ok] at hcall
      obtain ⟨s₁, hacquire, hcall⟩ := hcall
      obtain ⟨hmoves, rfl⟩ :=
        @acquireParkedResolution_moves _ _ _ _ _ s s₁ value who x true hacquire
      exact hmoves.trans (rollbackInternal_moves (h.moves hmoves) hx hwho hpops hcall)

lemma drop_moves (hok : ∀ txn, s.txns x = some txn → x ∈ s.stack.map (·.1) →
      s.dropRequiresRecovery x txn = true) (hcall : s.drop x = .ok s') : Moves value who s s' := by
  unfold drop at hcall
  cases hx : s.txns x with
  | none => rw [hx] at hcall; cases hcall
  | some txn =>
    simp only [hx] at hcall
    split at hcall
    · cases hcall
    split at hcall
    · cases hcall
      exact .one (.dropped s x txn hx)
    · next hsafe =>
      cases hcall
      refine .one (.forgotten s x txn hx (fun hmem => hsafe (hok txn hx hmem)) _ ?_)
      unfold releaseWriter
      split
      · split
        · next hwriter => exact .inr ⟨hwriter, rfl⟩
        · exact .inl rfl
      · exact .inl rfl

lemma vacuum_moves {ending : VacuumEnd} (hstack : s.stack = []) (hparked : s.parkedPrepared = [])
    (hcall : s.vacuum value ending = .ok s') : Moves value who s s' := by
  simp only [vacuum, bind_eq_ok] at hcall
  obtain ⟨dead, hdead, hcall⟩ := hcall
  by_cases hempty : dead.isEmpty = true
  · simp only [hempty, if_true, pure_eq_ok] at hcall
    subst hcall
    exact .refl s
  simp only [hempty, Bool.false_eq_true, if_false, check_eq_ok] at hcall
  obtain ⟨-, hcall⟩ := hcall
  cases hwriter : s.writer with
  | active other | recoveryRequired => rw [hwriter] at hcall; cases hcall
  | idle =>
    rw [hwriter] at hcall
    cases ending with
    | committed =>
      cases hcall
      rw [← hwriter, show s.parkedPrepared.tail = s.parkedPrepared by rw [hparked]; rfl]
      exact .step (.reclaim s dead (fun _ => true) (fun _ => true) hstack hdead)
        (.one (.vacuumCommit { s with data := s.data.reclaim value dead _ _ }))
    | undone =>
      cases hcall
      rw [← hwriter]
      exact .one (.vacuumUndone s)
    | stuck rowGone entryGone =>
      cases hcall
      exact .step (.reclaim s dead rowGone entryGone hstack hdead) (.one (.vacuumStuck _ hwriter))

end Parts

/-- A call made in order is a sequence of moves, unless it drops a view. -/
lemma call_moves {s s' : HeapState Row Column Key} {value : Column → Row → Key}
    {op : Op Row Column} (h : Inv s) (hok : InOrder s op) (hcall : s.call value op = .ok s') :
    (∃ snapshot, op = .dropView snapshot) ∨ Moves value op.WritesFor s s' := by
  cases op with
  | begin level =>
    cases hcall
    exact .inr (.one (.begin s level))
  | beginStatement x => exact .inr (beginStatement_moves h hcall)
  | beginStatementAt x visibleCsn => exact .inr (beginStatementAt_moves h hcall)
  | readView => exact .inr (readViewAt_moves hcall)
  | readViewAt visibleCsn => exact .inr (readViewAt_moves hcall)
  | currentReadView x =>
    simp only [call, bind_eq_ok, pure_eq_ok] at hcall
    obtain ⟨⟨view, s₁⟩, hview, rfl⟩ := hcall
    exact .inr (currentReadView_moves h hview).1
  | dropView snapshot =>
    exact .inl ⟨snapshot, rfl⟩
  | acquireWriter x => exact .inr ((acquireWriter_moves hcall).1)
  | insertIn x position rowId row => exact .inr (insertIn_moves rfl hcall)
  | updateIn x rowId position newRowId row => exact .inr (updateIn_moves h rfl hok hcall)
  | deleteIn x rowId => exact .inr (deleteIn_moves h rfl hok hcall)
  | buildIndexIn x column => exact .inr (buildIndexIn_moves h hcall)
  | prepare x => exact .inr (prepare_moves hcall)
  | park x => exact .inr (park_moves hcall)
  | acquireParkedResolution x abort => exact .inr (acquireParkedResolution_moves hcall).1
  | appendCommit x => exact .inr (appendCommit_moves hcall)
  | finishCommit x io => exact .inr (finishCommit_moves h hok.1 hok.2.1 hok.2.2 hcall)
  | rollback x io => exact .inr (rollback_moves h rfl hok hcall)
  | drop x => exact .inr (drop_moves hok hcall)
  | vacuum ending => exact .inr (vacuum_moves hok.1 hok.2 hcall)

end Netbadb.Mvcc
