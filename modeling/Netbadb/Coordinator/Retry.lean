import Netbadb.Coordinator.Rollback
import Netbadb.Heap.Parking

/-!
A rollback that stopped can be called again.

Each participant is in a state from which the rollback can go on, and an attempt
that fails leaves it in one. There are two exceptions. A prepared participant of an
LSM store whose Abort record did not become durable is asked for a plain rollback
the next time, which its engine refuses for ever. A heap that stopped while undoing
pages may be unable to undo them again.
-/

namespace Netbadb.Coordinator

open Heap (HeapState TxnId DatabaseTxnId)
open List StorageTransaction Option Lsm.Engine.LsmWal StorageParticipant
open Lsm.Engine (LsmShared)

variable {Key Row : Type}

lemma notMem_dropLast {α : Type} {l : List α} {x : α} (hnodup : l.Nodup)
    (hlast : l.getLast? = some x) : x ∉ l.dropLast := by
  rw [← dropLast_append_getLast? x hlast, nodup_append] at hnodup
  exact fun hmem => hnodup.2.2 x hmem x mem_cons_self rfl

/-- A heap on which a transaction can be resolved: its status store is healthy,
and the transaction is parked at the back of the deque or not at all. -/
structure HeapReady (h : HeapState) (x : TxnId) : Prop where
  healthy : h.statusPoisoned = false
  nodup : h.parkedPrepared.Nodup
  last : x ∈ h.parkedPrepared → h.parkedPrepared.getLast? = some x

/-- Neither the writer lease nor an entry of the deque is left. -/
def HeapReleased (h : HeapState) (x : TxnId) : Prop :=
  h.writer ≠ .active x ∧ x ∉ h.parkedPrepared

def HeapDone (h : HeapState) (x : TxnId) : Prop :=
  (h.transactions x).map (·.state) = some .rolledBack ∧ HeapReleased h x

/-- A transaction of a heap that is not yet rolled back and can be. -/
def HeapPhase (d : DatabaseTxnId) (h : HeapState) (x : TxnId) : Prop :=
  HeapReady h x ∧ ∃ t, h.transactions x = some t ∧ t.undoStuck = false ∧
    match t.state with
    | .active | .rollbackRequired | .rollbackPending => True
    | .preparePending | .prepared => t.preparedDatabaseTxnId = some d
    | .parkedPreparePending | .parkedPrepared => t.preparedDatabaseTxnId = some d ∧
        x ∈ h.parkedPrepared ∧ (h.writer = .idle ∨ h.writer = .active x)
    | _ => False

/-- What a call leaves: a transaction that can be rolled back by another one,
or one that is rolled back. -/
structure HeapStep (d : DatabaseTxnId) (io : Heap.Io) (x : TxnId) (out : Heap.Call) : Prop where
  left : (out.1 ≠ .ok () ∧ HeapPhase d out.2 x) ∨ HeapDone out.2 x
  good : io = .good → out.1 = .ok ()

section Heaps

variable {h : HeapState} {x : TxnId} {t : Heap.Transaction} {io : Heap.Io} {d : DatabaseTxnId}

lemma HeapReady.set (hready : HeapReady h x) (t : Heap.Transaction) : HeapReady (h.set x t) x :=
  ⟨hready.healthy, hready.nodup, hready.last⟩

lemma released_releaseWriter (h : HeapState) (x : TxnId) :
    (h.releaseWriter x).writer ≠ .active x := by
  unfold HeapState.releaseWriter
  split
  · nofun
  · assumption

lemma finishRollback_done (hready : HeapReady h x) (t : Heap.Transaction) :
    (h.finishRollback x t).1 = .ok () ∧ HeapDone (h.finishRollback x t).2 x := by
  have hparked : ((h.set x { t with state := .rolledBack }).releaseWriter x).parkedPrepared =
      h.parkedPrepared := HeapState.releaseWriter_parkedPrepared
  have hwriter := released_releaseWriter (h.set x { t with state := .rolledBack }) x
  have hstate : (((h.set x { t with state := .rolledBack }).releaseWriter x).transactions x).map
      (·.state) = some .rolledBack := by
    simp [HeapState.releaseWriter_sameHandles.transactions, HeapState.set]
  unfold HeapState.finishRollback
  dsimp only
  generalize (h.set x { t with state := .rolledBack }).releaseWriter x = h' at *
  by_cases hmem : x ∈ h.parkedPrepared
  · have hlast := hready.last hmem
    have hout := notMem_dropLast hready.nodup hlast
    rw [if_pos (hparked ▸ hmem)]
    simp only [HeapState.removeParkedResolution, if_true, hparked, hlast, ne_eq, not_true,
      if_false, HeapState.unregister]
    split
    · exact ⟨trivial, by simp [HeapState.set], hwriter, hout⟩
    · exact ⟨trivial, hstate, hwriter, hout⟩
  · rw [if_neg (hparked ▸ hmem)]
    unfold HeapState.unregister
    split
    · exact ⟨rfl, by simp [HeapState.set], hwriter, hparked ▸ hmem⟩
    · exact ⟨rfl, hstate, hwriter, hparked ▸ hmem⟩

lemma HeapPhase.failed (h₀ : HeapPhase d h x) {e : Heap.TransactionError} (hio : io ≠ .good) :
    HeapStep d io x (.error e, h) :=
  ⟨.inl ⟨nofun, h₀⟩, fun hgood => absurd hgood hio⟩

lemma HeapReady.pending (hready : HeapReady h x) (ht : h.transactions x = some t)
    (hundo : t.undoStuck = false) (hstate : t.state = .rollbackPending) : HeapPhase d h x :=
  ⟨hready, t, ht, hundo, by rw [hstate]; trivial⟩

/-- The failures on a heap that a rollback can be repeated after. -/
def BenignIo (io : Heap.Io) : Prop :=
  (io.status = true ∨ io.statusCleanup = true) ∧ io.undo ≠ .stuck

section

variable (hio : BenignIo io)
include hio

lemma HeapReady.publishAborted (hready : HeapReady h x) (ht : h.transactions x = some t)
    (hundo : t.undoStuck = false) (hstate : t.state = .rollbackPending) :
    HeapStep d io x (h.publishAborted x t io) := by
  have hphase : HeapPhase d h x := hready.pending ht hundo hstate
  obtain ⟨hok, hdone⟩ := finishRollback_done hready t
  unfold HeapState.publishAborted
  split
  · next hflush => exact hphase.failed fun hgood => hflush (by rw [hgood]; rfl)
  split
  · rename_i hstatus
    have hkept : h.statusFailed io = h := if_pos (hio.1.resolve_left hstatus)
    exact hkept.symm ▸ hphase.failed fun hgood => hstatus (by rw [hgood]; rfl)
  split
  · next hrun => simp [hrun] at hok
  · rename_i hrun
    rw [hrun] at hdone
    exact ⟨.inr hdone, fun hgood => by simp [hgood, Heap.Io.good]⟩

lemma HeapReady.completeRollback (hready : HeapReady h x) (ht : h.transactions x = some t)
    (hundo : t.undoStuck = false) (hstate : t.state = .rollbackPending) :
    HeapStep d io x (h.completeRollback x t io) := by
  have hphase : HeapPhase d h x := hready.pending ht hundo hstate
  unfold HeapState.completeRollback
  rw [hundo, if_neg hio.2]
  split
  · exact hready.publishAborted hio ht hundo hstate
  split
  · next hflush => exact hphase.failed fun hgood => hflush (by rw [hgood]; rfl)
  split
  · next hfail => exact hphase.failed fun hgood => by simp [hgood, Heap.Io.good] at hfail
  split
  · next hfail => exact hphase.failed fun hgood => hfail (by rw [hgood]; rfl)
  · exact (hready.set _).publishAborted hio (Function.update_self ..) rfl hstate

lemma HeapPhase.rollbackAppended (h₀ : HeapPhase d h x) (hundo : t.undoStuck = false) :
    HeapStep d io x (h.rollbackAppended x t io) := by
  unfold HeapState.rollbackAppended
  split
  · next hfail => exact h₀.failed fun hgood => hfail (by rw [hgood]; rfl)
  · exact (h₀.1.set _).completeRollback hio (Function.update_self ..) hundo rfl

end

/-- The transaction at the back of the deque takes the free writer lease. -/
lemma acquireParkedResolution_back (hlast : h.parkedPrepared.getLast? = some x)
    (hwriter : h.writer = .idle ∨ h.writer = .active x) (t : Heap.Transaction) :
    h.acquireParkedResolution x t true = (.ok (), { h with writer := .active x }) := by
  unfold HeapState.acquireParkedResolution HeapState.leaseWriter
  simp only [if_true, hlast, ne_eq, not_true, if_false]
  rcases hwriter with hwriter | hwriter
  · rw [hwriter]
  · simp only [hwriter, if_true]
    rw [← hwriter]

lemma HeapPhase.step (h₀ : HeapPhase d h x) (ht : h.transactions x = some t)
    (hio : BenignIo io) :
    (t.state ∈ [.preparePending, .prepared, .parkedPreparePending, .parkedPrepared] ∧
        HeapStep d io x (h.rollbackPrepared x t d io)) ∨
      (t.state ∈ [.active, .rollbackRequired, .rollbackPending] ∧
        HeapStep d io x (h.rollback x t io)) := by
  obtain ⟨hready, t', ht', hundo, hphase⟩ := id h₀
  obtain rfl : t' = t := some.inj (ht'.symm.trans ht)
  have happended := h₀.rollbackAppended hio hundo
  unfold HeapState.rollbackPrepared HeapState.rollback HeapState.validatePreparedDatabaseTxn
    HeapState.rollbackInternal
  simp only [hready.healthy, Bool.false_eq_true, if_false]
  cases hstate : t'.state <;> simp only [hstate] at hphase
  case active | rollbackRequired => exact .inr ⟨by simp, happended⟩
  case rollbackPending => exact .inr ⟨by simp, hready.completeRollback hio ht hundo hstate⟩
  case preparePending | prepared => exact .inl ⟨by simp, by simpa [hphase] using happended⟩
  case parkedPreparePending | parkedPrepared =>
    obtain ⟨hd, hmem, hwriter⟩ := hphase
    have hleased : HeapPhase d { h with writer := .active x } x :=
      ⟨⟨hready.healthy, hready.nodup, hready.last⟩, t', ht, hundo, by
        rw [hstate]; exact ⟨hd, hmem, .inr rfl⟩⟩
    simp only [hd, ne_eq, not_true, if_false, if_true,
      acquireParkedResolution_back (hready.last hmem) hwriter]
    exact .inl ⟨by simp, hleased.rollbackAppended hio hundo⟩

end Heaps

/-- The transaction is parked at the back of the deque or not at all, and the
writer lease it has is known to be its own. -/
structure LsmReady (s : LsmShared Key Row) (id : Nat) (t : Lsm.Engine.Transaction Key Row) :
    Prop where
  handle : s.handle id = some t
  nodup : s.parkedPrepared.Nodup
  last : id ∈ s.parkedPrepared → s.parkedPrepared.getLast? = some id
  owned : s.writer = some id → t.ownsWriter = true

def LsmReleased (s : LsmShared Key Row) (id : Nat) : Prop :=
  s.writer ≠ some id ∧ id ∉ s.parkedPrepared

def LsmDone (s : LsmShared Key Row) (id : Nat) : Prop :=
  (s.handle id).map (·.state) = some .rolledBack ∧ LsmReleased s id

section Stores

variable {s : LsmShared Key Row} {id : Nat} {t : Lsm.Engine.Transaction Key Row}
  {io : Lsm.Engine.AppendIo} {sync : Bool} {d : DatabaseTxnId}

lemma finishTerminal_done (hdropped : t.dropped = false) (hnodup : s.parkedPrepared.Nodup)
    (hlast : id ∈ s.parkedPrepared → s.parkedPrepared.getLast? = some id)
    (howned : s.writer = some id → t.ownsWriter = true) :
    LsmDone (s.finishTerminal id t .rolledBack) id := by
  refine ⟨?_, ?_, ?_⟩
  · simp [LsmShared.finishTerminal, LsmShared.handle, LsmShared.put, hdropped]
  · simp only [LsmShared.finishTerminal]
    split
    · nofun
    · next hfree => exact fun hwriter => hfree ⟨howned hwriter, hwriter⟩
  · simp only [LsmShared.finishTerminal, reduceCtorEq, false_and, if_false, true_and]
    split
    · next hback => exact notMem_dropLast hnodup hback
    · next hback => exact fun hmem => hback (hlast hmem)

lemma LsmReady.dropped (h : LsmReady s id t) : t.dropped = false := by
  have := h.handle
  rw [LsmShared.handle, filter_eq_some_iff] at this
  simpa using this.2

lemma rollback_done (h : LsmReady s id t) (hactive : t.state = .active) :
    LsmDone (s.rollback id) id := by
  rw [LsmShared.rollback, h.handle]
  simp only [hactive, if_true]
  exact finishTerminal_done h.dropped h.nodup h.last h.owned

/-- The states of a participant that has a Prepare record or is about to. -/
def prepareStates : List Lsm.Engine.TransactionState :=
  [.preparePending, .prepared, .parkedPreparePending, .parkedPrepared]

lemma append_written (s : LsmShared Key Row) (hhealthy : s.files.wal.poisoned = false)
    (t' : Lsm.Engine.Transaction Key Row) :
    s.append id (.abort id) .written t' =
      ({ s.put id t' with files := { s.files with
          wal := { s.files.wal with records := s.files.wal.records ++ [.abort id] } } }, true) := by
  simp [LsmShared.append, append, hhealthy]

/-- A prepared participant is rolled back where its Abort record becomes durable. -/
lemma rollbackPrepared_done (h : LsmReady s id t) (hstate : t.state ∈ prepareStates)
    (hready : s.ready = true) (hd : t.preparedDatabaseTxnId = some d)
    (hparked : t.state = .parkedPreparePending ∨ t.state = .parkedPrepared →
      s.acquireParkedResolution id true = true) :
    LsmDone (s.rollbackPrepared id d .written true) id := by
  have hhealthy : s.files.wal.poisoned = false := by
    simp only [LsmShared.ready, Bool.and_eq_true, Bool.not_eq_true'] at hready
    exact hready.2
  rw [LsmShared.rollbackPrepared, h.handle]
  simp only [hready, hd, and_self, if_true]
  unfold LsmShared.logAbort
  simp only [prepareStates, mem_cons, not_mem_nil, or_false] at hstate
  -- In each of the four states the record is appended and the transaction finished.
  rcases hstate with hstate | hstate | hstate | hstate
  iterate 2
    · simp only [hstate, append_written s hhealthy, LsmShared.sync, sync,
        LsmShared.put, hhealthy, Bool.false_eq_true, if_false, if_true]
      exact finishTerminal_done h.dropped h.nodup h.last h.owned
  all_goals
    simp only [hstate, hparked (by simp [hstate]), if_true,
      append_written { s with writer := some id } hhealthy, LsmShared.sync,
      sync, LsmShared.put, hhealthy, Bool.false_eq_true, if_false]
    exact finishTerminal_done h.dropped h.nodup h.last fun _ => rfl

end Stores

/-- A transaction of an LSM store that is not yet rolled back and can be. -/
def LsmPhase (d : DatabaseTxnId) (s : LsmShared Key Row) (id : Nat) : Prop :=
  ∃ t, LsmReady s id t ∧ (t.state = .active ∨
    (t.state ∈ prepareStates ∧ s.ready = true ∧ t.preparedDatabaseTxnId = some d ∧
      (t.state = .parkedPreparePending ∨ t.state = .parkedPrepared →
        s.acquireParkedResolution id true = true)))

namespace StorageParticipant

variable (d : DatabaseTxnId) (p : StorageParticipant Key Row)

def Ready : Prop :=
  match p.context with
  | .heap h x => HeapPhase d h x
  | .lsm s id => LsmPhase d s id

/-- Rolled back, or a read that has committed; no writer lease and no parked
entry is left. -/
def Done (p : StorageParticipant Key Row) : Prop :=
  (p.context.state = some .rolledBack ∨ p.mode = .read ∧ p.context.state = some .committed) ∧
    match p.context with
    | .heap h x => HeapReleased h x
    | .lsm s id => LsmReleased s id

def Retryable : Prop := p.Ready d ∨ p.Done

/-- The failures a rollback can be repeated after. -/
def Benign (io : CallIo) (p : StorageParticipant Key Row) : Prop :=
  match p.context with
  | .heap _ _ => BenignIo io.heap
  | .lsm s id => ∀ t, s.handle id = some t → t.state ∈ prepareStates →
      io.first = .written ∧ io.sync = true

structure Stepped (d : DatabaseTxnId) (io : CallIo) (p : StorageParticipant Key Row)
    (out : Except CoordinatorError Unit × StorageParticipant Key Row) : Prop where
  mode : out.2.mode = p.mode
  left : (out.1 ≠ .ok () ∧ out.2.Ready d) ∨ out.2.Done
  good : io = .good → out.1 = .ok ()

variable {p : StorageParticipant Key Row} {d : DatabaseTxnId} {io : CallIo}

lemma mapError_eq_ok {ε ε' α : Type} {f : ε → ε'} {r : Except ε α} {a : α} :
    r.mapError f = .ok a ↔ r = .ok a := by
  cases r <;> simp [Except.mapError]

lemma stepped_heap (p : StorageParticipant Key Row) (io : CallIo) {h : HeapState} {x : TxnId}
    {t : Heap.Transaction} (call : Heap.Transaction → Heap.Call) (ht : h.transactions x = some t)
    (hstep : HeapStep d io.heap x (call t)) : Stepped d io p (p.update (onHeap h x call)) := by
  simp only [onHeap, ht, update]
  refine ⟨rfl, ?_, fun hgood => ?_⟩
  · rcases hstep.left with ⟨hfail, hphase⟩ | ⟨hdone, hfree⟩
    · exact .inl ⟨by simpa only [ne_eq, mapError_eq_ok] using hfail, hphase⟩
    · exact .inr ⟨.inl hdone, hfree⟩
  · simpa only [mapError_eq_ok] using hstep.good (by rw [hgood]; rfl)

lemma stepped_lsm (p : StorageParticipant Key Row) (io : CallIo) {s : LsmShared Key Row}
    {id : Nat} (hdone : LsmDone s id) : Stepped d io p (p.update (onLsm s id .rolledBack)) := by
  obtain ⟨hstate, hfree⟩ := hdone
  simp only [onLsm, hstate, if_true, update]
  obtain ⟨t, ht, hstate⟩ := map_eq_some_iff.mp hstate
  exact ⟨rfl, .inr ⟨.inl (by simp [state, ht, hstate, lsmState]), hfree⟩,
    fun _ => rfl⟩

lemma Ready.stepped (h : p.Ready d) (hio : p.Benign io) :
    Stepped d io p (rollbackParticipant d io p) := by
  obtain ⟨storageId, mode, context⟩ := p
  cases context with
  | heap hs x =>
    obtain ⟨t, ht, -⟩ := h.2
    rcases HeapPhase.step h ht hio with ⟨hstate, hstep⟩ | ⟨hstate, hstep⟩
    all_goals
      unfold rollbackParticipant
      simp only [state, ht, map_some]
      simp at hstate
    · have hcall := fun p : StorageParticipant Key Row =>
        stepped_heap p io (hs.rollbackPrepared x · d io.heap) ht hstep
      rcases hstate with hs | hs | hs | hs <;> rw [hs] <;> exact hcall _
    · have hcall := fun p : StorageParticipant Key Row =>
        stepped_heap p io (hs.rollback x · io.heap) ht hstep
      rcases hstate with hs | hs | hs <;> rw [hs] <;> exact hcall _
  | lsm s id =>
    obtain ⟨t, hready, hstate⟩ := h
    unfold rollbackParticipant
    simp only [state, hready.handle, map_some]
    rcases hstate with hactive | ⟨hstate, hs, hd, hparked⟩
    · rw [hactive]
      exact stepped_lsm _ io (rollback_done hready hactive)
    obtain ⟨hfirst, hsync⟩ := hio t hready.handle hstate
    have hcall := stepped_lsm (d := d) ⟨storageId, mode, .lsm s id⟩ io
      (rollbackPrepared_done hready hstate hs hd hparked)
    rw [← hfirst, ← hsync] at hcall
    simp only [prepareStates, mem_cons, not_mem_nil, or_false] at hstate
    rcases hstate with hs | hs | hs | hs <;> rw [hs] <;> exact hcall

lemma Retryable.stepped (h : p.Retryable d) (hio : p.Benign io) :
    Stepped d io p (rollbackParticipant d io p) := by
  rcases h with h | h
  · exact h.stepped hio
  have hrun : rollbackParticipant d io p = (.ok (), p) := by
    unfold rollbackParticipant
    rcases h.1 with hstate | ⟨hmode, hstate⟩
    · rw [hstate]
    · simp [hstate, hmode]
  rw [hrun]
  exact ⟨rfl, .inr h, fun _ => rfl⟩

variable {out : Except CoordinatorError Unit × StorageParticipant Key Row}

lemma Stepped.retryable (h : Stepped d io p out) : out.2.Retryable d := h.left.imp_left (·.2)

lemma Stepped.done (h : Stepped d io p out) (hok : out.1 = .ok ()) : out.2.Done :=
  h.left.resolve_left fun hfail => hfail.1 hok

/-- No participant is about to commit, so that a failed group member is
resolved by the same calls. -/
lemma Retryable.resolveParticipant [DecidableEq Key] [DecidableEq Row] (h : p.Retryable d)
    (io : CallIo) : resolveParticipant d io p = rollbackParticipant d io p := by
  refine if_neg fun hcommit => ?_
  obtain ⟨storageId, mode, context⟩ := p
  rcases h with h | ⟨h | h, -⟩
  · cases context with
    | heap hs x =>
      obtain ⟨-, t, ht, -, hphase⟩ := h
      have hstate : t.state = .commitPending := by simpa [state, ht] using hcommit.2
      simp [hstate] at hphase
    | lsm s id =>
      obtain ⟨t, hready, hstate⟩ := h
      have hcommitting := hcommit.2
      simp only [state, hready.handle, map_some, some.injEq] at hcommitting
      rcases hstate with hs | ⟨hs, -⟩
      · simp [hs, lsmState] at hcommitting
      · simp only [prepareStates, mem_cons, not_mem_nil, or_false] at hs
        rcases hs with hs | hs | hs | hs <;> simp [hs, lsmState] at hcommitting
  · exact absurd (hcommit.2.symm.trans h) nofun
  · exact absurd (hcommit.2.symm.trans h.2) nofun

end StorageParticipant

section Visits

variable (f : StorageParticipant Key Row → Except CoordinatorError Unit × StorageParticipant Key Row)
  (due : StorageParticipant Key Row → Bool) (ps : List (StorageParticipant Key Row))

/-- A visit keeps what each call keeps, and has reached everybody where it
succeeds. -/
lemma visit_keeps {P D : StorageParticipant Key Row → Prop}
    (hstep : ∀ p ∈ ps, due p = true → P (f p).2 ∧ ((f p).1 = .ok () → D (f p).2))
    (hps : ∀ p ∈ ps, P p) :
    (∀ p ∈ (visit f due ps).2, P p) ∧ ((visit f due ps).1 = .ok () →
      ∀ p ∈ (visit f due ps).2, D p ∨ (p ∈ ps ∧ due p = false)) := by
  induction ps with
  | nil => simp [visit]
  | cons p rest ih =>
    obtain ⟨hp, hrest⟩ := forall_mem_cons.mp hps
    obtain ⟨hkeeps, hreaches⟩ := ih (fun q hq => hstep q (mem_cons_of_mem _ hq)) hrest
    have hreached : ∀ hok, ∀ q ∈ _, _ := fun hok q hq =>
      (hreaches hok q hq).imp_right (And.imp_left (mem_cons_of_mem p))
    unfold visit
    split
    · rename_i hdue
      obtain ⟨hkept, hdone⟩ := hstep p mem_cons_self hdue
      split
      · rename_i e p' hcall
        rw [hcall] at hkept
        exact ⟨forall_mem_cons.mpr ⟨hkept, hrest⟩, nofun⟩
      · rename_i p' hcall
        rw [hcall] at hkept hdone
        exact ⟨forall_mem_cons.mpr ⟨hkept, hkeeps⟩, fun hok =>
          forall_mem_cons.mpr ⟨.inl (hdone rfl), hreached hok⟩⟩
    · rename_i hdue
      exact ⟨forall_mem_cons.mpr ⟨hp, hkeeps⟩, fun hok => forall_mem_cons.mpr
        ⟨.inr ⟨mem_cons_self, by simpa using hdue⟩, hreached hok⟩⟩

lemma visit_ok (hok : ∀ p ∈ ps, due p = true → (f p).1 = .ok ()) : (visit f due ps).1 = .ok () := by
  induction ps with
  | nil => rfl
  | cons p rest ih =>
    obtain ⟨hp, hrest⟩ := forall_mem_cons.mp hok
    unfold visit
    split
    · rename_i hdue
      have hcall := hp hdue
      split
      · next heq => simp [heq] at hcall
      · exact ih hrest
    · exact ih hrest

end Visits

inductive Attempt where
  | rollback
  | resolveFailedGroupMember

namespace DatabaseTransaction

variable {txn txn' : DatabaseTransaction Key Row} {io : Ios}

lemma benign_good (p : StorageParticipant Key Row) : p.Benign .good := by
  unfold Benign
  split
  · exact ⟨.inl rfl, nofun⟩
  · exact fun _ _ _ => ⟨rfl, rfl⟩

structure Outcome (txn : DatabaseTransaction Key Row) (io : Ios)
    (out : Except CoordinatorError Unit × DatabaseTransaction Key Row) : Prop where
  id : out.2.id = txn.id
  retryable : ∀ p ∈ out.2.participants, p.Retryable txn.id
  pending : out.1 ≠ .ok () → out.2.state = .rollbackPending
  done : out.1 = .ok () → out.2.state = .rolledBack ∧ ∀ p ∈ out.2.participants, p.Done
  good : io = (fun _ => .good) → out.1 = .ok ()

lemma outcome_visited {out : Except CoordinatorError Unit × List (StorageParticipant Key Row)}
    (hkeeps : ∀ p ∈ out.2, p.Retryable txn.id) (hdone : out.1 = .ok () → ∀ p ∈ out.2, p.Done)
    (hgood : io = (fun _ => .good) → out.1 = .ok ()) : Outcome txn io (txn.visited out) := by
  obtain ⟨r, ps⟩ := out
  cases r with
  | error e => exact ⟨rfl, hkeeps, fun _ => rfl, nofun, fun h => absurd (hgood h) nofun⟩
  | ok u => exact ⟨rfl, hkeeps, fun h => absurd rfl h, fun _ => ⟨rfl, hdone rfl⟩, fun _ => rfl⟩

variable (hps : ∀ p ∈ txn.participants, p.Retryable txn.id)
  (hio : ∀ p ∈ txn.participants, p.Benign (io p.storageId))
include hps hio

/-- One attempt rolls back what it reaches; a read keeps its turn until the writes are done. -/
lemma rollbackBeforeDecision_outcome : Outcome txn io (txn.rollbackBeforeDecision io) := by
  let P := fun p : StorageParticipant Key Row =>
    p.Retryable txn.id ∧ (p.mode = .read → p.Benign (io p.storageId))
  have hstep : ∀ p : StorageParticipant Key Row, p.Retryable txn.id → p.Benign (io p.storageId) →
      p.Stepped txn.id (io p.storageId) (rollbackParticipant txn.id (io p.storageId) p) :=
    fun p hp hio => hp.stepped hio
  let f := fun p : StorageParticipant Key Row => rollbackParticipant txn.id (io p.storageId) p
  obtain ⟨hkeeps, hreaches⟩ := visit_keeps f (·.mode = .write) txn.participants
    (P := P) (D := Done)
    (fun p hp hdue => by
      have h := hstep p (hps p hp) (hio p hp)
      have hmode : p.mode = .write := by simpa using hdue
      exact ⟨⟨h.retryable, fun hread => absurd (h.mode.symm.trans hread) (by simp [hmode])⟩,
        h.done⟩)
    (fun p hp => ⟨hps p hp, fun _ => hio p hp⟩)
  have hwrites := fun hgood : io = (fun _ => .good) => visit_ok f (·.mode = .write)
    txn.participants fun p hp _ => (hstep p (hps p hp) (hio p hp)).good (by rw [hgood])
  unfold rollbackBeforeDecision
  dsimp only
  generalize visit f (·.mode = .write) txn.participants = writes at *
  obtain ⟨r, ps⟩ := writes
  cases r with
  | error e =>
    exact outcome_visited (fun p hp => (hkeeps p hp).1) (by simp) fun h => by simpa using hwrites h
  | ok u =>
    obtain ⟨hkeeps', hreaches'⟩ := visit_keeps f (·.mode = .read) ps
      (P := (·.Retryable txn.id)) (D := Done)
      (fun p hp hdue => by
        have h := hstep p (hkeeps p hp).1 ((hkeeps p hp).2 (by simpa using hdue))
        exact ⟨h.retryable, h.done⟩)
      (fun p hp => (hkeeps p hp).1)
    refine outcome_visited hkeeps' (fun hok p hp => ?_) fun hgood => visit_ok f _ ps fun p hp hdue =>
      (hstep p (hkeeps p hp).1 ((hkeeps p hp).2 (by simpa using hdue))).good (by rw [hgood])
    rcases hreaches' hok p hp with hdone | ⟨hp, hread⟩
    · exact hdone
    · refine (hreaches rfl p hp).resolve_right fun hwrite => ?_
      cases hmode : p.mode <;> simp [hmode] at hread hwrite

variable [DecidableEq Key] [DecidableEq Row]

lemma resolve_outcome : Outcome txn io (txn.visited
    ((visit (fun p => resolveParticipant txn.id (io p.storageId) p) (fun _ => true)
        txn.participants.reverse).1,
      (visit (fun p => resolveParticipant txn.id (io p.storageId) p) (fun _ => true)
        txn.participants.reverse).2.reverse)) := by
  have hstep : ∀ p ∈ txn.participants.reverse, p.Stepped txn.id (io p.storageId)
      (resolveParticipant txn.id (io p.storageId) p) := by
    intro p hp
    have hp := mem_reverse.mp hp
    rw [(hps p hp).resolveParticipant]
    exact (hps p hp).stepped (hio p hp)
  obtain ⟨hkeeps, hreaches⟩ := visit_keeps _ _ _ (P := (·.Retryable txn.id))
    (D := Done)
    (fun p hp (_ : (fun _ => true) p = true) => ⟨(hstep p hp).retryable, (hstep p hp).done⟩)
    (fun p hp => hps p (mem_reverse.mp hp))
  refine outcome_visited (fun p hp => hkeeps p (mem_reverse.mp hp)) (fun hok p hp => ?_)
    fun hgood => visit_ok _ _ _ fun p hp _ => (hstep p hp).good (by rw [hgood])
  exact (hreaches hok p (mem_reverse.mp hp)).resolve_right (by simp)

omit hps hio

def attempt (txn : DatabaseTransaction Key Row) (io : Ios) :
    Attempt → Except CoordinatorError Unit × DatabaseTransaction Key Row
  | .rollback => txn.rollback io
  | .resolveFailedGroupMember => txn.resolveFailedGroupMember io

/-- The states without a commit decision in which the call goes on. -/
def Admits (state : TransactionState) : Attempt → Prop
  | .rollback => state ∈ [.active, .rollbackRequired, .preparing, .rollbackPending]
  | .resolveFailedGroupMember => state ∈ [.preparing, .rollbackPending]

lemma attempt_outcome (io : Ios) {a : Attempt} (hps : ∀ p ∈ txn.participants, p.Retryable txn.id)
    (hio : ∀ p ∈ txn.participants, p.Benign (io p.storageId)) (ha : Admits txn.state a) :
    Outcome txn io (txn.attempt io a) := by
  cases a with
  | rollback =>
    have hrun : txn.rollback io = txn.rollbackBeforeDecision io := by
      simp only [Admits, mem_cons, not_mem_nil, or_false] at ha
      unfold rollback
      rcases ha with h | h | h | h <;> rw [h]
    simp only [attempt, hrun]
    exact rollbackBeforeDecision_outcome hps hio
  | resolveFailedGroupMember =>
    simp only [Admits, mem_cons, not_mem_nil, or_false] at ha
    have hopen : txn.state ≠ .rolledBack := by rcases ha with h | h <;> rw [h] <;> nofun
    have hadmitted : ¬ (txn.state ≠ .preparing ∧ txn.state ≠ .rollbackPending) := by tauto
    simp only [attempt, resolveFailedGroupMember, if_neg hopen, if_neg hadmitted]
    exact resolve_outcome hps hio

inductive Fails (txn : DatabaseTransaction Key Row) : DatabaseTransaction Key Row → Prop
  | none : Fails txn txn
  | again {txn' : DatabaseTransaction Key Row} (before : Fails txn txn') (a : Attempt) (io : Ios)
      (admits : Admits txn'.state a)
      (benign : ∀ p ∈ txn'.participants, p.Benign (io p.storageId))
      (failed : (txn'.attempt io a).1 ≠ .ok ()) : Fails txn (txn'.attempt io a).2

/-- A transaction with one heap participant whose Abort record could not be
made durable at the first attempt. -/
def activeHeap : DatabaseTransaction Unit Unit :=
  ⟨7, .active, [⟨0, .write, .heap ((HeapState.empty 1).begin true).2 1⟩]⟩

def unflushed : Ios := fun _ => { CallIo.good with heap := { Heap.Io.good with flush := false } }

def preparedStore : LsmShared Unit Unit :=
  (((LsmShared.create.beginTransaction .installed).acquireWriter (fun _ => 0) 1 .installed
    true).stageWrites 1 ⟨[((), some ())], by simp⟩).prepare 1 7 .written .written true

def preparedLsm : DatabaseTransaction Unit Unit :=
  ⟨7, .preparing, [⟨0, .write, .lsm preparedStore 1⟩]⟩

def unsynced : Ios := fun _ => { CallIo.good with sync := false }

end DatabaseTransaction

end Netbadb.Coordinator
