import Mathlib.Tactic

/-!
Row versions, transaction statuses and what a read view sees.
-/

namespace Netbadb.Mvcc

abbrev TxnId := Nat
abbrev CommitSeq := Nat
abbrev CommandId := Nat

structure RowId where
  page : Nat
  slot : Nat
  generation : Nat
  deriving DecidableEq, Repr

structure TupleHeader where
  xmin : TxnId
  xmax : Option TxnId
  cmin : CommandId
  cmax : Option CommandId
  nextVersion : Option RowId
  deriving DecidableEq, Repr

def TupleHeader.insertedBy (xmin : TxnId) (cmin : CommandId) : TupleHeader :=
  ⟨xmin, none, cmin, none, none⟩

def TupleHeader.expire (header : TupleHeader) (xmax : TxnId) (cmax : CommandId)
    (next : Option RowId) : TupleHeader :=
  { header with xmax := some xmax, cmax := some cmax, nextVersion := next }

inductive TxnStatus where
  | active
  | committed (seq : CommitSeq)
  | aborted
  deriving DecidableEq, Repr

inductive MvccError where
  | unknownTransaction (txnId : TxnId)
  | conflictingStatus (txnId : TxnId)
  | invalidMvccHeader
  | notActive
  | writerBusy (txnId : TxnId)
  | preparedWriteConflict (conflicting : TxnId)
  | rowNotFound (rowId : RowId)
  | entryNotFound
  | futureVisibilityBoundary
  | recoveryRequired
  | io
  | indexAlreadyExists
  | rowIdInUse
  | rollbackOrder
  | preparedResolutionOrder (expected : TxnId)
  deriving DecidableEq, Repr

/-- The status store: recorded outcomes and the transactions that are running. -/
structure StatusStore where
  durable : TxnId → Option TxnStatus
  active : TxnId → Bool
  maximumCommitSeq : CommitSeq
  poisoned : Bool

/-- How appending a status record ends; a failed append is truncated away if it can be. -/
inductive AppendIo where
  | synced
  | truncated
  | left
  deriving DecidableEq, Repr

namespace StatusStore

def empty : StatusStore := ⟨fun _ => none, fun _ => false, 0, false⟩

def status (store : StatusStore) (txnId : TxnId) : Except MvccError TxnStatus :=
  match store.durable txnId with
  | some status => .ok status
  | none => if store.active txnId then .ok .active else .error (.unknownTransaction txnId)

variable (store : StatusStore) (txnId : TxnId)

def markActive : StatusStore :=
  { store with active := Function.update store.active txnId true }

def clearActive : StatusStore :=
  { store with active := Function.update store.active txnId false }

def insertStatus (status : TxnStatus) : StatusStore :=
  { store with
    durable := Function.update store.durable txnId (some status)
    active := Function.update store.active txnId false
    maximumCommitSeq :=
      match status with
      | .committed seq => max store.maximumCommitSeq seq
      | _ => store.maximumCommitSeq }

/-- Record an outcome once; the same outcome may be recorded again. -/
def record (status : TxnStatus) (io : AppendIo) : StatusStore × Except MvccError Unit :=
  if store.poisoned then (store, .error .recoveryRequired)
  else
    match store.durable txnId with
    | some existing =>
      if existing = status then
        ({ store with active := Function.update store.active txnId false }, .ok ())
      else (store, .error (.conflictingStatus txnId))
    | none =>
      match io with
      | .synced => (store.insertStatus txnId status, .ok ())
      | .truncated => (store, .error .io)
      | .left => ({ store with poisoned := true }, .error .io)

end StatusStore

structure Snapshot where
  visibleCsn : CommitSeq
  ownTxn : Option TxnId
  commandId : CommandId
  deriving DecidableEq, Repr

variable (store : StatusStore) (header : TupleHeader)

def insertedVisible (snapshot : Snapshot) : Except MvccError Bool :=
  if snapshot.ownTxn = some header.xmin then .ok (header.cmin ≤ snapshot.commandId)
  else
    match store.status header.xmin with
    | .error e => .error e
    | .ok (.committed seq) => .ok (seq ≤ snapshot.visibleCsn)
    | .ok _ => .ok false

def isVisible (snapshot : Snapshot) : Except MvccError Bool :=
  match insertedVisible store header snapshot with
  | .error e => .error e
  | .ok false => .ok false
  | .ok true =>
    match header.xmax with
    | none => .ok true
    | some xmax =>
      if snapshot.ownTxn = some xmax then
        match header.cmax with
        | none => .error .invalidMvccHeader
        | some cmax => .ok (snapshot.commandId < cmax)
      else
        match store.status xmax with
        | .error e => .error e
        | .ok (.committed seq) => .ok (snapshot.visibleCsn < seq)
        | .ok _ => .ok true

/-- Whether no view at or after the horizon can see the version. -/
def isDeadBefore (horizon : CommitSeq) : Except MvccError Bool :=
  match store.status header.xmin with
  | .error e => .error e
  | .ok .aborted => .ok true
  | .ok .active => .ok false
  | .ok (.committed _) =>
    match header.xmax with
    | none => .ok false
    | some xmax =>
      match store.status xmax with
      | .error e => .error e
      | .ok (.committed seq) => .ok (seq ≤ horizon)
      | .ok _ => .ok false

section Visibility

variable {store store' : StatusStore} {snapshot : Snapshot} {header : TupleHeader} {x : TxnId}

/-- The view takes no part of the transaction's writes: it is somebody else's, and it has not
committed within the view. -/
def Outside (store : StatusStore) (snapshot : Snapshot) (x : TxnId) : Prop :=
  snapshot.ownTxn ≠ some x ∧
    (store.status x = .ok .active ∨ store.status x = .ok .aborted ∨
      ∃ seq, store.status x = .ok (.committed seq) ∧ snapshot.visibleCsn < seq)

/-- A version inserted outside the view is not visible. -/
lemma Outside.isVisible_of_xmin (h : Outside store snapshot header.xmin) :
    isVisible store header snapshot = .ok false := by
  obtain ⟨hown, hactive | haborted | ⟨seq, hcommitted, hseq⟩⟩ := h
  · simp [isVisible, insertedVisible, hown, hactive]
  · simp [isVisible, insertedVisible, hown, haborted]
  · simp [isVisible, insertedVisible, hown, hcommitted, Nat.not_le.mpr hseq]

/-- A deletion outside the view hides nothing. -/
lemma Outside.isVisible_of_xmax (h : Outside store snapshot x) (hx : header.xmax = some x) :
    isVisible store header snapshot = insertedVisible store header snapshot := by
  obtain ⟨hown, hstatus⟩ := h
  unfold isVisible
  cases hi : insertedVisible store header snapshot with
  | error e => rfl
  | ok visible =>
    cases visible with
    | false => rfl
    | true =>
      obtain hactive | haborted | ⟨seq, hcommitted, hseq⟩ := hstatus
      · simp [hx, hown, hactive]
      · simp [hx, hown, haborted]
      · simp [hx, hown, hcommitted, hseq]

lemma isVisible_of_xmax_none (hx : header.xmax = none) :
    isVisible store header snapshot = insertedVisible store header snapshot := by
  unfold isVisible
  cases hi : insertedVisible store header snapshot with
  | error e => rfl
  | ok visible =>
    cases visible with
    | false => rfl
    | true => simp [hx]

/-- Deleting a live version from outside the view leaves its visibility as it was. -/
lemma Outside.isVisible_expire (h : Outside store snapshot x) (hnone : header.xmax = none)
    (cmax : CommandId) (next : Option RowId) :
    isVisible store (header.expire x cmax next) snapshot = isVisible store header snapshot := by
  rw [isVisible_of_xmax_none hnone, h.isVisible_of_xmax rfl]
  rfl

/-- Two stores tell a view the same about a transaction. -/
def Agrees (store store' : StatusStore) (snapshot : Snapshot) (x : TxnId) : Prop :=
  store'.status x = store.status x ∨ snapshot.ownTxn = some x ∨
    Outside store snapshot x ∧ Outside store' snapshot x

lemma insertedVisible_congr (h : Agrees store store' snapshot header.xmin) :
    insertedVisible store' header snapshot = insertedVisible store header snapshot := by
  rcases h with heq | hself | ⟨⟨hown, hbefore⟩, ⟨-, hafter⟩⟩
  · unfold insertedVisible
    rw [heq]
  · simp [insertedVisible, hself]
  have hfalse : ∀ {st : StatusStore},
      (st.status header.xmin = .ok .active ∨ st.status header.xmin = .ok .aborted ∨
        ∃ seq, st.status header.xmin = .ok (.committed seq) ∧ snapshot.visibleCsn < seq) →
      insertedVisible st header snapshot = .ok false := by
    intro st hst
    obtain hs | hs | ⟨seq, hs, hseq⟩ := hst
    · simp [insertedVisible, hown, hs]
    · simp [insertedVisible, hown, hs]
    · simp [insertedVisible, hown, hs, Nat.not_le.mpr hseq]
  rw [hfalse hbefore, hfalse hafter]

/-- A view judges a version by what it is told about the version's two transactions. -/
lemma isVisible_congr (hxmin : Agrees store store' snapshot header.xmin)
    (hxmax : ∀ x, header.xmax = some x → Agrees store store' snapshot x) :
    isVisible store' header snapshot = isVisible store header snapshot := by
  have hinserted := insertedVisible_congr hxmin
  cases hx : header.xmax with
  | none => rw [isVisible_of_xmax_none hx, isVisible_of_xmax_none hx, hinserted]
  | some x =>
    rcases hxmax x hx with heq | hself | ⟨hbefore, hafter⟩
    · unfold isVisible
      rw [hinserted, hx]
      simp only [heq]
    · unfold isVisible
      rw [hinserted, hx]
      simp only [hself, if_true]
    · rw [hbefore.isVisible_of_xmax hx, hafter.isVisible_of_xmax hx, hinserted]

/-- A version whose transactions are known is visible or not; there is no third answer. -/
lemma isVisible_ok (hxmin : ∃ status, store.status header.xmin = .ok status)
    (hxmax : ∀ x, header.xmax = some x →
      (∃ status, store.status x = .ok status) ∧ header.cmax ≠ none) :
    ∃ visible, isVisible store header snapshot = .ok visible := by
  obtain ⟨inserted, hinserted⟩ : ∃ visible, insertedVisible store header snapshot = .ok visible := by
    unfold insertedVisible
    obtain ⟨status, hstatus⟩ := hxmin
    by_cases hown : snapshot.ownTxn = some header.xmin
    · exact ⟨_, if_pos hown⟩
    · rw [if_neg hown, hstatus]
      cases status <;> exact ⟨_, rfl⟩
  unfold isVisible
  rw [hinserted]
  cases inserted with
  | false => exact ⟨_, rfl⟩
  | true =>
    cases hx : header.xmax with
    | none => exact ⟨_, rfl⟩
    | some x =>
      obtain ⟨⟨status, hstatus⟩, hcmax⟩ := hxmax x hx
      obtain ⟨cmax, hcmax⟩ := Option.ne_none_iff_exists'.mp hcmax
      by_cases hown : snapshot.ownTxn = some x
      · simp [hown, hcmax]
      · simp only [hown, if_false, hstatus]
        cases status <;> exact ⟨_, rfl⟩

end Visibility

namespace StatusStore

variable {store : StatusStore} {x y : TxnId} {status : TxnStatus}

lemma status_insertStatus_self : (store.insertStatus x status).status x = .ok status := by
  simp [StatusStore.status, insertStatus]

lemma status_insertStatus_other (h : y ≠ x) :
    (store.insertStatus x status).status y = store.status y := by
  simp [StatusStore.status, insertStatus, h]

lemma status_markActive_other (h : y ≠ x) : (store.markActive x).status y = store.status y := by
  simp [status, markActive, h]

lemma status_clearActive_other (h : y ≠ x) : (store.clearActive x).status y = store.status y := by
  simp [StatusStore.status, clearActive, h]

lemma maximumCommitSeq_le_insertStatus :
    store.maximumCommitSeq ≤ (store.insertStatus x status).maximumCommitSeq := by
  cases status <;> simp [insertStatus]

end StatusStore

end Netbadb.Mvcc
