import Netbadb.Lsm.Recovery

/-!
The shape of a log that a reopen accepts. The records of one transaction are a
batch, perhaps a Prepare record, and at most one Commit or Abort record; the
commit sequences of different transactions differ. Gathering such a log by
transaction succeeds and finds exactly those records.
-/

namespace Netbadb.Lsm.Engine

open List LogRecord Analysis

variable {Key Row : Type} {id id' q : Nat} {b b' : Batch Key Row}
  {records l l' : List (LogRecord Key Row)} {r : LogRecord Key Row}

def recordsOf (id : Nat) (records : List (LogRecord Key Row)) : List (LogRecord Key Row) :=
  records.filter (·.txnId = id)

lemma mem_recordsOf : r ∈ recordsOf id records ↔ r ∈ records ∧ r.txnId = id := by simp [recordsOf]

@[simp] lemma recordsOf_nil : recordsOf id ([] : List (LogRecord Key Row)) = [] := rfl

lemma recordsOf_append (l l' : List (LogRecord Key Row)) :
    recordsOf id (l ++ l') = recordsOf id l ++ recordsOf id l' := by
  simp [recordsOf]

lemma recordsOf_snoc_self (l : List (LogRecord Key Row)) (h : r.txnId = id) :
    recordsOf id (l ++ [r]) = recordsOf id l ++ [r] := by
  simp [recordsOf, h]

lemma recordsOf_snoc_other (l : List (LogRecord Key Row)) (h : r.txnId ≠ id) :
    recordsOf id (l ++ [r]) = recordsOf id l := by
  simp [recordsOf, h]

lemma commit_mem_recordsOf : .commit id q ∈ recordsOf id records ↔ .commit id q ∈ records := by
  simp [mem_recordsOf, txnId]

lemma batch_mem_recordsOf :
    .mutationBatch id b ∈ recordsOf id records ↔ .mutationBatch id b ∈ records := by
  simp [mem_recordsOf, txnId]

lemma prepare_mem_recordsOf {d : Nat} :
    .prepare id d ∈ recordsOf id records ↔ .prepare id d ∈ records := by
  simp [mem_recordsOf, txnId]

lemma abort_mem_recordsOf : .abort id ∈ recordsOf id records ↔ .abort id ∈ records := by
  simp [mem_recordsOf, txnId]

inductive Head (id : Nat) (b : Batch Key Row) : List (LogRecord Key Row) → Prop where
  | batch : Head id b [.mutationBatch id b]
  | prepared (d : Nat) : Head id b [.mutationBatch id b, .prepare id d]

inductive Shaped (id : Nat) : List (LogRecord Key Row) → Prop where
  | nil : Shaped id []
  | head {b : Batch Key Row} {l : List (LogRecord Key Row)} (h : Head id b l) : Shaped id l
  | commit {b : Batch Key Row} {l : List (LogRecord Key Row)} (h : Head id b l) (q : Nat) :
      Shaped id (l ++ [.commit id q])
  | abort {b : Batch Key Row} {l : List (LogRecord Key Row)} (h : Head id b l) :
      Shaped id (l ++ [.abort id])

section

variable (h : Head id b l)
include h

lemma Head.batch_mem : .mutationBatch id b ∈ l := by cases h <;> simp

lemma Head.batch_eq (hmem : .mutationBatch id b' ∈ l) : b' = b := by
  cases h <;> simp_all

lemma Head.commit_notMem : .commit id' q ∉ l := by cases h <;> simp

lemma Head.abort_notMem : .abort id' ∉ l := by cases h <;> simp

end

/-- What may come before the last record of a well-shaped list. -/
lemma Shaped.snoc (h : Shaped id (l ++ [r])) : Shaped id l ∧
      ((∃ b, r = .mutationBatch id b ∧ l = []) ∨
        (∃ b d, r = .prepare id d ∧ l = [.mutationBatch id b]) ∨
        (∃ b q, r = .commit id q ∧ Head id b l) ∨ ∃ b, r = .abort id ∧ Head id b l) := by
  generalize hw : l ++ [r] = w at h
  cases h with
  | nil => simp at hw
  | @head b _ h =>
    cases h with
    | batch =>
      replace hw : l ++ [r] = [] ++ [mutationBatch id b] := hw
      obtain ⟨rfl, hr⟩ := append_inj' hw rfl
      obtain rfl : r = .mutationBatch id b := by simpa using hr
      exact ⟨.nil, .inl ⟨b, rfl, rfl⟩⟩
    | prepared d =>
      replace hw : l ++ [r] = [.mutationBatch id b] ++ [prepare id d] := hw
      obtain ⟨rfl, hr⟩ := append_inj' hw rfl
      obtain rfl : r = .prepare id d := by simpa using hr
      exact ⟨.head .batch, .inr (.inl ⟨b, d, rfl, rfl⟩)⟩
  | commit h q =>
    obtain ⟨rfl, hr⟩ := append_inj' hw rfl
    obtain rfl : r = .commit id q := by simpa using hr
    exact ⟨.head h, .inr (.inr (.inl ⟨_, q, rfl, h⟩))⟩
  | abort h =>
    obtain ⟨rfl, hr⟩ := append_inj' hw rfl
    obtain rfl : r = .abort id := by simpa using hr
    exact ⟨.head h, .inr (.inr (.inr ⟨_, rfl, h⟩))⟩

lemma Shaped.of_append (h : Shaped id (l ++ l')) : Shaped id l := by
  induction l' using reverseRecOn with
  | nil => simpa using h
  | append_singleton l' r ih =>
    rw [← append_assoc] at h
    exact ih h.snoc.1

/-- The batch of a transaction is the only one in its records. -/
lemma Shaped.batch_unique (h : Shaped id l) (hb : .mutationBatch id b ∈ l)
    (hb' : .mutationBatch id b' ∈ l) : b = b' := by
  cases h with
  | nil => simp at hb
  | head h => exact (h.batch_eq hb).trans (h.batch_eq hb').symm
  | commit h q | abort h =>
    have hb := h.batch_eq (by simpa using hb)
    have hb' := h.batch_eq (by simpa using hb')
    exact hb.trans hb'.symm

/-- A transaction is prepared for one database transaction. -/
lemma Shaped.prepare_unique {d d' : Nat} (h : Shaped id l) (hd : .prepare id d ∈ l)
    (hd' : .prepare id d' ∈ l) : d = d' := by
  have hhead : ∀ {b : Batch Key Row} {l : List (LogRecord Key Row)}, Head id b l →
      .prepare id d ∈ l → .prepare id d' ∈ l → d = d' := by
    intro b l h hd hd'
    cases h <;> simp_all
  cases h with
  | nil => simp at hd
  | head h => exact hhead h hd hd'
  | commit h q | abort h => exact hhead h (by simpa using hd) (by simpa using hd')

/-- A Commit record has its batch before it and no Abort record beside it. -/
lemma Shaped.of_commit (h : Shaped id l) (hq : .commit id q ∈ l) :
    ∃ b l', Head id b l' ∧ l = l' ++ [.commit id q] := by
  cases h with
  | nil => simp at hq
  | head h => exact absurd hq h.commit_notMem
  | commit h q' =>
    rcases mem_append.mp hq with hq | hq
    · exact absurd hq h.commit_notMem
    · obtain rfl : q = q' := by simpa using hq
      exact ⟨_, _, h, rfl⟩
  | abort h =>
    rcases mem_append.mp hq with hq | hq
    · exact absurd hq h.commit_notMem
    · simp at hq

def LogRecord.batch? : LogRecord Key Row → Option (Batch Key Row)
  | .mutationBatch _ batch => some batch
  | _ => none

def LogRecord.database? : LogRecord Key Row → Option Nat
  | .prepare _ databaseTxnId => some databaseTxnId
  | _ => none

def LogRecord.commit? : LogRecord Key Row → Option Nat
  | .commit _ commitSeq => some commitSeq
  | _ => none

def LogRecord.isAbort : LogRecord Key Row → Bool
  | .abort _ => true
  | _ => false

def summary (l : List (LogRecord Key Row)) : RecoveredTxn Key Row :=
  ⟨l.findSome? batch?, l.findSome? database?,
    l.findSome? commit?, l.any isAbort⟩

structure Analyzed (records : List (LogRecord Key Row)) (a : Analysis Key Row) : Prop where
  transactions : ∀ id, a.transactions id = summary (recordsOf id records)
  mem_ids : ∀ id, id ∈ a.ids ↔ recordsOf id records ≠ []
  nodup_ids : a.ids.Nodup
  mem_commits : ∀ q, q ∈ a.commits ↔ ∃ id, .commit id q ∈ records

/-- The commit sequences of different transactions differ. -/
def DistinctCommits (records : List (LogRecord Key Row)) : Prop :=
  ∀ id id' q, .commit id q ∈ records → .commit id' q ∈ records → id = id'

lemma DistinctCommits.of_append (h : DistinctCommits (records ++ l')) : DistinctCommits records :=
  fun id id' q hq hq' => h id id' q (by simp [hq]) (by simp [hq'])

variable {a : Analysis Key Row} {txn : RecoveredTxn Key Row}

lemma Analysis.mem_set_ids : id' ∈ (a.set id txn).ids ↔ id' = id ∨ id' ∈ a.ids := by
  by_cases h : id ∈ a.ids
  · simp only [set, h, if_true]
    exact ⟨.inr, by rintro (rfl | h'); exacts [h, h']⟩
  · simp [set, h, mem_orderedInsert]

lemma Analysis.nodup_set_ids (h : a.ids.Nodup) : (a.set id txn).ids.Nodup := by
  by_cases hid : id ∈ a.ids
  · simpa [set, hid] using h
  · have hperm : (a.set id txn).ids.Perm (id :: a.ids) := by
      simpa [set, hid] using perm_orderedInsert (· ≤ ·) id a.ids
    exact hperm.nodup_iff.mpr (nodup_cons.mpr ⟨hid, h⟩)

/-- Taking in one record: its transaction gets a new summary, the others keep
theirs. -/
lemma Analyzed.set (h : Analyzed records a) (r : LogRecord Key Row) (txn : RecoveredTxn Key Row)
    (htxn : txn = summary (recordsOf r.txnId records ++ [r])) :
    (∀ id, (a.set r.txnId txn).transactions id = summary (recordsOf id (records ++ [r]))) ∧
      (∀ id, id ∈ (a.set r.txnId txn).ids ↔ recordsOf id (records ++ [r]) ≠ []) ∧
      (a.set r.txnId txn).ids.Nodup := by
  refine ⟨fun id => ?_, fun id => ?_, Analysis.nodup_set_ids h.nodup_ids⟩
  · by_cases hid : r.txnId = id
    · subst hid
      simp [Analysis.set, recordsOf_snoc_self records rfl, htxn]
    · rw [recordsOf_snoc_other records hid]
      simp [Analysis.set, Function.update_of_ne (Ne.symm hid), h.transactions]
  · rw [Analysis.mem_set_ids, h.mem_ids]
    by_cases hid : r.txnId = id
    · subst hid
      simp [recordsOf_snoc_self records rfl]
    · rw [recordsOf_snoc_other records hid]
      simp [Ne.symm hid]

lemma Head.summary_eq (h : Head id b l) :
    (summary l).mutations = some b ∧ (summary l).commit = none ∧ (summary l).aborted = false := by
  cases h <;>
    simp [summary, findSome?, batch?, commit?, isAbort]

lemma Head.summary_commit (h : Head id b l) (q : Nat) :
    summary (l ++ [.commit id q]) = { summary l with commit := some q } := by
  cases h <;> rfl

lemma Head.summary_abort (h : Head id b l) :
    summary (l ++ [.abort id]) = { summary l with aborted := true } := by
  cases h <;> rfl

/-- The next record of a well-shaped log is accepted. -/
lemma Analyzed.step (h : Analyzed records a)
    (hshaped : Shaped r.txnId (recordsOf r.txnId records ++ [r]))
    (hdistinct : DistinctCommits (records ++ [r])) :
    ∃ a', a.step r = .ok a' ∧ Analyzed (records ++ [r]) a' := by
  have hother : (∀ id q, r ≠ .commit id q) →
      ∀ q, q ∈ a.commits ↔ ∃ id, .commit id q ∈ records ++ [r] := by
    intro hr q
    simp [h.mem_commits, fun id => (hr id q).symm]
  rcases hshaped.snoc.2 with ⟨b, hr, hl⟩ | ⟨b, d, hr, hl⟩ | ⟨b, q, hr, hl⟩ | ⟨b, hr, hl⟩
  all_goals
    generalize hid : r.txnId = id at hr hl
    subst hr
  · have hset := h.set (.mutationBatch id b) { a.transactions id with mutations := some b } (by
      rw [h.transactions, hid, hl]; rfl)
    refine ⟨_, ?_, hset.1, hset.2.1, hset.2.2, hother (by simp)⟩
    simp [step, h.transactions, hl, summary, pure, Except.pure, txnId]
  · have hset := h.set (.prepare id d) { a.transactions id with prepared := some d } (by
      rw [h.transactions, hid, hl]; rfl)
    refine ⟨_, ?_, hset.1, hset.2.1, hset.2.2, hother (by simp)⟩
    simp [step, h.transactions, hl, summary, pure, Except.pure, txnId,
      batch?, database?, commit?, isAbort]
  · obtain ⟨hb, hcommit, haborted⟩ := hl.summary_eq
    have hset := h.set (.commit id q) { a.transactions id with commit := some q } (by
      rw [h.transactions, hid, hl.summary_commit])
    have hfresh : q ∉ a.commits := by
      intro hq
      obtain ⟨id', hq⟩ := (h.mem_commits q).mp hq
      obtain rfl := hdistinct id' id q (by simp [hq]) (by simp)
      exact hl.commit_notMem (commit_mem_recordsOf.mpr hq)
    refine ⟨{ a.set id { a.transactions id with commit := some q } with
      commits := q :: a.commits }, ?_, hset.1, hset.2.1, hset.2.2, fun q' => ?_⟩
    · simp [step, h.transactions, hb, hcommit, haborted, hfresh, pure, Except.pure]
    simp only [mem_cons, h.mem_commits, mem_append, not_mem_nil, or_false, commit.injEq]
    constructor
    · rintro (rfl | ⟨id', hq⟩)
      · exact ⟨id, .inr ⟨rfl, rfl⟩⟩
      · exact ⟨id', .inl hq⟩
    · rintro ⟨id', hq | ⟨-, rfl⟩⟩
      · exact .inr ⟨id', hq⟩
      · exact .inl rfl
  · obtain ⟨hb, hcommit, haborted⟩ := hl.summary_eq
    have hset := h.set (.abort id) { a.transactions id with aborted := true } (by
      rw [h.transactions, hid, hl.summary_abort])
    refine ⟨_, ?_, hset.1, hset.2.1, hset.2.2, hother (by simp)⟩
    simp [step, h.transactions, hcommit, haborted, pure, Except.pure, txnId]

lemma analyzeWal_eq (hshaped : ∀ id, Shaped id (recordsOf id records))
    (hdistinct : DistinctCommits records) :
    ∃ a, analyzeWal records = .ok a ∧ Analyzed records a := by
  induction records using reverseRecOn with
  | nil =>
    exact ⟨.empty, rfl, fun _ => rfl, by simp [empty], by simp [empty],
      by simp [empty]⟩
  | append_singleton records r ih =>
    obtain ⟨a, ha, hanalyzed⟩ := ih
      (fun id => ((recordsOf_append records [r]) ▸ hshaped id).of_append) hdistinct.of_append
    have hlast := hshaped r.txnId
    rw [recordsOf_snoc_self records rfl] at hlast
    obtain ⟨a', ha', hanalyzed'⟩ := hanalyzed.step hlast hdistinct
    refine ⟨a', ?_, hanalyzed'⟩
    rw [analyzeWal, foldlM_append, show foldlM _ _ records = _ from ha]
    simp [bind, Except.bind, ha', pure, Except.pure]

end Netbadb.Lsm.Engine
