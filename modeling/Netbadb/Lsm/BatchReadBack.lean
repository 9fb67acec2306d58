import Netbadb.Lsm.Pending
import Netbadb.Lsm.RecordCodec

/-!
Which transactions leave a log that can be read back. Admission counts rows and
the reader counts mutations, so a transaction is readable exactly when its rows
and its moved rows together stay within the reader's count.
-/

namespace Netbadb.Lsm

open Wal List PendingRows Option Outcome WalRecord LsmTransaction UInt64 WalMutation PendingRow

section Rows

variable {pending : PendingRows} {rowId : LsmRowId} {row old : PendingRow}

def PendingRows.Sorted (pending : PendingRows) : Prop :=
  pending.Pairwise fun e e' => e.1 < e'.1

lemma PendingRows.get_cons (entry : LsmRowId × PendingRow) (rest : PendingRows) :
    get (entry :: rest) rowId = if entry.1 = rowId then some entry.2 else get rest rowId := by
  unfold get
  by_cases h : entry.1 = rowId
  · simp [h]
  · simp [h]

/-- An insert replaces the entry of the row where there is one. -/
lemma PendingRows.Sorted.insert_split (rowId : LsmRowId) (row : PendingRow) (h : pending.Sorted) :
    ∃ l r, pending.insert rowId row = l ++ (rowId, row) :: r
      ∧ pending = l ++ ((pending.get rowId).map (rowId, ·)).toList ++ r
      ∧ (∀ e ∈ l, e.1 < rowId) ∧ ∀ e ∈ r, rowId < e.1 := by
  induction pending with
  | nil => exact ⟨[], [], rfl, rfl, by simp, by simp⟩
  | cons entry rest ih =>
    obtain ⟨hentry, hrest⟩ := pairwise_cons.mp h
    rw [get_cons, insert]
    by_cases hlt : rowId < entry.1
    · have hne : entry.1 ≠ rowId := by
        rintro rfl
        rw [UInt64.lt_iff_toNat_lt] at hlt
        omega
      have hnone : get rest rowId = none := by
        unfold get
        rw [map_eq_none_iff, find?_eq_none]
        intro e he heq
        have hlt' := hentry e he
        rw [of_decide_eq_true heq] at hlt'
        rw [UInt64.lt_iff_toNat_lt] at hlt hlt'
        omega
      rw [if_pos hlt, if_neg hne, hnone]
      refine ⟨[], entry :: rest, rfl, rfl, by simp, ?_⟩
      intro e he
      rcases mem_cons.mp he with rfl | he
      · exact hlt
      · have hlt' := hentry e he
        rw [UInt64.lt_iff_toNat_lt] at hlt hlt' ⊢
        omega
    · by_cases heq : rowId = entry.1
      · subst heq
        rw [if_neg hlt, if_pos rfl, if_pos rfl]
        exact ⟨[], rest, rfl, rfl, by simp, hentry⟩
      · rw [if_neg hlt, if_neg heq, if_neg (Ne.symm heq)]
        obtain ⟨l, r, hinsert, hsplit, hl, hr⟩ := ih hrest
        refine ⟨entry :: l, r, by rw [hinsert]; rfl, ?_, ?_, hr⟩
        · rw [cons_append, cons_append, ← hsplit]
        intro e he
        rcases mem_cons.mp he with rfl | he
        · rw [UInt64.lt_iff_toNat_lt] at hlt ⊢
          have hne : rowId.toNat ≠ e.1.toNat := fun h => heq (UInt64.toNat_inj.mp h)
          omega
        · exact hl e he

lemma PendingRows.Sorted.insert (h : pending.Sorted) : (pending.insert rowId row).Sorted := by
  obtain ⟨l, r, hinsert, hsplit, hl, hr⟩ := h.insert_split rowId row
  rw [hsplit] at h
  rw [hinsert]
  obtain ⟨hlo, hro, hcross⟩ := pairwise_append.mp h
  obtain ⟨hll, -, -⟩ := pairwise_append.mp hlo
  refine pairwise_append.mpr ⟨hll, pairwise_cons.mpr ⟨hr, hro⟩, ?_⟩
  intro e he e' he'
  rcases mem_cons.mp he' with rfl | he'
  · exact hl e he
  · exact hcross e (mem_append_left _ he) e' he'

lemma PendingRows.mem_insert {e : LsmRowId × PendingRow}
    (h : e ∈ pending.insert rowId row) : e = (rowId, row) ∨ e ∈ pending := by
  induction pending with
  | nil => exact .inl (mem_singleton.mp h)
  | cons entry rest ih =>
    rw [insert] at h
    split_ifs at h with hlt heq
    · exact mem_cons.mp h
    · exact (mem_cons.mp h).imp_right (mem_cons_of_mem _)
    · rcases mem_cons.mp h with rfl | h
      · exact .inr (by simp)
      · exact (ih h).imp_right (mem_cons_of_mem _)

lemma PendingRows.mem_of_get (h : pending.get rowId = some old) : (rowId, old) ∈ pending := by
  obtain ⟨e, he, rfl⟩ := map_eq_some_iff.mp h
  have hid := find?_some he
  rw [← of_decide_eq_true hid]
  exact mem_of_find?_eq_some he

def PendingRows.estimate (pending : PendingRows) : Nat := (pending.map (·.2.estimate)).sum

lemma PendingRows.estimate_split (l r : PendingRows) (rowId : LsmRowId) (old : Option PendingRow) :
    estimate (l ++ (old.map (rowId, ·)).toList ++ r)
      = estimate l + (old.map PendingRow.estimate).getD 0 + estimate r := by
  cases old <;> simp [estimate, Nat.add_assoc]

lemma PendingRows.Sorted.insert_size (rowId : LsmRowId) (row : PendingRow) (h : pending.Sorted) :
    (pending.insert rowId row).estimate + ((pending.get rowId).map PendingRow.estimate).getD 0
        = pending.estimate + row.estimate
      ∧ (pending.insert rowId row).length + (pending.get rowId).toList.length
        = pending.length + 1 := by
  obtain ⟨l, r, hinsert, hsplit, -, -⟩ := h.insert_split rowId row
  have hold := estimate_split l r rowId (pending.get rowId)
  have hnew := estimate_split l r rowId (some row)
  have hlen := congrArg length hsplit
  rw [← hsplit] at hold
  simp only [map_some, toList_some, getD_some, append_assoc, singleton_append] at hnew
  rw [hinsert, hnew, hold]
  constructor
  · omega
  rw [hlen]
  cases pending.get rowId with
  | none =>
    simp
    omega
  | some old => simp

lemma PendingRows.Sorted.remove_size (h : pending.Sorted) (hget : pending.get rowId = some old) :
    (pending.remove rowId).estimate + old.estimate = pending.estimate
      ∧ (pending.remove rowId).length + 1 = pending.length := by
  obtain ⟨l, r, -, hsplit, hl, hr⟩ := h.insert_split rowId old
  rw [hget] at hsplit
  have hremove : pending.remove rowId = l ++ r := by
    rw [remove, hsplit]
    simp only [map_some, toList_some, append_assoc, singleton_append, filter_append,
      filter_cons, ne_eq, not_true_eq_false, decide_false, Bool.false_eq_true, if_false]
    have hne : ∀ e : LsmRowId × PendingRow, e.1 < rowId ∨ rowId < e.1 → e.1 ≠ rowId := by
      rintro e hcases rfl
      rcases hcases with hlt | hlt <;> (rw [lt_iff_toNat_lt] at hlt; omega)
    rw [filter_eq_self.mpr fun e he => decide_eq_true (hne e (.inl (hl e he))),
      filter_eq_self.mpr fun e he => decide_eq_true (hne e (.inr (hr e he)))]
  have hold := estimate_split l r rowId (some old)
  have hrest := estimate_split l r rowId none
  rw [← hsplit] at hold
  simp only [map_none, toList_none, append_nil, getD_none, map_some, getD_some] at hrest hold
  constructor
  · rw [hremove, hrest, hold]
    omega
  · rw [hremove, hsplit]
    simp
    omega

end Rows

structure PendingRow.Admitted (rowId : LsmRowId) (row : PendingRow) : Prop where
  nonzero : rowId ≠ 0
  based : row.originalKey.isSome = row.baseVersion.isSome
  deleted : row.row = none → row.originalKey ≠ none
  small : ∀ bytes ∈ row.row, bytes.length ≤ sstMaxBlockBytes - sstEntryHeaderBytes

structure LsmTransaction.Within (t : LsmTransaction) : Prop where
  sorted : t.pending.Sorted
  entries : ∀ e ∈ t.pending, PendingRow.Admitted e.1 e.2
  counted : t.pending.estimate ≤ t.pendingBytes
  bytes : t.pendingBytes ≤ maxPendingTransactionBytes
  rows : t.pending.length ≤ maxPendingMutations

variable {n : Nat} {rowId : LsmRowId}

section Steps

variable {t t' : LsmTransaction} {handle handle' : LsmRowHandle} {key : ClusteringKey}
  {encoded : List UInt8} {pendingBytes revision : Nat} {previous : Option PendingRow}

lemma validateSstableRowBytes_eq_ok (h : validateSstableRowBytes n = .ok ()) :
    n ≤ sstMaxBlockBytes - sstEntryHeaderBytes := by
  unfold validateSstableRowBytes at h
  rw [guard_eq_ok] at h
  exact not_lt.mp h.1

lemma checkPendingReplacement_eq_ok {replacement : Option Nat}
    (h : t.checkPendingReplacement previous replacement = .ok pendingBytes) :
    (previous.map PendingRow.estimate).getD 0 ≤ t.pendingBytes
      ∧ pendingBytes = t.pendingBytes - (previous.map PendingRow.estimate).getD 0
        + (replacement.map (· + 64)).getD 0
      ∧ pendingBytes ≤ maxPendingTransactionBytes
      ∧ t.pending.length - previous.toList.length + replacement.toList.length
        ≤ maxPendingMutations := by
  simp only [checkPendingReplacement, check_eq_ok, pure_eq_ok] at h
  obtain ⟨hbytes, hrows, rfl⟩ := h
  rw [not_or, not_lt, not_lt] at hbytes
  exact ⟨hbytes.1, rfl, hbytes.2, not_lt.mp hrows⟩

lemma takeRevision_eq_ok (h : t.takeRevision = .ok (revision, t')) :
    t'.id = t.id ∧ t'.pending = t.pending ∧ t'.pendingBytes = t.pendingBytes := by
  unfold takeRevision at h
  split_ifs at h
  cases h
  exact ⟨rfl, rfl, rfl⟩

section

variable (h : t.Within)
include h

/-- Writing an entry keeps the limits, where it was counted in place of the old
one or next to it. -/
lemma LsmTransaction.Within.insert (row : PendingRow) (hrow : PendingRow.Admitted rowId row)
    (hprevious : previous = t.pending.get rowId ∨ previous = none)
    (hcheck : t.checkPendingReplacement previous (some (row.estimate - 64)) = .ok pendingBytes)
    (hpending : t'.pending = t.pending.insert rowId row) (hbytes : t'.pendingBytes = pendingBytes) :
    t'.Within := by
  obtain ⟨hle, htotal, hmax, hrows⟩ := checkPendingReplacement_eq_ok hcheck
  obtain ⟨hestimate, hlength⟩ := h.sorted.insert_size rowId row
  have hcounted := h.counted
  refine ⟨by rw [hpending]; exact h.sorted.insert, ?_, ?_, by rw [hbytes]; exact hmax, ?_⟩
  · intro e he
    rw [hpending] at he
    rcases mem_insert he with rfl | he
    · exact hrow
    · exact h.entries e he
  · rw [hpending, hbytes, htotal]
    simp only [map_some, getD_some]
    rcases hprevious with rfl | rfl
    · omega
    · simp only [map_none, getD_none] at hle ⊢
      omega
  · rw [hpending]
    simp only [toList_some, length_singleton] at hrows
    rcases hprevious with rfl | rfl
    · omega
    · simp only [toList_none, length_nil] at hrows
      omega

lemma LsmTransaction.Within.insertIn {nextRowId : LsmRowId}
    (hinsert : t.insertIn nextRowId key encoded = .ok (t', handle)) : t'.Within ∧ t'.id = t.id := by
  simp only [LsmTransaction.insertIn, bind_eq_ok, check_eq_ok,
    pure_eq_ok, Prod.mk.injEq] at hinsert
  obtain ⟨_, hsize, bytes, hcheck, hnonzero, ⟨revision, t₁⟩, hrevision, hresult, -⟩ := hinsert
  obtain ⟨hid, hpending, -⟩ := takeRevision_eq_ok hrevision
  subst hresult
  refine ⟨h.insert _ ?_ (.inr rfl) ?_ (by rw [← hpending]) rfl, hid⟩
  · refine ⟨hnonzero, rfl, by simp, ?_⟩
    rintro _ ⟨⟩
    exact validateSstableRowBytes_eq_ok hsize
  · rw [PendingRow.estimate, Nat.add_sub_cancel_left]
    exact hcheck

variable {store : Committed}

lemma validateHandle_nonzero
    (hvalid : t.validateHandle (store.refreshHandle handle.rowId) handle = .ok ()) :
    handle.rowId ≠ 0 := by
  unfold validateHandle at hvalid
  cases hget : t.pending.get handle.rowId with
  | some row => exact (h.entries _ (mem_of_get hget)).nonzero
  | none =>
    rw [hget] at hvalid
    intro hzero
    rw [hzero, store.nonzero, if_neg (by simp)] at hvalid
    cases hvalid

lemma updatedRow_eq_ok {row : PendingRow} (hnonzero : handle.rowId ≠ 0)
    (hsize : encoded.length ≤ sstMaxBlockBytes - sstEntryHeaderBytes)
    (hrow : t.updatedRow handle key encoded revision = .ok row) :
    PendingRow.Admitted handle.rowId row ∧ row.row = some encoded := by
  unfold updatedRow at hrow
  have hsmall : ∀ bytes ∈ some encoded, bytes.length ≤ sstMaxBlockBytes - sstEntryHeaderBytes := by
    rintro _ ⟨⟩
    exact hsize
  cases hget : t.pending.get handle.rowId with
  | some old =>
    rw [hget] at hrow
    cases hrow
    have hold := h.entries _ (mem_of_get hget)
    exact ⟨⟨hnonzero, hold.based, by simp, hsmall⟩, rfl⟩
  | none =>
    cases hobserved : handle.observed with
    | committed version =>
      rw [hget, hobserved] at hrow
      cases hrow
      exact ⟨⟨hnonzero, rfl, by simp, hsmall⟩, rfl⟩
    | pending _ =>
      rw [hget, hobserved] at hrow
      cases hrow

lemma LsmTransaction.Within.updateIn
    (hupdate : t.updateIn (store.refreshHandle handle.rowId) handle key encoded
      = .ok (t', handle')) : t'.Within ∧ t'.id = t.id := by
  simp only [LsmTransaction.updateIn, bind_eq_ok, pure_eq_ok, Prod.mk.injEq] at hupdate
  obtain ⟨_, hvalid, _, hsize, bytes, hcheck, ⟨revision, t₁⟩, hrevision, row, hrow, hresult, -⟩ :=
    hupdate
  obtain ⟨hid, hpending, -⟩ := takeRevision_eq_ok hrevision
  have hrow' : t.updatedRow handle key encoded revision = .ok row := by
    rw [← hrow, updatedRow, updatedRow, hpending]
  obtain ⟨hadmitted, hencoded⟩ := updatedRow_eq_ok h (validateHandle_nonzero h hvalid)
    (validateSstableRowBytes_eq_ok hsize) hrow'
  subst hresult
  refine ⟨h.insert row hadmitted (.inl rfl) ?_ (by rw [← hpending]) rfl, hid⟩
  rw [PendingRow.estimate, Nat.add_sub_cancel_left, hencoded]
  exact hcheck

lemma LsmTransaction.Within.deleteIn
    (hdelete : t.deleteIn (store.refreshHandle handle.rowId) handle = .ok t') :
    t'.Within ∧ t'.id = t.id := by
  simp only [LsmTransaction.deleteIn, bind_eq_ok, pure_eq_ok] at hdelete
  obtain ⟨_, hvalid, bytes, hcheck, ⟨revision, t₁⟩, hrevision, pending, hrows, hresult⟩ := hdelete
  obtain ⟨hid, hpending, -⟩ := takeRevision_eq_ok hrevision
  have hnonzero := validateHandle_nonzero h hvalid
  have hrows' : t.deletedRows handle revision = .ok pending := by
    rw [← hrows, deletedRows, deletedRows, hpending]
  subst hresult
  refine ⟨?_, hid⟩
  unfold deletedRows at hrows'
  cases hget : t.pending.get handle.rowId with
  | none =>
    have hnot : t.insertedHere handle.rowId = false := by simp [insertedHere, hget]
    cases hobserved : handle.observed with
    | pending _ =>
      rw [hget, hobserved] at hrows'
      cases hrows'
    | committed version =>
      rw [hget, hobserved] at hrows'
      cases hrows'
      rw [hnot, hget] at hcheck
      exact h.insert ⟨some handle.clusteringKey, handle.clusteringKey, none, some version, revision⟩
        ⟨hnonzero, rfl, by simp, by simp⟩ (.inr rfl) hcheck rfl rfl
  | some old =>
    have hold := h.entries _ (mem_of_get hget)
    rw [hget] at hrows'
    dsimp only at hrows'
    split_ifs at hrows' with hinserted
    · -- A row of this transaction leaves the entries.
      cases hrows'
      have hhere : t.insertedHere handle.rowId = true := by
        simpa [insertedHere, hget] using hinserted
      rw [hhere, hget, if_pos rfl] at hcheck
      obtain ⟨hle, htotal, hmax, -⟩ := checkPendingReplacement_eq_ok hcheck
      obtain ⟨hestimate, hlength⟩ := h.sorted.remove_size hget
      have hcounted := h.counted
      have hlimit := h.rows
      simp only [map_some, getD_some, map_none, getD_none] at hle htotal
      refine ⟨Pairwise.filter _ h.sorted,
        fun e he => h.entries e (mem_of_mem_filter he), ?_, hmax, ?_⟩
      all_goals
        dsimp only
        omega
    · cases hrows'
      have hhere : t.insertedHere handle.rowId = false := by
        simpa [insertedHere, hget, isSome_iff_ne_none] using hinserted
      rw [hhere] at hcheck
      refine h.insert { old with row := none, revision := revision }
        ⟨hnonzero, hold.based, fun _ => ?_, by simp⟩ (.inl rfl) hcheck rfl rfl
      simpa using hinserted

end

/-- Every admitted transaction is within the limits. -/
lemma Admitted.within {id : TxnId} (h : Admitted id t) : t.Within ∧ t.id = id := by
  induction h with
  | begin =>
    exact ⟨⟨Pairwise.nil, by simp [beginTransaction], Nat.zero_le _, Nat.zero_le _,
      Nat.zero_le _⟩, rfl⟩
  | insert _ hinsert ih =>
    obtain ⟨hwithin, hid⟩ := ih.1.insertIn hinsert
    exact ⟨hwithin, hid.trans ih.2⟩
  | update _ hupdate ih =>
    obtain ⟨hwithin, hid⟩ := ih.1.updateIn hupdate
    exact ⟨hwithin, hid.trans ih.2⟩
  | delete _ hdelete ih =>
    obtain ⟨hwithin, hid⟩ := ih.1.deleteIn hdelete
    exact ⟨hwithin, hid.trans ih.2⟩

end Steps

section Batch

variable {t : LsmTransaction} {row : PendingRow}

/-- A row that the transaction moved to another key and still holds. -/
def PendingRow.moved (row : PendingRow) : Bool :=
  row.row.isSome && row.originalKey.any (· ≠ row.currentKey)

def LsmTransaction.movedRows (t : LsmTransaction) : Nat := (t.pending.filter (·.2.moved)).length

lemma rowMutations_encodable (h : PendingRow.Admitted rowId row) :
    ∀ m ∈ rowMutations rowId row, m.Encodable := by
  have hsize : sstMaxBlockBytes - sstEntryHeaderBytes < 2 ^ 32 := by decide
  intro m hm
  rcases mem_append.mp hm with hm | hm
  · cases horiginal : row.originalKey with
    | none => simp [horiginal] at hm
    | some original =>
      simp only [horiginal] at hm
      split_ifs at hm
      · rw [mem_singleton.mp hm]
        exact h.nonzero
      · cases hm
  · cases hrow : row.row with
    | none => simp [hrow] at hm
    | some bytes =>
      simp only [hrow, mem_singleton] at hm
      rw [hm]
      have hle := h.small bytes hrow
      exact ⟨h.nonzero, by omega⟩

/-- One mutation for a row that stays, two for one that moves. -/
lemma length_rowMutations (h : PendingRow.Admitted rowId row) :
    (rowMutations rowId row).length = 1 + if row.moved then 1 else 0 := by
  unfold rowMutations moved
  cases hrow : row.row with
  | none =>
    cases horiginal : row.originalKey with
    | none => exact absurd horiginal (h.deleted hrow)
    | some original => simp
  | some bytes =>
    cases horiginal : row.originalKey with
    | none => simp
    | some original =>
      by_cases hsame : original = row.currentKey
      all_goals simp [hsame]

/-- The estimate of an entry covers the bytes of its mutations. -/
lemma rowMutations_bytes_le :
    ((rowMutations rowId row).flatMap WalMutation.bytes).length ≤ row.estimate := by
  unfold rowMutations PendingRow.estimate
  cases hrow : row.row with
  | none =>
    cases horiginal : row.originalKey with
    | none => simp
    | some original => simp [length_bytes, WalMutation.row]
  | some bytes =>
    cases horiginal : row.originalKey with
    | none => simp [length_bytes, WalMutation.row]
    | some original =>
      by_cases hsame : original = row.currentKey
      · simp [hsame, length_bytes, WalMutation.row]
      · simp [hsame, length_bytes, WalMutation.row]
        omega

def LsmTransaction.mutations (t : LsmTransaction) : List WalMutation :=
  t.pending.flatMap fun entry => rowMutations entry.1 entry.2

lemma LsmTransaction.length_mutations (h : t.Within) :
    t.mutations.length = t.pending.length + t.movedRows := by
  have hentries := h.entries
  unfold mutations movedRows
  generalize t.pending = pending at hentries ⊢
  induction pending with
  | nil => rfl
  | cons e rest ih =>
    have hrest := ih fun e' he' => hentries e' (mem_cons_of_mem _ he')
    have hhead := length_rowMutations (hentries e (by simp))
    rw [flatMap_cons, length_append, hrest, hhead, filter_cons, length_cons]
    split_ifs
    · rw [length_cons]
      omega
    · omega

lemma LsmTransaction.mutations_bytes_le (t : LsmTransaction) :
    (t.mutations.flatMap WalMutation.bytes).length ≤ t.pending.estimate := by
  unfold mutations
  induction t.pending with
  | nil => simp
  | cons e rest ih =>
    have hhead := @rowMutations_bytes_le e.1 e.2
    have hestimate : estimate (e :: rest) = e.2.estimate + estimate rest := rfl
    rw [flatMap_cons, flatMap_append, length_append, hestimate]
    omega

lemma canonicalBatch_eq (h : t.Within) : t.canonicalBatch
      = .ok (t.mutations.mergeSort fun m m' => m.key.place ≤ m'.key.place) := by
  unfold canonicalBatch
  have hnone : t.pending.find? (fun entry =>
      entry.2.originalKey.isSome ≠ entry.2.baseVersion.isSome) = none := by
    rw [find?_eq_none]
    intro e he
    simpa using (h.entries e he).based
  rw [hnone]
  rfl

/-- The record of an admitted transaction has an encoding within the record
limit. -/
lemma LsmTransaction.Within.batch_encodable (h : t.Within) (hid : t.id ≠ 0)
    {batch : List WalMutation} (hbatch : t.canonicalBatch = .ok batch) :
    (mutationBatch t.id batch).Encodable
      ∧ (mutationBatch t.id batch).payloadBytes.length ≤ walMaxRecordBytes
      ∧ batch.length = t.pending.length + t.movedRows := by
  rw [canonicalBatch_eq h] at hbatch
  cases hbatch
  have hperm := mergeSort_perm t.mutations fun m m' => m.key.place ≤ m'.key.place
  have hlength : (t.mutations.mergeSort fun m m' => m.key.place ≤ m'.key.place).length
      = t.pending.length + t.movedRows := by
    rw [hperm.length_eq, length_mutations h]
  have hmoved : t.movedRows ≤ t.pending.length := length_filter_le _ _
  have hrows := h.rows
  have hmax : maxPendingMutations + maxPendingMutations < 2 ^ 32 := by decide
  refine ⟨⟨hid, by omega, ?_, ?_⟩, ?_, hlength⟩
  · intro m hm
    obtain ⟨e, he, hm⟩ := mem_flatMap.mp (hperm.mem_iff.mp hm)
    exact rowMutations_encodable (h.entries e he) m hm
  · have hsorted := @pairwise_mergeSort _
      (fun m m' : WalMutation => decide (m.key.place ≤ m'.key.place))
      (fun a b c hab hbc => decide_eq_true
        (le_trans (of_decide_eq_true hab) (of_decide_eq_true hbc)))
      (fun a b => by simpa using le_total a.key.place b.key.place) t.mutations
    exact hsorted.imp of_decide_eq_true
  · have hbytes : ((t.mutations.mergeSort fun m m' => m.key.place ≤ m'.key.place).flatMap
        WalMutation.bytes).length = (t.mutations.flatMap WalMutation.bytes).length :=
      (hperm.flatMap_right _).length_eq
    have hle := t.mutations_bytes_le
    have hcounted := h.counted
    have hlimit := h.bytes
    have hroom : 12 + maxPendingTransactionBytes ≤ walMaxRecordBytes := by decide
    simp only [payloadBytes, length_append, Bytes.length_leBytes, hbytes]
    omega

end Batch

section Log

variable (crc32c : Crc32c) (storageId : StorageId)

/-- What the store writes to its log: the batch of a transaction, or one of the
records about it. -/
inductive LogEntry where
  | batch (t : LsmTransaction)
  | prepare (txnId : TxnId) (databaseTxnId : DatabaseTxnId)
  | commit (txnId : TxnId) (commitSeq : LsmCommitSeq)
  | abort (txnId : TxnId)

/-- The entries that a store comes to write: batches of admitted transactions,
and records under ids its allocators handed out. -/
def LogEntry.Written : LogEntry → Prop
  | .batch t => Admitted t.id t ∧ t.id ≠ 0
  | .prepare txnId databaseTxnId => txnId ≠ 0 ∧ databaseTxnId ≠ 0
  | .commit txnId commitSeq => txnId ≠ 0 ∧ commitSeq ≠ 0
  | .abort txnId => txnId ≠ 0

def LogEntry.record : LogEntry → Except LsmError WalRecord
  | .batch t => mutationBatch t.id <$> t.canonicalBatch
  | .prepare txnId databaseTxnId => pure (.prepare txnId databaseTxnId)
  | .commit txnId commitSeq => pure (.commit txnId commitSeq)
  | .abort txnId => pure (.abort txnId)

def LogEntry.bytes (entry : LogEntry) : Except LsmError (List UInt8) := do
  let record ← entry.record
  encodeWalRecord crc32c storageId record

/-- A transaction whose rows and moved rows stay within the reader's count. -/
def LogEntry.Readable : LogEntry → Prop
  | .batch t => t.pending.length + t.movedRows ≤ maxPendingMutations
  | _ => True

lemma LogEntry.Written.record_eq {entry : LogEntry} (h : entry.Written) :
    ∃ record, entry.record = .ok record ∧ record.Encodable
      ∧ record.payloadBytes.length ≤ walMaxRecordBytes ∧ (record.Fits ↔ entry.Readable) := by
  have hroom : 16 ≤ walMaxRecordBytes := by decide
  cases entry with
  | batch t =>
    obtain ⟨hadmitted, hid⟩ := h
    obtain ⟨hwithin, -⟩ := hadmitted.within
    have hbatch := canonicalBatch_eq hwithin
    obtain ⟨hencodable, hlen, hcount⟩ := hwithin.batch_encodable hid hbatch
    refine ⟨_, by rw [LogEntry.record, hbatch]; rfl, hencodable, hlen, ?_⟩
    rw [Fits, Readable, hcount]
  | prepare txnId databaseTxnId | commit txnId commitSeq =>
    exact ⟨_, rfl, h, by simpa [payloadBytes] using hroom, Iff.rfl⟩
  | abort txnId => exact ⟨_, rfl, h, by simp [payloadBytes, walMaxRecordBytes], Iff.rfl⟩

lemma log_written {entries : List LogEntry} (h : ∀ e ∈ entries, e.Written) :
    ∃ records : List WalRecord, Forall₂ (fun e r => e.record = .ok r) entries records
      ∧ Forall₂ (fun e bytes => e.bytes crc32c storageId = .ok bytes) entries
        (records.map fun r => frame crc32c storageId r.tag r.payloadBytes)
      ∧ (∀ r ∈ records, r.Encodable ∧ r.payloadBytes.length ≤ walMaxRecordBytes)
      ∧ ((∀ r ∈ records, r.Fits) ↔ ∀ e ∈ entries, e.Readable) := by
  induction entries with
  | nil => exact ⟨[], .nil, .nil, by simp, by simp⟩
  | cons e entries ih =>
    obtain ⟨record, hrecord, hencodable, hlen, hfits⟩ := (h e (by simp)).record_eq
    obtain ⟨records, hrecords, hbytes, hall, hiff⟩ := ih fun e' he' => h e' (mem_cons_of_mem _ he')
    refine ⟨record :: records, .cons hrecord hrecords, .cons ?_ hbytes, ?_, ?_⟩
    · simp only [LogEntry.bytes, bind_eq_ok]
      exact ⟨record, hrecord, encodeWalRecord_eq crc32c storageId hencodable hlen⟩
    · intro r hr
      rcases mem_cons.mp hr with rfl | hr
      · exact ⟨hencodable, hlen⟩
      · exact hall r hr
    · simp only [forall_mem_cons, hfits, hiff]

/-- Everything the store writes is encoded without error. The log is read back
as it was written exactly when every transaction in it moved few enough rows;
otherwise the next open is refused. -/
theorem log_reads_back_iff (header : List UInt8) (hheader : header.length = walHeaderSize)
    (entries : List LogEntry) (h : ∀ e ∈ entries, e.Written) :
    ∃ records chunks, Forall₂ (fun e r => e.record = .ok r) entries records
      ∧ Forall₂ (fun e bytes => e.bytes crc32c storageId = .ok bytes) entries chunks
      ∧ (readLog crc32c storageId (header ++ chunks.flatten)
          = .ok (records, (header ++ chunks.flatten).length)
        ↔ ∀ e ∈ entries, e.Readable)
      ∧ (¬ (∀ e ∈ entries, e.Readable) →
        readLog crc32c storageId (header ++ chunks.flatten)
          = .error (.invalidWal "invalid transaction ID or mutation count")) := by
  obtain ⟨records, hrecords, hbytes, hall, hiff⟩ := log_written crc32c storageId h
  have hread : readLog crc32c storageId (header
      ++ (records.map fun r => frame crc32c storageId r.tag r.payloadBytes).flatten)
      = if ∀ r ∈ records, r.Fits then
          .ok (records, (header
            ++ (records.map fun r => frame crc32c storageId r.tag r.payloadBytes).flatten).length)
        else .error (.invalidWal "invalid transaction ID or mutation count") := by
    rw [readLog, ← hheader, drop_left, ← flatMap_def,
      decodeWalRecords_frames crc32c storageId hall, nil_append, length_append]
  refine ⟨records, _, hrecords, hbytes, ?_, ?_⟩
  · rw [hread, ← hiff]
    by_cases hfits : ∀ r ∈ records, r.Fits
    · rw [if_pos hfits]
      exact ⟨fun _ => hfits, fun _ => rfl⟩
    · rw [if_neg hfits]
      exact ⟨nofun, fun hcontra => absurd hcontra hfits⟩
  · intro hnot
    rw [hread, if_neg fun hfits => hnot (hiff.mp hfits)]

end Log

section Moved

def numberedRows : Committed where
  refreshHandle rowId := if rowId = 0 then none else some ⟨rowId, .committed 1, .uint64 rowId⟩
  nonzero := rfl

def movedEntry (i : Nat) : LsmRowId × PendingRow :=
  (ofNat (i + 1),
    ⟨some (.uint64 (ofNat (i + 1))), .uint64 0, some [], some 1, i + 1⟩)

def movedTransaction (n : Nat) : LsmTransaction :=
  ⟨7, (range n).map movedEntry, 64 * n, n + 1⟩

lemma PendingRows.insert_last {pending : PendingRows} (row : PendingRow)
    (h : ∀ e ∈ pending, e.1 < rowId) :
    pending.insert rowId row = pending ++ [(rowId, row)] ∧ pending.get rowId = none := by
  induction pending with
  | nil => exact ⟨rfl, rfl⟩
  | cons e rest ih =>
    have hlt := h e (by simp)
    obtain ⟨hinsert, hget⟩ := ih fun e' he' => h e' (mem_cons_of_mem _ he')
    rw [lt_iff_toNat_lt] at hlt
    have hnot : ¬ rowId < e.1 := by
      rw [lt_iff_toNat_lt]
      omega
    have hne : rowId ≠ e.1 := by
      rintro rfl
      omega
    rw [insert, if_neg hnot, if_neg hne, hinsert, get_cons, if_neg hne.symm, hget]
    exact ⟨rfl, rfl⟩

lemma movedTransaction_admitted (hn : n ≤ maxPendingMutations) :
    Admitted 7 (movedTransaction n) := by
  induction n with
  | zero => exact .begin
  | succ n ih =>
    have hmax : maxPendingMutations = 65536 := rfl
    have hbound : n + 1 < 2 ^ 64 := by omega
    have hid : (ofNat (n + 1)).toNat = n + 1 := toNat_ofNat_of_lt' hbound
    have hnonzero : ofNat (n + 1) ≠ 0 := by
      intro hzero
      rw [hzero] at hid
      simp at hid
    have hfresh : ∀ e ∈ (range n).map movedEntry, e.1 < ofNat (n + 1) := by
      intro e he
      obtain ⟨i, hi, rfl⟩ := mem_map.mp he
      have hi := mem_range.mp hi
      rw [lt_iff_toNat_lt, hid]
      change (ofNat (i + 1)).toNat < n + 1
      rw [toNat_ofNat_of_lt' (show i + 1 < 2 ^ 64 by omega)]
      omega
    obtain ⟨hinsert, hget⟩ := insert_last (movedEntry n).2 hfresh
    have hvalid : (movedTransaction n).validateHandle
        (numberedRows.refreshHandle (ofNat (n + 1)))
        ⟨ofNat (n + 1), .committed 1, .uint64 (ofNat (n + 1))⟩ = .ok () := by
      have hrefresh : numberedRows.refreshHandle (ofNat (n + 1))
          = some ⟨ofNat (n + 1), .committed 1, .uint64 (ofNat (n + 1))⟩ :=
        if_neg hnonzero
      unfold validateHandle movedTransaction
      rw [hget, hrefresh]
      exact if_pos rfl
    have hcheck : (movedTransaction n).checkPendingReplacement none (some 0)
        = .ok (64 * (n + 1)) := by
      have hbytes : maxPendingTransactionBytes = 16777216 := rfl
      simp only [checkPendingReplacement, check_eq_ok,
        pure_eq_ok, movedTransaction, length_map, length_range]
      simp
      omega
    have hrevision : (movedTransaction n).takeRevision
        = .ok (n + 1, { movedTransaction n with nextRevision := n + 2 }) := by
      unfold takeRevision movedTransaction
      rw [if_pos (by dsimp only; omega)]
      rfl
    refine @Admitted.update 7 _ _ numberedRows
      ⟨ofNat (n + 1), .committed 1, .uint64 (ofNat (n + 1))⟩
      ⟨ofNat (n + 1), .pending (n + 1), .uint64 0⟩ (.uint64 0) [] (ih (by omega)) ?_
    simp only [updateIn, bind_eq_ok, pure_eq_ok, Prod.mk.injEq]
    refine ⟨_, hvalid, (), rfl, 64 * (n + 1), ?_, _, hrevision, (movedEntry n).2, ?_, ?_, rfl⟩
    · rw [movedTransaction, hget]
      exact hcheck
    · simp only [updatedRow, movedTransaction, hget]
      rfl
    · simp only [movedTransaction, hinsert, range_succ, map_append, map_singleton]
      rfl

lemma movedRows_movedTransaction (hn : n < 2 ^ 64 - 1) :
    (movedTransaction n).pending.length = n ∧ (movedTransaction n).movedRows = n := by
  have hmoved : ∀ e ∈ (range n).map movedEntry, e.2.moved = true := by
    intro e he
    obtain ⟨i, hi, rfl⟩ := mem_map.mp he
    have hi := mem_range.mp hi
    have hid : (ofNat (i + 1)).toNat = i + 1 :=
      toNat_ofNat_of_lt' (show i + 1 < 2 ^ 64 by omega)
    have hne : ofNat (i + 1) ≠ 0 := by
      intro hzero
      rw [hzero] at hid
      simp at hid
    simpa [movedEntry, moved] using hne
  constructor
  · simp [movedTransaction]
  · rw [movedRows, movedTransaction, filter_eq_self.mpr hmoved]
    simp

/-- A transaction that moves 40000 rows is admitted and its batch is encoded,
but the log with it cannot be opened. -/
theorem moved_rows_not_read_back :
    ∃ t batch bytes, Admitted 7 t
      ∧ t.canonicalBatch = .ok batch
      ∧ encodeWalRecord (fun _ => 0) 1 (.mutationBatch t.id batch) = .ok bytes
      ∧ readLog (fun _ => 0) 1 (replicate walHeaderSize 0 ++ bytes)
        = .error (.invalidWal "invalid transaction ID or mutation count") := by
  have hadmitted := @movedTransaction_admitted 40000 (by decide)
  obtain ⟨hwithin, -⟩ := hadmitted.within
  have hbatch := canonicalBatch_eq hwithin
  obtain ⟨hencodable, hlen, hcount⟩ := hwithin.batch_encodable (by decide) hbatch
  obtain ⟨hrows, hmoved⟩ := @movedRows_movedTransaction 40000 (by decide)
  refine ⟨_, _, _, hadmitted, hbatch, encodeWalRecord_eq _ _ hencodable hlen, ?_⟩
  have hdrop : ∀ bytes : List UInt8,
      (replicate walHeaderSize 0 ++ bytes).drop walHeaderSize = bytes := by
    intro bytes
    rfl
  rw [readLog, hdrop]
  generalize (movedTransaction 40000).mutations.mergeSort
    (fun m m' => m.key.place ≤ m'.key.place) = batch at *
  have hfits : ¬ (mutationBatch (movedTransaction 40000).id batch).Fits := by
    rw [Fits, hcount, hrows, hmoved]
    decide
  have hread := @decodeWalRecords_frames
    [.mutationBatch (movedTransaction 40000).id batch] (fun _ => 0) 1 [] walHeaderSize
    (by simpa using ⟨hencodable, hlen⟩)
  rw [if_neg (by simpa using hfits)] at hread
  simpa using hread

/-- A log with the batch of one moved row and its commit reads back. -/
theorem moved_row_reads_back :
    (∀ e ∈ [LogEntry.batch (movedTransaction 1), .commit 7 1], e.Written)
      ∧ ∃ records, ∃ chunks : List (List UInt8),
        readLog (fun _ => 0) 1 (replicate walHeaderSize 0 ++ chunks.flatten)
        = .ok (records, (replicate walHeaderSize 0 ++ chunks.flatten).length) := by
  have hwritten : ∀ e ∈ [LogEntry.batch (movedTransaction 1), .commit 7 1], e.Written := by
    intro e he
    simp only [mem_cons, not_mem_nil, or_false] at he
    rcases he with rfl | rfl
    · exact ⟨movedTransaction_admitted (by decide), by decide⟩
    · exact ⟨by decide, by decide⟩
  refine ⟨hwritten, ?_⟩
  obtain ⟨records, chunks, -, -, hiff, -⟩ := log_reads_back_iff (fun _ => 0) 1
    (replicate walHeaderSize 0) (by simp) _ hwritten
  refine ⟨records, chunks, hiff.mpr ?_⟩
  intro e he
  simp only [mem_cons, not_mem_nil, or_false] at he
  rcases he with rfl | rfl
  · obtain ⟨hrows, hmoved⟩ := @movedRows_movedTransaction 1 (by decide)
    rw [LogEntry.Readable, hrows, hmoved]
    decide
  · trivial

end Moved

end Netbadb.Lsm
