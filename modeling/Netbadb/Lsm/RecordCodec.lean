import Netbadb.Lsm.Record
import Netbadb.Wal.Codec

/-!
What the log readers return on encoded records. A batch is read back as it was
written, up to the number of mutations the reader allows, and a record behind a
readable log is read with it.
-/

namespace Netbadb.Lsm

open Bytes Wal List WalRecord Outcome PhysicalKey

lemma readU32_of_slice {bytes : List UInt8} {offset n : Nat} (hn : n < 2 ^ 32)
    (h : slice bytes offset 4 = leBytes 4 n) : readU32 bytes offset = n := by
  rw [readU32, h, leNat_leBytes (by simpa using hn)]

section Keys

def ClusteringKey.typeTag : ClusteringKey → UInt8
  | .int64 _ => 1
  | .uint64 _ => 2

def PhysicalKey.bytes (key : PhysicalKey) : List UInt8 :=
  [key.clustering.typeTag, 0, 0, 0] ++ leBytes 8 key.clustering.bits.toNat
    ++ leBytes 8 key.rowId.toNat

@[simp] lemma length_keyBytes (key : PhysicalKey) : key.bytes.length = 20 := by
  simp [bytes]

lemma encodePhysicalKey_eq {key : PhysicalKey} (h : key.rowId ≠ 0) :
    encodePhysicalKey key = .ok key.bytes := by
  unfold encodePhysicalKey
  rw [if_neg h]
  cases hkey : key.clustering <;> simp [bytes, hkey, ClusteringKey.kind,
    ClusteringKey.typeTag, physicalTypeTag, ok_bind, pure_ok]

lemma decodePhysicalType_typeTag (key : ClusteringKey) :
    decodePhysicalType key.typeTag = .ok key.kind := by
  cases key <;> rfl

lemma decodeKeyBits_bits (key : ClusteringKey) : decodeKeyBits key.bits key.kind = .ok key := by
  cases key <;> rfl

lemma decodePhysicalKey_bytes {key : PhysicalKey} (h : key.rowId ≠ 0) :
    decodePhysicalKey key.bytes key.clustering.kind = .ok key := by
  have hbits : readU64 key.bytes 4 = key.clustering.bits := by
    apply readU64_of_slice
    simp [bytes, slice_cons, slice_append_left]
  have hrow : readU64 key.bytes 12 = key.rowId := by
    apply readU64_of_slice
    simp [bytes, slice_cons, slice_append_right, slice_self]
  have hreserved : slice key.bytes 1 3 = [0, 0, 0] := by simp [bytes, slice]
  have htag : key.bytes.getD 0 0 = key.clustering.typeTag := rfl
  simp only [decodePhysicalKey, check_eq_ok, bind_eq_ok,
    pure_eq_ok, hbits, hrow, hreserved, htag, length_keyBytes]
  exact ⟨by simp, _, decodePhysicalType_typeTag _, by simp, _, decodeKeyBits_bits _, h, rfl⟩

end Keys

section Mutations

def WalMutation.Encodable : WalMutation → Prop
  | .put key row => key.rowId ≠ 0 ∧ row.length < 2 ^ 32
  | .tombstone key => key.rowId ≠ 0

def WalMutation.row : WalMutation → List UInt8
  | .put _ row => row
  | .tombstone _ => []

def WalMutation.bytes (m : WalMutation) : List UInt8 :=
  [m.tag, 0, 0, 0] ++ m.key.bytes ++ leBytes 4 m.row.length ++ m.row

lemma WalMutation.length_bytes (m : WalMutation) : m.bytes.length = 28 + m.row.length := by
  simp [WalMutation.bytes]
  omega

variable {m : WalMutation}

lemma WalMutation.Encodable.rowId (h : m.Encodable) : m.key.rowId ≠ 0 := by
  cases m with
  | put key row => exact h.1
  | tombstone key => exact h

lemma WalMutation.Encodable.row_lt (h : m.Encodable) : m.row.length < 2 ^ 32 := by
  cases m with
  | put key row => exact h.2
  | tombstone key => simp [WalMutation.row]

lemma encodeWalMutation_eq (h : m.Encodable) : encodeWalMutation m = .ok m.bytes := by
  have hrow : m.rowField = .ok (leBytes 4 m.row.length ++ m.row) := by
    cases m with
    | put key row =>
      rw [WalMutation.rowField, if_neg (by exact not_le.mpr h.2)]
      rfl
    | tombstone key => rfl
  simp only [encodeWalMutation, bind_eq_ok, pure_eq_ok]
  exact ⟨_, encodePhysicalKey_eq h.rowId, _, hrow, by simp [WalMutation.bytes]⟩

variable {ms : List WalMutation} {previous : Option PhysicalKey}

lemma encodeWalMutations_eq (h : ∀ m ∈ ms, m.Encodable) :
    encodeWalMutations ms = .ok (ms.flatMap WalMutation.bytes) := by
  induction ms with
  | nil => rfl
  | cons m ms ih =>
    simp only [encodeWalMutations, bind_eq_ok, pure_eq_ok]
    exact ⟨_, encodeWalMutation_eq (h m (by simp)), _,
      ih fun m' hm' => h m' (mem_cons_of_mem _ hm'), rfl⟩

lemma decodeMutation_eq (m : WalMutation) : decodeMutation m.tag m.key m.row = .ok m := by
  cases m <;> rfl

lemma decodeMutations_cons {behind tail : List UInt8} (h : m.Encodable)
    (hprevious : ∀ p ∈ previous, p.place ≤ m.key.place)
    (hrest : decodeMutations ms.length behind (some m.key) = .ok (ms, tail)) :
    decodeMutations (ms.length + 1) (m.bytes ++ behind) previous = .ok (m :: ms, tail) := by
  have hlen : (m.bytes ++ behind).length = 28 + m.row.length + behind.length := by
    rw [length_append, m.length_bytes]
  have hreserved : slice (m.bytes ++ behind) 1 3 = [0, 0, 0] := by simp [WalMutation.bytes, slice]
  have htype : (m.bytes ++ behind).getD 4 0 = m.key.clustering.typeTag := rfl
  have htag : (m.bytes ++ behind).getD 0 0 = m.tag := rfl
  have hkey : slice (m.bytes ++ behind) 4 20 = m.key.bytes := by
    simp [WalMutation.bytes, slice_cons, slice_append_left]
  have hrow : readU32 (m.bytes ++ behind) 24 = m.row.length := by
    apply readU32_of_slice h.row_lt
    simp [WalMutation.bytes, slice_cons, slice_append_right, slice_append_left]
  have hdrop : (m.bytes ++ behind).drop 28 = m.row ++ behind := by
    simp [WalMutation.bytes, drop_append, drop_eq_nil_of_le]
  simp only [decodeMutations, check_eq_ok, bind_eq_ok, hreserved, htype,
    htag, hkey, hrow, hdrop]
  refine ⟨by omega, by simp, _, decodePhysicalType_typeTag _, _, decodePhysicalKey_bytes h.rowId,
    by simp, ?_, _, ?_, (ms, tail), ?_, rfl⟩
  · rintro ⟨p, hp, hlt⟩
    exact absurd (hprevious p hp) (not_le.mpr hlt)
  · rw [take_left]
    exact decodeMutation_eq m
  · rw [drop_left]
    exact hrest

lemma decodeMutations_eq {tail : List UInt8} (h : ∀ m ∈ ms, m.Encodable)
    (hsorted : ms.Pairwise fun m m' => m.key.place ≤ m'.key.place)
    (hprevious : ∀ p ∈ previous, ∀ m ∈ ms, p.place ≤ m.key.place) :
    decodeMutations ms.length (ms.flatMap WalMutation.bytes ++ tail) previous = .ok (ms, tail) := by
  induction ms generalizing previous with
  | nil => rfl
  | cons m ms ih =>
    obtain ⟨hm, hms⟩ := pairwise_cons.mp hsorted
    rw [flatMap_cons, append_assoc, length_cons]
    apply decodeMutations_cons (h m (by simp)) (fun p hp => hprevious p hp m (by simp))
    apply ih (fun m' hm' => h m' (mem_cons_of_mem _ hm')) hms
    rintro p ⟨⟩ m' hm'
    exact hm m' hm'

end Mutations

variable {records : List WalRecord}

section Records

variable (crc32c : Crc32c) (storageId : StorageId)

def frame (tag : UInt8) (payload : List UInt8) : List UInt8 :=
  recordHeader tag payload.length storageId ++ payload
    ++ leBytes 4 (crc32c (recordHeader tag payload.length storageId ++ payload)).toNat

@[simp] lemma length_recordHeader (tag : UInt8) (length : Nat) :
    (recordHeader tag length storageId).length = walRecordHeaderSize := by
  simp [recordHeader, walRecordMagic, walRecordHeaderSize]

lemma length_frame (tag : UInt8) (payload : List UInt8) :
    (frame crc32c storageId tag payload).length = walRecordHeaderSize + payload.length + 4 := by
  simp only [frame, length_append, length_recordHeader, length_leBytes]

variable {offset : Nat} {tag : UInt8}

lemma readRecord_frame {payload rest : List UInt8} (hlen : payload.length ≤ walMaxRecordBytes) :
    readRecord crc32c storageId (frame crc32c storageId tag payload ++ rest) offset
      = (fun record => some (record, payload.length)) <$> decodeWalRecord tag payload := by
  have hmax : payload.length < 2 ^ 32 := by
    unfold walMaxRecordBytes at hlen
    omega
  have hmagic : slice (frame crc32c storageId tag payload ++ rest) 0 4 = walRecordMagic := by
    simp [frame, recordHeader, walRecordMagic, slice]
  have hversion : readU16 (frame crc32c storageId tag payload ++ rest) 4 = walFormatVersion := by
    simp [readU16, frame, recordHeader, walRecordMagic, slice, walFormatVersion, leBytes, leNat]
  have hreserved : (frame crc32c storageId tag payload ++ rest).getD 7 0 = 0 := rfl
  have htag : (frame crc32c storageId tag payload ++ rest).getD 6 0 = tag := rfl
  have hlength : readU32 (frame crc32c storageId tag payload ++ rest) 8 = payload.length := by
    apply readU32_of_slice hmax
    simp [frame, recordHeader, walRecordMagic, slice_cons, slice_append_right, slice_append_left]
  have hstorage : readU64 (frame crc32c storageId tag payload ++ rest) 12 = storageId := by
    apply readU64_of_slice
    simp [frame, recordHeader, walRecordMagic, slice_cons, slice_append_right, slice_append_left]
  have hstored : readU32 (frame crc32c storageId tag payload ++ rest)
      (walRecordHeaderSize + payload.length)
      = (crc32c (recordHeader tag payload.length storageId ++ payload)).toNat := by
    apply readU32_of_slice (UInt32.toNat_lt _)
    rw [frame, append_assoc, slice_append_right (by simp), length_append,
      length_recordHeader, Nat.sub_self, slice_append_left (by simp)]
  have htake : (frame crc32c storageId tag payload ++ rest).take
      (walRecordHeaderSize + payload.length)
      = recordHeader tag payload.length storageId ++ payload := by
    rw [frame, append_assoc, ← length_recordHeader storageId tag payload.length,
      ← length_append, take_left]
  have hpayload : slice (frame crc32c storageId tag payload ++ rest) walRecordHeaderSize
      payload.length = payload := by
    rw [frame, append_assoc, append_assoc, slice_append_right (by simp),
      length_recordHeader, Nat.sub_self, slice_append_left rfl]
  have hfits : ¬ (frame crc32c storageId tag payload ++ rest).length
      < walRecordHeaderSize + payload.length + 4 := by
    rw [length_append, length_frame]
    omega
  unfold readRecord
  simp only [hmagic, hversion, hreserved, htag, hlength, hstorage, hstored, htake, hpayload,
    not_lt.mpr hlen, hfits, ne_eq, not_true_eq_false, if_false]
  rfl

lemma decodeWalRecords_frame {payload rest : List UInt8}
    (hlen : payload.length ≤ walMaxRecordBytes) :
    decodeWalRecords crc32c storageId (frame crc32c storageId tag payload ++ rest) offset records
      = match decodeWalRecord tag payload with
        | .error e => .error e
        | .ok record => decodeWalRecords crc32c storageId rest
            (offset + (frame crc32c storageId tag payload).length) (records ++ [record]) := by
  have hlength := length_frame crc32c storageId tag payload
  have hshort : ¬ (frame crc32c storageId tag payload ++ rest).length < walRecordHeaderSize := by
    rw [length_append]
    omega
  rw [decodeWalRecords, if_neg hshort, readRecord_frame crc32c storageId hlen]
  cases decodeWalRecord tag payload with
  | error e => rfl
  | ok record =>
    change decodeWalRecords _ _ (drop _ _) _ _ = _
    rw [← hlength, drop_left]

lemma decodeWalRecords_nil :
    decodeWalRecords crc32c storageId [] offset records = .ok (records, offset) := by
  rw [decodeWalRecords]
  rfl

end Records

section Payloads

/-- A record that has an encoding, apart from its size. -/
def WalRecord.Encodable : WalRecord → Prop
  | .mutationBatch txnId ms => txnId ≠ 0 ∧ ms.length < 2 ^ 32 ∧ (∀ m ∈ ms, m.Encodable)
      ∧ ms.Pairwise fun m m' => m.key.place ≤ m'.key.place
  | .prepare txnId databaseTxnId => txnId ≠ 0 ∧ databaseTxnId ≠ 0
  | .commit txnId commitSeq => txnId ≠ 0 ∧ commitSeq ≠ 0
  | .abort txnId => txnId ≠ 0

def WalRecord.payloadBytes : WalRecord → List UInt8
  | .mutationBatch txnId ms =>
    leBytes 8 txnId.toNat ++ leBytes 4 ms.length ++ ms.flatMap WalMutation.bytes
  | .prepare txnId databaseTxnId => leBytes 8 txnId.toNat ++ leBytes 8 databaseTxnId.toNat
  | .commit txnId commitSeq => leBytes 8 txnId.toNat ++ leBytes 8 commitSeq.toNat
  | .abort txnId => leBytes 8 txnId.toNat

/-- A batch within the number of mutations the reader allows. -/
def WalRecord.Fits : WalRecord → Prop
  | .mutationBatch _ ms => ms.length ≤ maxPendingMutations
  | _ => True

instance : DecidablePred Fits := fun record =>
  match record with
  | .mutationBatch _ ms => inferInstanceAs (Decidable (ms.length ≤ maxPendingMutations))
  | .prepare _ _ | .commit _ _ | .abort _ => .isTrue trivial

variable {record : WalRecord}

lemma encodeWalRecord_eq (crc32c : Crc32c) (storageId : StorageId) (h : record.Encodable)
    (hlen : record.payloadBytes.length ≤ walMaxRecordBytes) :
    encodeWalRecord crc32c storageId record
      = .ok (frame crc32c storageId record.tag record.payloadBytes) := by
  have hpayload : record.payload = .ok record.payloadBytes := by
    cases record with
    | mutationBatch txnId ms =>
      obtain ⟨-, hcount, hms, -⟩ := h
      simp only [payload, check_eq_ok, bind_eq_ok, pure_eq_ok]
      exact ⟨not_le.mpr hcount, _, encodeWalMutations_eq hms, rfl⟩
    | _ => rfl
  simp only [encodeWalRecord, check_eq_ok, bind_eq_ok, pure_eq_ok]
  exact ⟨_, hpayload, not_lt.mpr hlen, rfl⟩

lemma length_flatMap_bytes (ms : List WalMutation) :
    28 * ms.length ≤ (ms.flatMap WalMutation.bytes).length := by
  induction ms with
  | nil => simp
  | cons m ms ih =>
    rw [flatMap_cons, length_append, length_cons, m.length_bytes]
    omega

/-- A batch is read back exactly when it is within the reader's count. -/
lemma decodeBatch_eq {txnId : TxnId} {ms : List WalMutation}
    (h : (mutationBatch txnId ms).Encodable) :
    decodeBatch (mutationBatch txnId ms).payloadBytes
      = if ms.length ≤ maxPendingMutations then .ok (.mutationBatch txnId ms)
        else .error (.invalidWal "invalid transaction ID or mutation count") := by
  obtain ⟨hid, hcount, hms, hsorted⟩ := h
  have hlen : (mutationBatch txnId ms).payloadBytes.length
      = 12 + (ms.flatMap WalMutation.bytes).length := by
    simp only [payloadBytes, length_append, length_leBytes]
  have htxn : readU64 (mutationBatch txnId ms).payloadBytes 0 = txnId := by
    apply readU64_of_slice
    simp [payloadBytes, slice_append_left]
  have hread : readU32 (mutationBatch txnId ms).payloadBytes 8 = ms.length := by
    apply readU32_of_slice hcount
    simp [payloadBytes, slice_append_right, slice_append_left]
  have hdrop : (mutationBatch txnId ms).payloadBytes.drop 12
      = ms.flatMap WalMutation.bytes ++ [] := by
    simp [payloadBytes, drop_append, drop_eq_nil_of_le]
  have hbytes := length_flatMap_bytes ms
  split_ifs with hfits
  · simp only [decodeBatch, check_eq_ok, bind_eq_ok, htxn, hread, hdrop]
    refine ⟨by omega, ?_, ?_, (ms, []), decodeMutations_eq hms hsorted (by simp), ?_⟩
    · rintro (hzero | hlarge)
      · exact hid hzero
      · exact absurd hfits (not_le.mpr hlarge)
    · omega
    · simp
  · simp only [decodeBatch, hlen, htxn, hread]
    rw [if_neg (by omega), if_pos (Or.inr (not_le.mp hfits))]
    rfl

lemma decodeWalRecord_eq (h : record.Encodable) (hfits : record.Fits) :
    decodeWalRecord record.tag record.payloadBytes = .ok record := by
  cases record with
  | mutationBatch txnId ms =>
    have hcount : ms.length ≤ maxPendingMutations := hfits
    have hbatch := decodeBatch_eq h
    rw [if_pos hcount] at hbatch
    simpa [decodeWalRecord, tag, expectedLength] using hbatch
  | prepare txnId databaseTxnId =>
    have htxn : readU64 (prepare txnId databaseTxnId).payloadBytes 0 = txnId :=
      readU64_of_slice (by simp [payloadBytes, slice_append_left])
    have hdatabase : readU64 (prepare txnId databaseTxnId).payloadBytes 8
        = databaseTxnId :=
      readU64_of_slice (by simp [payloadBytes, slice_append_right, slice_self])
    have hlen : (prepare txnId databaseTxnId).payloadBytes.length = 16 := by simp [payloadBytes]
    simp [decodeWalRecord, tag, expectedLength, hlen, decodePrepare, htxn, hdatabase, h.1, h.2]
  | commit txnId commitSeq =>
    have htxn : readU64 (commit txnId commitSeq).payloadBytes 0 = txnId :=
      readU64_of_slice (by simp [payloadBytes, slice_append_left])
    have hseq : readU64 (commit txnId commitSeq).payloadBytes 8 = commitSeq :=
      readU64_of_slice (by simp [payloadBytes, slice_append_right, slice_self])
    have hlen : (commit txnId commitSeq).payloadBytes.length = 16 := by simp [payloadBytes]
    simp [decodeWalRecord, tag, expectedLength, hlen, decodeCommit, htxn, hseq, h.1, h.2]
  | abort txnId =>
    have htxn : readU64 (abort txnId).payloadBytes 0 = txnId :=
      readU64_of_slice (by simp [payloadBytes, slice_self])
    have hlen : (abort txnId).payloadBytes.length = 8 := by simp [payloadBytes]
    have hid : txnId ≠ 0 := h
    simp [decodeWalRecord, tag, expectedLength, hlen, decodeAbort, htxn, hid]

lemma decodeWalRecord_too_many (h : record.Encodable) (hfits : ¬ record.Fits) :
    decodeWalRecord record.tag record.payloadBytes
      = .error (.invalidWal "invalid transaction ID or mutation count") := by
  cases record with
  | mutationBatch txnId ms =>
    have hcount : ¬ ms.length ≤ maxPendingMutations := hfits
    have hbatch := decodeBatch_eq h
    rw [if_neg hcount] at hbatch
    simpa [decodeWalRecord, tag, expectedLength] using hbatch
  | _ => exact absurd trivial hfits

/-- A log reads back exactly when each of its records does. -/
lemma decodeWalRecords_frames (crc32c : Crc32c) (storageId : StorageId) {before : List WalRecord}
    {offset : Nat} (h : ∀ r ∈ records, r.Encodable ∧ r.payloadBytes.length ≤ walMaxRecordBytes) :
    decodeWalRecords crc32c storageId
        (records.flatMap fun r => frame crc32c storageId r.tag r.payloadBytes) offset before
      = (if ∀ r ∈ records, r.Fits then
          Except.ok (before ++ records, offset
            + (records.flatMap fun r => frame crc32c storageId r.tag r.payloadBytes).length)
        else Except.error (.invalidWal "invalid transaction ID or mutation count")) := by
  induction records generalizing before offset with
  | nil => simp [decodeWalRecords_nil]
  | cons r records ih =>
    obtain ⟨hr, hlen⟩ := h r (by simp)
    have hrest : ∀ r' ∈ records, r'.Encodable ∧ r'.payloadBytes.length ≤ walMaxRecordBytes :=
      fun r' hr' => h r' (mem_cons_of_mem _ hr')
    rw [flatMap_cons, decodeWalRecords_frame crc32c storageId hlen]
    by_cases hfits : r.Fits
    · rw [decodeWalRecord_eq hr hfits]
      dsimp only
      rw [ih hrest]
      simp [hfits, append_assoc, Nat.add_assoc]
    · rw [decodeWalRecord_too_many hr hfits]
      simp [hfits]

end Payloads

end Netbadb.Lsm
