import Netbadb.Wal.Codec

/-!
Scanning what was appended. A generation file written by `append` is its header
followed by the bytes of its records, and every record passed the checks of the
scan when it was appended. So the scan returns the records, and on a prefix of
the file it returns the records that lie wholly inside.
-/

namespace Netbadb.Wal

open Bytes List

/-- The bytes `append` writes for a record. -/
def encodedBytes (crc32c : Crc32c) (record : WalRecord) : List UInt8 :=
  recordBytes record (crc32c (recordBytes record 0)).toNat

def logBytes (crc32c : Crc32c) (records : List WalRecord) : List UInt8 :=
  records.flatMap (encodedBytes crc32c)

lemma logBytes_nil (crc32c : Crc32c) : logBytes crc32c [] = [] := rfl

lemma logBytes_cons (crc32c : Crc32c) (r : WalRecord) (rest : List WalRecord) :
    logBytes crc32c (r :: rest) = encodedBytes crc32c r ++ logBytes crc32c rest :=
  flatMap_cons

lemma logBytes_append (crc32c : Crc32c) (a b : List WalRecord) :
    logBytes crc32c (a ++ b) = logBytes crc32c a ++ logBytes crc32c b :=
  flatMap_append

def recordEnd (baseLsn : Lsn) (record : WalRecord) : Nat :=
  walHeaderSize + (record.lsn.toNat - baseLsn.toNat) + record.kind.encodedRecordLen

section Legal

variable (crc32c : Crc32c) (format : PageFormat) (baseLsn : Lsn)

@[simp] lemma length_encodedBytes (r : WalRecord) :
    (encodedBytes crc32c r).length = r.kind.encodedRecordLen := length_recordBytes r _

/-- A record that may stand at an offset behind the records of the index. -/
structure Accepted (index : LogIndex) (offset : Nat) (r : WalRecord) : Prop where
  placed : walHeaderSize ≤ offset
  position : r.lsn.toNat = baseLsn.toNat + (offset - walHeaderSize)
  fits : offset + r.kind.encodedRecordLen < 2 ^ 64
  chained : r.prevLsn = index.lastByTxn r.txnId
  previous : r.prevLsn ≠ some 0
  sequenced : validateTransactionSequence r.lsn r.txnId (index.txnStates r.txnId) r.kind = .ok ()
  imaged : validatePageImages format r.lsn r.kind = .ok ()
  reserved : ∃ reservation,
    validateTransitionReservation format r.lsn r.txnId r.kind index.reservations
      = .ok reservation
  named : ∀ databaseTxnId, r.kind = .prepare databaseTxnId → databaseTxnId ≠ 0

/-- Records that may follow one another from an offset on. -/
def Legal : LogIndex → Nat → List WalRecord → Prop
  | _, _, [] => True
  | index, offset, r :: rest =>
    Accepted format baseLsn index offset r
      ∧ Legal (index.insert r) (offset + r.kind.encodedRecordLen) rest

variable {crc32c format baseLsn} {index : LogIndex} {offset : Nat} {r : WalRecord}

lemma Accepted.logicalLsn_eq (h : Accepted format baseLsn index offset r) :
    logicalLsn baseLsn offset = .ok r.lsn := by
  have hlt := r.lsn.toNat_lt
  have hlsn : UInt64.ofNat (baseLsn.toNat + (offset - walHeaderSize)) = r.lsn := by
    rw [← h.position, UInt64.ofNat_toNat]
  simp only [logicalLsn, checkedAdd, hlsn, Outcome.check_eq_ok]
  refine ⟨not_lt.mpr h.placed, ?_⟩
  rw [if_pos (by rw [← h.position]; exact hlt)]
  rfl

lemma Accepted.recordEnd_eq (h : Accepted format baseLsn index offset r) :
    recordEnd baseLsn r = offset + r.kind.encodedRecordLen := by
  have hplaced := h.placed
  rw [recordEnd, h.position]
  omega

variable {file : List UInt8} {n : Nat}

lemma slice_recordHeader (rest : List UInt8)
    (hfile : (file.drop offset).take n = (encodedBytes crc32c r ++ rest).take n)
    (hn : recordHeaderSize ≤ n) :
    slice file offset recordHeaderSize = (encodedBytes crc32c r).take recordHeaderSize := by
  have hlen := (encodedRecordLen_le r.kind).1
  have htake := congrArg (take recordHeaderSize) hfile
  rw [take_take, take_take, min_eq_left hn] at htake
  rw [slice, htake, take_append_of_le_length (by rwa [length_encodedBytes])]

variable {policy : TailPolicy}

lemma scanRecord_whole {rest : List UInt8} (h : Accepted format baseLsn index offset r)
    (hfile : file.drop offset = encodedBytes crc32c r ++ rest) :
    scanRecord crc32c format baseLsn file policy index offset
      = .ok (.record r (offset + r.kind.encodedRecordLen)) := by
  have hlen := (encodedRecordLen_le r.kind).1
  have hremaining : file.length - offset = r.kind.encodedRecordLen + rest.length := by
    rw [← length_drop, hfile, length_append, length_encodedBytes]
  have hheader : slice file offset recordHeaderSize
      = (encodedBytes crc32c r).take recordHeaderSize :=
    slice_recordHeader rest (by rw [hfile]) le_rfl
  have hbytes : slice file offset r.kind.encodedRecordLen = encodedBytes crc32c r := by
    rw [slice, hfile, ← length_encodedBytes crc32c, take_left]
  have hprev : (if readU64 (encodedBytes crc32c r) 32 ≠ 0
      then some (readU64 (encodedBytes crc32c r) 32) else none) = r.prevLsn := by
    rw [encodedBytes, readU64_optional (slice_prevLsn r _)]
    cases hp : r.prevLsn with
    | none => rfl
    | some lsn =>
      have hne : lsn ≠ 0 := fun h0 => h.previous (by rw [hp, h0])
      simp [Option.filter, hne]
  have hlsn : readU64 (encodedBytes crc32c r) 16 = r.lsn := readU64_of_slice (slice_lsn r _)
  have htxn : readU64 (encodedBytes crc32c r) 24 = r.txnId := readU64_of_slice (slice_txnId r _)
  have hpayload : (encodedBytes crc32c r).drop recordHeaderSize = r.kind.payload :=
    drop_recordBytes r _
  obtain ⟨reservation, hreservation⟩ := h.reserved
  refine Outcome.bind_eq_ok.mpr ⟨r.lsn, h.logicalLsn_eq, ?_⟩
  dsimp only
  rw [hremaining, if_neg (by omega), hheader]
  refine Outcome.bind_eq_ok.mpr ⟨_, validateRecordFraming_take r _ r.lsn, ?_⟩
  rw [if_neg (by omega), hbytes]
  simp only [hlsn, htxn, hprev, hpayload, Outcome.bind_eq_ok, Outcome.check_eq_ok]
  exact ⟨(), verifyRecordChecksum_recordBytes crc32c r.lsn r, not_not.mpr rfl,
    not_not.mpr h.chained, (), h.sequenced, r.kind, decodeKind_payload r.lsn r.kind h.named, (),
    h.imaged, reservation, hreservation, not_le.mpr h.fits, rfl⟩

/-- The scan finds a torn tail at a proper prefix of an accepted record. -/
lemma scanRecord_torn (h : Accepted format baseLsn index offset r)
    (hn : n < r.kind.encodedRecordLen) (hfile : file.drop offset = (encodedBytes crc32c r).take n) :
    scanRecord crc32c format baseLsn file policy index offset = tornTail policy r.lsn := by
  have hremaining : file.length - offset = n := by
    rw [← length_drop, hfile, length_take, length_encodedBytes, min_eq_left hn.le]
  by_cases hshort : n < recordHeaderSize
  · have hpartial : slice file offset n = (encodedBytes crc32c r).take n := by
      rw [slice, hfile, take_take, min_self]
    rw [scanRecord, h.logicalLsn_eq, hremaining]
    change (if n < recordHeaderSize then _ else _) = _
    rw [if_pos hshort, hpartial, encodedBytes, validatePartialRecordHeader_take]
    rfl
  · have hheader : slice file offset recordHeaderSize
        = (encodedBytes crc32c r).take recordHeaderSize := by
      apply slice_recordHeader [] _ (not_lt.mp hshort)
      rw [hfile, append_nil, take_take, min_self]
    rw [scanRecord, h.logicalLsn_eq, hremaining]
    change (if n < recordHeaderSize then _ else _) = _
    rw [if_neg hshort, hheader, encodedBytes, validateRecordFraming_take]
    change (if r.kind.encodedRecordLen > n then _ else _) = _
    rw [if_pos hn]

variable {records : List WalRecord}

lemma scanLoop_record {next : Nat} (hlt : offset < file.length)
    (hstep : scanRecord crc32c format baseLsn file policy index offset = .ok (.record r next)) :
    scanLoop crc32c format baseLsn file policy index records offset
      = scanLoop crc32c format baseLsn file policy (index.insert r) (records ++ [r]) next := by
  rw [scanLoop, if_pos hlt]
  split <;> simp_all

lemma scanLoop_tornTail (hlt : offset < file.length)
    (hstep : scanRecord crc32c format baseLsn file policy index offset = .ok .tornTail) :
    scanLoop crc32c format baseLsn file policy index records offset
      = .ok ⟨records, offset, true⟩ := by
  rw [scanLoop, if_pos hlt]
  split <;> simp_all

lemma scanLoop_end (hend : file.length ≤ offset) :
    scanLoop crc32c format baseLsn file policy index records offset
      = .ok ⟨records, offset, false⟩ := by
  rw [scanLoop, if_neg (not_lt.mpr hend)]

lemma scanLoop_whole {before : List WalRecord} (hlegal : Legal format baseLsn index offset records)
    (hfile : file.drop offset = logBytes crc32c records) (hle : offset ≤ file.length) :
    scanLoop crc32c format baseLsn file policy index before offset
      = .ok ⟨before ++ records, file.length, false⟩ := by
  induction records generalizing index before offset with
  | nil =>
    have hend : file.length ≤ offset := drop_eq_nil_iff.mp hfile
    rw [scanLoop_end hend, append_nil, le_antisymm hle hend]
  | cons r rest ih =>
    obtain ⟨haccepted, hrest⟩ := hlegal
    rw [logBytes_cons] at hfile
    have hpos := (encodedRecordLen_le r.kind).1
    have hlen : file.length - offset
        = r.kind.encodedRecordLen + (logBytes crc32c rest).length := by
      rw [← length_drop, hfile, length_append, length_encodedBytes]
    have hlt : offset < file.length := by
      have : 0 < recordHeaderSize := by decide
      omega
    have hdrop : file.drop (offset + r.kind.encodedRecordLen) = logBytes crc32c rest := by
      rw [← drop_drop, hfile, ← length_encodedBytes crc32c, drop_left]
    rw [scanLoop_record hlt (scanRecord_whole haccepted hfile),
      ih hrest hdrop (by omega), append_assoc, singleton_append]

lemma scanLoop_torn {before inside : List WalRecord}
    (hlegal : Legal format baseLsn index offset (inside ++ [r])) (hpos : 0 < n)
    (hn : n < r.kind.encodedRecordLen)
    (hfile : file.drop offset = logBytes crc32c inside ++ (encodedBytes crc32c r).take n)
    (hle : offset ≤ file.length) :
    scanLoop crc32c format baseLsn file .allowIncompleteFinalRecord index before offset
      = .ok ⟨before ++ inside, offset + (logBytes crc32c inside).length, true⟩ := by
  induction inside generalizing index before offset with
  | nil =>
    have htail : file.drop offset = (encodedBytes crc32c r).take n := hfile
    have hlen : file.length - offset = n := by
      rw [← length_drop, htail, length_take, length_encodedBytes, min_eq_left hn.le]
    rw [scanLoop_tornTail (by omega) (scanRecord_torn hlegal.1 hn htail)]
    simp [logBytes]
  | cons s rest ih =>
    obtain ⟨haccepted, hrest⟩ := hlegal
    rw [logBytes_cons, append_assoc] at hfile
    have hlen : s.kind.encodedRecordLen ≤ file.length - offset := by
      rw [← length_drop, hfile, length_append, length_encodedBytes]
      omega
    have hheader := (encodedRecordLen_le s.kind).1
    have hsize : 0 < recordHeaderSize := by decide
    have hdrop : file.drop (offset + s.kind.encodedRecordLen)
        = logBytes crc32c rest ++ (encodedBytes crc32c r).take n := by
      rw [← drop_drop, hfile, ← length_encodedBytes crc32c, drop_left]
    rw [scanLoop_record (by omega) (scanRecord_whole haccepted hfile), ih hrest hdrop (by omega)]
    simp [logBytes_cons, length_encodedBytes, Nat.add_assoc]

lemma legal_append (crc32c : Crc32c) {a b : List WalRecord} :
    Legal format baseLsn index offset (a ++ b) ↔
      Legal format baseLsn index offset a
        ∧ Legal format baseLsn (a.foldl LogIndex.insert index)
          (offset + (logBytes crc32c a).length) b := by
  induction a generalizing index offset with
  | nil => simp [Legal, logBytes]
  | cons r a ih =>
    simp only [cons_append, Legal, ih, foldl_cons, logBytes_cons,
      length_append, length_encodedBytes, Nat.add_assoc, and_assoc]

/-- Every record of a legal log ends behind the start and inside the log. -/
lemma Legal.recordEnd_bounds (crc32c : Crc32c) (h : Legal format baseLsn index offset records) :
    ∀ r ∈ records, offset + r.kind.encodedRecordLen ≤ recordEnd baseLsn r
      ∧ recordEnd baseLsn r ≤ offset + (logBytes crc32c records).length := by
  induction records generalizing index offset with
  | nil => simp
  | cons s rest ih =>
    obtain ⟨haccepted, hrest⟩ := h
    have hbytes : (logBytes crc32c (s :: rest)).length
        = s.kind.encodedRecordLen + (logBytes crc32c rest).length := by
      simp [logBytes]
    intro r hr
    rcases mem_cons.mp hr with rfl | hr
    · rw [haccepted.recordEnd_eq]
      omega
    · have hbounds := ih hrest r hr
      omega

/-- A prefix of a log is whole records and a proper prefix of the next one. -/
lemma logBytes_take (crc32c : Crc32c) (records : List WalRecord) (n : Nat)
    (hn : n ≤ (logBytes crc32c records).length) :
    ∃ inside outside k, records = inside ++ outside
      ∧ (logBytes crc32c records).take n
        = logBytes crc32c inside ++ (logBytes crc32c outside).take k
      ∧ n = (logBytes crc32c inside).length + k
      ∧ ∀ r ∈ outside.head?, k < r.kind.encodedRecordLen := by
  induction records generalizing n with
  | nil =>
    obtain rfl : n = 0 := by simpa [logBytes] using hn
    exact ⟨[], [], 0, rfl, rfl, rfl, by simp⟩
  | cons r rest ih =>
    by_cases hfit : n < r.kind.encodedRecordLen
    · refine ⟨[], r :: rest, n, rfl, rfl, by simp [logBytes], ?_⟩
      intro s hs
      obtain rfl : r = s := by simpa using hs
      exact hfit
    · have hlen : (logBytes crc32c (r :: rest)).length
          = r.kind.encodedRecordLen + (logBytes crc32c rest).length := by
        simp [logBytes]
      obtain ⟨inside, outside, k, hsplit, htake, hk, hnext⟩ :=
        ih (n - r.kind.encodedRecordLen) (by omega)
      refine ⟨r :: inside, outside, k, by rw [hsplit, cons_append], ?_, ?_, hnext⟩
      · rw [logBytes_cons, logBytes_cons, take_append, length_encodedBytes, htake,
          take_of_length_le (by rw [length_encodedBytes]; omega), append_assoc]
      · rw [logBytes_cons, length_append, length_encodedBytes]
        omega

end Legal

/-- What a scan of the first `n` bytes of a file should find of its records:
those that lie wholly inside, and the end of the last of them. -/
def prefixScan (baseLsn : Lsn) (records : List WalRecord) (n : Nat) : ScanResult :=
  let inside := records.filter (recordEnd baseLsn · ≤ n)
  let validEnd := (inside.getLast?.map (recordEnd baseLsn)).getD walHeaderSize
  ⟨inside, validEnd, decide (validEnd < n)⟩

/-- A generation file that holds exactly the given records. -/
structure LogFile (crc32c : Crc32c) (format : PageFormat) (header : WalHeader)
    (records : List WalRecord) (file : List UInt8) : Prop where
  bytes : file = headerBytes header (crc32c (headerBytes header 0)).toNat
    ++ logBytes crc32c records
  valid : validateHeader header = .ok ()
  legal : Legal format header.baseLsn .empty walHeaderSize records

namespace LogFile

variable {crc32c : Crc32c} {format : PageFormat} {header : WalHeader}
  {records inside outside : List WalRecord} {file : List UInt8}

section

variable (h : LogFile crc32c format header records file)
include h

lemma length_eq : file.length = walHeaderSize + (logBytes crc32c records).length := by
  rw [h.bytes, length_append, length_headerBytes]

lemma drop_header : file.drop walHeaderSize = logBytes crc32c records := by
  rw [h.bytes, ← length_sealedHeader crc32c header, drop_left]

variable {n : Nat}

lemma take_eq (hn : walHeaderSize ≤ n) : file.take n = sealedHeader crc32c header
      ++ (logBytes crc32c records).take (n - walHeaderSize) := by
  rw [h.bytes, take_append, length_headerBytes, take_of_length_le (by rwa [length_headerBytes])]

lemma readHeader_take (hn : walHeaderSize ≤ n) : readHeader crc32c (file.take n)
      = .ok { header with checkpointLsn := header.checkpointLsn.filter (· ≠ 0) } := by
  rw [h.take_eq hn]
  exact readHeader_headerBytes crc32c h.valid _

end

/-- The records that lie inside a prefix of a log that ends with them. -/
lemma filter_inside (h : LogFile crc32c format header (inside ++ outside) file) {k : Nat}
    (hnext : ∀ r ∈ outside.head?, k < r.kind.encodedRecordLen) :
    (inside ++ outside).filter
        (recordEnd header.baseLsn · ≤ walHeaderSize + (logBytes crc32c inside).length + k)
      = inside := by
  obtain ⟨hinside, houtside⟩ := (legal_append crc32c).mp h.legal
  rw [filter_append, filter_eq_self.mpr, filter_eq_nil_iff.mpr, append_nil]
  · intro r hr
    cases outside with
    | nil => simp at hr
    | cons s rest =>
      have hs := hnext s rfl
      have hend : walHeaderSize + (logBytes crc32c inside).length + s.kind.encodedRecordLen
          ≤ recordEnd header.baseLsn r := by
        rcases mem_cons.mp hr with rfl | hr
        · rw [houtside.1.recordEnd_eq]
        · have hbounds := (houtside.2.recordEnd_bounds crc32c r hr).1
          omega
      simp only [decide_eq_true_eq, not_le]
      omega
  · intro r hr
    have hbounds := (hinside.recordEnd_bounds crc32c r hr).2
    simp only [decide_eq_true_eq]
    omega

lemma lastEnd (h : LogFile crc32c format header records file) :
    (records.getLast?.map (recordEnd header.baseLsn)).getD walHeaderSize = file.length := by
  rcases eq_nil_or_concat' records with rfl | ⟨front, r, rfl⟩
  · simpa [logBytes] using h.length_eq.symm
  · obtain ⟨-, hlast, -⟩ := (legal_append crc32c).mp h.legal
    rw [getLast?_concat, Option.map_some, Option.getD_some, hlast.recordEnd_eq, h.length_eq]
    simp [logBytes, Nat.add_assoc]

lemma front (h : LogFile crc32c format header (inside ++ outside) file) :
    LogFile crc32c format header inside
      (file.take (walHeaderSize + (logBytes crc32c inside).length)) := by
  refine ⟨?_, h.valid, ((legal_append crc32c).mp h.legal).1⟩
  rw [h.take_eq (Nat.le_add_right _ _), Nat.add_sub_cancel_left]
  congr 1
  rw [logBytes_append, take_left]

lemma scanFile_eq (h : LogFile crc32c format header records file) (policy : TailPolicy) :
    scanFile crc32c format file policy = .ok ⟨records, file.length, false⟩ := by
  have hle : walHeaderSize ≤ file.length := by
    rw [h.length_eq]
    omega
  have hheader := h.readHeader_take hle
  rw [take_length] at hheader
  refine Outcome.bind_eq_ok.mpr ⟨_, hheader, ?_⟩
  exact scanLoop_whole h.legal h.drop_header hle

section

variable (h : LogFile crc32c format header records file) (hheader : walHeaderSize ≤ n)
  (hn : n ≤ file.length)
include h hheader hn

/-- A cut of the file: the whole records in front of it and what they leave of
the next one. -/
lemma cut : ∃ inside outside k, records = inside ++ outside
      ∧ n = walHeaderSize + (logBytes crc32c inside).length + k
      ∧ (logBytes crc32c records).take (n - walHeaderSize)
        = logBytes crc32c inside ++ (logBytes crc32c outside).take k
      ∧ (∀ r ∈ outside.head?, k < r.kind.encodedRecordLen)
      ∧ prefixScan header.baseLsn records n
        = ⟨inside, walHeaderSize + (logBytes crc32c inside).length, decide (0 < k)⟩ := by
  have hlen := h.length_eq
  obtain ⟨inside, outside, k, rfl, htake, hk, hnext⟩ :=
    logBytes_take crc32c records (n - walHeaderSize) (by omega)
  have hfront := h.front
  have hend : (inside.getLast?.map (recordEnd header.baseLsn)).getD walHeaderSize
      = walHeaderSize + (logBytes crc32c inside).length := by
    rw [hfront.lastEnd, hfront.length_eq]
  obtain rfl : n = walHeaderSize + (logBytes crc32c inside).length + k := by omega
  refine ⟨inside, outside, k, rfl, rfl, htake, hnext, ?_⟩
  rw [prefixScan, h.filter_inside hnext, hend]
  simp

/-- Scanning a prefix of the file returns the records that lie wholly inside. -/
lemma scanFile_take : scanFile crc32c format (file.take n) .allowIncompleteFinalRecord
      = .ok (prefixScan header.baseLsn records n) := by
  have hlen := h.length_eq
  obtain ⟨inside, outside, k, rfl, rfl, htake, hnext, hscan⟩ := h.cut hheader hn
  have hfront := h.front
  rw [hscan]
  rcases Nat.eq_zero_or_pos k with rfl | hpos
  · rw [Nat.add_zero, hfront.scanFile_eq, hfront.length_eq]
    rfl
  cases outside with
  | nil =>
    rw [append_nil] at hlen
    exact absurd hn (by omega)
  | cons r rest =>
    have hr := hnext r rfl
    have hlegal : Legal format header.baseLsn .empty walHeaderSize (inside ++ [r]) := by
      have hcons := h.legal
      rw [← singleton_append, ← append_assoc, legal_append crc32c] at hcons
      exact hcons.1
    have hbytes : file.take (walHeaderSize + (logBytes crc32c inside).length + k)
        = sealedHeader crc32c header
          ++ (logBytes crc32c inside ++ (encodedBytes crc32c r).take k) := by
      rw [h.take_eq hheader, htake, logBytes_cons,
        take_append_of_le_length (by rw [length_encodedBytes]; omega)]
    refine Outcome.bind_eq_ok.mpr ⟨_, h.readHeader_take hheader, ?_⟩
    rw [scanLoop_torn hlegal hpos hr]
    · simp [hpos]
    · rw [hbytes, ← length_sealedHeader crc32c header, drop_left]
    · rw [length_take]
      omega

lemma validEnd_eq : (file.take (prefixScan header.baseLsn records n).validEnd).length
        = (prefixScan header.baseLsn records n).validEnd
      ∧ (prefixScan header.baseLsn records n).validEnd ≤ n := by
  obtain ⟨inside, outside, k, rfl, rfl, -, -, hscan⟩ := h.cut hheader hn
  rw [hscan]
  exact ⟨h.front.length_eq, Nat.le_add_right _ _⟩

/-- The file cut back to the whole records in front of a cut. -/
lemma prefixFile : LogFile crc32c format header (prefixScan header.baseLsn records n).records
      (file.take (prefixScan header.baseLsn records n).validEnd) := by
  obtain ⟨inside, outside, k, rfl, rfl, -, -, hscan⟩ := h.cut hheader hn
  rw [hscan]
  exact h.front

end

end LogFile

end Netbadb.Wal
