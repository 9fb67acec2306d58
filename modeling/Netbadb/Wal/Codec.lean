import Netbadb.Wal.Manager

/-!
What the readers return on encoded bytes. Every field of a record is read back,
a prefix of a record header passes the partial check, and a header is read
back as it was written.
-/

namespace Netbadb.Wal

open Bytes List WalRecordKind Outcome

lemma length_payload (kind : WalRecordKind) : kind.payload.length = kind.payloadLen := by
  cases kind with
  | pageUpdate pageId before after | pageAllocationTransition pageId before after =>
    simp only [payload, payloadLen, pageUpdatePayloadSize,
      length_append, length_leBytes, before.size, after.size]
    omega
  | prepare databaseTxnId => exact length_leBytes 8 _
  | _ => rfl

lemma length_recordBytes (r : WalRecord) (c : Nat) :
    (recordBytes r c).length = r.kind.encodedRecordLen := by
  simp only [recordBytes, recordMagic, length_append, length_leBytes, length_payload,
    length_cons, length_nil, encodedRecordLen, recordHeaderSize]
  omega

lemma encodedRecordLen_le (kind : WalRecordKind) :
    recordHeaderSize ≤ kind.encodedRecordLen ∧ kind.encodedRecordLen ≤ walMaxRecordSize := by
  unfold encodedRecordLen walMaxRecordSize
  cases kind <;> simp [payloadLen, preparePayloadSize, pageUpdatePayloadSize]

section Fields

variable (r : WalRecord) (c : Nat)

lemma slice_magic : slice (recordBytes r c) 0 4 = recordMagic := by
  unfold recordBytes
  simp only [append_assoc]
  exact slice_append_left rfl

lemma slice_version : slice (recordBytes r c) 4 2 = leBytes 2 r.kind.recordVersion := by
  simp [recordBytes, recordMagic, slice_cons, slice_append_left]

lemma slice_length : slice (recordBytes r c) 8 4 = leBytes 4 r.kind.encodedRecordLen := by
  simp [recordBytes, recordMagic, slice_cons, slice_append_right, slice_append_left]

lemma slice_checksum : slice (recordBytes r c) 12 4 = leBytes 4 c := by
  simp [recordBytes, recordMagic, slice_cons, slice_append_right, slice_append_left]

lemma slice_lsn : slice (recordBytes r c) 16 8 = leBytes 8 r.lsn.toNat := by
  simp [recordBytes, recordMagic, slice_cons, slice_append_right, slice_append_left]

lemma slice_txnId : slice (recordBytes r c) 24 8 = leBytes 8 r.txnId.toNat := by
  simp [recordBytes, recordMagic, slice_cons, slice_append_right, slice_append_left]

lemma slice_prevLsn :
    slice (recordBytes r c) 32 8 = leBytes 8 ((r.prevLsn.map UInt64.toNat).getD 0) := by
  simp [recordBytes, recordMagic, slice_cons, slice_append_right, slice_append_left]

lemma getD_tag : (recordBytes r c).getD 6 0 = r.kind.tag := by
  simp [recordBytes, recordMagic, leBytes]

lemma getD_reserved : (recordBytes r c).getD 7 0 = 0 := by
  simp [recordBytes, recordMagic, leBytes]

lemma drop_recordBytes : (recordBytes r c).drop recordHeaderSize = r.kind.payload := by
  simp [recordBytes, recordMagic, recordHeaderSize, drop_append, drop_eq_nil_of_le]

lemma patch_checksum (c' : Nat) :
    patch (recordBytes r c) recordChecksumOffset (leBytes 4 c') = recordBytes r c' := by
  exact patch_field (by rw [length_leBytes, length_leBytes])

end Fields

variable {bytes : List UInt8} {offset : Nat} {header : WalHeader}

lemma readU64_of_slice {n : UInt64} (h : slice bytes offset 8 = leBytes 8 n.toNat) :
    readU64 bytes offset = n := by
  rw [readU64, h, leNat_leBytes n.toNat_lt, UInt64.ofNat_toNat]

/-- The version and tag of a kind pass the version checks. -/
lemma knownVersion_recordVersion (kind : WalRecordKind) :
    knownVersion kind.recordVersion = true := by
  cases kind <;> rfl

lemma typeTooNew_recordVersion (kind : WalRecordKind) :
    typeTooNew kind.recordVersion kind.tag = false := by
  cases kind <;> rfl

lemma expectedPayloadForTag_tag (lsn : Lsn) (kind : WalRecordKind) :
    expectedPayloadForTag lsn kind.tag = .ok kind.payloadLen := by
  cases kind <;> rfl

lemma validateLength_encodedRecordLen (lsn : Lsn) (kind : WalRecordKind) :
    validateLength lsn kind.tag kind.encodedRecordLen = .ok () := by
  have hlen := encodedRecordLen_le kind
  simp only [validateLength, expectedPayloadForTag_tag, check_eq_ok, bind_eq_ok, guard_eq_ok]
  exact ⟨by omega, by omega, kind.payloadLen, rfl, by simp [encodedRecordLen], rfl⟩

section Prefix

variable (r : WalRecord) (c : Nat) {n : Nat}

lemma readU16_version_take (h : 6 ≤ n) :
    readU16 ((recordBytes r c).take n) 4 = r.kind.recordVersion := by
  rw [readU16, slice_take h, slice_version, leNat_leBytes]
  cases r.kind <;> simp [recordVersion, recordFormatVersion]

lemma readU32_length_take (h : 12 ≤ n) :
    readU32 ((recordBytes r c).take n) 8 = r.kind.encodedRecordLen := by
  have hlen := (encodedRecordLen_le r.kind).2
  rw [readU32, slice_take h, slice_length, leNat_leBytes]
  simp only [walMaxRecordSize, recordHeaderSize, pageUpdatePayloadSize, pageSize] at hlen
  omega

lemma getD_tag_take (h : 7 ≤ n) : ((recordBytes r c).take n).getD 6 0 = r.kind.tag := by
  rw [getD_eq_getElem?_getD, getElem?_take_of_lt (by omega), ← getD_eq_getElem?_getD, getD_tag]

lemma getD_reserved_take (h : 8 ≤ n) : ((recordBytes r c).take n).getD 7 0 = 0 := by
  rw [getD_eq_getElem?_getD, getElem?_take_of_lt (by omega),
    ← getD_eq_getElem?_getD, getD_reserved]

lemma validateRecordFraming_take (lsn : Lsn) :
    validateRecordFraming lsn ((recordBytes r c).take recordHeaderSize)
      = .ok (r.kind.tag, r.kind.encodedRecordLen) := by
  have hmagic : slice ((recordBytes r c).take recordHeaderSize) 0 4 = recordMagic := by
    rw [slice_take (by decide), slice_magic]
  have hversion := readU16_version_take r c (show 6 ≤ recordHeaderSize by decide)
  have htag := getD_tag_take r c (show 7 ≤ recordHeaderSize by decide)
  have hreserved := getD_reserved_take r c (show 8 ≤ recordHeaderSize by decide)
  have hlength := readU32_length_take r c (show 12 ≤ recordHeaderSize by decide)
  simp only [validateRecordFraming, hmagic, hversion, htag, hreserved, hlength,
    check_eq_ok, bind_eq_ok]
  refine ⟨by simp, by simp [knownVersion_recordVersion], by simp,
    by simp [typeTooNew_recordVersion], _, expectedPayloadForTag_tag lsn r.kind, _,
    validateLength_encodedRecordLen lsn r.kind, rfl⟩

/-- No cut inside a record header is taken for corruption. -/
lemma validatePartialRecordHeader_take (lsn : Lsn) :
    validatePartialRecordHeader lsn ((recordBytes r c).take n) = .ok () := by
  have hn : ∀ k, k ≤ ((recordBytes r c).take n).length → k ≤ n := by
    intro k hk
    exact hk.trans (length_take_le n _)
  have hmagic : ((recordBytes r c).take n).take 4 = recordMagic.take n := by
    have hfour : (recordBytes r c).take 4 = recordMagic := slice_magic r c
    rw [take_take, min_comm, ← take_take, hfour]
  have hversion (h : 6 ≤ ((recordBytes r c).take n).length) := readU16_version_take r c (hn 6 h)
  have htag (h : 7 ≤ ((recordBytes r c).take n).length) := getD_tag_take r c (hn 7 h)
  have hreserved (h : 8 ≤ ((recordBytes r c).take n).length) := getD_reserved_take r c (hn 8 h)
  have hlength (h : 12 ≤ ((recordBytes r c).take n).length) := readU32_length_take r c (hn 12 h)
  have hmagicLen : ((recordBytes r c).take n).take (min ((recordBytes r c).take n).length 4)
      = recordMagic.take (min ((recordBytes r c).take n).length 4) := by
    rw [← take_take, hmagic, take_take, min_eq_left (hn _ le_rfl), ← take_take]
    rfl
  generalize (recordBytes r c).take n = bytes at *
  simp only [validatePartialRecordHeader, check_eq_ok, bind_eq_ok]
  refine ⟨not_not.mpr hmagicLen, ?_, ?_, ?_⟩
  · rintro ⟨h6, hunknown⟩
    rw [hversion h6] at hunknown
    exact hunknown (knownVersion_recordVersion r.kind)
  · rintro ⟨h7, hnew⟩
    rw [hversion (by omega), htag h7, typeTooNew_recordVersion] at hnew
    contradiction
  have htype : ∃ len, partialPayload lsn bytes = .ok len := by
    unfold partialPayload
    split_ifs with h7
    · rw [htag h7, expectedPayloadForTag_tag]
      exact ⟨some r.kind.payloadLen, rfl⟩
    · exact ⟨none, rfl⟩
  obtain ⟨len, hlen⟩ := htype
  refine ⟨len, hlen, fun h => h.2 (hreserved h.1), ?_⟩
  split_ifs with h12
  · rw [hlength h12, htag (by omega)]
    exact validateLength_encodedRecordLen lsn r.kind
  · rfl

end Prefix

lemma verifyRecordChecksum_recordBytes (crc32c : Crc32c) (lsn : Lsn) (r : WalRecord) :
    verifyRecordChecksum crc32c lsn (recordBytes r (crc32c (recordBytes r 0)).toNat) = .ok () := by
  have hstored : readU32 (recordBytes r (crc32c (recordBytes r 0)).toNat) recordChecksumOffset
      = (crc32c (recordBytes r 0)).toNat := by
    rw [readU32, recordChecksumOffset, slice_checksum, leNat_leBytes]
    exact UInt32.toNat_lt _
  simp [verifyRecordChecksum, hstored, patch_checksum, pure, Except.pure]

/-- A page image read at its own offset. -/
lemma readPageImage_of_slice {image : PageImage} (h : slice bytes offset pageSize = image.bytes) :
    readPageImage bytes offset = image := by
  have htake : image.bytes.takeD pageSize 0 = image.bytes := by
    rw [takeD_eq_take _ image.size.ge, take_of_length_le image.size.le]
  cases image
  simp_all only [readPageImage]

lemma slice_pageId (pageId : PageId) (before after : PageImage) :
    slice (leBytes 8 pageId.toNat ++ before.bytes ++ after.bytes) 0 8
      = leBytes 8 pageId.toNat := by
  rw [append_assoc, slice_append_left (length_leBytes 8 _)]

lemma slice_before (pageId : PageId) (before after : PageImage) :
    slice (leBytes 8 pageId.toNat ++ before.bytes ++ after.bytes) 8 pageSize
      = before.bytes := by
  rw [append_assoc, slice_append_right (by rw [length_leBytes]), length_leBytes,
    slice_append_left before.size]

lemma slice_after (pageId : PageId) (before after : PageImage) :
    slice (leBytes 8 pageId.toNat ++ before.bytes ++ after.bytes) (8 + pageSize) pageSize
      = after.bytes := by
  have hlen : (leBytes 8 pageId.toNat ++ before.bytes).length = 8 + pageSize := by
    rw [length_append, length_leBytes, before.size]
  rw [slice_append_right hlen.le, hlen, Nat.sub_self, slice_self after.size]

lemma decodeKind_payload (lsn : Lsn) (kind : WalRecordKind)
    (h : ∀ databaseTxnId, kind = .prepare databaseTxnId → databaseTxnId ≠ 0) :
    decodeKind lsn kind.tag kind.payload = .ok kind := by
  cases kind with
  | pageUpdate pageId before after | pageAllocationTransition pageId before after =>
    change Except.ok _ = Except.ok _
    rw [payload, readU64_of_slice (slice_pageId pageId before after),
      readPageImage_of_slice (slice_before pageId before after),
      readPageImage_of_slice (slice_after pageId before after)]
  | prepare databaseTxnId =>
    have hread : readU64 (prepare databaseTxnId).payload 0 = databaseTxnId := by
      apply readU64_of_slice
      rw [payload, slice_self (length_leBytes 8 _)]
    simp only [tag, decodeKind, hread, if_neg (h databaseTxnId rfl)]
    rfl
  | _ => rfl

lemma length_headerBytes (header : WalHeader) (c : Nat) :
    (headerBytes header c).length = walHeaderSize := by
  simp only [headerBytes, walMagic, length_append, length_leBytes, length_cons,
    length_nil, walHeaderSize]

lemma length_sealedHeader (crc32c : Crc32c) (header : WalHeader) :
    (sealedHeader crc32c header).length = walHeaderSize := length_headerBytes header _

section Header

variable (header : WalHeader) (c : Nat)

lemma slice_header_magic : slice (headerBytes header c) 0 4 = walMagic := by
  unfold headerBytes
  simp only [append_assoc]
  exact slice_append_left rfl

lemma slice_header_version : slice (headerBytes header c) 4 2 = leBytes 2 walFormatVersion := by
  simp [headerBytes, walMagic, slice_cons, slice_append_left]

lemma slice_header_size : slice (headerBytes header c) 6 2 = leBytes 2 walHeaderSize := by
  simp [headerBytes, walMagic, slice_cons, slice_append_right, slice_append_left]

lemma slice_header_generation :
    slice (headerBytes header c) 8 8 = leBytes 8 header.generation.toNat := by
  simp [headerBytes, walMagic, slice_cons, slice_append_right, slice_append_left]

lemma slice_header_baseLsn :
    slice (headerBytes header c) 16 8 = leBytes 8 header.baseLsn.toNat := by
  simp [headerBytes, walMagic, slice_cons, slice_append_right, slice_append_left]

lemma slice_header_checkpointLsn : slice (headerBytes header c) 24 8
      = leBytes 8 ((header.checkpointLsn.map UInt64.toNat).getD 0) := by
  simp [headerBytes, walMagic, slice_cons, slice_append_right, slice_append_left]

lemma slice_header_nextTxnId :
    slice (headerBytes header c) 32 8 = leBytes 8 header.nextTxnId.toNat := by
  simp [headerBytes, walMagic, slice_cons, slice_append_right, slice_append_left]

lemma slice_header_checksum : slice (headerBytes header c) 40 4 = leBytes 4 c := by
  simp [headerBytes, walMagic, slice_cons, slice_append_right, slice_append_left]

lemma slice_header_reserved : slice (headerBytes header c) 44 4 = leBytes 4 0 := by
  simp [headerBytes, walMagic, slice_cons, slice_append_right, slice_self]

lemma patch_header_checksum (c' : Nat) :
    patch (headerBytes header c) headerChecksumOffset (leBytes 4 c') = headerBytes header c' := by
  exact patch_field (by rw [length_leBytes, length_leBytes])

end Header

/-- Reading an optional position that is written as zero when absent. -/
lemma readU64_optional {lsn : Option Lsn}
    (h : slice bytes offset 8 = leBytes 8 ((lsn.map UInt64.toNat).getD 0)) :
    (if readU64 bytes offset ≠ 0 then some (readU64 bytes offset) else none)
      = lsn.filter (· ≠ 0) := by
  have hread : readU64 bytes offset = lsn.getD 0 := by
    apply readU64_of_slice
    rw [h]
    cases lsn <;> rfl
  rw [hread]
  cases lsn with
  | none => rfl
  | some lsn => by_cases h0 : lsn = 0 <;> simp [h0, Option.filter]

lemma validateHeader_eq_ok : validateHeader header = .ok () ↔
      header.generation ≠ 0 ∧ header.baseLsn ≠ 0
        ∧ (∀ checkpoint ∈ header.checkpointLsn, ¬ header.baseLsn ≤ checkpoint)
        ∧ header.nextTxnId ≠ 0 := by
  simp only [validateHeader, check_eq_ok, guard_eq_ok, pure_eq_ok,
    not_or, not_exists, not_and, and_true, and_assoc, ne_eq]

/-- A written header is read back. A checkpoint of zero is the absent one. -/
lemma readHeader_headerBytes (crc32c : Crc32c) (hvalid : validateHeader header = .ok ())
    (rest : List UInt8) :
    readHeader crc32c (headerBytes header (crc32c (headerBytes header 0)).toNat ++ rest)
      = .ok { header with checkpointLsn := header.checkpointLsn.filter (· ≠ 0) } := by
  generalize hc : (crc32c (headerBytes header 0)).toNat = c
  have hfile : slice (headerBytes header c ++ rest) 0 walHeaderSize = headerBytes header c :=
    slice_append_left (length_headerBytes header c)
  have hversion : readU16 (headerBytes header c) 4 = walFormatVersion := by
    rw [readU16, slice_header_version]
    rfl
  have hsize : readU16 (headerBytes header c) 6 = walHeaderSize := by
    rw [readU16, slice_header_size]
    rfl
  have hchecksum : readU32 (headerBytes header c) headerChecksumOffset = c := by
    rw [readU32, headerChecksumOffset, slice_header_checksum, leNat_leBytes]
    rw [← hc]
    exact UInt32.toNat_lt _
  have hreserved : slice (headerBytes header c) headerChecksumEnd
      (walHeaderSize - headerChecksumEnd) = leBytes 4 0 := slice_header_reserved header c
  have hlen : ¬ (headerBytes header c ++ rest).length < walHeaderSize := by
    rw [length_append, length_headerBytes]
    omega
  have hvalid' : validateHeader
      { header with checkpointLsn := header.checkpointLsn.filter (· ≠ 0) } = .ok () := by
    obtain ⟨hgeneration, hbase, hcheckpoint, hnext⟩ := validateHeader_eq_ok.mp hvalid
    refine validateHeader_eq_ok.mpr ⟨hgeneration, hbase, ?_, hnext⟩
    intro checkpoint hmem
    exact hcheckpoint checkpoint (Option.mem_filter_iff.mp hmem).1
  simp only [readHeader, hfile, slice_header_magic, hversion, hsize, hchecksum, hreserved,
    patch_header_checksum, hc, readU64_optional (slice_header_checkpointLsn header c),
    readU64_of_slice (slice_header_generation header c),
    readU64_of_slice (slice_header_baseLsn header c),
    readU64_of_slice (slice_header_nextTxnId header c), check_eq_ok, bind_eq_ok]
  exact ⟨hlen, by simp, by simp, by simp, by decide, by simp, (), hvalid', rfl⟩

end Netbadb.Wal
