import Netbadb.Page.Slotted

/-!
What a page stores: a list of slots, each with a generation and perhaps a
payload. The page lays the slots out in order, the payloads downwards from its
end, and the validation accepts every page so laid out.
-/

namespace Netbadb.Slotted

open Bytes Wal List Page

namespace Page

variable {page : Page} {offset : Nat} {new : List UInt8}

lemma write_bytes (h : offset + new.length ≤ pageSize) :
    (page.write offset new).bytes = patch page.bytes offset new := by
  unfold write
  rw [dif_pos h]

@[simp] lemma write_id : (page.write offset new).id = page.id := by
  unfold write
  split <;> rfl

lemma slice_write_self (h : offset + new.length ≤ pageSize) :
    slice (page.write offset new).bytes offset new.length = new := by
  rw [write_bytes h, slice_patch_self (by rw [page.size]; omega)]

lemma slice_write_other {start length : Nat}
    (h : start + length ≤ offset ∨ offset + new.length ≤ start) :
    slice (page.write offset new).bytes start length = slice page.bytes start length := by
  unfold write
  split
  · rename_i hfits
    rcases h with h | h
    · exact slice_patch_before h (by rw [page.size]; omega)
    · exact slice_patch_after h (by rw [page.size]; omega)
  · rfl

lemma readNat_write_self {width value : Nat} (h : offset + width ≤ pageSize)
    (hvalue : value < 256 ^ width) :
    (page.write offset (leBytes width value)).readNat offset width = value := by
  have hself := @slice_write_self page offset (leBytes width value) (by simpa using h)
  rw [length_leBytes] at hself
  rw [readNat, hself, leNat_leBytes hvalue]

lemma readNat_write_other {start width : Nat}
    (h : start + width ≤ offset ∨ offset + new.length ≤ start) :
    (page.write offset new).readNat start width = page.readNat start width := by
  rw [readNat, slice_write_other h, readNat]

lemma entryOffset_eq (index : Nat) : entryOffset index = 28 + index * 8 := rfl

/-- A directory entry is read from its eight bytes. -/
lemma slotAt_congr {page' : Page} {index : Nat}
    (h : ∀ start length, 28 + index * 8 ≤ start → start + length ≤ 28 + index * 8 + 8 →
      slice page'.bytes start length = slice page.bytes start length) :
    page'.slotAt index = page.slotAt index := by
  have hbase := entryOffset_eq index
  unfold slotAt readU16 readNat
  rw [h _ _ (by omega) (by omega), h _ _ (by omega) (by omega), h _ _ (by omega) (by omega)]

variable {crc32c : Crc32c}

/-- A refreshed page differs in its checksum field only. -/
lemma slice_refreshChecksum {start length : Nat} (h : start + length ≤ 24 ∨ 28 ≤ start) :
    slice (page.refreshChecksum crc32c).bytes start length = slice page.bytes start length := by
  unfold refreshChecksum
  rw [slice_write_other (by rw [length_leBytes]; omega),
    slice_write_other (by simp only [length_cons, length_nil]; omega)]

lemma computedChecksum_write {field : List UInt8} (h : field.length = 4) :
    (page.write 24 field).computedChecksum crc32c = page.computedChecksum crc32c := by
  have hfits : 24 + field.length ≤ pageSize := by
    rw [h]
    decide
  have htake : (patch page.bytes 24 field).take 24 = page.bytes.take 24 := by
    have hlen : (page.bytes.take 24).length = 24 := by
      rw [length_take, page.size]
      decide
    rw [patch, append_assoc, take_append_of_le_length hlen.ge, take_take, min_self]
  have hdrop : (patch page.bytes 24 field).drop 28 = page.bytes.drop 28 := by
    have hlen : (page.bytes.take 24 ++ field).length = 28 := by
      rw [length_append, length_take, page.size, h]
      decide
    rw [patch, drop_append_of_le_length hlen.ge, drop_eq_nil_of_le hlen.le, nil_append, h]
  unfold computedChecksum
  rw [write_id, write_bytes hfits, htake, hdrop]

lemma verifyChecksum_refreshChecksum :
    (page.refreshChecksum crc32c).verifyChecksum crc32c = .ok () := by
  have hcomputed : (page.refreshChecksum crc32c).computedChecksum crc32c =
      page.computedChecksum crc32c := by
    unfold refreshChecksum
    rw [computedChecksum_write (length_leBytes 4 _), computedChecksum_write rfl]
  have hstored : (page.refreshChecksum crc32c).readNat 24 4 =
      (page.computedChecksum crc32c).toNat := by
    have hlt := (page.computedChecksum crc32c).toNat_lt
    have hzeroed : (page.write 24 [0, 0, 0, 0]).computedChecksum crc32c =
        page.computedChecksum crc32c := computedChecksum_write rfl
    unfold refreshChecksum
    simp only [hzeroed]
    exact readNat_write_self (by decide) (by simpa using hlt)
  unfold verifyChecksum
  rw [hstored, hcomputed]
  simp

end Page

/-- The fields in front of the counts and around the page's log position. -/
structure Preamble (page : Page) (pageType : PageType) (lsn : Nat) : Prop where
  magic : slice page.bytes 0 4 = pageMagic
  version : page.readU16 4 = pageFormatVersion
  tag : page.readNat 6 1 = pageType.tag
  reserved : page.readNat 7 1 = 0
  padding : slice page.bytes 14 2 = [0, 0]
  lsn : page.readNat 16 8 = lsn

namespace Preamble

variable {page page' : Page} {pageType : PageType} {lsn : Nat}

section

variable (h : Preamble page pageType lsn)
include h

lemma with_lsn {lsn' : Nat}
    (hslices : ∀ start length, start + length ≤ 8 ∨ (14 ≤ start ∧ start + length ≤ 16) →
      slice page'.bytes start length = slice page.bytes start length)
    (hlsn : page'.readNat 16 8 = lsn') : Preamble page' pageType lsn' where
  magic := (hslices 0 4 (by decide)).trans h.magic
  version := by
    rw [Page.readU16, readNat, hslices 4 2 (by decide)]
    exact h.version
  tag := by
    rw [readNat, hslices 6 1 (by decide)]
    exact h.tag
  reserved := by
    rw [readNat, hslices 7 1 (by decide)]
    exact h.reserved
  padding := (hslices 14 2 (by decide)).trans h.padding
  lsn := hlsn

lemma of_slices (hslices : ∀ start length, start + length ≤ 8 ∨ (14 ≤ start ∧ start + length ≤ 24) →
      slice page'.bytes start length = slice page.bytes start length) :
    Preamble page' pageType lsn := by
  refine h.with_lsn (fun start length hrange => hslices start length (by omega)) ?_
  rw [readNat, hslices 16 8 (by decide)]
  exact h.lsn

lemma write {offset : Nat} {new : List UInt8}
    (hoffset : (8 ≤ offset ∧ offset + new.length ≤ 14) ∨ 24 ≤ offset) :
    Preamble (page.write offset new) pageType lsn :=
  h.of_slices fun start length hrange => slice_write_other (by omega)

lemma refreshChecksum (crc32c : Crc32c) : Preamble (page.refreshChecksum crc32c) pageType lsn :=
  h.of_slices fun start length hrange => slice_refreshChecksum (by omega)

lemma setPageLsn (crc32c : Crc32c) {lsn' : Nat}
    (hlsn : lsn' < 2 ^ 64) : Preamble (page.setPageLsn crc32c lsn') pageType lsn' := by
  refine Preamble.refreshChecksum ?_ crc32c
  exact h.with_lsn (fun start length hrange => slice_write_other (by omega))
    (readNat_write_self (by decide) (by simpa using hlsn))

end

end Preamble

lemma slice_zero (id : Nat) {start length : Nat} (h : start + length ≤ pageSize) :
    slice (zero id).bytes start length = List.replicate length 0 := by
  have hmin : min length (pageSize - start) = length := by omega
  simp only [zero, slice, drop_replicate, take_replicate, hmin]

lemma tag_lt (pageType : PageType) : pageType.tag < 256 := by cases pageType <;> decide

lemma fromTag_tag (pageType : PageType) : PageType.fromTag pageType.tag = .ok pageType := by
  cases pageType <;> rfl

/-- A new page has the fields in front of its counts. -/
lemma preamble_new (crc32c : Crc32c) (id : Nat) (pageType : PageType) :
    Preamble (new crc32c id pageType) pageType 0 := by
  have hone : ([UInt8.ofNat pageType.tag] : List UInt8) = leBytes 1 pageType.tag := by
    have hmod : pageType.tag % 256 = pageType.tag := Nat.mod_eq_of_lt (tag_lt pageType)
    simp [leBytes, hmod]
  have hstart : Preamble (((zero id).write 0 pageMagic |>.writeU16 4 pageFormatVersion).write 6
      [UInt8.ofNat pageType.tag]) pageType 0 := by
    rw [hone]
    exact
      { magic := by
          rw [slice_write_other (by simp), writeU16, slice_write_other (by simp)]
          exact slice_write_self (by decide)
        version := by
          rw [Page.readU16, readNat_write_other (by simp)]
          exact readNat_write_self (by decide) (by decide)
        tag := readNat_write_self (by decide) (by simpa using tag_lt pageType)
        reserved := by
          rw [readNat_write_other (by simp), writeU16, readNat_write_other (by simp),
            readNat_write_other (by simp [pageMagic]), readNat, slice_zero id (by decide)]
          rfl
        padding := by
          rw [slice_write_other (by simp), writeU16, slice_write_other (by simp),
            slice_write_other (by simp [pageMagic]), slice_zero id (by decide)]
          rfl
        lsn := by
          rw [readNat_write_other (by simp), writeU16, readNat_write_other (by simp),
            readNat_write_other (by simp [pageMagic]), readNat, slice_zero id (by decide)]
          rfl }
  unfold new
  refine Preamble.refreshChecksum ?_ crc32c
  exact ((hstart.write (.inl ⟨by decide, by simp⟩)).write (.inl ⟨by decide, by simp⟩)).write
    (.inl ⟨by decide, by simp⟩)

/-- The directory entries from `index` on describe the slots, and the payloads lie in order
below `freeEnd`. -/
def Laid (page : Page) : (index freeEnd : Nat) → List RebuildSlot → Prop
  | _, _, [] => True
  | index, freeEnd, ⟨generation, some record⟩ :: rest =>
    record.length ≤ freeEnd ∧
      page.slotAt index = ⟨freeEnd - record.length, record.length, generation⟩ ∧
      slice page.bytes (freeEnd - record.length) record.length = record ∧
      Laid page (index + 1) (freeEnd - record.length) rest
  | index, freeEnd, ⟨generation, none⟩ :: rest =>
    page.slotAt index = ⟨deletedSlotOffset, deletedSlotLength, generation⟩ ∧
      Laid page (index + 1) freeEnd rest

@[simp] lemma payloadSize_some (generation : Nat) (record : List UInt8) (rest : List RebuildSlot) :
    payloadSize (⟨generation, some record⟩ :: rest) =
      record.length + payloadSize rest := by
  simp [payloadSize]

@[simp] lemma payloadSize_none (generation : Nat) (rest : List RebuildSlot) :
    payloadSize (⟨generation, none⟩ :: rest) = payloadSize rest := by
  simp [payloadSize]

/-- Writes outside the directory part and the payloads leave the layout. -/
lemma Laid.of_slices {page page' : Page} {index freeEnd : Nat} {slots : List RebuildSlot}
    (h : Laid page index freeEnd slots)
    (hdirectory : ∀ i, index ≤ i → i < index + slots.length → page'.slotAt i = page.slotAt i)
    (hpayload : ∀ start length, freeEnd - payloadSize slots ≤ start →
      start + length ≤ freeEnd →
      slice page'.bytes start length = slice page.bytes start length) :
    Laid page' index freeEnd slots := by
  induction slots generalizing index freeEnd with
  | nil => trivial
  | cons slot rest ih =>
    obtain ⟨generation, payload⟩ := slot
    have hentry := hdirectory index (Nat.le_refl _) (by simp)
    have hrest : ∀ i, index + 1 ≤ i → i < index + 1 + rest.length →
        page'.slotAt i = page.slotAt i := fun i hlow hhigh =>
      hdirectory i (by omega) (by simp only [length_cons]; omega)
    cases payload with
    | some record =>
      obtain ⟨hfits, hslot, hbytes, hlaid⟩ := h
      rw [payloadSize_some] at hpayload
      refine ⟨hfits, hentry.trans hslot, ?_, ih hlaid hrest fun start length hlow hhigh => ?_⟩
      · rw [hpayload _ _ (by omega) (by omega)]
        exact hbytes
      · exact hpayload start length (by omega) (by omega)
    | none =>
      obtain ⟨hslot, hlaid⟩ := h
      rw [payloadSize_none] at hpayload
      exact ⟨hentry.trans hslot, ih hlaid hrest hpayload⟩

/-- What laying out does: the slots are laid out, and everything outside the directory part and
the payload area is as before. -/
structure LaidOut (page page' : Page) (index freeEnd : Nat) (slots : List RebuildSlot) : Prop where
  id : page'.id = page.id
  laid : Laid page' index freeEnd slots
  frame : ∀ start length,
    start + length ≤ 28 + index * 8 ∨ freeEnd ≤ start ∨
      (28 + (index + slots.length) * 8 ≤ start ∧
        start + length ≤ freeEnd - payloadSize slots) →
    slice page'.bytes start length = slice page.bytes start length

variable {page : Page} {index offset length generation : Nat}

lemma slotAt_writeEntry (hfits : 28 + index * 8 + 8 ≤ 4096) (hoffset : offset < 2 ^ 16)
    (hlength : length < 2 ^ 16) (hgeneration : generation < 2 ^ 32) :
    (page.writeEntry index offset length generation).slotAt index =
      ⟨offset, length, generation⟩ := by
  have hbase := entryOffset_eq index
  have hsize : pageSize = 4096 := rfl
  unfold slotAt Page.readU16 writeEntry writeU16 writeU32
  simp only [Slot.mk.injEq]
  refine ⟨?_, ?_, ?_⟩
  · rw [readNat_write_other (by simp), readNat_write_other (by simp),
      readNat_write_self (by omega) (by omega)]
  · rw [readNat_write_other (by simp), readNat_write_self (by omega) (by omega)]
  · exact readNat_write_self (by omega) (by omega)

lemma slice_writeEntry {index offset length generation start count : Nat}
    (h : start + count ≤ 28 + index * 8 ∨ 28 + index * 8 + 8 ≤ start) :
    slice (page.writeEntry index offset length generation).bytes start count =
      slice page.bytes start count := by
  have hbase := entryOffset_eq index
  unfold writeEntry writeU16 writeU32
  rw [slice_write_other (by rw [length_leBytes]; omega),
    slice_write_other (by rw [length_leBytes]; omega),
    slice_write_other (by rw [length_leBytes]; omega)]

lemma writeEntry_id : (page.writeEntry index offset length generation).id = page.id := by
  simp [writeEntry, writeU16, writeU32]

/-- The payloads are laid out downwards from the end, slot by slot. -/
lemma layOut_spec {required available freeEnd index : Nat} {slots : List RebuildSlot}
    (hend : freeEnd ≤ 4096) (hroom : 28 + (index + slots.length) * 8 + payloadSize slots ≤ freeEnd)
    (hgenerations : ∀ slot ∈ slots, slot.generation < 2 ^ 32) :
    ∃ page', page.layOut required available freeEnd index slots =
      .ok (page', freeEnd - payloadSize slots) ∧ LaidOut page page' index freeEnd slots := by
  have hsize : pageSize = 4096 := rfl
  induction slots generalizing page freeEnd index with
  | nil => exact ⟨page, rfl, rfl, trivial, fun _ _ _ => rfl⟩
  | cons slot rest ih =>
    obtain ⟨generation, payload⟩ := slot
    have hgeneration : generation < 2 ^ 32 := hgenerations _ mem_cons_self
    have hrest := fun slot hmem => hgenerations slot (mem_cons_of_mem _ hmem)
    rw [length_cons] at hroom
    cases payload with
    | some record =>
      rw [payloadSize_some] at hroom
      obtain ⟨page', hrun, hout⟩ := @ih
        ((page.write (freeEnd - record.length) record).writeEntry index
          (freeEnd - record.length) record.length generation)
        (freeEnd - record.length) (index + 1) (by omega) (by omega) hrest
      refine ⟨page', ?_, ?_, ?_, ?_⟩
      · rw [layOut]
        simp only
        rw [if_neg (by omega), hrun, payloadSize_some, Nat.sub_sub]
      · rw [hout.id, writeEntry_id, write_id]
      · refine ⟨by omega, ?_, ?_, hout.laid⟩
        · rw [slotAt_congr fun start length hlow hhigh => hout.frame start length (by omega)]
          exact slotAt_writeEntry (by omega) (by omega) (by omega) hgeneration
        · rw [hout.frame _ _ (by omega), slice_writeEntry (by omega), slice_write_self (by omega)]
      · intro start length hrange
        rw [payloadSize_some, length_cons] at hrange
        rw [hout.frame _ _ (by omega), slice_writeEntry (by omega), slice_write_other (by omega)]
    | none =>
      rw [payloadSize_none] at hroom
      obtain ⟨page', hrun, hout⟩ := @ih
        (page.writeEntry index deletedSlotOffset deletedSlotLength generation)
        freeEnd (index + 1) hend (by omega) hrest
      refine ⟨page', ?_, ?_, ?_, ?_⟩
      · rw [layOut]
        simp only
        rw [hrun, payloadSize_none]
      · rw [hout.id, writeEntry_id]
      · refine ⟨?_, hout.laid⟩
        rw [slotAt_congr fun start length hlow hhigh => hout.frame start length (by omega)]
        exact slotAt_writeEntry (by omega) (by decide) (by decide) hgeneration
      · intro start length hrange
        rw [payloadSize_none, length_cons] at hrange
        rw [hout.frame _ _ (by omega), slice_writeEntry (by omega)]

end Netbadb.Slotted
