import Netbadb.Page.Layout

/-!
The page operations on the list of slots a page denotes.
-/

namespace Netbadb.Slotted

open Bytes Wal List Page

/-- The page stores exactly these slots. -/
structure Denotes (crc32c : Crc32c) (page : Page) (pageType : PageType) (lsn : Nat)
    (slots : List RebuildSlot) : Prop where
  preamble : Preamble page pageType lsn
  slotCount : page.readU16 8 = slots.length
  freeStart : page.readU16 10 = 28 + slots.length * 8
  freeEnd : page.readU16 12 = 4096 - payloadSize slots
  checksum : page.verifyChecksum crc32c = .ok ()
  laid : Laid page 0 4096 slots
  room : 28 + slots.length * 8 + payloadSize slots ≤ 4096
  generations : ∀ slot ∈ slots, 0 < slot.generation ∧ slot.generation < 2 ^ 32

section Validation

variable {page : Page}

/-- The slots from `index` on pass: each payload ends where the one before it starts. -/
lemma validateSlots_ok {index freeEnd : Nat} {slots : List RebuildSlot} (bound : Nat)
    (ranges : List (Nat × Nat × Nat)) (hlaid : Laid page index freeEnd slots)
    (hend : freeEnd ≤ 4096) (hbound : 0 < bound) (hroom : bound + payloadSize slots ≤ freeEnd)
    (hgenerations : ∀ slot ∈ slots, 0 < slot.generation ∧ slot.generation < 2 ^ 32)
    (hranges : ∀ r ∈ ranges, freeEnd ≤ r.2.1) :
    page.validateSlots bound slots.length index ranges = .ok () := by
  have hsize : pageSize = 4096 := rfl
  have hdeletedOffset : deletedSlotOffset = 0 := rfl
  have hdeletedLength : deletedSlotLength = 65535 := rfl
  induction slots generalizing index freeEnd ranges with
  | nil => rfl
  | cons slot rest ih =>
    obtain ⟨generation, payload⟩ := slot
    have hgeneration : 0 < generation := (hgenerations _ mem_cons_self).1
    have hrest := fun slot hmem => hgenerations slot (mem_cons_of_mem _ hmem)
    rw [length_cons, validateSlots, Outcome.bind_eq_ok]
    cases payload with
    | some record =>
      obtain ⟨hfits, hslot, -, hlaid⟩ := hlaid
      rw [payloadSize_some] at hroom
      refine ⟨ranges ++ [(index, freeEnd - record.length,
        freeEnd - record.length + record.length)], ?_, ?_⟩
      · have hlive : ¬ isDeletedSlot (⟨freeEnd - record.length, record.length, generation⟩ : Slot) := by
          rintro ⟨hoffset, -⟩
          simp only at hoffset
          omega
        have hfind : (ranges.find? fun r => decide (freeEnd - record.length < r.2.2 ∧
            r.2.1 < freeEnd - record.length + record.length)) = none := by
          refine find?_eq_none.mpr fun r hr => ?_
          have := hranges r hr
          simp only [decide_eq_true_eq]
          omega
        simp only [validateSlot, hslot, hlive, if_false, hfind]
        rw [if_neg (by omega), if_neg (by omega), if_neg (by omega), if_neg (by omega)]
        rfl
      · refine ih _ hlaid (by omega) (by omega) hrest fun r hr => ?_
        rcases mem_append.mp hr with hr | hr
        · exact Nat.le_trans (Nat.sub_le _ _) (hranges r hr)
        · rw [mem_singleton.mp hr]
    | none =>
      obtain ⟨hslot, hlaid⟩ := hlaid
      rw [payloadSize_none] at hroom
      refine ⟨ranges, ?_, ih ranges hlaid hend hroom hrest hranges⟩
      have hdeleted :
          isDeletedSlot (⟨deletedSlotOffset, deletedSlotLength, generation⟩ : Slot) := ⟨rfl, rfl⟩
      simp only [validateSlot, hslot, hdeleted, if_true]
      rw [if_neg (by omega)]
      rfl

variable {crc32c : Crc32c} {pageType : PageType} {lsn : Nat} {slots : List RebuildSlot}

def headerOf (pageType : PageType) (lsn : Nat) (slots : List RebuildSlot) : PageHeader :=
  ⟨pageType, slots.length, 28 + slots.length * 8, 4096 - payloadSize slots,
    if lsn ≠ 0 then some lsn else none⟩

variable {slot : RebuildSlot}

lemma Laid.get {index freeEnd : Nat} (h : Laid page index freeEnd slots) (hend : freeEnd ≤ 4096)
    (hroom : 28 + payloadSize slots ≤ freeEnd) {i : Nat} (hi : slots[i]? = some slot) :
    (slot.payload = none ∧ page.slotAt (index + i) =
      ⟨deletedSlotOffset, deletedSlotLength, slot.generation⟩) ∨
    ∃ record offset, slot.payload = some record ∧
      page.slotAt (index + i) = ⟨offset, record.length, slot.generation⟩ ∧
      28 ≤ offset ∧ offset + record.length ≤ 4096 ∧
      slice page.bytes offset record.length = record := by
  induction slots generalizing index freeEnd i with
  | nil => simp at hi
  | cons first rest ih =>
    obtain ⟨generation, payload⟩ := first
    cases payload with
    | some record =>
      obtain ⟨hfits, hslot, hbytes, hlaid⟩ := h
      rw [payloadSize_some] at hroom
      cases i with
      | zero =>
        simp only [getElem?_cons_zero, Option.some.injEq] at hi
        subst hi
        exact .inr ⟨record, freeEnd - record.length, rfl, hslot, by omega, by omega, hbytes⟩
      | succ i =>
        have := ih hlaid (by omega) (by omega) hi
        rwa [Nat.add_assoc, Nat.add_comm 1 i] at this
    | none =>
      obtain ⟨hslot, hlaid⟩ := h
      rw [payloadSize_none] at hroom
      cases i with
      | zero =>
        simp only [getElem?_cons_zero, Option.some.injEq] at hi
        subst hi
        exact .inl ⟨rfl, hslot⟩
      | succ i =>
        have := ih hlaid hend hroom hi
        rwa [Nat.add_assoc, Nat.add_comm 1 i] at this

lemma not_deleted {offset length generation : Nat} (h : 28 ≤ offset) :
    ¬ isDeletedSlot ⟨offset, length, generation⟩ := by
  rintro ⟨hoffset, -⟩
  have hzero : deletedSlotOffset = 0 := rfl
  simp only at hoffset
  omega

lemma payloadOf_ok {slot offset generation : Nat} {record : List UInt8}
    (hfits : offset + record.length ≤ 4096)
    (hbytes : slice page.bytes offset record.length = record) :
    page.payloadOf slot ⟨offset, record.length, generation⟩ = .ok record := by
  have hsize : pageSize = 4096 := rfl
  unfold payloadOf
  rw [if_neg (by simp only; omega)]
  exact congrArg Except.ok hbytes

/-- A traversal of the indices that yields each element yields the list. -/
lemma mapM_range {f : Nat → Except PageError RebuildSlot} {l : List RebuildSlot}
    (h : ∀ i slot, l[i]? = some slot → f i = .ok slot) : (List.range l.length).mapM f = .ok l := by
  induction l using List.reverseRecOn with
  | nil => rfl
  | append_singleton l slot ih =>
    have hprefix : (List.range l.length).mapM f = .ok l := by
      refine ih fun i s hi => h i s ?_
      rw [List.getElem?_append_left (List.getElem?_eq_some_iff.mp hi).1]
      exact hi
    have hlast : f l.length = .ok slot := h l.length slot (by simp)
    rw [length_append, length_singleton, range_succ, mapM_append, hprefix]
    simp [hlast, Outcome.ok_bind, Outcome.pure_ok]

section Stored

variable (h : Denotes crc32c page pageType lsn slots)

include h

lemma Denotes.header : page.header crc32c = .ok (headerOf pageType lsn slots) := by
  have hroom := h.room
  have hsize : pageSize = 4096 := rfl
  have hslots := validateSlots_ok (4096 - payloadSize slots) [] h.laid (Nat.le_refl _)
    (by omega) (by omega) h.generations (fun r hr => nomatch hr)
  simp only [Page.header, h.preamble.magic, h.preamble.version, h.preamble.reserved,
    h.preamble.padding, h.preamble.tag, h.preamble.lsn, h.slotCount, h.freeStart, h.freeEnd,
    fromTag_tag, h.checksum, ne_eq, not_true_eq_false, if_false]
  have hmaximum : (pageSize - pageHeaderSize) / slotSize = 508 := rfl
  have hcount : ¬ (pageSize - pageHeaderSize) / slotSize < slots.length := by omega
  have hdirectory : pageHeaderSize + slots.length * slotSize = 28 + slots.length * 8 := rfl
  have hfree : ¬ (4096 - payloadSize slots < 28 + slots.length * 8 ∨
      pageSize < 4096 - payloadSize slots) := by omega
  simp only [hcount, hdirectory, hfree, not_true_eq_false, if_false, hslots, find?,
    decide_false, Outcome.ok_bind, Outcome.pure_ok, headerOf]

lemma Denotes.get {i : Nat} (hi : slots[i]? = some slot) : (slot.payload = none ∧ page.slotAt i =
      ⟨deletedSlotOffset, deletedSlotLength, slot.generation⟩) ∨
    ∃ record offset, slot.payload = some record ∧
      page.slotAt i = ⟨offset, record.length, slot.generation⟩ ∧
      28 ≤ offset ∧ offset + record.length ≤ 4096 ∧
      slice page.bytes offset record.length = record := by
  have hroom := h.room
  have := h.laid.get (Nat.le_refl _) (by omega) hi
  rwa [Nat.zero_add] at this

lemma Denotes.liveRecord {i : Nat} (hi : slots[i]? = some slot) :
    page.liveRecord (headerOf pageType lsn slots) i =
      .ok (slot.payload.map fun record => (page.slotAt i, record)) := by
  have hlt : ¬ (headerOf pageType lsn slots).slotCount ≤ i := by
    obtain ⟨hlt, -⟩ := List.getElem?_eq_some_iff.mp hi
    simp only [headerOf]
    omega
  unfold Page.liveRecord
  rw [if_neg hlt]
  rcases h.get hi with ⟨hnone, hslot⟩ | ⟨record, offset, hsome, hslot, hlow, hfits, hbytes⟩
  · rw [hslot, hnone]
    rfl
  · rw [hslot, hsome, if_neg (not_deleted hlow), payloadOf_ok hfits hbytes]
    rfl

lemma Denotes.rebuildSlots : page.rebuildSlots crc32c = .ok slots := by
  unfold Page.rebuildSlots
  rw [h.header]
  refine mapM_range fun i slot hi => ?_
  have hgeneration : (page.slotAt i).generation = slot.generation := by
    rcases h.get hi with ⟨-, hslot⟩ | ⟨_, _, -, hslot, -⟩ <;> rw [hslot]
  rw [h.liveRecord hi, hgeneration]
  cases hpayload : slot.payload with
  | none =>
    change Except.ok (⟨slot.generation, none⟩ : RebuildSlot) = _
    rw [← hpayload]
  | some record =>
    change Except.ok (⟨slot.generation, some record⟩ : RebuildSlot) = _
    rw [← hpayload]

end Stored

end Validation

section Rebuild

variable {crc32c : Crc32c} {page : Page} {pageType : PageType} {lsn : Nat}
  {slots : List RebuildSlot}

lemma Denotes.refreshed (hpreamble : Preamble page pageType lsn)
    (hcount : page.readU16 8 = slots.length) (hstart : page.readU16 10 = 28 + slots.length * 8)
    (hend : page.readU16 12 = 4096 - payloadSize slots) (hlaid : Laid page 0 4096 slots)
    (hroom : 28 + slots.length * 8 + payloadSize slots ≤ 4096)
    (hgenerations : ∀ slot ∈ slots, 0 < slot.generation ∧ slot.generation < 2 ^ 32) :
    Denotes crc32c (page.refreshChecksum crc32c) pageType lsn slots where
  preamble := hpreamble.refreshChecksum crc32c
  slotCount := by
    rw [Page.readU16, readNat, slice_refreshChecksum (by decide)]
    exact hcount
  freeStart := by
    rw [Page.readU16, readNat, slice_refreshChecksum (by decide)]
    exact hstart
  freeEnd := by
    rw [Page.readU16, readNat, slice_refreshChecksum (by decide)]
    exact hend
  checksum := verifyChecksum_refreshChecksum
  laid := by
    refine hlaid.of_slices (fun i _ _ => slotAt_congr fun start length hlow _ => ?_)
      fun start length hlow _ => ?_
    all_goals exact slice_refreshChecksum (by omega)
  room := hroom
  generations := hgenerations

lemma denotes_new (crc32c : Crc32c) (id : Nat) (pageType : PageType) :
    Denotes crc32c (new crc32c id pageType) pageType 0 [] := by
  have hpreamble := preamble_new crc32c id pageType
  refine
    { preamble := hpreamble, slotCount := ?_, freeStart := ?_, freeEnd := ?_
      checksum := verifyChecksum_refreshChecksum, laid := trivial, room := by decide
      generations := nofun }
  · rw [new, Page.readU16, readNat, slice_refreshChecksum (by decide)]
    simp only [writeU16]
    rw [slice_write_other (by decide), slice_write_other (by decide)]
    exact readNat_write_self (by decide) (by decide)
  · rw [new, Page.readU16, readNat, slice_refreshChecksum (by decide)]
    simp only [writeU16]
    rw [slice_write_other (by decide)]
    exact readNat_write_self (by decide) (by decide)
  · rw [new, Page.readU16, readNat, slice_refreshChecksum (by decide)]
    exact readNat_write_self (by decide) (by decide)

lemma Denotes.setPageLsn (h : Denotes crc32c page pageType lsn slots) {lsn' : Nat}
    (hlsn : lsn' < 2 ^ 64) : Denotes crc32c (page.setPageLsn crc32c lsn') pageType lsn' slots := by
  have hother : ∀ start length, start + length ≤ 16 ∨ 24 ≤ start →
      slice (page.write 16 (leBytes 8 lsn')).bytes start length = slice page.bytes start length :=
    fun start length hrange => slice_write_other (by rw [length_leBytes]; omega)
  have hroom := h.room
  refine
    { preamble := h.preamble.setPageLsn crc32c hlsn, slotCount := ?_, freeStart := ?_, freeEnd := ?_
      checksum := verifyChecksum_refreshChecksum, laid := ?_, room := h.room
      generations := h.generations }
  · rw [Page.setPageLsn, Page.readU16, readNat, slice_refreshChecksum (by decide),
      hother _ _ (by decide)]
    exact h.slotCount
  · rw [Page.setPageLsn, Page.readU16, readNat, slice_refreshChecksum (by decide),
      hother _ _ (by decide)]
    exact h.freeStart
  · rw [Page.setPageLsn, Page.readU16, readNat, slice_refreshChecksum (by decide),
      hother _ _ (by decide)]
    exact h.freeEnd
  · refine h.laid.of_slices (fun i _ _ => slotAt_congr fun start length hlow _ => ?_)
      fun start length hlow _ => ?_
    all_goals rw [Page.setPageLsn, slice_refreshChecksum (by omega), hother _ _ (by omega)]

lemma rebuildBase_preamble (crc32c : Crc32c) (id : Nat) (pageType : PageType) {lsn : Nat}
    (slots : List RebuildSlot) (hlsn : lsn < 2 ^ 64) :
    Preamble (rebuildBase crc32c id (headerOf pageType lsn slots)) pageType lsn := by
  by_cases hzero : lsn = 0
  · subst hzero
    exact preamble_new crc32c id pageType
  · simp only [rebuildBase, headerOf, ne_eq, hzero, not_false_eq_true, if_true]
    exact (preamble_new crc32c id pageType).setPageLsn crc32c hlsn

lemma Preamble.lsn_lt (h : Preamble page pageType lsn) : lsn < 2 ^ 64 := by
  have hread := h.lsn
  unfold readNat at hread
  have hlt := leNat_lt (slice page.bytes 16 8)
  have hlen : (slice page.bytes 16 8).length = 8 := by
    simp only [slice, length_take, length_drop, page.size]
    decide
  rw [hlen, hread] at hlt
  exact hlt

/-- A rebuild with records that fit yields a page that stores them. -/
lemma Denotes.rebuildRecords (h : Denotes crc32c page pageType lsn slots)
    {records : List RebuildSlot} (replacement : Option (Nat × Nat))
    (hroom : 28 + records.length * 8 + payloadSize records ≤ 4096)
    (hgenerations : ∀ slot ∈ records, 0 < slot.generation ∧ slot.generation < 2 ^ 32) :
    ∃ page', page.rebuildRecords crc32c records replacement = .ok page' ∧
      Denotes crc32c page' pageType lsn records := by
  have hpreamble := rebuildBase_preamble crc32c page.id pageType slots h.preamble.lsn_lt
  generalize hbase : rebuildBase crc32c page.id (headerOf pageType lsn slots) = base
    at hpreamble
  have hsize : pageSize = 4096 := rfl
  have hdirectory : pageHeaderSize + records.length * slotSize = 28 + records.length * 8 := rfl
  obtain ⟨laidPage, hlay, hout⟩ := @layOut_spec
    ((base.writeU16 8 records.length).writeU16 10 (28 + records.length * 8))
    (payloadSize records) (4096 - (28 + records.length * 8)) 4096 0 records (Nat.le_refl _)
    (by omega) (fun slot hmem => (hgenerations slot hmem).2)
  have hdenotes : Denotes crc32c
      ((laidPage.writeU16 12 (4096 - payloadSize records)).refreshChecksum crc32c) pageType lsn
      records := by
    refine Denotes.refreshed ?_ ?_ ?_ ?_ ?_ hroom hgenerations
    · refine Preamble.write ?_ (.inl ⟨by decide, by simp⟩)
      refine ((hpreamble.write (.inl ⟨?_, ?_⟩)).write (.inl ⟨?_, ?_⟩)).of_slices
        fun start length hrange => hout.frame start length (by omega)
      all_goals simp
    · rw [Page.readU16, writeU16, readNat_write_other (.inl (by decide)), readNat,
        hout.frame _ _ (by omega)]
      simp only [writeU16]
      rw [slice_write_other (.inl (by decide))]
      exact readNat_write_self (by decide) (by omega)
    · rw [Page.readU16, writeU16, readNat_write_other (.inl (by decide)), readNat,
        hout.frame _ _ (by omega)]
      exact readNat_write_self (by decide) (by omega)
    · exact readNat_write_self (by decide) (by omega)
    · refine hout.laid.of_slices (fun i _ _ => slotAt_congr fun start length hlow _ => ?_)
        fun start length hlow _ => ?_
      all_goals exact slice_write_other (by simp; omega)
  refine ⟨_, ?_, hdenotes⟩
  unfold Page.rebuildRecords
  rw [h.header]
  simp only [hdirectory, hsize, bind, Except.bind, hbase]
  rw [if_neg (by omega), if_neg (by omega)]
  simp only [hlay, hdenotes.header]
  rfl

lemma Denotes.rebuildRecords_full (h : Denotes crc32c page pageType lsn slots)
    {records : List RebuildSlot} (replacement : Option (Nat × Nat))
    (hroom : 4096 - (28 + records.length * 8) < payloadSize records) :
    ∃ e, page.rebuildRecords crc32c records replacement = .error e := by
  have hsize : pageSize = 4096 := rfl
  have hdirectory : pageHeaderSize + records.length * slotSize = 28 + records.length * 8 := rfl
  unfold Page.rebuildRecords
  rw [h.header]
  simp only [hdirectory, hsize, Outcome.ok_bind]
  rw [if_pos hroom]
  cases replacement with
  | none | some replaced => exact ⟨_, rfl⟩

end Rebuild

end Netbadb.Slotted
