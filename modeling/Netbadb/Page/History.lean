import Netbadb.Page.Records

/-!
Pages over whole histories. A page follows the list of slots its operations
describe, it never hands out a slot and generation twice, and a locator reads
the record it was given for or nothing.
-/

namespace Netbadb.Slotted

open Bytes Wal List Outcome Option Page Except Nat

def reusable (slot : RebuildSlot) : Bool :=
  slot.payload.isNone && decide (slot.generation < 2 ^ 32 - 1)

/-- A record goes into the first deleted slot whose generation can be raised, or into a new
slot. -/
def insertSlot (slots : List RebuildSlot) (record : List UInt8) : List RebuildSlot × SlotRef :=
  match slots.findIdx? reusable with
  | some index =>
    let generation := (slots[index]?.map (·.generation)).getD 0 + 1
    (slots.set index ⟨generation, some record⟩, ⟨index, generation⟩)
  | none => (slots ++ [⟨1, some record⟩], ⟨slots.length, 1⟩)

def setPayload (slots : List RebuildSlot) (slot : Nat) (payload : Option (List UInt8)) :
    List RebuildSlot :=
  match slots[slot]? with
  | some target => slots.set slot { target with payload }
  | none => slots

variable {index : Nat}

section Lists

variable {slots : List RebuildSlot}

lemma reusable_slot (h : slots.findIdx? reusable = some index) :
    ∃ old, slots[index]? = some old ∧ old.payload = none ∧ old.generation < 2 ^ 32 - 1 := by
  obtain ⟨hlt, hreusable, -⟩ := findIdx?_eq_some_iff_getElem.mp h
  exact ⟨_, getElem?_eq_getElem hlt, by simpa [reusable] using hreusable⟩

lemma setPayload_eq_set {i : Nat} {slot : RebuildSlot}
    (hi : slots[i]? = some slot) (payload : Option (List UInt8)) :
    setPayload slots i payload = slots.set i { slot with payload } := by
  rw [setPayload, hi]

lemma find?_range {α : Type} {l : List α} {p : α → Bool} {q : Nat → Bool}
    (h : ∀ i a, l[i]? = some a → q i = p a) : (range l.length).find? q = l.findIdx? p := by
  induction l using reverseRecOn with
  | nil => rfl
  | append_singleton l a ih =>
    have hprefix := ih fun i b hi => h i b (by
      rw [List.getElem?_append_left (List.getElem?_eq_some_iff.mp hi).1]
      exact hi)
    have hlast : q l.length = p a := h l.length a (by simp)
    rw [length_append, length_singleton, range_succ, find?_append, hprefix,
      findIdx?_append]
    cases hp : p a <;> simp [hlast, hp]

end Lists

variable {record : List UInt8} {lsn : Nat}

section Operations

variable {crc32c : Crc32c} {page page' : Page} {pageType expected : PageType}
  {slots : List RebuildSlot} {replacement : Option (Nat × Nat)}

section

variable (h : Denotes crc32c page pageType lsn slots)
include h

lemma Denotes.reusableSlot : page.reusableSlot slots.length = slots.findIdx? reusable := by
  refine find?_range fun i slot hi => ?_
  rcases h.get hi with ⟨hnone, hslot⟩ | ⟨record, offset, hsome, hslot, hlow, -⟩
  · have hdeleted : isDeletedSlot ⟨deletedSlotOffset, deletedSlotLength, slot.generation⟩ :=
      ⟨rfl, rfl⟩
    simp [hslot, reusable, hnone, hdeleted]
  · simp [hslot, reusable, hsome, not_deleted hlow]

lemma Denotes.of_rebuildRecords {records : List RebuildSlot}
    (hdirectory : 28 + records.length * 8 ≤ 4096)
    (hgenerations : ∀ slot ∈ records, 0 < slot.generation ∧ slot.generation < 2 ^ 32)
    (hrun : page.rebuildRecords crc32c records replacement = .ok page') :
    Denotes crc32c page' pageType lsn records := by
  by_cases hroom : 28 + records.length * 8 + payloadSize records ≤ 4096
  · obtain ⟨rebuilt, hrebuilt, hdenotes⟩ := h.rebuildRecords replacement hroom hgenerations
    rw [hrebuilt] at hrun
    cases hrun
    exact hdenotes
  · obtain ⟨e, he⟩ := @Denotes.rebuildRecords_full crc32c page pageType lsn slots h records
      replacement (by omega)
    rw [he] at hrun
    cases hrun

lemma Denotes.expectPageType {header : PageHeader}
    (hrun : page.expectPageType crc32c expected = .ok header) :
    expected = pageType ∧ header = headerOf pageType lsn slots := by
  unfold Page.expectPageType at hrun
  rw [h.header] at hrun
  by_cases heq : (headerOf pageType lsn slots).pageType ≠ expected
  · simp [heq, ok_bind, throw, throwThe, MonadExceptOf.throw] at hrun
  · rw [not_not] at heq
    simp only [ok_bind, heq, ne_eq, not_true_eq_false, if_false, pure, Except.pure,
      ok.injEq] at hrun
    exact ⟨heq.symm, hrun.symm⟩

lemma Denotes.insertRecord {ref : SlotRef}
    (hrun : page.insertRecord crc32c record = .ok (page', ref)) :
    pageType = .heap ∧ Denotes crc32c page' pageType lsn (insertSlot slots record).1 ∧
      ref = (insertSlot slots record).2 := by
  simp only [Page.insertRecord, bind_eq_ok, check_eq_ok] at hrun
  obtain ⟨header, hheader, -, hspace, records, hrecords, hrun⟩ := hrun
  obtain ⟨htype, rfl⟩ := h.expectPageType hheader
  rw [h.rebuildSlots] at hrecords
  cases hrecords
  have hcount : (headerOf pageType lsn slots).slotCount = slots.length := rfl
  have hfree : (headerOf pageType lsn slots).freeSpace =
      4096 - payloadSize slots - (28 + slots.length * 8) := rfl
  have hroom := h.room
  rw [hcount, h.reusableSlot, hfree] at hspace hrun
  refine ⟨htype.symm, ?_⟩
  unfold insertSlot
  cases hfind : slots.findIdx? reusable with
  | some index =>
    obtain ⟨old, hget, hreusable⟩ := reusable_slot hfind
    simp only [hfind, hget, map_some, getD_some] at hrun ⊢
    simp only [bind_eq_ok, pure_eq_ok, check_eq_ok, Prod.mk.injEq]
      at hrun
    obtain ⟨-, rebuilt, hrebuilt, rfl, rfl⟩ := hrun
    refine ⟨?_, rfl⟩
    refine h.of_rebuildRecords ?_ (fun slot hmem => ?_) hrebuilt
    · rw [length_set]
      omega
    · rcases mem_or_eq_of_mem_set hmem with hmem | rfl
      · exact h.generations slot hmem
      · exact ⟨succ_pos _, by simp only; omega⟩
  | none =>
    simp only [hfind] at hrun hspace ⊢
    simp only [bind_eq_ok, pure_eq_ok, Prod.mk.injEq] at hrun
    obtain ⟨rebuilt, hrebuilt, rfl, rfl⟩ := hrun
    refine ⟨?_, rfl⟩
    refine h.of_rebuildRecords ?_ (fun slot hmem => ?_) hrebuilt
    · have hslotSize : slotSize = 8 := rfl
      simp only [isSome_none, Bool.false_eq_true, if_false] at hspace
      rw [length_append, length_singleton]
      omega
    · rcases mem_append.mp hmem with hmem | hmem
      · exact h.generations slot hmem
      · rw [mem_singleton.mp hmem]
        exact ⟨one_pos, by norm_num⟩

end

lemma one_slot_generations (payload : List UInt8) :
    ∀ slot ∈ ([⟨1, some payload⟩] : List RebuildSlot),
      0 < slot.generation ∧ slot.generation < 2 ^ 32 := by
  intro slot hmem
  rw [mem_singleton.mp hmem]
  exact ⟨one_pos, by norm_num⟩

section Stored

variable (h : Denotes crc32c page pageType lsn slots) {slot : Nat} {payload : List UInt8}

include h

lemma Denotes.replacePayload {payload : Option (List UInt8)}
    (hrun : page.replacePayload crc32c slot payload replacement = .ok page') :
    Denotes crc32c page' pageType lsn (setPayload slots slot payload) ∧
      ∃ target record, slots[slot]? = some target ∧ target.payload = some record := by
  simp only [Page.replacePayload, bind_eq_ok] at hrun
  obtain ⟨records, hrecords, hrun⟩ := hrun
  rw [h.rebuildSlots] at hrecords
  cases hrecords
  have hroom := h.room
  cases hget : slots[slot]? with
  | none => rw [hget] at hrun; cases hrun
  | some target =>
    rw [hget] at hrun
    cases hpayload : target.payload with
    | none => simp [hpayload] at hrun
    | some record =>
      simp only [hpayload, isNone_some, Bool.false_eq_true, if_false] at hrun
      refine ⟨?_, target, record, rfl, hpayload⟩
      rw [setPayload_eq_set hget]
      refine h.of_rebuildRecords ?_ (fun s hmem => ?_) hrun
      · rw [length_set]
        omega
      · rcases mem_or_eq_of_mem_set hmem with hmem | rfl
        · exact h.generations s hmem
        · exact h.generations target (mem_of_getElem? hget)

lemma Denotes.deleteRecord (hrun : page.deleteRecord crc32c slot = .ok page') :
    pageType = .heap ∧ Denotes crc32c page' pageType lsn (setPayload slots slot none) ∧
      ∃ target record, slots[slot]? = some target ∧ target.payload = some record := by
  simp only [Page.deleteRecord, bind_eq_ok] at hrun
  obtain ⟨header, hheader, hrun⟩ := hrun
  exact ⟨(h.expectPageType hheader).1.symm, h.replacePayload hrun⟩

lemma Denotes.replaceRecord (hrun : page.replaceRecord crc32c slot record = .ok page') :
    pageType = .heap ∧ Denotes crc32c page' pageType lsn (setPayload slots slot (some record)) ∧
      ∃ target old, slots[slot]? = some target ∧ target.payload = some old := by
  simp only [Page.replaceRecord, bind_eq_ok, check_eq_ok] at hrun
  obtain ⟨header, hheader, -, hrun⟩ := hrun
  exact ⟨(h.expectPageType hheader).1.symm, h.replacePayload hrun⟩

lemma Denotes.initializeSinglePayload
    (hrun : page.initializeSinglePayload crc32c expected payload = .ok page') :
    pageType ≠ .heap ∧ Denotes crc32c page' pageType lsn [⟨1, some payload⟩] := by
  simp only [Page.initializeSinglePayload, bind_eq_ok, check_eq_ok, not_or] at hrun
  obtain ⟨header, hheader, hsingle, -, hrun⟩ := hrun
  obtain ⟨rfl, -⟩ := h.expectPageType hheader
  exact ⟨hsingle.1, h.of_rebuildRecords (by simp) (one_slot_generations payload) hrun⟩

lemma Denotes.replaceSinglePayload
    (hrun : page.replaceSinglePayload crc32c expected payload = .ok page') :
    pageType ≠ .heap ∧ Denotes crc32c page' pageType lsn [⟨1, some payload⟩] := by
  simp only [Page.replaceSinglePayload, validateSinglePayload, bind_eq_ok,
    check_eq_ok, not_or] at hrun
  obtain ⟨u, ⟨header, hheader, hsingle, -⟩, -, hrun⟩ := hrun
  obtain ⟨rfl, -⟩ := h.expectPageType hheader
  exact ⟨hsingle.1, h.of_rebuildRecords (by simp) (one_slot_generations payload) hrun⟩

end Stored

end Operations

inductive PageOp where
  | insertRecord (record : List UInt8)
  | deleteRecord (slot : Nat)
  | replaceRecord (slot : Nat) (record : List UInt8)
  | setPageLsn (lsn : UInt64)
  | initializeSinglePayload (expected : PageType) (payload : List UInt8)
  | replaceSinglePayload (expected : PageType) (payload : List UInt8)

/-- An operation on a page in place. Each ends with `rebuild_records`, which assigns the rebuilt
copy behind its last check, so that a failure leaves the page as it was. -/
def Page.inPlace (page : Page) (result : Except PageError (Page × Option SlotRef)) :
    Page × Except PageError (Option SlotRef) :=
  match result with
  | .ok (page, ref) => (page, .ok ref)
  | .error e => (page, .error e)

def Page.apply (crc32c : Crc32c) (page : Page) : PageOp → Page × Except PageError (Option SlotRef)
  | .insertRecord record =>
    page.inPlace ((page.insertRecord crc32c record).map fun r => (r.1, some r.2))
  | .deleteRecord slot => page.inPlace ((page.deleteRecord crc32c slot).map fun p => (p, none))
  | .replaceRecord slot record =>
    page.inPlace ((page.replaceRecord crc32c slot record).map fun p => (p, none))
  | .setPageLsn lsn => (page.setPageLsn crc32c lsn.toNat, .ok none)
  | .initializeSinglePayload expected payload =>
    page.inPlace
      ((page.initializeSinglePayload crc32c expected payload).map fun p => (p, none))
  | .replaceSinglePayload expected payload =>
    page.inPlace ((page.replaceSinglePayload crc32c expected payload).map fun p => (p, none))

def slotsAfter (slots : List RebuildSlot) : PageOp → List RebuildSlot
  | .insertRecord record => (insertSlot slots record).1
  | .deleteRecord slot => setPayload slots slot none
  | .replaceRecord slot record => setPayload slots slot (some record)
  | .setPageLsn _ => slots
  | .initializeSinglePayload _ payload => [⟨1, some payload⟩]
  | .replaceSinglePayload _ payload => [⟨1, some payload⟩]

/-- The locators handed out so far, each with the record it stands for while that is stored. -/
abbrev Issued := List (SlotRef × Option (List UInt8))

/-- The record stored in a slot changes for the locator whose record that is. -/
def Issued.setStored (issued : Issued) (slot : Nat) (payload : Option (List UInt8)) : Issued :=
  issued.map fun e => if e.1.slot = slot ∧ e.2.isSome then (e.1, payload) else e

def issuedAfter (issued : Issued) (op : PageOp) (ref : Option SlotRef) : Issued :=
  match op, ref with
  | .insertRecord record, some ref => (ref, some record) :: issued
  | .deleteRecord slot, _ => issued.setStored slot none
  | .replaceRecord slot record, _ => issued.setStored slot (some record)
  | _, _ => issued

/-- A page with the slots and the locators its history describes. -/
inductive Reachable (crc32c : Crc32c) (id : Nat) (pageType : PageType) :
    Page → List RebuildSlot → Issued → Prop
  | new : Reachable crc32c id pageType (.new crc32c id pageType) [] []
  | done {page page' : Page} {slots : List RebuildSlot} {issued : Issued}
      (h : Reachable crc32c id pageType page slots issued) (op : PageOp) (ref : Option SlotRef)
      (hrun : page.apply crc32c op = (page', .ok ref)) :
      Reachable crc32c id pageType page' (slotsAfter slots op) (issuedAfter issued op ref)
  | failed {page page' : Page} {slots : List RebuildSlot} {issued : Issued}
      (h : Reachable crc32c id pageType page slots issued) (op : PageOp) (e : PageError)
      (hrun : page.apply crc32c op = (page', .error e)) :
      Reachable crc32c id pageType page' slots issued

section Apply

variable {crc32c : Crc32c} {page page' : Page} {ref : Option SlotRef} {op : PageOp}

lemma apply_failed {e : PageError} (hrun : page.apply crc32c op = (page', .error e)) :
    page' = page := by
  have hplace : ∀ result, page.inPlace result = (page', .error e) → page' = page := by
    intro result hresult
    cases result with
    | ok r => cases hresult
    | error e' =>
      cases hresult
      rfl
  cases op with
  | setPageLsn lsn => cases hrun
  | insertRecord | deleteRecord | replaceRecord | initializeSinglePayload
  | replaceSinglePayload => exact hplace _ hrun

lemma inPlace_ok {result : Except PageError (Page × Option SlotRef)}
    (h : page.inPlace result = (page', .ok ref)) : result = .ok (page', ref) := by
  cases result with
  | ok r =>
    cases h
    rfl
  | error e => cases h

lemma map_ok {α β : Type} {x : Except PageError α} {f : α → β} {b : β}
    (h : x.map f = .ok b) : ∃ a, x = .ok a ∧ f a = b := by
  cases x with
  | ok a => exact ⟨a, rfl, ok.inj h⟩
  | error e => cases h

/-- A successful operation changes the stored slots as it says. -/
lemma Denotes.apply {pageType : PageType} {slots : List RebuildSlot}
    (h : Denotes crc32c page pageType lsn slots) (hrun : page.apply crc32c op = (page', .ok ref)) :
    ∃ lsn', Denotes crc32c page' pageType lsn' (slotsAfter slots op) := by
  cases op with
  | insertRecord record =>
    obtain ⟨⟨rebuilt, ref'⟩, hinsert, heq⟩ := map_ok (inPlace_ok hrun)
    cases heq
    exact ⟨lsn, (h.insertRecord hinsert).2.1⟩
  | deleteRecord slot =>
    obtain ⟨rebuilt, hdelete, heq⟩ := map_ok (inPlace_ok hrun)
    cases heq
    exact ⟨lsn, (h.deleteRecord hdelete).2.1⟩
  | replaceRecord slot record =>
    obtain ⟨rebuilt, hreplace, heq⟩ := map_ok (inPlace_ok hrun)
    cases heq
    exact ⟨lsn, (h.replaceRecord hreplace).2.1⟩
  | setPageLsn lsn' =>
    cases hrun
    exact ⟨lsn'.toNat, h.setPageLsn lsn'.toNat_lt⟩
  | initializeSinglePayload expected payload =>
    obtain ⟨rebuilt, hinitialize, heq⟩ := map_ok (inPlace_ok hrun)
    cases heq
    exact ⟨lsn, (h.initializeSinglePayload hinitialize).2⟩
  | replaceSinglePayload expected payload =>
    obtain ⟨rebuilt, hreplace, heq⟩ := map_ok (inPlace_ok hrun)
    cases heq
    exact ⟨lsn, (h.replaceSinglePayload hreplace).2⟩

end Apply

section Histories

variable {crc32c : Crc32c} {id freeEnd : Nat} {pageType : PageType} {page : Page}
  {slots : List RebuildSlot} {issued : Issued}

lemma Reachable.stores_slots (h : Reachable crc32c id pageType page slots issued) :
    ∃ lsn, Denotes crc32c page pageType lsn slots := by
  induction h with
  | new => exact ⟨0, denotes_new crc32c id pageType⟩
  | done h op ref hrun ih =>
    obtain ⟨lsn, hdenotes⟩ := ih
    exact hdenotes.apply hrun
  | failed h op e hrun ih =>
    rw [apply_failed hrun]
    exact ih

/-- The locators are those of every generation a slot has had; the newest one stands for what
the slot holds, the older ones for nothing. -/
def Tracks (slots : List RebuildSlot) (issued : Issued) : Prop :=
  ∀ ref payload, (ref, payload) ∈ issued ↔
    ∃ slot, slots[ref.slot]? = some slot ∧ 0 < ref.generation ∧
      ref.generation ≤ slot.generation ∧
      payload = if ref.generation = slot.generation then slot.payload else none

/-- A reused slot has a generation that no locator carries. -/
lemma Tracks.insert (h : Tracks slots issued) (record : List UInt8) :
    Tracks (insertSlot slots record).1 (((insertSlot slots record).2, some record) :: issued) := by
  unfold insertSlot
  cases hfind : slots.findIdx? reusable with
  | none =>
    intro ref payload
    simp only [mem_cons, Prod.mk.injEq]
    constructor
    · rintro (⟨rfl, rfl⟩ | hmem)
      · exact ⟨⟨1, some record⟩, by simp, one_pos, le_refl _, by simp⟩
      · obtain ⟨slot, hslot, hrest⟩ := (h ref payload).mp hmem
        exact ⟨slot, by rw [List.getElem?_append_left (List.getElem?_eq_some_iff.mp hslot).1]
                        exact hslot, hrest⟩
    · rintro ⟨slot, hslot, hpos, hle, hpayload⟩
      by_cases hlt : ref.slot < slots.length
      · rw [List.getElem?_append_left hlt] at hslot
        exact .inr ((h ref payload).mpr ⟨slot, hslot, hpos, hle, hpayload⟩)
      have hlen : ref.slot = slots.length := by
        have := (List.getElem?_eq_some_iff.mp hslot).1
        rw [length_append, length_singleton] at this
        omega
      rw [hlen, List.getElem?_append_right (le_refl _), Nat.sub_self,
        List.getElem?_cons_zero, some.injEq] at hslot
      subst hslot
      have hone : ref.generation = 1 := by
        simp only at hle
        omega
      rw [hone, if_pos rfl] at hpayload
      refine .inl ⟨?_, hpayload⟩
      cases ref
      simp only at hlen hone
      rw [hlen, hone]
  | some index =>
    obtain ⟨old, hget, hreusable⟩ := reusable_slot hfind
    have hlt := (List.getElem?_eq_some_iff.mp hget).1
    simp only [hget, map_some, getD_some]
    intro ref payload
    simp only [mem_cons, Prod.mk.injEq]
    constructor
    · rintro (⟨rfl, rfl⟩ | hmem)
      · exact ⟨⟨old.generation + 1, some record⟩, by simp [hlt], succ_pos _, le_refl _,
          by simp⟩
      · obtain ⟨slot, hslot, hpos, hle, hpayload⟩ := (h ref payload).mp hmem
        by_cases hindex : ref.slot = index
        · rw [hindex, hget, some.injEq] at hslot
          subst hslot
          refine ⟨⟨old.generation + 1, some record⟩, by simp [hindex, hlt], hpos,
            le_succ_of_le hle, ?_⟩
          rw [if_neg (Nat.ne_of_lt (lt_succ_of_le hle)), hpayload, hreusable.1, ite_self]
        · exact ⟨slot, by rw [List.getElem?_set_ne (Ne.symm hindex)]; exact hslot, hpos, hle,
            hpayload⟩
    · rintro ⟨slot, hslot, hpos, hle, hpayload⟩
      by_cases hindex : ref.slot = index
      · rw [hindex, List.getElem?_set_self hlt, some.injEq] at hslot
        subst hslot
        simp only at hle hpayload
        by_cases hnew : ref.generation = old.generation + 1
        · rw [if_pos hnew] at hpayload
          refine .inl ⟨?_, hpayload⟩
          cases ref
          simp only at hindex hnew
          rw [hindex, hnew]
        · rw [if_neg hnew] at hpayload
          refine .inr ((h ref payload).mpr ⟨old, by rw [hindex, hget], hpos, by omega, ?_⟩)
          rw [hpayload, hreusable.1, ite_self]
      · rw [List.getElem?_set_ne (Ne.symm hindex)] at hslot
        exact .inr ((h ref payload).mpr ⟨slot, hslot, hpos, hle, hpayload⟩)

lemma Tracks.fresh (h : Tracks slots issued) (record : List UInt8) :
    (insertSlot slots record).2 ∉ issued.map (·.1) := by
  intro hmem
  obtain ⟨⟨ref, payload⟩, hissued, heq⟩ := mem_map.mp hmem
  subst heq
  obtain ⟨slot, hslot, -, hle, -⟩ := (h _ _).mp hissued
  unfold insertSlot at hslot hle
  cases hfind : slots.findIdx? reusable with
  | none =>
    simp only [hfind] at hslot
    rw [getElem?_eq_none (le_refl _)] at hslot
    cases hslot
  | some index =>
    simp only [hfind] at hslot hle
    rw [hslot] at hle
    simp only [map_some, getD_some] at hle
    omega

/-- Changing the record of a live slot changes it for the slot's newest locator. -/
lemma Tracks.setPayload (h : Tracks slots issued) {target : RebuildSlot}
    (htarget : slots[index]? = some target) (hlive : target.payload = some record)
    (new : Option (List UInt8)) :
    Tracks (setPayload slots index new) (issued.setStored index new) := by
  have hlt := (List.getElem?_eq_some_iff.mp htarget).1
  rw [setPayload_eq_set htarget]
  intro ref payload
  constructor
  · intro hmem
    obtain ⟨⟨ref', old⟩, hissued, heq⟩ := mem_map.mp hmem
    obtain ⟨slot, hslot, hpos, hle, hold⟩ := (h ref' old).mp hissued
    by_cases hindex : ref'.slot = index
    · rw [hindex, htarget, some.injEq] at hslot
      subst hslot
      refine ⟨{ target with payload := new }, ?_⟩
      by_cases hnewest : ref'.generation = target.generation
      · rw [if_pos hnewest, hlive] at hold
        simp only [hindex, hold, isSome_some, and_self, if_true, Prod.mk.injEq] at heq
        obtain ⟨rfl, rfl⟩ := heq
        exact ⟨by rw [hindex, List.getElem?_set_self hlt], hpos, hle, by rw [if_pos hnewest]⟩
      · rw [if_neg hnewest] at hold
        simp only [hold, isSome_none, Bool.false_eq_true, and_false, if_false, Prod.mk.injEq] at heq
        obtain ⟨rfl, rfl⟩ := heq
        exact ⟨by rw [hindex, List.getElem?_set_self hlt], hpos, hle, by rw [if_neg hnewest]⟩
    · simp only [hindex, false_and, if_false, Prod.mk.injEq] at heq
      obtain ⟨rfl, rfl⟩ := heq
      exact ⟨slot, by rw [List.getElem?_set_ne (Ne.symm hindex)]; exact hslot, hpos, hle, hold⟩
  · rintro ⟨slot, hslot, hpos, hle, hpayload⟩
    by_cases hindex : ref.slot = index
    · rw [hindex, List.getElem?_set_self hlt, some.injEq] at hslot
      subst hslot
      by_cases hnewest : ref.generation = target.generation
      · rw [if_pos hnewest] at hpayload
        subst hpayload
        have hissued := (h ref (some record)).mpr
          ⟨target, by rw [hindex, htarget], hpos, hle, by rw [if_pos hnewest, hlive]⟩
        refine mem_map.mpr ⟨_, hissued, ?_⟩
        simp [hindex]
      · rw [if_neg hnewest] at hpayload
        subst hpayload
        have hissued := (h ref none).mpr
          ⟨target, by rw [hindex, htarget], hpos, hle, by rw [if_neg hnewest]⟩
        refine mem_map.mpr ⟨_, hissued, ?_⟩
        simp
    · rw [List.getElem?_set_ne (Ne.symm hindex)] at hslot
      have hissued := (h ref payload).mpr ⟨slot, hslot, hpos, hle, hpayload⟩
      refine mem_map.mpr ⟨_, hissued, ?_⟩
      simp [hindex]

lemma Reachable.tracks (h : Reachable crc32c id .heap page slots issued) : Tracks slots issued := by
  induction h with
  | new =>
    intro ref payload
    simp
  | @done page page' slots issued h op ref hrun ih =>
    obtain ⟨lsn, hdenotes⟩ := h.stores_slots
    cases op with
    | insertRecord record =>
      obtain ⟨⟨rebuilt, ref'⟩, hinsert, heq⟩ := map_ok (inPlace_ok hrun)
      cases heq
      obtain ⟨-, -, rfl⟩ := hdenotes.insertRecord hinsert
      exact ih.insert record
    | deleteRecord slot =>
      obtain ⟨rebuilt, hdelete, heq⟩ := map_ok (inPlace_ok hrun)
      cases heq
      obtain ⟨-, -, target, record, htarget, hlive⟩ := hdenotes.deleteRecord hdelete
      exact ih.setPayload htarget hlive none
    | replaceRecord slot record =>
      obtain ⟨rebuilt, hreplace, heq⟩ := map_ok (inPlace_ok hrun)
      cases heq
      obtain ⟨-, -, target, old, htarget, hlive⟩ := hdenotes.replaceRecord hreplace
      exact ih.setPayload htarget hlive (some record)
    | setPageLsn lsn' => exact ih
    | initializeSinglePayload expected payload =>
      obtain ⟨rebuilt, hrun, -⟩ := map_ok (inPlace_ok hrun)
      exact absurd rfl (hdenotes.initializeSinglePayload hrun).1
    | replaceSinglePayload expected payload =>
      obtain ⟨rebuilt, hrun, -⟩ := map_ok (inPlace_ok hrun)
      exact absurd rfl (hdenotes.replaceSinglePayload hrun).1
  | failed h op e hrun ih => exact ih

/-- The payloads of two live slots do not overlap, and every payload lies between the slot
directory and the end of the page. -/
def PayloadsApart (page : Page) (slots : List RebuildSlot) : Prop :=
  (∀ i, i < slots.length → ¬ isDeletedSlot (page.slotAt i) →
    28 + slots.length * 8 ≤ (page.slotAt i).offset ∧
      (page.slotAt i).offset + (page.slotAt i).length ≤ 4096) ∧
  ∀ i j, i < j → j < slots.length → ¬ isDeletedSlot (page.slotAt i) →
    ¬ isDeletedSlot (page.slotAt j) →
    (page.slotAt j).offset + (page.slotAt j).length ≤ (page.slotAt i).offset

lemma Laid.offsets (bound : Nat) (h : Laid page index freeEnd slots)
    (hroom : bound + payloadSize slots ≤ freeEnd) :
    ∀ i, index ≤ i → i < index + slots.length → ¬ isDeletedSlot (page.slotAt i) →
      bound ≤ (page.slotAt i).offset ∧
        (page.slotAt i).offset + (page.slotAt i).length ≤ freeEnd := by
  induction slots generalizing index freeEnd with
  | nil =>
    intro i hlow hhigh
    simp at hhigh
    omega
  | cons slot rest ih =>
    obtain ⟨generation, payload⟩ := slot
    intro i hlow hhigh hlive
    rw [length_cons] at hhigh
    cases payload with
    | some record =>
      obtain ⟨hfits, hslot, -, hlaid⟩ := h
      rw [payloadSize_some] at hroom
      by_cases hi : i = index
      · subst hi
        rw [hslot]
        simp only
        omega
      · have := ih hlaid (by omega) i (by omega) (by omega) hlive
        omega
    | none =>
      obtain ⟨hslot, hlaid⟩ := h
      rw [payloadSize_none] at hroom
      by_cases hi : i = index
      · subst hi
        rw [hslot] at hlive
        exact absurd ⟨rfl, rfl⟩ hlive
      · exact ih hlaid hroom i (by omega) (by omega) hlive

lemma Laid.apart (h : Laid page index freeEnd slots) (hroom : payloadSize slots ≤ freeEnd) :
    ∀ i j, index ≤ i → i < j → j < index + slots.length → ¬ isDeletedSlot (page.slotAt i) →
      ¬ isDeletedSlot (page.slotAt j) →
      (page.slotAt j).offset + (page.slotAt j).length ≤ (page.slotAt i).offset := by
  induction slots generalizing index freeEnd with
  | nil =>
    intro i j hi hij hj
    simp at hj
    omega
  | cons slot rest ih =>
    obtain ⟨generation, payload⟩ := slot
    intro i j hi hij hj hlivei hlivej
    rw [length_cons] at hj
    cases payload with
    | some record =>
      obtain ⟨hfits, hslot, -, hlaid⟩ := h
      rw [payloadSize_some] at hroom
      by_cases hfirst : i = index
      · have hbelow := hlaid.offsets 0 (by omega) j (by omega) (by omega) hlivej
        rw [hfirst, hslot]
        simp only
        omega
      · exact ih hlaid (by omega) i j (by omega) hij (by omega) hlivei hlivej
    | none =>
      obtain ⟨hslot, hlaid⟩ := h
      rw [payloadSize_none] at hroom
      by_cases hfirst : i = index
      · rw [hfirst, hslot] at hlivei
        exact absurd ⟨rfl, rfl⟩ hlivei
      · exact ih hlaid hroom i j (by omega) hij (by omega) hlivei hlivej

lemma Denotes.payloadsApart (h : Denotes crc32c page pageType lsn slots) :
    PayloadsApart page slots := by
  have hroom := h.room
  refine ⟨fun i hi hlive => ?_, fun i j hij hj hlivei hlivej => ?_⟩
  · exact h.laid.offsets _ (by omega) i (zero_le _) (by omega) hlive
  · exact h.laid.apart (by omega) i j (zero_le _) hij (by omega) hlivei hlivej

/-- A locator reads what its slot holds, if the slot still has its generation. -/
lemma Denotes.readRow (h : Denotes crc32c page .heap lsn slots) (ref : SlotRef)
    (payload : List UInt8) :
    page.readRow crc32c ref = .ok payload ↔
      ∃ slot, slots[ref.slot]? = some slot ∧ ref.generation = slot.generation ∧
        slot.payload = some payload := by
  have hstate : page.slotState crc32c ref.slot =
      if slots.length ≤ ref.slot then throw (.invalidSlot ref.slot)
      else if isDeletedSlot (page.slotAt ref.slot) then
        pure (.deleted (page.slotAt ref.slot).generation)
      else pure (.live (page.slotAt ref.slot)) := by
    unfold slotState
    rw [h.header]
    rfl
  by_cases hlt : ref.slot < slots.length
  · have hget : slots[ref.slot]? = some slots[ref.slot] := List.getElem?_eq_getElem hlt
    rw [if_neg (by omega)] at hstate
    generalize slots[ref.slot] = slot at hget
    rcases h.get hget with ⟨hnone, hslot⟩ | ⟨record, offset, hsome, hslot, hlow, hfits, hbytes⟩
    · have hdeleted : isDeletedSlot ⟨deletedSlotOffset, deletedSlotLength, slot.generation⟩ :=
        ⟨rfl, rfl⟩
      rw [hslot, if_pos hdeleted] at hstate
      constructor
      · intro hread
        simp only [Page.readRow, h.header, hstate, headerOf, bind, Except.bind, pure,
          Except.pure] at hread
        split at hread <;> simp at hread
      · rintro ⟨slot', hslot', -, hpayload⟩
        rw [hget, some.injEq] at hslot'
        subst hslot'
        rw [hnone] at hpayload
        cases hpayload
    · rw [hslot, if_neg (not_deleted hlow)] at hstate
      have hrecord : page.readRecord crc32c ref.slot = .ok record := by
        simp only [readRecord, Page.slot, hstate, bind, Except.bind, pure, Except.pure]
        exact payloadOf_ok hfits hbytes
      have hread : page.readRow crc32c ref =
          if ref.generation ≠ slot.generation then throw (.staleRowId slot.generation)
          else .ok record := by
        simp only [Page.readRow, h.header, hstate, headerOf, bind, Except.bind, pure, Except.pure,
          hrecord, ne_eq, not_true_eq_false, if_false]
        by_cases hgeneration : ref.generation = slot.generation
        · simp [hgeneration]
        · rfl
      rw [hread]
      constructor
      · intro heq
        by_cases hgeneration : ref.generation = slot.generation
        · simp only [hgeneration, ne_eq, not_true_eq_false, if_false, ok.injEq] at heq
          exact ⟨slot, hget, hgeneration, by rw [hsome, heq]⟩
        · simp [hgeneration] at heq
      · rintro ⟨slot', hslot', hgeneration, hpayload⟩
        rw [hget, some.injEq] at hslot'
        subst hslot'
        rw [hsome, some.injEq] at hpayload
        rw [if_neg (not_not.mpr hgeneration), hpayload]
  · constructor
    · intro hread
      rw [if_pos (by omega)] at hstate
      simp only [Page.readRow, h.header, hstate, headerOf, bind, Except.bind] at hread
      simp [throw, throwThe, MonadExceptOf.throw] at hread
    · rintro ⟨slot, hslot, -⟩
      exact absurd (List.getElem?_eq_some_iff.mp hslot).1 hlt

/-- A page follows the slots its history describes: it stores exactly them and passes its own
validation, its live payloads lie apart, and a failed operation leaves it as it is. On a heap page
an insertion hands out a locator that was never handed out before, and a locator reads the record
it was handed out for, as last replaced, or nothing once that record is deleted. -/
theorem Reachable.page_refines_slots (h : Reachable crc32c id pageType page slots issued) :
    (∃ lsn, Denotes crc32c page pageType lsn slots ∧
        page.header crc32c = .ok (headerOf pageType lsn slots)) ∧
      PayloadsApart page slots ∧
      (∀ op e page', page.apply crc32c op = (page', .error e) → page' = page) ∧
      (pageType = .heap →
        (∀ record page' ref, page.insertRecord crc32c record = .ok (page', ref) →
          ref ∉ issued.map (·.1)) ∧
        ∀ ref payload, page.readRow crc32c ref = .ok payload ↔ (ref, some payload) ∈ issued) := by
  obtain ⟨lsn, hdenotes⟩ := h.stores_slots
  refine ⟨⟨lsn, hdenotes, hdenotes.header⟩, hdenotes.payloadsApart, fun _ _ _ => apply_failed, ?_⟩
  rintro rfl
  have htracks := h.tracks
  refine ⟨fun record page' ref hinsert => ?_, fun ref payload => ?_⟩
  · rw [(hdenotes.insertRecord hinsert).2.2]
    exact htracks.fresh record
  rw [hdenotes.readRow, htracks]
  constructor
  · rintro ⟨slot, hslot, hgeneration, hpayload⟩
    have hpos := (hdenotes.generations slot (mem_of_getElem? hslot)).1
    exact ⟨slot, hslot, by omega, by omega, by rw [if_pos hgeneration, hpayload]⟩
  rintro ⟨slot, hslot, -, -, hpayload⟩
  by_cases hgeneration : ref.generation = slot.generation
  · rw [if_pos hgeneration] at hpayload
    exact ⟨slot, hslot, hgeneration, hpayload.symm⟩
  · rw [if_neg hgeneration] at hpayload
    cases hpayload

/-- Operations that all succeed, with the slots and locators they describe. -/
def Page.applyAll (crc32c : Crc32c) (page : Page) (slots : List RebuildSlot) (issued : Issued) :
    List PageOp → Option (Page × List RebuildSlot × Issued)
  | [] => some (page, slots, issued)
  | op :: rest =>
    match page.apply crc32c op with
    | (page', .ok ref) =>
      page'.applyAll crc32c (slotsAfter slots op) (issuedAfter issued op ref) rest
    | (_, .error _) => none

lemma Reachable.applyAll {page' : Page} {slots' : List RebuildSlot} {issued' : Issued}
    {ops : List PageOp} (h : Reachable crc32c id pageType page slots issued)
    (hrun : page.applyAll crc32c slots issued ops = some (page', slots', issued')) :
    Reachable crc32c id pageType page' slots' issued' := by
  induction ops generalizing page slots issued with
  | nil =>
    cases hrun
    exact h
  | cons op rest ih =>
    rw [Page.applyAll] at hrun
    split at hrun
    · next hop => exact ih (h.done op _ hop) hrun
    · cases hrun

/-- A page with a slot used a second time and a record that has grown. -/
lemma reachable_fragmented : ∃ page, Reachable (fun _ => 0) 2 .heap page
    [⟨2, some [5]⟩, ⟨1, some [8, 8, 8, 8]⟩]
    [(⟨0, 2⟩, some [5]), (⟨1, 1⟩, some [8, 8, 8, 8]), (⟨0, 1⟩, none)] := by
  have hrun : (((Page.new (fun _ => 0) 2 .heap).applyAll (fun _ => 0) [] []
      [.insertRecord [1, 2, 3], .insertRecord [7, 9], .deleteRecord 0, .insertRecord [5],
        .replaceRecord 1 [8, 8, 8, 8]]).map (·.2)) =
      some ([⟨2, some [5]⟩, ⟨1, some [8, 8, 8, 8]⟩],
        [(⟨0, 2⟩, some [5]), (⟨1, 1⟩, some [8, 8, 8, 8]), (⟨0, 1⟩, none)]) := by decide +kernel
  obtain ⟨⟨page, slots, issued⟩, hrun, hsame⟩ := Option.map_eq_some_iff.mp hrun
  cases hsame
  exact ⟨page, Reachable.new.applyAll hrun⟩

/-- The locators of such a page read what they were handed out for, and the one whose
slot was used again reads nothing. -/
theorem page_refines_slots_fragmented : ∃ page issued,
    Reachable (fun _ => 0) 2 .heap page [⟨2, some [5]⟩, ⟨1, some [8, 8, 8, 8]⟩] issued ∧
      page.readRow (fun _ => 0) ⟨0, 2⟩ = .ok [5] ∧
      page.readRow (fun _ => 0) ⟨1, 1⟩ = .ok [8, 8, 8, 8] ∧
      ∀ payload, page.readRow (fun _ => 0) ⟨0, 1⟩ ≠ .ok payload := by
  obtain ⟨page, hreachable⟩ := reachable_fragmented
  have hread := (hreachable.page_refines_slots.2.2.2 rfl).2
  refine ⟨page, _, hreachable, (hread _ _).mpr (by decide), (hread _ _).mpr (by decide), ?_⟩
  intro payload hpayload
  have hmem := (hread _ _).mp hpayload
  simp at hmem

/-- A record takes its own length, and a generation that was not exhausted. -/
lemma insertSlot_spec (h : ∀ slot ∈ slots, 0 < slot.generation ∧ slot.generation < 2 ^ 32) :
    payloadSize (insertSlot slots record).1 = payloadSize slots + record.length ∧
      ∀ slot ∈ (insertSlot slots record).1, 0 < slot.generation ∧ slot.generation < 2 ^ 32 := by
  unfold insertSlot
  cases hfind : slots.findIdx? reusable with
  | none =>
    refine ⟨by simp [payloadSize], fun slot hmem => ?_⟩
    rcases mem_append.mp hmem with hmem | hmem
    · exact h slot hmem
    · rw [mem_singleton.mp hmem]
      exact ⟨one_pos, by norm_num⟩
  | some index =>
    obtain ⟨old, hget, hnone, hgeneration⟩ := reusable_slot hfind
    refine ⟨?_, fun slot hmem => ?_⟩
    · obtain ⟨hlt, rfl⟩ := List.getElem?_eq_some_iff.mp hget
      have hold := congrArg payloadSize (take_append_drop index slots)
      rw [drop_eq_getElem_cons hlt] at hold
      simp only [payloadSize, set_eq_take_append_cons_drop, hlt, if_true, map_append, map_cons,
        List.sum_append, sum_cons, hnone, map_none, map_some, getD_none, getD_some] at hold ⊢
      omega
    · rcases mem_or_eq_of_mem_set hmem with hmem | rfl
      · exact h slot hmem
      · simp only [hget, map_some, getD_some]
        omega

/-- Nothing is lost to fragmentation: on a heap page an insertion succeeds if and only if the
directory and the live payloads, with the record, fit the page. -/
theorem Reachable.insertRecord_iff (h : Reachable crc32c id .heap page slots issued) :
    (∃ page' ref, page.insertRecord crc32c record = .ok (page', ref)) ↔
      28 + (insertSlot slots record).1.length * 8 + (payloadSize slots + record.length) ≤
        4096 := by
  obtain ⟨lsn, hdenotes⟩ := h.stores_slots
  obtain ⟨hpayload, hgenerations⟩ := @insertSlot_spec record slots hdenotes.generations
  constructor
  · rintro ⟨page', ref, hrun⟩
    exact hpayload ▸ (hdenotes.insertRecord hrun).2.1.room
  intro hroom
  obtain ⟨rebuilt, hrebuilt, -⟩ := hdenotes.rebuildRecords none (hpayload ▸ hroom) hgenerations
  have hsizes : maxRecordSize = 4060 ∧ slotSize = 8 := ⟨rfl, rfl⟩
  have hcount : (headerOf .heap lsn slots).slotCount = slots.length := rfl
  have hfree : (headerOf .heap lsn slots).freeSpace =
      4096 - payloadSize slots - (28 + slots.length * 8) := rfl
  have htype : page.expectPageType crc32c .heap = .ok (headerOf .heap lsn slots) := by
    simp [Page.expectPageType, hdenotes.header, ok_bind, headerOf, pure_ok]
  simp only [Page.insertRecord, htype, hdenotes.rebuildSlots, ok_bind, hcount, hfree,
    hdenotes.reusableSlot, check_eq_ok]
  unfold insertSlot at hroom hrebuilt
  refine ⟨rebuilt, (insertSlot slots record).2, ?_⟩
  unfold insertSlot
  cases hfind : slots.findIdx? reusable with
  | none =>
    simp only [hfind, length_append, length_singleton] at hroom hrebuilt ⊢
    rw [hrebuilt]
    simp
    omega
  | some index =>
    obtain ⟨old, hget, hnone, hgeneration⟩ := reusable_slot hfind
    have hlt := (List.getElem?_eq_some_iff.mp hget).1
    simp only [hfind, hget, length_set, map_some, getD_some] at hroom hrebuilt ⊢
    rw [hrebuilt]
    simp
    omega

/-- A third slot and 4039 bytes fill such a page to its last byte. -/
theorem insertRecord_iff_fragmented : ∃ page issued,
    Reachable (fun _ => 0) 2 .heap page [⟨2, some [5]⟩, ⟨1, some [8, 8, 8, 8]⟩] issued ∧
      (∃ page' ref, page.insertRecord (fun _ => 0) (replicate 4039 1) = .ok (page', ref)) ∧
      ¬ ∃ page' ref, page.insertRecord (fun _ => 0) (replicate 4040 1) = .ok (page', ref) := by
  obtain ⟨page, hreachable⟩ := reachable_fragmented
  have hslots (record : List UInt8) :
      (insertSlot [⟨2, some [5]⟩, ⟨1, some [8, 8, 8, 8]⟩] record).1.length = 3 := rfl
  have hpayload : payloadSize [⟨2, some [5]⟩, ⟨1, some [8, 8, 8, 8]⟩] = 5 := rfl
  refine ⟨page, _, hreachable, hreachable.insertRecord_iff.mpr ?_,
    hreachable.insertRecord_iff.not.mpr ?_⟩
  · rw [hslots, hpayload, length_replicate]
  · rw [hslots, hpayload, length_replicate]
    omega

end Histories

end Netbadb.Slotted
