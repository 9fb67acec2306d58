import Netbadb.Schema.CallSpec

/-!
The allocator over whole runs. A journal is in memory or closed, its file is on
disk, and the committed catalog has its floors. Calls, failed and uncertain
writes, crashes, reopens and the publication of new floors follow each other in
any order.
-/

namespace Netbadb.Schema

open Std Outcome SchemaMutationJournal

/-- The allocator floors of the committed catalog. -/
structure Floors where
  table : Option Nat
  storage : Option Nat
  column : Nat → Option Nat
  index : Nat → Nat

/-- The floors a winner publishes: a floor only moves where the allocator still
has an identity, table floors never go back, and a table that was not there
brings a floor for its columns. -/
structure Floors.Advances (j : SchemaMutationJournal) (f f' : Floors) : Prop where
  table : f'.table = f.table ∨
    ((j.effectiveTable f.table).isSome ∧ ∀ a ∈ f.table, ∀ b ∈ f'.table, a ≤ b)
  storage : f'.storage = f.storage ∨ (j.effectiveStorage f.storage).isSome
  column : ∀ t, f'.column t = f.column t ∨ (j.effectiveColumn t (f.column t)).isSome ∨
    ∃ floor ∈ f.table, floor ≤ t

/-- The journal's file, the open handle and the floors of the catalog, with the
identities that successful calls have persisted. -/
structure World where
  file : List JournalRecord
  handle : Option SchemaMutationJournal
  floors : Floors
  consumed : Set Identity

namespace World

variable {checks : Checks} {w w' w'' : World} {j j' : SchemaMutationJournal} {u : Identity}

/-- A call on the open handle. Once it has succeeded, everything in the history
is persisted. -/
def call (checks : Checks) (w : World) (j : SchemaMutationJournal) (call : Call) (write : Write) :
    World :=
  let result := perform checks w.file write j call
  { w with
    file := result.1
    handle := some result.2.1
    consumed := w.consumed ∪ { u | result.2.2 = .ok () ∧ result.2.1.Uses u } }

inductive Step (checks : Checks) : World → World → Prop
  | call {w : World} {j : SchemaMutationJournal} (call : Call) (write : Write)
      (hhandle : w.handle = some j) (hissued : call.Issued j) :
      Step checks w (w.call checks j call write)
  | redigest {w : World} {j : SchemaMutationJournal} {call : Call} (write : Write)
      (hhandle : w.handle = some j) (hcall : j.Redigests call) :
      Step checks w (w.call checks j call write)
  | crash {w : World} : Step checks w { w with handle := none }
  | reopen {w : World} {j : SchemaMutationJournal} (hclosed : w.handle = none)
      (hopen : openJournal checks w.file = .ok j) :
      Step checks w { w with handle := some j, consumed := w.consumed ∪ { u | j.Uses u } }
  | publish {w : World} {j : SchemaMutationJournal} (floors : Floors)
      (hhandle : w.handle = some j) (hadvances : w.floors.Advances j floors) :
      Step checks w { w with floors }

inductive Run (checks : Checks) : World → World → Prop
  | refl (w : World) : Run checks w w
  | step {w w' w'' : World} (hrun : Run checks w w') (hstep : Step checks w' w'') :
      Run checks w w''

/-- A closed journal whose file was written from a sound history: the empty one
of a new database, or what an earlier version has left. -/
def Starts (w : World) : Prop :=
  w.handle = none ∧ w.consumed = ∅ ∧ ∃ j : SchemaMutationJournal, j.Sound ∧ w.file = j.records

structure Valid (w : World) : Prop where
  coherent : Coherent w.file
  persisted : ∀ u ∈ w.consumed, ∃ r ∈ w.file, u ∈ r.identities
  sound : ∀ j, w.handle = some j → j.Sound
  remembered : ∀ j, w.handle = some j → ∀ u ∈ w.consumed, j.Uses u
  known : ∀ j, w.handle = some j → j.poisoned = false → ∀ u, j.Uses u → u ∈ w.consumed
  below : ∀ j, w.handle = some j → ∀ u, j.Uses u → u ∈ w.consumed ∨ u.Below

lemma Starts.valid (h : w.Starts) : w.Valid := by
  obtain ⟨hhandle, hconsumed, j, hsound, hfile⟩ := h
  refine ⟨hfile ▸ hsound.records_coherent, fun u hu => ?_, fun j h => ?_, fun j h => ?_, fun j h => ?_,
    fun j h => ?_⟩
  · simp [hconsumed] at hu
  all_goals simp [hhandle] at h

lemma perform_cases (checks : Checks) (file : List JournalRecord) (write : Write)
    (j : SchemaMutationJournal) (call : Call) :
    (∃ e, perform checks file write j call = (file, j, .error e)) ∨
    (perform checks file write j call = (file, j, .ok ()) ∧ j.poisoned = false) ∨
    ∃ j', call.apply checks j = .ok (some j') ∧
      (perform checks file write j call = (j'.records, j', .ok ()) ∨
        (∃ e, perform checks file write j call = (file, { j' with poisoned := true }, .error e)) ∨
        ∃ e, perform checks file write j call =
          (j'.records, { j' with poisoned := true }, .error e)) := by
  unfold perform
  split
  · exact .inl ⟨_, rfl⟩
  rename_i hpoisoned
  split
  · exact .inl ⟨_, rfl⟩
  · exact .inr (.inl ⟨rfl, by simpa using hpoisoned⟩)
  rename_i j' hj'
  split
  · exact .inl ⟨_, rfl⟩
  refine .inr (.inr ⟨j', hj', ?_⟩)
  unfold persist
  split
  · exact .inr (.inl ⟨_, rfl⟩)
  rename_i bytes hencode
  have hbytes : bytes = j'.records := by
    simp only [encode, bind_eq_ok, pure_eq_ok] at hencode
    obtain ⟨-, -, rfl⟩ := hencode
    rfl
  subst hbytes
  cases write with
  | done => exact .inl rfl
  | failedOld | notActivated => exact .inr (.inl ⟨_, rfl⟩)
  | failedNew => exact .inr (.inr ⟨_, rfl⟩)

lemma sound_poisoned (h : j.Sound) : Sound { j with poisoned := true } :=
  ⟨h.reservations_keyed, h.drops_keyed, h.rewrites_keyed, h.apart, h.separate⟩

lemma Valid.of_handle {file : List JournalRecord} {floors : Floors} {consumed : Set Identity}
    (hcoherent : Coherent file) (hpersisted : ∀ u ∈ consumed, ∃ r ∈ file, u ∈ r.identities)
    (hsound : j.Sound) (hremembered : ∀ u ∈ consumed, j.Uses u)
    (hknown : j.poisoned = false → ∀ u, j.Uses u → u ∈ consumed)
    (hbelow : ∀ u, j.Uses u → u ∈ consumed ∨ u.Below) : Valid ⟨file, some j, floors, consumed⟩ := by
  refine ⟨hcoherent, hpersisted, ?_, ?_, ?_, ?_⟩ <;>
  · intro k hk
    cases hk
    assumption

lemma Valid.call (h : w.Valid) (hhandle : w.handle = some j) {call : Call}
    (hissued : call.Issued j) (write : Write) : (w.call checks j call write).Valid := by
  have hsound := h.sound j hhandle
  have hremembered := h.remembered j hhandle
  unfold World.call
  obtain ⟨e, heq⟩ | ⟨heq, hready⟩ | ⟨j', happly, hwrite⟩ := perform_cases checks w.file write j call
  · simp only [heq, reduceCtorEq, false_and, Set.ofPred_false, Set.union_empty]
    exact .of_handle h.coherent h.persisted hsound hremembered (h.known j hhandle)
      (h.below j hhandle)
  · have hall : w.consumed ∪ { u | j.Uses u } = w.consumed :=
      Set.union_eq_left.mpr fun u hu => h.known j hhandle hready u hu
    simp only [heq, true_and, hall]
    exact .of_handle h.coherent h.persisted hsound hremembered (h.known j hhandle)
      (h.below j hhandle)
  · have hextends := Call.extends hsound hissued happly
    have hsound' := hextends.sound hsound
    have hremembered' : ∀ u ∈ w.consumed, j'.Uses u :=
      fun u hu => hextends.uses_mono (hremembered u hu)
    have hbelow' : ∀ u, j'.Uses u → u ∈ w.consumed ∨ u.Below := by
      intro u hu
      rcases hextends.below hu with hold | hbelow
      · exact h.below j hhandle u hold
      · exact .inr hbelow
    obtain heq | ⟨e, heq⟩ | ⟨e, heq⟩ := hwrite
    · simp only [heq, true_and]
      have hall : ∀ u ∈ w.consumed ∪ { u | j'.Uses u }, j'.Uses u :=
        fun u hu => hu.elim (hremembered' u) id
      exact .of_handle hsound'.records_coherent (fun u hu => hsound'.exists_record (hall u hu)) hsound' hall
        (fun _ u hu => .inr hu) (fun u hu => .inl (.inr hu))
    · simp only [heq, reduceCtorEq, false_and, Set.ofPred_false, Set.union_empty]
      exact .of_handle h.coherent h.persisted (sound_poisoned hsound') hremembered' nofun hbelow'
    · simp only [heq, reduceCtorEq, false_and, Set.ofPred_false, Set.union_empty]
      exact .of_handle hsound'.records_coherent
        (fun u hu => hsound'.exists_record (hremembered' u hu)) (sound_poisoned hsound')
        hremembered' nofun hbelow'

lemma Valid.reopen (h : w.Valid) (hopen : openJournal checks w.file = .ok j) :
    Valid { w with handle := some j, consumed := w.consumed ∪ { u | j.Uses u } } := by
  simp only [openJournal, bind_eq_ok, pure_eq_ok] at hopen
  obtain ⟨k, hdecode, -, -, rfl⟩ := hopen
  obtain ⟨hsound, huses⟩ := sound_of_decode h.coherent hdecode
  have hall : ∀ u ∈ w.consumed ∪ { u | k.Uses u }, k.Uses u :=
    fun u hu => hu.elim (fun hu => (huses u).mpr (h.persisted u hu)) id
  exact .of_handle h.coherent (fun u hu => (huses u).mp (hall u hu)) hsound hall
    (fun _ u hu => .inr hu) (fun u hu => .inl (.inr hu))

lemma Valid.step (h : w.Valid) (hstep : Step checks w w') : w'.Valid := by
  cases hstep with
  | call call write hhandle hissued => exact h.call hhandle hissued write
  | redigest write hhandle hcall => exact h.call hhandle hcall.issued write
  | crash => exact ⟨h.coherent, h.persisted, nofun, nofun, nofun, nofun⟩
  | reopen hclosed hopen => exact h.reopen hopen
  | publish floors hhandle hadvances =>
    exact ⟨h.coherent, h.persisted, h.sound, h.remembered, h.known, h.below⟩

lemma Valid.run (h : w.Valid) (hrun : Run checks w w') : w'.Valid := by
  induction hrun with
  | refl => exact h
  | step _ hstep ih => exact ih.step hstep

lemma Step.consumed_mono (h : Step checks w w') : w.consumed ⊆ w'.consumed := by
  cases h with
  | call call write hhandle hissued | redigest write hhandle hcall | reopen hclosed hopen =>
    exact Set.subset_union_left
  | crash | publish floors hhandle hadvances => exact Set.Subset.refl _

lemma Run.consumed_mono (h : Run checks w w') : w.consumed ⊆ w'.consumed := by
  induction h with
  | refl => exact Set.Subset.refl _
  | step _ hstep ih => exact ih.trans hstep.consumed_mono

end World

/-- The four allocators, one for each table where identities belong to one. -/
inductive Allocator where
  | table
  | storage
  | column (table : Nat)
  | index (table : Nat)
deriving DecidableEq, Repr

def Identity.allocator : Identity → Allocator
  | table _ => .table
  | storage _ => .storage
  | column t _ => .column t
  | index t _ => .index t

namespace SchemaMutationJournal

variable {j : SchemaMutationJournal} {floors : Floors} {a : Allocator} {u : Identity}

def Returns (j : SchemaMutationJournal) (floors : Floors) : Identity → Prop
  | .table t => j.effectiveTable floors.table = some t
  | .storage s => j.effectiveStorage floors.storage = some s
  | .column t c => j.effectiveColumn t (floors.column t) = some c
  | .index t i => j.effectiveIndex t (floors.index t) = some i

def Exhausted (j : SchemaMutationJournal) (floors : Floors) : Allocator → Prop
  | .table => j.effectiveTable floors.table = none
  | .storage => j.effectiveStorage floors.storage = none
  | .column t => j.effectiveColumn t (floors.column t) = none
  | .index t => j.effectiveIndex t (floors.index t) = none

lemma not_uses_of_returns (h : j.Returns floors u) : ¬ j.Uses u := by
  cases u with
  | table t =>
    obtain ⟨floor, -, hnext⟩ := Option.bind_eq_some_iff.mp h
    exact fun hu => nextAfter_not_mem hnext (mem_usedTables.mpr hu)
  | storage s =>
    obtain ⟨floor, -, hnext⟩ := Option.bind_eq_some_iff.mp h
    exact fun hu => nextAfter_not_mem hnext (mem_usedStorages.mpr hu)
  | column t c =>
    obtain ⟨floor, -, hnext⟩ := Option.bind_eq_some_iff.mp h
    exact fun hu => nextAfter_not_mem hnext (mem_usedColumns.mpr hu)
  | index t i => exact fun hu => nextAfter_not_mem h (mem_usedIndexes.mpr hu)

/-- An allocator with a floor is exhausted by an identity without a successor. -/
lemma nextAfter_eq_none {bits floor : Nat} {used : List Nat} :
    nextAfter bits used floor = none ↔ ∃ m ∈ used, ¬ m + 1 < 2 ^ bits := by
  unfold nextAfter
  split
  · next hmax => simp [List.max?_eq_none_iff.mp hmax]
  rename_i m hmax
  obtain ⟨hmem, hle⟩ := List.max?_eq_some_iff.mp hmax
  constructor
  · intro h
    refine ⟨m, hmem, fun hlt => ?_⟩
    rw [if_pos hlt] at h
    cases h
  · rintro ⟨n, hn, hlarge⟩
    have hnm := hle n hn
    rw [if_neg (by omega)]

end SchemaMutationJournal

/-- The catalog has no floor for the allocator any more. -/
def Floors.Gone (floors : Floors) : Allocator → Prop
  | .table => floors.table = none
  | .storage => floors.storage = none
  | .column t => floors.column t = none
  | .index _ => False

/-- The allocator belongs to a table below the table floor, as every committed
table is. -/
def Floors.Committed (floors : Floors) : Allocator → Prop
  | .column t => ∀ floor ∈ floors.table, t < floor
  | _ => True

namespace SchemaMutationJournal

variable {j : SchemaMutationJournal} {floors : Floors} {a : Allocator} {u : Identity}

/-- An allocator is exhausted by its floor or by an identity in use. -/
lemma exhausted_iff : j.Exhausted floors a ↔
    floors.Gone a ∨ ∃ u, u.allocator = a ∧ j.Uses u ∧ ¬ u.Below := by
  have hbind : ∀ (floor : Option Nat) (bits : Nat) (used : List Nat),
      floor.bind (nextAfter bits used) = none ↔
        floor = none ∨ ∃ m ∈ used, ¬ m + 1 < 2 ^ bits := by
    intro floor bits used
    cases floor with
    | none => simp
    | some floor => simp [nextAfter_eq_none]
  cases a with
  | table =>
    refine (hbind _ _ _).trans (or_congr Iff.rfl ⟨?_, ?_⟩)
    · rintro ⟨m, hm, hlarge⟩
      exact ⟨.table m, rfl, mem_usedTables.mp hm, hlarge⟩
    · rintro ⟨u, hu, huses, hlarge⟩
      cases u with
      | table t => exact ⟨t, mem_usedTables.mpr huses, hlarge⟩
      | storage | column | index => cases hu
  | storage =>
    refine (hbind _ _ _).trans (or_congr Iff.rfl ⟨?_, ?_⟩)
    · rintro ⟨m, hm, hlarge⟩
      exact ⟨.storage m, rfl, mem_usedStorages.mp hm, hlarge⟩
    · rintro ⟨u, hu, huses, hlarge⟩
      cases u with
      | storage s => exact ⟨s, mem_usedStorages.mpr huses, hlarge⟩
      | table | column | index => cases hu
  | column t =>
    refine (hbind _ _ _).trans (or_congr Iff.rfl ⟨?_, ?_⟩)
    · rintro ⟨m, hm, hlarge⟩
      exact ⟨.column t m, rfl, mem_usedColumns.mp hm, hlarge⟩
    rintro ⟨u, hu, huses, hlarge⟩
    cases u with
    | column t' c =>
      cases hu
      exact ⟨c, mem_usedColumns.mpr huses, hlarge⟩
    | table | storage | index => cases hu
  | index t =>
    refine nextAfter_eq_none.trans (Iff.trans ⟨?_, ?_⟩ (false_or _).symm.to_iff)
    · rintro ⟨m, hm, hlarge⟩
      exact ⟨.index t m, rfl, mem_usedIndexes.mp hm, hlarge⟩
    rintro ⟨u, hu, huses, hlarge⟩
    cases u with
    | index t' i =>
      cases hu
      exact ⟨i, mem_usedIndexes.mpr huses, hlarge⟩
    | table | storage | column => cases hu

end SchemaMutationJournal

namespace World

variable {checks : Checks} {w w' w'' : World} {j j' : SchemaMutationJournal} {a : Allocator}

lemma Step.gone (h : Step checks w w') (hcommitted : w.floors.Committed a)
    (hgone : w.floors.Gone a) : w'.floors.Committed a ∧ w'.floors.Gone a := by
  cases h with
  | call call write hhandle hissued | redigest write hhandle hcall | crash
  | reopen hclosed hopen => exact ⟨hcommitted, hgone⟩
  | publish floors hhandle hadvances =>
    cases a with
    | table =>
      refine ⟨trivial, ?_⟩
      rcases hadvances.table with hsame | ⟨hsome, -⟩
      · exact hsame.trans hgone
      · simp [effectiveTable, show w.floors.table = none from hgone]
          at hsome
    | storage =>
      refine ⟨trivial, ?_⟩
      rcases hadvances.storage with hsame | hsome
      · exact hsame.trans hgone
      · simp [effectiveStorage, show w.floors.storage = none from hgone] at hsome
    | column t =>
      refine ⟨?_, ?_⟩
      · rcases hadvances.table with hsame | ⟨hsome, hle⟩
        · intro floor hfloor
          exact hcommitted floor (hsame ▸ hfloor)
        · obtain ⟨n, hn⟩ := Option.isSome_iff_exists.mp hsome
          obtain ⟨old, hold, -⟩ := Option.bind_eq_some_iff.mp hn
          exact fun floor hfloor => (hcommitted old hold).trans_le (hle old hold floor hfloor)
      · rcases hadvances.column t with hsame | hsome | ⟨floor, hfloor, hle⟩
        · exact hsame.trans hgone
        · simp [effectiveColumn, show w.floors.column t = none from hgone] at hsome
        · have := hcommitted floor hfloor
          omega
    | index t => exact hgone.elim

lemma Run.gone (h : Run checks w w') (hcommitted : w.floors.Committed a)
    (hgone : w.floors.Gone a) : w'.floors.Committed a ∧ w'.floors.Gone a := by
  induction h with
  | refl => exact ⟨hcommitted, hgone⟩
  | step _ hstep ih => exact hstep.gone ih.1 ih.2

lemma Run.exhausted (hvalid : w.Valid) (h : Run checks w w') (hhandle : w.handle = some j)
    (hhandle' : w'.handle = some j') (hcommitted : w.floors.Committed a)
    (hexhausted : j.Exhausted w.floors a) : j'.Exhausted w'.floors a := by
  rw [exhausted_iff] at hexhausted ⊢
  rcases hexhausted with hgone | ⟨u, hallocator, huses, hlarge⟩
  · exact .inl (h.gone hcommitted hgone).2
  · have hconsumed : u ∈ w.consumed := (hvalid.below j hhandle u huses).resolve_right hlarge
    exact .inr ⟨u, hallocator,
      (hvalid.run h).remembered j' hhandle' u (h.consumed_mono hconsumed), hlarge⟩

/-- Over every run of schema transactions, with failed and uncertain writes,
crashes, reopens and resolutions of any kind, an identity that the journal has
persisted is never answered again by the allocators with the floors of the
committed catalog, and an allocator that is exhausted stays exhausted. -/
theorem identities_never_reused (hstart : w.Starts) (hrun : Run checks w w')
    (hlater : Run checks w' w'') (hhandle : w''.handle = some j) :
    (∀ u ∈ w'.consumed, ¬ j.Returns w''.floors u) ∧
      ∀ j' a, w'.handle = some j' → w'.floors.Committed a →
        j'.Exhausted w'.floors a → j.Exhausted w''.floors a := by
  have hvalid : w'.Valid := hstart.valid.run hrun
  refine ⟨fun u hu hreturns => ?_, fun j' a hhandle' hcommitted hexhausted =>
    hlater.exhausted hvalid hhandle' hhandle hcommitted hexhausted⟩
  have huses := (hvalid.run hlater).remembered j hhandle u (hlater.consumed_mono hu)
  exact not_uses_of_returns hreturns huses

/-! A first reservation, a crash and a reopen. -/

def acceptAll : Checks :=
  ⟨fun _ => .ok (), fun _ _ => .ok (), fun _ _ _ => .ok (), fun _ _ _ _ => .ok (),
    fun _ _ => .ok (), fun _ => .ok (), fun _ => .ok (), fun _ => .ok (), fun _ => .ok (),
    fun _ => .ok (), fun _ _ => .ok (), fun _ => .ok (), fun _ => .ok ()⟩

def newDatabase : World :=
  ⟨[], none, ⟨some 1, some 1, fun _ => some 1, fun _ => 1⟩, ∅⟩

lemma newDatabase_starts : newDatabase.Starts := by
  have hfile : empty.records = [] := List.isEmpty_iff.mp (by decide +kernel)
  refine ⟨rfl, rfl, .empty, ⟨?_, ?_, ?_, fun txn f g hf => ?_, ?_⟩, hfile.symm⟩
  · intro txn r hr
    simp [empty] at hr
  · intro txn r hr
    simp [empty] at hr
  · intro txn r hr
    simp [empty] at hr
  · cases f <;> simp [Has, empty] at hf
  · intro txn c hc
    simp [empty] at hc

def opened : World :=
  { newDatabase with
    handle := some .empty
    consumed := newDatabase.consumed ∪ { u | empty.Uses u } }

def firstTable : Call := .reserveCompositionTable ⟨1, 1, some 2⟩

def reserved : World := opened.call acceptAll .empty firstTable .done

lemma reserved_consumed : Identity.table 1 ∈ reserved.consumed :=
  .inr ⟨by decide +kernel, mem_usedTables.mp (by decide +kernel)⟩

theorem identities_never_reused_reopened :
    Identity.table 1 ∈ reserved.consumed ∧
      ∃ w j, Run acceptAll reserved w ∧ w.handle = some j ∧
        j.effectiveTable w.floors.table ≠ some 1 := by
  have hopen : Step acceptAll newDatabase opened := .reopen rfl rfl
  have hreserve : Step acceptAll opened reserved :=
    .call firstTable .done rfl (by decide : 1 + 1 < 2 ^ 64)
  obtain ⟨j, hj⟩ : ∃ j, openJournal acceptAll reserved.file = .ok j := by
    have hok : (openJournal acceptAll reserved.file).toBool = true := by decide +kernel
    cases h : openJournal acceptAll reserved.file with
    | error e => simp [h, Except.toBool] at hok
    | ok j => exact ⟨j, rfl⟩
  have hcrash : Run acceptAll reserved { reserved with handle := none } := .step (.refl _) .crash
  have hreopened := hcrash.step (.reopen rfl hj)
  have hreserved : Run acceptAll newDatabase reserved := .step (.step (.refl _) hopen) hreserve
  exact ⟨reserved_consumed, _, j, hreopened, rfl,
    (identities_never_reused newDatabase_starts hreserved hreopened rfl).1 _ reserved_consumed⟩

end World

end Netbadb.Schema
