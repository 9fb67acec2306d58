import Netbadb.Schema.Mutations

/-!
The identities a journal has used, read off its maps and off its records.
`encode` writes a record for every identity in the maps, as long as no
transaction has two kinds of history.
-/

namespace Netbadb.Schema

open Std List CompositionRecord TreeMap SchemaIndexTablePlan

/-- What the allocators hand out; columns and indexes belong to a table. -/
inductive Identity where
  | table (table : Nat)
  | storage (storage : Nat)
  | column (table column : Nat)
  | index (table index : Nat)
deriving DecidableEq, Repr

namespace Identity

/-- The identity has a successor in its type. -/
def Below : Identity → Prop
  | table t => t + 1 < 2 ^ 64
  | storage s => s + 1 < 2 ^ 64
  | column _ c => c + 1 < 2 ^ 32
  | index _ i => i + 1 < 2 ^ 64

end Identity

def SchemaChangeSetIntent.storages (intent : SchemaChangeSetIntent) : List Nat :=
  intent.tables.map CompositionTablePlan.newStorage

def SchemaIndexChangeSetIntent.storages (intent : SchemaIndexChangeSetIntent) : List Nat :=
  (intent.tables.filterMap replacement).map CompositionTablePlan.newStorage

def TableObjectChangeSetIntent.storages (intent : TableObjectChangeSetIntent) : List Nat :=
  intent.tables.filterMap participantStorage

def Reservation.identities (r : Reservation) : List Identity :=
  [.table r.table, .storage r.storage]

def RewriteReservation.identities (r : RewriteReservation) : List Identity :=
  .storage r.storage :: r.column.toList.map (.column r.table)

namespace CompositionRecord

def storages (c : CompositionRecord) : List Nat :=
  c.intent.toList.flatMap SchemaChangeSetIntent.storages ++
    (c.indexIntent.toList.flatMap SchemaIndexChangeSetIntent.storages ++
      c.tableIntent.toList.flatMap TableObjectChangeSetIntent.storages)

def identities (c : CompositionRecord) : List Identity :=
  c.tableReservations.map (fun r => .table r.table) ++
    (c.reservations.map (fun r => .column r.table r.column) ++
      (c.indexReservations.map (fun r => .index r.table r.index) ++
        (c.migrationIndexReservations.map (fun r => .index r.table r.index) ++
          c.storages.map .storage)))

@[simp] lemma identities_empty (txn : Nat) : (empty txn).identities = [] := rfl

end CompositionRecord

def JournalRecord.identities : JournalRecord → List Identity
  | reservation _ table storage _ _ => [.table table, .storage storage]
  | rewriteReservation _ table storage column _ _ =>
    .storage storage :: column.toList.map (.column table)
  | compositionColumn _ table column _ => [.column table column]
  | compositionIntent _ intent => intent.storages.map .storage
  | compositionIndex _ table _ _ index _ => [.index table index]
  | schemaIndexIntent _ intent => intent.storages.map .storage
  | compositionTable _ table _ => [.table table]
  | tableObjectIntent _ intent => intent.storages.map .storage
  | migrationIndex _ table _ _ index _ => [.index table index]
  | _ => []

inductive Family where
  | create
  | drop
  | rewrite
  | composition
deriving DecidableEq, Repr

/-- The history a record opens or extends by an entry of its own. -/
def JournalRecord.family : JournalRecord → Option Family
  | reservation _ _ _ _ _ => some .create
  | drop _ _ _ _ => some .drop
  | rewriteReservation _ _ _ _ _ _ => some .rewrite
  | compositionColumn _ _ _ _ => some .composition
  | compositionIntent _ _ => some .composition
  | compositionIndex _ _ _ _ _ _ => some .composition
  | schemaIndexIntent _ _ => some .composition
  | compositionTable _ _ _ => some .composition
  | tableObjectIntent _ _ => some .composition
  | migrationIndex _ _ _ _ _ _ => some .composition
  | _ => none

def JournalRecord.isMigration : JournalRecord → Bool
  | migrationIndex _ _ _ _ _ _ => true
  | _ => false

def JournalRecord.isTableObject : JournalRecord → Bool
  | tableObjectIntent _ _ => true
  | _ => false

variable {r : JournalRecord} {c : CompositionRecord}

lemma JournalRecord.identities_of_no_family (h : r.family = none) : r.identities = [] := by
  cases r <;> first | rfl | simp [family] at h

lemma JournalRecord.family_of_isMigration (h : r.isMigration = true) :
    r.family = some .composition := by
  unfold isMigration at h
  split at h
  · rfl
  · cases h

lemma JournalRecord.family_of_isTableObject (h : r.isTableObject = true) :
    r.family = some .composition := by
  unfold isTableObject at h
  split at h
  · rfl
  · cases h

namespace SchemaMutationJournal

variable {j : SchemaMutationJournal} {txn : Nat} {u : Identity}

def Has (j : SchemaMutationJournal) : Family → Nat → Prop
  | .create, txn => (j.reservations[txn]?).isSome
  | .drop, txn => (j.drops[txn]?).isSome
  | .rewrite, txn => (j.rewriteReservations[txn]?).isSome
  | .composition, txn => (j.compositions[txn]?).isSome

/-- An identity that some entry of the journal has consumed. -/
def Uses (j : SchemaMutationJournal) (u : Identity) : Prop :=
  (∃ (txn : Nat) (r : Reservation), j.reservations[txn]? = some r ∧ u ∈ r.identities) ∨
  (∃ (txn : Nat) (r : RewriteReservation),
    j.rewriteReservations[txn]? = some r ∧ u ∈ r.identities) ∨
  ∃ (txn : Nat) (c : CompositionRecord), j.compositions[txn]? = some c ∧ u ∈ c.identities

/-- What the calls keep of a journal: entries stand under their transaction, a
transaction has one kind of history, and migration reservations stand beside a
schema or schema/index intent and never beside a table-object intent. -/
structure Sound (j : SchemaMutationJournal) : Prop where
  reservations_keyed : ∀ (txn : Nat) (r : Reservation), j.reservations[txn]? = some r →
    r.transaction = txn
  drops_keyed : ∀ (txn : Nat) (d : DropIntent), j.drops[txn]? = some d → d.transaction = txn
  rewrites_keyed : ∀ (txn : Nat) (r : RewriteReservation), j.rewriteReservations[txn]? = some r →
    r.transaction = txn
  apart : ∀ txn f g, j.Has f txn → j.Has g txn → f = g
  separate : ∀ (txn : Nat) (c : CompositionRecord), j.compositions[txn]? = some c →
    c.migrationIndexReservations = [] ∨
      (c.tableIntent = none ∧ (c.intent.isSome ∨ c.indexIntent.isSome))

variable {t i : Nat}

lemma mem_usedTables : t ∈ j.usedTables ↔ j.Uses (.table t) := by
  simp only [usedTables, Uses, mem_append, mem_map, mem_flatMap, Prod.exists,
    mem_toList_iff_getElem?_eq_some, Reservation.identities,
    RewriteReservation.identities, identities]
  constructor
  · rintro (⟨txn, r, h, rfl⟩ | ⟨txn, c, h, r, hr, rfl⟩)
    · exact .inl ⟨txn, r, h, by simp⟩
    · exact .inr (.inr ⟨txn, c, h, .inl ⟨r, hr, rfl⟩⟩)
  · rintro (⟨txn, r, h, hu⟩ | ⟨txn, r, h, hu⟩ | ⟨txn, c, h, hu⟩)
    · exact .inl ⟨txn, r, h, by simpa [eq_comm] using hu⟩
    · simp at hu
    · exact .inr ⟨txn, c, h, by simpa using hu⟩

lemma mem_usedStorages {s : Nat} : s ∈ j.usedStorages ↔ j.Uses (.storage s) := by
  simp only [usedStorages, Uses, mem_append, mem_map, mem_flatMap, Prod.exists,
    mem_toList_iff_getElem?_eq_some, Reservation.identities, RewriteReservation.identities]
  constructor
  · rintro (⟨txn, r, h, rfl⟩ | ⟨txn, r, h, rfl⟩ | ⟨txn, c, h, i, hi, hs⟩ | ⟨txn, c, h, i, hi, hs⟩ |
      ⟨txn, c, h, i, hi, hs⟩)
    · exact .inl ⟨txn, r, h, by simp⟩
    · exact .inr (.inl ⟨txn, r, h, by simp⟩)
    · refine .inr (.inr ⟨txn, c, h, ?_⟩)
      simp only [identities, storages, mem_append, mem_map, mem_flatMap]
      exact .inr (.inr (.inr (.inr ⟨s, .inl ⟨i, hi, mem_map.mpr hs⟩, rfl⟩)))
    · refine .inr (.inr ⟨txn, c, h, ?_⟩)
      simp only [identities, storages, mem_append, mem_map, mem_flatMap]
      exact .inr (.inr (.inr (.inr ⟨s, .inr (.inl ⟨i, hi, mem_map.mpr hs⟩), rfl⟩)))
    · refine .inr (.inr ⟨txn, c, h, ?_⟩)
      simp only [identities, storages, mem_append, mem_map, mem_flatMap]
      exact .inr (.inr (.inr (.inr ⟨s, .inr (.inr ⟨i, hi, hs⟩), rfl⟩)))
  · rintro (⟨txn, r, h, hu⟩ | ⟨txn, r, h, hu⟩ | ⟨txn, c, h, hu⟩)
    · exact .inl ⟨txn, r, h, by simpa [eq_comm] using hu⟩
    · exact .inr (.inl ⟨txn, r, h, by simpa [eq_comm] using hu⟩)
    · have hs : s ∈ c.storages := by simpa [identities] using hu
      simp only [storages, mem_append, mem_flatMap] at hs
      obtain ⟨i, hi, hs⟩ | ⟨i, hi, hs⟩ | ⟨i, hi, hs⟩ := hs
      · exact .inr (.inr (.inl ⟨txn, c, h, i, hi, mem_map.mp hs⟩))
      · exact .inr (.inr (.inr (.inl ⟨txn, c, h, i, hi, mem_map.mp hs⟩)))
      · exact .inr (.inr (.inr (.inr ⟨txn, c, h, i, hi, hs⟩)))

lemma mem_usedIndexes : i ∈ j.usedIndexes t ↔ j.Uses (.index t i) := by
  simp only [usedIndexes, Uses, mem_map, mem_filter, mem_flatMap, Prod.exists,
    mem_toList_iff_getElem?_eq_some, mem_append, decide_eq_true_eq,
    Reservation.identities, RewriteReservation.identities]
  constructor
  · rintro ⟨r, ⟨⟨txn, c, h, hr⟩, rfl⟩, rfl⟩
    refine .inr (.inr ⟨txn, c, h, ?_⟩)
    simp only [identities, mem_append, mem_map]
    exact hr.elim (fun hr => .inr (.inr (.inl ⟨r, hr, rfl⟩)))
      fun hr => .inr (.inr (.inr (.inl ⟨r, hr, rfl⟩)))
  · rintro (⟨txn, r, h, hu⟩ | ⟨txn, r, h, hu⟩ | ⟨txn, c, h, hu⟩)
    · simp at hu
    · simp at hu
    · simp only [identities, mem_append, mem_map, reduceCtorEq,
        and_false, exists_false, false_or, or_false, Identity.index.injEq] at hu
      obtain ⟨r, hr, rfl, rfl⟩ | ⟨r, hr, rfl, rfl⟩ := hu
      · exact ⟨r, ⟨⟨txn, c, h, .inl hr⟩, rfl⟩, rfl⟩
      · exact ⟨r, ⟨⟨txn, c, h, .inr hr⟩, rfl⟩, rfl⟩

lemma mem_usedColumns : i ∈ j.usedColumns t ↔ j.Uses (.column t i) := by
  simp only [usedColumns, Uses, mem_append, mem_filterMap, mem_map, mem_filter, mem_flatMap,
    Prod.exists, mem_toList_iff_getElem?_eq_some, decide_eq_true_eq, Reservation.identities]
  constructor
  · rintro (⟨r, ⟨⟨txn, r', h, rfl⟩, rfl⟩, hc⟩ | ⟨r, ⟨⟨txn, c, h, hr⟩, rfl⟩, rfl⟩)
    · exact .inr (.inl ⟨txn, r', h, by simp [RewriteReservation.identities, hc]⟩)
    · refine .inr (.inr ⟨txn, c, h, ?_⟩)
      simp only [identities, mem_append, mem_map]
      exact .inr (.inl ⟨r, hr, rfl⟩)
  · rintro (⟨txn, r, h, hu⟩ | ⟨txn, r, h, hu⟩ | ⟨txn, c, h, hu⟩)
    · simp at hu
    · simp only [RewriteReservation.identities, mem_cons, reduceCtorEq, mem_map,
        Option.mem_toList, Identity.column.injEq, false_or] at hu
      obtain ⟨c, hc, rfl, rfl⟩ := hu
      exact .inl ⟨r, ⟨⟨txn, r, h, rfl⟩, rfl⟩, hc⟩
    · simp only [identities, mem_append, mem_map, reduceCtorEq,
        and_false, exists_false, false_or, or_false, Identity.column.injEq] at hu
      obtain ⟨r, hr, rfl, rfl⟩ := hu
      exact .inr ⟨r, ⟨⟨txn, c, h, hr⟩, rfl⟩, rfl⟩

section Allocator

variable {bits floor n : Nat} {used : List Nat}

/-- An allocator never gives an identity its history has. -/
lemma nextAfter_not_mem (h : nextAfter bits used floor = some n) : n ∉ used := by
  intro hn
  unfold nextAfter at h
  split at h
  · next hmax => exact absurd hn (by simp [max?_eq_none_iff.mp hmax])
  rename_i m hmax
  have hle : n ≤ m := (max?_eq_some_iff.mp hmax).2 n hn
  split at h
  · cases h
    omega
  · cases h

end Allocator

end SchemaMutationJournal

@[simp] lemma CompositionTablePlan.newStorage_planned (plan : CompositionTablePlan) :
    plan.planned.newStorage = plan.newStorage := rfl

@[simp] lemma SchemaIndexTablePlan.replacement_planned (plan : SchemaIndexTablePlan) :
    plan.planned.replacement = plan.replacement.map CompositionTablePlan.planned := by
  cases plan <;> rfl

@[simp] lemma SchemaIndexTablePlan.participantStorage_planned (plan : SchemaIndexTablePlan) :
    plan.planned.participantStorage = plan.participantStorage := by
  cases plan <;> rfl

lemma SchemaChangeSetIntent.storages_planned (intent : SchemaChangeSetIntent) :
    storages { intent with tables := intent.tables.map CompositionTablePlan.planned } =
      intent.storages := by
  simp [storages, Function.comp_def]

lemma SchemaIndexChangeSetIntent.storages_planned (intent : SchemaIndexChangeSetIntent) :
    storages { intent with tables := intent.tables.map planned } =
      intent.storages := by
  simp only [storages, filterMap_map, Function.comp_def, replacement_planned]
  rw [← map_filterMap, map_map]
  rfl

lemma TableObjectChangeSetIntent.storages_planned (intent : TableObjectChangeSetIntent) :
    storages { intent with tables := intent.tables.map planned } =
      intent.storages := by
  simp [storages, filterMap_map]

namespace SchemaMutationJournal

variable {j : SchemaMutationJournal} {txn : Nat} {u : Identity}

lemma mem_sortReservations {α : Type} {table id : α → Nat} {l : List α} {a : α} :
    a ∈ sortReservations table id l ↔ a ∈ l := by
  simp [sortReservations]

lemma exists_compositionRecord (txn : Nat) (hu : u ∈ c.identities) :
    ∃ r ∈ compositionRecords txn c, u ∈ r.identities := by
  simp only [identities, storages, mem_append, mem_map, mem_flatMap, Option.mem_toList] at hu
  simp only [compositionRecords, mem_append, mem_map, mem_flatMap,
    mem_sortReservations, Option.mem_toList]
  obtain ⟨r, hr, rfl⟩ | ⟨r, hr, rfl⟩ | ⟨r, hr, rfl⟩ | ⟨r, hr, rfl⟩ |
    ⟨s, ⟨i, hi, hs⟩ | ⟨i, hi, hs⟩ | ⟨i, hi, hs⟩, rfl⟩ := hu
  · exact ⟨_, .inl ⟨r, hr, rfl⟩, by simp [JournalRecord.identities]⟩
  · exact ⟨_, .inr (.inl ⟨r, hr, rfl⟩), by simp [JournalRecord.identities]⟩
  · exact ⟨_, .inr (.inr (.inl ⟨r, hr, rfl⟩)), by simp [JournalRecord.identities]⟩
  · exact ⟨_, .inr (.inr (.inr (.inl ⟨r, hr, rfl⟩))), by simp [JournalRecord.identities]⟩
  · refine ⟨_, .inr (.inr (.inr (.inr (.inl ⟨i, hi, mem_cons_self⟩)))), ?_⟩
    rw [JournalRecord.identities, SchemaChangeSetIntent.storages_planned]
    exact mem_map_of_mem hs
  · refine ⟨_, .inr (.inr (.inr (.inr (.inr (.inl ⟨i, hi, mem_cons_self⟩))))), ?_⟩
    rw [JournalRecord.identities, SchemaIndexChangeSetIntent.storages_planned]
    exact mem_map_of_mem hs
  · refine ⟨_, .inr (.inr (.inr (.inr (.inr (.inr (.inl ⟨i, hi, mem_cons_self⟩)))))), ?_⟩
    rw [JournalRecord.identities, TableObjectChangeSetIntent.storages_planned]
    exact mem_map_of_mem hs

variable {f : Family}

lemma mem_transactions (h : j.Has f txn) : txn ∈ j.transactions := by
  simp only [transactions, mem_dedup, mem_mergeSort, mem_append, TreeMap.mem_keys]
  cases f with
  | create => exact .inl (mem_iff_isSome_getElem?.mpr h)
  | drop => exact .inr (.inl (mem_iff_isSome_getElem?.mpr h))
  | rewrite => exact .inr (.inr (.inl (mem_iff_isSome_getElem?.mpr h)))
  | composition => exact .inr (.inr (.inr (.inl (mem_iff_isSome_getElem?.mpr h))))

lemma mem_records_of_transaction (h : j.Has f txn) (hr : r ∈ j.transactionRecords txn) :
    r ∈ j.records :=
  mem_append_left _ (mem_flatMap.mpr ⟨txn, mem_transactions h, hr⟩)

/-- A transaction without a history of the kind. -/
lemma Sound.absent (h : j.Sound) {g : Family} (hf : j.Has f txn) (hne : f ≠ g) :
    ¬ j.Has g txn := fun hg => hne (h.apart txn f g hf hg)

lemma Sound.transactionRecords_rewrite (h : j.Sound) {r : RewriteReservation}
    (hr : j.rewriteReservations[txn]? = some r) :
    j.transactionRecords txn = j.rewriteRecords txn r := by
  have hhas : j.Has .rewrite txn := by simp [Has, hr]
  have hcreate : j.reservations[txn]? = none := by
    simpa [Has] using h.absent hhas (by decide : Family.rewrite ≠ .create)
  have hdrop : j.drops[txn]? = none := by
    simpa [Has] using h.absent hhas (by decide : Family.rewrite ≠ .drop)
  simp [transactionRecords, hcreate, hdrop, hr]

lemma Sound.transactionRecords_composition (h : j.Sound) (hc : j.compositions[txn]? = some c) :
    j.transactionRecords txn = compositionRecords txn c := by
  have hhas : j.Has .composition txn := by simp [Has, hc]
  have hcreate : j.reservations[txn]? = none := by
    simpa [Has] using h.absent hhas (by decide : Family.composition ≠ .create)
  have hdrop : j.drops[txn]? = none := by
    simpa [Has] using h.absent hhas (by decide : Family.composition ≠ .drop)
  have hrewrite : j.rewriteReservations[txn]? = none := by
    simpa [Has] using h.absent hhas (by decide : Family.composition ≠ .rewrite)
  simp [transactionRecords, hcreate, hdrop, hrewrite, hc]

/-- The file holds every identity of the journal it was written from. -/
lemma Sound.exists_record (h : j.Sound) (hu : j.Uses u) : ∃ r ∈ j.records, u ∈ r.identities := by
  obtain ⟨txn, r, hr, hu⟩ | ⟨txn, r, hr, hu⟩ | ⟨txn, c, hc, hu⟩ := hu
  · have hhas : j.Has .create txn := by simp [Has, hr]
    refine ⟨.reservation r.transaction r.table r.storage r.baseGeneration r.baseEpoch,
      mem_records_of_transaction hhas ?_, hu⟩
    simp [transactionRecords, hr, createRecords]
  · have hhas : j.Has .rewrite txn := by simp [Has, hr]
    refine ⟨.rewriteReservation r.transaction r.table r.storage r.column r.baseGeneration
      r.baseEpoch, mem_records_of_transaction hhas ?_, hu⟩
    rw [h.transactionRecords_rewrite hr]
    simp [rewriteRecords]
  · have hhas : j.Has .composition txn := by simp [Has, hc]
    obtain ⟨r, hr, hu⟩ := exists_compositionRecord txn hu
    exact ⟨r, mem_records_of_transaction hhas (by rwa [h.transactionRecords_composition hc]), hu⟩

end SchemaMutationJournal

/-- What a file keeps of the soundness of the journal it was written from. -/
structure Coherent (file : List JournalRecord) : Prop where
  family : ∀ a ∈ file, ∀ b ∈ file, a.txn = b.txn →
    ∀ f g, a.family = some f → b.family = some g → f = g
  separate : ∀ a ∈ file, ∀ b ∈ file, a.txn = b.txn →
    a.isMigration = true → b.isTableObject = false

structure JournalRecord.Stems (j : SchemaMutationJournal) (r : JournalRecord) : Prop where
  family : ∀ f, r.family = some f → j.Has f r.txn
  migration : r.isMigration = true → ∃ c : CompositionRecord,
    j.compositions[r.txn]? = some c ∧ c.migrationIndexReservations ≠ []
  tableObject : r.isTableObject = true → ∃ c : CompositionRecord,
    j.compositions[r.txn]? = some c ∧ c.tableIntent.isSome

namespace SchemaMutationJournal

variable {j : SchemaMutationJournal} {txn : Nat} {u : Identity}

lemma stems_of_no_family (hfamily : r.family = none) : r.Stems j where
  family f h := by simp [hfamily] at h
  migration h := by simp [JournalRecord.family_of_isMigration h] at hfamily
  tableObject h := by simp [JournalRecord.family_of_isTableObject h] at hfamily

variable {gc : Option RetiredHeapGcRecord} {table : Nat}

lemma family_of_mem_gcRecords (h : r ∈ gcRecords txn gc) : r.family = none := by
  unfold gcRecords at h
  split at h
  · cases h
  · rcases mem_cons.mp h with rfl | h
    · rfl
    · split at h <;> simp_all [JournalRecord.family]

lemma stems_of_mem_createRecords (h : j.Sound) {c : Reservation}
    (hc : j.reservations[txn]? = some c) (hr : r ∈ createRecords c) : r.Stems j := by
  simp only [createRecords, mem_cons, mem_append, mem_map] at hr
  obtain rfl | ⟨_, _, rfl⟩ | ⟨_, _, rfl⟩ := hr
  · refine ⟨fun f hf => ?_, nofun, nofun⟩
    cases hf
    simp [Has, JournalRecord.txn, h.reservations_keyed txn c hc, hc]
  all_goals exact stems_of_no_family rfl

lemma stems_of_mem_dropRecords (h : j.Sound) {d : DropIntent}
    (hd : j.drops[txn]? = some d) (hr : r ∈ dropRecords d) : r.Stems j := by
  simp only [dropRecords, mem_cons, mem_append, mem_map] at hr
  obtain rfl | hr | ⟨_, _, rfl⟩ | hr := hr
  · refine ⟨fun f hf => ?_, nofun, nofun⟩
    cases hf
    simp [Has, JournalRecord.txn, h.drops_keyed txn d hd, hd]
  · split at hr
    · rw [mem_singleton.mp hr]
      exact stems_of_no_family rfl
    · cases hr
  · exact stems_of_no_family rfl
  · exact stems_of_no_family (family_of_mem_gcRecords hr)

lemma stems_of_mem_rewriteRecords (h : j.Sound) {c : RewriteReservation}
    (hc : j.rewriteReservations[txn]? = some c) (hr : r ∈ j.rewriteRecords txn c) : r.Stems j := by
  rcases mem_cons.mp hr with rfl | hr
  · refine ⟨fun f hf => ?_, nofun, nofun⟩
    cases hf
    simp [Has, JournalRecord.txn, h.rewrites_keyed txn c hc, hc]
  refine stems_of_no_family ?_
  split at hr
  · simp only [mem_cons, mem_append, mem_map] at hr
    obtain rfl | hr | ⟨_, _, rfl⟩ | hr := hr
    · rfl
    · split at hr <;> simp_all [JournalRecord.family]
    · rfl
    · exact family_of_mem_gcRecords hr
  · split at hr <;> simp_all [JournalRecord.family]

lemma family_of_mem_compositionGcRecords (h : r ∈ compositionGcRecords txn table gc) :
    r.family = none := by
  unfold compositionGcRecords at h
  split at h
  · cases h
  · rcases mem_cons.mp h with rfl | h
    · rfl
    · split at h <;> simp_all [JournalRecord.family]

lemma family_of_mem_tableObjectGcRecords (h : r ∈ tableObjectGcRecords txn table gc) :
    r.family = none := by
  unfold tableObjectGcRecords at h
  split at h
  · cases h
  · rcases mem_cons.mp h with rfl | h
    · rfl
    · split at h <;> simp_all [JournalRecord.family]

lemma stems_of_mem_compositionRecords (hc : j.compositions[txn]? = some c)
    (hr : r ∈ compositionRecords txn c) : r.Stems j := by
  have hhas : j.Has .composition txn := by simp [Has, hc]
  simp only [compositionRecords, mem_append, mem_map, mem_flatMap, mem_cons,
    mem_sortReservations, Option.mem_toList] at hr
  obtain ⟨_, _, rfl⟩ | ⟨_, _, rfl⟩ | ⟨_, _, rfl⟩ | ⟨m, hm, rfl⟩ | ⟨_, _, rfl | ⟨_, _, rfl⟩⟩ |
    ⟨_, _, rfl | ⟨_, _, rfl⟩⟩ | ⟨i, hi, rfl | ⟨_, _, rfl⟩⟩ | ⟨_, _, rfl⟩ | ⟨_, _, _, _, hr⟩ |
    ⟨_, _, _, _, hr⟩ | ⟨_, _, _, _, hr⟩ := hr
  · exact ⟨fun f hf => by cases hf; exact hhas, nofun, nofun⟩
  · exact ⟨fun f hf => by cases hf; exact hhas, nofun, nofun⟩
  · exact ⟨fun f hf => by cases hf; exact hhas, nofun, nofun⟩
  · exact ⟨fun f hf => by cases hf; exact hhas,
      fun _ => ⟨c, hc, ne_nil_of_mem hm⟩, nofun⟩
  · exact ⟨fun f hf => by cases hf; exact hhas, nofun, nofun⟩
  · exact stems_of_no_family rfl
  · exact ⟨fun f hf => by cases hf; exact hhas, nofun, nofun⟩
  · exact stems_of_no_family rfl
  · exact ⟨fun f hf => by cases hf; exact hhas, nofun, fun _ => ⟨c, hc, by simp [hi]⟩⟩
  · exact stems_of_no_family rfl
  · exact stems_of_no_family rfl
  · exact stems_of_no_family (family_of_mem_compositionGcRecords hr)
  · exact stems_of_no_family (family_of_mem_compositionGcRecords hr)
  · exact stems_of_no_family (family_of_mem_tableObjectGcRecords hr)

lemma Sound.stems (h : j.Sound) (hr : r ∈ j.records) : r.Stems j := by
  simp only [records, mem_append, mem_flatMap, mem_map] at hr
  obtain ⟨txn, -, hr⟩ | ⟨_, _, rfl⟩ | ⟨_, _, rfl⟩ | ⟨_, _, rfl⟩ | ⟨_, _, rfl⟩ := hr
  · unfold transactionRecords at hr
    split at hr
    · next c hc => exact stems_of_mem_createRecords h hc hr
    split at hr
    · next d hd => exact stems_of_mem_dropRecords h hd hr
    split at hr
    · next c hc => exact stems_of_mem_rewriteRecords h hc hr
    · split at hr
      · next c hc => exact stems_of_mem_compositionRecords hc hr
      · cases hr
  all_goals exact stems_of_no_family rfl

lemma Sound.records_coherent (h : j.Sound) : Coherent j.records where
  family a ha b hb htxn f g hf hg :=
    h.apart a.txn f g ((h.stems ha).family f hf) (htxn ▸ (h.stems hb).family g hg)
  separate a ha b hb htxn hmigration := by
    obtain ⟨c, hc, hne⟩ := (h.stems ha).migration hmigration
    by_contra htable
    obtain ⟨c', hc', hsome⟩ := (h.stems hb).tableObject (by simpa using htable)
    rw [← htxn, hc] at hc'
    cases hc'
    rcases h.separate a.txn c hc with hnil | ⟨hnone, -⟩
    · exact hne hnil
    · simp [hnone] at hsome

end SchemaMutationJournal

end Netbadb.Schema
