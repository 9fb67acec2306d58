import Mathlib.Data.List.Basic
import Mathlib.Data.List.Dedup
import Mathlib.Data.List.MinMax
import Netbadb.Library.Outcome

/-!
The schema mutation journal: the history of reservations, intents and
resolutions that, joined with the floors of the committed catalog, is the
allocator of table, storage, column and index identities.

The journal is rewritten whole. Its file is modelled as the list of records it
frames, in the order `encode` writes them; the envelopes, checksums and byte
layout of a record are left out. What a record carries and no function here
reads is kept as bytes, and the validations that read those bytes are a
parameter, `Checks`: nothing below depends on what they accept.
-/

namespace Netbadb.Schema

open Std

inductive SchemaMutationError where
  | corrupt (reason : String)
  | recoveryRequired
  | io
deriving DecidableEq, Repr

/-- Bytes of a record that only the validations read. -/
abbrev Detail := List UInt8

/-- The one-table catalog snapshot that intents and plans carry. -/
structure Fragment where
  table : Nat
  storage : Nat
  nextTableId : Option Nat
  nextStorageId : Option Nat
  generation : Nat
  epoch : Nat
  detail : Detail

structure RetiredHeapGcRecord where
  coordinatorHorizon : Nat
  manifestDigest : Detail
  complete : Bool

/-- A CREATE TABLE of the first journal format: both identities at once. -/
structure Reservation where
  transaction : Nat
  table : Nat
  storage : Nat
  baseGeneration : Nat
  baseEpoch : Nat
  intent : Option Fragment
  resolved : Option Bool

structure DropIntent where
  transaction : Nat
  fragment : Fragment
  targetGeneration : Nat
  targetEpoch : Nat
  retired : Bool
  resolved : Option Bool
  gc : Option RetiredHeapGcRecord

structure RewriteReservation where
  transaction : Nat
  table : Nat
  storage : Nat
  column : Option Nat
  baseGeneration : Nat
  baseEpoch : Nat

structure RewriteIntent where
  reservation : RewriteReservation
  base : Fragment
  target : Fragment
  detail : Detail
  retired : Bool
  resolved : Option Bool
  gc : Option RetiredHeapGcRecord

structure CompositionColumnReservation where
  transaction : Nat
  table : Nat
  column : Nat
  nextColumnId : Option Nat

structure CompositionIndexReservation where
  transaction : Nat
  table : Nat
  tableVersion : Nat
  fingerprint : Detail
  index : Nat
  nextIndexId : Option Nat

/-- A table identity is consumed without a storage: the storage is allocated
only when the final aggregate still holds the table. -/
structure CompositionTableReservation where
  transaction : Nat
  table : Nat
  nextTableId : Option Nat

structure CompositionTablePlan where
  base : Fragment
  target : Fragment
  retired : Bool
  gc : Option RetiredHeapGcRecord

namespace CompositionTablePlan

variable (plan : CompositionTablePlan)

def table : Nat := plan.base.table

def oldStorage : Nat := plan.base.storage

def newStorage : Nat := plan.target.storage

end CompositionTablePlan

structure HeapRewriteIndex where
  id : Nat
  detail : Detail
deriving DecidableEq, Repr

structure HeapRewriteIndexes where
  active : List HeapRewriteIndex
  nextIndexId : Nat

inductive SchemaIndexTablePlan where
  | createHeap (target : Fragment) (finalIndexes : HeapRewriteIndexes)
  | dropHeap (base : Fragment) (retired : Bool) (gc : Option RetiredHeapGcRecord)
  | rewriteHeap (replacement : CompositionTablePlan) (baseIndexes finalIndexes : HeapRewriteIndexes)
  | inPlaceIndexDelta (table tableVersion : Nat) (fingerprint : Detail) (storage : Nat)
      (baseIndexes finalIndexes : HeapRewriteIndexes)

namespace SchemaIndexTablePlan

def table : SchemaIndexTablePlan → Nat
  | createHeap target _ => target.table
  | dropHeap base _ _ => base.table
  | rewriteHeap replacement _ _ => replacement.table
  | inPlaceIndexDelta table _ _ _ _ _ => table

/-- The storage that takes part in the commit; a dropped Heap has none. -/
def participantStorage : SchemaIndexTablePlan → Option Nat
  | createHeap target _ => some target.storage
  | dropHeap _ _ _ => none
  | rewriteHeap replacement _ _ => some replacement.newStorage
  | inPlaceIndexDelta _ _ _ storage _ _ => some storage

def replacement : SchemaIndexTablePlan → Option CompositionTablePlan
  | rewriteHeap replacement _ _ => some replacement
  | createHeap _ _ => none
  | dropHeap _ _ _ => none
  | inPlaceIndexDelta _ _ _ _ _ _ => none

end SchemaIndexTablePlan

structure SchemaChangeSetIntent where
  transaction : Nat
  baseGeneration : Nat
  targetGeneration : Nat
  baseEpoch : Nat
  targetEpoch : Nat
  actionCount : Nat
  detail : Detail
  tables : List CompositionTablePlan

structure SchemaIndexChangeSetIntent where
  transaction : Nat
  baseGeneration : Nat
  targetGeneration : Option Nat
  baseEpoch : Nat
  targetEpoch : Option Nat
  actionCount : Nat
  actionDigest : Detail
  snapshotDigest : Option Detail
  tables : List SchemaIndexTablePlan

structure TableObjectChangeSetIntent where
  transaction : Nat
  baseGeneration : Nat
  targetGeneration : Nat
  baseEpoch : Nat
  targetEpoch : Nat
  actionCount : Nat
  detail : Detail
  tables : List SchemaIndexTablePlan

inductive CompositionResolution where
  | loser
  | noEffectiveChange
  | winner
deriving DecidableEq, Repr

/-- All one composed schema transaction has journaled. The migration
reservations are apart from the others because they are accepted after the
intent is durable. -/
structure CompositionRecord where
  transaction : Nat
  tableReservations : List CompositionTableReservation
  reservations : List CompositionColumnReservation
  intent : Option SchemaChangeSetIntent
  indexReservations : List CompositionIndexReservation
  migrationIndexReservations : List CompositionIndexReservation
  indexIntent : Option SchemaIndexChangeSetIntent
  tableIntent : Option TableObjectChangeSetIntent
  resolution : Option CompositionResolution

def CompositionRecord.empty (transaction : Nat) : CompositionRecord :=
  ⟨transaction, [], [], none, [], [], none, none, none⟩

structure StageResourceIntent where
  transaction : Nat
  table : Nat
  storage : Nat
  provisional : Fragment
  stageLocator : String
  finalLocator : String
  detail : Detail

structure FinalizationIntent where
  transaction : Nat
  table : Nat
  storage : Nat
  stageLocator : String
  finalLocator : String
  detail : Detail

structure MigrationIndexFinalizationIntent where
  transaction : Nat
  table : Nat
  storage : Nat
  finalTableVersion : Nat
  stageLocator : String
  finalLocator : String
  finalIndexes : HeapRewriteIndexes
  detail : Detail

structure SourceBackfillIntent where
  transaction : Nat
  table : Nat
  sourceStorage : Nat
  targetStorage : Nat
  detail : Detail

/-- The maps are keyed by the database transaction. -/
structure SchemaMutationJournal where
  reservations : TreeMap Nat Reservation
  drops : TreeMap Nat DropIntent
  rewriteReservations : TreeMap Nat RewriteReservation
  rewrites : TreeMap Nat RewriteIntent
  rewriteLosers : TreeSet Nat
  compositions : TreeMap Nat CompositionRecord
  stageIntents : TreeMap Nat StageResourceIntent
  finalizationIntents : TreeMap Nat FinalizationIntent
  migrationFinalizationIntents : TreeMap Nat MigrationIndexFinalizationIntent
  sourceBackfillIntents : TreeMap Nat SourceBackfillIntent
  poisoned : Bool

namespace SchemaMutationJournal

def empty : SchemaMutationJournal :=
  ⟨∅, ∅, ∅, ∅, ∅, ∅, ∅, ∅, ∅, ∅, false⟩

/-- `max().map_or(Some(floor), |max| max.checked_add(1).map(|n| n.max(floor)))`
over the identities the history has used, in a type of `bits` bits. -/
def nextAfter (bits : Nat) (used : List Nat) (floor : Nat) : Option Nat :=
  match used.max? with
  | none => some floor
  | some m => if m + 1 < 2 ^ bits then some (max (m + 1) floor) else none

variable (j : SchemaMutationJournal)

def usedTables : List Nat :=
  j.reservations.toList.map (fun entry => entry.2.table) ++
    j.compositions.toList.flatMap fun entry =>
      entry.2.tableReservations.map (·.table)

def usedStorages : List Nat :=
  j.reservations.toList.map (fun entry => entry.2.storage) ++
    (j.rewriteReservations.toList.map (fun entry => entry.2.storage) ++
      (j.compositions.toList.flatMap (fun entry =>
          entry.2.intent.toList.flatMap fun intent =>
            intent.tables.map CompositionTablePlan.newStorage) ++
        (j.compositions.toList.flatMap (fun entry =>
            entry.2.indexIntent.toList.flatMap fun intent =>
              (intent.tables.filterMap SchemaIndexTablePlan.replacement).map
                CompositionTablePlan.newStorage) ++
          j.compositions.toList.flatMap fun entry =>
            entry.2.tableIntent.toList.flatMap fun intent =>
              intent.tables.filterMap SchemaIndexTablePlan.participantStorage)))

def usedIndexes (table : Nat) : List Nat :=
  ((j.compositions.toList.flatMap fun entry =>
      entry.2.indexReservations ++ entry.2.migrationIndexReservations).filter
    (·.table = table)).map (·.index)

def usedColumns (table : Nat) : List Nat :=
  ((j.rewriteReservations.toList.map (·.2)).filter (·.table = table)).filterMap (·.column) ++
    ((j.compositions.toList.flatMap (·.2.reservations)).filter (·.table = table)).map (·.column)

def effectiveTable (floor : Option Nat) : Option Nat :=
  floor.bind (nextAfter 64 j.usedTables)

def effectiveStorage (floor : Option Nat) : Option Nat :=
  floor.bind (nextAfter 64 j.usedStorages)

def effectiveIndex (table floor : Nat) : Option Nat :=
  nextAfter 64 (j.usedIndexes table) floor

def effectiveColumn (table : Nat) (floor : Option Nat) : Option Nat :=
  floor.bind (nextAfter 32 (j.usedColumns table))

end SchemaMutationJournal

/-- One record of the file. The number of the tag the source writes stands
beside each. -/
inductive JournalRecord where
  | reservation (txn table storage generation epoch : Nat) -- 1
  | createIntent (txn : Nat) (fragment : Fragment) -- 2
  | resolution (txn : Nat) (committed : Bool) -- 3, 4
  | drop (txn targetGeneration targetEpoch : Nat) (fragment : Fragment) -- 5
  | dropRetired (txn : Nat) -- 6
  | dropResolution (txn : Nat) (committed : Bool) -- 7, 8
  | gc (txn horizon : Nat) (manifestDigest : Detail) -- 9
  | gcComplete (txn : Nat) -- 10
  | rewriteReservation (txn table storage : Nat) (column : Option Nat) (generation epoch : Nat) -- 11
  | rewriteIntent (txn : Nat) (detail : Detail) (base target : Fragment) -- 12
  | rewriteRetired (txn : Nat) -- 13
  | rewriteResolution (txn : Nat) (committed : Bool) -- 14, 15
  | compositionColumn (txn table column : Nat) (next : Option Nat) -- 16
  | compositionIntent (txn : Nat) (intent : SchemaChangeSetIntent) -- 17
  | compositionRetired (txn table : Nat) -- 18
  | compositionResolution (txn : Nat) (resolution : CompositionResolution) -- 19, 20, 21
  | compositionGc (txn table horizon : Nat) (manifestDigest : Detail) -- 22
  | compositionGcComplete (txn table : Nat) -- 23
  | compositionIndex (txn table tableVersion : Nat) (fingerprint : Detail) (index : Nat)
      (next : Option Nat) -- 24
  | schemaIndexIntent (txn : Nat) (intent : SchemaIndexChangeSetIntent) -- 25
  | compositionTable (txn table : Nat) (next : Option Nat) -- 26
  | tableObjectIntent (txn : Nat) (intent : TableObjectChangeSetIntent) -- 27
  | tableObjectRetired (txn kind table : Nat) -- 28
  | tableObjectGc (txn table horizon : Nat) (manifestDigest : Detail) -- 29
  | tableObjectGcComplete (txn table : Nat) -- 30
  | stageResource (intent : StageResourceIntent) -- 31
  | finalization (intent : FinalizationIntent) -- 32
  | migrationIndex (txn table tableVersion : Nat) (fingerprint : Detail) (index : Nat)
      (next : Option Nat) -- 33
  | migrationFinalization (intent : MigrationIndexFinalizationIntent) -- 34
  | sourceBackfill (intent : SourceBackfillIntent) -- 35

namespace JournalRecord

def txn : JournalRecord → Nat
  | reservation txn _ _ _ _ => txn
  | createIntent txn _ => txn
  | resolution txn _ => txn
  | drop txn _ _ _ => txn
  | dropRetired txn => txn
  | dropResolution txn _ => txn
  | gc txn _ _ => txn
  | gcComplete txn => txn
  | rewriteReservation txn _ _ _ _ _ => txn
  | rewriteIntent txn _ _ _ => txn
  | rewriteRetired txn => txn
  | rewriteResolution txn _ => txn
  | compositionColumn txn _ _ _ => txn
  | compositionIntent txn _ => txn
  | compositionRetired txn _ => txn
  | compositionResolution txn _ => txn
  | compositionGc txn _ _ _ => txn
  | compositionGcComplete txn _ => txn
  | compositionIndex txn _ _ _ _ _ => txn
  | schemaIndexIntent txn _ => txn
  | compositionTable txn _ _ => txn
  | tableObjectIntent txn _ => txn
  | tableObjectRetired txn _ _ => txn
  | tableObjectGc txn _ _ _ => txn
  | tableObjectGcComplete txn _ => txn
  | stageResource intent => intent.transaction
  | finalization intent => intent.transaction
  | migrationIndex txn _ _ _ _ _ => txn
  | migrationFinalization intent => intent.transaction
  | sourceBackfill intent => intent.transaction

end JournalRecord

/-- A plan as its intent record carries it: retirement and collection have
records of their own. -/
def CompositionTablePlan.planned (plan : CompositionTablePlan) : CompositionTablePlan :=
  { plan with retired := false, gc := none }

def SchemaIndexTablePlan.planned : SchemaIndexTablePlan → SchemaIndexTablePlan
  | createHeap target finalIndexes => createHeap target finalIndexes
  | dropHeap base _ _ => dropHeap base false none
  | rewriteHeap replacement baseIndexes finalIndexes =>
    rewriteHeap replacement.planned baseIndexes finalIndexes
  | inPlaceIndexDelta table tableVersion fingerprint storage baseIndexes finalIndexes =>
    inPlaceIndexDelta table tableVersion fingerprint storage baseIndexes finalIndexes

def tableObjectGc : SchemaIndexTablePlan → Option RetiredHeapGcRecord
  | .rewriteHeap replacement _ _ => replacement.gc
  | .dropHeap _ _ gc => gc
  | .createHeap _ _ => none
  | .inPlaceIndexDelta _ _ _ _ _ _ => none

/-- The kind and the flag of a plan that has a predecessor to retire. -/
def tableObjectRetirement : SchemaIndexTablePlan → Nat × Bool
  | .rewriteHeap replacement _ _ => (1, replacement.retired)
  | .dropHeap _ retired _ => (2, retired)
  | .createHeap _ _ => (0, false)
  | .inPlaceIndexDelta _ _ _ _ _ _ => (0, false)

namespace SchemaMutationJournal

def gcRecords (txn : Nat) : Option RetiredHeapGcRecord → List JournalRecord
  | none => []
  | some gc => .gc txn gc.coordinatorHorizon gc.manifestDigest ::
      if gc.complete then [.gcComplete txn] else []

def compositionGcRecords (txn table : Nat) : Option RetiredHeapGcRecord → List JournalRecord
  | none => []
  | some gc => .compositionGc txn table gc.coordinatorHorizon gc.manifestDigest ::
      if gc.complete then [.compositionGcComplete txn table] else []

def tableObjectGcRecords (txn table : Nat) : Option RetiredHeapGcRecord → List JournalRecord
  | none => []
  | some gc => .tableObjectGc txn table gc.coordinatorHorizon gc.manifestDigest ::
      if gc.complete then [.tableObjectGcComplete txn table] else []

def createRecords (r : Reservation) : List JournalRecord :=
  .reservation r.transaction r.table r.storage r.baseGeneration r.baseEpoch ::
    (r.intent.toList.map (.createIntent r.transaction ·) ++
      r.resolved.toList.map (.resolution r.transaction ·))

def dropRecords (d : DropIntent) : List JournalRecord :=
  .drop d.transaction d.targetGeneration d.targetEpoch d.fragment ::
    ((if d.retired then [.dropRetired d.transaction] else []) ++
      (d.resolved.toList.map (.dropResolution d.transaction ·) ++ gcRecords d.transaction d.gc))

variable (j : SchemaMutationJournal)

def rewriteRecords (txn : Nat) (r : RewriteReservation) : List JournalRecord :=
  .rewriteReservation r.transaction r.table r.storage r.column r.baseGeneration r.baseEpoch ::
    match j.rewrites[txn]? with
    | some rewrite =>
      .rewriteIntent txn rewrite.detail rewrite.base rewrite.target ::
        ((if rewrite.retired then [.rewriteRetired txn] else []) ++
          (rewrite.resolved.toList.map (.rewriteResolution txn ·) ++ gcRecords txn rewrite.gc))
    | none => if j.rewriteLosers.contains txn then [.rewriteResolution txn false] else []

/-- `sort_by_key(|entry| (entry.table, id))`. -/
def sortReservations {α : Type} (table id : α → Nat) (l : List α) : List α :=
  l.mergeSort fun a b => table a < table b || (table a == table b && id a ≤ id b)

def compositionRecords (txn : Nat) (c : CompositionRecord) : List JournalRecord :=
  c.tableReservations.map (fun r => JournalRecord.compositionTable txn r.table r.nextTableId) ++
  ((sortReservations (·.table) (·.column) c.reservations).map
    (fun r => JournalRecord.compositionColumn txn r.table r.column r.nextColumnId) ++
  ((sortReservations (·.table) (·.index) c.indexReservations).map
    (fun r => JournalRecord.compositionIndex txn r.table r.tableVersion r.fingerprint r.index
      r.nextIndexId) ++
  ((sortReservations (·.table) (·.index) c.migrationIndexReservations).map
    (fun r => JournalRecord.migrationIndex txn r.table r.tableVersion r.fingerprint r.index
      r.nextIndexId) ++
  (c.intent.toList.flatMap (fun intent =>
    JournalRecord.compositionIntent txn { intent with
        tables := intent.tables.map CompositionTablePlan.planned } ::
      (intent.tables.filter (·.retired)).map
        fun plan => JournalRecord.compositionRetired txn plan.table) ++
  (c.indexIntent.toList.flatMap (fun intent =>
    JournalRecord.schemaIndexIntent txn { intent with
        tables := intent.tables.map SchemaIndexTablePlan.planned } ::
      ((intent.tables.filterMap SchemaIndexTablePlan.replacement).filter (·.retired)).map
        fun plan => JournalRecord.compositionRetired txn plan.table) ++
  (c.tableIntent.toList.flatMap (fun intent =>
    JournalRecord.tableObjectIntent txn { intent with
        tables := intent.tables.map SchemaIndexTablePlan.planned } ::
      (intent.tables.filter fun plan => (tableObjectRetirement plan).2).map
        fun plan => JournalRecord.tableObjectRetired txn (tableObjectRetirement plan).1 plan.table) ++
  (c.resolution.toList.map (JournalRecord.compositionResolution txn ·) ++
  (c.indexIntent.toList.flatMap (fun intent =>
    (intent.tables.filterMap SchemaIndexTablePlan.replacement).flatMap
      fun plan => compositionGcRecords txn plan.table plan.gc) ++
  (c.intent.toList.flatMap (fun intent =>
    intent.tables.flatMap fun plan => compositionGcRecords txn plan.table plan.gc) ++
  c.tableIntent.toList.flatMap fun intent =>
    intent.tables.flatMap fun plan =>
      tableObjectGcRecords txn plan.table (tableObjectGc plan))))))))))

/-- What one transaction has written: the first of the four kinds of history it
is found in, and none of the others. -/
def transactionRecords (txn : Nat) : List JournalRecord :=
  match j.reservations[txn]? with
  | some r => createRecords r
  | none =>
    match j.drops[txn]? with
    | some d => dropRecords d
    | none =>
      match j.rewriteReservations[txn]? with
      | some r => rewriteRecords j txn r
      | none =>
        match j.compositions[txn]? with
        | some c => compositionRecords txn c
        | none => []

def transactions : List Nat :=
  ((j.reservations.keys ++ (j.drops.keys ++ (j.rewriteReservations.keys ++
    (j.compositions.keys ++ (j.stageIntents.keys ++ (j.finalizationIntents.keys ++
      (j.migrationFinalizationIntents.keys ++ j.sourceBackfillIntents.keys))))))).mergeSort
        (· ≤ ·)).dedup

def records : List JournalRecord :=
  j.transactions.flatMap j.transactionRecords ++
  (j.stageIntents.toList.map (fun entry => JournalRecord.stageResource entry.2) ++
  (j.finalizationIntents.toList.map (fun entry => JournalRecord.finalization entry.2) ++
  (j.migrationFinalizationIntents.toList.map (fun entry => JournalRecord.migrationFinalization entry.2) ++
  j.sourceBackfillIntents.toList.map fun entry => JournalRecord.sourceBackfill entry.2)))

end SchemaMutationJournal

/-- The validations that read the bytes of fragments, digests and locators.
Every result holds for all of them. -/
structure Checks where
  framing : List JournalRecord → Except SchemaMutationError Unit
  createIntent : Reservation → Fragment → Except SchemaMutationError Unit
  dropFragment : Fragment → Nat → Nat → Except SchemaMutationError Unit
  rewriteFragments : RewriteReservation → Detail → Fragment → Fragment →
    Except SchemaMutationError Unit
  compositionTablePlan : SchemaChangeSetIntent → CompositionTablePlan →
    Except SchemaMutationError Unit
  schemaIndexIntent : SchemaIndexChangeSetIntent → Except SchemaMutationError Unit
  tableObjectIntent : TableObjectChangeSetIntent → Except SchemaMutationError Unit
  stageResource : StageResourceIntent → Except SchemaMutationError Unit
  finalization : FinalizationIntent → Except SchemaMutationError Unit
  migrationFinalization : MigrationIndexFinalizationIntent → Except SchemaMutationError Unit
  sourceBackfill : CompositionTablePlan → SourceBackfillIntent → Except SchemaMutationError Unit
  authorities : SchemaMutationJournal → Except SchemaMutationError Unit
  locators : SchemaMutationJournal → Except SchemaMutationError Unit

end Netbadb.Schema
