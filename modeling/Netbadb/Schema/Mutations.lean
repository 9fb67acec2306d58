import Netbadb.Schema.Decode

/-!
The calls that change the journal. Each checks the history in memory, changes
it and persists the whole of it; `none` stands for a call that finds its work
already done and returns without a write. `perform` adds what is common to all
of them: a poisoned handle refuses every call, and a write that fails in any
way leaves the change in memory and poisons the handle.
-/

namespace Netbadb.Schema

open Std SchemaIndexTablePlan

namespace SchemaMutationJournal

variable (checks : Checks) (j : SchemaMutationJournal)

abbrev Change := Except SchemaMutationError (Option SchemaMutationJournal)

variable (r : CompositionColumnReservation)

def reserveCompositionColumn : Change := do
  if j.legacy r.transaction then throw (.corrupt "composition overlaps legacy schema mutation")
  let record := j.composition r.transaction
  if record.hasIntent || record.resolution.isSome ||
      record.reservations.any (fun e => e.table = r.table && e.column = r.column) then
    throw (.corrupt "duplicate or out-of-order composition reservation")
  let sorted := sortReservations (·.table) (·.column) (record.reservations ++ [r])
  let _ ← encode checks (j.setComposition r.transaction { record with reservations := sorted })
  return some (j.setComposition r.transaction
    { record with reservations := record.reservations ++ [r] })

/-- The drop-only schema/index intent from which a source backfill starts. -/
def dropOnlySource (intent : SchemaIndexChangeSetIntent) : Bool :=
  intent.transaction = r.transaction && intent.targetGeneration.isNone &&
    intent.targetEpoch.isNone && intent.snapshotDigest.isNone &&
    match intent.tables with
    | [.inPlaceIndexDelta table _ _ _ baseIndexes finalIndexes] =>
      table = r.table && finalIndexes.active.length < baseIndexes.active.length &&
        finalIndexes.active.all fun final => baseIndexes.active.any (· = final)
    | _ => false

def reserveSourceBackfillColumn (authoritativeFloor : Nat) : Change := do
  let txn := r.transaction
  if r.table = 0 || r.column = 0 || r.nextColumnId ≠ checkedSucc 32 r.column ||
      r.column ≠ authoritativeFloor ||
      j.effectiveColumn r.table (some authoritativeFloor) ≠ some authoritativeFloor ||
      j.legacy txn || j.stageIntents.contains txn || j.finalizationIntents.contains txn ||
      j.migrationFinalizationIntents.contains txn || j.sourceBackfillIntents.contains txn ||
      (j.compositions.toList.any fun entry => entry.2.reservations.any fun e =>
        e.table = r.table && e.column = r.column) then
    throw (.corrupt "invalid source-backfill ColumnId reservation")
  match j.compositions[txn]? with
  | none => throw (.corrupt "source-backfill ColumnId reservation lacks composition")
  | some record =>
    if record.transaction ≠ txn || record.intent.isSome || record.tableIntent.isSome ||
        record.resolution.isSome || !record.tableReservations.isEmpty ||
        !record.indexReservations.isEmpty || !record.migrationIndexReservations.isEmpty ||
        !record.indexIntent.any (dropOnlySource r) then
      throw (.corrupt "source-backfill ColumnId reservation lacks exact authority")
    let sorted := sortReservations (·.table) (·.column) (record.reservations ++ [r])
    let projected := j.setComposition txn { record with reservations := sorted }
    let _ ← encode checks projected
    return some projected

def reserveCompositionTable (r : CompositionTableReservation) : Change := do
  if r.table = 0 || r.nextTableId ≠ checkedSucc 64 r.table || j.legacy r.transaction then
    throw (.corrupt "invalid composition TableId reservation")
  let record := j.composition r.transaction
  if record.hasIntent || record.resolution.isSome ||
      record.tableReservations.getLast?.any (fun previous => r.table ≤ previous.table) then
    throw (.corrupt "duplicate or out-of-order TableId reservation")
  let projected := j.setComposition r.transaction
    { record with tableReservations := record.tableReservations ++ [r] }
  let _ ← encode checks projected
  return some projected

def reserveCompositionIndex (r : CompositionIndexReservation) : Change := do
  if j.legacy r.transaction then throw (.corrupt "composition overlaps legacy schema mutation")
  let record := j.composition r.transaction
  if record.hasIntent || record.resolution.isSome ||
      record.indexReservations.any (fun e => e.table = r.table && e.index = r.index) then
    throw (.corrupt "duplicate or out-of-order IndexId reservation")
  let sorted := sortReservations (·.table) (·.index) (record.indexReservations ++ [r])
  let _ ← encode checks (j.setComposition r.transaction
    { record with indexReservations := sorted })
  return some (j.setComposition r.transaction
    { record with indexReservations := record.indexReservations ++ [r] })

def reserveMigrationIndex (r : CompositionIndexReservation) : Change := do
  if j.legacy r.transaction then
    throw (.corrupt "migration index reservation overlaps legacy mutation")
  match j.compositions[r.transaction]? with
  | none => throw (.corrupt "migration index reservation lacks composition")
  | some record =>
    if record.resolution.isSome ||
        (j.compositions.toList.any fun entry => entry.2.migrationIndexReservations.any fun e =>
          e.table = r.table && e.index = r.index) then
      throw (.corrupt "duplicate migration IndexId reservation")
    let sorted := sortReservations (·.table) (·.index) (record.migrationIndexReservations ++ [r])
    return some (j.setComposition r.transaction
      { record with migrationIndexReservations := sorted })

def compositionIntent (intent : SchemaChangeSetIntent) : Change := do
  if j.legacy intent.transaction then
    throw (.corrupt "composition overlaps legacy schema mutation")
  let record := j.composition intent.transaction
  if record.hasIntent || record.resolution.isSome then
    throw (.corrupt "duplicate composition intent")
  let projected := j.setComposition intent.transaction { record with intent := some intent }
  let _ ← encode checks projected
  return some projected

def replaceCompositionIntent (intent : SchemaChangeSetIntent) : Change := do
  match j.compositions[intent.transaction]? with
  | none => throw (.corrupt "backfill composition intent is absent")
  | some record =>
    if record.intent.isNone || record.resolution.isSome then
      throw (.corrupt "backfill composition intent is not replaceable")
    return some (j.setComposition intent.transaction { record with intent := some intent })

def schemaIndexIntent (intent : SchemaIndexChangeSetIntent) : Change := do
  checks.schemaIndexIntent intent
  if j.legacy intent.transaction then
    throw (.corrupt "composition overlaps legacy schema mutation")
  let record := j.composition intent.transaction
  if record.hasIntent || record.resolution.isSome then
    throw (.corrupt "duplicate composition intent")
  let projected := j.setComposition intent.transaction { record with indexIntent := some intent }
  let _ ← encode checks projected
  return some projected

def replaceSchemaIndexIntent (intent : SchemaIndexChangeSetIntent) : Change := do
  checks.schemaIndexIntent intent
  match j.compositions[intent.transaction]? with
  | none => throw (.corrupt "source-backfill composition is absent")
  | some record =>
    if record.indexIntent.isNone || record.intent.isSome || record.tableIntent.isSome ||
        record.resolution.isSome then
      throw (.corrupt "source-backfill composition is not replaceable")
    return some (j.setComposition intent.transaction { record with indexIntent := some intent })

/-- The only intent that does not ask whether the transaction has a legacy
history. -/
def tableObjectIntent (intent : TableObjectChangeSetIntent) : Change := do
  checks.tableObjectIntent intent
  let record := j.composition intent.transaction
  if record.hasIntent || record.resolution.isSome then
    throw (.corrupt "duplicate table-object composition intent")
  return some (j.setComposition intent.transaction { record with tableIntent := some intent })

def replaceTableObjectIntent (intent : TableObjectChangeSetIntent) : Change := do
  match j.compositions[intent.transaction]? with
  | none => throw (.corrupt "backfill table-object intent is absent")
  | some record =>
    if record.tableIntent.isNone || record.resolution.isSome then
      throw (.corrupt "backfill table-object intent is not replaceable")
    return some (j.setComposition intent.transaction { record with tableIntent := some intent })

def stageResourceIntent (intent : StageResourceIntent) : Change := do
  if j.stageIntents.contains intent.transaction ||
      j.finalizationIntents.contains intent.transaction ||
      !j.compositions.contains intent.transaction then
    throw (.corrupt "duplicate or out-of-order backfill stage intent")
  if intent.provisional.storage ≠ intent.storage || intent.provisional.table ≠ intent.table then
    throw (.corrupt "invalid backfill stage resource identity")
  checks.stageResource intent
  return some { j with stageIntents := j.stageIntents.insert intent.transaction intent }

def finalizationIntent (intent : FinalizationIntent) : Change := do
  match j.stageIntents[intent.transaction]? with
  | none => throw (.corrupt "backfill finalization lacks stage intent")
  | some stage =>
    if j.finalizationIntents.contains intent.transaction || stage.table ≠ intent.table ||
        stage.storage ≠ intent.storage || stage.stageLocator ≠ intent.stageLocator ||
        stage.finalLocator ≠ intent.finalLocator then
      throw (.corrupt "invalid backfill finalization identity")
    checks.finalization intent
    return some { j with
      finalizationIntents := j.finalizationIntents.insert intent.transaction intent }

def migrationFinalizationIntent (intent : MigrationIndexFinalizationIntent) : Change := do
  match j.stageIntents[intent.transaction]? with
  | none => throw (.corrupt "migration finalization lacks stage intent")
  | some stage =>
    if j.migrationFinalizationIntents.contains intent.transaction ||
        stage.table ≠ intent.table || stage.storage ≠ intent.storage ||
        stage.stageLocator ≠ intent.stageLocator || stage.finalLocator ≠ intent.finalLocator then
      throw (.corrupt "invalid migration finalization identity")
    checks.migrationFinalization intent
    return some { j with migrationFinalizationIntents :=
      j.migrationFinalizationIntents.insert intent.transaction intent }

def sourceBackfillIntent (intent : SourceBackfillIntent) : Change := do
  match j.compositions[intent.transaction]? with
  | none => throw (.corrupt "source-backfill intent lacks composition")
  | some composition =>
    match composition.indexIntent.bind fun aggregate =>
        aggregate.tables.findSome? replacement with
    | none => throw (.corrupt "source-backfill replacement plan absent")
    | some replacement =>
      if j.sourceBackfillIntents.contains intent.transaction ||
          j.stageIntents.contains intent.transaction || composition.resolution.isSome ||
          replacement.table ≠ intent.table || replacement.oldStorage ≠ intent.sourceStorage ||
          replacement.newStorage ≠ intent.targetStorage then
        throw (.corrupt "invalid source-backfill intent authority")
      checks.sourceBackfill replacement intent
      return some { j with sourceBackfillIntents :=
        j.sourceBackfillIntents.insert intent.transaction intent }

variable (txn : Nat)

/-- Changes a composition in place; `done` says that nothing is left to do. -/
def updateComposition (absent : String) (done : CompositionRecord → Bool)
    (f : CompositionRecord → Except SchemaMutationError CompositionRecord) : Change :=
  match j.compositions[txn]? with
  | none => throw (.corrupt absent)
  | some record => do
      let changed ← f record
      return if done record then none else some (j.setComposition txn changed)

/-- `composition_replacement_mut`, read only. -/
def replacementOf (c : CompositionRecord) (table : Nat) : Option CompositionTablePlan :=
  match c.intent with
  | some intent => intent.tables.find? (·.table = table)
  | none => c.indexIntent.bind fun intent =>
    (intent.tables.find? (SchemaIndexTablePlan.rewrites table)).bind
      SchemaIndexTablePlan.replacement

/-- `table_object_retirement`. -/
def retirementOf (c : CompositionRecord) (table : Nat) : Option SchemaIndexTablePlan :=
  c.tableIntent.bind fun intent => intent.tables.find? (retires table)

variable (txn table : Nat)

def retireCompositionTable : Change :=
  j.updateComposition txn "composition retirement without history"
    (fun record => (replacementOf record table).any (·.retired)) fun record =>
      record.amendReplacement table "composition retirement without table plan" fun plan =>
        return { plan with retired := true }

def retireTableObject : Change :=
  j.updateComposition txn "table-object retirement without plan"
    (fun record => (record.tableIntent.bind fun intent =>
      intent.tables.find? (·.table = table)).any fun plan => (tableObjectRetirement plan).2)
    fun record => record.amendTableObject (·.table = table)
      "table-object retirement without plan" fun
        | .rewriteHeap replacement baseIndexes finalIndexes =>
          return .rewriteHeap { replacement with retired := true } baseIndexes finalIndexes
        | .dropHeap base _ gc => return .dropHeap base true gc
        | .createHeap _ _ => throw (.corrupt "table-object plan has no predecessor")
        | .inPlaceIndexDelta _ _ _ _ _ _ =>
          throw (.corrupt "table-object plan has no predecessor")

def resolveComposition (resolution : CompositionResolution) : Change :=
  j.updateComposition txn "composition resolution without history"
    (fun record => record.resolution = some resolution) fun record => do
      if record.resolution = some resolution then return record
      if record.resolution.isSome then throw (.corrupt "conflicting composition resolution")
      match resolution with
      | .winner =>
        if !record.hasIntent then throw (.corrupt "composition winner without intent")
        if record.unretired then
          throw (.corrupt "composition winner has unretired predecessor")
      | .noEffectiveChange =>
        if record.hasIntent then throw (.corrupt "no-change composition has physical intent")
      | .loser => pure ()
      return { record with resolution := some resolution }

def compositionGcIntent (gc : RetiredHeapGcRecord) : Change := do
  match j.compositions[txn]? with
  | none => throw (.corrupt "composition GC without winner table plan")
  | some record =>
    if record.resolution ≠ some .winner then
      throw (.corrupt "composition GC without winner table plan")
    let changed ← record.amendReplacement table "composition GC without winner table plan"
      fun plan => do
        if !plan.retired || plan.gc.isSome || gc.complete then
          throw (.corrupt "out-of-order composition GC intent")
        return { plan with gc := some gc }
    let complete ← record.amendReplacement table "projected composition GC plan disappeared"
      fun plan => return { plan with gc := some { gc with complete := true } }
    let _ ← encode checks (j.setComposition txn complete)
    return some (j.setComposition txn changed)

def completeCompositionGc : Change :=
  j.updateComposition txn "composition GC complete without intent"
    (fun record => ((replacementOf record table).bind (·.gc)).any (·.complete)) fun record =>
      record.amendReplacement table "composition GC complete without intent" fun plan =>
        match plan.gc with
        | none => throw (.corrupt "composition GC complete without intent")
        | some gc => return { plan with gc := some { gc with complete := true } }

def tableObjectGcIntent (gc : RetiredHeapGcRecord) : Change := do
  match j.compositions[txn]? with
  | none => throw (.corrupt "table-object GC without winner retirement")
  | some record =>
    if record.resolution ≠ some .winner then
      throw (.corrupt "table-object GC without winner retirement")
    let changed ← record.amendTableObject (retires table)
      "table-object GC without winner retirement" fun plan => do
        if !(tableObjectRetirement plan).2 || (tableObjectGc plan).isSome || gc.complete then
          throw (.corrupt "out-of-order table-object GC intent")
        setTableObjectGc "table-object GC state disappeared" gc plan
    let complete ← record.amendTableObject (retires table)
      "projected table-object GC plan disappeared" fun plan =>
        setTableObjectGc "projected table-object GC state disappeared"
          { gc with complete := true } plan
    let _ ← encode checks (j.setComposition txn complete)
    return some (j.setComposition txn changed)

def completeTableObjectGc : Change :=
  j.updateComposition txn "table-object GC complete without intent"
    (fun record => ((retirementOf record table).bind tableObjectGc).any (·.complete)) fun record =>
      record.amendTableObject (retires table)
        "table-object GC complete without intent" fun plan =>
          match tableObjectGc plan with
          | none => throw (.corrupt "table-object GC complete without intent")
          | some gc => setTableObjectGc "table-object GC complete without intent"
              { gc with complete := true } plan

def resolve (committed : Bool) : Change := do
  match j.reservations[txn]? with
  | none => throw (.corrupt "resolution without reservation")
  | some r =>
    if r.resolved = some committed then return none
    if r.resolved.isSome then throw (.corrupt "conflicting mutation resolution")
    return some { j with reservations :=
      j.reservations.insert txn { r with resolved := some committed } }

def retireDrop : Change := do
  match j.drops[txn]? with
  | none => throw (.corrupt "retirement without drop intent")
  | some d =>
    if d.resolved = some false then throw (.corrupt "loser drop cannot retire storage")
    if d.retired then return none
    return some { j with drops := j.drops.insert txn { d with retired := true } }

def resolveDrop (committed : Bool) : Change := do
  match j.drops[txn]? with
  | none => throw (.corrupt "drop resolution without intent")
  | some d =>
    if committed && !d.retired then throw (.corrupt "drop winner is not durably retired")
    if !committed && d.retired then throw (.corrupt "retired drop cannot resolve as loser")
    if d.resolved = some committed then return none
    if d.resolved.isSome then throw (.corrupt "conflicting drop resolution")
    return some { j with drops := j.drops.insert txn { d with resolved := some committed } }

def retireRewrite : Change := do
  match j.rewrites[txn]? with
  | none => throw (.corrupt "replacement retirement without rewrite intent")
  | some r =>
    if r.resolved = some false then throw (.corrupt "loser rewrite cannot retire source")
    if r.retired then return none
    return some { j with rewrites := j.rewrites.insert txn { r with retired := true } }

def resolveRewrite (committed : Bool) : Change := do
  if !committed && !j.rewrites.contains txn then
    if !j.rewriteReservations.contains txn then
      throw (.corrupt "rewrite resolution without reservation")
    if j.rewriteLosers.contains txn then return none
    return some { j with rewriteLosers := j.rewriteLosers.insert txn }
  match j.rewrites[txn]? with
  | none => throw (.corrupt "rewrite winner without intent")
  | some r =>
    if committed && !r.retired then throw (.corrupt "rewrite winner source is not durably retired")
    if !committed && r.retired then throw (.corrupt "retired rewrite cannot resolve as loser")
    if r.resolved = some committed then return none
    if r.resolved.isSome then throw (.corrupt "conflicting rewrite resolution")
    return some { j with rewrites := j.rewrites.insert txn { r with resolved := some committed } }

def setGc (gc : RetiredHeapGcRecord) : SchemaMutationJournal :=
  match j.drops[txn]? with
  | some d => { j with drops := j.drops.insert txn { d with gc := some gc } }
  | none => { j with rewrites := j.rewrites.modify txn fun r => { r with gc := some gc } }

/-- Retired, resolved and collected, of the drop or else of the rewrite. -/
def gcTerminal : Option (Bool × Option Bool × Bool) :=
  (j.drops[txn]?.map fun d => (d.retired, d.resolved, d.gc.isSome)).or
    (j.rewrites[txn]?.map fun r => (r.retired, r.resolved, r.gc.isSome))

def gcIntent (gc : RetiredHeapGcRecord) : Change := do
  match j.gcTerminal txn with
  | none => throw (.corrupt "GC intent without retirement history")
  | some (retired, resolved, collected) =>
    if !retired || resolved ≠ some true || collected || gc.complete then
      throw (.corrupt "out-of-order GC intent")
    let _ ← encode checks (j.setGc txn { gc with complete := true })
    return some (j.setGc txn gc)

def gcOf : Option RetiredHeapGcRecord :=
  match j.drops[txn]? with
  | some d => d.gc
  | none => j.rewrites[txn]?.bind (·.gc)

def completeGc : Change := do
  match j.gcOf txn with
  | none => throw (.corrupt "GC complete without intent")
  | some gc =>
    if gc.complete then return none
    return some (j.setGc txn { gc with complete := true })

end SchemaMutationJournal

inductive Call where
  | reserveCompositionColumn (r : CompositionColumnReservation)
  | reserveSourceBackfillColumn (r : CompositionColumnReservation) (authoritativeFloor : Nat)
  | reserveCompositionTable (r : CompositionTableReservation)
  | reserveCompositionIndex (r : CompositionIndexReservation)
  | reserveMigrationIndex (r : CompositionIndexReservation)
  | compositionIntent (intent : SchemaChangeSetIntent)
  | replaceCompositionIntent (intent : SchemaChangeSetIntent)
  | schemaIndexIntent (intent : SchemaIndexChangeSetIntent)
  | replaceSchemaIndexIntent (intent : SchemaIndexChangeSetIntent)
  | tableObjectIntent (intent : TableObjectChangeSetIntent)
  | replaceTableObjectIntent (intent : TableObjectChangeSetIntent)
  | stageResourceIntent (intent : StageResourceIntent)
  | finalizationIntent (intent : FinalizationIntent)
  | migrationFinalizationIntent (intent : MigrationIndexFinalizationIntent)
  | sourceBackfillIntent (intent : SourceBackfillIntent)
  | retireCompositionTable (txn table : Nat)
  | retireTableObject (txn table : Nat)
  | resolveComposition (txn : Nat) (resolution : CompositionResolution)
  | compositionGcIntent (txn table : Nat) (gc : RetiredHeapGcRecord)
  | completeCompositionGc (txn table : Nat)
  | tableObjectGcIntent (txn table : Nat) (gc : RetiredHeapGcRecord)
  | completeTableObjectGc (txn table : Nat)
  | resolve (txn : Nat) (committed : Bool)
  | retireDrop (txn : Nat)
  | resolveDrop (txn : Nat) (committed : Bool)
  | retireRewrite (txn : Nat)
  | resolveRewrite (txn : Nat) (committed : Bool)
  | gcIntent (txn : Nat) (gc : RetiredHeapGcRecord)
  | completeGc (txn : Nat)

namespace Call

def apply (checks : Checks) (j : SchemaMutationJournal) : Call → SchemaMutationJournal.Change
  | reserveCompositionColumn r => j.reserveCompositionColumn checks r
  | reserveSourceBackfillColumn r floor => j.reserveSourceBackfillColumn checks r floor
  | reserveCompositionTable r => j.reserveCompositionTable checks r
  | reserveCompositionIndex r => j.reserveCompositionIndex checks r
  | reserveMigrationIndex r => j.reserveMigrationIndex r
  | compositionIntent intent => j.compositionIntent checks intent
  | replaceCompositionIntent intent => j.replaceCompositionIntent intent
  | schemaIndexIntent intent => j.schemaIndexIntent checks intent
  | replaceSchemaIndexIntent intent => j.replaceSchemaIndexIntent checks intent
  | tableObjectIntent intent => j.tableObjectIntent checks intent
  | replaceTableObjectIntent intent => j.replaceTableObjectIntent intent
  | stageResourceIntent intent => j.stageResourceIntent checks intent
  | finalizationIntent intent => j.finalizationIntent checks intent
  | migrationFinalizationIntent intent => j.migrationFinalizationIntent checks intent
  | sourceBackfillIntent intent => j.sourceBackfillIntent checks intent
  | retireCompositionTable txn table => j.retireCompositionTable txn table
  | retireTableObject txn table => j.retireTableObject txn table
  | resolveComposition txn resolution => j.resolveComposition txn resolution
  | compositionGcIntent txn table gc => j.compositionGcIntent checks txn table gc
  | completeCompositionGc txn table => j.completeCompositionGc txn table
  | tableObjectGcIntent txn table gc => j.tableObjectGcIntent checks txn table gc
  | completeTableObjectGc txn table => j.completeTableObjectGc txn table
  | resolve txn committed => j.resolve txn committed
  | retireDrop txn => j.retireDrop txn
  | resolveDrop txn committed => j.resolveDrop txn committed
  | retireRewrite txn => j.retireRewrite txn
  | resolveRewrite txn committed => j.resolveRewrite txn committed
  | gcIntent txn gc => j.gcIntent checks txn gc
  | completeGc txn => j.completeGc txn

end Call

/-- What becomes of the write of a call. The replacement of the file can fail
before or after the new file is in place, and the caller cannot tell; a call
can also fail before it changes anything, when the witness of the journal's
activation cannot be written. -/
inductive Write where
  | done
  | failedOld
  | failedNew
  | notActivated
deriving DecidableEq, Repr

variable (checks : Checks) (file : List JournalRecord)

/-- `persist`: the file, the journal in memory and what the caller is told. -/
def persist (write : Write) (j : SchemaMutationJournal) :
    List JournalRecord × SchemaMutationJournal × Except SchemaMutationError Unit :=
  match j.encode checks with
  | .error e => (file, { j with poisoned := true }, .error e)
  | .ok bytes =>
    match write with
    | .done => (bytes, j, .ok ())
    | .failedNew => (bytes, { j with poisoned := true }, .error .io)
    | .failedOld => (file, { j with poisoned := true }, .error .io)
    | .notActivated => (file, { j with poisoned := true }, .error .io)

def perform (write : Write) (j : SchemaMutationJournal) (call : Call) :
    List JournalRecord × SchemaMutationJournal × Except SchemaMutationError Unit :=
  if j.poisoned then (file, j, .error .recoveryRequired)
  else
    match call.apply checks j with
    | .error e => (file, j, .error e)
    | .ok none => (file, j, .ok ())
    | .ok (some j') =>
      if write = .notActivated then (file, j, .error .io) else persist checks file write j'

/-- `open` on a file that is there: a fresh handle is never poisoned. -/
def openJournal : Except SchemaMutationError SchemaMutationJournal := do
  let j ← SchemaMutationJournal.decode checks file
  checks.locators j
  return j

end Netbadb.Schema
