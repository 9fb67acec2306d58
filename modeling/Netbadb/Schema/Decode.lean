import Netbadb.Schema.Journal

/-!
Reading the journal back. `decode` walks the records with a cursor that knows
the last transaction and the highest identities it has seen, and rebuilds the
maps. `encode` writes the records of a journal and reads them back once as a
check before it hands them out.
-/

namespace Netbadb.Schema

open Std SchemaIndexTablePlan

/-- `get_mut(&txn).ok_or(absent)?` followed by a change of the entry. -/
def amend {α : Type} (m : TreeMap Nat α) (txn : Nat) (absent : String)
    (f : α → Except SchemaMutationError α) : Except SchemaMutationError (TreeMap Nat α) :=
  match m[txn]? with
  | none => throw (.corrupt absent)
  | some a => do return m.insert txn (← f a)

/-- `iter_mut().find(p).ok_or(absent)?` followed by a change of the element. -/
def amendFirst {α : Type} (p : α → Bool) (absent : String)
    (f : α → Except SchemaMutationError α) : List α → Except SchemaMutationError (List α)
  | [] => throw (.corrupt absent)
  | a :: l =>
    if p a then do return (← f a) :: l
    else do return a :: (← amendFirst p absent f l)

def SchemaIndexTablePlan.rewrites (table : Nat) : SchemaIndexTablePlan → Bool
  | rewriteHeap replacement _ _ => replacement.table = table
  | createHeap _ _ => false
  | dropHeap _ _ _ => false
  | inPlaceIndexDelta _ _ _ _ _ _ => false

def SchemaIndexTablePlan.amendReplacement (absent : String)
    (f : CompositionTablePlan → Except SchemaMutationError CompositionTablePlan) :
    SchemaIndexTablePlan → Except SchemaMutationError SchemaIndexTablePlan
  | rewriteHeap replacement baseIndexes finalIndexes => do
      return rewriteHeap (← f replacement) baseIndexes finalIndexes
  | createHeap _ _ => throw (.corrupt absent)
  | dropHeap _ _ _ => throw (.corrupt absent)
  | inPlaceIndexDelta _ _ _ _ _ _ => throw (.corrupt absent)

namespace CompositionRecord

variable (c : CompositionRecord)

/-- The replacement plan of a table: in the schema intent when there is one, in
the schema/index intent otherwise. -/
def amendReplacement (table : Nat) (absent : String)
    (f : CompositionTablePlan → Except SchemaMutationError CompositionTablePlan) :
    Except SchemaMutationError CompositionRecord :=
  match c.intent with
  | some intent => do
      let tables ← amendFirst (·.table = table) absent f intent.tables
      return { c with intent := some { intent with tables } }
  | none =>
    match c.indexIntent with
    | some intent => do
        let tables ← amendFirst (rewrites table) absent
          (SchemaIndexTablePlan.amendReplacement absent f) intent.tables
        return { c with indexIntent := some { intent with tables } }
    | none => throw (.corrupt absent)

def amendTableObject (p : SchemaIndexTablePlan → Bool) (absent : String)
    (f : SchemaIndexTablePlan → Except SchemaMutationError SchemaIndexTablePlan) :
    Except SchemaMutationError CompositionRecord :=
  match c.tableIntent with
  | some intent => do
      let tables ← amendFirst p absent f intent.tables
      return { c with tableIntent := some { intent with tables } }
  | none => throw (.corrupt absent)

def hasIntent : Bool :=
  c.intent.isSome || c.indexIntent.isSome || c.tableIntent.isSome

/-- Some predecessor of a plan is not retired yet. -/
def unretired : Bool :=
  c.intent.any (fun intent => intent.tables.any fun plan => !plan.retired) ||
  c.indexIntent.any (fun intent => intent.tables.any fun plan =>
    plan.replacement.any fun replacement => !replacement.retired) ||
  c.tableIntent.any fun intent => intent.tables.any fun plan =>
    match plan with
    | .rewriteHeap replacement _ _ => !replacement.retired
    | .dropHeap _ retired _ => !retired
    | .createHeap _ _ => false
    | .inPlaceIndexDelta _ _ _ _ _ _ => false

end CompositionRecord

/-- The plans `table_object_retirement_mut` looks for. -/
def SchemaIndexTablePlan.retires (table : Nat) (plan : SchemaIndexTablePlan) : Bool :=
  plan.table = table &&
    match plan with
    | .rewriteHeap _ _ _ => true
    | .dropHeap _ _ _ => true
    | .createHeap _ _ => false
    | .inPlaceIndexDelta _ _ _ _ _ _ => false

/-- `table_object_gc_mut` followed by an assignment. -/
def setTableObjectGc (absent : String) (gc : RetiredHeapGcRecord) :
    SchemaIndexTablePlan → Except SchemaMutationError SchemaIndexTablePlan
  | .rewriteHeap replacement baseIndexes finalIndexes =>
    return .rewriteHeap { replacement with gc := some gc } baseIndexes finalIndexes
  | .dropHeap base retired _ => return .dropHeap base retired (some gc)
  | .createHeap _ _ => throw (.corrupt absent)
  | .inPlaceIndexDelta _ _ _ _ _ _ => throw (.corrupt absent)

structure Cursor where
  journal : SchemaMutationJournal
  lastColumns : TreeMap Nat Nat
  lastIndexes : TreeMap Nat Nat
  lastTxn : Nat
  lastTable : Nat
  lastStorage : Nat
  lastGeneration : Nat
  lastEpoch : Nat
  current : Option Nat

namespace SchemaMutationJournal

variable (j : SchemaMutationJournal)

def legacy (txn : Nat) : Bool :=
  j.reservations.contains txn || j.drops.contains txn || j.rewriteReservations.contains txn

def unresolvedLegacy (previous : Nat) : Bool :=
  j.reservations[previous]?.any (·.resolved.isNone) ||
  j.drops[previous]?.any (·.resolved.isNone) ||
  (j.rewriteReservations.contains previous && !j.rewriteLosers.contains previous &&
    j.rewrites[previous]?.all (·.resolved.isNone))

def unresolvedComposition (previous : Nat) : Bool :=
  j.compositions[previous]?.any (·.resolution.isNone)

/-- `entry(txn).or_insert_with(..)`, as read. -/
def composition (txn : Nat) : CompositionRecord :=
  j.compositions[txn]?.getD (.empty txn)

def setComposition (txn : Nat) (c : CompositionRecord) : SchemaMutationJournal :=
  { j with compositions := j.compositions.insert txn c }

end SchemaMutationJournal

/-- `checked_add(1)` in a type of `bits` bits. -/
def checkedSucc (bits n : Nat) : Option Nat :=
  if n + 1 < 2 ^ bits then some (n + 1) else none

namespace Cursor

def start : Cursor :=
  ⟨.empty, ∅, ∅, 0, 0, 0, 0, 0, none⟩

variable (c : Cursor)

/-- The transaction before this one is still open. The records of the later
formats only look at compositions. -/
def overlapping (legacy : Bool) : Bool :=
  c.current.any fun previous =>
    (legacy && c.journal.unresolvedLegacy previous) || c.journal.unresolvedComposition previous

/-- A composition record opens its transaction unless it is the current one. -/
def enter (txn : Nat) (legacy : Bool) (nonmonotonic : String) :
    Except SchemaMutationError Cursor := do
  if c.current = some txn then return c
  if txn ≤ c.lastTxn then throw (.corrupt nonmonotonic)
  if c.overlapping legacy then throw (.corrupt "overlapping schema transactions")
  return { c with lastTxn := txn, current := some txn }

def setComposition (txn : Nat) (record : CompositionRecord) : Cursor :=
  { c with journal := c.journal.setComposition txn record }

def amendComposition (txn : Nat) (stray absent : String)
    (f : CompositionRecord → Except SchemaMutationError CompositionRecord) :
    Except SchemaMutationError Cursor := do
  if c.current ≠ some txn then throw (.corrupt stray)
  let compositions ← amend c.journal.compositions txn absent f
  return { c with journal := { c.journal with compositions } }

def reservation (c : Cursor) (txn table storage generation epoch : Nat) :
    Except SchemaMutationError Cursor := do
  if txn ≤ c.lastTxn || table ≤ c.lastTable || storage ≤ c.lastStorage || generation = 0 ||
      generation < c.lastGeneration || epoch = 0 || epoch < c.lastEpoch ||
      (checkedSucc 64 generation).isNone || (checkedSucc 64 epoch).isNone then
    throw (.corrupt "duplicate, exhausted or nonmonotonic reservation")
  if c.overlapping true then throw (.corrupt "overlapping schema transactions")
  return { c with
    lastTxn := txn, lastTable := table, lastStorage := storage, lastGeneration := generation,
    lastEpoch := epoch, current := some txn,
    journal := { c.journal with reservations :=
      c.journal.reservations.insert txn ⟨txn, table, storage, generation, epoch, none, none⟩ } }

variable (checks : Checks) (c : Cursor)

def createIntent (txn : Nat) (fragment : Fragment) : Except SchemaMutationError Cursor := do
  if c.current ≠ some txn then throw (.corrupt "intent for unknown transaction")
  let reservations ← amend c.journal.reservations txn "intent without reservation" fun r => do
    if r.intent.isSome || r.resolved.isSome then
      throw (.corrupt "duplicate or out-of-order intent")
    checks.createIntent r fragment
    return { r with intent := some fragment }
  return { c with journal := { c.journal with reservations } }

def resolution (c : Cursor) (txn : Nat) (committed : Bool) : Except SchemaMutationError Cursor := do
  if c.current ≠ some txn then throw (.corrupt "resolution for unknown transaction")
  let reservations ← amend c.journal.reservations txn "resolution without reservation" fun r => do
    if r.resolved.isSome || (committed && r.intent.isNone) then
      throw (.corrupt "duplicate or out-of-order resolution")
    return { r with resolved := some committed }
  return { c with journal := { c.journal with reservations } }

/-- The identity below an allocator floor; an exhausted floor has none. -/
def allocatorPredecessor (floor : Option Nat) : Except SchemaMutationError Nat :=
  match floor with
  | some (n + 1) => return n
  | some 0 => throw (.corrupt "zero allocator floor in drop intent")
  | none => return 2 ^ 64 - 1

def drop (checks : Checks) (c : Cursor) (txn targetGeneration targetEpoch : Nat)
    (fragment : Fragment) : Except SchemaMutationError Cursor := do
  if txn ≤ c.lastTxn then throw (.corrupt "duplicate or nonmonotonic drop transaction")
  if c.overlapping true then throw (.corrupt "overlapping schema transactions")
  checks.dropFragment fragment targetGeneration targetEpoch
  if fragment.generation < c.lastGeneration || fragment.epoch < c.lastEpoch then
    throw (.corrupt "nonmonotonic drop base")
  let table ← allocatorPredecessor fragment.nextTableId
  let storage ← allocatorPredecessor fragment.nextStorageId
  let intent : DropIntent := ⟨txn, fragment, targetGeneration, targetEpoch, false, none, none⟩
  return { c with
    lastTxn := txn, lastTable := max c.lastTable table, lastStorage := max c.lastStorage storage,
    lastGeneration := fragment.generation, lastEpoch := fragment.epoch, current := some txn,
    journal := { c.journal with drops := c.journal.drops.insert txn intent } }

def dropRetired (txn : Nat) : Except SchemaMutationError Cursor := do
  if c.current ≠ some txn then throw (.corrupt "retirement for unknown transaction")
  let drops ← amend c.journal.drops txn "retirement without drop intent" fun d => do
    if d.retired || d.resolved.isSome then throw (.corrupt "duplicate or out-of-order retirement")
    return { d with retired := true }
  return { c with journal := { c.journal with drops } }

def dropResolution (txn : Nat) (committed : Bool) : Except SchemaMutationError Cursor := do
  if c.current ≠ some txn then throw (.corrupt "drop resolution for unknown transaction")
  let drops ← amend c.journal.drops txn "drop resolution without intent" fun d => do
    if d.resolved.isSome || (committed && !d.retired) then
      throw (.corrupt "duplicate or out-of-order drop resolution")
    if !committed && d.retired then throw (.corrupt "retired drop resolved as loser")
    return { d with resolved := some committed }
  return { c with journal := { c.journal with drops } }

/-- A collection belongs to a drop when the transaction has one, to a rewrite
otherwise. -/
def gc (c : Cursor) (txn horizon : Nat) (manifestDigest : Detail) :
    Except SchemaMutationError Cursor := do
  if c.current ≠ some txn then throw (.corrupt "GC intent for unknown transaction")
  let record : RetiredHeapGcRecord := ⟨horizon, manifestDigest, false⟩
  match c.journal.drops[txn]? with
  | some d =>
    if !d.retired || d.resolved ≠ some true || d.gc.isSome || horizon < txn then
      throw (.corrupt "duplicate or out-of-order GC intent")
    return { c with journal := { c.journal with
      drops := c.journal.drops.insert txn { d with gc := some record } } }
  | none =>
    let rewrites ← amend c.journal.rewrites txn "GC intent without retirement history" fun r => do
      if !r.retired || r.resolved ≠ some true || r.gc.isSome || horizon < txn then
        throw (.corrupt "duplicate or out-of-order GC intent")
      return { r with gc := some record }
    return { c with journal := { c.journal with rewrites } }

def completed (gc : Option RetiredHeapGcRecord) (absent duplicate : String) :
    Except SchemaMutationError (Option RetiredHeapGcRecord) :=
  match gc with
  | none => throw (.corrupt absent)
  | some gc =>
    if gc.complete then throw (.corrupt duplicate) else return some { gc with complete := true }

def gcComplete (txn : Nat) : Except SchemaMutationError Cursor := do
  if c.current ≠ some txn then throw (.corrupt "GC complete for unknown transaction")
  match c.journal.drops[txn]? with
  | some d =>
    let gc ← completed d.gc "GC complete without intent" "duplicate GC complete"
    return { c with journal := { c.journal with
      drops := c.journal.drops.insert txn { d with gc } } }
  | none =>
    let rewrites ← amend c.journal.rewrites txn "GC complete without intent" fun r => do
      let gc ← completed r.gc "GC complete without intent" "duplicate GC complete"
      return { r with gc }
    return { c with journal := { c.journal with rewrites } }

def rewriteReservation (txn table storage : Nat) (column : Option Nat)
    (generation epoch : Nat) : Except SchemaMutationError Cursor := do
  if txn ≤ c.lastTxn || table = 0 || storage ≤ c.lastStorage || generation = 0 ||
      generation < c.lastGeneration || epoch = 0 || epoch < c.lastEpoch ||
      (checkedSucc 64 generation).isNone || (checkedSucc 64 epoch).isNone then
    throw (.corrupt "invalid or nonmonotonic rewrite reservation")
  if column.any fun column => c.lastColumns[table]?.any (column ≤ ·) then
    throw (.corrupt "reused rewrite ColumnId reservation")
  if c.overlapping true then throw (.corrupt "overlapping schema transactions")
  let reservation : RewriteReservation := ⟨txn, table, storage, column, generation, epoch⟩
  return { c with
    lastTxn := txn, lastTable := max c.lastTable table, lastStorage := storage,
    lastGeneration := generation, lastEpoch := epoch, current := some txn,
    lastColumns := match column with
      | some column => c.lastColumns.insert table column
      | none => c.lastColumns,
    journal := { c.journal with rewriteReservations :=
      c.journal.rewriteReservations.insert txn reservation } }

def rewriteIntent (txn : Nat) (detail : Detail)
    (base target : Fragment) : Except SchemaMutationError Cursor := do
  if c.current ≠ some txn || c.journal.rewrites.contains txn then
    throw (.corrupt "rewrite intent without current reservation")
  match c.journal.rewriteReservations[txn]? with
  | none => throw (.corrupt "rewrite intent without reservation")
  | some reservation =>
    checks.rewriteFragments reservation detail base target
    let intent : RewriteIntent := ⟨reservation, base, target, detail, false, none, none⟩
    return { c with journal := { c.journal with
      rewrites := c.journal.rewrites.insert txn intent } }

def rewriteRetired (txn : Nat) : Except SchemaMutationError Cursor := do
  if c.current ≠ some txn then throw (.corrupt "rewrite retirement for unknown transaction")
  let rewrites ← amend c.journal.rewrites txn "rewrite retirement without intent" fun r => do
    if r.retired || r.resolved.isSome then
      throw (.corrupt "duplicate or out-of-order rewrite retirement")
    return { r with retired := true }
  return { c with journal := { c.journal with rewrites } }

def rewriteResolution (txn : Nat) (committed : Bool) : Except SchemaMutationError Cursor := do
  if c.current ≠ some txn then throw (.corrupt "rewrite resolution for unknown transaction")
  if !committed && !c.journal.rewrites.contains txn then
    if !c.journal.rewriteReservations.contains txn || c.journal.rewriteLosers.contains txn then
      throw (.corrupt "duplicate rewrite reservation loser")
    return { c with journal := { c.journal with
      rewriteLosers := c.journal.rewriteLosers.insert txn } }
  let rewrites ← amend c.journal.rewrites txn "rewrite winner without intent" fun r => do
    if r.resolved.isSome || (committed && !r.retired) then
      throw (.corrupt "duplicate or out-of-order rewrite resolution")
    if !committed && r.retired then throw (.corrupt "retired rewrite resolved as loser")
    return { r with resolved := some committed }
  return { c with journal := { c.journal with rewrites } }

def compositionTable (txn table : Nat) (next : Option Nat) : Except SchemaMutationError Cursor := do
  if table = 0 || next ≠ checkedSucc 64 table || table ≤ c.lastTable || c.journal.legacy txn then
    throw (.corrupt "invalid composition TableId reservation")
  let c ← c.enter txn false "nonmonotonic composition transaction"
  let record := c.journal.composition txn
  if record.hasIntent || record.resolution.isSome then
    throw (.corrupt "out-of-order TableId reservation")
  return { c.setComposition txn { record with
    tableReservations := record.tableReservations ++ [⟨txn, table, next⟩] } with
      lastTable := table }

def compositionColumn (txn table column : Nat) (next : Option Nat) :
    Except SchemaMutationError Cursor := do
  if table = 0 || column = 0 || next ≠ checkedSucc 32 column ||
      c.lastColumns[table]?.any (column ≤ ·) || c.journal.legacy txn then
    throw (.corrupt "invalid composition ColumnId reservation")
  let c ← c.enter txn true "nonmonotonic composition transaction"
  let record := c.journal.composition txn
  -- the table intent is not among what may not be there yet
  if record.intent.isSome || record.indexIntent.isSome || record.resolution.isSome ||
      record.reservations.getLast?.any (fun previous =>
        table < previous.table || (table = previous.table && column ≤ previous.column)) then
    throw (.corrupt "duplicate, noncanonical or out-of-order composition reservation")
  return { c.setComposition txn { record with
    reservations := record.reservations ++ [⟨txn, table, column, next⟩] } with
      lastColumns := c.lastColumns.insert table column }

def compositionIndex (txn table tableVersion : Nat) (fingerprint : Detail)
    (index : Nat) (next : Option Nat) : Except SchemaMutationError Cursor := do
  if table = 0 || tableVersion = 0 || index = 0 || next ≠ checkedSucc 64 index ||
      c.lastIndexes[table]?.any (index ≤ ·) || c.journal.legacy txn then
    throw (.corrupt "invalid composition IndexId reservation")
  let c ← c.enter txn false "nonmonotonic composition transaction"
  let record := c.journal.composition txn
  if record.intent.isSome || record.indexIntent.isSome || record.resolution.isSome ||
      record.indexReservations.getLast?.any (fun previous =>
        table < previous.table || (table = previous.table && index ≤ previous.index)) then
    throw (.corrupt "duplicate, noncanonical or out-of-order IndexId reservation")
  return { c.setComposition txn { record with indexReservations :=
    record.indexReservations ++ [⟨txn, table, tableVersion, fingerprint, index, next⟩] } with
      lastIndexes := c.lastIndexes.insert table index }

/-- Each plan is validated as it is read and has to come after the one before
it, by table and by new storage. -/
def readPlans (checks : Checks) (intent : SchemaChangeSetIntent) :
    Option CompositionTablePlan → List CompositionTablePlan → Except SchemaMutationError Unit
  | _, [] => return ()
  | previous, plan :: plans => do
      checks.compositionTablePlan intent plan
      if previous.any fun previous =>
          plan.table ≤ previous.table || plan.newStorage ≤ previous.newStorage then
        throw (.corrupt "noncanonical composition table plans")
      readPlans checks intent (some plan) plans

def compositionIntent (txn : Nat) (intent : SchemaChangeSetIntent) :
    Except SchemaMutationError Cursor := do
  let c ← c.enter txn true "nonmonotonic composition intent transaction"
  if intent.actionCount = 0 || some intent.targetGeneration ≠ checkedSucc 64 intent.baseGeneration ||
      some intent.targetEpoch ≠ checkedSucc 64 intent.baseEpoch || intent.tables.isEmpty ||
      c.journal.legacy txn then
    throw (.corrupt "invalid composition generation or counts")
  readPlans checks intent none intent.tables
  if intent.tables.head?.any (·.newStorage ≤ c.lastStorage) ||
      intent.baseGeneration < c.lastGeneration || intent.baseEpoch < c.lastEpoch then
    throw (.corrupt "nonmonotonic composition allocation")
  let record := c.journal.composition txn
  if record.intent.isSome || record.indexIntent.isSome || record.resolution.isSome ||
      !record.indexReservations.isEmpty then
    throw (.corrupt "duplicate or out-of-order composition intent")
  return { c.setComposition txn { record with intent := some { intent with transaction := txn } } with
    lastStorage := (intent.tables.getLast?.map (·.newStorage)).getD c.lastStorage
    lastGeneration := intent.baseGeneration
    lastEpoch := intent.baseEpoch }

def canonicalTables : List SchemaIndexTablePlan → Bool
  | a :: b :: l => a.table < b.table && canonicalTables (b :: l)
  | [_] => true
  | [] => true

def schemaIndexIntent (txn : Nat)
    (intent : SchemaIndexChangeSetIntent) : Except SchemaMutationError Cursor := do
  let c ← c.enter txn false "nonmonotonic schema/index intent transaction"
  if intent.actionCount = 0 || intent.tables.isEmpty || intent.baseGeneration = 0 ||
      intent.baseEpoch = 0 || intent.targetGeneration.isSome ≠ intent.targetEpoch.isSome ||
      intent.targetGeneration.isSome ≠ intent.snapshotDigest.isSome ||
      intent.targetGeneration.any (· ≠ (checkedSucc 64 intent.baseGeneration).getD 0) ||
      intent.targetEpoch.any (· ≠ (checkedSucc 64 intent.baseEpoch).getD 0) then
    throw (.corrupt "invalid schema/index intent header")
  if !canonicalTables intent.tables then throw (.corrupt "noncanonical schema/index table plans")
  checks.schemaIndexIntent intent
  let record := c.journal.composition txn
  if record.intent.isSome || record.indexIntent.isSome || record.resolution.isSome then
    throw (.corrupt "duplicate or out-of-order schema/index intent")
  return c.setComposition txn { record with indexIntent := some { intent with transaction := txn } }

/-- A table-object intent that opens its transaction starts a fresh
composition, whatever the map held for it. -/
def enterTableObject (txn : Nat) : Except SchemaMutationError Cursor := do
  if c.current = some txn then return c
  let c ← c.enter txn false "nonmonotonic table-object transaction"
  return c.setComposition txn (.empty txn)

def tableObjectIntent (txn : Nat)
    (intent : TableObjectChangeSetIntent) : Except SchemaMutationError Cursor := do
  let c ← c.enterTableObject txn
  if !canonicalTables intent.tables then throw (.corrupt "noncanonical table-object plans")
  let intent := { intent with transaction := txn }
  checks.tableObjectIntent intent
  let compositions ← amend c.journal.compositions txn "table-object intent without composition"
    fun record => do
      if record.hasIntent || record.resolution.isSome then
        throw (.corrupt "duplicate table-object intent")
      return { record with tableIntent := some intent }
  return { c with journal := { c.journal with compositions } }

def tableObjectRetired (txn kind table : Nat) : Except SchemaMutationError Cursor :=
  c.amendComposition txn "table-object retirement without transaction"
    "table-object retirement without plan" fun record =>
      record.amendTableObject (·.table = table) "table-object retirement without plan" fun
        | .rewriteHeap replacement baseIndexes finalIndexes => do
            if kind ≠ 1 then throw (.corrupt "table-object retirement kind mismatch")
            if replacement.retired then throw (.corrupt "duplicate rewrite retirement")
            return .rewriteHeap { replacement with retired := true } baseIndexes finalIndexes
        | .dropHeap base retired gc => do
            if kind ≠ 2 then throw (.corrupt "table-object retirement kind mismatch")
            if retired then throw (.corrupt "duplicate drop retirement")
            return .dropHeap base true gc
        | .createHeap _ _ => throw (.corrupt "table-object retirement kind mismatch")
        | .inPlaceIndexDelta _ _ _ _ _ _ =>
          throw (.corrupt "table-object retirement kind mismatch")

def compositionRetired (txn table : Nat) : Except SchemaMutationError Cursor :=
  c.amendComposition txn "composition retirement for unknown transaction"
    "composition retirement without plan" fun record =>
      record.amendReplacement table "composition retirement without plan" fun plan => do
        if plan.retired then throw (.corrupt "duplicate composition retirement")
        return { plan with retired := true }

def compositionResolution (txn : Nat) (resolution : CompositionResolution) :
    Except SchemaMutationError Cursor :=
  c.amendComposition txn "composition resolution for unknown transaction"
    "composition resolution without history" fun record => do
      if record.resolution.isSome || (resolution = .winner && !record.hasIntent) ||
          (resolution = .winner && record.unretired) ||
          (resolution = .noEffectiveChange && record.hasIntent) then
        throw (.corrupt "duplicate or out-of-order composition resolution")
      return { record with resolution := some resolution }

def compositionGc (txn table horizon : Nat) (manifestDigest : Detail) :
    Except SchemaMutationError Cursor :=
  c.amendComposition txn "composition GC for unknown transaction"
    "composition GC without winner" fun record => do
      if record.resolution ≠ some .winner then throw (.corrupt "composition GC without winner")
      record.amendReplacement table "composition GC without table plan" fun plan => do
        if !plan.retired || plan.gc.isSome || horizon < txn then
          throw (.corrupt "duplicate or out-of-order composition GC")
        return { plan with gc := some ⟨horizon, manifestDigest, false⟩ }

def compositionGcComplete (txn table : Nat) : Except SchemaMutationError Cursor :=
  c.amendComposition txn "composition GC complete for unknown transaction"
    "composition GC complete without intent" fun record =>
      record.amendReplacement table "composition GC complete without intent" fun plan => do
        let gc ← completed plan.gc "composition GC complete without intent"
          "duplicate composition GC complete"
        return { plan with gc }

def tableObjectGc (txn table horizon : Nat) (manifestDigest : Detail) :
    Except SchemaMutationError Cursor :=
  c.amendComposition txn "table-object GC for unknown transaction"
    "table-object GC without winner" fun record => do
      if record.resolution ≠ some .winner then throw (.corrupt "table-object GC without winner")
      record.amendTableObject (retires table)
        "table-object GC without retirement" fun plan => do
          if !(tableObjectRetirement plan).2 || (Schema.tableObjectGc plan).isSome ||
              horizon < txn then
            throw (.corrupt "duplicate or out-of-order table-object GC")
          setTableObjectGc "table-object GC state absent" ⟨horizon, manifestDigest, false⟩ plan

def tableObjectGcComplete (txn table : Nat) : Except SchemaMutationError Cursor :=
  c.amendComposition txn "table-object GC complete for unknown transaction"
    "table-object GC complete without intent" fun record =>
      record.amendTableObject (retires table)
        "table-object GC complete without intent" fun plan =>
          match Schema.tableObjectGc plan with
          | none => throw (.corrupt "table-object GC complete without intent")
          | some gc =>
            if gc.complete then throw (.corrupt "duplicate table-object GC complete")
            else setTableObjectGc "table-object GC complete without intent"
              { gc with complete := true } plan

/-- The one record of a composition that does not look at the current
transaction and does not become it. -/
def migrationIndex (txn table tableVersion : Nat) (fingerprint : Detail)
    (index : Nat) (next : Option Nat) : Cursor :=
  let record := c.journal.composition txn
  c.setComposition txn { record with migrationIndexReservations :=
    record.migrationIndexReservations ++ [⟨txn, table, tableVersion, fingerprint, index, next⟩] }

def insertOnce {α : Type} (m : TreeMap Nat α) (txn : Nat) (a : α) (duplicate : String) :
    Except SchemaMutationError (TreeMap Nat α) :=
  if m.contains txn then throw (.corrupt duplicate) else return m.insert txn a

def stageResource (intent : StageResourceIntent) : Except SchemaMutationError Cursor := do
  let stageIntents ← insertOnce c.journal.stageIntents intent.transaction intent
    "duplicate backfill stage intent"
  return { c with journal := { c.journal with stageIntents } }

def finalization (c : Cursor) (intent : FinalizationIntent) :
    Except SchemaMutationError Cursor := do
  let finalizationIntents ← insertOnce c.journal.finalizationIntents intent.transaction intent
    "duplicate backfill finalization intent"
  return { c with journal := { c.journal with finalizationIntents } }

def migrationFinalization (intent : MigrationIndexFinalizationIntent) :
    Except SchemaMutationError Cursor := do
  let migrationFinalizationIntents ← insertOnce c.journal.migrationFinalizationIntents
    intent.transaction intent "duplicate migration finalization intent"
  return { c with journal := { c.journal with migrationFinalizationIntents } }

def sourceBackfill (intent : SourceBackfillIntent) : Except SchemaMutationError Cursor := do
  let sourceBackfillIntents ← insertOnce c.journal.sourceBackfillIntents intent.transaction intent
    "duplicate source-backfill intent"
  return { c with journal := { c.journal with sourceBackfillIntents } }

def read : JournalRecord → Except SchemaMutationError Cursor
  | .reservation txn table storage generation epoch => c.reservation txn table storage generation epoch
  | .createIntent txn fragment => c.createIntent checks txn fragment
  | .resolution txn committed => c.resolution txn committed
  | .drop txn targetGeneration targetEpoch fragment =>
    c.drop checks txn targetGeneration targetEpoch fragment
  | .dropRetired txn => c.dropRetired txn
  | .dropResolution txn committed => c.dropResolution txn committed
  | .gc txn horizon manifestDigest => c.gc txn horizon manifestDigest
  | .gcComplete txn => c.gcComplete txn
  | .rewriteReservation txn table storage column generation epoch =>
    c.rewriteReservation txn table storage column generation epoch
  | .rewriteIntent txn detail base target => c.rewriteIntent checks txn detail base target
  | .rewriteRetired txn => c.rewriteRetired txn
  | .rewriteResolution txn committed => c.rewriteResolution txn committed
  | .compositionColumn txn table column next => c.compositionColumn txn table column next
  | .compositionIntent txn intent => c.compositionIntent checks txn intent
  | .compositionRetired txn table => c.compositionRetired txn table
  | .compositionResolution txn resolution => c.compositionResolution txn resolution
  | .compositionGc txn table horizon manifestDigest =>
    c.compositionGc txn table horizon manifestDigest
  | .compositionGcComplete txn table => c.compositionGcComplete txn table
  | .compositionIndex txn table tableVersion fingerprint index next =>
    c.compositionIndex txn table tableVersion fingerprint index next
  | .schemaIndexIntent txn intent => c.schemaIndexIntent checks txn intent
  | .compositionTable txn table next => c.compositionTable txn table next
  | .tableObjectIntent txn intent => c.tableObjectIntent checks txn intent
  | .tableObjectRetired txn kind table => c.tableObjectRetired txn kind table
  | .tableObjectGc txn table horizon manifestDigest =>
    c.tableObjectGc txn table horizon manifestDigest
  | .tableObjectGcComplete txn table => c.tableObjectGcComplete txn table
  | .stageResource intent => c.stageResource intent
  | .finalization intent => c.finalization intent
  | .migrationIndex txn table tableVersion fingerprint index next =>
    return c.migrationIndex txn table tableVersion fingerprint index next
  | .migrationFinalization intent => c.migrationFinalization intent
  | .sourceBackfill intent => c.sourceBackfill intent

def step (record : JournalRecord) : Except SchemaMutationError Cursor := do
  if record.txn = 0 then throw (.corrupt "zero mutation transaction")
  c.read checks record

end Cursor

namespace SchemaMutationJournal

/-- The checks of `decode` on one composition once every record is read. -/
def checkComposition (c : CompositionRecord) : Except SchemaMutationError Unit := do
  if !c.migrationIndexReservations.isEmpty && !c.hasIntent then
    throw (.corrupt "migration IndexId reservation without composition")
  if 1 < c.intent.toList.length + c.indexIntent.toList.length + c.tableIntent.toList.length then
    throw (.corrupt "composition has multiple aggregate intents")

def decode (checks : Checks) (file : List JournalRecord) :
    Except SchemaMutationError SchemaMutationJournal := do
  checks.framing file
  let c ← file.foldlM (Cursor.step checks) Cursor.start
  (c.journal.compositions.toList.map (·.2)).forM checkComposition
  checks.authorities c.journal
  return { c.journal with poisoned := false }

def encode (checks : Checks) (j : SchemaMutationJournal) :
    Except SchemaMutationError (List JournalRecord) := do
  let _ ← decode checks j.records
  return j.records

end SchemaMutationJournal

end Netbadb.Schema
