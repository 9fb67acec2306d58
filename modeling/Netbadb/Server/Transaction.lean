import Netbadb.Server.Composition

/-!
A database transaction as the server uses it: DDL, relational statements,
commit and rollback.

The engine underneath is a parameter. It decides what is accepted and what
becomes of rows, and each of its functions is given exactly the rows the source
hands to that part: a query the read view of its declared tables, a mutation
the view of its target, a materialization the tables DDL has changed.
-/

namespace Netbadb.Server

inductive SchemaMutationError where
  | migrationDataAccessAfterRefinement
  | schemaMutationAfterMaterialization
  | crossTableAccess
  | unsupportedOperation
  | recoveryRequired
  | corrupt (reason : String)
  | other (reason : String)
deriving DecidableEq, Repr

inductive TransactionState where
  | active
  | rollbackRequired
  | preparing
  | parkedPreparePending
  | parkedPrepared
  | decisionPending
  | commitDecided
  | applyingCommit
  | finalizePending
  | commitPending
  | rollbackPending
  | committed
  | rolledBack
deriving DecidableEq, Repr

inductive CoordinatorError where
  | notActive (state : TransactionState)
  | commitAlreadyDecided (state : TransactionState)
  | schemaMutationRequiresDatabaseCommit
  | other (reason : String)
deriving DecidableEq, Repr

inductive DatabaseError where
  | compile (reason : String)
  | schema (reason : String)
  | storage (reason : String)
  | execution (reason : String)
  | outputRowsExceeded (limit : Nat)
  | unknownTable (tableId : TableId)
  | schemaMutation (error : SchemaMutationError)
  | transaction (error : CoordinatorError)
  | expectedQuery
  | other (reason : String)
deriving DecidableEq, Repr

structure TableState (Row Stats : Type) where
  rows : List Row
  /-- The snapshot of the last ANALYZE. -/
  statistics : Option Stats

structure Database (Row Stats : Type) where
  schema : List TableDef
  tables : TableId → TableState Row Stats

structure Transaction (Row : Type) where
  state : TransactionState
  composition : Option SchemaComposition
  pendingIndexCreations : Bool
  /-- The rows of the tables written or staged here. -/
  rows : TableId → Option (List Row)

inductive PreparedSqlStatement (Expr : Type) where
  | relational (statement : LogicalStatement Expr)
  | ddl (statement : CompiledDdlStatement)

/-- The compiler's result before lowering. -/
inductive CompiledSqlStatement (Expr : Type) where
  | relational (statement : TypedStatement Expr)
  | ddl (statement : CompiledDdlStatement)

def PreparedSqlStatement.access {Expr : Type} : PreparedSqlStatement Expr → StatementAccess
  | .relational statement => statement.access
  | .ddl statement => statement.access

inductive ExecutionResult (Row : Type) where
  | query (rows : List Row)
  | affectedRows (count : Nat)

inductive DdlRoute where
  | unchanged
  /-- Index DDL on a committed storage, without a composition. -/
  | inPlace
  | composed (phase : CompositionPhase) (fresh : TableId)

structure Engine (Expr Row Stats : Type) where
  /-- Whether a source text is DDL, by its syntax alone. -/
  classify : String → Except DatabaseError Bool
  compile : List TableDef → String → Except DatabaseError (CompiledSqlStatement Expr)
  columnExpr : ColumnRef → Expr
  /-- The physical operators, chosen from the statistics of the plan's tables. -/
  operators : List (TableId × Option Stats) → Operators Expr Row DatabaseError
  insert : TableId → List Expr → List Row → Except DatabaseError (List Row)
  update : TableId → List (Assignment Expr) → List Row → List Row →
    Except DatabaseError (List Row × Nat)
  delete : TableId → List Row → List Row → Except DatabaseError (List Row × Nat)
  analyze : List Row → Except DatabaseError Stats
  singleHeap : TableId → Bool
  acceptDdl : Database Row Stats → Transaction Row → CompiledDdlStatement →
    Except DatabaseError DdlRoute
  /-- A deferred UPDATE, observed over the rows of the adopted source. -/
  adoptedUpdate : SchemaComposition → LogicalStatement Expr → List Row →
    Except DatabaseError (Option Nat)
  materialize : SchemaTransactionPlan → List (List Row) → Except DatabaseError CompositionPhase
  tablePlanKind : SchemaTransactionPlan → TableId → Option TablePlanKind
  rewriteRows : SchemaTransactionPlan → TableId → List Row → List Row
  /-- A commit that fails says in which state it leaves the transaction. -/
  commitRows : Transaction Row → Except (DatabaseError × TransactionState) Unit
  commitSchema : Database Row Stats → Transaction Row →
    Except (DatabaseError × TransactionState) Unit
  rollbackFailure : Transaction Row → Option DatabaseError
  /-- Joining the single storage of a table as a writer; a partitioned table
  is joined by the rows it routes. -/
  writeContext : Transaction Row → TableId → Except DatabaseError Unit

section

variable {Expr Row Stats : Type}

def Database.begin (_ : Database Row Stats) : Transaction Row :=
  { state := .active, composition := none, pendingIndexCreations := false, rows := fun _ => none }

def Database.isKnown (db : Database Row Stats) (t : TableId) : Bool :=
  db.schema.any fun table => table.id == t

namespace Transaction

def ownsStagedTable (txn : Transaction Row) (t : TableId) : Bool :=
  txn.state == .active && match txn.composition with
    | none => false
    | some c => c.stagedBinding t || decide (t ∈ c.plan.touched) || c.plan.isPresent t

variable (db : Database Row Stats) (txn : Transaction Row)

def visibleSchema : List TableDef :=
  match txn.composition with
  | none => db.schema
  | some c => c.plan.overlay

def visibleRows (t : TableId) : List Row :=
  (txn.rows t).getD (db.tables t).rows

/-- `validate_transaction`: only an active transaction takes statements. -/
def validate (txn : Transaction Row) : Except DatabaseError Unit :=
  if txn.state = .active then .ok () else .error (.transaction (.notActive txn.state))

/-- The view of the storages of some tables; a table without a storage is an error. -/
def readView (tables : List TableId) : Except DatabaseError (TableId → Option (List Row)) :=
  match tables.find? fun t => !(db.isKnown t || (txn.rows t).isSome) with
  | some t => .error (.unknownTable t)
  | none => .ok fun t => if t ∈ tables then some (txn.visibleRows db t) else none

/-- A staged table has no statistics of its own yet. -/
def statistics (tables : List TableId) : List (TableId × Option Stats) :=
  tables.map fun t =>
    (t, if txn.composition.any fun c => c.stagedBinding t then none else (db.tables t).statistics)

def setRows (txn : Transaction Row) (t : TableId) (rows : List Row) : Transaction Row :=
  { txn with rows := fun u => if u = t then some rows else txn.rows u }

def setPhase (txn : Transaction Row) (phase : CompositionPhase) : Transaction Row :=
  { txn with composition := txn.composition.map fun c => { c with phase } }

/-- `require_schema_rollback` with the phase it leaves. -/
def requireRollback (txn : Transaction Row) (phase : CompositionPhase) : Transaction Row :=
  { txn.setPhase phase with state := .rollbackRequired }

/-- Rolling back from the states that allow it; a failure can be retried. -/
def rollback (engine : Engine Expr Row Stats) (txn : Transaction Row) :
    Except DatabaseError Unit × Transaction Row :=
  match txn.state with
  | .active | .rollbackRequired | .preparing | .rollbackPending =>
    match engine.rollbackFailure txn with
    | some error => (.error error, { txn with state := .rollbackPending })
    | none => (.ok (), { txn with state := .rolledBack })
  | .decisionPending | .commitDecided | .applyingCommit | .finalizePending | .committed =>
    (.error (.transaction (.commitAlreadyDecided txn.state)), txn)
  | _ => (.error (.transaction (.notActive txn.state)), txn)

variable (engine : Engine Expr Row Stats) (db : Database Row Stats) (txn : Transaction Row)

/-- `execute_ddl_in`. -/
def executeDdlIn (ddl : CompiledDdlStatement) : Except DatabaseError Unit × Transaction Row :=
  if txn.composition.any fun c => c.phase == .typeConversionReady then
    (.error (.schemaMutation .schemaMutationAfterMaterialization), txn)
  else match txn.validate with
  | .error error => (.error error, txn)
  | .ok () =>
    if (txn.composition.any fun c => c.phase.isBackfill || c.phase.isBackfillIndex) &&
        !ddl.refinesBackfill then
      (.error (.schemaMutation .unsupportedOperation), txn)
    else match engine.acceptDdl db txn ddl with
    | .error (.schemaMutation .recoveryRequired) =>
      (.error (.schemaMutation .recoveryRequired), txn.requireRollback .rollbackRequiredLogical)
    | .error error => (.error error, txn)
    | .ok .unchanged => (.ok (), txn)
    | .ok .inPlace =>
      (.ok (), { txn with
        pendingIndexCreations := txn.pendingIndexCreations || ddl.isIndexCreate })
    | .ok (.composed phase fresh) =>
      let current := txn.composition.getD ⟨.composing, .start db.schema, []⟩
      -- an intent already materialized is replaced at commit, not here
      (.ok (), { txn with
        composition := some ⟨phase, current.plan.apply fresh ddl, current.intent⟩ })

/-- The rows of the staged heaps: a created table starts empty, a changed one
with its rewritten rows. -/
def stagedRows (plan : SchemaTransactionPlan) (t : TableId) : Option (List Row) :=
  if plan.isPresent t then some ((txn.rows t).getD [])
  else if t ∈ plan.touched then some (engine.rewriteRows plan t (txn.visibleRows db t))
  else txn.rows t

/-- `ensure_schema_materialized_with_backfill`: the rows of every changed table
move into a staged heap. -/
def materialize : Except DatabaseError Unit × Transaction Row :=
  match txn.composition with
  | some ⟨.composing, plan, _⟩ =>
    match engine.materialize plan (plan.touched.map (txn.visibleRows db)) with
    | .error error => (.error error, txn.requireRollback .rollbackRequiredLogical)
    | .ok phase =>
      let intent := plan.intent (engine.tablePlanKind plan)
      (.ok (), { txn with
        composition := some ⟨phase, plan, intent⟩
        rows := txn.stagedRows engine db plan })
  | _ => (.ok (), txn)

/-- A composition with an open backfill admits its own table alone. -/
def admitsTarget (plan : SchemaTransactionPlan) (tables : List TableId) (absent : String) :
    Except DatabaseError Unit :=
  match plan.touched.head? with
  | none => .error (.schemaMutation (.corrupt absent))
  | some target =>
    if tables.any (· != target) then .error (.schemaMutation .crossTableAccess)
    else .ok ()

/-- The two checks of a statement's tables before it materializes the plan. -/
def checkBackfillTarget (engine : Engine Expr Row Stats) (txn : Transaction Row)
    (tables : List TableId) : Except DatabaseError Unit :=
  match txn.composition with
  | none => .ok ()
  | some c => do
    if c.plan.isBackfillCandidate engine.singleHeap then
      admitsTarget c.plan tables "backfill target absent"
    if c.phase.isSourceBackfill then
      admitsTarget c.plan tables "source-backfill target absent"

/-- `try_execute_adopted_update`. -/
def tryAdoptedUpdate (statement : LogicalStatement Expr) : Except DatabaseError (Option Nat) :=
  match txn.composition with
  | none => .ok none
  | some c =>
    if c.phase.isAdoptedOpen then
      match c.plan.touched.head? with
      | none => .error (.schemaMutation (.corrupt "deferred plan absent"))
      | some target => engine.adoptedUpdate c statement (txn.visibleRows db target)
    else .ok none

def executeQuery (limit : Nat) (plan : LogicalPlan Expr) : Except DatabaseError (List Row) := do
  let tables := collectScanTables plan []
  let view ← txn.readView db tables
  let rows ← plan.evaluate (engine.operators (txn.statistics db tables)) .unknownTable view
  if rows.length > limit then
    throw (.outputRowsExceeded limit)
  pure rows

/-- The new rows of the target of a mutation, and how many it affected. -/
def mutate :
    LogicalStatement Expr → Except DatabaseError (TableId × List Row × Nat)
  | .query _ => .error .expectedQuery
  | .insert tableId values => do
      let _ ← txn.readView db [tableId]
      let rows ← engine.insert tableId values (txn.visibleRows db tableId)
      pure (tableId, rows, 1)
  | .update input tableId assignments => do
      let view ← txn.readView db [tableId]
      let ops := engine.operators (txn.statistics db [tableId])
      let matched ← input.evaluate ops .unknownTable view
      let (rows, count) ← engine.update tableId assignments matched (txn.visibleRows db tableId)
      pure (tableId, rows, count)
  | .delete input tableId => do
      let view ← txn.readView db [tableId]
      let ops := engine.operators (txn.statistics db [tableId])
      let matched ← input.evaluate ops .unknownTable view
      let (rows, count) ← engine.delete tableId matched (txn.visibleRows db tableId)
      pure (tableId, rows, count)

/-- A mutation that fails while it runs rolls the whole transaction back. -/
def executeMutationIn (statement : LogicalStatement Expr) :
    Except DatabaseError (ExecutionResult Row) × Transaction Row :=
  match txn.mutate engine db statement with
  | .ok (target, rows, count) => (.ok (.affectedRows count), txn.setRows target rows)
  | .error error =>
    match txn.rollback engine with
    | (.ok (), txn) => (.error error, txn)
    | (.error rollbackError, txn) => (.error rollbackError, txn)

/-- `single_storage_in` and `write_context`, before the mutation runs: a
failure here leaves the transaction active. -/
def joinTargets (tables : List TableId) : Except DatabaseError Unit := do
  let _ ← txn.readView db tables
  tables.forM (engine.writeContext txn)

/-- The part of `execute_prepared_in_with_limits` behind materialization. -/
def executeStatement (limit : Nat) (statement : LogicalStatement Expr) :
    Except DatabaseError (ExecutionResult Row) × Transaction Row :=
  if (txn.composition.any fun c => c.phase.refusesRows) &&
      !(statement.readTables ++ statement.writeTables).isEmpty then
    (.error (.schemaMutation .migrationDataAccessAfterRefinement), txn)
  else match statement with
  | .query plan => (.query <$> txn.executeQuery engine db limit plan, txn)
  | statement =>
    if txn.pendingIndexCreations then
      (.error (.transaction .schemaMutationRequiresDatabaseCommit), txn)
    else match txn.joinTargets engine db statement.writeTables with
    | .error error => (.error error, txn)
    | .ok () => txn.executeMutationIn engine db statement

/-- `execute_prepared_in_with_limits`. -/
def executePreparedIn (limit : Nat) (statement : LogicalStatement Expr) :
    Except DatabaseError (ExecutionResult Row) × Transaction Row :=
  match txn.validate with
  | .error error => (.error error, txn)
  | .ok () =>
    if txn.composition.any fun c => c.phase == .typeConversionReady then
      (.error (.schemaMutation .migrationDataAccessAfterRefinement), txn)
    else match txn.tryAdoptedUpdate engine db statement with
    | .error error => (.error error, txn)
    | .ok (some count) => (.ok (.affectedRows count), txn.setPhase .adoptedSourceBackfilling)
    | .ok none =>
      match txn.checkBackfillTarget engine (statement.readTables ++ statement.writeTables) with
      | .error error => (.error error, txn)
      | .ok () =>
        match txn.materialize engine db with
        | (.error error, txn) => (.error error, txn)
        | (.ok (), txn) => txn.executeStatement engine db limit statement

/-- The committed state once the transaction's rows and schema are published. -/
def publish : Database Row Stats where
  schema := txn.visibleSchema db
  tables := fun t =>
    match txn.rows t, txn.composition with
    | some rows, some c =>
      ⟨rows, if c.stagedBinding t then none else (db.tables t).statistics⟩
    | some rows, none => ⟨rows, (db.tables t).statistics⟩
    -- deferred rewrites of an adopted source reach its rows at commit
    | none, some c =>
      if t ∈ c.plan.touched then ⟨engine.rewriteRows c.plan t (db.tables t).rows, none⟩
      else db.tables t
    | none, none => db.tables t

/-- `commit_transaction`. -/
def commit : Except DatabaseError Unit × Transaction Row × Database Row Stats :=
  match txn.materialize engine db with
  | (.error error, txn) => (.error error, txn, db)
  | (.ok (), txn) =>
    let outcome := match txn.composition with
      | none => engine.commitRows txn
      | some _ => engine.commitSchema db txn
    match outcome with
    | .error (error, state) => (.error error, { txn with state }, db)
    | .ok () => (.ok (), { txn with state := .committed }, txn.publish engine db)

end Transaction

namespace Database

variable (engine : Engine Expr Row Stats) (db : Database Row Stats)

/-- `execute_ddl`: DDL in a transaction of its own. -/
def executeDdl (ddl : CompiledDdlStatement) : Except DatabaseError Unit × Database Row Stats :=
  match db.begin.executeDdlIn engine db ddl with
  | (.ok (), txn) =>
    let (outcome, _, db) := txn.commit engine db
    (outcome, db)
  | (.error error, txn) =>
    match txn.rollback engine with
    | (.ok (), _) => (.error error, db)
    | (.error rollbackError, _) => (.error rollbackError, db)

/-- `execute_bound_mutation_autocommit`: a mutation in a transaction of its own. -/
def executeMutation (statement : LogicalStatement Expr) :
    Except DatabaseError (ExecutionResult Row) × Database Row Stats :=
  match db.begin.executeMutationIn engine db statement with
  | (.error error, _) => (.error error, db)
  | (.ok result, txn) =>
    match txn.commit engine db with
    | (.ok (), _, db) => (.ok result, db)
    | (.error error, _, db) => (.error error, db)

/-- `execute_prepared_with_limits`: a query runs over a view of its own. -/
def executePrepared (limit : Nat) :
    LogicalStatement Expr → Except DatabaseError (ExecutionResult Row) × Database Row Stats
  | .query plan => (.query <$> db.begin.executeQuery engine db limit plan, db)
  | statement => db.executeMutation engine statement

/-- `analyze`. -/
def analyze (t : TableId) : Except DatabaseError Unit × Database Row Stats :=
  if db.isKnown t then
    match engine.analyze (db.tables t).rows with
    | .error error => (.error error, db)
    | .ok statistics => (.ok (), { db with
        tables := fun u =>
          if u = t then { db.tables t with statistics := some statistics } else db.tables u })
  else (.error (.unknownTable t), db)

end Database

end

end Netbadb.Server
