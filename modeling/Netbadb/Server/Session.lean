import Netbadb.Server.Transaction

/-!
A server session: the request loop of one connected principal.

`handle` follows `handle_with_server_observation`. How errors are
worded, how result columns are described and which messages fit a frame are a
parameter, `Presentation`.
-/

namespace Netbadb.Server

def PROTOCOL_VERSION : Nat := 2
def MAX_FRAME_PAYLOAD : Nat := 16 * 1024 * 1024
def MAX_ERROR_MESSAGE_BYTES : Nat := MAX_FRAME_PAYLOAD - 8
/-- Explicit transactions, ANALYZE and streamed query results. -/
def SERVER_CAPABILITIES : Nat := 7

inductive ClientMessage where
  | hello
  | ping
  | execute (sql : String)
  | begin (tableId : TableId)
  | commit
  | rollback
  | analyze (tableId : TableId)
deriving DecidableEq, Repr

inductive WireTransactionState where
  | none
  | active
  | rollbackRequired
  | commitPending
  | rollbackPending
deriving DecidableEq, Repr

inductive ProtocolErrorCode where
  | protocol
  | handshakeRequired
  | alreadyHandshaken
  | transactionAlreadyActive
  | noActiveTransaction
  | operationNotAllowedInTransaction
  | compile
  | schema
  | storage
  | execution
  | database
  | responseTooLarge
  | internalResultMismatch
deriving DecidableEq, Repr

structure WireResultColumn where
  name : String
  dataType : String
  nullable : Bool
deriving DecidableEq, Repr

inductive ServerMessage (Row : Type) where
  | helloAck (version maxFramePayload capabilities : Nat) (tables : List (TableId × Nat))
  | queryStart (columns : List WireResultColumn)
  | queryRow (values : Row)
  | queryEnd (rowCount : Nat)
  | affectedRows (count : Nat)
  | transactionStarted
  | transactionCommitted
  | transactionRolledBack
  | analyzeAck
  | pong
  | error (code : ProtocolErrorCode) (state : WireTransactionState) (message : String)
deriving DecidableEq, Repr

structure SessionResponse (Row : Type) where
  requestId : Nat
  messages : List (ServerMessage Row)
  resultRowLimitExceeded : Bool
  authorizationDenied : Bool
deriving DecidableEq, Repr

inductive DatabaseErrorKind where
  | operational
  | internal
  | transactionState
  | resourceLimit
  | other
deriving DecidableEq, Repr

inductive ServerError where
  | database (error : DatabaseError)
  | protocol (reason : String)
  | internalResultMismatch (row : Nat) (column : Option Nat) (reason : String)
  | responseTooLarge
  | resultRowLimitExceeded (rows limit : Nat)
deriving DecidableEq, Repr

inductive SessionFailure where
  | fixed (code : ProtocolErrorCode) (message : String)
  | database (error : DatabaseError)
  | server (error : ServerError)
deriving DecidableEq, Repr

structure Presentation (Expr Row : Type) where
  kind : DatabaseError → DatabaseErrorKind
  display : DatabaseError → String
  columns : LogicalPlan Expr → List WireResultColumn
  /-- The column a row of a result is wrong in, if it is one, and why. -/
  rowMismatch : List WireResultColumn → Row → Option (Option Nat × String)
  /-- A message that does not fit a frame. -/
  invalid : ServerMessage Row → Option ServerError

def databaseErrorCode (kind : DatabaseErrorKind) (error : DatabaseError) : ProtocolErrorCode :=
  if kind = .resourceLimit then .responseTooLarge
  else match error with
    | .compile _ => .compile
    | .schema _ => .schema
    | .storage _ => .storage
    | .execution _ | .outputRowsExceeded _ => .execution
    | .unknownTable _ | .schemaMutation _ | .transaction _ | .expectedQuery
    | .other _ => .database

def wireTransactionState : TransactionState → WireTransactionState
  | .active => .active
  | .rollbackRequired => .rollbackRequired
  | .preparing | .parkedPreparePending | .parkedPrepared | .decisionPending | .commitDecided
  | .applyingCommit | .finalizePending | .commitPending => .commitPending
  | .rollbackPending => .rollbackPending
  | .committed | .rolledBack => .none

def takeBytes : Nat → List Char → List Char
  | _, [] => []
  | room, c :: cs => if c.utf8Size ≤ room then c :: takeBytes (room - c.utf8Size) cs else []

def boundedErrorMessage (message : String) : String :=
  let suffix := "... [truncated]"
  if message.utf8ByteSize ≤ MAX_ERROR_MESSAGE_BYTES then message
  else
    String.ofList (takeBytes (MAX_ERROR_MESSAGE_BYTES - suffix.utf8ByteSize) message.toList) ++
      suffix

section

variable {Expr Row Stats : Type}

structure DatabaseSession (Row : Type) where
  transaction : Option (Transaction Row)
  maxResultRows : Nat

namespace DatabaseSession

def transactionState (s : DatabaseSession Row) : WireTransactionState :=
  match s.transaction with
  | none => .none
  | some txn => wireTransactionState txn.state

def ownsStagedTable (s : DatabaseSession Row) (t : TableId) : Bool :=
  s.transaction.any fun txn => txn.ownsStagedTable t

def lower (engine : Engine Expr Row Stats) :
    CompiledSqlStatement Expr → PreparedSqlStatement Expr
  | .relational statement => .relational (lowerStatement engine.columnExpr statement)
  | .ddl statement => .ddl statement

variable (engine : Engine Expr Row Stats) (db : Database Row Stats) (s : DatabaseSession Row)

def prepare (sql : String) : Except DatabaseError (PreparedSqlStatement Expr) :=
  match s.transaction with
  | none => lower engine <$> engine.compile db.schema sql
  | some txn => do
      txn.validate
      if txn.composition.any fun c => c.phase == .typeConversionReady then
        if ← engine.classify sql then
          throw (.schemaMutation .schemaMutationAfterMaterialization)
        else
          throw (.schemaMutation .migrationDataAccessAfterRefinement)
      lower engine <$> engine.compile (txn.visibleSchema db) sql

/-- A transaction that a statement has ended leaves the session. -/
def settle (s : DatabaseSession Row) (txn : Transaction Row) : DatabaseSession Row :=
  if txn.state = .committed ∨ txn.state = .rolledBack then { s with transaction := none }
  else { s with transaction := some txn }

def executePrepared (statement : LogicalStatement Expr) :
    Except DatabaseError (ExecutionResult Row) × DatabaseSession Row × Database Row Stats :=
  match s.transaction with
  | some txn =>
    let (result, txn) := txn.executePreparedIn engine db s.maxResultRows statement
    (result, s.settle txn, db)
  | none =>
    let (result, db) := db.executePrepared engine s.maxResultRows statement
    (result, s, db)

/-- A failed commit keeps the transaction, so that it can be retried. -/
def commit : Except DatabaseError Unit × DatabaseSession Row × Database Row Stats :=
  match s.transaction with
  | none => (.error .expectedQuery, s, db)
  | some txn =>
    match txn.commit engine db with
    | (.ok (), _, db) => (.ok (), { s with transaction := none }, db)
    | (.error error, txn, db) => (.error error, { s with transaction := some txn }, db)

def rollback (engine : Engine Expr Row Stats) (s : DatabaseSession Row) :
    Except DatabaseError Unit × DatabaseSession Row :=
  match s.transaction with
  | none => (.error .expectedQuery, s)
  | some txn =>
    match txn.rollback engine with
    | (.ok (), _) => (.ok (), { s with transaction := none })
    | (.error error, txn) => (.error error, { s with transaction := some txn })

/-- CREATE TABLE and ALTER TABLE outside a transaction run in an implicit one
that the session keeps until it is settled. -/
def executeDdl (ddl : CompiledDdlStatement) :
    Except DatabaseError Unit × DatabaseSession Row × Database Row Stats :=
  match s.transaction with
  | some txn =>
    let (result, txn) := txn.executeDdlIn engine db ddl
    (result, { s with transaction := some txn }, db)
  | none =>
    if ddl.isTableCreate || ddl.isTableAlter then
      match db.begin.executeDdlIn engine db ddl with
      | (.ok (), txn) => commit engine db { s with transaction := some txn }
      | (.error error, txn) =>
        match rollback engine { s with transaction := some txn } with
        | (.ok (), s) => (.error error, s, db)
        | (.error rollbackError, s) => (.error rollbackError, s, db)
    else
      let (result, db) := db.executeDdl engine ddl
      (result, s, db)

def executeSqlPrepared :
    PreparedSqlStatement Expr →
      Except DatabaseError (ExecutionResult Row) × DatabaseSession Row × Database Row Stats
  | .relational statement => s.executePrepared engine db statement
  | .ddl statement =>
    let (result, s, db) := s.executeDdl engine db statement
    ((fun _ => .affectedRows 0) <$> result, s, db)

end DatabaseSession

section

variable (present : Presentation Expr Row) (s : DatabaseSession Row)

def errorMessages (code : ProtocolErrorCode) (message : String) : List (ServerMessage Row) :=
  [.error code s.transactionState (boundedErrorMessage message)]

def databaseErrorMessages (error : DatabaseError) : List (ServerMessage Row) :=
  let message := match present.kind error with
    | .operational => "database operation failed"
    | .internal => "internal database error"
    | .transactionState => "invalid transaction state"
    | .resourceLimit | .other => present.display error
  errorMessages s (databaseErrorCode (present.kind error) error) message

def serverErrorMessages (error : ServerError) : List (ServerMessage Row) :=
  match error with
  | .database error => databaseErrorMessages present s error
  | .protocol reason => errorMessages s .protocol reason
  | .internalResultMismatch row none reason =>
    errorMessages s .internalResultMismatch
      ("query result row " ++ toString row ++ " is invalid: " ++ reason)
  | .internalResultMismatch row (some column) reason =>
    errorMessages s .internalResultMismatch
      ("query result row " ++ toString row ++ ", column " ++ toString column ++
        " is invalid: " ++ reason)
  | .responseTooLarge =>
    errorMessages s .responseTooLarge "one response message exceeds the protocol frame limit"
  | .resultRowLimitExceeded rows limit =>
    errorMessages s .responseTooLarge
      ("query result has " ++ toString rows ++
        " rows and exceeds the configured server row limit " ++ toString limit)

/-- The first message that does not fit turns the batch into one error. -/
def successMessages (messages : List (ServerMessage Row)) : List (ServerMessage Row) :=
  match messages.findSome? present.invalid with
  | none => messages
  | some error => serverErrorMessages present s error

def buildQueryMessages (maxResultRows : Nat) (plan : LogicalPlan Expr) (rows : List Row) :
    Except ServerError (List (ServerMessage Row)) := do
  if rows.length > maxResultRows then
    throw (.resultRowLimitExceeded rows.length maxResultRows)
  let columns := present.columns plan
  for (row, index) in rows.zipIdx do
    match present.rowMismatch columns row with
    | some (column, reason) => throw (.internalResultMismatch index column reason)
    | none => pure ()
  let messages := [.queryStart columns] ++ rows.map .queryRow ++ [.queryEnd rows.length]
  match messages.findSome? present.invalid with
  | none => pure messages
  | some error => throw error

def failureResponse (requestId : Nat) :
    SessionFailure → SessionResponse Row
  | .fixed code message => ⟨requestId, errorMessages s code message, false, false⟩
  | .database error =>
    ⟨requestId, databaseErrorMessages present s error,
      present.kind error == .resourceLimit, false⟩
  | .server error =>
    ⟨requestId, serverErrorMessages present s error,
      match error with
        | .resultRowLimitExceeded .. => true
        | _ => false,
      false⟩

def respond (requestId : Nat) :
    Except SessionFailure (List (ServerMessage Row)) → SessionResponse Row
  | .ok messages => ⟨requestId, successMessages present s messages, false, false⟩
  | .error failure => failureResponse present s requestId failure

def resultMessages (maxResultRows : Nat) :
    PreparedSqlStatement Expr → ExecutionResult Row →
      Except SessionFailure (List (ServerMessage Row))
  | .relational (.query plan), .query rows =>
    (buildQueryMessages present maxResultRows plan rows).mapError .server
  | _, .query _ => .error (.database .expectedQuery)
  | _, .affectedRows count => .ok [.affectedRows count]

end

structure SessionState (Row : Type) where
  handshaken : Bool
  execution : DatabaseSession Row

structure WorkerSession (Row : Type) where
  state : SessionState Row
  authorization : PrincipalAuthorization

def WorkerSession.new (authorization : PrincipalAuthorization) (maxResultRows : Nat) :
    WorkerSession Row :=
  ⟨⟨false, ⟨none, maxResultRows⟩⟩, authorization⟩

/-- What a request leaves behind: its response, the session and the database. -/
structure Served (Row Stats : Type) where
  response : SessionResponse Row
  session : WorkerSession Row
  database : Database Row Stats

def helloTables (db : Database Row Stats) : List (TableId × Nat) :=
  db.schema.map fun table => (table.id, table.fingerprint)

namespace SessionState

/-- `handle_with_metadata` of a session that has shaken hands. -/
def perform (engine : Engine Expr Row Stats) (present : Presentation Expr Row)
    (db : Database Row Stats) (s : SessionState Row) :
    ClientMessage →
      Except SessionFailure (List (ServerMessage Row)) × SessionState Row × Database Row Stats
  | .hello =>
    (.error (.fixed .alreadyHandshaken "session handshake is already complete"), s, db)
  | .ping => (.ok [.pong], s, db)
  | .execute sql =>
    match s.execution.prepare engine db sql with
    | .error error => (.error (.database error), s, db)
    | .ok prepared =>
      let (result, execution, db) := s.execution.executeSqlPrepared engine db prepared
      ((result.mapError .database).bind
        (resultMessages present s.execution.maxResultRows prepared),
        { s with execution }, db)
  | .begin tableId =>
    if s.execution.transaction.isSome then
      (.error (.fixed .transactionAlreadyActive "session already owns a transaction"), s, db)
    else if db.isKnown tableId then
      (.ok [.transactionStarted],
        { s with execution := { s.execution with transaction := some db.begin } }, db)
    else (.error (.database (.unknownTable tableId)), s, db)
  | .commit =>
    if s.execution.transaction.isNone then
      (.error (.fixed .noActiveTransaction "session has no active transaction to commit"), s, db)
    else
      match s.execution.commit engine db with
      | (.ok (), execution, db) => (.ok [.transactionCommitted], { s with execution }, db)
      | (.error error, execution, db) => (.error (.database error), { s with execution }, db)
  | .rollback =>
    if s.execution.transaction.isNone then
      (.error (.fixed .noActiveTransaction "session has no active transaction to roll back"),
        s, db)
    else
      match s.execution.rollback engine with
      | (.ok (), execution) => (.ok [.transactionRolledBack], { s with execution }, db)
      | (.error error, execution) => (.error (.database error), { s with execution }, db)
  | .analyze tableId =>
    if s.execution.transaction.isSome then
      (.error (.fixed .operationNotAllowedInTransaction
        "ANALYZE is not allowed while the session owns a transaction"), s, db)
    else
      match db.analyze engine tableId with
      | (.ok (), db) => (.ok [.analyzeAck], s, db)
      | (.error error, db) => (.error (.database error), s, db)

end SessionState

namespace WorkerSession

variable (engine : Engine Expr Row Stats) (present : Presentation Expr Row) (w : WorkerSession Row)
  (db : Database Row Stats) (requestId : Nat)

def deny (denial : AuthorizationDenied) : Served Row Stats :=
  ⟨⟨requestId, errorMessages w.state.execution .database denial.display, false, true⟩, w, db⟩

/-- The first request: only a Hello is answered, with the tables the principal
may see. -/
def shakeHands :
    ClientMessage → Served Row Stats
  | .hello =>
    let ack := ServerMessage.helloAck PROTOCOL_VERSION MAX_FRAME_PAYLOAD SERVER_CAPABILITIES
      (helloTables db)
    match present.invalid ack with
    | some error =>
      ⟨failureResponse present w.state.execution requestId (.server error), w, db⟩
    | none =>
      ⟨⟨requestId, [.helloAck PROTOCOL_VERSION MAX_FRAME_PAYLOAD SERVER_CAPABILITIES
          ((helloTables db).filter fun table => w.authorization.canSee table.1)],
        false, false⟩,
        { w with state := { w.state with handshaken := true } }, db⟩
  | _ =>
    ⟨⟨requestId, errorMessages w.state.execution .handshakeRequired
      "Hello must be the first request in a session", false, false⟩, w, db⟩

def handlePrepared (prepared : PreparedSqlStatement Expr) : Served Row Stats :=
  let (result, execution, db) := w.state.execution.executeSqlPrepared engine db prepared
  let messages := (result.mapError .database).bind
    (resultMessages present w.state.execution.maxResultRows prepared)
  ⟨respond present execution requestId messages,
    { w with state := { w.state with execution } }, db⟩

def handleExecute (sql : String) : Served Row Stats :=
  match w.state.execution.prepare engine db sql with
  | .error error =>
    ⟨⟨requestId, databaseErrorMessages present w.state.execution error, false, false⟩, w, db⟩
  | .ok prepared =>
    match w.authorization.authorizeStatement prepared.access
        w.state.execution.ownsStagedTable with
    | .error denial => w.deny db requestId denial
    | .ok () => w.handlePrepared engine present db requestId prepared

/-- The grant a request other than a statement needs. Without a transaction
BEGIN and ANALYZE of a known table are checked; otherwise the session refuses
them itself. -/
def denial (w : WorkerSession Row) (db : Database Row Stats) :
    ClientMessage → Option AuthorizationDenied
  | .begin tableId => check .transaction tableId
  | .analyze tableId => check .analyze tableId
  | _ => none
where
  check (action : AuthorizationAction) (tableId : TableId) : Option AuthorizationDenied :=
    if w.state.execution.transactionState ≠ .none || !db.isKnown tableId then none
    else match w.authorization.authorize action tableId with
      | .ok () => none
      | .error denial => some denial

/-- `handle_with_server_observation`. -/
def handle (request : ClientMessage) : Served Row Stats :=
  if !w.state.handshaken || request = .hello then
    if requestId = 0 then
      ⟨⟨requestId, errorMessages w.state.execution .protocol "request ID zero is reserved",
        false, false⟩, w, db⟩
    else if w.state.handshaken then
      ⟨failureResponse present w.state.execution requestId
        (.fixed .alreadyHandshaken "session handshake is already complete"), w, db⟩
    else w.shakeHands present db requestId request
  else
    match request with
    | .execute sql => w.handleExecute engine present db requestId sql
    | request =>
      match w.denial db request with
      | some denial => w.deny db requestId denial
      | none =>
        if requestId = 0 then
          ⟨⟨requestId, errorMessages w.state.execution .protocol
            "request ID zero is reserved", false, false⟩, w, db⟩
        else
          let (result, state, db) := w.state.perform engine present db request
          ⟨respond present state.execution requestId result, { w with state }, db⟩

end WorkerSession

end

end Netbadb.Server
