import Netbadb.Server.Ownership

/-!
Which rows a session can reach.

A statement passes the check when each declared table is granted, or owned by
the administrator's transaction. Owned are the tables its DDL has created and
the committed ones it has changed, so the rows of a statement stay within the
grants while DDL has changed granted tables only. A principal that is no
administrator composes no DDL at all, and a table it has no grant on makes no
difference to any of its responses.
-/

namespace Netbadb.Server

open DatabaseSession PrincipalAuthorization

variable {Expr Row Stats : Type} {S : TableId → Prop} {statement : LogicalStatement Expr}
  {p : PrincipalAuthorization} {db' db : Database Row Stats}

namespace DatabaseSession

variable (engine : Engine Expr Row Stats)

lemma prepare_congr (h : db.AgreeOn S db') (s : DatabaseSession Row) (sql : String) :
    s.prepare engine db sql = s.prepare engine db' sql := by
  simp only [prepare, h.schema, h.visibleSchema]

/-- The tables that the DDL of the session's transaction has changed. -/
def touched (s : DatabaseSession Row) : List TableId :=
  match s.transaction with
  | none => []
  | some txn => txn.touched

lemma executePrepared_alike (h : db.AgreeOn S db') (s : DatabaseSession Row)
    (hS : ∀ t ∈ statement.tables, S t) (htouched : ∀ t ∈ s.touched, S t) :
    Alike S (s.executePrepared engine db statement) (s.executePrepared engine db' statement) := by
  unfold executePrepared
  cases htxn : s.transaction with
  | some txn =>
    have hcongr := Transaction.executePreparedIn_congr engine h txn s.maxResultRows hS
      fun t ht => htouched t (by simpa [touched, htxn] using ht)
    simp only [hcongr]
    exact ⟨rfl, rfl, h⟩
  | none =>
    obtain ⟨hresult, hdatabase⟩ := Database.executePrepared_agree engine h s.maxResultRows hS
    exact ⟨hresult, rfl, hdatabase⟩

end DatabaseSession

/-- A transaction without DDL commits alike. -/
lemma DatabaseSession.commit_alike (engine : Engine Expr Row Stats) {s : DatabaseSession Row}
    (hagree : db.AgreeOn S db') (hsound : s.Sound p) (hadmin : p.schemaAdmin = false) :
    Alike S (s.commit engine db) (s.commit engine db') := by
  unfold commit
  cases htxn : s.transaction with
  | none => exact ⟨rfl, rfl, hagree⟩
  | some txn =>
    have hplain : txn.composition = none := by
      cases hc : txn.composition with
      | none => rfl
      | some c =>
        have hcontra := (hsound txn htxn c hc).1
        simp [hadmin] at hcontra
    simp only [Transaction.commit_of_composition_none engine _ hplain]
    cases engine.commitRows txn with
    | error failure => exact ⟨rfl, rfl, hagree⟩
    | ok _ => exact ⟨rfl, rfl, hagree.publish engine hplain⟩

namespace WorkerSession

variable (engine : Engine Expr Row Stats) (present : Presentation Expr Row)

/-- Responses and sessions are equal, and the databases still agree. -/
structure Served.Alike (S : TableId → Prop) (a b : Served Row Stats) : Prop where
  response : a.response = b.response
  session : a.session = b.session
  database : a.database.AgreeOn S b.database

lemma handlePrepared_database (w : WorkerSession Row) (db : Database Row Stats)
    (requestId : Nat) (prepared : PreparedSqlStatement Expr) :
    (w.handlePrepared engine present db requestId prepared).database =
      (w.state.execution.executeSqlPrepared engine db prepared).2.2 := rfl

lemma handlePrepared_execution (w : WorkerSession Row) (db : Database Row Stats)
    (requestId : Nat) (prepared : PreparedSqlStatement Expr) :
    (w.handlePrepared engine present db requestId prepared).session.state.execution =
      (w.state.execution.executeSqlPrepared engine db prepared).2.1 := rfl

lemma handlePrepared_alike (w : WorkerSession Row) (requestId : Nat)
    {prepared : PreparedSqlStatement Expr}
    (h : Alike S (w.state.execution.executeSqlPrepared engine db prepared)
      (w.state.execution.executeSqlPrepared engine db' prepared)) :
    Served.Alike S (w.handlePrepared engine present db requestId prepared)
      (w.handlePrepared engine present db' requestId prepared) := by
  obtain ⟨hresult, hkept, hdatabase⟩ := h
  unfold handlePrepared
  exact ⟨by simp only [hresult, hkept], by simp only [hkept], hdatabase⟩

/-- The session runs a relational statement: it is prepared and authorized. -/
structure Executes (w : WorkerSession Row) (db : Database Row Stats) (sql : String)
    (statement : LogicalStatement Expr) : Prop where
  handshaken : w.state.handshaken = true
  prepared : w.state.execution.prepare engine db sql = .ok (.relational statement)
  authorized : w.authorization.authorizeStatement statement.access
    w.state.execution.ownsStagedTable = .ok ()

lemma Executes.handle_eq {w : WorkerSession Row} {sql : String}
    (h : w.Executes engine db sql statement) (requestId : Nat) :
    w.handle engine present db requestId (.execute sql) =
      w.handlePrepared engine present db requestId (.relational statement) := by
  have haccess : (PreparedSqlStatement.relational statement).access = statement.access := rfl
  simp [handle, handleExecute, h.handshaken, h.prepared, haccess, h.authorized]

variable (w : WorkerSession Row)

def Created (t : TableId) : Prop :=
  ∃ txn c, w.state.execution.transaction = some txn ∧ txn.composition = some c ∧
    c.plan.isCreated t = true

/-- The tables whose rows a statement may read. -/
def Readable (statement : LogicalStatement Expr) (t : TableId) : Prop :=
  w.authorization.Granted .read t ∨
    (t ∈ statement.writeTables ∧ w.authorization.Granted .write t) ∨ w.Created t

/-- The tables whose rows a statement may change. -/
def Writable (t : TableId) : Prop :=
  w.authorization.Granted .write t ∨ w.Created t

/-- DDL of the current transaction has changed no committed table on which the
principal lacks a read or write grant. -/
def Confined : Prop :=
  ∀ t ∈ w.state.execution.touched,
    w.authorization.Granted .read t ∧ w.authorization.Granted .write t

/-- A statement stays within the grants: in what it declares, in what its
outcome can depend on, and in what it changes. -/
structure WithinGrants (w : WorkerSession Row) (db : Database Row Stats) (requestId : Nat)
    (sql : String) (statement : LogicalStatement Expr) : Prop where
  reads : ∀ t ∈ statement.readTables, w.authorization.Granted .read t ∨ w.Created t
  writes : ∀ t ∈ statement.writeTables, w.Writable t
  observes : ∀ db', db.AgreeOn (w.Readable statement) db' →
    Served.Alike (w.Readable statement) (w.handle engine present db requestId (.execute sql))
      (w.handle engine present db' requestId (.execute sql))
  /-- Rows of other tables stay as they are, committed and in the transaction. -/
  changes : ∀ t, ¬ w.Writable t →
    (w.handle engine present db requestId (.execute sql)).database.tables t = db.tables t ∧
    ∀ txn txn', w.state.execution.transaction = some txn →
      (w.handle engine present db requestId (.execute sql)).session.state.execution.transaction =
        some txn' → txn'.rows t = txn.rows t

section Statement

variable {w : WorkerSession Row} {sql : String} {t : TableId}

/-- An owned table is created here, or carries both grants. -/
lemma Confined.of_owns (hsound : w.Sound) (hconfined : w.Confined)
    (h : w.state.execution.ownsStagedTable t = true) :
    (w.authorization.Granted .read t ∧ w.authorization.Granted .write t) ∨ w.Created t := by
  cases htxn : w.state.execution.transaction with
  | none => simp [ownsStagedTable, htxn] at h
  | some txn =>
    have howns : txn.ownsStagedTable t = true := by simpa [ownsStagedTable, htxn] using h
    obtain ⟨c, hc, htouched | hcreated⟩ := (hsound txn htxn).holds_of_owns howns
    · refine .inl (hconfined t ?_)
      simpa [touched, htxn, Transaction.touched, hc] using htouched
    · exact .inr ⟨txn, c, htxn, hc, hcreated⟩

section

variable (h : w.Executes engine db sql statement) (hsound : w.Sound) (hconfined : w.Confined)
include h hsound hconfined

lemma Executes.reads (ht : t ∈ statement.readTables) :
    w.authorization.Granted .read t ∨ w.Created t := by
  obtain ⟨-, hreads, -⟩ := authorizeStatement_eq_ok.mp h.authorized
  rcases hreads t ht with ⟨-, howns⟩ | hgranted
  · exact (hconfined.of_owns hsound howns).imp And.left id
  · exact .inl hgranted

lemma Executes.writes (ht : t ∈ statement.writeTables) : w.Writable t := by
  obtain ⟨-, -, hwrites⟩ := authorizeStatement_eq_ok.mp h.authorized
  rcases hwrites t ht with ⟨-, howns⟩ | hgranted
  · exact (hconfined.of_owns hsound howns).imp And.right id
  · exact .inl hgranted

lemma Executes.readable (ht : t ∈ statement.tables) : w.Readable statement t := by
  rcases List.mem_append.mp ht with hread | hwrite
  · exact (h.reads engine hsound hconfined hread).imp id .inr
  · exact .inr ((h.writes engine hsound hconfined hwrite).imp (⟨hwrite, ·⟩) id)

end

lemma Executes.congr (h : w.Executes engine db sql statement) (hagree : db.AgreeOn S db') :
    w.Executes engine db' sql statement :=
  ⟨h.handshaken, prepare_congr engine hagree _ sql ▸ h.prepared, h.authorized⟩

/-- A statement that is not the target's keeps a table's rows, unless the
transaction's DDL has changed or created the table. -/
lemma handlePrepared_changes (requestId : Nat) (hwrite : t ∉ statement.writeTables)
    (hown : ∀ txn, w.state.execution.transaction = some txn → ¬ txn.Holds t) :
    (w.handlePrepared engine present db requestId (.relational statement)).database.tables t =
        db.tables t ∧
      ∀ txn txn', w.state.execution.transaction = some txn →
        (w.handlePrepared engine present db requestId
          (.relational statement)).session.state.execution.transaction = some txn' →
        txn'.rows t = txn.rows t := by
  rw [handlePrepared_database, handlePrepared_execution]
  simp only [executeSqlPrepared]
  cases htxn : w.state.execution.transaction with
  | none =>
    simp only [executePrepared, htxn]
    exact ⟨Database.executePrepared_tables engine db _ hwrite, fun _ _ h => nomatch h⟩
  | some txn =>
    simp only [executePrepared, htxn]
    refine ⟨trivial, fun txn₀ txn' htxn₀ htxn' => ?_⟩
    cases htxn₀
    have hrows := Transaction.executePreparedIn_rows engine db txn
      w.state.execution.maxResultRows hwrite (hown txn htxn)
    -- the session keeps the transaction it ran the statement in, or none
    simp only [settle] at htxn'
    split at htxn'
    · cases htxn'
    · cases htxn'
      exact hrows

lemma Executes.withinGrants (h : w.Executes engine db sql statement) (hsound : w.Sound)
    (hconfined : w.Confined) (requestId : Nat) :
    w.WithinGrants engine present db requestId sql statement where
  reads := fun t ht => h.reads engine hsound hconfined ht
  writes := fun t ht => h.writes engine hsound hconfined ht
  observes := by
    intro db' hagree
    rw [h.handle_eq engine present, (h.congr engine hagree).handle_eq engine present]
    exact handlePrepared_alike engine present w requestId
      (executePrepared_alike engine hagree _
        (fun t ht => h.readable engine hsound hconfined ht)
        fun t ht => .inl (hconfined t ht).1)
  changes := by
    intro t ht
    rw [h.handle_eq engine present]
    refine handlePrepared_changes engine present requestId
      (fun hwrite => ht (h.writes engine hsound hconfined hwrite)) ?_
    rintro txn htxn ⟨c, hc, htouched | hcreated⟩
    · refine ht (.inl (hconfined t ?_).2)
      simpa [touched, htxn, Transaction.touched, hc] using htouched
    · exact ht (.inr ⟨txn, c, htxn, hc, hcreated⟩)

end Statement

section TwoRuns

variable {w : WorkerSession Row}

/-- Without an administrator there is no DDL to have changed a table. -/
lemma Sound.touched_eq_nil (hsound : w.Sound) (hadmin : w.authorization.schemaAdmin = false) :
    w.state.execution.touched = [] := by
  cases htxn : w.state.execution.transaction with
  | none => simp [touched, htxn]
  | some txn =>
    cases hc : txn.composition with
    | none => simp [touched, htxn, Transaction.touched, hc]
    | some c =>
      have := (hsound txn htxn c hc).1
      simp_all

/-- EXECUTE cannot tell apart databases that agree on the named tables: every declared
table is granted, and a granted table is named. -/
lemma handleExecute_alike (hsound : w.Sound) (hadmin : w.authorization.schemaAdmin = false)
    (hS : ∀ t, w.authorization.Named t → S t) (hagree : db.AgreeOn S db') (requestId : Nat)
    (sql : String) :
    Served.Alike S (w.handleExecute engine present db requestId sql)
      (w.handleExecute engine present db' requestId sql) := by
  unfold handleExecute
  rw [prepare_congr engine hagree]
  split
  · exact ⟨rfl, rfl, hagree⟩
  rename_i prepared hprepared
  split
  · exact ⟨rfl, rfl, hagree⟩
  rename_i hauthorized
  obtain ⟨hschema, hreads, hwrites⟩ := authorizeStatement_eq_ok.mp hauthorized
  refine handlePrepared_alike engine present w requestId ?_
  cases prepared with
  | ddl statement =>
    have := hschema (by cases statement <;> rfl)
    simp_all
  | relational statement =>
    refine executePrepared_alike engine hagree _ (fun t ht => ?_) ?_
    · rcases List.mem_append.mp ht with hread | hwrite
      · rcases hreads t hread with ⟨h, -⟩ | hgranted
        · simp_all
        · exact hS t hgranted.named
      · rcases hwrites t hwrite with ⟨h, -⟩ | hgranted
        · simp_all
        · exact hS t hgranted.named
    · rw [hsound.touched_eq_nil hadmin]
      exact nofun

lemma shakeHands_alike (hagree : db.AgreeOn S db') (requestId : Nat) (request : ClientMessage) :
    Served.Alike S (w.shakeHands present db requestId request)
      (w.shakeHands present db' requestId request) := by
  have htables : helloTables db = helloTables db' := by simp only [helloTables, hagree.schema]
  unfold shakeHands
  rw [htables]
  split
  · dsimp only
    split <;> exact ⟨rfl, rfl, hagree⟩
  · exact ⟨rfl, rfl, hagree⟩

lemma denial_congr (hagree : db.AgreeOn S db') (request : ClientMessage) :
    w.denial db request = w.denial db' request := by
  cases request <;> simp only [denial, denial.check, hagree.isKnown]

lemma analyze_alike (hagree : db.AgreeOn S db') {t : TableId}
    (hknown : db'.isKnown t = true → S t) :
    (db.analyze engine t).1 = (db'.analyze engine t).1 ∧
      (db.analyze engine t).2.AgreeOn S (db'.analyze engine t).2 := by
  simp only [Database.analyze, hagree.isKnown]
  split
  · rename_i hk
    have htable := hagree.tables t (hknown hk)
    rw [htable]
    split
    · exact ⟨rfl, hagree⟩
    refine ⟨rfl, hagree.schema, fun u hu => ?_⟩
    dsimp only
    split
    · rfl
    · exact hagree.tables u hu
  · exact ⟨rfl, hagree⟩

section

variable (hsound : w.Sound) (hadmin : w.authorization.schemaAdmin = false)
  (hS : ∀ t, w.authorization.Named t → S t) (hagree : db.AgreeOn S db')
include hsound hadmin hS hagree

/-- A plain request: an ANALYZE that gets past the check is of a granted table. -/
lemma perform_alike {request : ClientMessage}
    (hrequest : ∀ sql, request ≠ .execute sql) (hallowed : w.denial db' request = none) :
    Alike S (w.state.perform engine present db request)
      (w.state.perform engine present db' request) := by
  cases request with
  | hello | ping => exact ⟨rfl, rfl, hagree⟩
  | execute sql => exact absurd rfl (hrequest sql)
  | begin tableId =>
    simp only [SessionState.perform, hagree.isKnown]
    split
    · exact ⟨rfl, rfl, hagree⟩
    · split <;> exact ⟨rfl, rfl, hagree⟩
  | commit =>
    simp only [SessionState.perform]
    split
    · exact ⟨rfl, rfl, hagree⟩
    obtain ⟨hresult, hkept, hdatabase⟩ := commit_alike engine hagree hsound hadmin
    generalize w.state.execution.commit engine db = a at hresult hkept hdatabase ⊢
    generalize w.state.execution.commit engine db' = b at hresult hkept hdatabase ⊢
    obtain ⟨result, execution, db⟩ := a
    obtain ⟨_, _, db'⟩ := b
    cases hresult
    cases hkept
    cases result with
    | error error | ok _ => exact ⟨rfl, rfl, hdatabase⟩
  | rollback =>
    simp only [SessionState.perform]
    split
    · exact ⟨rfl, rfl, hagree⟩
    · split <;> exact ⟨rfl, rfl, hagree⟩
  | analyze tableId =>
    simp only [SessionState.perform]
    split
    · exact ⟨rfl, rfl, hagree⟩
    rename_i hnone
    have hstate : w.state.execution.transactionState = .none := by
      cases htxn : w.state.execution.transaction with
      | none => simp [transactionState, htxn]
      | some txn => simp [htxn] at hnone
    have hnamed (hknown : db'.isKnown tableId = true) : S tableId := by
      simp only [denial, denial.check, hstate, hknown] at hallowed
      cases hauthorize : w.authorization.authorize .analyze tableId with
      | ok _ => exact hS tableId (authorize_eq_ok.mp hauthorize).named
      | error denied => simp [hauthorize] at hallowed
    obtain ⟨hresult, hdatabase⟩ := analyze_alike engine hagree hnamed
    generalize db.analyze engine tableId = a at hresult hdatabase ⊢
    generalize db'.analyze engine tableId = b at hresult hdatabase ⊢
    obtain ⟨result, db⟩ := a
    obtain ⟨_, db'⟩ := b
    cases hresult
    cases result with
    | error error | ok _ => exact ⟨rfl, rfl, hdatabase⟩

/-- One request of a principal without the administrator's right, against two
databases that agree on every table its policy names. -/
lemma handle_alike (requestId : Nat) (request : ClientMessage) :
    Served.Alike S (w.handle engine present db requestId request)
      (w.handle engine present db' requestId request) := by
  unfold handle
  split
  · split
    · exact ⟨rfl, rfl, hagree⟩
    · split
      · exact ⟨rfl, rfl, hagree⟩
      · exact shakeHands_alike present hagree requestId request
  · split
    · exact handleExecute_alike engine present hsound hadmin hS hagree requestId _
    · rename_i hrequest
      rw [denial_congr hagree]
      split
      · exact ⟨rfl, rfl, hagree⟩
      rename_i hallowed
      split
      · exact ⟨rfl, rfl, hagree⟩
      · obtain ⟨hresult, hkept, hdatabase⟩ := perform_alike engine present hsound hadmin hS
          hagree (fun sql hsql => hrequest sql hsql) hallowed
        exact ⟨by simp only [hresult, hkept], by simp only [hkept], hdatabase⟩

end

end TwoRuns

def serve (w : WorkerSession Row) (db : Database Row Stats) :
    List (Nat × ClientMessage) → List (SessionResponse Row)
  | [] => []
  | (requestId, request) :: rest =>
    let served := w.handle engine present db requestId request
    served.response :: serve served.session served.database rest

lemma serve_eq (hadmin : p.schemaAdmin = false) (hS : ∀ t, p.Named t → S t)
    (requests : List (Nat × ClientMessage)) :
    ∀ {w : WorkerSession Row} {db db' : Database Row Stats}, w.authorization = p → w.Sound →
      db.AgreeOn S db' →
      w.serve engine present db requests = w.serve engine present db' requests := by
  induction requests with
  | nil => exact fun _ _ _ => rfl
  | cons head rest ih =>
    obtain ⟨requestId, request⟩ := head
    intro w db db' hauthorization hsound hagree
    subst hauthorization
    obtain ⟨hresponse, hsession, hdatabase⟩ :=
      handle_alike engine present hsound hadmin hS hagree requestId request
    obtain ⟨hkept, hsound'⟩ := handle_sound engine present db' hsound requestId request
    simp only [serve]
    rw [hresponse, hsession, ih hkept hsound' hdatabase]

/-- Every relational statement of every session stays within the grants of its
principal while the transaction's DDL has changed granted tables only; and to a
principal that is no administrator the rows of a table it has no grant on make
no difference. -/
theorem rows_within_grants (p : PrincipalAuthorization) (maxResultRows : Nat) :
    (∀ w, Reaches engine present p maxResultRows w → w.Confined →
      ∀ db requestId sql statement, w.Executes engine db sql statement →
        w.WithinGrants engine present db requestId sql statement) ∧
    (p.schemaAdmin = false → ∀ t, ¬ p.Named t → ∀ db db' : Database Row Stats,
      db.AgreeOn (· ≠ t) db' → ∀ requests,
        (new p maxResultRows).serve engine present db requests =
          (new p maxResultRows).serve engine present db' requests) := by
  constructor
  · intro w hreaches hconfined db requestId sql statement hexecutes
    obtain ⟨-, hsound⟩ := hreaches.sound engine present
    exact hexecutes.withinGrants engine present hsound hconfined requestId
  · intro hadmin t hnamed db db' hagree requests
    refine serve_eq engine present hadmin ?_ requests rfl nofun hagree
    rintro u hu rfl
    exact hnamed hu

end WorkerSession

namespace WorkerSession

/-- Rows are numbers; ALTER TABLE leaves them as they are. -/
def sample : Engine Unit Nat Unit where
  classify := fun _ => .ok false
  compile := fun _ sql =>
    if sql = "ALTER TABLE secrets ADD COLUMN note TEXT" then
      .ok (.ddl (.alterTable 1 ⟨1, "secrets", 11, []⟩))
    else if sql = "SELECT * FROM secrets" then
      .ok (.relational (.select ⟨some ⟨1, [(0, 1)]⟩, [], none, [], [.column (0, 1)], [], none⟩))
    else .error (.compile "unexpected statement")
  columnExpr := fun _ => ()
  operators := fun _ =>
    { oneRow := [0]
      scan := fun _ rows => .ok rows
      join := fun _ _ left _ => .ok left
      filter := fun _ rows => .ok rows
      sort := fun _ rows => .ok rows
      project := fun _ rows => .ok rows
      scalarProject := fun _ rows => .ok rows
      aggregate := fun _ _ rows => .ok rows
      limit := fun count rows => .ok (rows.take count) }
  insert := fun _ _ rows => .ok rows
  update := fun _ _ _ rows => .ok (rows, 0)
  delete := fun _ _ rows => .ok (rows, 0)
  analyze := fun _ => .ok ()
  singleHeap := fun _ => true
  acceptDdl := fun _ _ _ => .ok (.composed .composing 3)
  adoptedUpdate := fun _ _ _ => .ok none
  materialize := fun _ _ => .ok .backfillOpen
  tablePlanKind := fun _ _ => some .replace
  rewriteRows := fun _ _ rows => rows
  commitRows := fun _ => .ok ()
  commitSchema := fun _ _ => .ok ()
  rollbackFailure := fun _ => none
  writeContext := fun _ _ => .ok ()

def plain : Presentation Unit Nat where
  kind := fun _ => .other
  display := fun _ => "error"
  columns := fun _ => [⟨"value", "INT8", false⟩]
  rowMismatch := fun _ _ => none
  invalid := fun _ => none

/-- Table 1 holds a secret, table 2 is the administrator's. -/
def secrets : Database Nat Unit where
  schema := [⟨1, "secrets", 10, []⟩, ⟨2, "notes", 20, []⟩]
  tables := fun t => if t = 1 then ⟨[7], none⟩ else ⟨[], none⟩

def admin : PrincipalAuthorization := ⟨true, [⟨2, true, true, true, false⟩]⟩

def selectSecrets : LogicalStatement Unit := .query (.project (.scan 1 [(0, 1)]) [(0, 1)])

/-- A session after Hello, BEGIN on table 2 and ALTER TABLE on table 1. -/
def alteredBy (p : PrincipalAuthorization) : WorkerSession Nat :=
  let opened := (new p 10 |>.handle sample plain secrets 1 .hello).session
  let begun := (opened.handle sample plain secrets 2 (.begin 2)).session
  (begun.handle sample plain secrets 3
    (.execute "ALTER TABLE secrets ADD COLUMN note TEXT")).session

lemma alteredBy_reaches (p : PrincipalAuthorization) :
    Reaches sample plain p 10 (alteredBy p) :=
  (((Reaches.opened).request secrets 1 .hello).request secrets 2 (.begin 2)).request secrets 3 _

def altered : WorkerSession Nat := alteredBy admin

lemma altered_transaction : altered.state.execution.transaction =
    some ⟨.active, some ⟨.composing, ⟨[⟨1, "secrets", 11, []⟩, ⟨2, "notes", 20, []⟩], [1], [],
      0, 0⟩, []⟩, false, fun _ => none⟩ := by
  rfl

/-- After an ALTER TABLE the administrator reads the rows of a committed table
on which it has no grant. -/
theorem altered_table_is_readable :
    Reaches sample plain admin 10 altered ∧
      altered.Executes sample secrets "SELECT * FROM secrets" selectSecrets ∧
      1 ∈ selectSecrets.readTables ∧ ¬ admin.Granted .read 1 ∧ ¬ altered.Created 1 ∧
      (altered.handle sample plain secrets 4 (.execute "SELECT * FROM secrets")).response =
        ⟨4, [.queryStart [⟨"value", "INT8", false⟩], .queryRow 7, .queryEnd 1], false, false⟩ ∧
      ¬ altered.WithinGrants sample plain secrets 4 "SELECT * FROM secrets" selectSecrets := by
  have hgranted : ¬ admin.Granted .read 1 := by simp [Granted, admin]
  have hcreated : ¬ altered.Created 1 := by
    rintro ⟨txn, c, htxn, hc, h⟩
    rw [altered_transaction] at htxn
    cases htxn
    cases hc
    simp [SchemaTransactionPlan.isCreated] at h
  have hread : 1 ∈ selectSecrets.readTables := by decide
  refine ⟨alteredBy_reaches admin, ⟨rfl, rfl, rfl⟩, hread, hgranted, hcreated, rfl, fun h => ?_⟩
  exact (h.reads 1 hread).elim hgranted hcreated

/-- An administrator with grants on both tables. -/
def owner : PrincipalAuthorization :=
  ⟨true, [⟨1, true, true, false, false⟩, ⟨2, true, true, true, false⟩]⟩

/-- Inside a transaction that has altered the granted table 1, a SELECT of its rows
stays within the grants; and a principal with no grant on the table cannot tell
its rows apart, before a BEGIN or after. -/
theorem rows_within_grants_altered :
    (∃ txn, (alteredBy owner).state.execution.transaction = some txn ∧
      txn.composition.any (fun c => decide (1 ∈ c.plan.touched)) = true) ∧
      (alteredBy owner).WithinGrants sample plain secrets 4 "SELECT * FROM secrets"
        selectSecrets ∧
      (new ⟨false, [⟨2, true, true, true, false⟩]⟩ 10).serve sample plain secrets
          [(1, .hello), (2, .begin 2), (3, .execute "SELECT * FROM secrets")] =
        (new ⟨false, [⟨2, true, true, true, false⟩]⟩ 10).serve sample plain
          { secrets with tables := fun _ => ⟨[], none⟩ }
          [(1, .hello), (2, .begin 2), (3, .execute "SELECT * FROM secrets")] := by
  refine ⟨⟨_, rfl, rfl⟩, ?_, ?_⟩
  · refine (rows_within_grants sample plain owner 10).1 _ (alteredBy_reaches owner) ?_ secrets 4
      "SELECT * FROM secrets" selectSecrets ⟨rfl, rfl, rfl⟩
    have htouched : (alteredBy owner).state.execution.touched = [1] := rfl
    have howner : (alteredBy owner).authorization = owner := rfl
    intro t ht
    rw [htouched, List.mem_singleton] at ht
    rw [howner, ht]
    exact ⟨by simp [Granted, owner]; rfl, by simp [Granted, owner]; rfl⟩
  · refine (rows_within_grants sample plain _ 10).2 rfl 1 ?_ secrets _ ⟨rfl, fun t ht => ?_⟩ _
    · simp [Named]
    · simp [secrets, ht]

end WorkerSession

end Netbadb.Server
