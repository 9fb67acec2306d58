import Netbadb.Server.Transaction

/-!
What a relational statement reads and what it changes.

Two databases that agree on the schema, on the tables a statement declares and
on the tables the transaction's DDL has changed are the same to it. It changes
the rows of its target, and of the tables it is the first to materialize.
-/

namespace Netbadb.Server

open List Transaction

variable {Expr Row Stats : Type}

/-- The same schema, and the same state of the tables in `S`. -/
structure Database.AgreeOn (S : TableId → Prop) (db db' : Database Row Stats) : Prop where
  schema : db.schema = db'.schema
  tables : ∀ t, S t → db.tables t = db'.tables t

def LogicalStatement.tables (statement : LogicalStatement Expr) : List TableId :=
  statement.readTables ++ statement.writeTables

section Reads

variable (engine : Engine Expr Row Stats) {S : TableId → Prop} {db db' : Database Row Stats}

lemma Database.AgreeOn.isKnown (h : db.AgreeOn S db') (t : TableId) :
    db.isKnown t = db'.isKnown t := by
  simp only [Database.isKnown, h.schema]

lemma Database.AgreeOn.visibleSchema (h : db.AgreeOn S db') (txn : Transaction Row) :
    txn.visibleSchema db = txn.visibleSchema db' := by
  simp only [Transaction.visibleSchema, h.schema]

namespace Transaction

section

variable (h : db.AgreeOn S db') (txn : Transaction Row) {tables : List TableId}
include h txn

lemma visibleRows_congr {t : TableId}
    (ht : S t) : txn.visibleRows db t = txn.visibleRows db' t := by
  simp only [visibleRows, h.tables t ht]

lemma readView_congr (hS : ∀ t ∈ tables, S t) :
    txn.readView db tables = txn.readView db' tables := by
  have hview : (fun t => if t ∈ tables then some (txn.visibleRows db t) else none) =
      fun t => if t ∈ tables then some (txn.visibleRows db' t) else none := by
    funext t
    split
    · next ht => rw [visibleRows_congr h txn (hS t ht)]
    · rfl
  simp only [readView, h.isKnown, hview]

lemma statistics_congr (hS : ∀ t ∈ tables, S t) :
    txn.statistics db tables = txn.statistics db' tables :=
  map_congr_left fun t ht => by rw [h.tables t (hS t ht)]

lemma executeQuery_congr (limit : Nat)
    {plan : LogicalPlan Expr} (hS : ∀ t ∈ collectScanTables plan [], S t) :
    txn.executeQuery engine db limit plan = txn.executeQuery engine db' limit plan := by
  simp only [executeQuery, readView_congr h txn hS, statistics_congr h txn hS]

end

variable {statement : LogicalStatement Expr}

section

variable (h : db.AgreeOn S db') (txn : Transaction Row)
include h

lemma mutate_congr (hS : ∀ t ∈ statement.writeTables, S t) :
    txn.mutate engine db statement = txn.mutate engine db' statement := by
  have target {t : TableId} (ht : S t) : ∀ u ∈ [t], S u := by simpa using ht
  cases statement with
  | query plan => rfl
  | insert tableId values =>
    have ht : S tableId := hS tableId mem_cons_self
    simp only [mutate, readView_congr h txn (target ht), visibleRows_congr h txn ht]
  | update input tableId assignments | delete input tableId =>
    have ht : S tableId := hS tableId mem_cons_self
    simp only [mutate, readView_congr h txn (target ht), visibleRows_congr h txn ht,
      statistics_congr h txn (target ht)]

lemma executeMutationIn_congr (hS : ∀ t ∈ statement.writeTables, S t) :
    txn.executeMutationIn engine db statement = txn.executeMutationIn engine db' statement := by
  simp only [executeMutationIn, mutate_congr engine h txn hS]

lemma joinTargets_congr {tables : List TableId} (hS : ∀ t ∈ tables, S t) :
    txn.joinTargets engine db tables = txn.joinTargets engine db' tables := by
  simp only [joinTargets, readView_congr h txn hS]

lemma executeStatement_congr (limit : Nat) (hS : ∀ t ∈ statement.tables, S t) :
    txn.executeStatement engine db limit statement =
      txn.executeStatement engine db' limit statement := by
  have hwrite : ∀ t ∈ statement.writeTables, S t := fun t ht => hS t (mem_append_right _ ht)
  have hmutation := executeMutationIn_congr engine h txn hwrite
  have hjoin := joinTargets_congr engine h txn hwrite
  cases statement with
  | query plan =>
    have hquery := executeQuery_congr engine h txn limit
      fun t ht => hS t (mem_append_left _ ht)
    simp only [executeStatement, hquery]
  | insert tableId values | update input tableId assignments | delete input tableId =>
    simp only [executeStatement, hjoin, hmutation]

def touched (txn : Transaction Row) : List TableId :=
  match txn.composition with
  | none => []
  | some c => c.plan.touched

lemma tryAdoptedUpdate_congr (statement : LogicalStatement Expr) (hS : ∀ t ∈ txn.touched, S t) :
    txn.tryAdoptedUpdate engine db statement = txn.tryAdoptedUpdate engine db' statement := by
  unfold tryAdoptedUpdate
  cases hc : txn.composition with
  | none => rfl
  | some c =>
    simp only
    cases htarget : c.plan.touched.head? with
    | none => rfl
    | some target =>
      have hmem : target ∈ txn.touched := by simpa [touched, hc] using mem_of_head? htarget
      simp only [visibleRows_congr h txn (hS target hmem)]

lemma materialize_congr
    (hS : ∀ t ∈ txn.touched, S t) : txn.materialize engine db = txn.materialize engine db' := by
  unfold materialize
  split
  · rename_i plan intent hc
    have hrows (t : TableId) (ht : t ∈ plan.touched) :
        txn.visibleRows db t = txn.visibleRows db' t :=
      visibleRows_congr h txn (hS t (by simpa [touched, hc] using ht))
    have hinput : plan.touched.map (txn.visibleRows db) =
        plan.touched.map (txn.visibleRows db') := map_congr_left hrows
    have hstaged : txn.stagedRows engine db plan = txn.stagedRows engine db' plan := by
      funext t
      unfold stagedRows
      split
      · rfl
      · split
        · next ht => rw [hrows t ht]
        · rfl
    simp only [hinput, hstaged]
  · rfl

/-- A statement is told nothing but its own tables and those DDL has changed. -/
lemma executePreparedIn_congr (limit : Nat)
    (hS : ∀ t ∈ statement.tables, S t) (htouched : ∀ t ∈ txn.touched, S t) :
    txn.executePreparedIn engine db limit statement =
      txn.executePreparedIn engine db' limit statement := by
  have hstatement (txn' : Transaction Row) := executeStatement_congr engine h txn' limit hS
  simp only [executePreparedIn, tryAdoptedUpdate_congr engine h txn statement htouched,
    materialize_congr engine h txn htouched, hstatement]

end

end Transaction

end Reads

section Changes

variable (engine : Engine Expr Row Stats) (db : Database Row Stats) {t : TableId}

namespace Transaction

@[simp] lemma rollback_rows (txn : Transaction Row) : (txn.rollback engine).2.rows = txn.rows := by
  unfold rollback
  split
  all_goals first | rfl | (split <;> rfl)

@[simp] lemma rollback_composition (txn : Transaction Row) :
    (txn.rollback engine).2.composition = txn.composition := by
  unfold rollback
  split
  all_goals first | rfl | (split <;> rfl)

variable {statement : LogicalStatement Expr}

lemma mutate_target {txn : Transaction Row} {target : TableId} {rows : List Row} {count : Nat}
    (h : txn.mutate engine db statement = .ok (target, rows, count)) :
    target ∈ statement.writeTables := by
  cases statement with
  | query plan => simp [mutate] at h
  | insert tableId values =>
    simp only [mutate, Outcome.bind_eq_ok, Outcome.pure_eq_ok, Prod.mk.injEq] at h
    obtain ⟨_, _, _, _, rfl, _⟩ := h
    exact mem_cons_self
  | update input tableId assignments | delete input tableId =>
    simp only [mutate, Outcome.bind_eq_ok, Outcome.pure_eq_ok, Prod.mk.injEq] at h
    obtain ⟨_, _, _, _, _, _, rfl, _⟩ := h
    exact mem_cons_self

section

variable (txn : Transaction Row)

lemma executeMutationIn_rows (ht : t ∉ statement.writeTables) :
    (txn.executeMutationIn engine db statement).2.rows t = txn.rows t := by
  unfold executeMutationIn
  split
  · rename_i target rows count hmutate
    have hne : t ≠ target := fun he => ht (he ▸ mutate_target engine db hmutate)
    simp [setRows, hne]
  · have hrows := rollback_rows engine txn
    split <;> simp_all

lemma executeStatement_rows (limit : Nat) (ht : t ∉ statement.writeTables) :
    (txn.executeStatement engine db limit statement).2.rows t = txn.rows t := by
  unfold executeStatement
  split
  · rfl
  split
  · rfl
  split
  · rfl
  split
  · rfl
  · exact executeMutationIn_rows engine db txn ht

/-- The tables of the transaction's own: changed or created by its DDL. -/
def Holds (txn : Transaction Row) (t : TableId) : Prop :=
  ∃ c, txn.composition = some c ∧ c.plan.Holds t

lemma materialize_rows (ht : ¬ txn.Holds t) :
    (txn.materialize engine db).2.rows t = txn.rows t := by
  unfold materialize
  split
  · rename_i plan intent hc
    have hplan : ¬ plan.Holds t := fun hholds => ht ⟨_, hc, hholds⟩
    have hpresent : plan.isPresent t = false := Bool.eq_false_iff.mpr fun hp =>
      hplan (.inr (SchemaTransactionPlan.isCreated_of_isPresent hp))
    have htouched : t ∉ plan.touched := fun hmem => hplan (.inl hmem)
    split
    · rfl
    · simp [stagedRows, hpresent, htouched]
  · rfl

/-- A statement in a transaction changes its target, besides the tables that
the transaction's DDL has changed or created. -/
lemma executePreparedIn_rows (limit : Nat) (ht : t ∉ statement.writeTables) (hown : ¬ txn.Holds t) :
    (txn.executePreparedIn engine db limit statement).2.rows t = txn.rows t := by
  have hmaterialize := materialize_rows engine db txn hown
  unfold executePreparedIn
  split
  · rfl
  split
  · rfl
  split
  · rfl
  · rfl
  split
  · rfl
  split
  · next heq => rw [heq] at hmaterialize; exact hmaterialize
  · rename_i heq
    rw [heq] at hmaterialize
    exact (executeStatement_rows engine db _ limit ht).trans hmaterialize

lemma executeMutationIn_composition (statement : LogicalStatement Expr) :
    (txn.executeMutationIn engine db statement).2.composition = txn.composition := by
  have hrollback := rollback_composition engine txn
  unfold executeMutationIn
  split
  · rfl
  · split <;> simp_all

end

end Transaction

variable {txn : Transaction Row} {S : TableId → Prop}

/-- Without DDL a commit depends on the transaction alone. -/
lemma Transaction.commit_of_composition_none (h : txn.composition = none) :
    txn.commit engine db = match engine.commitRows txn with
      | .error (error, state) => (.error error, { txn with state }, db)
      | .ok () => (.ok (), { txn with state := .committed }, txn.publish engine db) := by
  have hmaterialize : txn.materialize engine db = (.ok (), txn) := by simp only [materialize, h]
  cases hcommit : engine.commitRows txn with
  | error failure => simp only [commit, hmaterialize, h, hcommit]
  | ok done => simp only [commit, hmaterialize, h, hcommit]

lemma Transaction.publish_of_rows_none (h : txn.composition = none) (ht : txn.rows t = none) :
    (txn.publish engine db).tables t = db.tables t := by
  simp only [publish, h, ht]

lemma Database.AgreeOn.publish {db db' : Database Row Stats} (hagree : db.AgreeOn S db')
    (h : txn.composition = none) :
    (txn.publish engine db).AgreeOn S (txn.publish engine db') where
  schema := hagree.visibleSchema txn
  tables := fun t ht => by
    cases hrows : txn.rows t with
    | none =>
      rw [Transaction.publish_of_rows_none engine db h hrows,
        Transaction.publish_of_rows_none engine db' h hrows, hagree.tables t ht]
    | some rows => simp only [Transaction.publish, hrows, h, hagree.tables t ht]

/-- Results are equal, what is kept is equal, and the databases still agree. -/
structure Alike {α β : Type} (S : TableId → Prop) (x y : α × β × Database Row Stats) :
    Prop where
  result : x.1 = y.1
  kept : x.2.1 = y.2.1
  database : x.2.2.AgreeOn S y.2.2

namespace Database

variable {statement : LogicalStatement Expr}

lemma executeMutation_agree {db db' : Database Row Stats} (hagree : db.AgreeOn S db')
    (hS : ∀ t ∈ statement.writeTables, S t) :
    (db.executeMutation engine statement).1 = (db'.executeMutation engine statement).1 ∧
      (db.executeMutation engine statement).2.AgreeOn S
        (db'.executeMutation engine statement).2 := by
  have hbegin : db.begin = db'.begin := rfl
  have hplain := executeMutationIn_composition engine db' db'.begin statement
  unfold executeMutation
  rw [hbegin, executeMutationIn_congr engine hagree db'.begin hS]
  generalize db'.begin.executeMutationIn engine db' statement = executed at hplain ⊢
  obtain ⟨result | result, txn⟩ := executed
  · exact ⟨rfl, hagree⟩
  have hplain : txn.composition = none := hplain
  simp only [commit_of_composition_none engine _ hplain]
  cases engine.commitRows txn with
  | error failure => exact ⟨rfl, hagree⟩
  | ok _ => exact ⟨rfl, hagree.publish engine hplain⟩

lemma executePrepared_agree {db db' : Database Row Stats} (hagree : db.AgreeOn S db')
    (limit : Nat) (hS : ∀ t ∈ statement.tables, S t) :
    (db.executePrepared engine limit statement).1 =
        (db'.executePrepared engine limit statement).1 ∧
      (db.executePrepared engine limit statement).2.AgreeOn S
        (db'.executePrepared engine limit statement).2 := by
  have hmutation := executeMutation_agree engine hagree
    fun t ht => hS t (mem_append_right _ ht)
  cases statement with
  | query plan =>
    have hquery := executeQuery_congr engine hagree db'.begin limit
      fun t ht => hS t (mem_append_left _ ht)
    exact ⟨congrArg (ExecutionResult.query <$> ·) hquery, hagree⟩
  | insert tableId values | update input tableId assignments | delete input tableId =>
    exact hmutation

/-- Outside a transaction a statement changes its target alone. -/
lemma executePrepared_tables (limit : Nat) (ht : t ∉ statement.writeTables) :
    (db.executePrepared engine limit statement).2.tables t = db.tables t := by
  have hmutation : (db.executeMutation engine statement).2.tables t = db.tables t := by
    have hplain := executeMutationIn_composition engine db db.begin statement
    have hrows := executeMutationIn_rows engine db db.begin ht
    unfold executeMutation
    generalize db.begin.executeMutationIn engine db statement = executed at hplain hrows ⊢
    obtain ⟨result | result, txn⟩ := executed
    · rfl
    · simp only [commit_of_composition_none engine db hplain]
      cases engine.commitRows txn with
      | error failure => rfl
      | ok _ => exact publish_of_rows_none engine db hplain hrows
  cases statement with
  | query plan => rfl
  | insert tableId values | update input tableId assignments | delete input tableId =>
    exact hmutation

end Database

end Changes

end Netbadb.Server
