import Netbadb.Server.Footprint
import Netbadb.Server.Session

/-!
What a session's transaction owns, over whole runs of requests.

A composition is only ever started by an administrator, and the tables it
answers for are the committed ones its DDL has changed and the ones it has
created.
-/

namespace Netbadb.Server

open Transaction

variable {Expr Row Stats : Type}

namespace Transaction

/-- A composition is an administrator's, and its intent is within its plan. -/
def Sound (p : PrincipalAuthorization) (txn : Transaction Row) : Prop :=
  ∀ c, txn.composition = some c → p.schemaAdmin = true ∧ c.Coherent

variable {p : PrincipalAuthorization} {txn : Transaction Row}

lemma Sound.of_composition_eq {txn' : Transaction Row} (h : txn.Sound p)
    (heq : txn'.composition = txn.composition) : txn'.Sound p :=
  fun c hc => h c (heq ▸ hc)

lemma sound_begin (db : Database Row Stats) : db.begin.Sound p := nofun

section

variable (h : txn.Sound p)
include h

lemma Sound.setPhase (phase : CompositionPhase) : (txn.setPhase phase).Sound p := by
  intro c hc
  obtain ⟨c₀, hc₀, rfl⟩ := Option.map_eq_some_iff.mp hc
  exact h c₀ hc₀

variable (engine : Engine Expr Row Stats) (db : Database Row Stats)

lemma Sound.rollback : (txn.rollback engine).2.Sound p :=
  h.of_composition_eq (rollback_composition engine txn)

lemma Sound.materialize : (txn.materialize engine db).2.Sound p := by
  unfold Transaction.materialize
  split
  · rename_i plan intent hc
    split
    · exact h.setPhase .rollbackRequiredLogical
    · intro c hc'
      cases hc'
      exact ⟨(h _ hc).1, fun _ hmem => SchemaTransactionPlan.holds_of_mem_intent hmem⟩
  · exact h

lemma Sound.executeStatement (limit : Nat) (statement : LogicalStatement Expr) :
    (txn.executeStatement engine db limit statement).2.Sound p := by
  unfold Transaction.executeStatement
  split
  · exact h
  split
  · exact h
  split
  · exact h
  split
  · exact h
  · exact h.of_composition_eq (executeMutationIn_composition engine db txn _)

lemma Sound.executePreparedIn (limit : Nat) (statement : LogicalStatement Expr) :
    (txn.executePreparedIn engine db limit statement).2.Sound p := by
  have hmaterialize := h.materialize engine db
  unfold Transaction.executePreparedIn
  split
  · exact h
  split
  · exact h
  split
  · exact h
  · exact h.setPhase .adoptedSourceBackfilling
  split
  · exact h
  split
  · next heq => rw [heq] at hmaterialize; exact hmaterialize
  · rename_i heq
    rw [heq] at hmaterialize
    exact hmaterialize.executeStatement engine db limit statement

/-- DDL of an administrator keeps the composition sound: the tables of the old intent are
tables of the old plan. -/
lemma Sound.executeDdlIn (hadmin : p.schemaAdmin = true)
    (ddl : CompiledDdlStatement) : (txn.executeDdlIn engine db ddl).2.Sound p := by
  unfold Transaction.executeDdlIn
  split
  · exact h
  split
  · exact h
  split
  · exact h
  split
  · exact h.setPhase .rollbackRequiredLogical
  · exact h
  · exact h
  · exact h
  intro c hc
  cases hc
  refine ⟨hadmin, fun entry hentry => SchemaTransactionPlan.holds_apply ddl ?_⟩
  cases hcomposition : txn.composition with
  | none => simp [hcomposition] at hentry
  | some current =>
    simp only [hcomposition, Option.getD_some] at hentry ⊢
    exact (h current hcomposition).2 entry hentry

lemma Sound.commit : (txn.commit engine db).2.1.Sound p := by
  have hmaterialize := h.materialize engine db
  unfold Transaction.commit
  split
  · next heq => rw [heq] at hmaterialize; exact hmaterialize
  · rename_i heq
    rw [heq] at hmaterialize
    dsimp only
    split <;> exact hmaterialize

/-- An owned table is one that the transaction's DDL has changed or created. -/
lemma Sound.holds_of_owns {t : TableId} (howns : txn.ownsStagedTable t = true) : txn.Holds t := by
  simp only [ownsStagedTable, Bool.and_eq_true] at howns
  obtain ⟨-, howns⟩ := howns
  cases hc : txn.composition with
  | none => simp [hc] at howns
  | some c =>
    simp only [hc, Bool.or_eq_true, decide_eq_true_eq] at howns
    refine ⟨c, hc, ?_⟩
    rcases howns with (hstaged | htouched) | hpresent
    · exact c.holds_of_stagedBinding (h c hc).2 hstaged
    · exact .inl htouched
    · exact .inr (SchemaTransactionPlan.isCreated_of_isPresent hpresent)

end

end Transaction

namespace DatabaseSession

def Sound (p : PrincipalAuthorization) (s : DatabaseSession Row) : Prop :=
  ∀ txn, s.transaction = some txn → txn.Sound p

variable {p : PrincipalAuthorization} {s : DatabaseSession Row} {txn : Transaction Row}

lemma sound_none (s : DatabaseSession Row) :
    ({ s with transaction := none } : DatabaseSession Row).Sound p := nofun

lemma sound_some (s : DatabaseSession Row) (h : txn.Sound p) :
    ({ s with transaction := some txn } : DatabaseSession Row).Sound p := by
  intro txn' htxn
  cases htxn
  exact h

lemma sound_settle (h : txn.Sound p) : (s.settle txn).Sound p := by
  unfold settle
  split
  · exact sound_none s
  · exact sound_some s h

variable (engine : Engine Expr Row Stats) (db : Database Row Stats)

section

variable (h : s.Sound p)
include h

lemma Sound.executePrepared (statement : LogicalStatement Expr) :
    (s.executePrepared engine db statement).2.1.Sound p := by
  unfold DatabaseSession.executePrepared
  split
  · next txn htxn => exact sound_settle ((h txn htxn).executePreparedIn engine db _ statement)
  · exact h

lemma Sound.commit : (s.commit engine db).2.1.Sound p := by
  unfold DatabaseSession.commit
  split
  · exact h
  rename_i txn htxn
  have hcommit := (h txn htxn).commit engine db
  split
  · exact sound_none s
  · next heq => rw [heq] at hcommit; exact sound_some s hcommit

lemma Sound.rollback : (s.rollback engine).2.Sound p := by
  unfold DatabaseSession.rollback
  split
  · exact h
  rename_i txn htxn
  have hrollback := (h txn htxn).rollback engine
  split
  · exact sound_none s
  · next heq => rw [heq] at hrollback; exact sound_some s hrollback

lemma Sound.executeDdl (hadmin : p.schemaAdmin = true)
    (ddl : CompiledDdlStatement) : (s.executeDdl engine db ddl).2.1.Sound p := by
  unfold DatabaseSession.executeDdl
  split
  · next txn htxn => exact sound_some s ((h txn htxn).executeDdlIn engine db hadmin ddl)
  have himplicit := (sound_begin (p := p) db).executeDdlIn engine db hadmin ddl
  split
  · split
    · rename_i heq
      rw [heq] at himplicit
      exact (sound_some s himplicit).commit engine db
    · rename_i heq
      rw [heq] at himplicit
      have hrollback := (sound_some s himplicit).rollback engine
      split
      all_goals next heq => rw [heq] at hrollback; exact hrollback
  · exact h

lemma Sound.executeSqlPrepared {prepared : PreparedSqlStatement Expr}
    (hadmin : prepared.access.schemaWrite = true → p.schemaAdmin = true) :
    (s.executeSqlPrepared engine db prepared).2.1.Sound p := by
  cases prepared with
  | relational statement => exact h.executePrepared engine db statement
  | ddl statement => exact h.executeDdl engine db (hadmin (by cases statement <;> rfl)) statement

end

end DatabaseSession

/-- The transaction of a session is sound for the session's principal. -/
def WorkerSession.Sound (w : WorkerSession Row) : Prop :=
  w.state.execution.Sound w.authorization

section

variable (engine : Engine Expr Row Stats) (present : Presentation Expr Row)
  (db : Database Row Stats) {p : PrincipalAuthorization}

lemma SessionState.perform_sound {s : SessionState Row} (h : s.execution.Sound p)
    {request : ClientMessage} (hrequest : ∀ sql, request ≠ .execute sql) :
    (s.perform engine present db request).2.1.execution.Sound p := by
  cases request with
  | hello | ping => exact h
  | execute sql => exact absurd rfl (hrequest sql)
  | begin tableId =>
    simp only [perform]
    split
    · exact h
    · split
      · exact DatabaseSession.sound_some s.execution (sound_begin db)
      · exact h
  | commit =>
    have hcommit := h.commit engine db
    simp only [perform]
    split
    · exact h
    · split
      all_goals next heq => rw [heq] at hcommit; exact hcommit
  | rollback =>
    have hrollback := h.rollback engine
    simp only [perform]
    split
    · exact h
    · split
      all_goals next heq => rw [heq] at hrollback; exact hrollback
  | analyze tableId =>
    simp only [perform]
    split
    · exact h
    · split <;> exact h

namespace WorkerSession

variable {w : WorkerSession Row}

lemma shakeHands_session (requestId : Nat) (request : ClientMessage) :
    (w.shakeHands present db requestId request).session.authorization = w.authorization ∧
      (w.shakeHands present db requestId request).session.state.execution =
        w.state.execution := by
  unfold shakeHands
  split
  · dsimp only
    split <;> exact ⟨rfl, rfl⟩
  · exact ⟨rfl, rfl⟩

lemma handleExecute_authorization (requestId : Nat) (sql : String) :
    (w.handleExecute engine present db requestId sql).session.authorization =
      w.authorization := by
  unfold handleExecute
  split
  · rfl
  · split <;> rfl

lemma handleExecute_sound (h : w.Sound) (requestId : Nat) (sql : String) :
    (w.handleExecute engine present db requestId sql).session.Sound := by
  unfold handleExecute
  split
  · exact h
  rename_i prepared hprepared
  split
  · exact h
  · rename_i hauthorized
    obtain ⟨hadmin, -⟩ := PrincipalAuthorization.authorizeStatement_eq_ok.mp hauthorized
    exact DatabaseSession.Sound.executeSqlPrepared engine db h hadmin

/-- A request keeps the principal's grants and leaves a sound transaction. -/
lemma handle_sound (h : w.Sound) (requestId : Nat) (request : ClientMessage) :
    (w.handle engine present db requestId request).session.authorization = w.authorization ∧
      (w.handle engine present db requestId request).session.Sound := by
  unfold handle
  split
  · split
    · exact ⟨rfl, h⟩
    · split
      · exact ⟨rfl, h⟩
      · obtain ⟨hauthorization, hexecution⟩ :=
          shakeHands_session (w := w) present db requestId request
        refine ⟨hauthorization, ?_⟩
        unfold Sound
        rw [hauthorization, hexecution]
        exact h
  · split
    · exact ⟨handleExecute_authorization engine present db requestId _,
        handleExecute_sound engine present db h requestId _⟩
    · rename_i hrequest
      split
      · exact ⟨rfl, h⟩
      · split
        · exact ⟨rfl, h⟩
        · exact ⟨rfl, SessionState.perform_sound engine present db h
            fun sql hsql => hrequest sql hsql⟩

/-- The sessions of a principal after any requests. Other sessions commit in
between, so that each request may find any database. -/
inductive Reaches (p : PrincipalAuthorization) (maxResultRows : Nat) : WorkerSession Row → Prop where
  | opened : Reaches p maxResultRows (.new p maxResultRows)
  | request {w : WorkerSession Row} (h : Reaches p maxResultRows w) (db : Database Row Stats)
      (requestId : Nat) (request : ClientMessage) :
      Reaches p maxResultRows (w.handle engine present db requestId request).session

lemma Reaches.sound {maxResultRows : Nat} (h : Reaches engine present p maxResultRows w) :
    w.authorization = p ∧ w.Sound := by
  induction h with
  | opened => exact ⟨rfl, nofun⟩
  | request h db requestId request ih =>
    obtain ⟨hauthorization, hsound⟩ := ih
    obtain ⟨hkept, hsound'⟩ := handle_sound engine present db hsound requestId request
    exact ⟨hkept.trans hauthorization, hsound'⟩

end WorkerSession

end

end Netbadb.Server
