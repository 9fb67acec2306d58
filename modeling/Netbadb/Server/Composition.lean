import Netbadb.Server.Authorization

/-!
The schema composition of a transaction: the DDL it has accepted, the tables
it counts as its own, and the rows of the ones it has rewritten.

`touched` holds the committed tables that DDL of the transaction has changed,
`created` the tables it created. `ownsStagedTable` answers for both.
-/

namespace Netbadb.Server

open List

/-- What a statement may know about a table without reading its rows. -/
structure TableDef where
  id : TableId
  name : String
  fingerprint : Nat
  indexes : List String
deriving DecidableEq, Repr

/-- Compiled DDL; a definition is the one the statement leaves its table with. -/
inductive CompiledDdlStatement where
  | createTable (definition : TableDef)
  | dropTable (target : TableId)
  | alterTable (target : TableId) (definition : TableDef)
  | alterTypeUsing (target : TableId) (definition : TableDef)
  /-- DROP INDEX IF EXISTS may name no index. -/
  | dropIndex (target : Option TableId) (definition : TableDef)
  | createIndex (target : TableId) (definition : TableDef)
deriving DecidableEq, Repr

namespace CompiledDdlStatement

def access : CompiledDdlStatement → StatementAccess
  | .createTable _ => ⟨[], [], [], true⟩
  | .dropTable target => ⟨[], [], [target], true⟩
  | .alterTable target _ => ⟨[], [], [target], true⟩
  | .alterTypeUsing target _ => ⟨[target], [target], [target], true⟩
  | .dropIndex target _ => ⟨[], target.toList, target.toList, true⟩
  | .createIndex target _ => ⟨[], [target], [target], true⟩

def isTableCreate : CompiledDdlStatement → Bool
  | .createTable _ => true
  | _ => false

def isTableAlter : CompiledDdlStatement → Bool
  | .alterTable .. | .alterTypeUsing .. => true
  | _ => false

def isIndexCreate : CompiledDdlStatement → Bool
  | .createIndex .. => true
  | _ => false

/-- The statements that may refine a transaction whose backfill is open. -/
def refinesBackfill : CompiledDdlStatement → Bool
  | .alterTable .. | .createIndex .. | .dropIndex .. => true
  | _ => false

end CompiledDdlStatement

def LogicalStatement.access {Expr : Type} (statement : LogicalStatement Expr) : StatementAccess :=
  ⟨statement.readTables, statement.writeTables, [], false⟩

structure SchemaTransactionPlan where
  overlay : List TableDef
  touched : List TableId
  /-- Tables created here, with whether they are still present. -/
  created : List (TableId × Bool)
  tableActions : Nat
  indexActions : Nat
deriving DecidableEq, Repr

namespace SchemaTransactionPlan

def start (schema : List TableDef) : SchemaTransactionPlan :=
  { overlay := schema, touched := [], created := [], tableActions := 0, indexActions := 0 }

variable (plan : SchemaTransactionPlan) (t : TableId)

def isCreated : Bool :=
  plan.created.any fun entry => entry.1 == t

def isPresent : Bool :=
  plan.created.any fun entry => entry.1 == t && entry.2

/-- The first change to a committed table captures it; a created table is
changed in place. -/
def touch : SchemaTransactionPlan :=
  if plan.isCreated t || t ∈ plan.touched then plan
  else { plan with touched := plan.touched ++ [t] }

def define (definition : TableDef) : SchemaTransactionPlan :=
  { plan with
    overlay := plan.overlay.map fun table =>
      if table.id == t then { definition with id := t } else table }

def createTable (definition : TableDef) : SchemaTransactionPlan :=
  { plan with
    overlay := plan.overlay ++ [{ definition with id := t }]
    created := plan.created ++ [(t, true)]
    tableActions := plan.tableActions + 1 }

def dropTable : SchemaTransactionPlan :=
  let marked := if plan.isCreated t then
      { plan with created := plan.created.map fun entry =>
          if entry.1 == t then (entry.1, false) else entry }
    else plan.touch t
  { marked with
    overlay := marked.overlay.filter fun table => table.id != t
    tableActions := marked.tableActions + 1 }

def changeIndex (definition : TableDef) : SchemaTransactionPlan :=
  let plan := (plan.touch t).define t definition
  { plan with indexActions := plan.indexActions + 1 }

/-- An accepted statement; `fresh` is the identity a CREATE TABLE reserved. -/
def apply (plan : SchemaTransactionPlan) (fresh : TableId) :
    CompiledDdlStatement → SchemaTransactionPlan
  | .createTable definition => plan.createTable fresh definition
  | .dropTable target => plan.dropTable target
  | .alterTable target definition => (plan.touch target).define target definition
  | .alterTypeUsing target definition => (plan.touch target).define target definition
  | .dropIndex none _ => plan
  | .dropIndex (some target) definition => plan.changeIndex target definition
  | .createIndex target definition => plan.changeIndex target definition

/-- `singleHeap` tells the tables placed in one heap. -/
def isBackfillCandidate (plan : SchemaTransactionPlan) (singleHeap : TableId → Bool) : Bool :=
  plan.tableActions == 0 && plan.indexActions == 0 && plan.created.isEmpty &&
    plan.touched.length == 1 && plan.touched.all singleHeap

end SchemaTransactionPlan

inductive CompositionPhase where
  | composing
  | typeConversionReady
  | adoptedSourceRefining
  | adoptedSourceBackfilling
  | adoptedSourceFinalRefining
  | adoptedSourceIndexFinalizing
  | sealingAndMaterializing
  | materialized
  | backfillMaterializing
  | backfillOpen
  | indexEvacuating
  | refiningAfterEvacuation
  | refining
  | indexFinalizing
  | finalizing
  | finalized
  | backfillOpenIndex
  | refiningIndex
  | finalizedIndex
  | sealingAndMaterializingIndex
  | materializedIndex
  | sourceBackfillOpen
  | sourceRefining
  | sourceIndexFinalizing
  | lateCloneMaterializing
  | lateCloneReady
  | sealedNoEffectiveChange
  | rollbackRequiredLogical
  | rollbackRequiredMaterialized
  | rollbackRequiredMaterializedIndex
deriving DecidableEq, Repr

namespace CompositionPhase

def isBackfill : CompositionPhase → Bool
  | .backfillMaterializing | .backfillOpen | .indexEvacuating | .refiningAfterEvacuation
  | .refining | .indexFinalizing | .finalizing | .finalized => true
  | _ => false

def isBackfillIndex : CompositionPhase → Bool
  | .backfillOpenIndex | .refiningIndex | .finalizedIndex => true
  | _ => false

def isMaterialized (phase : CompositionPhase) : Bool :=
  phase.isBackfill || match phase with
    | .sealingAndMaterializing | .materialized | .rollbackRequiredMaterialized => true
    | _ => false

def isSourceBackfill : CompositionPhase → Bool
  | .sourceBackfillOpen | .sourceRefining | .sourceIndexFinalizing
  | .lateCloneMaterializing | .lateCloneReady => true
  | _ => false

def isMaterializedIndex (phase : CompositionPhase) : Bool :=
  phase.isSourceBackfill || phase.isBackfillIndex || match phase with
    | .sealingAndMaterializingIndex | .materializedIndex
    | .rollbackRequiredMaterializedIndex => true
    | _ => false

/-- Phases in which a deferred UPDATE may still be recorded. -/
def isAdoptedOpen : CompositionPhase → Bool
  | .adoptedSourceRefining | .adoptedSourceBackfilling => true
  | _ => false

def refusesRows : CompositionPhase → Bool
  | .refining | .indexEvacuating | .refiningAfterEvacuation | .indexFinalizing
  | .refiningIndex | .sourceRefining | .sourceIndexFinalizing | .lateCloneMaterializing
  | .lateCloneReady | .adoptedSourceRefining | .adoptedSourceBackfilling
  | .adoptedSourceFinalRefining | .adoptedSourceIndexFinalizing => true
  | _ => false

end CompositionPhase

inductive TablePlanKind where
  | replace
  | createHeap
  | rewriteHeap
  | inPlaceIndexDelta
deriving DecidableEq, Repr

structure TablePlan where
  table : TableId
  kind : TablePlanKind
deriving DecidableEq, Repr

structure SchemaComposition where
  phase : CompositionPhase
  plan : SchemaTransactionPlan
  /-- The table plans of the materialized intent. -/
  intent : List TablePlan
deriving DecidableEq, Repr

/-- The intent a plan materializes to: `kind` is none for a table without an
effective change. -/
def SchemaTransactionPlan.intent (plan : SchemaTransactionPlan)
    (kind : TableId → Option TablePlanKind) : List TablePlan :=
  (plan.touched ++ (plan.created.filter (·.2)).map (·.1)).filterMap fun t =>
    (kind t).map fun k => ⟨t, k⟩

def SchemaComposition.stagedBinding (c : SchemaComposition) (t : TableId) : Bool :=
  (c.phase.isMaterialized && c.intent.any fun plan => plan.table == t) ||
  (c.phase.isMaterializedIndex && c.intent.any fun plan =>
    plan.table == t && (plan.kind == .createHeap || plan.kind == .rewriteHeap))

/-- The tables of a composition: all that its DDL has changed or created. -/
def SchemaTransactionPlan.Holds (plan : SchemaTransactionPlan) (t : TableId) : Prop :=
  t ∈ plan.touched ∨ plan.isCreated t = true

/-- The intent names tables of the plan only. -/
def SchemaComposition.Coherent (c : SchemaComposition) : Prop :=
  ∀ plan ∈ c.intent, c.plan.Holds plan.table

namespace SchemaTransactionPlan

variable {plan : SchemaTransactionPlan} {t : TableId}

lemma isCreated_of_isPresent (h : plan.isPresent t = true) : plan.isCreated t = true := by
  obtain ⟨entry, hmem, hentry⟩ := any_eq_true.mp h
  rw [Bool.and_eq_true] at hentry
  exact any_eq_true.mpr ⟨entry, hmem, hentry.1⟩

lemma holds_of_mem_intent {kind : TableId → Option TablePlanKind} {entry : TablePlan}
    (h : entry ∈ plan.intent kind) : plan.Holds entry.table := by
  simp only [intent, mem_filterMap, mem_append, mem_map, mem_filter, Option.map_eq_some_iff] at h
  obtain ⟨t, hmem, k, -, rfl⟩ := h
  rcases hmem with htouched | ⟨⟨u, present⟩, ⟨hcreated, -⟩, rfl⟩
  · exact .inl htouched
  · exact .inr (any_eq_true.mpr ⟨_, hcreated, beq_self_eq_true _⟩)

@[simp] lemma touch_isCreated (plan : SchemaTransactionPlan) (t u : TableId) :
    (plan.touch t).isCreated u = plan.isCreated u := by
  unfold touch
  split <;> rfl

lemma mem_touch {u : TableId} (h : u ∈ plan.touched) : u ∈ (plan.touch t).touched := by
  unfold touch
  split
  · exact h
  · exact mem_append_left _ h

/-- DDL forgets none of the tables it has changed or created. -/
lemma holds_apply {fresh : TableId} (ddl : CompiledDdlStatement) (h : plan.Holds t) :
    (plan.apply fresh ddl).Holds t := by
  have touched (u : TableId) : (plan.touch u).Holds t :=
    h.imp mem_touch fun hcreated => by rwa [touch_isCreated]
  cases ddl with
  | createTable definition =>
    refine h.imp id fun hcreated => ?_
    simp only [apply, createTable, isCreated, any_append, Bool.or_eq_true]
    exact .inl hcreated
  | dropTable target =>
    simp only [apply, dropTable]
    split
    · refine h.imp id fun hcreated => ?_
      simp only [isCreated, any_map] at hcreated ⊢
      obtain ⟨entry, hmem, hentry⟩ := any_eq_true.mp hcreated
      refine any_eq_true.mpr ⟨entry, hmem, ?_⟩
      simp only [Function.comp_apply]
      split <;> exact hentry
    · exact touched target
  | alterTable target definition | alterTypeUsing target definition => exact touched target
  | dropIndex target definition =>
    cases target with
    | none => exact h
    | some target => exact touched target
  | createIndex target definition => exact touched target

end SchemaTransactionPlan

lemma SchemaComposition.holds_of_stagedBinding {c : SchemaComposition} {t : TableId}
    (hc : c.Coherent) (h : c.stagedBinding t = true) : c.plan.Holds t := by
  simp only [stagedBinding, Bool.or_eq_true, Bool.and_eq_true, any_eq_true, beq_iff_eq] at h
  rcases h with ⟨-, entry, hmem, rfl⟩ | ⟨-, entry, hmem, rfl, -⟩
  all_goals exact hc entry hmem

end Netbadb.Server
