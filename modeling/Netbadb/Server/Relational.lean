import Mathlib.Data.List.Basic
import Mathlib.Logic.Basic

/-!
Relational statements as the compiler lowers them, the tables they declare, and
what evaluating them reads.

Expressions, rows and the operators of the executor are parameters. What is
fixed is how data flows through a plan: rows enter at a scan, and only there.
-/

namespace Netbadb.Server

abbrev TableId := Nat

/-- A column as a statement names it: the binding of its relation, then the column. -/
abbrev ColumnRef := Nat × Nat

structure SortKey where
  column : ColumnRef
  ascending : Bool
  nullsFirst : Bool
deriving DecidableEq, Repr

inductive AggregateFunction where
  | count
  | sum
  | min
  | max
deriving DecidableEq, Repr

inductive AggregateOutput where
  | groupKey (column : ColumnRef)
  /-- The input of an aggregate; none is the whole row. -/
  | aggregate (function : AggregateFunction) (input : Option ColumnRef)
deriving DecidableEq, Repr

inductive LogicalPlan (Expr : Type) where
  | oneRow
  | scan (tableId : TableId) (columns : List ColumnRef)
  | join (left right : LogicalPlan Expr) (predicate : Expr) (columns : List ColumnRef)
  | filter (input : LogicalPlan Expr) (predicate : Expr)
  | sort (input : LogicalPlan Expr) (keys : List SortKey)
  | project (input : LogicalPlan Expr) (columns : List ColumnRef)
  | scalarProject (input : LogicalPlan Expr) (expressions : List Expr)
  | aggregate (input : LogicalPlan Expr) (groupKeys : List ColumnRef)
      (outputs : List AggregateOutput)
  | limit (input : LogicalPlan Expr) (limit : Nat)

structure Assignment (Expr : Type) where
  column : ColumnRef
  value : Expr

inductive LogicalStatement (Expr : Type) where
  | query (plan : LogicalPlan Expr)
  | insert (tableId : TableId) (values : List Expr)
  | update (input : LogicalPlan Expr) (tableId : TableId)
      (assignments : List (Assignment Expr))
  | delete (input : LogicalPlan Expr) (tableId : TableId)

section

variable {Expr : Type}

def collectScanTables : LogicalPlan Expr → List TableId → List TableId
  | .oneRow, tables => tables
  | .scan tableId _, tables => if tableId ∈ tables then tables else tables ++ [tableId]
  | .join left right _ _, tables => collectScanTables right (collectScanTables left tables)
  | .filter input _, tables => collectScanTables input tables
  | .sort input _, tables => collectScanTables input tables
  | .project input _, tables => collectScanTables input tables
  | .scalarProject input _, tables => collectScanTables input tables
  | .aggregate input _ _, tables => collectScanTables input tables
  | .limit input _, tables => collectScanTables input tables

/-- Query sources in first-occurrence order; a mutation reports its target
through `writeTables` alone. -/
def LogicalStatement.readTables : LogicalStatement Expr → List TableId
  | .query plan => collectScanTables plan []
  | .insert .. | .update .. | .delete .. => []

def LogicalStatement.writeTables : LogicalStatement Expr → List TableId
  | .query _ => []
  | .insert tableId _ => [tableId]
  | .update _ tableId _ => [tableId]
  | .delete _ tableId => [tableId]

structure TypedRelation where
  tableId : TableId
  columns : List ColumnRef

inductive TypedProjectionItem (Expr : Type) where
  | column (column : ColumnRef)
  | aggregate (function : AggregateFunction) (input : Option ColumnRef)
  | expression (expression : Expr)

structure TypedQuery (Expr : Type) where
  source : Option TypedRelation
  joins : List (TypedRelation × Expr)
  selection : Option Expr
  groupBy : List ColumnRef
  projection : List (TypedProjectionItem Expr)
  orderBy : List SortKey
  limit : Option Nat

inductive TypedStatement (Expr : Type) where
  | select (query : TypedQuery Expr)
  | insert (tableId : TableId) (values : List Expr)
  | update (relation : TypedRelation) (selection : Option Expr)
      (assignments : List (Assignment Expr))
  | delete (relation : TypedRelation) (selection : Option Expr)

def lowerScan (relation : TypedRelation) : LogicalPlan Expr :=
  .scan relation.tableId relation.columns

def scanAndFilter (relation : TypedRelation) (selection : Option Expr) : LogicalPlan Expr :=
  match selection with
  | none => lowerScan relation
  | some predicate => .filter (lowerScan relation) predicate

def lowerJoin (acc : LogicalPlan Expr × List ColumnRef) (join : TypedRelation × Expr) :
    LogicalPlan Expr × List ColumnRef :=
  let visible := acc.2 ++ join.1.columns
  (.join acc.1 (lowerScan join.1) join.2 visible, visible)

variable (columnExpr : ColumnRef → Expr)

def lowerProjection (query : TypedQuery Expr) (plan : LogicalPlan Expr) : LogicalPlan Expr :=
  let isGrouping := !query.groupBy.isEmpty || query.projection.any fun item =>
    match item with
    | .aggregate .. => true
    | _ => false
  if isGrouping then
    .aggregate plan query.groupBy <| query.projection.filterMap fun item =>
      match item with
      | .column column => some (.groupKey column)
      | .aggregate function input => some (.aggregate function input)
      | .expression _ => none
  else
    let sorted := if query.orderBy.isEmpty then plan else .sort plan query.orderBy
    let hasExpression := query.projection.any fun item =>
      match item with
      | .expression _ => true
      | _ => false
    if hasExpression then
      .scalarProject sorted <| query.projection.filterMap fun item =>
        match item with
        | .column column => some (columnExpr column)
        | .expression expression => some expression
        | .aggregate .. => none
    else
      .project sorted <| query.projection.filterMap fun item =>
        match item with
        | .column column => some column
        | _ => none

def lowerQueryPlan (query : TypedQuery Expr) : LogicalPlan Expr :=
  let start : LogicalPlan Expr × List ColumnRef :=
    match query.source with
    | none => (.oneRow, [])
    | some relation => (lowerScan relation, relation.columns)
  let joined := (query.joins.foldl lowerJoin start).1
  let filtered := match query.selection with
    | none => joined
    | some predicate => .filter joined predicate
  let projected := lowerProjection columnExpr query filtered
  match query.limit with
  | none => projected
  | some limit => .limit projected limit

def lowerStatement :
    TypedStatement Expr → LogicalStatement Expr
  | .select query => .query (lowerQueryPlan columnExpr query)
  | .insert tableId values => .insert tableId values
  | .update relation selection assignments =>
    .update (scanAndFilter relation selection) relation.tableId assignments
  | .delete relation selection => .delete (scanAndFilter relation selection) relation.tableId

/-- What the operators of one physical plan compute from their inputs. -/
structure Operators (Expr Row Error : Type) where
  oneRow : List Row
  scan : List ColumnRef → List Row → Except Error (List Row)
  join : Expr → List ColumnRef → List Row → List Row → Except Error (List Row)
  filter : Expr → List Row → Except Error (List Row)
  sort : List SortKey → List Row → Except Error (List Row)
  project : List ColumnRef → List Row → Except Error (List Row)
  scalarProject : List Expr → List Row → Except Error (List Row)
  aggregate : List ColumnRef → List AggregateOutput → List Row → Except Error (List Row)
  limit : Nat → List Row → Except Error (List Row)

variable {Row Error : Type}

/-- Runs a plan over a read view; a table outside the view has no storage in it. -/
def LogicalPlan.evaluate (ops : Operators Expr Row Error) (absent : TableId → Error)
    (view : TableId → Option (List Row)) : LogicalPlan Expr → Except Error (List Row)
  | .oneRow => pure ops.oneRow
  | .scan tableId columns =>
    match view tableId with
    | none => .error (absent tableId)
    | some rows => ops.scan columns rows
  | .join left right predicate columns => do
      let leftRows ← left.evaluate ops absent view
      let rightRows ← right.evaluate ops absent view
      ops.join predicate columns leftRows rightRows
  | .filter input predicate => do ops.filter predicate (← input.evaluate ops absent view)
  | .sort input keys => do ops.sort keys (← input.evaluate ops absent view)
  | .project input columns => do ops.project columns (← input.evaluate ops absent view)
  | .scalarProject input expressions => do
      ops.scalarProject expressions (← input.evaluate ops absent view)
  | .aggregate input groupKeys outputs => do
      ops.aggregate groupKeys outputs (← input.evaluate ops absent view)
  | .limit input count => do ops.limit count (← input.evaluate ops absent view)

end

end Netbadb.Server
