import Netbadb.Library.Outcome
import Netbadb.Server.Relational

/-!
The grants of a principal and the check a statement passes before it runs.

The check sees the tables a statement declares, and for a schema administrator
which tables the transaction reports as its own.
-/

namespace Netbadb.Server

open Outcome

inductive AuthorizationAction where
  | read
  | write
  | transaction
  | analyze
deriving DecidableEq, Repr

def AuthorizationAction.display : AuthorizationAction → String
  | .read => "read"
  | .write => "write"
  | .transaction => "transaction"
  | .analyze => "analyze"

structure TablePermissions where
  tableId : TableId
  read : Bool
  write : Bool
  transaction : Bool
  analyze : Bool
deriving DecidableEq, Repr

def TablePermissions.allows (p : TablePermissions) : AuthorizationAction → Bool
  | .read => p.read
  | .write => p.write
  | .transaction => p.transaction
  | .analyze => p.analyze

structure PrincipalAuthorization where
  schemaAdmin : Bool
  tables : List TablePermissions
deriving DecidableEq, Repr

inductive AuthorizationDenied where
  | schemaAdmin
  | operation (action : AuthorizationAction) (tableId : TableId)
deriving DecidableEq, Repr

def AuthorizationDenied.display : AuthorizationDenied → String
  | .schemaAdmin => "authorization denied: schema_admin required"
  | .operation action tableId =>
    "authorization denied for `" ++ action.display ++ "` on table " ++ toString tableId

structure StatementAccess where
  readTables : List TableId
  writeTables : List TableId
  schemaTables : List TableId
  schemaWrite : Bool
deriving DecidableEq, Repr

namespace PrincipalAuthorization

variable (p : PrincipalAuthorization)

def authorize (action : AuthorizationAction) (tableId : TableId) :
    Except AuthorizationDenied Unit :=
  if p.tables.any fun permissions =>
      permissions.tableId == tableId && permissions.allows action then
    .ok ()
  else
    .error (.operation action tableId)

def canSee (tableId : TableId) : Bool :=
  p.tables.any fun permissions => permissions.tableId == tableId

/-- `owns` is `owns_staged_table` of the session's transaction. -/
def authorizeStatement (access : StatementAccess)
    (owns : TableId → Bool) : Except AuthorizationDenied Unit := do
  if access.schemaWrite && !p.schemaAdmin then
    throw .schemaAdmin
  access.readTables.forM fun table =>
    if p.schemaAdmin && owns table then pure () else p.authorize .read table
  access.writeTables.forM fun table =>
    if p.schemaAdmin && owns table then pure () else p.authorize .write table

def Granted (action : AuthorizationAction) (t : TableId) : Prop :=
  ∃ permissions ∈ p.tables, permissions.tableId = t ∧ permissions.allows action = true

def Named (t : TableId) : Prop :=
  ∃ permissions ∈ p.tables, permissions.tableId = t

variable {p : PrincipalAuthorization} {action : AuthorizationAction} {t : TableId}
  {owns : TableId → Bool}

lemma authorize_eq_ok : p.authorize action t = .ok () ↔ p.Granted action t := by
  simp [authorize, Granted]

lemma Granted.named (h : p.Granted action t) : p.Named t := by
  obtain ⟨permissions, hmem, htable, -⟩ := h
  exact ⟨permissions, hmem, htable⟩

lemma exempt_or_authorized :
    (if p.schemaAdmin && owns t then pure () else p.authorize action t) = .ok () ↔
      (p.schemaAdmin = true ∧ owns t = true) ∨ p.Granted action t := by
  by_cases h : (p.schemaAdmin && owns t) = true
  · simp_all [pure, Except.pure]
  · rw [if_neg h, authorize_eq_ok]
    simp_all

lemma authorizeStatement_eq_ok {access : StatementAccess} :
    p.authorizeStatement access owns = .ok () ↔
      (access.schemaWrite = true → p.schemaAdmin = true) ∧
      (∀ t ∈ access.readTables, (p.schemaAdmin = true ∧ owns t = true) ∨ p.Granted .read t) ∧
      ∀ t ∈ access.writeTables, (p.schemaAdmin = true ∧ owns t = true) ∨ p.Granted .write t := by
  simp only [authorizeStatement, check_eq_ok, bind_eq_ok, forM_eq_ok, exempt_or_authorized]
  constructor
  · rintro ⟨hadmin, -, hread, hwrite⟩
    exact ⟨by simpa using hadmin, hread, hwrite⟩
  · rintro ⟨hadmin, hread, hwrite⟩
    exact ⟨by simpa using hadmin, (), hread, hwrite⟩

end PrincipalAuthorization

end Netbadb.Server
