import Netbadb.Types
import Netbadb.Library.Bytes
import Netbadb.Library.Outcome

/-!
The canonical bytes of a table definition and the fingerprint taken of them.

Every field of the encoding says where it ends: the integers and flags have
fixed widths, a name is written behind its length, and the columns behind their
count. SHA-256 is a parameter, of which nothing is assumed.
-/

namespace Netbadb.Schema

open Bytes Outcome List

inductive TypeSpec where
  | physical (physical : PhysicalType)
  | semantic (name : String) (physical : PhysicalType)
deriving DecidableEq, Repr

@[ext]
structure ColumnDef where
  id : UInt32
  name : String
  typeSpec : TypeSpec
  nullable : Bool
  primaryKey : Bool
deriving DecidableEq, Repr

@[ext]
structure TableDef where
  id : UInt64
  name : String
  columns : List ColumnDef
deriving DecidableEq, Repr

inductive SchemaError where
  | emptyTableName
  | emptyColumnName (table : String)
  | invalidSemanticType (table column name : String)
  | tooManyColumns (table : String) (count : Nat)
  | canonicalStringTooLong (field : String) (length : Nat)
  | duplicateColumnId (table : String) (columnId : UInt32)
  | duplicateColumnName (table name : String)
deriving DecidableEq, Repr

abbrev SchemaFingerprint := { bytes : List UInt8 // bytes.length = 32 }

def canonicalStringLength (value field : String) : Except SchemaError Nat :=
  let length := (utf8Bytes value).length
  if length < 2 ^ 32 then .ok length else .error (.canonicalStringTooLong field length)

/-- What `push_string` appends. -/
def pushString (value field : String) : Except SchemaError (List UInt8) := do
  let length ← canonicalStringLength value field
  return leBytes 4 length ++ utf8Bytes value

def physicalTypeTag : PhysicalType → UInt8
  | .bool => 1
  | .int64 => 2
  | .uint64 => 3
  | .text => 4
  | .int8 => 5
  | .int16 => 6
  | .int32 => 7
  | .int128 => 8
  | .uint8 => 9
  | .uint16 => 10
  | .uint32 => 11
  | .uint128 => 12
  | .float32 => 13
  | .float64 => 14
  | .bytes => 15

/-- A column in the loop of `validate`, after the columns `earlier`. -/
def validateColumn (table : String) (earlier : List ColumnDef) (column : ColumnDef) :
    Except SchemaError Unit := do
  if column.name = "" then throw (.emptyColumnName table)
  let _ ← canonicalStringLength column.name "column name"
  match column.typeSpec with
  | .physical _ => pure ()
  | .semantic name _ =>
    if name = "" then throw (.invalidSemanticType table column.name name)
    let _ ← canonicalStringLength name "semantic type name"
  earlier.forM fun other => do
    if column.id = other.id then throw (.duplicateColumnId table column.id)
    if column.name = other.name then throw (.duplicateColumnName table column.name)

def validateColumns (table : String) : List ColumnDef → List ColumnDef → Except SchemaError Unit
  | _, [] => .ok ()
  | earlier, column :: columns => do
    validateColumn table earlier column
    validateColumns table (earlier ++ [column]) columns

/-- The type of a column: its tag, and a name if it has one. -/
def pushTypeSpec : TypeSpec → Except SchemaError (List UInt8)
  | .physical physical => .ok [physicalTypeTag physical, 0]
  | .semantic name physical => do
    let name ← pushString name "semantic type name"
    return physicalTypeTag physical :: 1 :: name

def pushColumn (column : ColumnDef) : Except SchemaError (List UInt8) := do
  let name ← pushString column.name "column name"
  let typeSpec ← pushTypeSpec column.typeSpec
  return leBytes 4 column.id.toNat ++
    (name ++ (typeSpec ++ [column.nullable.toUInt8, column.primaryKey.toUInt8]))

def pushColumns : List ColumnDef → Except SchemaError (List UInt8)
  | [] => .ok []
  | column :: columns => do
    let first ← pushColumn column
    let rest ← pushColumns columns
    return first ++ rest

namespace TableDef

def validate (t : TableDef) : Except SchemaError Unit := do
  if t.name = "" then throw .emptyTableName
  let _ ← canonicalStringLength t.name "table name"
  if t.columns.length ≥ 2 ^ 32 then throw (.tooManyColumns t.name t.columns.length)
  validateColumns t.name [] t.columns

/-- The magic `NBTS`, the version 1 and two zero bytes. -/
def canonicalHeader : List UInt8 := [78, 66, 84, 83, 1, 0, 0, 0]

def canonicalBytes (t : TableDef) : Except SchemaError (List UInt8) := do
  t.validate
  let name ← pushString t.name "table name"
  let columns ← pushColumns t.columns
  return canonicalHeader ++
    (leBytes 8 t.id.toNat ++ (name ++ (leBytes 4 t.columns.length ++ columns)))

def fingerprint (sha256 : List UInt8 → SchemaFingerprint) (t : TableDef) :
    Except SchemaError SchemaFingerprint := do
  return sha256 (← t.canonicalBytes)

end TableDef

lemma canonicalStringLength_eq_ok {value field : String} {n : Nat} :
    canonicalStringLength value field = .ok n ↔ n = (utf8Bytes value).length ∧ n < 2 ^ 32 := by
  simp only [canonicalStringLength]
  split <;> grind

lemma physicalTypeTag_injective : Function.Injective physicalTypeTag := by
  intro a b h
  cases a <;> cases b <;> first | rfl | exact absurd h (by decide)

/-- An encoding whose values and rests are read off the bytes in one way. -/
def Delimited {α : Type} (push : α → Except SchemaError (List UInt8)) : Prop :=
  ∀ {a b bytes bytes' rest rest'}, push a = .ok bytes → push b = .ok bytes' →
    bytes ++ rest = bytes' ++ rest' → a = b ∧ rest = rest'

lemma pushString_delimited (field : String) : Delimited (pushString · field) := by
  intro a b bytes bytes' rest rest' ha hb happend
  simp only [pushString, bind_eq_ok, pure_eq_ok, canonicalStringLength_eq_ok] at ha hb
  obtain ⟨n, ⟨hn, hlt⟩, rfl⟩ := ha
  obtain ⟨n', ⟨hn', hlt'⟩, rfl⟩ := hb
  simp only [append_assoc] at happend
  obtain ⟨hlength, hrest⟩ := leBytes_append_inj hlt hlt' happend
  obtain ⟨hname, hrest⟩ := append_inj hrest (hn.symm.trans (hlength.trans hn'))
  exact ⟨utf8Bytes_injective hname, hrest⟩

lemma pushTypeSpec_delimited : Delimited pushTypeSpec := by
  intro a b bytes bytes' rest rest' ha hb happend
  cases a <;> cases b <;>
    simp only [pushTypeSpec, bind_eq_ok, pure_eq_ok, Except.ok.injEq] at ha hb
  case physical.physical =>
    subst ha hb
    simp only [cons_append, nil_append, cons.injEq, true_and] at happend
    exact ⟨congrArg _ (physicalTypeTag_injective happend.1), happend.2⟩
  case physical.semantic =>
    obtain ⟨_, -, rfl⟩ := hb
    simp [← ha] at happend
  case semantic.physical =>
    obtain ⟨_, -, rfl⟩ := ha
    simp [← hb] at happend
  case semantic.semantic =>
    obtain ⟨_, ha, rfl⟩ := ha
    obtain ⟨_, hb, rfl⟩ := hb
    simp only [cons_append, cons.injEq, true_and] at happend
    obtain ⟨rfl, hrest⟩ := pushString_delimited _ ha hb happend.2
    exact ⟨congrArg _ (physicalTypeTag_injective happend.1), hrest⟩

lemma pushColumn_delimited : Delimited pushColumn := by
  intro a b bytes bytes' rest rest' ha hb happend
  simp only [pushColumn, bind_eq_ok, pure_eq_ok] at ha hb
  obtain ⟨_, hname, _, htype, rfl⟩ := ha
  obtain ⟨_, hname', _, htype', rfl⟩ := hb
  simp only [append_assoc] at happend
  obtain ⟨hid, happend⟩ := leBytes_append_inj a.id.toNat_lt b.id.toNat_lt happend
  obtain ⟨hname, happend⟩ := pushString_delimited _ hname hname' happend
  obtain ⟨htype, happend⟩ := pushTypeSpec_delimited htype htype' happend
  simp only [cons_append, nil_append, cons.injEq] at happend
  obtain ⟨hnullable, hprimary, hrest⟩ := happend
  have hflag {x y : Bool} : x.toUInt8 = y.toUInt8 → x = y := by revert x y; decide
  exact ⟨ColumnDef.ext (UInt32.toNat_inj.mp hid) hname htype (hflag hnullable) (hflag hprimary),
    hrest⟩

variable {bytes : List UInt8} {table : String} {earlier columns : List ColumnDef}

/-- The columns of two encodings with the same count, one by one. -/
lemma eq_of_pushColumns {columns' : List ColumnDef} (h : pushColumns columns = .ok bytes)
    (h' : pushColumns columns' = .ok bytes) (hlength : columns.length = columns'.length) :
    columns = columns' := by
  induction columns generalizing columns' bytes with
  | nil => exact (length_eq_zero_iff.mp hlength.symm).symm
  | cons column columns ih =>
    cases columns' with
    | nil => cases hlength
    | cons column' columns' =>
      simp only [pushColumns, bind_eq_ok, pure_eq_ok] at h h'
      obtain ⟨_, hcolumn, _, hcolumns, rfl⟩ := h
      obtain ⟨_, hcolumn', _, hcolumns', happend⟩ := h'
      obtain ⟨rfl, rfl⟩ := pushColumn_delimited hcolumn' hcolumn happend
      rw [ih hcolumns hcolumns' (Nat.succ.inj hlength)]

lemma exists_pushColumn {column : ColumnDef} (h : validateColumn table earlier column = .ok ()) :
    ∃ bytes, pushColumn column = .ok bytes := by
  simp only [validateColumn, check_eq_ok, bind_eq_ok, canonicalStringLength_eq_ok] at h
  cases hspec : column.typeSpec <;>
    simp_all [pushColumn, pushTypeSpec, pushString, bind_eq_ok, map_eq_ok,
      canonicalStringLength_eq_ok]

lemma exists_pushColumns (h : validateColumns table earlier columns = .ok ()) :
    ∃ bytes, pushColumns columns = .ok bytes := by
  induction columns generalizing earlier with
  | nil => exact ⟨_, rfl⟩
  | cons column columns ih =>
    obtain ⟨_, hcolumn, hcolumns⟩ := bind_eq_ok.mp h
    obtain ⟨first, hfirst⟩ := exists_pushColumn hcolumn
    obtain ⟨rest, hrest⟩ := ih hcolumns
    exact ⟨_, by rw [pushColumns, hfirst, ok_bind, hrest, ok_bind, pure_ok]⟩

namespace TableDef

variable {t t' : TableDef}

lemma exists_canonicalBytes (h : t.validate = .ok ()) : ∃ bytes, t.canonicalBytes = .ok bytes := by
  have hvalid := h
  simp only [validate, check_eq_ok, bind_eq_ok] at hvalid
  obtain ⟨-, n, hname, -, hcolumns⟩ := hvalid
  obtain ⟨columns, hcolumns⟩ := exists_pushColumns hcolumns
  simp [canonicalBytes, h, hcolumns, pushString, bind_eq_ok, hname]

lemma eq_of_canonicalBytes (h : t.canonicalBytes = .ok bytes) (h' : t'.canonicalBytes = .ok bytes) :
    t = t' := by
  simp only [canonicalBytes, validate, check_eq_ok, bind_eq_ok, pure_eq_ok, not_le] at h h'
  obtain ⟨_, ⟨-, _, -, hcount, -⟩, _, hname, _, hcolumns, rfl⟩ := h
  obtain ⟨_, ⟨-, _, -, hcount', -⟩, _, hname', _, hcolumns', happend⟩ := h'
  have happend := append_cancel_left happend
  obtain ⟨hid, happend⟩ := leBytes_append_inj t'.id.toNat_lt t.id.toNat_lt happend
  obtain ⟨hname, happend⟩ := pushString_delimited _ hname' hname happend
  obtain ⟨hlength, rfl⟩ := leBytes_append_inj hcount' hcount happend
  have hcolumns := eq_of_pushColumns hcolumns hcolumns' hlength.symm
  exact TableDef.ext (UInt64.toNat_inj.mp hid.symm) hname.symm hcolumns

/-- Valid tables have canonical bytes, equal exactly when the tables are, and
different ones with the same fingerprint are a collision of the hash. -/
theorem canonicalBytes_identity (sha256 : List UInt8 → SchemaFingerprint)
    (h : t.validate = .ok ()) (h' : t'.validate = .ok ()) :
    ∃ bytes bytes', t.canonicalBytes = .ok bytes ∧ t'.canonicalBytes = .ok bytes' ∧
      (bytes = bytes' ↔ t = t') ∧
      (t ≠ t' → t.fingerprint sha256 = t'.fingerprint sha256 →
        bytes ≠ bytes' ∧ sha256 bytes = sha256 bytes') := by
  obtain ⟨bytes, hbytes⟩ := exists_canonicalBytes h
  obtain ⟨bytes', hbytes'⟩ := exists_canonicalBytes h'
  have hiff : bytes = bytes' ↔ t = t' := by
    constructor
    · rintro rfl
      exact eq_of_canonicalBytes hbytes hbytes'
    · rintro rfl
      exact Except.ok.inj (hbytes.symm.trans hbytes')
  refine ⟨bytes, bytes', hbytes, hbytes', hiff, fun hne hsame => ⟨mt hiff.mp hne, ?_⟩⟩
  rw [fingerprint, fingerprint, hbytes, hbytes', ok_bind, ok_bind] at hsame
  exact Except.ok.inj hsame

/-- Two columns whose names join to the same text. -/
def joined (first second : String) : TableDef :=
  ⟨7, "t", [⟨1, first, .physical .int64, false, true⟩,
    ⟨2, second, .semantic "s" .text, true, false⟩]⟩

theorem canonicalBytes_identity_joined :
    ∃ bytes bytes', (joined "ab" "c").canonicalBytes = .ok bytes ∧
      (joined "a" "bc").canonicalBytes = .ok bytes' ∧ bytes ≠ bytes' := by
  have hvalid : (joined "ab" "c").validate = .ok () := by decide +kernel
  have hvalid' : (joined "a" "bc").validate = .ok () := by decide +kernel
  obtain ⟨bytes, bytes', h, h', hiff, -⟩ :=
    canonicalBytes_identity (fun _ => ⟨.replicate 32 0, rfl⟩) hvalid hvalid'
  exact ⟨bytes, bytes', h, h', fun heq => absurd (hiff.mp heq) (by decide)⟩

end TableDef

end Netbadb.Schema
