import Mathlib.Data.List.Lex
import Mathlib.Data.Prod.Lex
import Mathlib.Order.Compare
import Mathlib.Tactic

/-!
Identifiers and scalar values shared by every crate of the database. Page,
slot, generation and transaction identities are fixed-width integers in the
source. Nothing modelled here wraps around, so they are natural numbers.

The one scalar order of the database is `databaseCmp`: NULL sorts first and
values of different physical types are not comparable.
-/

namespace Netbadb

/-- One allocation of a page: the page number and the generation it got. -/
structure PageRef where
  pageId : Nat
  generation : Nat
  deriving DecidableEq, Repr

structure RowId where
  page : Nat
  slot : Nat
  generation : Nat
  deriving DecidableEq, Repr

inductive PhysicalType where
  | bool | int8 | int16 | int32 | int64 | int128
  | uint8 | uint16 | uint32 | uint64 | uint128
  | float32 | float64 | text | bytes
  deriving DecidableEq, Repr

/-- A physical representation plus an optional nominal application meaning. -/
structure SemanticType where
  physical : PhysicalType
  name : Option String
  deriving DecidableEq, Repr

/-- A database float, held as the bits of its canonical representation. -/
structure FloatValue (width : Nat) where
  bits : Nat
  deriving DecidableEq, Repr

/-- The integer that `total_cmp` compares: the bits of a positive float, and
the complement of the magnitude bits of a negative one. -/
def FloatValue.totalKey {width : Nat} (f : FloatValue width) : Int :=
  if f.bits < 2 ^ (width - 1) then f.bits else -1 - ((f.bits - 2 ^ (width - 1) : Nat) : Int)

abbrev Float32Value := FloatValue 32
abbrev Float64Value := FloatValue 64

inductive ScalarValue where
  | bool (value : Bool)
  | int8 (value : Int)
  | int16 (value : Int)
  | int32 (value : Int)
  | int64 (value : Int)
  | int128 (value : Int)
  | uint8 (value : Nat)
  | uint16 (value : Nat)
  | uint32 (value : Nat)
  | uint64 (value : Nat)
  | uint128 (value : Nat)
  | float32 (value : Float32Value)
  | float64 (value : Float64Value)
  | text (value : String)
  | bytes (value : List UInt8)
  | null
  deriving DecidableEq, Repr

namespace ScalarValue

def physicalType : ScalarValue → Option PhysicalType
  | .bool _ => some .bool
  | .int8 _ => some .int8
  | .int16 _ => some .int16
  | .int32 _ => some .int32
  | .int64 _ => some .int64
  | .int128 _ => some .int128
  | .uint8 _ => some .uint8
  | .uint16 _ => some .uint16
  | .uint32 _ => some .uint32
  | .uint64 _ => some .uint64
  | .uint128 _ => some .uint128
  | .float32 _ => some .float32
  | .float64 _ => some .float64
  | .text _ => some .text
  | .bytes _ => some .bytes
  | .null => none

end ScalarValue

/-- Lexicographic byte order, the order of `[u8]` and of UTF-8 `str`. -/
def compareBytes (left right : List UInt8) : Ordering :=
  compareOfLessAndEq (left.map UInt8.toNat) (right.map UInt8.toNat)

def utf8Bytes (s : String) : List UInt8 := s.toByteArray.data.toList

/-- The database's single scalar order. NULL sorts first; different physical
types are not comparable. -/
def databaseCmp : ScalarValue → ScalarValue → Option Ordering
  | .null, .null => some .eq
  | .null, _ => some .lt
  | _, .null => some .gt
  | .bool left, .bool right => some (compare left right)
  | .int8 left, .int8 right => some (compare left right)
  | .int16 left, .int16 right => some (compare left right)
  | .int32 left, .int32 right => some (compare left right)
  | .int64 left, .int64 right => some (compare left right)
  | .int128 left, .int128 right => some (compare left right)
  | .uint8 left, .uint8 right => some (compare left right)
  | .uint16 left, .uint16 right => some (compare left right)
  | .uint32 left, .uint32 right => some (compare left right)
  | .uint64 left, .uint64 right => some (compare left right)
  | .uint128 left, .uint128 right => some (compare left right)
  | .float32 left, .float32 right => some (compare left.totalKey right.totalKey)
  | .float64 left, .float64 right => some (compare left.totalKey right.totalKey)
  | .text left, .text right => some (compareBytes (utf8Bytes left) (utf8Bytes right))
  | .bytes left, .bytes right => some (compareBytes left right)
  | _, _ => none

lemma FloatValue.totalKey_injective {width : Nat} :
    Function.Injective (@FloatValue.totalKey width) := by
  rintro ⟨a⟩ ⟨b⟩ hkey
  have hbits : a = b := by
    simp only [FloatValue.totalKey] at hkey
    split_ifs at hkey <;> omega
  rw [hbits]

lemma utf8Bytes_injective : Function.Injective utf8Bytes := by
  intro s t hbytes
  have hdata : s.toByteArray.data = t.toByteArray.data := Array.toList_inj.mp hbytes
  exact String.toByteArray_inj.mp (ByteArray.ext hdata)

lemma map_toNat_injective : Function.Injective (List.map UInt8.toNat) :=
  List.map_injective_iff.mpr fun _ _ h => UInt8.toNat_inj.mp h

lemma compareBytes_eq_lt {left right : List UInt8} :
    compareBytes left right = .lt ↔ left.map UInt8.toNat < right.map UInt8.toNat :=
  compareOfLessAndEq_eq_lt

lemma compareBytes_eq_eq {left right : List UInt8} :
    compareBytes left right = .eq ↔ left = right := by
  rw [compareBytes, compareOfLessAndEq_eq_eq le_refl not_le]
  exact map_toNat_injective.eq_iff

end Netbadb
