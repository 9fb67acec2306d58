import Netbadb.BTree.Lookup
import Netbadb.Executor.Aggregate

/-!
The executor's comparisons and the order of the index. Both come down to the
one scalar order. NULL is the first key of an index and unknown to a condition
of the executor. Canonical floats have one zero, and one NaN above the others.
-/

namespace Netbadb

open FloatValue

/-- `from_bits` of the two formats: signed zero is zero, every NaN is one. -/
def FloatValue.fromBits (width infinity nan bits : Nat) : FloatValue width :=
  let magnitude := bits % 2 ^ (width - 1)
  if magnitude = 0 then ⟨0⟩ else if magnitude > infinity then ⟨nan⟩ else ⟨bits⟩

def Float32Value.fromBits : Nat → Float32Value := FloatValue.fromBits 32 0x7f800000 0x7fc00000

def Float64Value.fromBits : Nat → Float64Value :=
  FloatValue.fromBits 64 0x7ff0000000000000 0x7ff8000000000000

namespace Executor

open BTree

inductive BinaryOp where
  | eq | notEq | lt | ltEq | gt | gtEq
  deriving DecidableEq, Repr

def compareScalarRefs (left right : ScalarValue) : Except ExecutionError Ordering :=
  (databaseCmp left right).elim (.error .typeMismatch) .ok

/-- The comparisons of `evaluate_binary_scalar_refs`. -/
def evaluateBinary (operator : BinaryOp) (left right : ScalarValue) :
    Except ExecutionError ScalarValue := do
  if left = .null ∨ right = .null then return .null
  let ordering ← compareScalarRefs left right
  return .bool (match operator with
    | .eq => ordering == .eq
    | .notEq => ordering != .eq
    | .lt => ordering == .lt
    | .ltEq => ordering != .gt
    | .gt => ordering == .gt
    | .gtEq => ordering != .lt)

/-- The sign and the magnitude of a float, which grow with its number. A NaN is
above every number. -/
def floatRank (width infinity bits : Nat) : WithTop Int :=
  let magnitude := bits % 2 ^ (width - 1)
  if magnitude > infinity then ⊤
  else if bits < 2 ^ (width - 1) then ((magnitude : Int) : WithTop Int)
  else ((-magnitude : Int) : WithTop Int)

/-- The order of the values of each type. -/
structure NativeOrder (cmp : ScalarValue → ScalarValue → Ordering) : Prop where
  null_first : ∀ value ≠ .null, cmp .null value = .lt
  integers : ∀ t m n, isInteger t = true → InRange t m → InRange t n →
    (cmp (ofInteger t m) (ofInteger t n) = .lt ↔ m < n)
  float32 : ∀ a < 2 ^ 32, ∀ b < 2 ^ 32,
    cmp (.float32 (Float32Value.fromBits a)) (.float32 (Float32Value.fromBits b)) = .lt ↔
      floatRank 32 0x7f800000 a < floatRank 32 0x7f800000 b
  float64 : ∀ a < 2 ^ 64, ∀ b < 2 ^ 64,
    cmp (.float64 (Float64Value.fromBits a)) (.float64 (Float64Value.fromBits b)) = .lt ↔
      floatRank 64 0x7ff0000000000000 a < floatRank 64 0x7ff0000000000000 b
  text : ∀ a b, cmp (.text a) (.text b) = compareBytes (utf8Bytes a) (utf8Bytes b)
  bytes : ∀ a b, cmp (.bytes a) (.bytes b) = compareBytes a b

/-- The total order of the bits of canonical floats is that of their ranks. -/
lemma totalKey_lt_iff {width infinity nan a b : Nat} (hnan : infinity < nan)
    (hwidth : nan < 2 ^ (width - 1)) (ha : a < 2 * 2 ^ (width - 1))
    (hb : b < 2 * 2 ^ (width - 1)) :
    (FloatValue.fromBits width infinity nan a).totalKey <
        (FloatValue.fromBits width infinity nan b).totalKey ↔
      floatRank width infinity a < floatRank width infinity b := by
  have hmod {n : Nat} (hn : n < 2 * 2 ^ (width - 1)) :
      n % 2 ^ (width - 1) = if n < 2 ^ (width - 1) then n else n - 2 ^ (width - 1) := by
    split_ifs with h
    · exact Nat.mod_eq_of_lt h
    · rw [Nat.mod_eq_sub_mod (by omega), Nat.mod_eq_of_lt (by omega)]
  simp only [FloatValue.fromBits, totalKey, floatRank, hmod ha, hmod hb,
    apply_ite bits]
  -- Zero, NaN or a number of either sign on both sides.
  split_ifs <;>
    simp only [WithTop.coe_lt_top, WithTop.coe_lt_coe, not_top_lt, iff_true, iff_false] <;> omega

lemma compareValues_native : NativeOrder compareValues where
  null_first value hvalue := by cases value <;> first | rfl | exact absurd rfl hvalue
  integers t m n ht hm hn := by
    have hm := hm.1
    have hn := hn.1
    cases t <;> simp only [isInteger, Bool.false_eq_true, integerRange] at ht hm hn <;>
      simp only [ofInteger, compareValues, databaseCmp, Option.getD_some, compare_lt_iff_lt] <;>
      omega
  float32 a ha b hb := compare_lt_iff_lt.trans (totalKey_lt_iff (by decide) (by decide) ha hb)
  float64 a ha b hb := compare_lt_iff_lt.trans (totalKey_lt_iff (by decide) (by decide) ha hb)
  text _ _ := rfl
  bytes _ _ := rfl

variable {spec : IndexSpec}

/-- The executor compares the keys that one index accepts as the index does. -/
lemma compareScalarRefs_eq {a b : ScalarValue} (ha : spec.validateKey a = .ok ())
    (hb : spec.validateKey b = .ok ()) :
    compareScalarRefs a b = .ok (compareValues a b) := by
  have htype : a = .null ∨ b = .null ∨ a.physicalType = b.physicalType := by
    unfold IndexSpec.validateKey at ha hb
    split_ifs at ha hb <;> simp_all
  rcases htype with rfl | rfl | htype
  · cases b <;> rfl
  · cases a <;> rfl
  · cases a <;> cases b <;> first | rfl | simp [ScalarValue.physicalType] at htype

/-- Each condition on a key holds of the entries that the bound it stands for
lets through. -/
def BoundsAgree (entry : IndexEntry) (value : ScalarValue) : Prop :=
  evaluateBinary .gtEq entry.key value =
      .ok (.bool (!IndexBound.beforeLower (.included value) entry)) ∧
    evaluateBinary .gt entry.key value =
      .ok (.bool (!IndexBound.beforeLower (.excluded value) entry)) ∧
    evaluateBinary .ltEq entry.key value =
      .ok (.bool (!IndexBound.pastUpper (.included value) entry)) ∧
    evaluateBinary .lt entry.key value =
      .ok (.bool (!IndexBound.pastUpper (.excluded value) entry))

lemma boundsAgree {entry : IndexEntry} {value : ScalarValue}
    (hentry : spec.validateKey entry.key = .ok ()) (hvalue : spec.validateKey value = .ok ())
    (hnull : entry.key ≠ .null) (hnull' : value ≠ .null) : BoundsAgree entry value := by
  have hswap : compareValues value entry.key = (compareValues entry.key value).swap := by
    rw [compareValues_eq_compare]
    exact Std.OrientedCmp.eq_swap
  simp only [BoundsAgree, evaluateBinary, hnull, hnull', or_self, if_false,
    compareScalarRefs_eq hentry hvalue, IndexBound.beforeLower, IndexBound.pastUpper,
    compareKeyToEntry, hswap]
  cases compareValues entry.key value <;> exact ⟨rfl, rfl, rfl, rfl⟩

/-- The index order is total and native. The executor compares the keys of an
index as the index does, and its conditions on a key that is not NULL hold of
the entries that a range lookup takes. -/
theorem index_key_order :
    (Std.TransCmp compareValues ∧ Std.LawfulEqCmp compareValues ∧ NativeOrder compareValues) ∧
      (Std.TransCmp compareEntryKeys ∧ Std.LawfulEqCmp compareEntryKeys ∧
        ∀ a b, compareEntryKeys a b = .lt ↔ compareValues a.key b.key = .lt ∨
          a.key = b.key ∧ compareRowIds a.rowId b.rowId = .lt) ∧
      ∀ (spec : IndexSpec) (entry : IndexEntry) (value : ScalarValue),
        spec.validateKey entry.key = .ok () → spec.validateKey value = .ok () →
        compareScalarRefs entry.key value = .ok (compareValues entry.key value) ∧
        (entry.key ≠ .null → value ≠ .null → BoundsAgree entry value) := by
  have hentries : compareEntryKeys = compare :=
    eq_compare compareEntryKeys_eq_lt compareEntryKeys_eq_eq
  refine ⟨⟨?_, ?_, compareValues_native⟩, ⟨?_, ?_, fun a b => ?_⟩, fun spec entry value hentry
    hvalue => ⟨compareScalarRefs_eq hentry hvalue, boundsAgree hentry hvalue⟩⟩
  · rw [compareValues_eq_compare]
    infer_instance
  · exact { compare_self := compareValues_eq_eq.mpr rfl, eq_of_compare := compareValues_eq_eq.mp }
  · rw [hentries]
    infer_instance
  · exact {
      compare_self := compareEntryKeys_eq_eq.mpr rfl
      eq_of_compare := compareEntryKeys_eq_eq.mp }
  · rw [compareEntryKeys, Ordering.then_eq_lt, compareValues_eq_eq]

end Executor

end Netbadb
