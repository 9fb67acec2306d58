import Netbadb.Types

/-!
The order of index entries: user key first, then the row locator as a
tie-break. The comparison functions are those of the source. The linear order
they define on entries is what every sortedness argument uses.
-/

namespace Netbadb

/-- A leaf entry, or the full routing key of a separator. A separator's row
locator is only an ordering token. -/
structure IndexEntryKey where
  key : ScalarValue
  rowId : RowId
  deriving DecidableEq, Repr

abbrev IndexEntry := IndexEntryKey

def valueRank : ScalarValue → Nat
  | .null => 0
  | .bool _ => 1
  | .int64 _ => 2
  | .uint64 _ => 3
  | .text _ => 4
  | .int8 _ => 5
  | .int16 _ => 6
  | .int32 _ => 7
  | .int128 _ => 8
  | .uint8 _ => 9
  | .uint16 _ => 10
  | .uint32 _ => 11
  | .uint128 _ => 12
  | .float32 _ => 13
  | .float64 _ => 14
  | .bytes _ => 15

/-- Compares index values with NULL first and native typed value ordering. -/
def compareValues (left right : ScalarValue) : Ordering :=
  (databaseCmp left right).getD (compare (valueRank left) (valueRank right))

/-- Compares row locators by page, slot, then generation. -/
def compareRowIds (left right : RowId) : Ordering :=
  (compare left.page right.page).then
    ((compare left.slot right.slot).then (compare left.generation right.generation))

/-- Compares complete entry identities by key and then explicit row order. -/
def compareEntryKeys (left right : IndexEntryKey) : Ordering :=
  (compareValues left.key right.key).then (compareRowIds left.rowId right.rowId)

/-- Compares only a user key with an entry's user key. -/
def compareKeyToEntry (key : ScalarValue) (entry : IndexEntryKey) : Ordering :=
  compareValues key entry.key

private def numericPart : ScalarValue → Int
  | .bool value => if value then 1 else 0
  | .int8 value | .int16 value | .int32 value | .int64 value | .int128 value => value
  | .uint8 value | .uint16 value | .uint32 value | .uint64 value | .uint128 value => value
  | .float32 value => value.totalKey
  | .float64 value => value.totalKey
  | .text _ | .bytes _ | .null => 0

private def bytePart : ScalarValue → List Nat
  | .text value => (utf8Bytes value).map UInt8.toNat
  | .bytes value => value.map UInt8.toNat
  | _ => []

/-- The position of a value in the index order: its type rank, then its
numeric or byte content. -/
private def sortKey (value : ScalarValue) : Nat ×ₗ Int ×ₗ List Nat :=
  toLex (valueRank value, toLex (numericPart value, bytePart value))

private lemma sortKey_injective : Function.Injective sortKey := by
  intro a b hkey
  simp only [sortKey, EmbeddingLike.apply_eq_iff_eq, Prod.mk.injEq] at hkey
  obtain ⟨hrank, hnum, hbytes⟩ := hkey
  cases a <;> cases b <;>
    simp_all [valueRank, numericPart, bytePart, FloatValue.totalKey_injective.eq_iff,
      Nat.cast_inj, map_toNat_injective.eq_iff, utf8Bytes_injective.eq_iff]
  rename_i x y
  cases x <;> cases y <;> simp_all

instance : LinearOrder ScalarValue := LinearOrder.lift' sortKey sortKey_injective

private lemma lt_iff_sortKey_lt {a b : ScalarValue} : a < b ↔ sortKey a < sortKey b := Iff.rfl

lemma compareValues_eq_lt {a b : ScalarValue} : compareValues a b = .lt ↔ a < b := by
  rw [lt_iff_sortKey_lt]
  cases a <;> cases b <;>
    simp [compareValues, databaseCmp, sortKey, Prod.Lex.toLex_lt_toLex, valueRank,
      numericPart, bytePart, compareBytes_eq_lt, compare_lt_iff_lt]
  rename_i x y
  cases x <;> cases y <;> simp

lemma compareValues_eq_eq {a b : ScalarValue} : compareValues a b = .eq ↔ a = b := by
  cases a <;> cases b <;>
    simp [compareValues, databaseCmp, valueRank, compareBytes_eq_eq,
      FloatValue.totalKey_injective.eq_iff, utf8Bytes_injective.eq_iff]

/-- A comparison with the `lt` and `eq` of a linear order is its `compare`. -/
lemma eq_compare {α : Type} [LinearOrder α] {cmp : α → α → Ordering}
    (hlt : ∀ {a b}, cmp a b = .lt ↔ a < b) (heq : ∀ {a b}, cmp a b = .eq ↔ a = b) :
    cmp = compare := by
  funext a b
  rcases lt_trichotomy a b with h | h | h
  · rw [hlt.mpr h, compare_lt_iff_lt.mpr h]
  · rw [heq.mpr h, compare_eq_iff_eq.mpr h]
  · rw [compare_gt_iff_gt.mpr h]
    cases hcmp : cmp a b with
    | lt => exact absurd (hlt.mp hcmp) h.not_gt
    | eq => exact absurd (heq.mp hcmp) h.ne'
    | gt => rfl

lemma compareValues_eq_compare : compareValues = compare :=
  eq_compare compareValues_eq_lt compareValues_eq_eq

lemma compareValues_eq_gt {a b : ScalarValue} : compareValues a b = .gt ↔ b < a := by
  rw [compareValues_eq_compare, compare_gt_iff_gt]

private def rowKey (r : RowId) : Nat ×ₗ Nat ×ₗ Nat :=
  toLex (r.page, toLex (r.slot, r.generation))

private lemma rowKey_injective : Function.Injective rowKey := by
  rintro ⟨p, s, g⟩ ⟨p', s', g'⟩ hkey
  simpa [rowKey] using hkey

instance : LinearOrder RowId := LinearOrder.lift' rowKey rowKey_injective

lemma compareRowIds_eq_lt {a b : RowId} : compareRowIds a b = .lt ↔ a < b := by
  change _ ↔ rowKey a < rowKey b
  simp [compareRowIds, rowKey, Prod.Lex.toLex_lt_toLex, Ordering.then_eq_lt, compare_lt_iff_lt]

lemma compareRowIds_eq_eq {a b : RowId} : compareRowIds a b = .eq ↔ a = b := by
  obtain ⟨p, s, g⟩ := a
  obtain ⟨p', s', g'⟩ := b
  simp [compareRowIds, Ordering.then_eq_eq]

private def entryKey (e : IndexEntryKey) : ScalarValue ×ₗ RowId := toLex (e.key, e.rowId)

private lemma entryKey_injective : Function.Injective entryKey := by
  rintro ⟨k, r⟩ ⟨k', r'⟩ hkey
  simpa [entryKey] using hkey

instance : LinearOrder IndexEntryKey := LinearOrder.lift' entryKey entryKey_injective

variable {a b : IndexEntryKey}

lemma IndexEntryKey.lt_iff : a < b ↔ a.key < b.key ∨ a.key = b.key ∧ a.rowId < b.rowId := by
  change entryKey a < entryKey b ↔ _
  simp [entryKey, Prod.Lex.toLex_lt_toLex]

lemma IndexEntryKey.key_le_of_lt (h : a < b) : a.key ≤ b.key := by
  rcases IndexEntryKey.lt_iff.mp h with h | ⟨h, -⟩
  all_goals exact h.le

lemma IndexEntryKey.key_mono (h : a ≤ b) : a.key ≤ b.key := by
  rcases h.eq_or_lt with rfl | h
  · exact le_rfl
  · exact key_le_of_lt h

lemma compareEntryKeys_eq_lt : compareEntryKeys a b = .lt ↔ a < b := by
  rw [compareEntryKeys, Ordering.then_eq_lt, compareValues_eq_lt, compareValues_eq_eq,
    compareRowIds_eq_lt, IndexEntryKey.lt_iff]

lemma compareEntryKeys_eq_eq : compareEntryKeys a b = .eq ↔ a = b := by
  obtain ⟨k, r⟩ := a
  obtain ⟨k', r'⟩ := b
  simp [compareEntryKeys, Ordering.then_eq_eq, compareValues_eq_eq, compareRowIds_eq_eq]

end Netbadb
