import Netbadb.Types

/-!
Aggregate states of the executor. A state folds the values of one input column
in the order in which the plan delivers the rows. SUM adds with the checked
addition of the column's own type, so it can fail on a running sum although
the whole sum is representable.
-/

namespace Netbadb.Executor

open List

inductive AggregateFunction where
  | count | sum | min | max
  deriving DecidableEq, Repr

inductive ExecutionError where
  | typeMismatch
  | aggregateOverflow (function : AggregateFunction) (output : String)
  deriving DecidableEq, Repr

/-- A SUM: the type of its column, the name of its output, and the sum so far. -/
structure SumState where
  physical : PhysicalType
  output : String
  value : Option ScalarValue

/-- Float addition followed by canonicalisation. -/
structure FloatAddition where
  add32 : Float32Value → Float32Value → Float32Value
  add64 : Float64Value → Float64Value → Float64Value

def integerRange : PhysicalType → Int × Int
  | .int8 => (-2 ^ 7, 2 ^ 7 - 1)
  | .int16 => (-2 ^ 15, 2 ^ 15 - 1)
  | .int32 => (-2 ^ 31, 2 ^ 31 - 1)
  | .int64 => (-2 ^ 63, 2 ^ 63 - 1)
  | .int128 => (-2 ^ 127, 2 ^ 127 - 1)
  | .uint8 => (0, 2 ^ 8 - 1)
  | .uint16 => (0, 2 ^ 16 - 1)
  | .uint32 => (0, 2 ^ 32 - 1)
  | .uint64 => (0, 2 ^ 64 - 1)
  | .uint128 => (0, 2 ^ 128 - 1)
  | _ => (1, 0)

abbrev InRange (t : PhysicalType) (n : Int) : Prop :=
  (integerRange t).1 ≤ n ∧ n ≤ (integerRange t).2

def checkedAdd (t : PhysicalType) (left right : Int) : Option Int :=
  if InRange t (left + right) then some (left + right) else none

def checkedScalarAdd (floats : FloatAddition) : ScalarValue → ScalarValue → Option ScalarValue
  | .int8 left, .int8 right => (checkedAdd .int8 left right).map .int8
  | .int16 left, .int16 right => (checkedAdd .int16 left right).map .int16
  | .int32 left, .int32 right => (checkedAdd .int32 left right).map .int32
  | .int64 left, .int64 right => (checkedAdd .int64 left right).map .int64
  | .int128 left, .int128 right => (checkedAdd .int128 left right).map .int128
  | .uint8 left, .uint8 right => (checkedAdd .uint8 left right).map (.uint8 ·.toNat)
  | .uint16 left, .uint16 right => (checkedAdd .uint16 left right).map (.uint16 ·.toNat)
  | .uint32 left, .uint32 right => (checkedAdd .uint32 left right).map (.uint32 ·.toNat)
  | .uint64 left, .uint64 right => (checkedAdd .uint64 left right).map (.uint64 ·.toNat)
  | .uint128 left, .uint128 right => (checkedAdd .uint128 left right).map (.uint128 ·.toNat)
  | .float32 left, .float32 right => some (.float32 (floats.add32 left right))
  | .float64 left, .float64 right => some (.float64 (floats.add64 left right))
  | _, _ => none

def isInteger : PhysicalType → Bool
  | .int8 | .int16 | .int32 | .int64 | .int128
  | .uint8 | .uint16 | .uint32 | .uint64 | .uint128 => true
  | _ => false

/-- `initial_aggregate_state` of a SUM. -/
def initialSum (physical : PhysicalType) (output : String) : Except ExecutionError SumState :=
  if isInteger physical || physical == .float32 || physical == .float64 then
    .ok ⟨physical, output, none⟩
  else .error .typeMismatch

/-- `update_aggregate_state` of a SUM. -/
def updateSum (floats : FloatAddition) (state : SumState) (value : ScalarValue) :
    Except ExecutionError SumState :=
  if value = .null then .ok state
  else if value.physicalType ≠ some state.physical then .error .typeMismatch
  else match state.value with
    | none => .ok { state with value := some value }
    | some current =>
      match checkedScalarAdd floats current value with
      | some next => .ok { state with value := some next }
      | none => .error (.aggregateOverflow .sum state.output)

/-- The sum of one column without group keys, its rows delivered in batches. -/
def sumBatches (floats : FloatAddition) (physical : PhysicalType) (output : String)
    (batches : List (List ScalarValue)) : Except ExecutionError ScalarValue := do
  let initial ← initialSum physical output
  let final ← batches.foldlM (fun state batch => batch.foldlM (updateSum floats) state) initial
  return final.value.getD .null

/-! What a sum is for: a function of the multiset of values alone. -/

/-- An integer as a value of an integer type. -/
def ofInteger : PhysicalType → Int → ScalarValue
  | .int8, n => .int8 n
  | .int16, n => .int16 n
  | .int32, n => .int32 n
  | .int64, n => .int64 n
  | .int128, n => .int128 n
  | .uint8, n => .uint8 n.toNat
  | .uint16, n => .uint16 n.toNat
  | .uint32, n => .uint32 n.toNat
  | .uint64, n => .uint64 n.toNat
  | .uint128, n => .uint128 n.toNat
  | _, _ => .null

/-- A field of an integer column, `none` for NULL. -/
def field (t : PhysicalType) (n : Option Int) : ScalarValue := n.elim .null (ofInteger t)

/-- NULL without values, else the mathematical sum if the type has it. -/
def exactSum (t : PhysicalType) (output : String) (column : Multiset (Option Int)) :
    Except ExecutionError ScalarValue :=
  let values := column.filterMap id
  if values = 0 then .ok .null
  else if InRange t values.sum then .ok (ofInteger t values.sum)
  else .error (.aggregateOverflow .sum output)

/-- The integer values of a column, in the order delivered. -/
abbrev valuesOf (column : List (Option Int)) : List Int := column.filterMap id

/-- The checked additions of an order stay in range if the whole sum does. -/
abbrev RunningSumsFit (t : PhysicalType) (ns : List Int) : Prop :=
  InRange t ns.sum → ∀ run ∈ ns.inits, InRange t run.sum

/-- If the type has the sum, it has the sum of the positive and that of the negative values. -/
def PartsFit (t : PhysicalType) (values : Multiset Int) : Prop :=
  InRange t values.sum →
    InRange t (values.filter (0 < ·)).sum ∧ InRange t (values.filter (· < 0)).sum

/-- The state of a SUM that has taken the values `done`. -/
def sumState (t : PhysicalType) (output : String) (done : List Int) : SumState :=
  ⟨t, output, if done = [] then none else some (ofInteger t done.sum)⟩

lemma exactSum_coe (t : PhysicalType) (output : String) (column : List (Option Int)) :
    exactSum t output column =
      if valuesOf column = [] then .ok .null
      else if InRange t (valuesOf column).sum then .ok (ofInteger t (valuesOf column).sum)
      else .error (.aggregateOverflow .sum output) := by
  simp only [exactSum, Multiset.filterMap_coe, Multiset.coe_eq_zero]
  congr

/-- Only the order of the rows counts, not how they are cut into batches. -/
lemma sumBatches_flatten (floats : FloatAddition) (physical : PhysicalType) (output : String)
    (batches : List (List ScalarValue)) :
    sumBatches floats physical output batches =
      sumBatches floats physical output [batches.flatten] := by
  simp only [sumBatches, foldlM_cons, foldlM_nil, bind_pure]
  congr 1
  funext initial
  congr 1
  induction batches generalizing initial with
  | nil => rfl
  | cons batch batches ih =>
    simp only [foldlM_cons, flatten_cons, foldlM_append, ih]

section

variable {t : PhysicalType} (ht : isInteger t = true) (floats : FloatAddition) (output : String)
include ht

lemma physicalType_ofInteger (n : Int) : (ofInteger t n).physicalType = some t := by
  cases t <;> simp_all [isInteger, ofInteger, ScalarValue.physicalType]

lemma initialSum_ok : initialSum t output = .ok (sumState t output []) := by
  simp [initialSum, ht, sumState]

lemma inRange_zero : InRange t 0 := by
  cases t <;> first | decide | simp [isInteger] at ht

/-- The checked addition of two values is the addition of the integers, where
the type has the sum. -/
lemma checkedScalarAdd_ofInteger {a b : Int} (ha : InRange t a) (hb : InRange t b) :
    checkedScalarAdd floats (ofInteger t a) (ofInteger t b) =
      if InRange t (a + b) then some (ofInteger t (a + b)) else none := by
  have htoNat {n : Int} (hn : InRange t n) (hsign : (integerRange t).1 = 0) : (n.toNat : Int) = n :=
    Int.toNat_of_nonneg (hsign ▸ hn.1)
  have hadd : checkedAdd t a b = if InRange t (a + b) then some (a + b) else none := rfl
  cases t <;> simp only [isInteger, Bool.false_eq_true] at ht <;>
    simp only [ofInteger, checkedScalarAdd]
  case int8 | int16 | int32 | int64 | int128 => rw [hadd, apply_ite (Option.map _)]; rfl
  all_goals rw [htoNat ha rfl, htoNat hb rfl, hadd, apply_ite (Option.map _)]; rfl

/-- One field into a SUM that has taken the values `done`. -/
lemma updateSum_field {done : List Int} (hdone : InRange t done.sum) {n : Option Int}
    (hn : ∀ i ∈ n, InRange t i) :
    updateSum floats (sumState t output done) (field t n) =
      if InRange t (done ++ n.toList).sum then .ok (sumState t output (done ++ n.toList))
      else .error (.aggregateOverflow .sum output) := by
  cases n with
  | none => simp [field, updateSum, hdone]
  | some n =>
    have htype := physicalType_ofInteger ht n
    have hnull : ofInteger t n ≠ .null := fun h => by simp [h, ScalarValue.physicalType] at htype
    have hn := hn n rfl
    simp only [field, Option.elim, sumState, updateSum, hnull, htype, if_false, ne_eq,
      not_true_eq_false, Option.toList, sum_append, sum_singleton, append_eq_nil_iff,
      cons_ne_nil, and_false]
    split_ifs with hempty hfit hfit
    · simp [hempty]
    · simp [hempty, hn] at hfit
    · simp only [checkedScalarAdd_ofInteger ht floats hdone hn, if_pos hfit]
    · simp only [checkedScalarAdd_ofInteger ht floats hdone hn, if_neg hfit]

/-- A whole column into a SUM: it succeeds with the sum in range, or one of the
running sums was not. -/
lemma foldlM_fields (column : List (Option Int)) (hcolumn : ∀ n ∈ valuesOf column, InRange t n)
    (done : List Int) (hdone : InRange t done.sum) :
    let run := (column.map (field t)).foldlM (updateSum floats) (sumState t output done)
    run = .ok (sumState t output (done ++ valuesOf column)) ∧
        InRange t (done ++ valuesOf column).sum ∨
      run = .error (.aggregateOverflow .sum output) ∧
        ∃ more, more <+: valuesOf column ∧ ¬ InRange t (done ++ more).sum := by
  induction column generalizing done with
  | nil =>
    rw [show valuesOf [] = [] from rfl, append_nil]
    exact .inl ⟨rfl, hdone⟩
  | cons n column ih =>
    have hvalues : valuesOf (n :: column) = n.toList ++ valuesOf column := by
      cases n <;> simp [valuesOf]
    rw [hvalues] at hcolumn ⊢
    have hn : ∀ i ∈ n, InRange t i := fun i hi => hcolumn i (by simp_all)
    simp only [map_cons, foldlM_cons, updateSum_field ht _ _ hdone hn]
    by_cases hfit : InRange t (done ++ n.toList).sum
    · rw [if_pos hfit, ← append_assoc]
      obtain hok | ⟨hrun, more, hmore, hout⟩ :=
        ih (fun i hi => hcolumn i (mem_append_right _ hi)) _ hfit
      · exact .inl hok
      · exact .inr ⟨hrun, n.toList ++ more, (prefix_append_right_inj _).mpr hmore,
          by rwa [← append_assoc]⟩
    · rw [if_neg hfit]
      exact .inr ⟨rfl, n.toList, prefix_append _ _, hfit⟩

lemma sumBatches_fields (batches : List (List (Option Int)))
    (hcolumn : ∀ n ∈ valuesOf batches.flatten, InRange t n) :
    let result := sumBatches floats t output (batches.map (·.map (field t)))
    result = exactSum t output batches.flatten ∨
      result = .error (.aggregateOverflow .sum output) ∧
        ∃ run, run <+: valuesOf batches.flatten ∧ ¬ InRange t run.sum := by
  rw [sumBatches_flatten, ← map_flatten]
  generalize batches.flatten = column at hcolumn ⊢
  simp only [sumBatches, initialSum_ok ht, exactSum_coe, foldlM_cons, foldlM_nil, bind_pure]
  obtain ⟨hok, hfit⟩ | ⟨herror, hout⟩ := foldlM_fields ht floats output
    column hcolumn [] (inRange_zero ht)
  · rw [nil_append] at hok hfit
    simp only [if_pos hfit, hok, bind, Except.bind]
    simp only [sumState]
    split_ifs <;> exact .inl rfl
  · exact .inr ⟨by simp only [herror, bind, Except.bind], hout⟩

/-- An overflow is exact when a sum in range has no running sum out of range. -/
lemma exactSum_of_run {column : List (Option Int)} (hrun : RunningSumsFit t (valuesOf column))
    {run : List Int} (hmem : run <+: valuesOf column) (hout : ¬ InRange t run.sum) :
    exactSum t output column = .error (.aggregateOverflow .sum output) := by
  have hsum : ¬ InRange t (valuesOf column).sum := fun h =>
    hout (hrun h run ((mem_inits _ _).mpr hmem))
  have hempty : valuesOf column ≠ [] := fun h => hsum (h ▸ inRange_zero ht)
  rw [exactSum_coe, if_neg hempty, if_neg hsum]

/-- A SUM that does not overflow has the values of its first batch in range. -/
lemma inRange_first {first rest : List (Option Int)}
    (hfirst : ∀ n ∈ valuesOf first, InRange t n)
    (hok : sumBatches floats t output ([first, rest].map (·.map (field t))) ≠
      .error (.aggregateOverflow .sum output)) : InRange t (valuesOf first).sum := by
  obtain ⟨-, hfit⟩ | ⟨herror, -⟩ := foldlM_fields ht floats output
    first hfirst [] (inRange_zero ht)
  · simpa using hfit
  · refine absurd ?_ hok
    simp only [sumBatches, initialSum_ok ht, map_cons, foldlM_cons, herror, bind, Except.bind]

end

lemma sum_parts (ns : List Int) : (ns.filter (· < 0)).sum ≤ 0 ∧ 0 ≤ (ns.filter (0 < ·)).sum ∧
    ns.sum = (ns.filter (0 < ·)).sum + (ns.filter (· < 0)).sum := by
  induction ns with
  | nil => simp
  | cons n ns ih =>
    simp only [filter_cons, decide_eq_true_eq]
    split_ifs <;> simp only [sum_cons] <;> omega

/-- A running sum lies between the sum of the negative and the sum of the positive values. -/
lemma runningSumsFit_of_parts {t : PhysicalType} {ns : List Int} (hparts : PartsFit t ns) :
    RunningSumsFit t ns := by
  intro hsum run hmem
  obtain ⟨rest, rfl⟩ := (mem_inits _ _).mp hmem
  obtain ⟨hpos, hneg⟩ := hparts (by simpa using hsum)
  simp only [Multiset.filter_coe, Multiset.sum_coe, filter_append, sum_append] at hpos hneg
  have hrun := sum_parts run
  have hrest := sum_parts rest
  exact ⟨by omega, by omega⟩

lemma valuesOf_filter (p : Int → Bool) (column : List (Option Int)) :
    valuesOf (column.filter (·.any p)) = (valuesOf column).filter p := by
  rw [valuesOf, valuesOf, filterMap_filter, filter_filterMap]
  congr 1
  funext n
  cases n <;> simp [Option.filter]

/-- SUM gives the exact outcome in every order and cut into batches exactly if the sum is
not in range, or the sums of the positive and of the negative values both are. -/
theorem sum_exact_iff {t : PhysicalType} (ht : isInteger t = true) (floats : FloatAddition)
    (output : String) (column : Multiset (Option Int))
    (hcolumn : ∀ n ∈ column.filterMap id, InRange t n) :
    (∀ batches : List (List (Option Int)), ↑batches.flatten = column →
      sumBatches floats t output (batches.map (·.map (field t))) = exactSum t output column) ↔
    PartsFit t (column.filterMap id) := by
  constructor
  · induction column using Quotient.inductionOn with | _ column
    intro hexact hsum
    -- The values of either sign may come first.
    have hpart (p : Int → Bool) : InRange t ((valuesOf column).filter p).sum := by
      rw [← valuesOf_filter]
      refine @inRange_first t ht floats output _ (column.filter fun n => !n.any p)
        (fun n hn => hcolumn n ?_) ?_
      · rw [valuesOf_filter] at hn
        exact (mem_filter.mp hn).1
      · rw [hexact _ (by simpa using filter_append_perm _ _)]
        rw [Multiset.quot_mk_to_coe, exactSum_coe]
        split_ifs with hempty hfit
        · simp
        · simp
        · exact absurd (by simpa [valuesOf] using hsum) hfit
    exact ⟨hpart _, hpart _⟩
  · rintro hparts batches rfl
    obtain hexact | ⟨herror, run, hmem, hout⟩ := sumBatches_fields ht floats output batches hcolumn
    · exact hexact
    · rw [herror, exactSum_of_run ht output (runningSumsFit_of_parts hparts) hmem hout]

/-- Without negative values every order is exact: a running sum lies between
zero and the whole sum. -/
lemma runningSumsFit_of_nonneg {t : PhysicalType} {ns : List Int} (ht : isInteger t = true)
    (hns : ∀ n ∈ ns, 0 ≤ n) : RunningSumsFit t ns := by
  intro hsum run hmem
  obtain ⟨rest, rfl⟩ := (mem_inits _ _).mp hmem
  have hrun : 0 ≤ run.sum := sum_nonneg fun n hn => hns n (mem_append_left _ hn)
  have hrest : 0 ≤ rest.sum := sum_nonneg fun n hn => hns n (mem_append_right _ hn)
  rw [sum_append] at hsum
  have hzero := (inRange_zero ht).1
  exact ⟨by omega, by omega⟩

/-- SUM is never wrong: in every order and cut into batches it is the exact outcome, or an
overflow, which over values that are not negative the exact sum has too. -/
theorem sum_exact_or_overflow {t : PhysicalType} (ht : isInteger t = true)
    (floats : FloatAddition) (output : String) (batches : List (List (Option Int)))
    (hcolumn : ∀ n ∈ valuesOf batches.flatten, InRange t n) :
    let result := sumBatches floats t output (batches.map (·.map (field t)))
    result = exactSum t output batches.flatten ∨
      result = .error (.aggregateOverflow .sum output) ∧
        ∃ n ∈ valuesOf batches.flatten, n < 0 := by
  obtain hexact | ⟨herror, run, hmem, hout⟩ := sumBatches_fields ht floats output batches hcolumn
  · exact .inl hexact
  · by_cases hns : ∀ n ∈ valuesOf batches.flatten, 0 ≤ n
    · have hexact := exactSum_of_run ht output (runningSumsFit_of_nonneg ht hns) hmem hout
      exact .inl (herror.trans hexact.symm)
    · push Not at hns
      exact .inr ⟨herror, hns⟩

theorem sum_exact_or_overflow_unsigned :
    sumBatches ⟨fun left _ => left, fun left _ => left⟩ .uint8 "total"
      [[.uint8 200], [.uint8 100, .null]] = exactSum .uint8 "total" {some 200, some 100, none} :=
  (sum_exact_or_overflow rfl _ "total" [[some 200], [some 100, none]] (by decide)).resolve_right
    (by decide)

theorem sum_exact_iff_batches :
    sumBatches ⟨fun left _ => left, fun left _ => left⟩ .int8 "total"
        [[.int8 100, .null], [.int8 (-1), .int8 27]] =
      exactSum .int8 "total" {some 100, none, some (-1), some 27} :=
  (sum_exact_iff rfl _ "total" {some 100, none, some (-1), some 27} (by decide)).mpr
    (by unfold PartsFit; decide) [[some 100, none], [some (-1), some 27]] rfl

/-- Three values whose sum is a value of their type, in an order that overflows. -/
theorem sum_overflows_early :
    sumBatches ⟨fun left _ => left, fun left _ => left⟩ .int8 "total"
        [[.int8 127, .int8 1, .int8 (-1)]] = .error (.aggregateOverflow .sum "total") ∧
      exactSum .int8 "total" {some 127, some 1, some (-1)} = .ok (.int8 127) :=
  ⟨rfl, by decide⟩

end Netbadb.Executor
