import Netbadb.Mvcc.Heap

/-!
The unresolved transactions as layers over the committed rows. One layer adds
versions and marks live versions as deleted, so a view that takes no part of
its transaction scans the same rows with the layer and without it.
-/

namespace Netbadb.Mvcc

open List HeapData

variable {Row Column Key : Type} {p : RowId × Version Row} {store : StatusStore}
  {snapshot : Snapshot}

lemma scanRows_cons_hidden {rows : List (RowId × Version Row)}
    (h : isVisible store p.2.header snapshot = .ok false) :
    scanRows store snapshot (p :: rows) = scanRows store snapshot rows := by
  simp only [scanRows, h]
  cases scanRows store snapshot rows <;> rfl

def TupleHeader.Mentions (header : TupleHeader) (x : TxnId) : Prop :=
  header.xmin = x ∨ header.xmax = some x

/-- The second list is the first with versions inserted by the transaction and with live
versions deleted by it. -/
inductive Layer (x : TxnId) : List (RowId × Version Row) → List (RowId × Version Row) → Prop
  | nil : Layer x [] []
  | keep {base rows} (p : RowId × Version Row) (rest : Layer x base rows) :
      Layer x (p :: base) (p :: rows)
  | inserted {base rows} (p : RowId × Version Row) (hxmin : p.2.header.xmin = x)
      (hxmax : ∀ y, p.2.header.xmax = some y → y = x) (rest : Layer x base rows) :
      Layer x base (p :: rows)
  | deleted {base rows} (p : RowId × Version Row) (hlive : p.2.header.xmax = none)
      (cmax : CommandId) (next : Option RowId) (rest : Layer x base rows) :
      Layer x (p :: base) ((p.1, { p.2 with header := p.2.header.expire x cmax next }) :: rows)

namespace Layer

variable {x : TxnId} {base rows : List (RowId × Version Row)}

lemma refl (x : TxnId) : (rows : List (RowId × Version Row)) → Layer x rows rows
  | [] => .nil
  | p :: rows => .keep p (refl x rows)

section

variable (h : Layer x base rows)
include h

lemma place (position : Nat) (p : RowId × Version Row)
    (hxmin : p.2.header.xmin = x) (hxmax : ∀ y, p.2.header.xmax = some y → y = x) :
    Layer x base (rows.take position ++ p :: rows.drop position) := by
  induction h generalizing position with
  | nil => simpa using inserted p hxmin hxmax .nil
  | keep q rest ih =>
    cases position with
    | zero => exact .inserted p hxmin hxmax (.keep q rest)
    | succ position => exact .keep q (ih position)
  | inserted q hq hq' rest ih =>
    cases position with
    | zero => exact .inserted p hxmin hxmax (.inserted q hq hq' rest)
    | succ position => exact .inserted q hq hq' (ih position)
  | deleted q hq cmax next rest ih =>
    cases position with
    | zero => exact .inserted p hxmin hxmax (.deleted q hq cmax next rest)
    | succ position => exact .deleted q hq cmax next (ih position)

lemma expire (rowId : RowId) (cmax : CommandId) (next : Option RowId)
    (hlive : ∀ p ∈ rows, p.1 = rowId → p.2.header.xmax = none) :
    Layer x base (rows.map fun p =>
      if p.1 = rowId then (p.1, { p.2 with header := p.2.header.expire x cmax next }) else p) := by
  induction h with
  | nil => exact .nil
  | keep q rest ih =>
    have ih := ih fun p hp => hlive p (mem_cons_of_mem _ hp)
    by_cases hq : q.1 = rowId
    · simpa only [map_cons, hq, if_true] using
        deleted q (hlive q mem_cons_self hq) cmax next ih
    · simpa only [map_cons, hq, if_false] using keep q ih
  | inserted q hxmin hxmax rest ih =>
    have ih := ih fun p hp => hlive p (mem_cons_of_mem _ hp)
    by_cases hq : q.1 = rowId
    · simp only [map_cons, hq, if_true]
      exact .inserted _ hxmin (fun y hy => (Option.some.inj hy).symm) ih
    · simpa only [map_cons, hq, if_false] using inserted q hxmin hxmax ih
  | deleted q hq cmax' next' rest ih =>
    have ih := ih fun p hp => hlive p (mem_cons_of_mem _ hp)
    by_cases hid : q.1 = rowId
    · -- the version carries the layer's mark already
      have hnone := hlive _ mem_cons_self hid
      cases hnone
    · simpa only [map_cons, hid, if_false] using deleted q hq cmax' next' ih

/-- The layer keeps the row ids of what is below it. -/
lemma ids_sublist : (base.map (·.1)).Sublist (rows.map (·.1)) := by
  induction h with
  | nil => exact .slnil
  | keep q rest ih | deleted q hq cmax next rest ih => exact ih.cons_cons q.1
  | inserted q hq hq' rest ih => exact ih.cons q.1

/-- Only the layer's own transaction is new in it. -/
lemma mentions {y : TxnId} (hp : p ∈ rows) (hy : p.2.header.Mentions y) :
    y = x ∨ ∃ q ∈ base, q.2.header.Mentions y := by
  induction h with
  | nil => cases hp
  | keep q rest ih =>
    rcases mem_cons.mp hp with rfl | hp
    · exact .inr ⟨p, mem_cons_self, hy⟩
    · exact (ih hp).imp_right fun ⟨q', hq', hm⟩ => ⟨q', mem_cons_of_mem _ hq', hm⟩
  | inserted q hq hq' rest ih =>
    rcases mem_cons.mp hp with rfl | hp
    · rcases hy with hy | hy
      · exact .inl (hy.symm.trans hq)
      · exact .inl (hq' y hy)
    · exact ih hp
  | deleted q hq cmax next rest ih =>
    rcases mem_cons.mp hp with rfl | hp
    · rcases hy with hy | hy
      · exact .inr ⟨q, mem_cons_self, .inl hy⟩
      · exact .inl (Option.some.inj hy).symm
    · exact (ih hp).imp_right fun ⟨q', hq', hm⟩ => ⟨q', mem_cons_of_mem _ hq', hm⟩

/-- A version that was deleted before the layer is in it unchanged. -/
lemma mem_of_deleted (hp : p ∈ base) (hdeleted : p.2.header.xmax ≠ none) : p ∈ rows := by
  induction h with
  | nil => cases hp
  | keep q rest ih =>
    rcases mem_cons.mp hp with rfl | hp
    · exact mem_cons_self
    · exact mem_cons_of_mem _ (ih hp)
  | inserted q hxmin hxmax rest ih => exact mem_cons_of_mem _ (ih hp)
  | deleted q hlive cmax next rest ih =>
    rcases mem_cons.mp hp with rfl | hp
    · exact absurd hlive hdeleted
    · exact mem_cons_of_mem _ (ih hp)

/-- A view that takes no part of the transaction scans the same rows without the layer. -/
lemma scanRows_eq (hx : Outside store snapshot x) :
    scanRows store snapshot rows = scanRows store snapshot base := by
  induction h with
  | nil => rfl
  | keep q rest ih => simp only [scanRows, ih]
  | inserted q hxmin hxmax rest ih =>
    have hfalse : isVisible store q.2.header snapshot = .ok false :=
      Outside.isVisible_of_xmin (hxmin ▸ hx)
    rw [scanRows_cons_hidden hfalse, ih]
  | deleted q hlive cmax next rest ih => simp only [scanRows, hx.isVisible_expire hlive, ih]

end

end Layer

section Scan

variable {store' : StatusStore} {rows : List (RowId × Version Row)}

lemma scanRows_congr
    (h : ∀ p ∈ rows, isVisible store' p.2.header snapshot = isVisible store p.2.header snapshot) :
    scanRows store' snapshot rows = scanRows store snapshot rows := by
  induction rows with
  | nil => rfl
  | cons p rows ih =>
    simp only [scanRows, h p mem_cons_self, ih fun q hq => h q (mem_cons_of_mem _ hq)]

/-- Removing versions the view does not see changes no scan. -/
lemma scanRows_filter (gone : RowId × Version Row → Bool)
    (h : ∀ p ∈ rows, gone p = false → isVisible store p.2.header snapshot = .ok false) :
    scanRows store snapshot (rows.filter gone) =
      scanRows store snapshot rows := by
  induction rows with
  | nil => rfl
  | cons p rows ih =>
    have ih := ih fun q hq => h q (mem_cons_of_mem _ hq)
    cases hp : gone p with
    | true => simp only [filter_cons, hp, if_true, scanRows, ih]
    | false =>
      rw [scanRows_cons_hidden (h p mem_cons_self hp), filter_cons_of_neg (by simp [hp]),
        ih]

lemma scanRows_ok (h : ∀ p ∈ rows, ∃ visible, isVisible store p.2.header snapshot = .ok visible) :
    ∃ result, scanRows store snapshot rows = .ok result := by
  induction rows with
  | nil => exact ⟨[], rfl⟩
  | cons p rows ih =>
    obtain ⟨visible, hvisible⟩ := h p mem_cons_self
    obtain ⟨rest, hrest⟩ := ih fun q hq => h q (mem_cons_of_mem _ hq)
    refine ⟨if visible then (p.1, p.2.row) :: rest else rest, ?_⟩
    simp only [scanRows, Outcome.bind_eq_ok, Outcome.pure_eq_ok]
    exact ⟨visible, hvisible, rest, hrest, rfl⟩

/-- A scan returns the versions the view sees. -/
lemma mem_scanRows {result : List (RowId × Row)}
    (hscan : scanRows store snapshot rows = .ok result) (rowId : RowId) (row : Row) :
    (rowId, row) ∈ result ↔ ∃ header, (rowId, ⟨header, row⟩) ∈ rows ∧
      isVisible store header snapshot = .ok true := by
  induction rows generalizing result with
  | nil =>
    cases hscan
    simp
  | cons p rows ih =>
    simp only [scanRows, Outcome.bind_eq_ok, Outcome.pure_eq_ok] at hscan
    obtain ⟨visible, hvisible, rest, hrest, rfl⟩ := hscan
    obtain ⟨id, header, row'⟩ := p
    have ih := ih hrest
    cases visible with
    | true =>
      simp only [if_true, mem_cons, Prod.mk.injEq, ih, Version.mk.injEq]
      constructor
      · rintro (⟨rfl, rfl⟩ | ⟨header', hmem, hvis⟩)
        · exact ⟨header, .inl ⟨rfl, rfl, rfl⟩, hvisible⟩
        · exact ⟨header', .inr hmem, hvis⟩
      · rintro ⟨header', ⟨rfl, rfl, rfl⟩ | hmem, hvis⟩
        · exact .inl ⟨rfl, rfl⟩
        · exact .inr ⟨header', hmem, hvis⟩
    | false =>
      simp only [Bool.false_eq_true, if_false, mem_cons, Prod.mk.injEq, ih, Version.mk.injEq]
      constructor
      · rintro ⟨header', hmem, hvis⟩
        exact ⟨header', .inr hmem, hvis⟩
      · rintro ⟨header', ⟨rfl, rfl, rfl⟩ | hmem, hvis⟩
        · rw [hvisible] at hvis
          cases hvis
        · exact ⟨header', hmem, hvis⟩

end Scan

/-- Every transaction the rows name has committed or is one of the listed ones. -/
def Settled (store : StatusStore) (unresolved : List TxnId) (rows : List (RowId × Version Row)) :
    Prop :=
  ∀ p ∈ rows, ∀ x, p.2.header.Mentions x →
    (∃ seq, store.status x = .ok (.committed seq)) ∨ x ∈ unresolved

/-- Each unresolved transaction is a layer over the pages it started from. -/
inductive Stacked (store : StatusStore) :
    List (RowId × Version Row) → List (TxnId × HeapData Row Column Key) → Prop
  | bottom {rows} (settled : Settled store [] rows) : Stacked store rows []
  | above {rows rest} (x : TxnId) (base : HeapData Row Column Key)
      (layer : Layer x base.rows rows) (below : Stacked store base.rows rest) :
      Stacked store rows ((x, base) :: rest)

namespace Stacked

variable {store' : StatusStore} {rows : List (RowId × Version Row)}
  {stack : List (TxnId × HeapData Row Column Key)}

section

variable (h : Stacked store rows stack)
include h

lemma settled : Settled store (stack.map (·.1)) rows := by
  induction h with
  | bottom settled => exact settled
  | above x base layer below ih =>
    intro p hp y hy
    rcases layer.mentions hp hy with rfl | ⟨q, hq, hm⟩
    · exact .inr mem_cons_self
    · exact (ih q hq y hm).imp_right (mem_cons_of_mem _)

/-- Commits of other transactions do not disturb the layers. -/
lemma mono (hstore : ∀ x seq, store.status x = .ok (.committed seq) →
      ∃ seq', store'.status x = .ok (.committed seq')) : Stacked store' rows stack := by
  induction h with
  | bottom settled =>
    refine .bottom fun p hp x hx => (settled p hp x hx).imp_left ?_
    rintro ⟨seq, hseq⟩
    exact hstore x seq hseq
  | above x base layer below ih => exact .above x base layer ih

/-- The oldest unresolved transaction commits: its layer becomes part of the bottom. -/
lemma commit_oldest (x : TxnId) (hnodup : (stack.map (·.1)).Nodup)
    (holdest : x ∈ stack.map (·.1) → (stack.map (·.1)).getLast? = some x)
    (hstore : ∀ y seq, store.status y = .ok (.committed seq) →
      ∃ seq', store'.status y = .ok (.committed seq'))
    (hx : ∃ seq, store'.status x = .ok (.committed seq)) :
    Stacked store' rows (stack.filter fun p => p.1 ≠ x) := by
  induction h with
  | bottom settled => exact (bottom settled).mono hstore
  | @above rows rest y base layer below ih =>
    simp only [map_cons, nodup_cons] at hnodup
    by_cases hyx : y = x
    · subst hyx
      -- the newest is also the oldest, so nothing is below it
      have hrest : rest = [] := by
        cases rest with
        | nil => rfl
        | cons q rest =>
          have hlast := holdest mem_cons_self
          rw [map_cons, map_cons, getLast?_cons_cons, ← map_cons] at hlast
          exact absurd (mem_of_getLast? hlast) hnodup.1
      subst hrest
      simp only [ne_eq, decide_not, filter_cons, decide_true, Bool.not_true,
        Bool.false_eq_true, if_false, filter_nil]
      refine .bottom fun p hp z hz => ?_
      rcases layer.mentions hp hz with rfl | ⟨q, hq, hm⟩
      · exact .inl hx
      cases below with
      | bottom settled =>
        refine (settled q hq z hm).imp_left ?_
        rintro ⟨seq, hseq⟩
        exact hstore z seq hseq
    · have hkeep : decide (y ≠ x) = true := by simpa using hyx
      simp only [filter_cons, hkeep, if_true]
      refine .above y base layer (ih hnodup.2 fun hmem => ?_)
      have hlast := holdest (mem_cons_of_mem _ hmem)
      cases rest with
      | nil => cases hmem
      | cons q rest => rwa [map_cons, map_cons, getLast?_cons_cons, ← map_cons] at hlast

end

end Stacked

end Netbadb.Mvcc
