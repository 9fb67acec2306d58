import Netbadb.Schema.Replay

/-!
What the calls of schema transactions make of the journal: flags change, or one
composition grows. Nothing is ever taken out of a history, so every call keeps
the identities that are there, and a sound journal stays sound.
-/

namespace Netbadb.Schema

open Std Outcome List CompositionRecord Identity

/-- A replaced intent keeps the storages, and a new one has a successor. -/
def KeepsStorages (old now : List Nat) : Prop :=
  old ⊆ now ∧ ∀ s ∈ now, s ∈ old ∨ s + 1 < 2 ^ 64

/-- How schema transactions issue a call. An identity is only asked for while it
has a successor (`IdentityExhausted` otherwise). The rewrite that takes the place
of a drop-only index intent keeps every storage. Index migrations start from a
schema or schema/index intent, and the transaction of a table-object intent is new. -/
def Call.Issued (j : SchemaMutationJournal) : Call → Prop
  | reserveCompositionColumn r => r.column + 1 < 2 ^ 32
  | reserveSourceBackfillColumn r _ => r.column + 1 < 2 ^ 32
  | reserveCompositionTable r => r.table + 1 < 2 ^ 64
  | reserveCompositionIndex r => r.index + 1 < 2 ^ 64
  | reserveMigrationIndex r => r.index + 1 < 2 ^ 64 ∧
      (j.composition r.transaction).tableIntent = none ∧
      ((j.composition r.transaction).intent.isSome ∨
        (j.composition r.transaction).indexIntent.isSome)
  | compositionIntent intent => ∀ s ∈ intent.storages, s + 1 < 2 ^ 64
  | replaceCompositionIntent intent => ∀ old,
      (j.composition intent.transaction).intent = some old → KeepsStorages old.storages intent.storages
  | schemaIndexIntent intent => ∀ s ∈ intent.storages, s + 1 < 2 ^ 64
  | replaceSchemaIndexIntent intent => ∀ old,
      (j.composition intent.transaction).indexIntent = some old → KeepsStorages old.storages intent.storages
  | tableObjectIntent intent => (∀ s ∈ intent.storages, s + 1 < 2 ^ 64) ∧
      j.legacy intent.transaction = false
  | replaceTableObjectIntent intent => ∀ old,
      (j.composition intent.transaction).tableIntent = some old → KeepsStorages old.storages intent.storages
  | _ => True

/-- The call at the end of a backfill: the recorded intent with the digest of the
final snapshot. -/
inductive SchemaMutationJournal.Redigests (j : SchemaMutationJournal) : Call → Prop
  | composition {old : SchemaChangeSetIntent} (detail : Detail)
      (hold : (j.composition old.transaction).intent = some old) :
      Redigests j (.replaceCompositionIntent { old with detail })
  | tableObject {old : TableObjectChangeSetIntent} (detail : Detail)
      (hold : (j.composition old.transaction).tableIntent = some old) :
      Redigests j (.replaceTableObjectIntent { old with detail })

lemma SchemaMutationJournal.Redigests.issued {j : SchemaMutationJournal} {call : Call}
    (h : j.Redigests call) : call.Issued j := by
  cases h with
  | composition detail hold | tableObject detail hold =>
    intro old' hold'
    obtain rfl := Option.some.inj (hold.symm.trans hold')
    exact ⟨List.Subset.refl _, fun s hs => .inl hs⟩

namespace SchemaMutationJournal

variable {checks : Checks} {j j' : SchemaMutationJournal} {txn : Nat} {u : Identity}
  {new : CompositionRecord}

/-- What a call can make of the journal: flags change, or one composition grows
by identities that have a successor. -/
inductive Extends (j j' : SchemaMutationJournal) : Prop
  | quiet (hquiet : j.Quiet j')
  | compose (txn : Nat) (new : CompositionRecord) (hcomposes : j.Composes txn new j')
      (hapart : ∀ f, j.Has f txn → f = .composition)
      (hkeeps : ∀ u ∈ (j.composition txn).identities, u ∈ new.identities)
      (hbelow : ∀ u ∈ new.identities, u ∈ (j.composition txn).identities ∨ u.Below)
      (hseparate : new.migrationIndexReservations = [] ∨
        (new.tableIntent = none ∧ (new.intent.isSome ∨ new.indexIntent.isSome)))

lemma Extends.uses_mono (h : j.Extends j') (hu : j.Uses u) : j'.Uses u := by
  cases h with
  | quiet hquiet => exact hquiet.uses.mpr hu
  | compose txn new hcomposes _ hkeeps _ _ =>
    rw [hcomposes.uses]
    obtain hr | hr | ⟨k, c, hc, hu⟩ := hu
    · exact .inr (.inl hr)
    · exact .inr (.inr (.inl hr))
    · by_cases hk : k = txn
      · subst hk
        exact .inl (hkeeps u (composition_of_some hc ▸ hu))
      · exact .inr (.inr (.inr ⟨k, c, hk, hc, hu⟩))

lemma Extends.below (h : j.Extends j') (hu : j'.Uses u) : j.Uses u ∨ u.Below := by
  cases h with
  | quiet hquiet => exact .inl (hquiet.uses.mp hu)
  | compose txn new hcomposes _ _ hbelow _ =>
    obtain hu | hr | hr | ⟨k, c, -, hc, hu⟩ := hcomposes.uses.mp hu
    · rcases hbelow u hu with hold | hbelow
      · obtain ⟨c, hc, hu⟩ := exists_of_composition (p := fun c => u ∈ c.identities) hold (by simp)
        exact .inl (.inr (.inr ⟨txn, c, hc, hu⟩))
      · exact .inr hbelow
    · exact .inl (.inl hr)
    · exact .inl (.inr (.inl hr))
    · exact .inl (.inr (.inr ⟨k, c, hc, hu⟩))

lemma Extends.sound (hsound : j.Sound) (h : j.Extends j') : j'.Sound := by
  cases h with
  | quiet hquiet =>
    refine ⟨fun txn r hr => ?_, fun txn d hd => ?_, ?_, fun txn f g hf hg => ?_, ?_⟩
    · obtain ⟨r₀, hr₀, htransaction, -⟩ := hquiet.reservation hr
      exact htransaction ▸ hsound.reservations_keyed txn r₀ hr₀
    · have hmap := hquiet.drops txn
      rw [hd, Option.map_some, eq_comm, Option.map_eq_some_iff] at hmap
      obtain ⟨d₀, hd₀, htransaction⟩ := hmap
      exact htransaction ▸ hsound.drops_keyed txn d₀ hd₀
    · rw [hquiet.rewriteReservations]
      exact hsound.rewrites_keyed
    · exact hsound.apart txn f g ((hquiet.has f txn).mp hf) ((hquiet.has g txn).mp hg)
    · rw [hquiet.compositions]
      exact hsound.separate
  | compose txn new hcomposes hapart _ _ hseparate =>
    refine ⟨?_, ?_, ?_, fun k f g hf hg => ?_, fun k c hc => ?_⟩
    · rw [hcomposes.reservations]
      exact hsound.reservations_keyed
    · rw [hcomposes.drops]
      exact hsound.drops_keyed
    · rw [hcomposes.rewriteReservations]
      exact hsound.rewrites_keyed
    · rcases (hcomposes.has f k).mp hf with hf | ⟨rfl, rfl⟩ <;>
        rcases (hcomposes.has g k).mp hg with hg | ⟨rfl, hk⟩
      · exact hsound.apart k f g hf hg
      · exact hapart f (hk ▸ hf)
      · exact (hapart g hg).symm
      · rfl
    · rw [hcomposes.compositions] at hc
      split at hc
      · cases hc
        exact hseparate
      · exact hsound.separate k c hc

lemma family_of_not_legacy (h : j.legacy txn = false) (f : Family) (hf : j.Has f txn) :
    f = .composition := by
  simp only [legacy, Bool.or_eq_false_iff, TreeMap.contains_eq_isSome_getElem?] at h
  cases f with
  | create => simp [Has, h.1.1] at hf
  | drop => simp [Has, h.1.2] at hf
  | rewrite => simp [Has, h.2] at hf
  | composition => rfl

variable {c : CompositionRecord} {gc : RetiredHeapGcRecord}

lemma Sound.family_of_composition (h : j.Sound) (hc : j.compositions[txn]? = some c) (f : Family)
    (hf : j.Has f txn) : f = .composition :=
  h.apart txn f .composition hf (by simp [Has, hc])

lemma Sound.separate_composition (h : j.Sound) (txn : Nat) :
    (j.composition txn).migrationIndexReservations = [] ∨
      ((j.composition txn).tableIntent = none ∧
        ((j.composition txn).intent.isSome ∨ (j.composition txn).indexIntent.isSome)) := by
  cases hc : j.compositions[txn]? with
  | none => exact .inl (by simp [composition, hc, CompositionRecord.empty])
  | some c => exact composition_of_some hc ▸ h.separate txn c hc

/-- A call that adds reservations or an intent to a composition. -/
lemma extends_of_extra (extra : List Identity) (hapart : ∀ f, j.Has f txn → f = .composition)
    (hids : ∀ u, u ∈ new.identities ↔ u ∈ (j.composition txn).identities ∨ u ∈ extra)
    (hbelow : ∀ u ∈ extra, u.Below)
    (hseparate : new.migrationIndexReservations = [] ∨
      (new.tableIntent = none ∧ (new.intent.isSome ∨ new.indexIntent.isSome))) :
    j.Extends (j.setComposition txn new) :=
  .compose txn new (j.composes_setComposition txn new) hapart (fun u hu => (hids u).mpr (.inl hu))
    (fun u hu => ((hids u).mp hu).imp_right (hbelow u)) hseparate

lemma Sound.extends_of_same (h : j.Sound) (hc : j.compositions[txn]? = some c)
    (hsame : c.Same new) : j.Extends (j.setComposition txn new) := by
  refine .compose txn new (j.composes_setComposition txn new) (h.family_of_composition hc)
    (fun u hu => ?_) (fun u hu => .inl ?_) ?_
  · rwa [hsame.identities, ← composition_of_some hc]
  · rwa [composition_of_some hc, ← hsame.identities]
  rcases h.separate txn c hc with hnil | ⟨hnone, hintent⟩
  · exact .inl (hsame.migration.trans hnil)
  · refine .inr ⟨?_, ?_⟩
    · have := hsame.tableIntent
      simpa [hnone] using this
    · rwa [hsame.intent, hsame.indexIntent]

lemma storage_below {l : List Nat} (h : ∀ s ∈ l, s + 1 < 2 ^ 64) (u : Identity)
    (hu : u ∈ l.map storage) : u.Below := by
  obtain ⟨s, hs, rfl⟩ := mem_map.mp hu
  exact h s hs

/-- A call that replaces an intent by one that keeps its storages. -/
lemma Sound.extends_of_replaced (h : j.Sound) (rest : CompositionRecord) {old now : List Nat}
    (hc : j.compositions[txn]? = some c)
    (hold : ∀ u, u ∈ c.identities ↔ u ∈ rest.identities ∨ u ∈ old.map storage)
    (hnow : ∀ u, u ∈ new.identities ↔ u ∈ rest.identities ∨ u ∈ now.map storage)
    (hkeeps : KeepsStorages old now)
    (hseparate : new.migrationIndexReservations = [] ∨
      (new.tableIntent = none ∧ (new.intent.isSome ∨ new.indexIntent.isSome))) :
    j.Extends (j.setComposition txn new) := by
  refine .compose txn new (j.composes_setComposition txn new) (h.family_of_composition hc)
    (fun u hu => ?_) (fun u hu => ?_) hseparate
  · rw [composition_of_some hc, hold] at hu
    exact (hnow u).mpr (hu.imp_right fun hu => map_subset _ hkeeps.1 hu)
  · rw [composition_of_some hc, hold]
    rcases (hnow u).mp hu with hrest | hstorage
    · exact .inl (.inl hrest)
    · obtain ⟨s, hs, rfl⟩ := mem_map.mp hstorage
      exact (hkeeps.2 s hs).imp_left fun hs => .inr (mem_map_of_mem hs)

lemma hasIntent_eq_false (h : c.hasIntent = false) :
    c.intent = none ∧ c.indexIntent = none ∧ c.tableIntent = none := by
  simpa [hasIntent, and_assoc] using h

section Calls

variable (hsound : j.Sound) {r : CompositionColumnReservation}
include hsound

lemma reserveCompositionColumn_extends (hbelow : r.column + 1 < 2 ^ 32)
    (h : j.reserveCompositionColumn checks r = .ok (some j')) :
    j.Extends j' := by
  simp only [reserveCompositionColumn, check_eq_ok, bind_eq_ok, pure_eq_ok,
    Option.some.injEq] at h
  obtain ⟨hlegacy, -, -, -, rfl⟩ := h
  refine extends_of_extra [.column r.table r.column]
    (family_of_not_legacy (by simpa using hlegacy)) (fun u => ?_) ?_
    (hsound.separate_composition _)
  · simp only [identities, storages, map_append, mem_append, map_cons, map_nil]
    tauto
  · simpa [Below] using hbelow

lemma reserveSourceBackfillColumn_extends {floor : Nat} (hbelow : r.column + 1 < 2 ^ 32)
    (h : j.reserveSourceBackfillColumn checks r floor = .ok (some j')) : j.Extends j' := by
  simp only [reserveSourceBackfillColumn, check_eq_ok] at h
  obtain ⟨-, h⟩ := h
  split at h
  · simp at h
  rename_i c hc
  simp only [check_eq_ok, bind_eq_ok, pure_eq_ok, Option.some.injEq] at h
  obtain ⟨-, -, -, rfl⟩ := h
  refine extends_of_extra [.column r.table r.column] (hsound.family_of_composition hc)
    (fun u => ?_) ?_ (hsound.separate r.transaction c hc)
  · simp only [composition_of_some hc, identities, storages,
      mem_append, mem_map, mem_sortReservations, mem_cons, not_mem_nil, or_false, or_and_right,
      exists_or, exists_eq_left, eq_comm (a := u)]
    exact iff_of_eq (by ac_rfl)
  · simpa [Below] using hbelow

lemma reserveCompositionTable_extends {r : CompositionTableReservation}
    (hbelow : r.table + 1 < 2 ^ 64) (h : j.reserveCompositionTable checks r = .ok (some j')) :
    j.Extends j' := by
  simp only [reserveCompositionTable, check_eq_ok, bind_eq_ok, pure_eq_ok,
    Option.some.injEq] at h
  obtain ⟨hvalid, -, -, -, rfl⟩ := h
  have hlegacy : j.legacy r.transaction = false := by
    simp only [Bool.or_eq_true, not_or] at hvalid
    simpa using hvalid.2
  refine extends_of_extra [.table r.table] (family_of_not_legacy hlegacy) (fun u => ?_) ?_
    (hsound.separate_composition _)
  · simp only [identities, storages, map_append, mem_append, map_cons, map_nil]
    tauto
  · simpa [Below] using hbelow

lemma reserveCompositionIndex_extends {r : CompositionIndexReservation}
    (hbelow : r.index + 1 < 2 ^ 64) (h : j.reserveCompositionIndex checks r = .ok (some j')) :
    j.Extends j' := by
  simp only [reserveCompositionIndex, check_eq_ok, bind_eq_ok, pure_eq_ok,
    Option.some.injEq] at h
  obtain ⟨hlegacy, -, -, -, rfl⟩ := h
  refine extends_of_extra [.index r.table r.index]
    (family_of_not_legacy (by simpa using hlegacy)) (fun u => ?_) ?_
    (hsound.separate_composition _)
  · simp only [identities, storages, map_append, mem_append, map_cons, map_nil]
    tauto
  · simpa [Below] using hbelow

lemma reserveMigrationIndex_extends {r : CompositionIndexReservation}
    (hissued : (Call.reserveMigrationIndex r).Issued j)
    (h : j.reserveMigrationIndex r = .ok (some j')) : j.Extends j' := by
  obtain ⟨hbelow, htable, hintent⟩ := hissued
  simp only [reserveMigrationIndex, check_eq_ok] at h
  obtain ⟨-, h⟩ := h
  split at h
  · simp at h
  rename_i c hc
  simp only [check_eq_ok, pure_eq_ok, Option.some.injEq] at h
  obtain ⟨-, rfl⟩ := h
  rw [composition_of_some hc] at htable hintent
  refine extends_of_extra [.index r.table r.index] (hsound.family_of_composition hc)
    (fun u => ?_) ?_ (.inr ⟨htable, hintent⟩)
  · simp only [composition_of_some hc, identities, storages,
      mem_append, mem_map, mem_sortReservations, mem_cons, not_mem_nil, or_false, or_and_right,
      exists_or, exists_eq_left, eq_comm (a := u)]
    exact iff_of_eq (by ac_rfl)
  · simpa [Below] using hbelow

/-- A composition without an intent has no migration reservations. -/
lemma migration_of_no_intent (h : (j.composition txn).hasIntent = false) :
    (j.composition txn).migrationIndexReservations = [] := by
  obtain ⟨hnone, hindex, -⟩ := hasIntent_eq_false h
  rcases hsound.separate_composition txn with hnil | ⟨-, hintent⟩
  · exact hnil
  · simp [hnone, hindex] at hintent

lemma compositionIntent_extends {intent : SchemaChangeSetIntent}
    (hbelow : ∀ s ∈ intent.storages, s + 1 < 2 ^ 64)
    (h : j.compositionIntent checks intent = .ok (some j')) : j.Extends j' := by
  simp only [compositionIntent, check_eq_ok, bind_eq_ok, pure_eq_ok, Option.some.injEq,
    Bool.not_eq_true, Bool.or_eq_false_iff] at h
  obtain ⟨hlegacy, ⟨hnone, -⟩, -, -, rfl⟩ := h
  obtain ⟨hintent, -⟩ := hasIntent_eq_false hnone
  exact extends_of_extra _ (family_of_not_legacy hlegacy)
    (fun u => mem_identities_intent hintent intent) (storage_below hbelow)
    (.inl (migration_of_no_intent hsound hnone))

variable {intent : SchemaIndexChangeSetIntent}

lemma schemaIndexIntent_extends (hbelow : ∀ s ∈ intent.storages, s + 1 < 2 ^ 64)
    (h : j.schemaIndexIntent checks intent = .ok (some j')) : j.Extends j' := by
  simp only [schemaIndexIntent, check_eq_ok, bind_eq_ok, pure_eq_ok, Option.some.injEq,
    Bool.not_eq_true, Bool.or_eq_false_iff] at h
  obtain ⟨-, -, hlegacy, ⟨hnone, -⟩, -, -, rfl⟩ := h
  obtain ⟨-, hintent, -⟩ := hasIntent_eq_false hnone
  exact extends_of_extra _ (family_of_not_legacy hlegacy)
    (fun u => mem_identities_indexIntent hintent intent) (storage_below hbelow)
    (.inl (migration_of_no_intent hsound hnone))

lemma tableObjectIntent_extends {intent : TableObjectChangeSetIntent}
    (hissued : (Call.tableObjectIntent intent).Issued j)
    (h : j.tableObjectIntent checks intent = .ok (some j')) : j.Extends j' := by
  simp only [tableObjectIntent, check_eq_ok, bind_eq_ok, pure_eq_ok, Option.some.injEq,
    Bool.not_eq_true, Bool.or_eq_false_iff] at h
  obtain ⟨-, -, ⟨hnone, -⟩, rfl⟩ := h
  obtain ⟨-, -, hintent⟩ := hasIntent_eq_false hnone
  exact extends_of_extra _ (family_of_not_legacy hissued.2)
    (fun u => mem_identities_tableIntent hintent intent)
    (storage_below hissued.1) (.inl (migration_of_no_intent hsound hnone))

lemma replaceCompositionIntent_extends {intent : SchemaChangeSetIntent}
    (hissued : (Call.replaceCompositionIntent intent).Issued j)
    (h : j.replaceCompositionIntent intent = .ok (some j')) : j.Extends j' := by
  unfold replaceCompositionIntent at h
  split at h
  · simp at h
  rename_i c hc
  simp only [check_eq_ok, pure_eq_ok, Option.some.injEq] at h
  obtain ⟨hsome, rfl⟩ := h
  obtain ⟨old, hold⟩ : ∃ old, c.intent = some old := by
    simp only [Bool.or_eq_true, not_or, Option.isNone_iff_eq_none] at hsome
    exact Option.ne_none_iff_exists'.mp hsome.1
  have hkeeps := hissued old (by rw [composition_of_some hc, hold])
  have hids := fun i u => mem_identities_intent (u := u)
    (c := { c with intent := none }) rfl i
  refine hsound.extends_of_replaced { c with intent := none } hc (fun u => ?_)
    (hids intent) hkeeps ?_
  · rw [← hids old u, ← hold]
  · rcases hsound.separate _ c hc with hnil | ⟨hnone, -⟩
    · exact .inl hnil
    · exact .inr ⟨hnone, .inl rfl⟩

lemma replaceSchemaIndexIntent_extends (hissued : (Call.replaceSchemaIndexIntent intent).Issued j)
    (h : j.replaceSchemaIndexIntent checks intent = .ok (some j')) : j.Extends j' := by
  simp only [replaceSchemaIndexIntent, bind_eq_ok] at h
  obtain ⟨-, -, h⟩ := h
  split at h
  · simp at h
  rename_i c hc
  simp only [check_eq_ok, pure_eq_ok, Option.some.injEq] at h
  obtain ⟨hsome, rfl⟩ := h
  obtain ⟨old, hold⟩ : ∃ old, c.indexIntent = some old := by
    simp only [Bool.or_eq_true, not_or, Option.isNone_iff_eq_none] at hsome
    exact Option.ne_none_iff_exists'.mp hsome.1.1.1
  have hkeeps := hissued old (by rw [composition_of_some hc, hold])
  have hids := fun i u => mem_identities_indexIntent (u := u)
    (c := { c with indexIntent := none }) rfl i
  refine hsound.extends_of_replaced { c with indexIntent := none } hc (fun u => ?_)
    (hids intent) hkeeps ?_
  · rw [← hids old u, ← hold]
  · rcases hsound.separate _ c hc with hnil | ⟨hnone, -⟩
    · exact .inl hnil
    · exact .inr ⟨hnone, .inr rfl⟩

lemma replaceTableObjectIntent_extends {intent : TableObjectChangeSetIntent}
    (hissued : (Call.replaceTableObjectIntent intent).Issued j)
    (h : j.replaceTableObjectIntent intent = .ok (some j')) : j.Extends j' := by
  unfold replaceTableObjectIntent at h
  split at h
  · simp at h
  rename_i c hc
  simp only [check_eq_ok, pure_eq_ok, Option.some.injEq] at h
  obtain ⟨hsome, rfl⟩ := h
  obtain ⟨old, hold⟩ : ∃ old, c.tableIntent = some old := by
    simp only [Bool.or_eq_true, not_or, Option.isNone_iff_eq_none] at hsome
    exact Option.ne_none_iff_exists'.mp hsome.1
  have hkeeps := hissued old (by rw [composition_of_some hc, hold])
  have hids := fun i u => mem_identities_tableIntent (u := u)
    (c := { c with tableIntent := none }) rfl i
  refine hsound.extends_of_replaced { c with tableIntent := none } hc (fun u => ?_)
    (hids intent) hkeeps ?_
  · rw [← hids old u, ← hold]
  · rcases hsound.separate _ c hc with hnil | ⟨hnone, -⟩
    · exact .inl hnil
    · simp [hold] at hnone

lemma updateComposition_extends {absent : String} {done : CompositionRecord → Bool}
    {f : CompositionRecord → Except SchemaMutationError CompositionRecord}
    (hf : ∀ a b, f a = .ok b → Same a b)
    (h : j.updateComposition txn absent done f = .ok (some j')) : j.Extends j' := by
  unfold updateComposition at h
  split at h
  · simp at h
  rename_i c hc
  simp only [bind_eq_ok, pure_eq_ok] at h
  obtain ⟨new, hnew, hdone⟩ := h
  split at hdone
  · cases hdone
  · cases hdone
    exact hsound.extends_of_same hc (hf c new hnew)

variable {table : Nat}

lemma retireCompositionTable_extends (h : j.retireCompositionTable txn table = .ok (some j')) :
    j.Extends j' := by
  refine updateComposition_extends hsound (fun a b hab =>
    same_of_amendReplacement (fun x y hxy => ?_) hab) h
  rw [← pure_eq_ok.mp hxy]
  rfl

lemma retireTableObject_extends (h : j.retireTableObject txn table = .ok (some j')) :
    j.Extends j' := by
  refine updateComposition_extends hsound (fun a b hab =>
    same_of_amendTableObject (fun x y hxy => ?_) hab) h
  cases x with
  | rewriteHeap replacement baseIndexes finalIndexes | dropHeap base retired gc =>
    rw [← pure_eq_ok.mp hxy]
    rfl
  | createHeap _ _ | inPlaceIndexDelta _ _ _ _ _ _ => simp at hxy

lemma resolveComposition_extends {resolution : CompositionResolution}
    (h : j.resolveComposition txn resolution = .ok (some j')) : j.Extends j' := by
  refine updateComposition_extends hsound (fun a b hab => ?_) h
  split at hab
  · rw [← pure_eq_ok.mp hab]
    exact ⟨rfl, rfl, rfl, rfl, rfl⟩
  simp only [check_eq_ok] at hab
  replace hab := hab.2
  cases resolution with
  | winner =>
    simp only [check_eq_ok, pure_eq_ok] at hab
    obtain ⟨-, -, rfl⟩ := hab
    exact ⟨rfl, rfl, rfl, rfl, rfl⟩
  | noEffectiveChange =>
    simp only [check_eq_ok, pure_eq_ok] at hab
    obtain ⟨-, rfl⟩ := hab
    exact ⟨rfl, rfl, rfl, rfl, rfl⟩
  | loser =>
    simp only [pure_eq_ok] at hab
    exact hab ▸ ⟨rfl, rfl, rfl, rfl, rfl⟩

lemma compositionGcIntent_extends (h : j.compositionGcIntent checks txn table gc = .ok (some j')) :
    j.Extends j' := by
  unfold compositionGcIntent at h
  split at h
  · simp at h
  rename_i c hc
  simp only [check_eq_ok, bind_eq_ok, pure_eq_ok, Option.some.injEq] at h
  obtain ⟨-, new, hnew, -, -, -, -, rfl⟩ := h
  refine hsound.extends_of_same hc
    (same_of_amendReplacement (fun x y hxy => ?_) hnew)
  simp only [check_eq_ok, pure_eq_ok] at hxy
  obtain ⟨-, rfl⟩ := hxy
  rfl

lemma completeCompositionGc_extends (h : j.completeCompositionGc txn table = .ok (some j')) :
    j.Extends j' := by
  refine updateComposition_extends hsound (fun a b hab =>
    same_of_amendReplacement (fun x y hxy => ?_) hab) h
  split at hxy
  · simp at hxy
  · rw [← pure_eq_ok.mp hxy]
    rfl

lemma tableObjectGcIntent_extends (h : j.tableObjectGcIntent checks txn table gc = .ok (some j')) :
    j.Extends j' := by
  unfold tableObjectGcIntent at h
  split at h
  · simp at h
  rename_i c hc
  simp only [check_eq_ok, bind_eq_ok, pure_eq_ok, Option.some.injEq] at h
  obtain ⟨-, new, hnew, -, -, -, -, rfl⟩ := h
  refine hsound.extends_of_same hc
    (same_of_amendTableObject (fun x y hxy => ?_) hnew)
  simp only [check_eq_ok] at hxy
  exact participantStorage_of_setTableObjectGc hxy.2

lemma completeTableObjectGc_extends (h : j.completeTableObjectGc txn table = .ok (some j')) :
    j.Extends j' := by
  refine updateComposition_extends hsound (fun a b hab =>
    same_of_amendTableObject (fun x y hxy => ?_) hab) h
  split at hxy
  · simp at hxy
  · exact participantStorage_of_setTableObjectGc hxy

end Calls

lemma quiet_setGc (j : SchemaMutationJournal) (txn : Nat) (gc : RetiredHeapGcRecord) :
    j.Quiet (j.setGc txn gc) := by
  unfold setGc
  split
  · next d hd => exact Cursor.quiet_insert_drop hd rfl
  · exact Cursor.quiet_rewrites _

variable {committed : Bool}

lemma resolve_quiet (h : j.resolve txn committed = .ok (some j')) : j.Quiet j' := by
  unfold resolve at h
  split at h
  · simp at h
  rename_i r hr
  split at h
  · simp at h
  · simp only [check_eq_ok, pure_eq_ok, Option.some.injEq] at h
    obtain ⟨-, rfl⟩ := h
    exact ⟨getElem?_insert_map hr rfl, fun _ => rfl, rfl, rfl⟩

lemma retireDrop_quiet (h : j.retireDrop txn = .ok (some j')) : j.Quiet j' := by
  unfold retireDrop at h
  split at h
  · simp at h
  rename_i d hd
  simp only [check_eq_ok] at h
  obtain ⟨-, h⟩ := h
  split at h
  · simp at h
  · simp only [pure_eq_ok, Option.some.injEq] at h
    exact h ▸ Cursor.quiet_insert_drop hd rfl

lemma resolveDrop_quiet (h : j.resolveDrop txn committed = .ok (some j')) : j.Quiet j' := by
  unfold resolveDrop at h
  split at h
  · simp at h
  rename_i d hd
  simp only [check_eq_ok] at h
  obtain ⟨-, -, h⟩ := h
  split at h
  · simp at h
  · simp only [check_eq_ok, pure_eq_ok, Option.some.injEq] at h
    obtain ⟨-, rfl⟩ := h
    exact Cursor.quiet_insert_drop hd rfl

lemma retireRewrite_quiet (h : j.retireRewrite txn = .ok (some j')) : j.Quiet j' := by
  unfold retireRewrite at h
  split at h
  · simp at h
  simp only [check_eq_ok] at h
  obtain ⟨-, h⟩ := h
  split at h
  · simp at h
  · simp only [pure_eq_ok, Option.some.injEq] at h
    exact h ▸ Cursor.quiet_rewrites _

lemma resolveRewrite_quiet (h : j.resolveRewrite txn committed = .ok (some j')) : j.Quiet j' := by
  unfold resolveRewrite at h
  split at h
  · simp only [check_eq_ok] at h
    obtain ⟨-, h⟩ := h
    split at h
    · simp at h
    · simp only [pure_eq_ok, Option.some.injEq] at h
      exact h ▸ ⟨fun _ => rfl, fun _ => rfl, rfl, rfl⟩
  · split at h
    · simp at h
    · simp only [check_eq_ok] at h
      obtain ⟨-, -, h⟩ := h
      split at h
      · simp at h
      · simp only [check_eq_ok, pure_eq_ok, Option.some.injEq] at h
        obtain ⟨-, rfl⟩ := h
        exact Cursor.quiet_rewrites _

lemma gcIntent_quiet (h : j.gcIntent checks txn gc = .ok (some j')) : j.Quiet j' := by
  unfold gcIntent at h
  split at h
  · simp at h
  · simp only [check_eq_ok, bind_eq_ok, pure_eq_ok, Option.some.injEq] at h
    obtain ⟨-, -, -, rfl⟩ := h
    exact j.quiet_setGc txn gc

lemma completeGc_quiet (h : j.completeGc txn = .ok (some j')) : j.Quiet j' := by
  unfold completeGc at h
  split at h
  · simp at h
  · split at h
    · simp at h
    · simp only [pure_eq_ok, Option.some.injEq] at h
      exact h ▸ j.quiet_setGc txn _

end SchemaMutationJournal

open SchemaMutationJournal in
/-- What every issued call can make of a sound journal. -/
lemma Call.extends {checks : Checks} {j j' : SchemaMutationJournal} {call : Call}
    (hsound : j.Sound) (hissued : call.Issued j) (h : call.apply checks j = .ok (some j')) :
    j.Extends j' := by
  cases call with
  | reserveCompositionColumn => exact reserveCompositionColumn_extends hsound hissued h
  | reserveSourceBackfillColumn => exact reserveSourceBackfillColumn_extends hsound hissued h
  | reserveCompositionTable => exact reserveCompositionTable_extends hsound hissued h
  | reserveCompositionIndex => exact reserveCompositionIndex_extends hsound hissued h
  | reserveMigrationIndex => exact reserveMigrationIndex_extends hsound hissued h
  | compositionIntent => exact compositionIntent_extends hsound hissued h
  | replaceCompositionIntent => exact replaceCompositionIntent_extends hsound hissued h
  | schemaIndexIntent => exact schemaIndexIntent_extends hsound hissued h
  | replaceSchemaIndexIntent => exact replaceSchemaIndexIntent_extends hsound hissued h
  | tableObjectIntent => exact tableObjectIntent_extends hsound hissued h
  | replaceTableObjectIntent => exact replaceTableObjectIntent_extends hsound hissued h
  | retireCompositionTable => exact retireCompositionTable_extends hsound h
  | retireTableObject => exact retireTableObject_extends hsound h
  | resolveComposition => exact resolveComposition_extends hsound h
  | compositionGcIntent => exact compositionGcIntent_extends hsound h
  | completeCompositionGc => exact completeCompositionGc_extends hsound h
  | tableObjectGcIntent => exact tableObjectGcIntent_extends hsound h
  | completeTableObjectGc => exact completeTableObjectGc_extends hsound h
  | resolve => exact .quiet (resolve_quiet h)
  | retireDrop => exact .quiet (retireDrop_quiet h)
  | resolveDrop => exact .quiet (resolveDrop_quiet h)
  | retireRewrite => exact .quiet (retireRewrite_quiet h)
  | resolveRewrite => exact .quiet (resolveRewrite_quiet h)
  | gcIntent => exact .quiet (gcIntent_quiet h)
  | completeGc => exact .quiet (completeGc_quiet h)
  | stageResourceIntent =>
    simp only [apply, SchemaMutationJournal.stageResourceIntent, check_eq_ok, bind_eq_ok,
      pure_eq_ok, Option.some.injEq] at h
    obtain ⟨-, -, -, -, rfl⟩ := h
    exact .quiet ⟨fun _ => rfl, fun _ => rfl, rfl, rfl⟩
  | finalizationIntent | migrationFinalizationIntent =>
    simp only [apply, SchemaMutationJournal.finalizationIntent,
      SchemaMutationJournal.migrationFinalizationIntent] at h
    split at h
    · simp at h
    · simp only [check_eq_ok, bind_eq_ok, pure_eq_ok, Option.some.injEq] at h
      obtain ⟨-, -, -, rfl⟩ := h
      exact .quiet ⟨fun _ => rfl, fun _ => rfl, rfl, rfl⟩
  | sourceBackfillIntent =>
    simp only [apply, SchemaMutationJournal.sourceBackfillIntent] at h
    split at h
    · simp at h
    split at h
    · simp at h
    · simp only [check_eq_ok, bind_eq_ok, pure_eq_ok, Option.some.injEq] at h
      obtain ⟨-, -, -, rfl⟩ := h
      exact .quiet ⟨fun _ => rfl, fun _ => rfl, rfl, rfl⟩

end Netbadb.Schema
