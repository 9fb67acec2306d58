import Netbadb.Schema.Identities

/-!
What reading one record does to the journal under construction: a quiet change,
a new entry of one of the first formats, or a composition put in its place. The
one record that could lose identities is a table-object intent: when it opens
its transaction it starts a fresh composition.
-/

namespace Netbadb.Schema

open Std Outcome List CompositionRecord SchemaMutationJournal Option

section Amend

variable {α : Type} {m m' : TreeMap Nat α} {txn : Nat} {absent : String}
  {f : α → Except SchemaMutationError α} {g : α → β}

lemma amend_eq_ok : amend m txn absent f = .ok m' ↔
      ∃ a b, m[txn]? = some a ∧ f a = .ok b ∧ m' = m.insert txn b := by
  unfold amend
  cases hm : m[txn]? with
  | none => simp
  | some a =>
    simp only [bind_eq_ok, pure_eq_ok, some.injEq]
    constructor
    · rintro ⟨b, hb, rfl⟩
      exact ⟨a, b, rfl, hb, rfl⟩
    · rintro ⟨a', b, rfl, hb, rfl⟩
      exact ⟨b, hb, rfl⟩

lemma getElem?_insert_map {a b : α} (hm : m[txn]? = some a) (hg : g b = g a) (k : Nat) :
    ((m.insert txn b)[k]?).map g = (m[k]?).map g := by
  rw [TreeMap.getElem?_insert]
  split
  · rename_i h
    rw [← Nat.compare_eq_eq.mp h, hm]
    simp [hg]
  · rfl

lemma map_of_amendFirst {p : α → Bool} (hg : ∀ a b, f a = .ok b → g b = g a) {l l' : List α}
    (h : amendFirst p absent f l = .ok l') : l'.map g = l.map g := by
  induction l generalizing l' with
  | nil => simp [amendFirst] at h
  | cons a l ih =>
    unfold amendFirst at h
    split at h
    · simp only [bind_eq_ok, pure_eq_ok] at h
      obtain ⟨b, hb, rfl⟩ := h
      simp [hg a b hb]
    · simp only [bind_eq_ok, pure_eq_ok] at h
      obtain ⟨l₁, hl, rfl⟩ := h
      simp [ih hl]

end Amend

/-- Two states of a composition with the same reservations and storages. -/
structure CompositionRecord.Same (c c' : CompositionRecord) : Prop where
  identities : c'.identities = c.identities
  migration : c'.migrationIndexReservations = c.migrationIndexReservations
  intent : c'.intent.isSome = c.intent.isSome
  indexIntent : c'.indexIntent.isSome = c.indexIntent.isSome
  tableIntent : c'.tableIntent.isSome = c.tableIntent.isSome

namespace SchemaIndexChangeSetIntent

lemma storages_eq (intent : SchemaIndexChangeSetIntent) :
    intent.storages = (intent.tables.map fun plan =>
      plan.replacement.map CompositionTablePlan.newStorage).filterMap id := by
  simp [storages, filterMap_map, ← map_filterMap]

end SchemaIndexChangeSetIntent

namespace TableObjectChangeSetIntent

lemma storages_eq (intent : TableObjectChangeSetIntent) : intent.storages =
      (intent.tables.map SchemaIndexTablePlan.participantStorage).filterMap id := by
  simp [storages, filterMap_map]

end TableObjectChangeSetIntent

namespace CompositionRecord

variable {c c' : CompositionRecord} {table : Nat} {absent : String}

/-- New intents with the storages of the old ones. -/
lemma same_of_storages {intent : Option SchemaChangeSetIntent}
    {indexIntent : Option SchemaIndexChangeSetIntent}
    {tableIntent : Option TableObjectChangeSetIntent}
    (h : storages { c with intent, indexIntent, tableIntent } = c.storages)
    (hintent : intent.isSome = c.intent.isSome)
    (hindex : indexIntent.isSome = c.indexIntent.isSome)
    (htable : tableIntent.isSome = c.tableIntent.isSome) :
    Same c { c with intent, indexIntent, tableIntent } where
  identities := by rw [identities, identities, h]
  migration := rfl
  intent := hintent
  indexIntent := hindex
  tableIntent := htable

variable {f : CompositionTablePlan → Except SchemaMutationError CompositionTablePlan}

lemma newStorage_of_amendReplacement (hf : ∀ a b, f a = .ok b → b.newStorage = a.newStorage)
    {a b : SchemaIndexTablePlan} (h : a.amendReplacement absent f = .ok b) :
    b.replacement.map CompositionTablePlan.newStorage =
      a.replacement.map CompositionTablePlan.newStorage := by
  cases a with
  | rewriteHeap replacement baseIndexes finalIndexes =>
    simp only [SchemaIndexTablePlan.amendReplacement, bind_eq_ok, pure_eq_ok] at h
    obtain ⟨x, hx, rfl⟩ := h
    simp [SchemaIndexTablePlan.replacement, hf _ _ hx]
  | createHeap _ _ | dropHeap _ _ _ | inPlaceIndexDelta _ _ _ _ _ _ =>
    simp [SchemaIndexTablePlan.amendReplacement] at h

lemma same_of_amendReplacement (hf : ∀ a b, f a = .ok b → b.newStorage = a.newStorage)
    (h : c.amendReplacement table absent f = .ok c') : Same c c' := by
  unfold amendReplacement at h
  split at h
  · rename_i intent hintent
    simp only [bind_eq_ok, pure_eq_ok] at h
    obtain ⟨tables, htables, rfl⟩ := h
    have hmap := map_of_amendFirst hf htables
    refine same_of_storages ?_ (by simp [hintent]) rfl rfl
    simp [storages, hintent, SchemaChangeSetIntent.storages, hmap]
  · rename_i hintent
    split at h
    · rename_i intent hindex
      simp only [bind_eq_ok, pure_eq_ok] at h
      obtain ⟨tables, htables, rfl⟩ := h
      have hmap := map_of_amendFirst (fun _ _ => newStorage_of_amendReplacement hf) htables
      refine same_of_storages ?_ rfl (by simp [hindex]) rfl
      simp only [storages, hindex, toList_some, flatMap_cons, flatMap_nil,
        SchemaIndexChangeSetIntent.storages_eq, hmap]
    · simp at h

lemma same_of_amendTableObject {p : SchemaIndexTablePlan → Bool}
    {f : SchemaIndexTablePlan → Except SchemaMutationError SchemaIndexTablePlan}
    (hf : ∀ a b, f a = .ok b → b.participantStorage = a.participantStorage)
    (h : c.amendTableObject p absent f = .ok c') : Same c c' := by
  unfold amendTableObject at h
  split at h
  · rename_i intent hintent
    simp only [bind_eq_ok, pure_eq_ok] at h
    obtain ⟨tables, htables, rfl⟩ := h
    have hmap := map_of_amendFirst hf htables
    refine same_of_storages ?_ rfl rfl (by simp [hintent])
    simp only [storages, hintent, toList_some, flatMap_cons, flatMap_nil,
      TableObjectChangeSetIntent.storages_eq, hmap]
  · simp at h

end CompositionRecord

variable {absent : String}

lemma participantStorage_of_setTableObjectGc {gc : RetiredHeapGcRecord}
    {a b : SchemaIndexTablePlan} (h : setTableObjectGc absent gc a = .ok b) :
    b.participantStorage = a.participantStorage := by
  cases a with
  | rewriteHeap replacement baseIndexes finalIndexes | dropHeap base retired _ =>
    simp only [setTableObjectGc, pure_eq_ok] at h
    rw [← h]
    rfl
  | createHeap _ _ | inPlaceIndexDelta _ _ _ _ _ _ => simp [setTableObjectGc] at h

/-- No entry that carries an identity changes. -/
structure SchemaMutationJournal.Quiet (j j' : SchemaMutationJournal) : Prop where
  reservations : ∀ txn : Nat,
    (j'.reservations[txn]?).map (fun r => (r.transaction, r.table, r.storage)) =
      (j.reservations[txn]?).map fun r => (r.transaction, r.table, r.storage)
  drops : ∀ txn : Nat,
    (j'.drops[txn]?).map (·.transaction) = (j.drops[txn]?).map (·.transaction)
  rewriteReservations : j'.rewriteReservations = j.rewriteReservations
  compositions : j'.compositions = j.compositions

/-- One composition is put in its place; nothing else that carries an identity
changes. -/
structure SchemaMutationJournal.Composes (j : SchemaMutationJournal) (txn : Nat)
    (new : CompositionRecord) (j' : SchemaMutationJournal) : Prop where
  reservations : j'.reservations = j.reservations
  drops : j'.drops = j.drops
  rewriteReservations : j'.rewriteReservations = j.rewriteReservations
  compositions : ∀ k : Nat,
    j'.compositions[k]? = if txn = k then some new else j.compositions[k]?

lemma SchemaMutationJournal.composes_setComposition (j : SchemaMutationJournal) (txn : Nat)
    (new : CompositionRecord) : j.Composes txn new (j.setComposition txn new) :=
  ⟨rfl, rfl, rfl, fun k => by simp [setComposition, TreeMap.getElem?_insert]⟩

lemma SchemaMutationJournal.composes_setComposition_twice (j : SchemaMutationJournal)
    (txn : Nat) (a b : CompositionRecord) :
    j.Composes txn b ((j.setComposition txn a).setComposition txn b) := by
  refine ⟨rfl, rfl, rfl, fun k => ?_⟩
  by_cases hk : txn = k
  · simp [setComposition, hk]
  · simp [setComposition, TreeMap.getElem?_insert, hk]

variable {manifestDigest : Detail} {horizon : Nat}

namespace Cursor

inductive Effect (c : Cursor) (r : JournalRecord) (c' : Cursor) : Prop
  | quiet (hquiet : c.journal.Quiet c'.journal) (hfamily : r.family = none)
  | create (new : Reservation) (hfresh : c.lastTxn < r.txn) (hcurrent : c'.current = some r.txn)
      (hkey : new.transaction = r.txn) (hids : r.identities = new.identities)
      (hfamily : r.family = some .create)
      (hjournal : c'.journal =
        { c.journal with reservations := c.journal.reservations.insert r.txn new })
  | drop (new : DropIntent) (hfresh : c.lastTxn < r.txn) (hcurrent : c'.current = some r.txn)
      (hkey : new.transaction = r.txn) (hids : r.identities = [])
      (hfamily : r.family = some .drop)
      (hjournal : c'.journal = { c.journal with drops := c.journal.drops.insert r.txn new })
  | rewrite (new : RewriteReservation) (hfresh : c.lastTxn < r.txn)
      (hcurrent : c'.current = some r.txn) (hkey : new.transaction = r.txn)
      (hids : r.identities = new.identities) (hfamily : r.family = some .rewrite)
      (hjournal : c'.journal = { c.journal with
        rewriteReservations := c.journal.rewriteReservations.insert r.txn new })
  | compose (old new : CompositionRecord) (hjournal : c.journal.Composes r.txn new c'.journal)
      (hold : old = c.journal.composition r.txn ∨
        (r.isTableObject = true ∧ c.lastTxn < r.txn ∧ old = .empty r.txn))
      (hcurrent : c'.current = some r.txn ∨ r.isMigration = true)
      (hids : ∀ u, u ∈ new.identities ↔ u ∈ old.identities ∨ u ∈ r.identities)
      (hmigration : new.migrationIndexReservations ≠ [] →
        old.migrationIndexReservations ≠ [] ∨ r.isMigration = true)
      (htable : new.tableIntent.isSome → old.tableIntent.isSome ∨ r.isTableObject = true)
      (hfamily : r.family = some .composition ∨ (c.journal.compositions[r.txn]?).isSome)

/-- How the cursor moves: it stays, or a transaction above the last one opens. -/
def Moves (c : Cursor) (txn : Nat) (c' : Cursor) : Prop :=
  (c'.current = c.current ∧ c'.lastTxn = c.lastTxn) ∨
    (c'.current = some txn ∧ c'.lastTxn = txn ∧ c.lastTxn < txn)

variable {checks : Checks} {c c' : Cursor} {txn table : Nat} {r : JournalRecord}
  {nonmonotonic : String} {legacy : Bool}

lemma enter_eq_ok (h : c.enter txn legacy nonmonotonic = .ok c') :
    c'.journal = c.journal ∧ c'.current = some txn ∧ c.Moves txn c' := by
  unfold enter at h
  split at h
  · rename_i hcurrent
    simp only [pure_eq_ok] at h
    exact h ▸ ⟨rfl, hcurrent, .inl ⟨rfl, rfl⟩⟩
  · simp only [check_eq_ok, pure_eq_ok] at h
    obtain ⟨hlast, -, rfl⟩ := h
    exact ⟨rfl, rfl, .inr ⟨rfl, rfl, by omega⟩⟩

/-- Reading the record moved the cursor and changed the maps as described. -/
structure Reads (c : Cursor) (r : JournalRecord) (c' : Cursor) : Prop where
  moves : c.Moves r.txn c'
  effect : c.Effect r c'

variable {j : SchemaMutationJournal} {fragment : Fragment}

lemma reads_quiet (hquiet : c.journal.Quiet j) (hfamily : r.family = none) :
    c.Reads r { c with journal := j } :=
  ⟨.inl ⟨rfl, rfl⟩, .quiet hquiet hfamily⟩

lemma quiet_reservations {m : TreeMap Nat Reservation}
    {f : Reservation → Except SchemaMutationError Reservation}
    (hf : ∀ a b, f a = .ok b → (b.transaction, b.table, b.storage) =
      (a.transaction, a.table, a.storage)) (h : amend c.journal.reservations txn absent f = .ok m) :
    c.journal.Quiet { c.journal with reservations := m } := by
  obtain ⟨a, b, ha, hb, rfl⟩ := amend_eq_ok.mp h
  exact ⟨getElem?_insert_map ha (hf a b hb), fun _ => rfl, rfl, rfl⟩

lemma quiet_drops {m : TreeMap Nat DropIntent}
    {f : DropIntent → Except SchemaMutationError DropIntent}
    (hf : ∀ a b, f a = .ok b → b.transaction = a.transaction)
    (h : amend c.journal.drops txn absent f = .ok m) :
    c.journal.Quiet { c.journal with drops := m } := by
  obtain ⟨a, b, ha, hb, rfl⟩ := amend_eq_ok.mp h
  exact ⟨fun _ => rfl, getElem?_insert_map ha (hf a b hb), rfl, rfl⟩

lemma quiet_rewrites (m : TreeMap Nat RewriteIntent) : j.Quiet { j with rewrites := m } :=
  ⟨fun _ => rfl, fun _ => rfl, rfl, rfl⟩

lemma reads_reservation {storage generation epoch : Nat}
    (h : c.reservation txn table storage generation epoch = .ok c') :
    c.Reads (.reservation txn table storage generation epoch) c' := by
  simp only [reservation, check_eq_ok, pure_eq_ok] at h
  obtain ⟨hlast, -, rfl⟩ := h
  have hfresh : c.lastTxn < txn := by
    simp only [Bool.or_eq_true, decide_eq_true_eq, not_or] at hlast
    omega
  exact ⟨.inr ⟨rfl, rfl, hfresh⟩, .create _ hfresh rfl rfl rfl rfl rfl⟩

lemma reads_createIntent (h : c.createIntent checks txn fragment = .ok c') :
    c.Reads (.createIntent txn fragment) c' := by
  simp only [createIntent, check_eq_ok, bind_eq_ok, pure_eq_ok] at h
  obtain ⟨-, m, hm, rfl⟩ := h
  refine reads_quiet (quiet_reservations (fun a b hab => ?_) hm) rfl
  simp only [check_eq_ok, bind_eq_ok, pure_eq_ok] at hab
  obtain ⟨-, -, -, rfl⟩ := hab
  rfl

variable {committed : Bool}

lemma reads_resolution (h : c.resolution txn committed = .ok c') :
    c.Reads (.resolution txn committed) c' := by
  simp only [resolution, check_eq_ok, bind_eq_ok, pure_eq_ok] at h
  obtain ⟨-, m, hm, rfl⟩ := h
  refine reads_quiet (quiet_reservations (fun a b hab => ?_) hm) rfl
  simp only [check_eq_ok, pure_eq_ok] at hab
  obtain ⟨-, rfl⟩ := hab
  rfl

lemma reads_drop {targetGeneration targetEpoch : Nat}
    (h : c.drop checks txn targetGeneration targetEpoch fragment = .ok c') :
    c.Reads (.drop txn targetGeneration targetEpoch fragment) c' := by
  simp only [drop, check_eq_ok, bind_eq_ok, pure_eq_ok] at h
  obtain ⟨hlast, -, -, -, -, _, -, _, -, rfl⟩ := h
  have hfresh : c.lastTxn < txn := by omega
  exact ⟨.inr ⟨rfl, rfl, hfresh⟩, .drop _ hfresh rfl rfl rfl rfl rfl⟩

lemma reads_dropRetired (h : c.dropRetired txn = .ok c') : c.Reads (.dropRetired txn) c' := by
  simp only [dropRetired, check_eq_ok, bind_eq_ok, pure_eq_ok] at h
  obtain ⟨-, m, hm, rfl⟩ := h
  refine reads_quiet (quiet_drops (fun a b hab => ?_) hm) rfl
  simp only [check_eq_ok, pure_eq_ok] at hab
  obtain ⟨-, rfl⟩ := hab
  rfl

lemma reads_dropResolution (h : c.dropResolution txn committed = .ok c') :
    c.Reads (.dropResolution txn committed) c' := by
  simp only [dropResolution, check_eq_ok, bind_eq_ok, pure_eq_ok] at h
  obtain ⟨-, m, hm, rfl⟩ := h
  refine reads_quiet (quiet_drops (fun a b hab => ?_) hm) rfl
  simp only [check_eq_ok, pure_eq_ok] at hab
  obtain ⟨-, -, rfl⟩ := hab
  rfl

lemma quiet_insert_drop {a b : DropIntent} (ha : j.drops[txn]? = some a)
    (hb : b.transaction = a.transaction) : j.Quiet { j with drops := j.drops.insert txn b } :=
  ⟨fun _ => rfl, getElem?_insert_map ha hb, rfl, rfl⟩

lemma reads_gc (h : c.gc txn horizon manifestDigest = .ok c') :
    c.Reads (.gc txn horizon manifestDigest) c' := by
  simp only [gc, check_eq_ok] at h
  obtain ⟨-, h⟩ := h
  split at h
  · rename_i d hd
    simp only [check_eq_ok, pure_eq_ok] at h
    obtain ⟨-, rfl⟩ := h
    exact reads_quiet (quiet_insert_drop hd rfl) rfl
  · simp only [bind_eq_ok, pure_eq_ok] at h
    obtain ⟨m, -, rfl⟩ := h
    exact reads_quiet (quiet_rewrites m) rfl

lemma reads_gcComplete (h : c.gcComplete txn = .ok c') : c.Reads (.gcComplete txn) c' := by
  simp only [gcComplete, check_eq_ok] at h
  obtain ⟨-, h⟩ := h
  split at h
  · rename_i d hd
    simp only [bind_eq_ok, pure_eq_ok] at h
    obtain ⟨gc, -, rfl⟩ := h
    exact reads_quiet (quiet_insert_drop hd rfl) rfl
  · simp only [bind_eq_ok, pure_eq_ok] at h
    obtain ⟨m, -, rfl⟩ := h
    exact reads_quiet (quiet_rewrites m) rfl

lemma reads_rewriteReservation {storage generation epoch : Nat} {column : Option Nat}
    (h : c.rewriteReservation txn table storage column generation epoch = .ok c') :
    c.Reads (.rewriteReservation txn table storage column generation epoch) c' := by
  simp only [rewriteReservation, check_eq_ok, pure_eq_ok] at h
  obtain ⟨hlast, -, -, rfl⟩ := h
  have hfresh : c.lastTxn < txn := by
    simp only [Bool.or_eq_true, decide_eq_true_eq, not_or] at hlast
    omega
  exact ⟨.inr ⟨rfl, rfl, hfresh⟩, .rewrite _ hfresh rfl rfl rfl rfl rfl⟩

lemma reads_rewriteIntent {detail : Detail} {base target : Fragment}
    (h : c.rewriteIntent checks txn detail base target = .ok c') :
    c.Reads (.rewriteIntent txn detail base target) c' := by
  simp only [rewriteIntent, check_eq_ok] at h
  obtain ⟨-, h⟩ := h
  split at h
  · simp at h
  · simp only [bind_eq_ok, pure_eq_ok] at h
    obtain ⟨-, -, rfl⟩ := h
    exact reads_quiet (quiet_rewrites _) rfl

lemma reads_rewriteRetired (h : c.rewriteRetired txn = .ok c') :
    c.Reads (.rewriteRetired txn) c' := by
  simp only [rewriteRetired, check_eq_ok, bind_eq_ok, pure_eq_ok] at h
  obtain ⟨-, m, -, rfl⟩ := h
  exact reads_quiet (quiet_rewrites m) rfl

lemma reads_rewriteResolution (h : c.rewriteResolution txn committed = .ok c') :
    c.Reads (.rewriteResolution txn committed) c' := by
  simp only [rewriteResolution, check_eq_ok] at h
  obtain ⟨-, h⟩ := h
  split at h
  · simp only [check_eq_ok, pure_eq_ok] at h
    obtain ⟨-, rfl⟩ := h
    exact reads_quiet ⟨fun _ => rfl, fun _ => rfl, rfl, rfl⟩ rfl
  · simp only [bind_eq_ok, pure_eq_ok] at h
    obtain ⟨m, -, rfl⟩ := h
    exact reads_quiet (quiet_rewrites m) rfl

lemma reads_of_enter {d : Cursor} {new : CompositionRecord}
    (henter : c.enter r.txn legacy nonmonotonic = .ok d)
    (hjournal : c'.journal = d.journal.setComposition r.txn new) (hcurrent : c'.current = d.current)
    (hlast : c'.lastTxn = d.lastTxn) (hfamily : r.family = some .composition)
    (hids : ∀ u, u ∈ new.identities ↔
      u ∈ (d.journal.composition r.txn).identities ∨ u ∈ r.identities)
    (hmigration : new.migrationIndexReservations =
      (d.journal.composition r.txn).migrationIndexReservations)
    (htable : new.tableIntent = (d.journal.composition r.txn).tableIntent) : c.Reads r c' := by
  obtain ⟨hd, hdcurrent, hmoves⟩ := enter_eq_ok henter
  rw [hd] at hids hmigration htable hjournal
  refine ⟨?_, .compose _ new ?_ (.inl rfl) (.inl (hcurrent.trans hdcurrent)) hids
    (fun h => .inl (hmigration ▸ h)) (fun h => .inl (htable ▸ h)) (.inl hfamily)⟩
  · rwa [Moves, hcurrent, hlast]
  · rw [hjournal]
    exact composes_setComposition _ _ _

variable {next : Option Nat}

lemma reads_compositionTable (h : c.compositionTable txn table next = .ok c') :
    c.Reads (.compositionTable txn table next) c' := by
  simp only [compositionTable, check_eq_ok, bind_eq_ok, pure_eq_ok] at h
  obtain ⟨-, d, henter, -, rfl⟩ := h
  refine reads_of_enter henter rfl rfl rfl rfl (fun u => ?_) rfl rfl
  simp only [identities, storages, JournalRecord.identities,
    JournalRecord.txn, map_append, mem_append, map_cons, map_nil]
  tauto

lemma reads_compositionColumn {column : Nat}
    (h : c.compositionColumn txn table column next = .ok c') :
    c.Reads (.compositionColumn txn table column next) c' := by
  simp only [compositionColumn, check_eq_ok, bind_eq_ok, pure_eq_ok] at h
  obtain ⟨-, d, henter, -, rfl⟩ := h
  refine reads_of_enter henter rfl rfl rfl rfl (fun u => ?_) rfl rfl
  simp only [identities, storages, JournalRecord.identities,
    JournalRecord.txn, map_append, mem_append, map_cons, map_nil]
  tauto

lemma reads_compositionIndex {tableVersion index : Nat} {fingerprint : Detail}
    (h : c.compositionIndex txn table tableVersion fingerprint index next = .ok c') :
    c.Reads (.compositionIndex txn table tableVersion fingerprint index next) c' := by
  simp only [compositionIndex, check_eq_ok, bind_eq_ok, pure_eq_ok] at h
  obtain ⟨-, d, henter, -, rfl⟩ := h
  refine reads_of_enter henter rfl rfl rfl rfl (fun u => ?_) rfl rfl
  simp only [identities, storages, JournalRecord.identities,
    JournalRecord.txn, map_append, mem_append, map_cons, map_nil]
  tauto

lemma reads_migrationIndex (c : Cursor) (txn table tableVersion : Nat) (fingerprint : Detail)
    (index : Nat) (next : Option Nat) :
    c.Reads (.migrationIndex txn table tableVersion fingerprint index next)
      (c.migrationIndex txn table tableVersion fingerprint index next) := by
  refine ⟨.inl ⟨rfl, rfl⟩, .compose _ _ (composes_setComposition _ _ _)
    (.inl rfl) (.inr rfl) (fun u => ?_) (fun _ => .inr rfl) .inl (.inl rfl)⟩
  simp only [identities, storages, JournalRecord.identities,
    JournalRecord.txn, map_append, mem_append, map_cons, map_nil]
  tauto

end Cursor

namespace CompositionRecord

variable {c : CompositionRecord} {u : Identity}

/-! An intent of a kind the composition has none of. -/

lemma mem_identities_intent (h : c.intent = none) (intent : SchemaChangeSetIntent) :
    u ∈ identities { c with intent := some intent } ↔
      u ∈ c.identities ∨ u ∈ intent.storages.map .storage := by
  simp only [identities, storages, h, toList_some, toList_none, flatMap_cons,
    flatMap_nil, append_nil, nil_append, map_append, mem_append]
  tauto

lemma mem_identities_indexIntent (h : c.indexIntent = none) (intent : SchemaIndexChangeSetIntent) :
    u ∈ identities { c with indexIntent := some intent } ↔
      u ∈ c.identities ∨ u ∈ intent.storages.map .storage := by
  simp only [identities, storages, h, toList_some, toList_none, flatMap_cons,
    flatMap_nil, append_nil, nil_append, map_append, mem_append]
  tauto

lemma mem_identities_tableIntent (h : c.tableIntent = none) (intent : TableObjectChangeSetIntent) :
    u ∈ identities { c with tableIntent := some intent } ↔
      u ∈ c.identities ∨ u ∈ intent.storages.map .storage := by
  simp only [identities, storages, h, toList_some, toList_none, flatMap_cons,
    flatMap_nil, append_nil, map_append, mem_append]
  tauto

end CompositionRecord

namespace Cursor

variable {checks : Checks} {c c' : Cursor} {txn table : Nat} {r : JournalRecord}

lemma reads_compositionIntent {intent : SchemaChangeSetIntent}
    (h : c.compositionIntent checks txn intent = .ok c') :
    c.Reads (.compositionIntent txn intent) c' := by
  simp only [compositionIntent, check_eq_ok, bind_eq_ok, pure_eq_ok] at h
  obtain ⟨d, henter, -, -, -, -, hnone, rfl⟩ := h
  have hintent : (d.journal.composition txn).intent = none := by
    simp only [Bool.or_eq_true, not_or, not_isSome_iff_eq_none] at hnone
    exact hnone.1.1.1
  exact reads_of_enter henter rfl rfl rfl rfl
    (fun u => mem_identities_intent hintent _) rfl rfl

lemma reads_schemaIndexIntent {intent : SchemaIndexChangeSetIntent}
    (h : c.schemaIndexIntent checks txn intent = .ok c') :
    c.Reads (.schemaIndexIntent txn intent) c' := by
  simp only [schemaIndexIntent, check_eq_ok, bind_eq_ok, pure_eq_ok] at h
  obtain ⟨d, henter, -, -, -, -, hnone, rfl⟩ := h
  have hintent : (d.journal.composition txn).indexIntent = none := by
    simp only [Bool.or_eq_true, not_or, not_isSome_iff_eq_none] at hnone
    exact hnone.1.2
  exact reads_of_enter henter rfl rfl rfl rfl
    (fun u => mem_identities_indexIntent hintent _) rfl rfl

lemma enterTableObject_eq_ok (h : c.enterTableObject txn = .ok c') :
    c'.current = some txn ∧ c.Moves txn c' ∧
      (c' = c ∨ (c.lastTxn < txn ∧ c'.journal = c.journal.setComposition txn (.empty txn))) := by
  unfold enterTableObject at h
  split at h
  · rename_i hcurrent
    simp only [pure_eq_ok] at h
    exact h ▸ ⟨hcurrent, .inl ⟨rfl, rfl⟩, .inl rfl⟩
  rename_i hcurrent
  simp only [bind_eq_ok, pure_eq_ok] at h
  obtain ⟨d, henter, rfl⟩ := h
  obtain ⟨hjournal, hdcurrent, hmoves⟩ := enter_eq_ok henter
  have hfresh : c.lastTxn < txn := by
    rcases hmoves with ⟨hsame, -⟩ | ⟨-, -, hlt⟩
    · exact absurd (hsame ▸ hdcurrent) hcurrent
    · exact hlt
  exact ⟨hdcurrent, hmoves, .inr ⟨hfresh, by rw [← hjournal]; rfl⟩⟩

lemma reads_tableObjectIntent {intent : TableObjectChangeSetIntent}
    (h : c.tableObjectIntent checks txn intent = .ok c') :
    c.Reads (.tableObjectIntent txn intent) c' := by
  simp only [tableObjectIntent, check_eq_ok, bind_eq_ok, pure_eq_ok] at h
  obtain ⟨d, henter, -, -, -, m, hm, rfl⟩ := h
  obtain ⟨hcurrent, hmoves, hbase⟩ := enterTableObject_eq_ok henter
  obtain ⟨old, new, hold, hnew, rfl⟩ := amend_eq_ok.mp hm
  simp only [check_eq_ok, pure_eq_ok] at hnew
  obtain ⟨hnone, rfl⟩ := hnew
  have htable : old.tableIntent = none := by
    simp only [hasIntent, Bool.or_eq_true, not_or, not_isSome_iff_eq_none] at hnone
    exact hnone.1.2
  have hids := fun u => mem_identities_tableIntent (u := u) htable
    { intent with transaction := txn }
  rcases hbase with rfl | ⟨hfresh, hjournal⟩
  · refine ⟨hmoves, .compose old _ (SchemaMutationJournal.composes_setComposition _ _ _)
      (.inl ?_) (.inl hcurrent) hids .inl (fun _ => .inr rfl) (.inl rfl)⟩
    simp [SchemaMutationJournal.composition, JournalRecord.txn, hold]
  have hempty : old = .empty txn := by
    simp only [hjournal, SchemaMutationJournal.setComposition, TreeMap.getElem?_insert_self,
      some.injEq] at hold
    exact hold.symm
  have hcomposes := c.journal.composes_setComposition_twice txn (.empty txn)
    { old with tableIntent := some { intent with transaction := txn } }
  rw [← hjournal] at hcomposes
  exact ⟨hmoves, .compose old _ hcomposes (.inr ⟨rfl, hfresh, hempty⟩) (.inl hcurrent) hids .inl
    (fun _ => .inr rfl) (.inl rfl)⟩

/-- A record that changes flags of the current composition. -/
lemma reads_amendComposition {stray : String}
    {f : CompositionRecord → Except SchemaMutationError CompositionRecord}
    (hf : ∀ a b, f a = .ok b → Same a b) (hfamily : r.family = none)
    (h : c.amendComposition r.txn stray absent f = .ok c') : c.Reads r c' := by
  simp only [amendComposition, check_eq_ok, bind_eq_ok, pure_eq_ok] at h
  obtain ⟨hcurrent, m, hm, rfl⟩ := h
  obtain ⟨old, new, hold, hnew, rfl⟩ := amend_eq_ok.mp hm
  have hsame := hf old new hnew
  refine ⟨.inl ⟨rfl, rfl⟩, .compose old new (composes_setComposition _ _ _)
    (.inl ?_) (.inl (by simpa using hcurrent)) (fun u => ?_)
    (fun h => .inl (hsame.migration ▸ h)) (fun h => .inl (hsame.tableIntent ▸ h))
    (.inr (by simp [hold]))⟩
  · simp [composition, hold]
  · rw [hsame.identities, JournalRecord.identities_of_no_family hfamily]
    simp

lemma reads_compositionRetired (h : c.compositionRetired txn table = .ok c') :
    c.Reads (.compositionRetired txn table) c' := by
  refine reads_amendComposition (fun a b hab =>
    same_of_amendReplacement (fun x y hxy => ?_) hab) rfl h
  simp only [check_eq_ok, pure_eq_ok] at hxy
  obtain ⟨-, rfl⟩ := hxy
  rfl

lemma reads_compositionResolution {resolution : CompositionResolution}
    (h : c.compositionResolution txn resolution = .ok c') :
    c.Reads (.compositionResolution txn resolution) c' := by
  refine reads_amendComposition (fun a b hab => ?_) rfl h
  simp only [check_eq_ok, pure_eq_ok] at hab
  obtain ⟨-, rfl⟩ := hab
  exact ⟨rfl, rfl, rfl, rfl, rfl⟩

lemma reads_compositionGc (h : c.compositionGc txn table horizon manifestDigest = .ok c') :
    c.Reads (.compositionGc txn table horizon manifestDigest) c' := by
  refine reads_amendComposition (fun a b hab => ?_) rfl h
  simp only [check_eq_ok] at hab
  refine same_of_amendReplacement (fun x y hxy => ?_) hab.2
  simp only [check_eq_ok, pure_eq_ok] at hxy
  obtain ⟨-, rfl⟩ := hxy
  rfl

lemma reads_compositionGcComplete (h : c.compositionGcComplete txn table = .ok c') :
    c.Reads (.compositionGcComplete txn table) c' := by
  refine reads_amendComposition (fun a b hab =>
    same_of_amendReplacement (fun x y hxy => ?_) hab) rfl h
  simp only [bind_eq_ok, pure_eq_ok] at hxy
  obtain ⟨gc, -, rfl⟩ := hxy
  rfl

lemma reads_tableObjectRetired {kind : Nat} (h : c.tableObjectRetired txn kind table = .ok c') :
    c.Reads (.tableObjectRetired txn kind table) c' := by
  refine reads_amendComposition (fun a b hab =>
    same_of_amendTableObject (fun x y hxy => ?_) hab) rfl h
  cases x with
  | rewriteHeap replacement baseIndexes finalIndexes | dropHeap base retired gc =>
    simp only [check_eq_ok, pure_eq_ok] at hxy
    obtain ⟨-, -, rfl⟩ := hxy
    rfl
  | createHeap _ _ | inPlaceIndexDelta _ _ _ _ _ _ => simp at hxy

lemma reads_tableObjectGc (h : c.tableObjectGc txn table horizon manifestDigest = .ok c') :
    c.Reads (.tableObjectGc txn table horizon manifestDigest) c' := by
  refine reads_amendComposition (fun a b hab => ?_) rfl h
  simp only [check_eq_ok] at hab
  refine same_of_amendTableObject (fun x y hxy => ?_) hab.2
  simp only [check_eq_ok] at hxy
  exact participantStorage_of_setTableObjectGc hxy.2

lemma reads_tableObjectGcComplete (h : c.tableObjectGcComplete txn table = .ok c') :
    c.Reads (.tableObjectGcComplete txn table) c' := by
  refine reads_amendComposition (fun a b hab =>
    same_of_amendTableObject (fun x y hxy => ?_) hab) rfl h
  split at hxy
  · simp at hxy
  · simp only [guard_eq_ok] at hxy
    exact participantStorage_of_setTableObjectGc hxy.2

/-- One case for each kind of record. -/
lemma reads_of_read (h : c.read checks r = .ok c') : c.Reads r c' := by
  cases r with
  | reservation => exact reads_reservation h
  | createIntent => exact reads_createIntent h
  | resolution => exact reads_resolution h
  | drop => exact reads_drop h
  | dropRetired => exact reads_dropRetired h
  | dropResolution => exact reads_dropResolution h
  | gc => exact reads_gc h
  | gcComplete => exact reads_gcComplete h
  | rewriteReservation => exact reads_rewriteReservation h
  | rewriteIntent => exact reads_rewriteIntent h
  | rewriteRetired => exact reads_rewriteRetired h
  | rewriteResolution => exact reads_rewriteResolution h
  | compositionColumn => exact reads_compositionColumn h
  | compositionIntent => exact reads_compositionIntent h
  | compositionRetired => exact reads_compositionRetired h
  | compositionResolution => exact reads_compositionResolution h
  | compositionGc => exact reads_compositionGc h
  | compositionGcComplete => exact reads_compositionGcComplete h
  | compositionIndex => exact reads_compositionIndex h
  | schemaIndexIntent => exact reads_schemaIndexIntent h
  | compositionTable => exact reads_compositionTable h
  | tableObjectIntent => exact reads_tableObjectIntent h
  | tableObjectRetired => exact reads_tableObjectRetired h
  | tableObjectGc => exact reads_tableObjectGc h
  | tableObjectGcComplete => exact reads_tableObjectGcComplete h
  | migrationIndex =>
    simp only [read, pure_eq_ok] at h
    exact h ▸ reads_migrationIndex ..
  | stageResource | finalization | migrationFinalization | sourceBackfill =>
    simp only [read, stageResource, finalization, migrationFinalization, sourceBackfill,
      bind_eq_ok, pure_eq_ok] at h
    obtain ⟨m, -, rfl⟩ := h
    exact reads_quiet ⟨fun _ => rfl, fun _ => rfl, rfl, rfl⟩ rfl

end Cursor

end Netbadb.Schema
