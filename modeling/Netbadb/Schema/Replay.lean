import Netbadb.Schema.Reading

/-!
Reading a whole file. By induction on its records, a coherent file gives a sound
journal with exactly the identities of its records. The migration reservations
that a table-object intent could drop are not there: no transaction of a
coherent file has both.
-/

namespace Netbadb.Schema

open Std Outcome List SchemaMutationJournal

variable {α : Type} {a : α}

namespace SchemaMutationJournal

variable {j j' : SchemaMutationJournal} {txn : Nat} {u : Identity} {new : CompositionRecord}
  {r : Reservation}

section

variable (h : j.Quiet j')
include h

lemma Quiet.has (f : Family) (txn : Nat) : j'.Has f txn ↔ j.Has f txn := by
  cases f with
  | create =>
    have hsome := congrArg Option.isSome (h.reservations txn)
    rw [Option.isSome_map, Option.isSome_map] at hsome
    rw [Has, Has, hsome]
  | drop =>
    have hsome := congrArg Option.isSome (h.drops txn)
    rw [Option.isSome_map, Option.isSome_map] at hsome
    rw [Has, Has, hsome]
  | rewrite => simp [Has, h.rewriteReservations]
  | composition => simp [Has, h.compositions]

/-- The entry of the other journal with the same identities. -/
lemma Quiet.reservation (hr : j'.reservations[txn]? = some r) :
    ∃ r₀, j.reservations[txn]? = some r₀ ∧ r₀.transaction = r.transaction ∧
      r₀.identities = r.identities := by
  have hmap := h.reservations txn
  rw [hr, Option.map_some, eq_comm, Option.map_eq_some_iff] at hmap
  obtain ⟨r₀, hr₀, heq⟩ := hmap
  simp only [Prod.mk.injEq] at heq
  obtain ⟨htransaction, htable, hstorage⟩ := heq
  exact ⟨r₀, hr₀, htransaction, by rw [Reservation.identities, htable, hstorage]; rfl⟩

lemma Quiet.symm : j'.Quiet j :=
  ⟨fun txn => (h.reservations txn).symm, fun txn => (h.drops txn).symm,
    h.rewriteReservations.symm, h.compositions.symm⟩

lemma Quiet.uses_of_uses (hu : j'.Uses u) : j.Uses u := by
  obtain ⟨txn, r, hr, hu⟩ | ⟨txn, r, hr, hu⟩ | ⟨txn, c, hc, hu⟩ := hu
  · obtain ⟨r₀, hr₀, -, hids⟩ := h.reservation hr
    exact .inl ⟨txn, r₀, hr₀, hids ▸ hu⟩
  · exact .inr (.inl ⟨txn, r, h.rewriteReservations ▸ hr, hu⟩)
  · exact .inr (.inr ⟨txn, c, h.compositions ▸ hc, hu⟩)

lemma Quiet.uses : j'.Uses u ↔ j.Uses u := ⟨h.uses_of_uses, h.symm.uses_of_uses⟩

end

lemma Composes.has (h : j.Composes txn new j') (f : Family) (k : Nat) :
    j'.Has f k ↔ j.Has f k ∨ (f = .composition ∧ k = txn) := by
  cases f with
  | create => simp [Has, h.reservations]
  | drop => simp [Has, h.drops]
  | rewrite => simp [Has, h.rewriteReservations]
  | composition =>
    simp only [Has, h.compositions k]
    by_cases hk : txn = k
    · simp [hk]
    · simp [hk, Ne.symm hk]

/-- Only the identities of the composition that was there can be gone. -/
lemma Composes.uses (h : j.Composes txn new j') : j'.Uses u ↔ u ∈ new.identities ∨
      (∃ (k : Nat) (r : Reservation), j.reservations[k]? = some r ∧ u ∈ r.identities) ∨
      (∃ (k : Nat) (r : RewriteReservation),
        j.rewriteReservations[k]? = some r ∧ u ∈ r.identities) ∨
      ∃ (k : Nat) (c : CompositionRecord),
        k ≠ txn ∧ j.compositions[k]? = some c ∧ u ∈ c.identities := by
  simp only [Uses, h.reservations, h.rewriteReservations, h.compositions]
  constructor
  · rintro (hr | hr | ⟨k, c, hc, hu⟩)
    · exact .inr (.inl hr)
    · exact .inr (.inr (.inl hr))
    · by_cases hk : txn = k
      · rw [if_pos hk] at hc
        cases hc
        exact .inl hu
      · rw [if_neg hk] at hc
        exact .inr (.inr (.inr ⟨k, c, Ne.symm hk, hc, hu⟩))
  · rintro (hu | hr | hr | ⟨k, c, hk, hc, hu⟩)
    · exact .inr (.inr ⟨txn, new, if_pos rfl, hu⟩)
    · exact .inl hr
    · exact .inr (.inl hr)
    · exact .inr (.inr ⟨k, c, by rw [if_neg (Ne.symm hk)]; exact hc, hu⟩)

lemma exists_insert {m : TreeMap Nat α} {p : α → Prop} (hnone : m[txn]? = none) :
    (∃ (k : Nat) (b : α), (m.insert txn a)[k]? = some b ∧ p b) ↔
      (∃ (k : Nat) (b : α), m[k]? = some b ∧ p b) ∨ p a := by
  simp only [TreeMap.getElem?_insert, Nat.compare_eq_eq]
  constructor
  · rintro ⟨k, b, hb, hp⟩
    split at hb
    · cases hb
      exact .inr hp
    · exact .inl ⟨k, b, hb, hp⟩
  · rintro (⟨k, b, hb, hp⟩ | hp)
    · refine ⟨k, b, ?_, hp⟩
      rw [if_neg (by rintro rfl; simp [hnone] at hb), hb]
    · exact ⟨txn, a, by simp, hp⟩

lemma uses_insert_reservation (hnone : j.reservations[txn]? = none) :
    Uses { j with reservations := j.reservations.insert txn r } u ↔
      j.Uses u ∨ u ∈ r.identities := by
  simp only [Uses, exists_insert hnone]
  exact iff_of_eq (by ac_rfl)

lemma uses_insert_rewriteReservation {r : RewriteReservation}
    (hnone : j.rewriteReservations[txn]? = none) :
    Uses { j with rewriteReservations := j.rewriteReservations.insert txn r } u ↔
      j.Uses u ∨ u ∈ r.identities := by
  simp only [Uses, exists_insert hnone]
  exact iff_of_eq (by ac_rfl)

lemma composition_of_some {c : CompositionRecord} (h : j.compositions[txn]? = some c) :
    j.composition txn = c := by
  simp [composition, h]

/-- A fact that no empty composition has comes from a composition in the map. -/
lemma exists_of_composition {p : CompositionRecord → Prop} (h : p (j.composition txn))
    (hempty : ¬ p (.empty txn)) : ∃ c : CompositionRecord, j.compositions[txn]? = some c ∧ p c := by
  cases hc : j.compositions[txn]? with
  | none => exact absurd (by simpa [composition, hc] using h) hempty
  | some c => exact ⟨c, rfl, composition_of_some hc ▸ h⟩

/-- A composition that keeps what was there adds its own identities. -/
lemma Composes.uses_of_keeps (h : j.Composes txn new j') {extra : List Identity}
    (hids : ∀ u, u ∈ new.identities ↔ u ∈ (j.composition txn).identities ∨ u ∈ extra) :
    j'.Uses u ↔ j.Uses u ∨ u ∈ extra := by
  rw [h.uses, hids]
  constructor
  · rintro ((hu | hu) | hr | hr | ⟨k, c, -, hc, hu⟩)
    · cases hc : j.compositions[txn]? with
      | none => simp [composition, hc] at hu
      | some c => exact .inl (.inr (.inr ⟨txn, c, hc, composition_of_some hc ▸ hu⟩))
    · exact .inr hu
    · exact .inl (.inl hr)
    · exact .inl (.inr (.inl hr))
    · exact .inl (.inr (.inr ⟨k, c, hc, hu⟩))
  · rintro ((hr | hr | ⟨k, c, hc, hu⟩) | hu)
    · exact .inr (.inl hr)
    · exact .inr (.inr (.inl hr))
    · by_cases hk : k = txn
      · subst hk
        exact .inl (.inl (composition_of_some hc ▸ hu))
      · exact .inr (.inr (.inr ⟨k, c, hk, hc, hu⟩))
    · exact .inl (.inr hu)

end SchemaMutationJournal

namespace Cursor

variable {checks : Checks} {c c' : Cursor} {file : List JournalRecord} {r : JournalRecord}
  {u : Identity} {txn k : Nat} {m : TreeMap Nat α}

/-- What the cursor keeps while it reads a file: every entry comes from a
record of the file, and the transactions read so far are at most the last one,
but for compositions that only have migration reservations. -/
structure Follows (file : List JournalRecord) (c : Cursor) : Prop where
  current : ∀ txn, c.current = some txn → txn ≤ c.lastTxn
  reservations_keyed : ∀ (txn : Nat) (r : Reservation),
    c.journal.reservations[txn]? = some r → r.transaction = txn
  drops_keyed : ∀ (txn : Nat) (d : DropIntent),
    c.journal.drops[txn]? = some d → d.transaction = txn
  rewrites_keyed : ∀ (txn : Nat) (r : RewriteReservation),
    c.journal.rewriteReservations[txn]? = some r → r.transaction = txn
  family : ∀ f txn, c.journal.Has f txn → ∃ r ∈ file, r.txn = txn ∧ r.family = some f
  last : ∀ f txn, c.journal.Has f txn → txn ≤ c.lastTxn ∨
    (f = .composition ∧ ∃ r ∈ file, r.txn = txn ∧ r.isMigration = true)
  migration : ∀ (txn : Nat) (d : CompositionRecord), c.journal.compositions[txn]? = some d →
    d.migrationIndexReservations ≠ [] → ∃ r ∈ file, r.txn = txn ∧ r.isMigration = true
  tableObject : ∀ (txn : Nat) (d : CompositionRecord), c.journal.compositions[txn]? = some d →
    d.tableIntent.isSome → ∃ r ∈ file, r.txn = txn ∧ r.isTableObject = true

lemma follows_start (file : List JournalRecord) : Follows file start := by
  have hnone : ∀ f txn, ¬ start.journal.Has f txn := by
    intro f txn
    cases f <;> simp [Has, start, empty]
  refine ⟨by simp [start], ?_, ?_, ?_, fun f txn h => absurd h (hnone f txn),
    fun f txn h => absurd h (hnone f txn), ?_, ?_⟩ <;>
  · intro txn r h
    simp [start, empty] at h

lemma Moves.last_le (h : c.Moves txn c') : c.lastTxn ≤ c'.lastTxn := by
  rcases h with ⟨-, h⟩ | ⟨-, h, hlt⟩ <;> omega

lemma Moves.current_le (h : c.Moves txn c') (hcurrent : ∀ t, c.current = some t → t ≤ c.lastTxn)
    (t : Nat) (ht : c'.current = some t) :
    t ≤ c'.lastTxn := by
  rcases h with ⟨hsame, hlast⟩ | ⟨hnew, hlast, -⟩
  · rw [hlast]
    exact hcurrent t (hsame ▸ ht)
  · rw [hnew] at ht
    cases ht
    exact hlast.ge

section Entries

variable (h : Follows file c) (hmem : r ∈ file) (hmoves : c.Moves r.txn c')
  (hreservations : ∀ (txn : Nat) (r : Reservation),
    c'.journal.reservations[txn]? = some r → r.transaction = txn)
  (hdrops : ∀ (txn : Nat) (d : DropIntent),
    c'.journal.drops[txn]? = some d → d.transaction = txn)
  (hrewrites : ∀ (txn : Nat) (r : RewriteReservation),
    c'.journal.rewriteReservations[txn]? = some r → r.transaction = txn)
  (hhas : ∀ f txn, c'.journal.Has f txn →
    c.journal.Has f txn ∨ (r.txn = txn ∧ r.family = some f))
  (hcurrent : r.family ≠ none → c'.current = some r.txn ∨ r.isMigration = true)
include h hmem hmoves hreservations hdrops hrewrites hhas hcurrent

/-- One record keeps what the cursor follows when its new entries are the
record's own. -/
lemma Follows.of_entries
    (hmigration : ∀ (txn : Nat) (d : CompositionRecord), c'.journal.compositions[txn]? = some d →
      d.migrationIndexReservations ≠ [] →
        (∃ d₀ : CompositionRecord, c.journal.compositions[txn]? = some d₀ ∧
          d₀.migrationIndexReservations ≠ []) ∨ (r.txn = txn ∧ r.isMigration = true))
    (htable : ∀ (txn : Nat) (d : CompositionRecord), c'.journal.compositions[txn]? = some d →
      d.tableIntent.isSome →
        (∃ d₀ : CompositionRecord, c.journal.compositions[txn]? = some d₀ ∧
          d₀.tableIntent.isSome) ∨ (r.txn = txn ∧ r.isTableObject = true)) : Follows file c' where
  current := hmoves.current_le h.current
  reservations_keyed := hreservations
  drops_keyed := hdrops
  rewrites_keyed := hrewrites
  family f txn hf := by
    rcases hhas f txn hf with hold | ⟨rfl, hfamily⟩
    · exact h.family f txn hold
    · exact ⟨r, hmem, rfl, hfamily⟩
  last f txn hf := by
    rcases hhas f txn hf with hold | ⟨rfl, hfamily⟩
    · exact (h.last f txn hold).imp_left fun hle => hle.trans hmoves.last_le
    rcases hcurrent (by simp [hfamily]) with hcur | hmig
    · exact .inl (hmoves.current_le h.current _ hcur)
    · rw [JournalRecord.family_of_isMigration hmig] at hfamily
      cases hfamily
      exact .inr ⟨rfl, r, hmem, rfl, hmig⟩
  migration txn d hd hne := by
    rcases hmigration txn d hd hne with ⟨d₀, hd₀, hne₀⟩ | ⟨rfl, hmig⟩
    · exact h.migration txn d₀ hd₀ hne₀
    · exact ⟨r, hmem, rfl, hmig⟩
  tableObject txn d hd hsome := by
    rcases htable txn d hd hsome with ⟨d₀, hd₀, hsome₀⟩ | ⟨rfl, htab⟩
    · exact h.tableObject txn d₀ hd₀ hsome₀
    · exact ⟨r, hmem, rfl, htab⟩

/-- A record that leaves the compositions alone. -/
lemma Follows.of_compositions (hsame : c'.journal.compositions = c.journal.compositions) :
    Follows file c' := by
  refine h.of_entries hmem hmoves hreservations hdrops hrewrites hhas hcurrent ?_ ?_ <;> rw [hsame]
  · exact fun txn d hd hne => .inl ⟨d, hd, hne⟩
  · exact fun txn d hd hsome => .inl ⟨d, hd, hsome⟩

end Entries

/-- A transaction above the last one has no history of the first formats. -/
lemma Follows.fresh (h : Follows file c) {f : Family} (hf : f ≠ .composition)
    (hfresh : c.lastTxn < txn) : ¬ c.journal.Has f txn := by
  intro hhas
  rcases h.last f txn hhas with hle | ⟨hcomposition, -⟩
  · omega
  · exact hf hcomposition

/-- A table-object intent that opens its transaction finds no composition: one
above the last transaction would come from migration reservations. -/
lemma Follows.composition_fresh (h : Follows file c) (hcoherent : Coherent file)
    (hmem : r ∈ file) (htable : r.isTableObject = true) (hfresh : c.lastTxn < r.txn) :
    c.journal.composition r.txn = .empty r.txn := by
  cases hd : c.journal.compositions[r.txn]? with
  | none => simp [composition, hd]
  | some d =>
    have hhas : c.journal.Has .composition r.txn := by simp [Has, hd]
    rcases h.last _ _ hhas with hle | ⟨-, m, hm, htxn, hmigration⟩
    · omega
    · rw [hcoherent.separate m hm r hmem htxn hmigration] at htable
      cases htable

lemma getElem?_insert_eq {b : α} (h : (m.insert txn a)[k]? = some b) :
    (txn = k ∧ a = b) ∨ m[k]? = some b := by
  rw [TreeMap.getElem?_insert] at h
  split at h
  · next hk => exact .inl ⟨Nat.compare_eq_eq.mp hk, by simpa using h⟩
  · exact .inr h

lemma isSome_of_insert (h : ((m.insert txn a)[k]?).isSome) : (m[k]?).isSome ∨ txn = k := by
  obtain ⟨b, hb⟩ := Option.isSome_iff_exists.mp h
  rcases getElem?_insert_eq hb with ⟨hk, -⟩ | hold
  · exact .inr hk
  · exact .inl (by simp [hold])

section Reads

variable (h : Follows file c) (hmem : r ∈ file) (hmoves : c.Moves r.txn c')
include h hmem hmoves

lemma Follows.quiet (hquiet : c.journal.Quiet c'.journal) (hfamily : r.family = none) :
    Follows file c' := by
  refine h.of_compositions hmem hmoves ?_ ?_ (hquiet.rewriteReservations ▸ h.rewrites_keyed)
    (fun f txn hf => .inl ((hquiet.has f txn).mp hf)) (fun hne => absurd hfamily hne)
    hquiet.compositions
  · intro txn x hx
    obtain ⟨x₀, hx₀, htransaction, -⟩ := hquiet.reservation hx
    exact htransaction ▸ h.reservations_keyed txn x₀ hx₀
  · intro txn d hd
    have hmap := hquiet.drops txn
    rw [hd, Option.map_some, eq_comm, Option.map_eq_some_iff] at hmap
    obtain ⟨d₀, hd₀, htransaction⟩ := hmap
    exact htransaction ▸ h.drops_keyed txn d₀ hd₀

variable (hcurrent : c'.current = some r.txn)
include hcurrent

lemma Follows.create {new : Reservation} (hkey : new.transaction = r.txn)
    (hfamily : r.family = some .create) (hjournal : c'.journal =
      { c.journal with reservations := c.journal.reservations.insert r.txn new }) :
    Follows file c' := by
  refine h.of_compositions hmem hmoves ?_ ?_ ?_ ?_ (fun _ => .inl hcurrent) (by rw [hjournal]) <;>
    rw [hjournal]
  · intro txn x hx
    rcases getElem?_insert_eq hx with ⟨rfl, rfl⟩ | hold
    · exact hkey
    · exact h.reservations_keyed txn x hold
  · exact h.drops_keyed
  · exact h.rewrites_keyed
  · intro f txn hf
    cases f with
    | create => exact (isSome_of_insert hf).imp_right fun hk => ⟨hk, hfamily⟩
    | drop | rewrite | composition => exact .inl hf

lemma Follows.drop {new : DropIntent} (hkey : new.transaction = r.txn)
    (hfamily : r.family = some .drop)
    (hjournal : c'.journal = { c.journal with drops := c.journal.drops.insert r.txn new }) :
    Follows file c' := by
  refine h.of_compositions hmem hmoves ?_ ?_ ?_ ?_ (fun _ => .inl hcurrent) (by rw [hjournal]) <;>
    rw [hjournal]
  · exact h.reservations_keyed
  · intro txn x hx
    rcases getElem?_insert_eq hx with ⟨rfl, rfl⟩ | hold
    · exact hkey
    · exact h.drops_keyed txn x hold
  · exact h.rewrites_keyed
  · intro f txn hf
    cases f with
    | create | rewrite | composition => exact .inl hf
    | drop => exact (isSome_of_insert hf).imp_right fun hk => ⟨hk, hfamily⟩

lemma Follows.rewrite {new : RewriteReservation} (hkey : new.transaction = r.txn)
    (hfamily : r.family = some .rewrite) (hjournal : c'.journal = { c.journal with
      rewriteReservations := c.journal.rewriteReservations.insert r.txn new }) :
    Follows file c' := by
  refine h.of_compositions hmem hmoves ?_ ?_ ?_ ?_ (fun _ => .inl hcurrent) (by rw [hjournal]) <;>
    rw [hjournal]
  · exact h.reservations_keyed
  · exact h.drops_keyed
  · intro txn x hx
    rcases getElem?_insert_eq hx with ⟨rfl, rfl⟩ | hold
    · exact hkey
    · exact h.rewrites_keyed txn x hold
  · intro f txn hf
    cases f with
    | create | drop | composition => exact .inl hf
    | rewrite => exact (isSome_of_insert hf).imp_right fun hk => ⟨hk, hfamily⟩

omit hcurrent in
lemma Follows.compose {new : CompositionRecord} (hjournal : c.journal.Composes r.txn new c'.journal)
    (hcurrent : c'.current = some r.txn ∨ r.isMigration = true)
    (hmigration : new.migrationIndexReservations ≠ [] →
      (c.journal.composition r.txn).migrationIndexReservations ≠ [] ∨ r.isMigration = true)
    (htable : new.tableIntent.isSome →
      (c.journal.composition r.txn).tableIntent.isSome ∨ r.isTableObject = true)
    (hfamily : r.family = some .composition ∨ (c.journal.compositions[r.txn]?).isSome) :
    Follows file c' := by
  refine h.of_entries hmem hmoves (hjournal.reservations ▸ h.reservations_keyed)
    (hjournal.drops ▸ h.drops_keyed) (hjournal.rewriteReservations ▸ h.rewrites_keyed) ?_
    (fun _ => hcurrent) ?_ ?_
  · intro f txn hf
    rcases (hjournal.has f txn).mp hf with hf | ⟨rfl, rfl⟩
    · exact .inl hf
    · exact hfamily.symm.imp id fun hfamily => ⟨rfl, hfamily⟩
  · intro txn d hd hne
    rw [hjournal.compositions] at hd
    split at hd
    · rename_i hk
      cases hd
      subst hk
      refine (hmigration hne).imp (fun hne => ?_) fun hmig => ⟨rfl, hmig⟩
      exact exists_of_composition hne (by simp [CompositionRecord.empty])
    · exact .inl ⟨d, hd, hne⟩
  · intro txn d hd hsome
    rw [hjournal.compositions] at hd
    split at hd
    · rename_i hk
      cases hd
      subst hk
      refine (htable hsome).imp (fun hsome => ?_) fun htab => ⟨rfl, htab⟩
      exact exists_of_composition hsome
        (by simp [CompositionRecord.empty])
    · exact .inl ⟨d, hd, hsome⟩

end Reads

/-- Reading a record adds its identities, one case for each kind of effect. -/
lemma Follows.reads (h : Follows file c) (hcoherent : Coherent file) (hmem : r ∈ file)
    (hreads : c.Reads r c') :
    Follows file c' ∧ ∀ u, c'.journal.Uses u ↔ c.journal.Uses u ∨ u ∈ r.identities := by
  obtain ⟨hmoves, heffect⟩ := hreads
  cases heffect with
  | quiet hquiet hfamily =>
    refine ⟨h.quiet hmem hmoves hquiet hfamily, fun u => ?_⟩
    rw [hquiet.uses, JournalRecord.identities_of_no_family hfamily]
    simp
  | create new hfresh hcurrent hkey hids hfamily hjournal =>
    have hnone : c.journal.reservations[r.txn]? = none := by
      simpa [Has] using h.fresh (by decide : Family.create ≠ .composition) hfresh
    refine ⟨h.create hmem hmoves hcurrent hkey hfamily hjournal, fun u => ?_⟩
    rw [hjournal, uses_insert_reservation hnone, hids]
  | drop new hfresh hcurrent hkey hids hfamily hjournal =>
    refine ⟨h.drop hmem hmoves hcurrent hkey hfamily hjournal, fun u => ?_⟩
    rw [hjournal, hids]
    simp [Uses]
  | rewrite new hfresh hcurrent hkey hids hfamily hjournal =>
    have hnone : c.journal.rewriteReservations[r.txn]? = none := by
      simpa [Has] using h.fresh (by decide : Family.rewrite ≠ .composition) hfresh
    refine ⟨h.rewrite hmem hmoves hcurrent hkey hfamily hjournal, fun u => ?_⟩
    rw [hjournal, uses_insert_rewriteReservation hnone, hids]
  | compose old new hjournal hold hcurrent hids hmigration htable hfamily =>
    have hold : old = c.journal.composition r.txn := by
      rcases hold with hold | ⟨htableObject, hfresh, hempty⟩
      · exact hold
      · rw [hempty, h.composition_fresh hcoherent hmem htableObject hfresh]
    subst hold
    exact ⟨h.compose hmem hmoves hjournal hcurrent hmigration htable hfamily,
      fun u => hjournal.uses_of_keeps hids⟩

/-- Reading the rest of a file adds exactly the identities of its records. -/
lemma Follows.foldlM (hcoherent : Coherent file) {rest : List JournalRecord} {c c' : Cursor}
    (hrest : rest ⊆ file) (h : Follows file c) (hrun : rest.foldlM (step checks) c = .ok c') :
    Follows file c' ∧ ∀ u, c'.journal.Uses u ↔
      c.journal.Uses u ∨ ∃ r ∈ rest, u ∈ r.identities := by
  induction rest generalizing c with
  | nil =>
    rw [foldlM_nil, pure_eq_ok] at hrun
    exact hrun ▸ ⟨h, fun u => by simp⟩
  | cons r rest ih =>
    rw [foldlM_cons, bind_eq_ok] at hrun
    obtain ⟨d, hd, hrun⟩ := hrun
    simp only [step, check_eq_ok] at hd
    obtain ⟨hfollows, huses⟩ := h.reads hcoherent (hrest mem_cons_self) (reads_of_read hd.2)
    obtain ⟨hfollows', huses'⟩ := ih (fun x hx => hrest (mem_cons_of_mem r hx)) hfollows hrun
    refine ⟨hfollows', fun u => ?_⟩
    rw [huses', huses]
    simp [exists_eq_or_imp, or_assoc]

end Cursor

namespace SchemaMutationJournal

variable {checks : Checks} {j : SchemaMutationJournal} {file : List JournalRecord} {u : Identity}

/-- A coherent file is read back as a sound journal with the identities of its
records, no more and no fewer. -/
lemma sound_of_decode (hcoherent : Coherent file) (h : decode checks file = .ok j) :
    j.Sound ∧ ∀ u, j.Uses u ↔ ∃ r ∈ file, u ∈ r.identities := by
  simp only [decode, bind_eq_ok, pure_eq_ok] at h
  obtain ⟨_, -, c, hrun, _, hchecked, _, -, rfl⟩ := h
  obtain ⟨hfollows, huses⟩ :=
    Cursor.Follows.foldlM hcoherent (List.Subset.refl file) (Cursor.follows_start file) hrun
  refine ⟨⟨hfollows.reservations_keyed, hfollows.drops_keyed, hfollows.rewrites_keyed, ?_, ?_⟩,
    fun u => ?_⟩
  · intro txn f g hf hg
    obtain ⟨a, ha, hatxn, hafamily⟩ := hfollows.family f txn hf
    obtain ⟨b, hb, hbtxn, hbfamily⟩ := hfollows.family g txn hg
    exact hcoherent.family a ha b hb (hatxn.trans hbtxn.symm) f g hafamily hbfamily
  · intro txn d hd
    by_cases hnil : d.migrationIndexReservations = []
    · exact .inl hnil
    obtain ⟨m, hm, hmtxn, hmigration⟩ := hfollows.migration txn d hd hnil
    have htable : d.tableIntent = none := by
      by_contra hne
      obtain ⟨t, ht, httxn, htableObject⟩ :=
        hfollows.tableObject txn d hd (Option.isSome_iff_ne_none.mpr hne)
      rw [hcoherent.separate m hm t ht (hmtxn.trans httxn.symm) hmigration] at htableObject
      cases htableObject
    refine .inr ⟨htable, ?_⟩
    have hcheck := forM_eq_ok.mp hchecked d (mem_map.mpr
      ⟨(txn, d), TreeMap.mem_toList_iff_getElem?_eq_some.mpr hd, rfl⟩)
    simp only [checkComposition, check_eq_ok, CompositionRecord.hasIntent, htable] at hcheck
    have hintent := hcheck.1
    simp only [Option.isSome_none, Bool.or_false, Bool.and_eq_true, Bool.not_eq_true', not_and,
      Bool.not_eq_false] at hintent
    simpa using hintent (by simpa using hnil)
  · refine (huses u).trans ?_
    simp [Cursor.start, empty, Uses]

end SchemaMutationJournal

end Netbadb.Schema
