import Netbadb.Lsm.Record

/-!
The change set of an open transaction. Each row keeps at most one change: later
changes of a row rewrite the first in place, and an insert that is deleted again
leaves a hole that a compaction drops. The index finds a row by its newest
version. Hash maps are functions with finite support, and an index that was
never allocated is the empty one.
-/

namespace Netbadb.ChangeStream

open List Lsm Function

inductive StorageVersionKey where
  | heap (storageId : StorageId) (rowId : RowId)
  | lsm (storageId : StorageId) (rowId : LsmRowId) (version : LsmCommitSeq)
  deriving DecidableEq

abbrev Row := List ScalarValue

abbrev Rows := StorageVersionKey → Option Row
abbrev Index := StorageVersionKey → Option Nat

inductive StorageChange where
  | insert (newVersion : StorageVersionKey) (after : Row)
  | update (oldVersion newVersion : StorageVersionKey) (after : Row)
  | delete (oldVersion : StorageVersionKey)
  deriving DecidableEq

structure PendingChangeSet where
  mutations : List StorageChange
  currentVersions : Index
  removed : Finset Nat

namespace StorageChange

@[grind =]
def newVersion? : StorageChange → Option StorageVersionKey
  | insert new _ | update _ new _ => some new
  | delete _ => none

@[grind =]
def oldVersion? : StorageChange → Option StorageVersionKey
  | update old _ _ | delete old => some old
  | insert _ _ => none

end StorageChange

namespace PendingChangeSet

def new : PendingChangeSet := ⟨[], fun _ => none, ∅⟩

def recordInsert (s : PendingChangeSet) (new : StorageVersionKey) (after : Row) :
    PendingChangeSet :=
  { s with
    currentVersions := update s.currentVersions new (some s.mutations.length)
    mutations := s.mutations ++ [.insert new after] }

def recordUpdate (s : PendingChangeSet) (old new : StorageVersionKey) (after : Row) :
    PendingChangeSet :=
  match s.currentVersions old with
  | some position =>
    let index := update s.currentVersions old none
    match s.mutations[position]? with
    | some (.insert _ _) =>
      { s with
        mutations := s.mutations.set position (.insert new after)
        currentVersions := update index new (some position) }
    | some (.update first _ _) =>
      { s with
        mutations := s.mutations.set position (.update first new after)
        currentVersions := update index new (some position) }
    | _ => { s with currentVersions := index }
  | none =>
    { s with
      currentVersions := update s.currentVersions new (some s.mutations.length)
      mutations := s.mutations ++ [.update old new after] }

/-- The changes outside the holes, in their order. -/
def retained (s : PendingChangeSet) : List StorageChange :=
  (s.mutations.zipIdx.filter fun e => e.2 ∉ s.removed).map Prod.fst

def indexAt (index : Index) (change : StorageChange) (position : Nat) : Index :=
  match change.newVersion? with
  | some new => update index new (some position)
  | none => index

/-- The index built anew from the positions of a vector without holes. -/
def reindex (mutations : List StorageChange) : Index :=
  mutations.zipIdx.foldl (fun index e => indexAt index e.1 e.2) fun _ => none

def compact (s : PendingChangeSet) : PendingChangeSet :=
  if s.removed = ∅ then s else ⟨s.retained, reindex s.retained, ∅⟩

def recordDelete (s : PendingChangeSet) (old : StorageVersionKey) : PendingChangeSet :=
  match s.currentVersions old with
  | some position =>
    let s' := { s with currentVersions := update s.currentVersions old none }
    match s.mutations[position]? with
    | some (.insert _ _) =>
      let s' := { s' with
        mutations := s.mutations.set position (.delete old)
        removed := s.removed ∪ {position} }
      if s'.mutations.length / 2 < s'.removed.card then s'.compact else s'
    | some (.update first _ _) | some (.delete first) =>
      { s' with mutations := s.mutations.set position (.delete first) }
    | none => s'
  | none => { s with mutations := s.mutations ++ [.delete old] }

def asSlice (s : PendingChangeSet) : List StorageChange := s.compact.mutations

/-- One call; a call is named by the change it asks for. -/
def record (s : PendingChangeSet) : StorageChange → PendingChangeSet
  | .insert new after => s.recordInsert new after
  | .update old new after => s.recordUpdate old new after
  | .delete old => s.recordDelete old

end PendingChangeSet

open PendingChangeSet (retained indexAt reindex)

variable {s : PendingChangeSet} {c c' d : StorageChange} {p : Nat} {k : StorageVersionKey}
  {index : Index} {removed : Finset Nat} {hole : Prop}

lemma mem_retained : c ∈ s.retained ↔ ∃ p, p ∉ s.removed ∧ s.mutations[p]? = some c := by
  simp only [retained, mem_map, mem_filter, Prod.exists, mem_zipIdx_iff_getElem?]
  grind

lemma indexAt_apply : indexAt index c p k = if c.newVersion? = some k then some p else index k := by
  cases h : c.newVersion? with
  | none => simp [indexAt, h]
  | some new => simp [indexAt, h, update_apply, eq_comm]

/-- The index holds the newest version of every retained change, and nothing else. -/
structure Indexed (s : PendingChangeSet) : Prop where
  index : ∀ k p, s.currentVersions k = some p ↔
    p ∉ s.removed ∧ ∃ c, s.mutations[p]? = some c ∧ c.newVersion? = some k
  bound : ∀ p ∈ s.removed, p < s.mutations.length

lemma Indexed.push (h : Indexed s) (hnew : ∀ k, c.newVersion? = some k →
      s.currentVersions k = none) :
    Indexed ⟨s.mutations ++ [c], indexAt s.currentVersions c s.mutations.length, s.removed⟩ := by
  obtain ⟨hindex, hbound⟩ := h
  refine ⟨fun k p => ?_, by grind⟩
  simp only [indexAt_apply]
  grind

/-- The change at a position is replaced, and the position may become a hole. -/
lemma Indexed.set (h : Indexed s) (hk : s.currentVersions k = some p)
    (hr : ∀ q, q ∈ removed ↔ q ∈ s.removed ∨ hole ∧ q = p) (hc : hole → c.newVersion? = none)
    (hnew : ∀ k, c.newVersion? = some k → s.currentVersions k = none) :
    Indexed ⟨s.mutations.set p c, indexAt (update s.currentVersions k none) c p,
      removed⟩ := by
  obtain ⟨hindex, hbound⟩ := h
  refine ⟨fun k q => ?_, by grind⟩
  simp only [indexAt_apply, hr]
  grind

lemma retained_pairwise (h : Indexed s) :
    s.retained.Pairwise fun c c' => ∀ k, c.newVersion? = some k → c'.newVersion? ≠ some k := by
  obtain ⟨hindex, -⟩ := h
  rw [retained, pairwise_map, pairwise_filter, pairwise_iff_getElem]
  intro i j hi hj hij hb hb' k hk hk'
  have hati := (hindex k i).mpr
  have hatj := (hindex k j).mpr
  grind

lemma reindex_iff (l : List StorageChange)
    (h : l.Pairwise fun c c' => ∀ k, c.newVersion? = some k → c'.newVersion? ≠ some k) :
    reindex l k = some p ↔ ∃ c, l[p]? = some c ∧ c.newVersion? = some k := by
  induction l using reverseRecOn with
  | nil => simp [reindex]
  | append_singleton l c ih =>
    have hstep : reindex (l ++ [c]) = indexAt (reindex l) c l.length := by
      simp [reindex, zipIdx_append]
    rw [hstep, indexAt_apply]
    grind

lemma Indexed.compact (h : Indexed s) : Indexed s.compact := by
  unfold PendingChangeSet.compact
  split
  · exact h
  · refine ⟨fun k p => ?_, by simp⟩
    simp [reindex_iff _ (retained_pairwise h)]

lemma retained_eq_mutations (h : s.removed = ∅) : s.retained = s.mutations := by
  simp [retained, h]

@[simp]
lemma retained_compact : s.compact.retained = s.retained := by
  unfold PendingChangeSet.compact
  split
  · rfl
  · exact retained_eq_mutations rfl

lemma asSlice_eq_retained : s.asSlice = s.retained := by
  unfold PendingChangeSet.asSlice PendingChangeSet.compact
  split
  case isTrue h => exact (retained_eq_mutations h).symm
  · rfl

lemma retained_sublist : s.retained <+ s.mutations := by
  have h := (filter_sublist (p := fun e => decide (e.2 ∉ s.removed))
    (l := s.mutations.zipIdx)).map Prod.fst
  rwa [zipIdx_map_fst] at h

lemma mem_retained_push (h : Indexed s) :
    c' ∈ retained ⟨s.mutations ++ [c], index, s.removed⟩ ↔ c' ∈ s.retained ∨ c' = c := by
  have hlast : s.mutations.length ∉ s.removed := fun hp => (h.bound _ hp).false
  simp only [mem_retained]
  grind

lemma Indexed.eq_of_newVersion (h : Indexed s) (hk : s.currentVersions k = some p)
    {q : Nat} (hq : q ∉ s.removed) (hc : s.mutations[q]? = some c)
    (hnew : c.newVersion? = some k) : q = p := by
  have hat := (h.index k q).mpr ⟨hq, c, hc, hnew⟩
  exact Option.some.inj (hat.symm.trans hk)

lemma mem_retained_set (h : Indexed s) (hk : s.currentVersions k = some p)
    (hr : ∀ q, q ∈ removed ↔ q ∈ s.removed ∨ hole ∧ q = p) (hd : s.mutations[p]? = some d) :
    c' ∈ retained ⟨s.mutations.set p c, index, removed⟩ ↔
      ¬hole ∧ c' = c ∨ c' ∈ s.retained ∧ c' ≠ d := by
  obtain ⟨hp, e, he, hnew⟩ := (h.index k p).mp hk
  have huniq := @h.eq_of_newVersion s d p k hk
  simp only [mem_retained, hr]
  grind

/-- The version a change names first: the new one of an insert, else the old one. -/
@[grind =]
def StorageChange.key : StorageChange → StorageVersionKey
  | .insert new _ => new
  | .update old _ _ | .delete old => old

@[grind =]
def StorageChange.written? : StorageChange → Option (StorageVersionKey × Row)
  | .insert new after | .update _ new after => some (new, after)
  | .delete _ => none

def StorageChange.apply (rows : Rows) : StorageChange → Rows
  | .insert new after => Function.update rows new (some after)
  | .update old new after => Function.update (Function.update rows old none) new (some after)
  | .delete old => Function.update rows old none

variable {base rows : Rows} {r : Row}

lemma apply_eq_some : c.apply rows k = some r ↔ c.written? = some (k, r) ∨
    (rows k = some r ∧ c.oldVersion? ≠ some k ∧ c.newVersion? ≠ some k) := by
  cases c <;> simp only [StorageChange.apply, update_apply] <;> grind

@[grind →]
lemma newVersion?_of_written? (h : c.written? = some (k, r)) : c.newVersion? = some k := by
  cases c <;> grind

/-- Changes that never touch what an earlier one wrote: every write stays. -/
lemma foldl_apply_eq_some (l : List StorageChange)
    (h : l.Pairwise fun c c' => ∀ k, c.newVersion? = some k →
      c'.oldVersion? ≠ some k ∧ c'.newVersion? ≠ some k) :
    l.foldl StorageChange.apply rows k = some r ↔ (∃ c ∈ l, c.written? = some (k, r)) ∨
      (rows k = some r ∧ ∀ c ∈ l, c.oldVersion? ≠ some k ∧ c.newVersion? ≠ some k) := by
  induction l generalizing rows with
  | nil => simp
  | cons c l ih =>
    obtain ⟨hc, hl⟩ := pairwise_cons.mp h
    rw [foldl_cons, ih hl, apply_eq_some]
    grind

/-- The calls of a transaction as its rows see them: the rows now, the versions ever used,
the first version of each version's row, and the rows in the order of their first touch. -/
structure Trace where
  rows : Rows
  known : StorageVersionKey → Bool
  origin : StorageVersionKey → StorageVersionKey
  touched : List StorageVersionKey

namespace Trace

variable {t : Trace} {c : StorageChange} {k : StorageVersionKey}

def start (base : Rows) : Trace := ⟨base, fun k => (base k).isSome, id, []⟩

def rowOf (t : Trace) (c : StorageChange) : StorageVersionKey := t.origin c.key

def originAfter (t : Trace) : StorageChange → StorageVersionKey → StorageVersionKey
  | .insert new _ => update t.origin new new
  | .update old new _ => update t.origin new (t.origin old)
  | .delete _ => t.origin

def step (t : Trace) (c : StorageChange) : Trace where
  rows := c.apply t.rows
  known k := t.known k || c.newVersion? = some k
  origin := t.originAfter c
  touched :=
    let row := t.originAfter c c.key
    if row ∈ t.touched then t.touched else t.touched ++ [row]

lemma step_known : (t.step c).known k ↔ t.known k ∨ c.newVersion? = some k := by
  simp [step]

lemma originAfter_of_ne (h : c.newVersion? ≠ some k) : t.originAfter c k = t.origin k := by
  cases c <;> simp only [originAfter] <;> grind

lemma originAfter_newVersion (h : c.newVersion? = some k) :
    t.originAfter c k = t.originAfter c c.key := by
  cases c <;> simp only [originAfter] <;> grind

/-- The new version is fresh and the old one is live. -/
def Allows (t : Trace) (c : StorageChange) : Prop :=
  (∀ k, c.newVersion? = some k → t.known k = false) ∧
    ∀ k, c.oldVersion? = some k → t.rows k ≠ none

def Admits : Trace → List StorageChange → Prop
  | _, [] => True
  | t, c :: calls => t.Allows c ∧ (t.step c).Admits calls

end Trace

/-- The change set of a transaction, against the calls made so far. -/
structure Coalesced (base : Rows) (t : Trace) (s : PendingChangeSet) : Prop where
  indexed : Indexed s
  olds : ∀ c ∈ s.retained, ∀ k, c.oldVersion? = some k → base k ≠ none
  news : ∀ c ∈ s.retained, ∀ k, c.newVersion? = some k →
    base k = none ∧ t.known k ∧ t.origin k = t.rowOf c
  rows : ∀ k r, t.rows k = some r ↔ (∃ c ∈ s.retained, c.written? = some (k, r)) ∨
    (base k = some r ∧ ∀ c ∈ s.retained, c.oldVersion? ≠ some k)
  base_known : ∀ k, base k ≠ none → t.known k ∧ t.origin k = k
  order : s.mutations.map t.rowOf <+ t.touched
  nodup : t.touched.Nodup
  keys : ∀ c ∈ s.mutations, t.known c.key
  touched : ∀ k ∈ t.touched, t.known k ∧
    (base k ≠ none → ∃ c ∈ s.retained, c.oldVersion? = some k)

namespace Coalesced

variable {base : Rows} {t : Trace} {s : PendingChangeSet}
  {c d : StorageChange} {p : Nat} {k : StorageVersionKey}

lemma start : Coalesced base (Trace.start base) PendingChangeSet.new := by
  constructor <;> simp [Trace.start, PendingChangeSet.new, retained, Option.isSome_iff_ne_none]
  exact ⟨by simp, by simp⟩

lemma compact (h : Coalesced base t s) : Coalesced base t s.compact := by
  have hsub : s.compact.mutations <+ s.mutations := by
    unfold PendingChangeSet.compact
    split
    · exact Sublist.refl _
    · exact retained_sublist
  exact {
    indexed := h.indexed.compact
    olds := by simpa using h.olds
    news := by simpa using h.news
    rows := by simpa using h.rows
    base_known := h.base_known
    order := (hsub.map _).trans h.order
    nodup := h.nodup
    keys := fun c hc => h.keys c (hsub.subset hc)
    touched := by simpa using h.touched }

lemma currentVersions_fresh (h : Coalesced base t s) (hk : t.known k = false) :
    s.currentVersions k = none := by
  refine Option.eq_none_iff_forall_ne_some.mpr fun p hp => ?_
  obtain ⟨hr, c, hc, hnew⟩ := (h.indexed.index k p).mp hp
  have := (h.news c (mem_retained.mpr ⟨p, hr, hc⟩) k hnew).2.1
  simp_all

/-- A live version outside the index is one of the rows before the transaction. -/
lemma base_of_live (h : Coalesced base t s) (hlive : t.rows k ≠ none)
    (hk : s.currentVersions k = none) : base k ≠ none ∧ k ∉ t.touched := by
  obtain ⟨r, hr⟩ := Option.ne_none_iff_exists'.mp hlive
  rcases (h.rows k r).mp hr with ⟨c, hc, hw⟩ | ⟨hb, hold⟩
  · obtain ⟨p, hp, hat⟩ := mem_retained.mp hc
    have hnew := newVersion?_of_written? hw
    have := (h.indexed.index k p).mpr ⟨hp, c, hat, hnew⟩
    simp_all
  · refine ⟨by simp [hb], fun ht => ?_⟩
    obtain ⟨c, hc, hc'⟩ := (h.touched k ht).2 (by simp [hb])
    exact hold c hc hc'

lemma rowOf_step (hallow : t.Allows c) (hd : t.known d.key) : (t.step c).rowOf d = t.rowOf d := by
  refine Trace.originAfter_of_ne fun hnew => ?_
  simp [hallow.1 _ hnew] at hd

lemma newVersion?_ne (hallow : t.Allows c) (hk : t.known k) : c.newVersion? ≠ some k :=
  fun hnew => by simp [hallow.1 k hnew] at hk

section

variable (h : Coalesced base t s) (hallow : t.Allows c)
include h hallow

lemma map_rowOf_step : s.mutations.map (t.step c).rowOf = s.mutations.map t.rowOf :=
  map_congr_left fun d hd => rowOf_step hallow (h.keys d hd)

lemma news_step (hd : d ∈ s.retained) (hk : d.newVersion? = some k) :
    base k = none ∧ (t.step c).known k ∧ (t.step c).origin k = (t.step c).rowOf d := by
  obtain ⟨hb, hkn, ho⟩ := h.news d hd k hk
  refine ⟨hb, Trace.step_known.mpr (.inl hkn), ?_⟩
  rw [rowOf_step hallow (h.keys d (retained_sublist.subset hd)), ← ho]
  exact Trace.originAfter_of_ne (newVersion?_ne hallow hkn)

lemma base_known_step (hk : base k ≠ none) : (t.step c).known k ∧ (t.step c).origin k = k := by
  obtain ⟨hkn, ho⟩ := h.base_known k hk
  exact ⟨Trace.step_known.mpr (.inl hkn),
    (Trace.originAfter_of_ne (newVersion?_ne hallow hkn)).trans ho⟩

lemma base_new (hk : c.newVersion? = some k) : base k = none := by
  by_contra hb
  exact newVersion?_ne hallow (h.base_known k hb).1 hk

/-- A change of a row the transaction has not touched yet goes to the end. -/
lemma push (hbase : ∀ k, c.oldVersion? = some k → base k ≠ none ∧ k ∉ t.touched) :
    Coalesced base (t.step c) ⟨s.mutations ++ [c],
      indexAt s.currentVersions c s.mutations.length, s.removed⟩ := by
  have hfresh := hallow.1
  have hmem := @mem_retained_push s c
  have hne : ∀ k, t.known k → c.newVersion? ≠ some k := fun k => newVersion?_ne hallow
  -- the row is new to the transaction
  have hrow : t.originAfter c c.key ∉ t.touched := by
    have hknown := h.touched
    have horigin := h.base_known
    cases c <;> simp only [Trace.originAfter, StorageChange.key] <;> grind
  have htouched : (t.step c).touched = t.touched ++ [t.originAfter c c.key] := if_neg hrow
  have hkey : (t.step c).known c.key := by
    have := h.base_known
    rw [Trace.step_known]
    cases c <;> grind
  refine ⟨h.indexed.push fun k hk => h.currentVersions_fresh (hfresh k hk), ?_, ?_, ?_, ?_, ?_,
    ?_, ?_, ?_⟩
  · have := h.olds
    simp only [hmem h.indexed]
    grind
  · intro d hd k hk
    rcases (hmem h.indexed).mp hd with hd | rfl
    · exact h.news_step hallow hd hk
    · exact ⟨h.base_new hallow hk, Trace.step_known.mpr (.inr hk),
        Trace.originAfter_newVersion hk⟩
  · intro k r
    have hrows := h.rows k r
    have hnews := h.news
    have hb := h.base_known k
    simp only [hmem h.indexed]
    rw [show (t.step c).rows = c.apply t.rows from rfl, apply_eq_some, hrows]
    grind
  · exact fun k hk => h.base_known_step hallow hk
  · rw [map_append, h.map_rowOf_step hallow, htouched]
    exact h.order.append (Sublist.refl _)
  · rw [htouched]
    exact nodup_append.mpr ⟨h.nodup, by simp, by grind⟩
  · have := h.keys
    simp only [Trace.step_known] at hkey ⊢
    grind
  · have := h.touched
    have hb := h.base_known
    simp only [htouched, Trace.step_known, hmem h.indexed, mem_append, mem_singleton]
    rintro k (hk | rfl)
    · grind
    · cases c <;> simp only [Trace.originAfter, StorageChange.key] at hrow ⊢ <;> grind

/-- A change of a row the transaction has touched, made in the place of its first change:
the place keeps what it replaces, or becomes a hole. -/
lemma set (hc : c.oldVersion? = some k) (hk : s.currentVersions k = some p)
    (hd : s.mutations[p]? = some d) (removed : Finset Nat) (hole : Prop)
    (hr : ∀ q, q ∈ removed ↔ q ∈ s.removed ∨ hole ∧ q = p) (c' : StorageChange)
    (hw : c'.written? = c.written?) (hold : ¬hole → c'.oldVersion? = d.oldVersion?)
    (hhole : hole → c.written? = none ∧ d.oldVersion? = none)
    (hkeys : c'.key = d.key ∨ c.newVersion? = some c'.key) :
    Coalesced base (t.step c) ⟨s.mutations.set p c',
      indexAt (update s.currentVersions k none) c' p, removed⟩ := by
  have hcc : c'.newVersion? = c.newVersion? := by cases c <;> cases c' <;> grind
  have hmem := fun x => @mem_retained_set s c' x d p k
    (indexAt (update s.currentVersions k none) c' p) removed hole h.indexed hk hr hd
  obtain ⟨hp, e, he, hnew⟩ := (h.indexed.index k p).mp hk
  obtain rfl : d = e := Option.some.inj (hd.symm.trans he)
  have hdr : d ∈ s.retained := mem_retained.mpr ⟨p, hp, hd⟩
  -- no other retained change has this version, so exactly `d` is replaced
  have huniq : ∀ x ∈ s.retained, x.newVersion? = some k → x = d := by
    intro x hx hxk
    obtain ⟨q, hq, hxq⟩ := mem_retained.mp hx
    obtain rfl := h.indexed.eq_of_newVersion hk hq hxq hxk
    exact Option.some.inj (hxq.symm.trans hd)
  obtain ⟨hbk, hkn, hok⟩ := h.news d hdr k hnew
  have hrowk : t.originAfter c c.key = t.rowOf d := by
    have hck : c.key = k := by cases c <;> grind
    rw [hck, Trace.originAfter_of_ne (newVersion?_ne hallow hkn), hok]
  have htouched : (t.step c).touched = t.touched :=
    if_pos (hrowk ▸ h.order.subset (mem_map_of_mem (mem_of_getElem? hd)))
  have hdk := h.keys d (mem_of_getElem? hd)
  have hrow : (t.step c).rowOf c' = t.rowOf d ∧ (t.step c).known c'.key := by
    rw [Trace.step_known]
    rcases hkeys with hkey | hkey
    · rw [← rowOf_step hallow hdk, Trace.rowOf, hkey]
      exact ⟨rfl, .inl hdk⟩
    · exact ⟨(Trace.originAfter_newVersion hkey).trans hrowk, .inr hkey⟩
  refine ⟨h.indexed.set hk hr (by cases c <;> grind) fun k hk =>
    h.currentVersions_fresh (hallow.1 k (hcc ▸ hk)), ?_, ?_, ?_, ?_, ?_, ?_, ?_, ?_⟩
  · have := h.olds
    simp only [hmem]
    grind
  · intro x hx k hk
    rcases (hmem x).mp hx with ⟨-, rfl⟩ | ⟨hx, -⟩
    · rw [hcc] at hk
      refine ⟨h.base_new hallow hk, Trace.step_known.mpr (.inr hk), ?_⟩
      rw [hrow.1, ← hrowk]
      exact Trace.originAfter_newVersion hk
    · exact h.news_step hallow hx hk
  · intro k r
    have hrows := h.rows k r
    have hnews := h.news
    have hb := @h.base_new _ _ _ c k hallow
    have hne := @newVersion?_ne t c k hallow
    rw [show (t.step c).rows = c.apply t.rows from rfl, apply_eq_some, hrows]
    simp only [hmem]
    grind
  · exact fun k hk => h.base_known_step hallow hk
  · rw [map_set, h.map_rowOf_step hallow, htouched, hrow.1]
    have hat : (s.mutations.map t.rowOf)[p]? = some (t.rowOf d) := by simp [hd]
    obtain ⟨_, hget⟩ := List.getElem?_eq_some_iff.mp hat
    rw [← hget, set_getElem_self]
    exact h.order
  · exact htouched ▸ h.nodup
  · intro x hx
    rcases mem_or_eq_of_mem_set hx with hx | rfl
    · exact Trace.step_known.mpr (.inl (h.keys x hx))
    · exact hrow.2
  · have := h.touched
    simp only [htouched, hmem, Trace.step_known]
    grind

/-- Every recorded change keeps the coalesced form; an insert that is deleted again leaves
a hole, and holes in half of the vector compact it. -/
lemma record : Coalesced base (t.step c) (s.record c) := by
  have hindexed : ∀ {k p}, s.currentVersions k = some p →
      ∃ d, s.mutations[p]? = some d ∧ d.newVersion? = some k :=
    fun hk => ((h.indexed.index _ _).mp hk).2
  have hset := fun {k p d} hc hk hd c' hw hold =>
    @h.set _ _ _ c d p k hallow hc hk hd s.removed False (by simp) c' hw (fun _ => hold) False.elim
  cases c with
  | insert new after => exact h.push hallow (by simp [StorageChange.oldVersion?])
  | update old new after =>
    simp only [PendingChangeSet.record, PendingChangeSet.recordUpdate]
    cases hk : s.currentVersions old with
    | none =>
      exact h.push hallow fun k hk' => by
        cases hk'
        exact h.base_of_live (hallow.2 _ rfl) hk
    | some p =>
      obtain ⟨d, hd, hnew⟩ := hindexed hk
      simp only [hd]
      cases d with
      | insert _ _ => exact hset rfl hk hd (.insert new after) rfl rfl (.inr rfl)
      | update first _ _ => exact hset rfl hk hd (.update first new after) rfl rfl (.inl rfl)
      | delete _ => cases hnew
  | delete old =>
    simp only [PendingChangeSet.record, PendingChangeSet.recordDelete]
    cases hk : s.currentVersions old with
    | none =>
      exact h.push hallow fun k hk' => by
        cases hk'
        exact h.base_of_live (hallow.2 _ rfl) hk
    | some p =>
      obtain ⟨d, hd, hnew⟩ := hindexed hk
      simp only [hd]
      cases d with
      | insert new _ =>
        cases hnew
        have hgone := h.set hallow rfl hk hd (s.removed ∪ {p}) True (by simp [or_comm])
          (.delete old) rfl (by simp) (fun _ => ⟨rfl, rfl⟩) (.inl rfl)
        dsimp only
        split
        · exact hgone.compact
        · exact hgone
      | update first _ _ => exact hset rfl hk hd (.delete first) rfl rfl (.inl rfl)
      | delete _ => cases hnew

end

/-- The invariant holds after any admitted calls, and the rows are those of the calls. -/
lemma run (h : Coalesced base t s) (calls : List StorageChange) (hcalls : t.Admits calls) :
    Coalesced base (calls.foldl Trace.step t) (calls.foldl PendingChangeSet.record s) ∧
      (calls.foldl Trace.step t).rows = calls.foldl StorageChange.apply t.rows := by
  induction calls generalizing t s with
  | nil => exact ⟨h, rfl⟩
  | cons c calls ih => exact ih (h.record hcalls.1) hcalls.2

/-- Applied to the rows before the transaction, the retained changes give the rows now. -/
lemma apply_retained (h : Coalesced base t s) :
    s.retained.foldl StorageChange.apply base = t.rows := by
  have hpair := (retained_pairwise h.indexed).imp_of_mem
    (S := fun c c' => ∀ k, c.newVersion? = some k →
      c'.oldVersion? ≠ some k ∧ c'.newVersion? ≠ some k) fun {c d} hc hd hcd k hk =>
    ⟨fun hold => h.olds d hd k hold (h.news c hc k hk).1, hcd k hk⟩
  ext k r
  have hnews := h.news
  rw [foldl_apply_eq_some _ hpair, h.rows]
  grind

end Coalesced

/-- Coalescing loses nothing: from any calls with fresh new and live old versions, the slice
has at most one change for each row, in the order of first touch, it does to the rows what the
calls did, and a row inserted by the transaction is in it only while it lives. -/
theorem asSlice_coalesces (base : Rows) (calls : List StorageChange)
    (hcalls : (Trace.start base).Admits calls) : let t := calls.foldl Trace.step (Trace.start base)
    let slice := (calls.foldl PendingChangeSet.record .new).asSlice
    slice.map t.rowOf <+ t.touched ∧ t.touched.Nodup ∧
      slice.foldl StorageChange.apply base = calls.foldl StorageChange.apply base ∧
      ∀ c ∈ slice, base (t.rowOf c) = none →
        ∃ k, calls.foldl StorageChange.apply base k ≠ none ∧ t.origin k = t.rowOf c := by
  intro t slice
  obtain ⟨h, hrows⟩ := Coalesced.start.run calls hcalls
  have hslice : slice = (calls.foldl PendingChangeSet.record .new).retained := asSlice_eq_retained
  rw [hslice]
  refine ⟨(retained_sublist.map _).trans h.order, h.nodup,
    h.apply_retained.trans hrows, fun c hc hb => ?_⟩
  cases c with
  | insert new after =>
    refine ⟨new, ?_, rfl⟩
    have hr := (h.rows new after).mpr (.inl ⟨_, hc, rfl⟩)
    rw [hrows] at hr
    exact fun hnone => by cases hr.symm.trans hnone
  | update old _ _ | delete old =>
    have hold := h.olds _ hc old rfl
    rw [Trace.rowOf, StorageChange.key, (h.base_known old hold).2] at hb
    exact absurd hb hold

/-- One row is updated, another is inserted and deleted again. -/
theorem asSlice_coalesces_update :
    let base : Rows := Function.update (fun _ => none) (.lsm 1 1 1) (some [])
    let calls : List StorageChange :=
      [.update (.lsm 1 1 1) (.lsm 1 1 0) [], .insert (.lsm 1 2 0) [], .delete (.lsm 1 2 0)]
    (Trace.start base).Admits calls ∧
      (calls.foldl PendingChangeSet.record .new).asSlice.foldl StorageChange.apply base =
        calls.foldl StorageChange.apply base := by
  intro base calls
  have hcalls : (Trace.start base).Admits calls := by
    refine ⟨⟨?_, ?_⟩, ⟨?_, ?_⟩, ⟨?_, ?_⟩, trivial⟩ <;> rintro k ⟨⟩ <;> decide
  exact ⟨hcalls, (asSlice_coalesces base calls hcalls).2.2.1⟩

end Netbadb.ChangeStream
