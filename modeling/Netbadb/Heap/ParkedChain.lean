import Netbadb.Heap.Parking

/-!
The parked transactions of a heap storage along a run. `Run` keeps, next to the
heap, the order in which transactions were parked; the deque is that order
without the transactions that are over.
-/

namespace Netbadb.Heap

open List Function

namespace HeapState

variable (h : HeapState) (x : TxnId)

def stage : Option Stage := (h.transactions x).map (·.state.stage)

/-- In the `ParkedPrepared` or the staged prepare state. -/
def isParked : Bool := h.stage x = some .parked

/-- Parked, or with an outcome in the log that is not complete. -/
def isUnresolved : Bool :=
  h.stage x = some .parked || h.stage x = some .resolving

end HeapState

open HeapState

variable {h' : HeapState} {x : TxnId}

/-- One transaction changed, and was not parked by it. -/
def Advance (h h' : HeapState) : Prop :=
  ∃ x t t', h.transactions x = some t ∧ Effect True x t t' h h' ∧
    (t'.state.stage = .parked → t.state.stage = .parked)

abbrev Advances : HeapState → HeapState → Prop := Relation.ReflTransGen Advance

/-- What a call leaves: a new transaction, one more parked transaction, or
transactions that went on without being parked. -/
inductive CallEffect (members : List TxnId) (h h' : HeapState) : Prop
  | began (parked : h'.parkedPrepared = h.parkedPrepared) (next : h'.nextTxnId = h.nextTxnId + 1)
      (transactions : h'.transactions
        = update h.transactions h.nextTxnId (some ⟨.active, none, false, false, true⟩))
      (members : members = [])
  | parked (x : TxnId) (t t' : Transaction) (members : members = [x])
      (handle : h.transactions x = some t) (effect : Effect True x t t' h h')
      (before : t.state.stage = .owned) (after : t'.state.stage = .parked)
  | advanced (advances : Advances h h')

variable {t t' : Transaction}

lemma Effect.callEffect {h : HeapState} (hx : h.transactions x = some t)
    (e : Effect True x t t' h h') : CallEffect [x] h h' := by
  by_cases hpark : t'.state.stage = .parked → t.state.stage = .parked
  · exact .advanced (.single ⟨x, t, t', hx, e, hpark⟩)
  obtain ⟨hafter, hbefore⟩ := Classical.not_imp.mp hpark
  refine .parked x t t' rfl hx e ?_ hafter
  cases hs : t.state.stage with
  | owned => rfl
  | parked => exact absurd hs hbefore
  | resolving | done => have := e.move; rw [hs, hafter] at this; cases this

variable {h : HeapState} {allowed : List TransactionState}

lemma validatePrefix_ok :
    ∀ {pairs : List (Participant × TxnId)}, h.validatePrefix allowed pairs = .ok () →
      ∀ pair ∈ pairs, pair.1.txn.state ∈ allowed ∧ pair.2 = pair.1.id
  | [], _ => by simp
  | (p, expected) :: rest, hok => by
      unfold validatePrefix at hok
      split at hok
      · cases hok
      split at hok
      · cases hok
      rename_i hallowed
      split at hok
      · cases hok
      rename_i hexpected
      intro pair hpair
      rcases mem_cons.mp hpair with rfl | hrest
      · exact ⟨not_not.mp hallowed, not_not.mp hexpected⟩
      · exact validatePrefix_ok hok pair hrest

variable {ps : List Participant} {q : List TxnId}

lemma batch_front (hlen : ¬ q.length < ps.length) (hids : ∀ pair ∈ ps.zip q, pair.2 = pair.1.id) :
    ∃ rest, q = ps.map (·.id) ++ rest := by
  induction ps generalizing q with
  | nil => exact ⟨q, rfl⟩
  | cons p ps ih =>
    cases q with
    | nil => exact absurd (Nat.succ_pos _) hlen
    | cons y q =>
      obtain ⟨rest, hrest⟩ := @ih q (by simpa using hlen)
        fun pair hpair => hids pair (mem_cons_of_mem _ hpair)
      have hy : y = p.id := hids (p, y) (mem_cons_self ..)
      exact ⟨rest, by rw [hy, hrest]; rfl⟩

lemma batch_states (hlen : ¬ q.length < ps.length)
    (hok : ∀ pair ∈ ps.zip q, pair.1.txn.state ∈ allowed) :
    ∀ p ∈ ps, p.txn.state ∈ allowed := by
  induction ps generalizing q with
  | nil => simp
  | cons p ps ih =>
    cases q with
    | nil => exact absurd (Nat.succ_pos _) hlen
    | cons y q =>
      intro p' hp'
      rcases mem_cons.mp hp' with rfl | hrest
      · exact hok (p', y) (mem_cons_self ..)
      · exact @ih q (by simpa using hlen)
          (fun pair hpair => hok pair (mem_cons_of_mem _ hpair)) p' hrest

def Holds (h : HeapState) (ps : List Participant) : Prop :=
  ∀ p ∈ ps, h.transactions p.id = some p.txn

variable {p : Participant} {statusCleanup flush : Bool} {y : TxnId} {statuses appends : Nat}

lemma Holds.tail_of_effect {h : HeapState} (hps : Holds h (p :: ps))
    (hids : ((p :: ps).map (·.id)).Nodup) (e : Effect True p.id t t' h h') : Holds h' ps := by
  intro p' hp'
  have hne : p'.id ≠ p.id := by
    intro heq
    refine (nodup_cons.mp hids).1 (mem_map.mpr ⟨p', hp', heq⟩)
  rw [e.transactions, update_of_ne hne]
  exact hps p' (mem_cons_of_mem _ hp')

lemma setState_effect {t : Transaction} {state : TransactionState}
    (hmove : Move True x t.state.stage state.stage h.parkedPrepared h.parkedPrepared) :
    Effect True x t { t with state := state } h (h.setState x t state) :=
  ⟨rfl, rfl, hmove⟩

/-- The handle of a batch member once its Commit record is in the log. -/
def Participant.staged (p : Participant) : Participant :=
  { p with txn := { p.txn with state := .commitPending } }

lemma Participant.staged_of_pending (hp : p.txn.state = .commitPending) : p.staged = p := by
  obtain ⟨id, ⟨state, _, _, _⟩, d⟩ := p
  obtain rfl : state = .commitPending := hp
  rfl

/-- What staging the Commit records does, whether or not all could be appended. -/
structure Staged (h h' : HeapState) (ps : List Participant) : Prop where
  advances : Advances h h'
  parked : h'.parkedPrepared = h.parkedPrepared
  others : ∀ x, x ∉ ps.map (·.id) → h'.transactions x = h.transactions x

lemma stageCommits_spec {h : HeapState} {r : Except TransactionError Unit} (hps : Holds h ps)
    (hids : (ps.map (·.id)).Nodup)
    (hstates : ∀ p ∈ ps, p.txn.state ∈ [TransactionState.parkedPrepared, .commitPending])
    (hr : h.stageCommits ps appends = (r, h')) :
    Staged h h' ps ∧ (r = .ok () → ∀ p ∈ ps, h'.transactions p.id = some p.staged.txn) := by
  induction ps generalizing h appends with
  | nil =>
    cases hr
    exact ⟨⟨.refl, rfl, fun _ _ => rfl⟩, by simp⟩
  | cons p ps ih =>
    have hrest : ∀ q ∈ ps, q.txn.state ∈ [TransactionState.parkedPrepared, .commitPending] :=
      fun q hq => hstates q (mem_cons_of_mem _ hq)
    have hp : p.id ∉ ps.map (·.id) := (nodup_cons.mp hids).1
    unfold stageCommits at hr
    split at hr
    · rename_i hstate
      cases appends with
      | zero =>
        cases hr
        exact ⟨⟨.refl, rfl, fun _ _ => rfl⟩, nofun⟩
      | succ appends =>
        have e : Effect True p.id p.txn p.staged.txn h (h.setState p.id p.txn .commitPending) :=
          setState_effect (.resolve (by rw [hstate]; decide))
        obtain ⟨staged, hok⟩ := ih (hps.tail_of_effect hids e) (nodup_cons.mp hids).2 hrest hr
        have hself : h'.transactions p.id = some p.staged.txn := by
          rw [staged.others p.id hp]
          exact update_self ..
        refine ⟨⟨.head ⟨p.id, p.txn, p.staged.txn, hps p (mem_cons_self ..), e, nofun⟩
          staged.advances, staged.parked, ?_⟩, ?_⟩
        · intro x hx
          obtain ⟨hne, hx⟩ := not_or.mp (mt mem_cons.mpr hx)
          rw [staged.others x hx]
          exact update_of_ne hne ..
        · intro hr q hq
          rcases mem_cons.mp hq with rfl | hq
          · exact hself
          · exact hok hr q hq
    · rename_i hstate
      have hpending : p.txn.state = .commitPending := by
        have := hstates p (mem_cons_self ..)
        simpa [hstate] using this
      obtain ⟨staged, hok⟩ := ih (fun q hq => hps q (mem_cons_of_mem _ hq))
        (nodup_cons.mp hids).2 hrest hr
      refine ⟨⟨staged.advances, staged.parked, fun x hx => staged.others x ?_⟩, ?_⟩
      · exact (not_or.mp (mt mem_cons.mpr hx)).2
      intro hr q hq
      rcases mem_cons.mp hq with rfl | hq
      · rw [staged.others q.id hp, Participant.staged_of_pending hpending]
        exact hps q (mem_cons_self ..)
      · exact hok hr q hq

/-- Publishing one member of a batch pops it from the front of the deque. -/
lemma finishMember_effect (hq : h.parkedPrepared = p.id :: q) (hnodup : h.parkedPrepared.Nodup) :
    ∃ h₁ t', (h.releaseWriter p.id).removeParkedResolution p.id false = (.ok (), h₁) ∧
      t'.state.stage = .done ∧
      Effect True p.id p.staged.txn t' h ((h₁.unregister p.id p.txn).set p.id
        { p.txn with state := .changeFinalizePending, registered := false }) ∧
      h₁.parkedPrepared = q := by
  obtain ⟨h₁, hremove, same, herase⟩ := @removeParkedResolution_spec (h.releaseWriter p.id) p.id
    false (by simpa using hnodup) (.inr (by simp [hq]))
  have herase' : h₁.parkedPrepared = h.parkedPrepared.erase p.id := by
    rw [herase, releaseWriter_parkedPrepared]
  refine ⟨h₁, { p.txn with state := .changeFinalizePending, registered := false }, hremove, rfl,
    ⟨?_, ?_, ?_⟩, by rw [herase', hq]; simp⟩
  · have htx : h₁.transactions = h.transactions := by
      rw [same.transactions, releaseWriter_sameHandles.transactions]
    show update (h₁.unregister p.id p.txn).transactions p.id _ = _
    unfold unregister
    split
    · show update (update h₁.transactions _ _) _ _ = _
      rw [update_idem, htx]
    · rw [htx]
  · show (h₁.unregister p.id p.txn).nextTxnId = _
    rw [unregister_nextTxnId, same.nextTxnId, releaseWriter_sameHandles.nextTxnId]
  · show Move True p.id _ _ _ (h₁.unregister p.id p.txn).parkedPrepared
    rw [unregister_parkedPrepared, herase']
    exact .finish

lemma finishCommits_advances {rest : List TxnId}
    (hps : ∀ p ∈ ps, h.transactions p.id = some p.staged.txn)
    (hq : h.parkedPrepared = ps.map (·.id) ++ rest) (hnodup : h.parkedPrepared.Nodup) :
    Advances h (finishCommits statusCleanup h ps statuses).2 := by
  induction ps generalizing h statuses with
  | nil => exact .refl
  | cons p ps ih =>
    have hself : h.transactions p.id = some p.staged.txn := hps p (mem_cons_self ..)
    cases statuses with
    | zero =>
      refine .single ⟨p.id, _, _, hself, effect_of_sameHandles hself ?_ ?_, id⟩
      · show SameHandles h (if _ then h else _)
        split <;> exact ⟨rfl, rfl⟩
      · show (if _ then h else _ : HeapState).parkedPrepared = _
        split <;> rfl
    | succ statuses =>
      obtain ⟨h₁, t', hremove, hdone, e, hrest⟩ := finishMember_effect hq hnodup
      unfold finishCommits
      simp only [hremove]
      refine .head ⟨p.id, _, t', hself, e, fun hparked => ?_⟩ (ih ?_ ?_ ?_)
      · rw [hdone] at hparked
        cases hparked
      · intro p' hp'
        have hne : p'.id ≠ p.id := by
          intro heq
          rw [hq] at hnodup
          exact (nodup_cons.mp hnodup).1
            (mem_append_left _ (mem_map.mpr ⟨p', hp', heq⟩))
        rw [e.transactions, update_of_ne hne]
        exact hps p' (mem_cons_of_mem _ hp')
      · show (h₁.unregister p.id p.txn).parkedPrepared = _
        rw [unregister_parkedPrepared, hrest]
        rfl
      · show (h₁.unregister p.id p.txn).parkedPrepared.Nodup
        rw [unregister_parkedPrepared, hrest]
        rw [hq] at hnodup
        exact (nodup_cons.mp hnodup).2

lemma commitPreparedBatch_advances (hps : Holds h ps) (hids : (ps.map (·.id)).Nodup)
    (hnodup : h.parkedPrepared.Nodup) :
    Advances h
      (h.commitPreparedBatchAuthoritative ps appends statuses flush statusCleanup).2 := by
  unfold commitPreparedBatchAuthoritative
  split
  · exact .refl
  split
  · exact .refl
  rename_i hlen
  split
  · exact .refl
  rename_i hvalid
  have hmembers := validatePrefix_ok hvalid
  obtain ⟨rest, hq⟩ := batch_front hlen fun pair hpair => (hmembers pair hpair).2
  cases hs : h.stageCommits ps appends with
  | mk r h₁ =>
    obtain ⟨staged, hok⟩ := stageCommits_spec hps hids
      (batch_states hlen fun pair hpair => (hmembers pair hpair).1) hs
    cases r with
    | error _ => exact staged.advances
    | ok _ =>
      show Advances h (if _ then _ else _ : Call).2
      split
      · exact staged.advances
      · exact staged.advances.trans (finishCommits_advances (hok rfl)
          (staged.parked.trans hq) (staged.parked ▸ hnodup))

lemma durabilize_advances (hps : Holds h ps)
    (hids : (ps.map (·.id)).Nodup) (hstates : ∀ p ∈ ps, p.txn.state.stage = .parked) :
    Advances h (ps.foldl (fun h p =>
      { h.setState p.id p.txn .parkedPrepared with
        parkedPreparePending := h.parkedPreparePending.erase p.id }) h) := by
  induction ps generalizing h with
  | nil => exact .refl
  | cons p ps ih =>
    have hp := hstates p (mem_cons_self ..)
    have e : Effect True p.id p.txn { p.txn with state := .parkedPrepared } h
        { h.setState p.id p.txn .parkedPrepared with
          parkedPreparePending := h.parkedPreparePending.erase p.id } := ⟨rfl, rfl, hp ▸ .keep⟩
    exact .head ⟨p.id, p.txn, _, hps p (mem_cons_self ..), e, fun _ => hp⟩
      (ih (hps.tail_of_effect hids e) (nodup_cons.mp hids).2
        fun q hq => hstates q (mem_cons_of_mem _ hq))

lemma durabilizeGroupPrepareBatch_advances (hps : Holds h ps) (hids : (ps.map (·.id)).Nodup) :
    Advances h (h.durabilizeGroupPrepareBatch ps flush).2 := by
  unfold durabilizeGroupPrepareBatch
  split
  · exact .refl
  split
  · exact .refl
  rename_i hlen
  split
  · exact .refl
  rename_i hvalid
  split
  · exact .refl
  · refine durabilize_advances hps hids fun p hp => ?_
    have := batch_states hlen (fun pair hpair => (validatePrefix_ok hvalid pair hpair).1) p hp
    rcases mem_pair.mp this with hstate | hstate <;> rw [hstate] <;> rfl

lemma participants_spec {xs : List (TxnId × DatabaseTxnId)} (hps : h.participants xs = some ps) :
    Holds h ps ∧ (ps.map (·.id)).Nodup := by
  unfold participants at hps
  split at hps
  · rename_i hnodup
    have hmap : Holds h ps ∧ ps.map (·.id) = xs.map Prod.fst := by
      clear hnodup
      induction xs generalizing ps with
      | nil =>
        cases hps
        exact ⟨by simp [Holds], rfl⟩
      | cons x xs ih =>
        simp only [mapM_cons, Option.bind_eq_bind, Option.bind_eq_some_iff,
          Option.map_eq_some_iff, Option.pure_def, Option.some.injEq] at hps
        obtain ⟨p, ⟨t, ht, rfl⟩, rest, hrest, rfl⟩ := hps
        obtain ⟨hholds, hmap⟩ := ih hrest
        exact ⟨forall_mem_cons.mpr ⟨ht, hholds⟩, by simp [hmap]⟩
    exact ⟨hmap.1, hmap.2 ▸ hnodup⟩
  · cases hps

/-- The deque against the order in which transactions were parked. -/
structure Ordered (order : List TxnId) (h : HeapState) : Prop where
  nodup : order.Nodup
  deque : h.parkedPrepared = order.filter h.isUnresolved
  /-- A transaction that was parked never goes back to its owner. -/
  left : ∀ x ∈ order, ∃ t, h.transactions x = some t ∧ t.state.stage ≠ .owned
  parked : ∀ x, h.isParked x → x ∈ order
  fresh : ∀ x, h.nextTxnId ≤ x → h.transactions x = none

lemma stage_of_effect {h : HeapState} (e : Effect True x t t' h h') :
    h'.stage y = if y = x then some t'.state.stage else h.stage y := by
  unfold stage
  rw [e.transactions]
  split
  · rename_i heq
    rw [heq, update_self]
    rfl
  · rename_i hne
    rw [update_of_ne hne]

lemma isUnresolved_of_effect {h : HeapState} (e : Effect True x t t' h h') (hne : y ≠ x) :
    h'.isUnresolved y = h.isUnresolved y := by
  unfold isUnresolved
  rw [stage_of_effect e, if_neg hne]

namespace Ordered

variable {order : List TxnId}

/-- Whether `y` is in the deque changes only for the transaction of the call. -/
lemma filter_effect (e : Effect True x t t' h h')
    (hsame : x ∈ order → h'.isUnresolved x = h.isUnresolved x) :
    order.filter h'.isUnresolved = order.filter h.isUnresolved := by
  refine filter_congr fun y hy => ?_
  by_cases hyx : y = x
  · subst hyx
    exact hsame hy
  · exact isUnresolved_of_effect e hyx

lemma filter_effect_done (hnodup : order.Nodup) (e : Effect True x t t' h h')
    (hdone : t'.state.stage = .done) :
    order.filter h'.isUnresolved = (order.filter h.isUnresolved).erase x := by
  rw [(hnodup.filter _).erase_eq_filter, filter_filter]
  refine filter_congr fun y _ => ?_
  by_cases hyx : y = x
  · subst hyx
    simp [isUnresolved, stage_of_effect e, hdone]
  · simp [isUnresolved_of_effect e hyx, hyx]

lemma unresolved_eq {s : Stage} (hs : h.stage x = some s) :
    h.isUnresolved x = (s = .parked || s = .resolving) := by
  simp [isUnresolved, hs]

lemma stage_eq (hx : h.transactions x = some t) : h.stage x = some t.state.stage := by
  simp [stage, hx]

section Calls

variable (inv : Ordered order h)

include inv

lemma deque_nodup : h.parkedPrepared.Nodup :=
  inv.deque ▸ inv.nodup.filter _

lemma mem_of_mem_deque (hx : x ∈ h.parkedPrepared) : x ∈ order :=
  (mem_filter.mp (inv.deque ▸ hx)).1

lemma left_owner (hx : h.transactions x = some t) (hmem : x ∈ order) : t.state.stage ≠ .owned := by
  obtain ⟨t₀, ht₀, hleft⟩ := inv.left x hmem
  obtain rfl := Option.some.inj (hx.symm.trans ht₀)
  exact hleft

lemma effect_fresh (hx : h.transactions x = some t)
    (e : Effect True x t t' h h') : ∀ y, h'.nextTxnId ≤ y → h'.transactions y = none := by
  intro y hy
  rw [e.nextTxnId] at hy
  have hne : y ≠ x := by
    rintro rfl
    rw [inv.fresh y hy] at hx
    cases hx
  rw [e.transactions, update_of_ne hne]
  exact inv.fresh y hy

/-- A step of one transaction keeps the order: one that was parked once is parked or resolving. -/
lemma advance (step : Advance h h') : Ordered order h' := by
  obtain ⟨x, t, t', hx, e, hpark⟩ := step
  have hstage' : h'.stage x = some t'.state.stage := by rw [stage_of_effect e, if_pos rfl]
  refine ⟨inv.nodup, ?_, ?_, ?_, inv.effect_fresh hx e⟩
  · have hmove := e.move
    generalize hs : t.state.stage = s at hmove
    generalize hs' : t'.state.stage = s' at hmove
    generalize hq' : h'.parkedPrepared = q' at hmove
    have hleft : x ∈ order → s ≠ .owned := fun hmem => hs ▸ inv.left_owner hx hmem
    cases hmove with
    | keep =>
      rw [filter_effect e fun _ => ?_, inv.deque]
      rw [unresolved_eq hstage', unresolved_eq (stage_eq hx), hs, hs']
    | resolve hne =>
      rw [filter_effect e fun hmem => ?_, inv.deque]
      rw [unresolved_eq hstage', unresolved_eq (stage_eq hx), hs, hs']
      cases s with
      | owned => exact absurd rfl (hleft hmem)
      | parked | resolving => rfl
      | done => exact absurd rfl hne
    | park _ => exact absurd (hs.symm.trans (hpark hs')) (by decide)
    | finish => rw [filter_effect_done inv.nodup e hs', inv.deque]
  · intro y hy
    by_cases hyx : y = x
    · subst hyx
      refine ⟨t', by rw [e.transactions]; exact update_self .., fun howned => ?_⟩
      have hleft := inv.left_owner hx hy
      have hmove := e.move
      rw [howned] at hmove
      generalize t.state.stage = s at hmove hleft
      generalize h'.parkedPrepared = q' at hmove
      cases hmove
      exact hleft rfl
    · obtain ⟨t₀, ht₀, hleft⟩ := inv.left y hy
      exact ⟨t₀, by rw [e.transactions, update_of_ne hyx]; exact ht₀, hleft⟩
  · intro y hy
    refine inv.parked y ?_
    by_cases hyx : y = x
    · subst hyx
      have : t'.state.stage = .parked := by simpa [isParked, hstage'] using hy
      simpa [isParked, stage_eq hx] using hpark this
    · simpa [isParked, stage_of_effect e, hyx] using hy

lemma advances (steps : Advances h h') : Ordered order h' := by
  induction steps with
  | refl => exact inv
  | tail _ step ih => exact ih.advance step

lemma park (hx : h.transactions x = some t) (e : Effect True x t t' h h')
    (hbefore : t.state.stage = .owned) (hafter : t'.state.stage = .parked) :
    Ordered (order ++ [x]) h' := by
  have hnew : x ∉ order := fun hmem => inv.left_owner hx hmem hbefore
  have hstage' : h'.stage x = some .parked := by rw [stage_of_effect e, if_pos rfl, hafter]
  have hdeque : h'.parkedPrepared = h.parkedPrepared ++ [x] := by
    have hmove := e.move
    rw [hbefore, hafter] at hmove
    generalize h'.parkedPrepared = q' at hmove
    cases hmove
    rfl
  refine ⟨?_, ?_, ?_, ?_, inv.effect_fresh hx e⟩
  · exact nodup_append.mpr ⟨inv.nodup, nodup_singleton x, fun y hy z hz heq =>
      hnew (mem_singleton.mp hz ▸ heq ▸ hy)⟩
  · rw [filter_append, filter_effect e fun hmem => absurd hmem hnew, ← inv.deque, hdeque]
    congr 1
    simp [isUnresolved, hstage']
  · intro y hy
    by_cases hyx : y = x
    · subst hyx
      exact ⟨t', by rw [e.transactions]; exact update_self .., by rw [hafter]; decide⟩
    · obtain ⟨t₀, ht₀, hleft⟩ := inv.left y ((mem_append.mp hy).resolve_right (by simpa using hyx))
      exact ⟨t₀, by rw [e.transactions, update_of_ne hyx]; exact ht₀, hleft⟩
  · intro y hy
    by_cases hyx : y = x
    · exact mem_append_right _ (by simp [hyx])
    · exact mem_append_left _ (inv.parked y (by simpa [isParked, stage_of_effect e, hyx] using hy))

lemma began (hparked : h'.parkedPrepared = h.parkedPrepared)
    (hnext : h'.nextTxnId = h.nextTxnId + 1)
    (htx : h'.transactions
      = update h.transactions h.nextTxnId (some ⟨.active, none, false, false, true⟩)) :
    Ordered order h' := by
  have hstage : ∀ y, y ≠ h.nextTxnId → h'.stage y = h.stage y := fun y hy => by
    simp [stage, htx, update_of_ne hy]
  have hold : ∀ y ∈ order, y ≠ h.nextTxnId := by
    rintro y hy rfl
    obtain ⟨t, ht, _⟩ := inv.left _ hy
    rw [inv.fresh _ le_rfl] at ht
    cases ht
  refine ⟨inv.nodup, ?_, ?_, ?_, ?_⟩
  · rw [hparked, inv.deque]
    exact filter_congr fun y hy => by simp [isUnresolved, hstage y (hold y hy)]
  · intro y hy
    obtain ⟨t, ht, hleft⟩ := inv.left y hy
    exact ⟨t, by rw [htx, update_of_ne (hold y hy)]; exact ht, hleft⟩
  · intro y hy
    by_cases hyn : y = h.nextTxnId
    · subst hyn
      simp [isParked, stage, htx, TransactionState.stage] at hy
    · exact inv.parked y (by simpa [isParked, hstage y hyn] using hy)
  · intro y hy
    have hlt : h.nextTxnId < y := by rwa [hnext] at hy
    rw [htx, update_of_ne (Nat.ne_of_gt hlt)]
    exact inv.fresh y (Nat.le_of_lt hlt)

end Calls

end Ordered

/-- The calls that pop the deque find their transaction at the end they pop. -/
def PopsItself (h : HeapState) : Op → Prop
  | .commit x _ => ∀ t, h.transactions x = some t →
      t.state = .active ∨ t.state = .commitPending → h.AtEnd x false
  | .commitPrepared x _ _ => ∀ t, h.transactions x = some t →
      t.state = .prepared ∨ t.state = .commitPending → h.AtEnd x false
  | .rollback x _ | .rollbackPrepared x _ _ => ∀ t, h.transactions x = some t →
      t.state = .rollbackPending → x ∈ h.parkedPrepared → h.AtEnd x true
  | _ => True

variable {order : List TxnId} {op : Op}

/-- A call on one handle has the effect of its operation there. -/
lemma call_effect {r : Except TransactionError Unit} (inv : Ordered order h)
    (hpop : PopsItself h op) (hcall : h.call op = some (r, h')) : CallEffect op.members h h' := by
  have snd : ∀ {c : Call}, c = (r, h') → c.2 = h' := fun hc => by rw [hc]
  have handled : ∀ {x} {f : Transaction → Call}, (h.transactions x).map f = some (r, h') →
      (∀ {t}, h.transactions x = some t → ∃ t', Effect True x t t' h (f t).2) →
        CallEffect [x] h h' := by
    intro x f hmap heffect
    obtain ⟨t, hx, hc⟩ := Option.map_eq_some_iff.mp hmap
    obtain ⟨t', e⟩ := heffect hx
    exact (snd hc ▸ e).callEffect hx
  have howned : ∀ {x t}, h.transactions x = some t → x ∈ h.parkedPrepared →
      t.state.stage ≠ .owned := fun hx hmem => inv.left_owner hx (inv.mem_of_mem_deque hmem)
  cases op with
  | begin append =>
    rcases begin_spec (Option.some.inj hcall) with rfl | ⟨hq, hnext, htx⟩
    · exact .advanced .refl
    · exact .began hq hnext htx rfl
  | write => exact handled hcall write_effect
  | prepare => exact handled hcall prepare_effect
  | stageGroupPrepare => exact handled hcall stageGroupPrepare_effect
  | parkPrepared => exact handled hcall parkPrepared_effect
  | commit => exact handled hcall fun hx => commit_effect hx inv.deque_nodup (hpop _ hx)
  | commitPrepared =>
    exact handled hcall fun hx => commitPrepared_effect hx inv.deque_nodup (hpop _ hx)
  | rollback =>
    exact handled hcall fun hx =>
      rollbackInternal_effect hx inv.deque_nodup (howned hx) (hpop _ hx)
  | rollbackPrepared =>
    exact handled hcall fun hx =>
      rollbackPrepared_effect hx inv.deque_nodup (howned hx) (hpop _ hx)
  | commitPreparedBatch xs appends statuses flush statusCleanup =>
    obtain ⟨ps, hps, hc⟩ := Option.map_eq_some_iff.mp hcall
    obtain ⟨hholds, hids⟩ := participants_spec hps
    exact .advanced (snd hc ▸ commitPreparedBatch_advances hholds hids inv.deque_nodup)
  | durabilizeGroupPrepareBatch xs flush =>
    obtain ⟨ps, hps, hc⟩ := Option.map_eq_some_iff.mp hcall
    obtain ⟨hholds, hids⟩ := participants_spec hps
    exact .advanced (snd hc ▸ durabilizeGroupPrepareBatch_advances hholds hids)

/-- The transactions a call parked. -/
def newlyParked (h h' : HeapState) (op : Op) : List TxnId :=
  op.members.filter fun x => !h.isParked x && h'.isParked x

/-- The calls that satisfy `ok`, one after the other, with the order in which
they parked transactions. -/
inductive Run (ok : HeapState → Op → Prop) (first : TxnId) : List TxnId → HeapState → Prop
  | empty : Run ok first [] (.empty first)
  | call {order h r h'} (op : Op) : Run ok first order h → ok h op →
      h.call op = some (r, h') → Run ok first (order ++ newlyParked h h' op) h'

lemma Advances.not_newlyParked (steps : Advances h h') (x : TxnId) :
    h'.isParked x → h.isParked x := by
  induction steps with
  | refl => exact id
  | tail _ step ih =>
    obtain ⟨y, t, t', hy, e, hpark⟩ := step
    intro hx
    refine ih ?_
    by_cases hxy : x = y
    · subst hxy
      have : t'.state.stage = .parked := by simpa [isParked, stage_of_effect e] using hx
      simpa [isParked, Ordered.stage_eq hy] using hpark this
    · simpa [isParked, stage_of_effect e, hxy] using hx

lemma CallEffect.ordered (inv : Ordered order h) (out : CallEffect op.members h h') :
    Ordered (order ++ newlyParked h h' op) h' := by
  cases out with
  | began hparked hnext htx hmembers =>
    rw [newlyParked, hmembers]
    simpa using inv.began hparked hnext htx
  | parked x t t' hmembers hx e hbefore hafter =>
    have hnew : newlyParked h h' op = [x] := by
      simp [newlyParked, hmembers, isParked, Ordered.stage_eq hx, stage_of_effect e, hbefore,
        hafter]
    rw [hnew]
    exact inv.park hx e hbefore hafter
  | advanced steps =>
    have hnone : newlyParked h h' op = [] := by
      refine filter_eq_nil_iff.mpr fun x _ => ?_
      have := steps.not_newlyParked x
      revert this
      cases h.isParked x <;> simp
    rw [hnone, append_nil]
    exact inv.advances steps

lemma Run.ordered {first : TxnId} {h : HeapState}
    (run : Run PopsItself first order h) : Ordered order h := by
  induction run with
  | empty => exact ⟨nodup_nil, rfl, by simp, fun x hx => (nomatch hx), fun _ _ => rfl⟩
  | call _ _ hpop hcall ih => exact (call_effect ih hpop hcall).ordered ih

variable {d : DatabaseTxnId} {io : Io}

lemma commit_active {h : HeapState} (ht : t.state = .active) (hstatus : h.statusPoisoned = false) :
    h.commit x t .good = match (((h.set x { t with state := .commitPending }).set x
        { t with state := .committed }).releaseWriter x).removeParkedResolution x false with
      | (.error e, h) => (.error e, h)
      | (.ok _, h) => (.ok (), h.unregister x { t with state := .committed }) := by
  simp only [commit, finishCommit, hstatus, ht, Io.good]
  all_goals rfl

/-- With nothing failing below it, an active transaction commits and leaves the
deque as it was exactly when no transaction is parked. -/
lemma commit_active_iff {h : HeapState}
    (ht : t.state = .active) (hstatus : h.statusPoisoned = false) (hx : x ∉ h.parkedPrepared) :
    ((h.commit x t .good).1 = .ok () ∧
      (h.commit x t .good).2.parkedPrepared = h.parkedPrepared) ↔ h.parkedPrepared = [] := by
  rw [commit_active ht hstatus]
  obtain ⟨h₁, hh₁⟩ : ∃ h₁, ((h.set x { t with state := .commitPending }).set x
    { t with state := .committed }).releaseWriter x = h₁ := ⟨_, rfl⟩
  have hq : h₁.parkedPrepared = h.parkedPrepared := hh₁ ▸ releaseWriter_parkedPrepared
  rw [hh₁]
  cases hdeque : h.parkedPrepared with
  | nil =>
    have hnone : h₁.removeParkedResolution x false = (.ok (), h₁) := by
      simp [removeParkedResolution, hq, hdeque]
    simp [hnone, hq, hdeque]
  | cons y rest =>
    have hne : y ≠ x := fun heq => hx (by rw [hdeque, heq]; exact mem_cons_self ..)
    have herror : (h₁.removeParkedResolution x false).1 = .error (.preparedResolutionOrder x y) := by
      simp [removeParkedResolution, hq, hdeque, hne]
    cases hr : h₁.removeParkedResolution x false with
    | mk r h₂ =>
      obtain rfl : r = _ := by simpa [hr] using herror
      simp

def Op.resolves : Op → Option TxnId
  | .commit x _ | .commitPrepared x _ _ | .rollback x _ | .rollbackPrepared x _ _ => some x
  | _ => none

def Op.aborts : Op → Bool
  | .rollback _ _ | .rollbackPrepared _ _ _ => true
  | _ => false

lemma resolves_unparked {r : Except TransactionError Unit} (inv : Ordered order h)
    (hop : op.resolves = some x) (hx : x ∉ h.parkedPrepared) (hpop : PopsItself h op)
    (hcall : h.call op = some (r, h')) : h'.parkedPrepared = h.parkedPrepared := by
  have snd : ∀ {c : Call}, c = (r, h') → c.2 = h' := fun hc => by rw [hc]
  have absent : ∀ {P : Prop}, x ∈ h.parkedPrepared → P := fun hmem => absurd hmem hx
  cases op with
  | commit y io =>
    cases hop
    obtain ⟨t, ht, hc⟩ := Option.map_eq_some_iff.mp hcall
    obtain ⟨t', e⟩ := @commit_effect False h x t io ht inv.deque_nodup (hpop t ht)
    exact (snd hc ▸ e).move.unparked hx
  | commitPrepared y d io =>
    cases hop
    obtain ⟨t, ht, hc⟩ := Option.map_eq_some_iff.mp hcall
    obtain ⟨t', e⟩ := @commitPrepared_effect False h x t io d ht inv.deque_nodup (hpop t ht)
    exact (snd hc ▸ e).move.unparked hx
  | rollback y io =>
    cases hop
    obtain ⟨t, ht, hc⟩ := Option.map_eq_some_iff.mp hcall
    obtain ⟨t', e⟩ := @rollbackInternal_effect False h x t io false ht inv.deque_nodup absent
      fun _ => absent
    exact (snd hc ▸ e).move.unparked hx
  | rollbackPrepared y d io =>
    cases hop
    obtain ⟨t, ht, hc⟩ := Option.map_eq_some_iff.mp hcall
    obtain ⟨t', e⟩ := @rollbackPrepared_effect False h x t io d ht inv.deque_nodup absent
      fun _ => absent
    exact (snd hc ▸ e).move.unparked hx
  | _ => cases hop

lemma parked_states (ht : t.state.stage = .parked) :
    t.state = .parkedPreparePending ∨ t.state = .parkedPrepared := by
  cases hs : t.state <;> simp_all [TransactionState.stage]

lemma acquired_end {h : HeapState} {abort : Bool} {go : HeapState → Call}
    (hok : (match h.acquireParkedResolution x t abort with
      | (.error e, h) => ((.error e, h) : Call)
      | (.ok _, h) => go h) = (.ok (), h')) :
    (if abort then h.parkedPrepared.getLast? else h.parkedPrepared.head?) = some x := by
  cases ha : h.acquireParkedResolution x t abort with
  | mk r h₁ =>
    cases r with
    | error _ => rw [ha] at hok; cases hok
    | ok _ => exact (acquireParkedResolution_spec ha).2.2 rfl

lemma commitPrepared_parked (ht : t.state.stage = .parked)
    (hok : h.commitPrepared x t d io = (.ok (), h')) : h.parkedPrepared.head? = some x := by
  unfold commitPrepared at hok
  split at hok
  · cases hok
  rcases parked_states ht with hstate | hstate
  · rw [hstate] at hok
    cases hok
  · simp only [hstate] at hok
    exact acquired_end hok

lemma rollbackPrepared_parked (ht : t.state.stage = .parked)
    (hok : h.rollbackPrepared x t d io = (.ok (), h')) : h.parkedPrepared.getLast? = some x := by
  unfold rollbackPrepared rollbackInternal at hok
  split at hok
  · cases hok
  · split at hok
    · cases hok
    · rcases parked_states ht with hstate | hstate <;> simp only [hstate] at hok <;>
        exact acquired_end hok

/-- A parked transaction is committed only in front of the deque and aborted only
at its back. -/
lemma resolves_parked (hop : op.resolves = some x) (hx : h.isParked x)
    (hcall : h.call op = some (.ok (), h')) :
    (if op.aborts then h.parkedPrepared.getLast? else h.parkedPrepared.head?) = some x := by
  have parked : ∀ {t}, h.transactions x = some t → t.state.stage = .parked := fun ht => by
    simpa [isParked, stage, ht] using hx
  cases op with
  | commit y io =>
    cases hop
    obtain ⟨t, ht, hc⟩ := Option.map_eq_some_iff.mp hcall
    unfold commit at hc
    rcases parked_states (parked ht) with hstate | hstate <;> simp only [hstate] at hc <;>
      split at hc <;> cases hc
  | commitPrepared y d io =>
    cases hop
    obtain ⟨t, ht, hc⟩ := Option.map_eq_some_iff.mp hcall
    exact commitPrepared_parked (parked ht) hc
  | rollback y io =>
    cases hop
    obtain ⟨t, ht, hc⟩ := Option.map_eq_some_iff.mp hcall
    unfold rollback rollbackInternal at hc
    rcases parked_states (parked ht) with hstate | hstate <;> simp only [hstate] at hc <;>
      split at hc <;> cases hc
  | rollbackPrepared y d io =>
    cases hop
    obtain ⟨t, ht, hc⟩ := Option.map_eq_some_iff.mp hcall
    exact rollbackPrepared_parked (parked ht) hc
  | _ => cases hop

/-- In every run whose commits find their transaction in front of the deque, or the
deque empty, and whose repeated rollbacks find it at the back: the deque is the
order of parking without the transactions that are over, and exactly the parked
ones if and only if no outcome of them is half done. A transaction that is not parked leaves it
alone, and a parked one is committed only in front and aborted only at the back. -/
theorem Run.parked_chain {first : TxnId} {h : HeapState} (run : Run PopsItself first order h) :
    (order.Nodup ∧ (∀ x, h.isParked x → x ∈ order) ∧
      h.parkedPrepared = order.filter h.isUnresolved ∧
      (h.parkedPrepared = order.filter h.isParked ↔
        ∀ x ∈ order, h.stage x ≠ some .resolving)) ∧
    (∀ op x r h', op.resolves = some x → x ∉ h.parkedPrepared → PopsItself h op →
      h.call op = some (r, h') → h'.parkedPrepared = h.parkedPrepared) ∧
    (∀ x t, h.transactions x = some t → t.state = .active → h.statusPoisoned = false →
      ((∃ h', h.call (.commit x .good) = some (.ok (), h') ∧
        h'.parkedPrepared = h.parkedPrepared) ↔ h.parkedPrepared = [])) ∧
    (∀ op x h', op.resolves = some x → h.isParked x → h.call op = some (.ok (), h') →
      (if op.aborts then h.parkedPrepared.getLast? else h.parkedPrepared.head?) = some x) := by
  have inv := run.ordered
  refine ⟨⟨inv.nodup, inv.parked, inv.deque, ?_⟩,
    fun op x r h' hop hx hpop hcall => resolves_unparked inv hop hx hpop hcall,
    fun x t hx ht hstatus => ?_, fun op x h' hop hx hcall => resolves_parked hop hx hcall⟩
  · rw [inv.deque]
    constructor
    · intro heq x hx hresolving
      have hopen : x ∈ order.filter h.isUnresolved :=
        mem_filter.mpr ⟨hx, by simp [isUnresolved, hresolving]⟩
      rw [heq] at hopen
      simp [isParked, hresolving] at hopen
    · intro hnone
      exact filter_congr fun x hx => by simp [isUnresolved, isParked, hnone x hx]
  · have hout : x ∉ h.parkedPrepared := fun hmem =>
      inv.left_owner hx (inv.mem_of_mem_deque hmem) (by rw [ht]; rfl)
    rw [← commit_active_iff ht hstatus hout]
    have hcall : h.call (.commit x .good) = some (h.commit x t .good) := by
      simp [HeapState.call, hx]
    rw [hcall]
    constructor
    · rintro ⟨h', hc, hq⟩
      rw [Option.some.inj hc]
      exact ⟨rfl, hq⟩
    · rintro ⟨hok, hq⟩
      exact ⟨_, by rw [← hok], hq⟩

/-- Transaction 1 is parked; transaction 2, which wrote nothing, commits. The
commit is durable but reports an error, and the deque has lost transaction 1. -/
theorem read_only_commit_pops_parked :
    ∃ h h', Run (fun _ _ => True) 1 [1] h ∧ Run (fun _ _ => True) 1 [1] h' ∧
      h.call (.commit 2 .good) = some (.error (.preparedResolutionOrder 2 1), h') ∧
      h.parkedPrepared = [1] ∧ h.isParked 1 ∧ h'.isParked 1 ∧ h'.parkedPrepared = [] ∧
      h'.stage 2 = some .done := by
  have started : Run (fun _ _ => True) 1 _ _ :=
    .call (.begin true) (.call (.stageGroupPrepare 1 7 .good) (.call (.write 1 true false)
      (.call (.begin true) .empty trivial rfl) trivial rfl) trivial rfl) trivial rfl
  exact ⟨_, _, started, .call (.commit 2 .good) started trivial rfl, rfl, rfl, rfl, rfl, rfl, rfl⟩

/-- Transaction 1 commits before transaction 2 is parked and resolved. -/
theorem Run.parked_chain_resolved :
    ∃ h, Run PopsItself 1 [2] h ∧ h.parkedPrepared = [2].filter h.isUnresolved ∧
      h.parkedPrepared = [] := by
  have committed : Run PopsItself 1 _ _ :=
    .call (.begin true) (.call (.commit 1 .good) (.call (.begin true) .empty trivial rfl)
      (fun _ _ _ => .inl rfl) rfl) trivial rfl
  have parked : Run PopsItself 1 _ _ :=
    .call (.parkPrepared 2 7) (.call (.prepare 2 7 .good) (.call (.write 2 true false) committed
      trivial rfl) trivial rfl) trivial rfl
  have resolved : Run PopsItself 1 _ _ :=
    .call (.commitPrepared 2 7 .good) parked (fun _ _ _ => .inr rfl) rfl
  exact ⟨_, resolved, resolved.parked_chain.1.2.2.1, rfl⟩

end Netbadb.Heap
