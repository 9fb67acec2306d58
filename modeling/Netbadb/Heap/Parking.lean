import Netbadb.Heap.Transaction

/-!
The deque of parked transactions. Every call moves the transaction it is made on
in one of four ways (`Move`), and from what a move does to the deque follows that,
along a run, the deque holds the parked transactions in the order in which they
were parked.

The moves need one condition. A commit pops the front of the deque whether or not
its transaction was parked, so it has to find it empty or its transaction in
front; a rollback that is tried again pops the back in the same way.
-/

namespace Netbadb.Heap

open List Function

/-- How far a transaction is: still with its owner, parked, with its outcome in
the log, or over. -/
inductive Stage where
  | owned
  | parked
  | resolving
  | done
  deriving DecidableEq

def TransactionState.stage : TransactionState → Stage
  | .active | .rollbackRequired | .preparePending | .prepared => .owned
  | .parkedPreparePending | .parkedPrepared => .parked
  | .commitPending | .rollbackPending => .resolving
  | .changeFinalizePending | .committed | .rolledBack => .done

/-- What a call may do to the stage of its transaction and to the deque; only the
calls with `mayPark` park it. -/
inductive Move (mayPark : Prop) (x : TxnId) : Stage → Stage → List TxnId → List TxnId → Prop
  | keep {s q} : Move mayPark x s s q q
  | resolve {s q} : s ≠ .done → Move mayPark x s .resolving q q
  | park {q} : mayPark → Move mayPark x .owned .parked q (q ++ [x])
  | finish {s q} : Move mayPark x s .done q (q.erase x)

lemma Move.of_resolving {p : Prop} {x : TxnId} {s s' : Stage} {q q' : List TxnId}
    (m : Move p x .resolving s' q q') (hs : s ≠ .done) : Move p x s s' q q' := by
  cases m with
  | keep | resolve _ => exact .resolve hs
  | finish => exact .finish

lemma Move.unparked {x : TxnId} {s s' : Stage} {q q' : List TxnId}
    (m : Move False x s s' q q') (hx : x ∉ q) : q' = q := by
  cases m with
  | keep | resolve _ => rfl
  | park h => exact h.elim
  | finish => exact erase_of_not_mem hx

/-- The only transaction that changes is `x`, from `t` to `t'`. -/
structure Effect (mayPark : Prop) (x : TxnId) (t t' : Transaction) (h h' : HeapState) :
    Prop where
  transactions : h'.transactions = update h.transactions x (some t')
  nextTxnId : h'.nextTxnId = h.nextTxnId
  move : Move mayPark x t.state.stage t'.state.stage h.parkedPrepared h'.parkedPrepared

/-- Nothing but the lease, the counters and the poison flag changes. -/
structure SameHandles (h h' : HeapState) : Prop where
  transactions : h'.transactions = h.transactions
  nextTxnId : h'.nextTxnId = h.nextTxnId

namespace HeapState

variable {p : Prop} {h h' : HeapState} {x : TxnId} {t t' : Transaction} {io : Io} {d : DatabaseTxnId}

section

variable (hx : h.transactions x = some t)
include hx

lemma effect_of_sameHandles (same : SameHandles h h')
    (hq : h'.parkedPrepared = h.parkedPrepared) : Effect p x t t h h' where
  transactions := by rw [same.transactions, update_eq_self_iff.mpr hx.symm]
  nextTxnId := same.nextTxnId
  move := hq ▸ .keep

lemma effect_self : Effect p x t t h h :=
  effect_of_sameHandles hx ⟨rfl, rfl⟩ rfl

lemma stays : ∃ t', Effect p x t t' h h := ⟨_, effect_self hx⟩

end

variable {t₁ : Transaction}

/-- A call that first logged the outcome of its transaction. -/
lemma Effect.of_logged (ht : t.state.stage ≠ .done) (ht₁ : t₁.state.stage = .resolving)
    (e : Effect p x t₁ t' (h.set x t₁) h') :
    Effect p x t t' h h' where
  transactions := by rw [e.transactions]; exact update_idem ..
  nextTxnId := e.nextTxnId
  move := Move.of_resolving (ht₁ ▸ e.move) ht

@[simp]
lemma releaseWriter_parkedPrepared : (h.releaseWriter x).parkedPrepared = h.parkedPrepared := by
  unfold releaseWriter
  split <;> rfl

lemma releaseWriter_sameHandles : SameHandles h (h.releaseWriter x) := by
  unfold releaseWriter
  split <;> exact ⟨rfl, rfl⟩

lemma statusFailed_effect (hx : h.transactions x = some t) :
    Effect p x t t h (h.statusFailed io) := by
  unfold statusFailed
  split
  · exact effect_self hx
  · exact effect_of_sameHandles hx ⟨rfl, rfl⟩ rfl

variable {r : Except TransactionError Unit} {abort : Bool} {h₁ : HeapState}

lemma leaseWriter_spec (hr : h.leaseWriter x = (r, h')) :
    SameHandles h h' ∧ h'.parkedPrepared = h.parkedPrepared := by
  unfold leaseWriter at hr
  split at hr
  · cases hr; exact ⟨⟨rfl, rfl⟩, rfl⟩
  · split at hr <;> cases hr <;> exact ⟨⟨rfl, rfl⟩, rfl⟩
  · cases hr; exact ⟨⟨rfl, rfl⟩, rfl⟩

@[simp]
lemma unregister_parkedPrepared : (h.unregister x t).parkedPrepared = h.parkedPrepared := by
  unfold unregister
  split <;> rfl

lemma unregister_transactions (hx : h.transactions x = some t) : (h.unregister x t).transactions
      = update h.transactions x (some { t with registered := false }) := by
  unfold unregister
  split
  · rfl
  have : { t with registered := false } = t := by
    cases t
    simp_all
  rw [this, update_eq_self_iff.mpr hx.symm]

lemma unregister_nextTxnId : (h.unregister x t).nextTxnId = h.nextTxnId := by
  unfold unregister
  split <;> rfl

/-- The transaction is at the end of the deque at which it is resolved, or there
is nothing to pop. -/
def AtEnd (h : HeapState) (x : TxnId) (abort : Bool) : Prop :=
  h.parkedPrepared = [] ∨
    (if abort then h.parkedPrepared.getLast? else h.parkedPrepared.head?) = some x

lemma erase_getLast {q : List TxnId} (hq : q.Nodup) (hx : q.getLast? = some x) :
    q.dropLast = q.erase x := by
  obtain ⟨front, rfl⟩ := getLast?_eq_some_iff.mp hx
  have hfront : x ∉ front := fun hmem =>
    (nodup_append.mp hq).2.2 x hmem x (mem_singleton_self x) rfl
  rw [dropLast_concat, erase_append_right _ hfront]
  simp

lemma removeParkedResolution_spec (hq : h.parkedPrepared.Nodup) (hend : h.AtEnd x abort) :
    ∃ h', h.removeParkedResolution x abort = (.ok (), h') ∧ SameHandles h h' ∧
      h'.parkedPrepared = h.parkedPrepared.erase x := by
  unfold removeParkedResolution
  rcases hend with hnil | hx
  · cases abort <;> simp only [hnil] <;> exact ⟨h, rfl, ⟨rfl, rfl⟩, by simp [hnil]⟩
  rw [hx]
  refine ⟨_, if_neg (not_not.mpr rfl), ⟨rfl, rfl⟩, ?_⟩
  cases abort with
  | true => exact erase_getLast hq hx
  | false =>
    obtain ⟨rest, hrest⟩ := head?_eq_some_iff.mp hx
    simp [hrest]

lemma acquireParkedResolution_spec (hr : h.acquireParkedResolution x t abort = (r, h')) :
    SameHandles h h' ∧ h'.parkedPrepared = h.parkedPrepared ∧
      (r = .ok () → (if abort then h.parkedPrepared.getLast? else h.parkedPrepared.head?) = some x) := by
  unfold acquireParkedResolution at hr
  split at hr
  · cases hr
    exact ⟨⟨rfl, rfl⟩, rfl, nofun⟩
  rename_i expected hexpected
  split at hr
  · cases hr
    exact ⟨⟨rfl, rfl⟩, rfl, nofun⟩
  · rename_i hself
    obtain ⟨same, hq⟩ := leaseWriter_spec hr
    exact ⟨same, hq, fun _ => hexpected.trans (congrArg some (not_not.mp hself))⟩

lemma finishCommit_effect (hx : h.transactions x = some t) (hq : h.parkedPrepared.Nodup)
    (hend : h.AtEnd x false) : ∃ t', Effect p x t t' h (h.finishCommit x t io).2 := by
  unfold finishCommit
  split
  · exact stays hx
  split
  · exact ⟨t, statusFailed_effect hx⟩
  obtain ⟨h₁, hremove, same, herase⟩ :=
    @removeParkedResolution_spec ((h.set x { t with state := .committed }).releaseWriter x) x
      false (by simpa [set] using hq) (by simpa [AtEnd, set] using hend)
  have htx : h₁.transactions
      = update h.transactions x (some { t with state := .committed }) := by
    rw [same.transactions, releaseWriter_sameHandles.transactions]
    rfl
  simp only [hremove]
  refine ⟨{ t with state := .committed, registered := false }, ?_, ?_, ?_⟩
  · rw [unregister_transactions (by rw [htx]; exact update_self ..), htx]
    exact update_idem ..
  · rw [unregister_nextTxnId, same.nextTxnId, releaseWriter_sameHandles.nextTxnId]
    rfl
  · rw [unregister_parkedPrepared, herase, releaseWriter_parkedPrepared]
    exact .finish

/-- The end of a rollback takes the transaction from the deque, if it was there. -/
lemma finishRollback_effect (hq : h.parkedPrepared.Nodup)
    (hend : x ∈ h.parkedPrepared → h.AtEnd x true) :
    ∃ t', Effect p x t t' h (h.finishRollback x t).2 := by
  unfold finishRollback
  have htx : ((h.set x { t with state := .rolledBack }).releaseWriter x).transactions
      = update h.transactions x (some { t with state := .rolledBack }) := by
    rw [releaseWriter_sameHandles.transactions]
    rfl
  have finished : ∀ {h₁ : HeapState},
      SameHandles ((h.set x { t with state := .rolledBack }).releaseWriter x) h₁ →
      h₁.parkedPrepared = h.parkedPrepared.erase x →
      Effect p x t { t with state := .rolledBack, registered := false } h
        (h₁.unregister x { t with state := .rolledBack }) := by
    intro h₁ same herase
    refine ⟨?_, ?_, ?_⟩
    · rw [unregister_transactions (by rw [same.transactions, htx]; exact update_self ..),
        same.transactions, htx]
      exact update_idem ..
    · rw [unregister_nextTxnId, same.nextTxnId, releaseWriter_sameHandles.nextTxnId]
      rfl
    · rw [unregister_parkedPrepared, herase]
      exact .finish
  have hparked : ((h.set x { t with state := .rolledBack }).releaseWriter x).parkedPrepared
      = h.parkedPrepared := releaseWriter_parkedPrepared
  simp only [hparked]
  split
  · rename_i hmem
    obtain ⟨h₁, hremove, same, herase⟩ :=
      @removeParkedResolution_spec ((h.set x { t with state := .rolledBack }).releaseWriter x) x
        true (by rw [hparked]; exact hq) (by unfold AtEnd; rw [hparked]; exact hend hmem)
    simp only [hremove]
    exact ⟨_, finished same (herase.trans (by rw [hparked]))⟩
  · rename_i hmem
    exact ⟨_, finished ⟨rfl, rfl⟩ (by rw [hparked, erase_of_not_mem hmem])⟩

section

variable (hx : h.transactions x = some t)
include hx

lemma publishAborted_effect
    (hq : h.parkedPrepared.Nodup) (hend : x ∈ h.parkedPrepared → h.AtEnd x true) :
    ∃ t', Effect p x t t' h (h.publishAborted x t io).2 := by
  unfold publishAborted
  split
  · exact stays hx
  split
  · exact ⟨t, statusFailed_effect hx⟩
  obtain ⟨t', e⟩ := @finishRollback_effect p h x t hq hend
  cases hf : h.finishRollback x t with
  | mk r h₁ =>
    rw [hf] at e
    cases r <;> exact ⟨t', e⟩

lemma completeRollback_effect (ht : t.state.stage = .resolving) (hq : h.parkedPrepared.Nodup)
    (hend : x ∈ h.parkedPrepared → h.AtEnd x true) :
    ∃ t', Effect p x t t' h (h.completeRollback x t io).2 := by
  unfold completeRollback
  split
  · exact publishAborted_effect hx hq hend
  split
  · exact stays hx
  split
  · split
    · exact ⟨{ t with undoStuck := true }, rfl, rfl, ht ▸ .keep⟩
    · exact stays hx
  split
  · exact stays hx
  · obtain ⟨t', e⟩ := @publishAborted_effect p (h.set x { t with rollbackComplete := true }) x
      { t with rollbackComplete := true } io (update_self ..) hq hend
    exact ⟨t', @Effect.of_logged p h _ x t t' { t with rollbackComplete := true }
      (by rw [ht]; decide) ht e⟩

lemma commitAppended_effect (ht : t.state.stage ≠ .done) (hq : h.parkedPrepared.Nodup)
    (hend : h.AtEnd x false) : ∃ t', Effect p x t t' h (h.commitAppended x t io).2 := by
  unfold commitAppended
  split
  · exact stays hx
  · obtain ⟨t', e⟩ := @finishCommit_effect p (h.set x { t with state := .commitPending }) x
      { t with state := .commitPending } io (update_self ..) hq hend
    exact ⟨t', Effect.of_logged ht rfl e⟩

lemma rollbackAppended_effect (ht : t.state.stage ≠ .done)
    (hq : h.parkedPrepared.Nodup) (hend : x ∈ h.parkedPrepared → h.AtEnd x true) :
    ∃ t', Effect p x t t' h (h.rollbackAppended x t io).2 := by
  unfold rollbackAppended
  split
  · exact stays hx
  · obtain ⟨t', e⟩ := @completeRollback_effect p (h.set x { t with state := .rollbackPending }) x
      { t with state := .rollbackPending } io (update_self ..) rfl hq hend
    exact ⟨t', Effect.of_logged ht rfl e⟩

lemma flushPrepare_effect (ht : t.state.stage = .owned) :
    ∃ t', Effect p x t t' h (h.flushPrepare x t io).2 := by
  unfold flushPrepare
  split
  · exact ⟨{ t with state := .prepared }, rfl, rfl, ht ▸ .keep⟩
  · exact stays hx

end

lemma park_effect {state : TransactionState} {pending : List TxnId}
    (ht : t.state.stage = .owned) (hstate : state.stage = .parked) :
    Effect True x t { t with state := state } h (h.park x t state pending) where
  transactions := congrArg (update · x _) releaseWriter_sameHandles.transactions
  nextTxnId := releaseWriter_sameHandles.nextTxnId
  move := by
    have hq : (h.park x t state pending).parkedPrepared = h.parkedPrepared ++ [x] :=
      releaseWriter_parkedPrepared
    rw [ht, hstate, hq]
    exact .park trivial

/-- The Prepare record of an active transaction leaves it with its owner. -/
lemma appendPrepare_spec (hr : h.appendPrepare x t d io = .ok (t₁, h₁)) :
    t₁.state.stage = .owned ∧ h₁ = h.set x t₁ := by
  unfold appendPrepare at hr
  split at hr
  · cases hr
  · cases hr
    exact ⟨rfl, rfl⟩

/-- A call that first logged the Prepare record of its transaction. -/
lemma Effect.of_prepared (ht : t.state.stage = .owned) (ht₁ : t₁.state.stage = .owned)
    (e : Effect p x t₁ t' (h.set x t₁) h') :
    Effect p x t t' h h' where
  transactions := by rw [e.transactions]; exact update_idem ..
  nextTxnId := e.nextTxnId
  move := ht ▸ ht₁ ▸ e.move

lemma begin_spec {append : Bool} (hr : h.begin append = (r, h')) :
    h' = h ∨ h'.parkedPrepared = h.parkedPrepared ∧ h'.nextTxnId = h.nextTxnId + 1 ∧
      h'.transactions
        = update h.transactions h.nextTxnId (some ⟨.active, none, false, false, true⟩) := by
  unfold begin at hr
  repeat' split at hr
  all_goals cases hr
  all_goals first | exact .inl rfl | exact .inr ⟨rfl, rfl, rfl⟩

lemma acquireWriter_spec (hr : h.acquireWriter x t = (r, h')) :
    SameHandles h h' ∧ h'.parkedPrepared = h.parkedPrepared ∧
      (r = .ok () → t.state = .active) := by
  unfold acquireWriter at hr
  split at hr
  · cases hr
    exact ⟨⟨rfl, rfl⟩, rfl, nofun⟩
  rename_i hstate
  split at hr
  · cases hr
    exact ⟨⟨rfl, rfl⟩, rfl, nofun⟩
  · obtain ⟨same, hq⟩ := leaseWriter_spec hr
    exact ⟨same, hq, fun _ => not_not.mp hstate⟩

section

variable {append compound : Bool} (hx : h.transactions x = some t)
include hx

lemma write_effect : ∃ t', Effect p x t t' h (h.write x t append compound).2 := by
  unfold write
  cases ha : h.acquireWriter x t with
  | mk r h₁ =>
    obtain ⟨same, hq, hactive⟩ := acquireWriter_spec ha
    have leased : Effect p x t t h h₁ := effect_of_sameHandles hx same hq
    cases r with
    | error _ => exact ⟨t, leased⟩
    | ok _ =>
      cases append with
      | true => exact ⟨t, leased⟩
      | false =>
        cases compound with
        | false => exact ⟨t, leased⟩
        | true =>
          refine ⟨{ t with state := .rollbackRequired },
            congrArg (update · x _) same.transactions, same.nextTxnId, ?_⟩
          rw [hactive rfl]
          exact hq ▸ Move.keep

lemma prepare_effect : ∃ t', Effect p x t t' h (h.prepare x t d io).2 := by
  unfold prepare
  split
  · exact stays hx
  split
  · exact stays hx
  split
  · rename_i hstate
    have ht : t.state.stage = .owned := by rw [hstate]; rfl
    split
    · exact stays hx
    · rename_i t₁ h₁ happend
      obtain ⟨ht₁, rfl⟩ := appendPrepare_spec happend
      obtain ⟨t', e⟩ := @flushPrepare_effect p (h.set x t₁) x t₁ io (update_self ..) ht₁
      exact ⟨t', Effect.of_prepared ht ht₁ e⟩
  · rename_i hstate
    split
    · exact flushPrepare_effect hx (by rw [hstate]; rfl)
    · exact stays hx
  · split <;> exact stays hx
  · exact stays hx

lemma stageGroupPrepare_effect : ∃ t', Effect True x t t' h (h.stageGroupPrepare x t d io).2 := by
  unfold stageGroupPrepare
  split
  · exact stays hx
  split
  · exact stays hx
  split
  · rename_i hstate
    have ht : t.state.stage = .owned := by rw [hstate]; rfl
    split
    · exact stays hx
    · rename_i t₁ h₁ happend
      obtain ⟨ht₁, rfl⟩ := appendPrepare_spec happend
      exact ⟨_, Effect.of_prepared ht ht₁ (park_effect ht₁ rfl)⟩
  · rename_i hstate
    split
    · exact ⟨_, park_effect (by rw [hstate]; rfl) rfl⟩
    · exact stays hx
  · split <;> exact stays hx
  · exact stays hx

lemma parkPrepared_effect : ∃ t', Effect True x t t' h (h.parkPrepared x t d).2 := by
  unfold parkPrepared
  split
  · exact stays hx
  split
  · exact stays hx
  · split
    · exact stays hx
    · rename_i hstate
      exact ⟨_, park_effect (by rw [not_not.mp hstate]; rfl) rfl⟩

lemma commit_effect (hq : h.parkedPrepared.Nodup)
    (hend : t.state = .active ∨ t.state = .commitPending → h.AtEnd x false) :
    ∃ t', Effect p x t t' h (h.commit x t io).2 := by
  unfold commit
  split
  · exact stays hx
  split
  · rename_i hstate
    split
    · exact stays hx
    · obtain ⟨t', e⟩ := @finishCommit_effect p (h.set x { t with state := .commitPending }) x
        { t with state := .commitPending } io (update_self ..) hq (hend (.inl hstate))
      exact ⟨t', Effect.of_logged (by rw [hstate]; decide) rfl e⟩
  · rename_i hstate
    exact finishCommit_effect hx hq (hend (.inr hstate))
  · exact stays hx

end

/-- The lease taken for a parked transaction leaves its effect the same. -/
lemma Effect.of_sameHandles (same : SameHandles h h₁) (hq : h₁.parkedPrepared = h.parkedPrepared)
    (e : Effect p x t t' h₁ h') :
    Effect p x t t' h h' where
  transactions := same.transactions ▸ e.transactions
  nextTxnId := same.nextTxnId ▸ e.nextTxnId
  move := hq ▸ e.move

lemma commitPrepared_effect (hx : h.transactions x = some t) (hq : h.parkedPrepared.Nodup)
    (hend : t.state = .prepared ∨ t.state = .commitPending → h.AtEnd x false) :
    ∃ t', Effect p x t t' h (h.commitPrepared x t d io).2 := by
  unfold commitPrepared
  split
  · exact stays hx
  split
  · rename_i hstate
    exact commitAppended_effect hx (by rw [hstate]; decide) hq (hend (.inl hstate))
  · rename_i hstate
    cases ha : h.acquireParkedResolution x t false with
    | mk r h₁ =>
      obtain ⟨same, hsame, hhead⟩ := acquireParkedResolution_spec ha
      cases r with
      | error _ => exact ⟨t, effect_of_sameHandles hx same hsame⟩
      | ok _ =>
        obtain ⟨t', e⟩ := @commitAppended_effect p h₁ x t io (by rw [same.transactions]; exact hx)
          (by rw [hstate]; decide) (hsame ▸ hq)
          (by unfold AtEnd; rw [hsame]; exact .inr (hhead rfl))
        exact ⟨t', Effect.of_sameHandles same hsame e⟩
  · rename_i hstate
    exact finishCommit_effect hx hq (hend (.inr hstate))
  all_goals exact stays hx

section Rollback

variable {allowPrepared : Bool} (hx : h.transactions x = some t) (hq : h.parkedPrepared.Nodup)
  (howned : x ∈ h.parkedPrepared → t.state.stage ≠ .owned)
  (hend : t.state = .rollbackPending → x ∈ h.parkedPrepared → h.AtEnd x true)
include hx hq howned hend

/-- A transaction still with its owner is not in the deque, and its rollback leaves it alone. -/
lemma rollbackInternal_effect :
    ∃ t', Effect p x t t' h (h.rollbackInternal x t io allowPrepared).2 := by
  have unparked : t.state.stage = .owned → ∃ t', Effect p x t t' h (h.rollbackAppended x t io).2 :=
    fun ht => rollbackAppended_effect hx (by rw [ht]; decide) hq
      fun hmem => absurd ht (howned hmem)
  have parked : t.state.stage = .parked → ∀ {h₁ r}, h.acquireParkedResolution x t true = (r, h₁) →
      ∃ t', Effect p x t t' h (match (r, h₁) with
        | (.error e, h) => ((.error e, h) : Call)
        | (.ok _, h) => h.rollbackAppended x t io).2 := by
    intro ht h₁ r ha
    obtain ⟨same, hsame, htail⟩ := acquireParkedResolution_spec ha
    cases r with
    | error _ => exact ⟨t, effect_of_sameHandles hx same hsame⟩
    | ok _ =>
      obtain ⟨t', e⟩ := @rollbackAppended_effect p h₁ x t io (by rw [same.transactions]; exact hx)
        (by rw [ht]; decide) (hsame ▸ hq)
        (fun _ => by unfold AtEnd; rw [hsame]; exact .inr (htail rfl))
      exact ⟨t', Effect.of_sameHandles same hsame e⟩
  unfold rollbackInternal
  split
  · exact stays hx
  split
  · rename_i hstate; exact unparked (by rw [hstate]; rfl)
  · rename_i hstate; exact unparked (by rw [hstate]; rfl)
  · rename_i hstate
    split
    · exact unparked (by rw [hstate]; rfl)
    · exact stays hx
  · rename_i hstate
    split
    · exact unparked (by rw [hstate]; rfl)
    · exact stays hx
  · rename_i hstate
    split
    · exact parked (by rw [hstate]; rfl) rfl
    · exact stays hx
  · rename_i hstate
    split
    · exact parked (by rw [hstate]; rfl) rfl
    · exact stays hx
  · rename_i hstate
    exact completeRollback_effect hx (by rw [hstate]; rfl) hq (hend hstate)
  · exact stays hx

lemma rollbackPrepared_effect : ∃ t', Effect p x t t' h (h.rollbackPrepared x t d io).2 := by
  unfold rollbackPrepared
  split
  · exact stays hx
  · exact rollbackInternal_effect hx hq howned hend

end Rollback

end HeapState

end Netbadb.Heap
