import Netbadb.Mvcc.Moves

/-!
The moves that change rows: a write of the lease holder grows its own layer,
and vacuum takes away versions that are dead for every view.
-/

namespace Netbadb.Mvcc

open List Function HeapData StatusStore Nat

variable {Row Column Key : Type} {next : Option RowId} {cmax : CommandId}

namespace HeapData

variable {data : HeapData Row Column Key} {rowId : RowId} {old : Version Row}

lemma mem_of_find (h : data.find rowId = some old) : (rowId, old) ∈ data.rows := by
  unfold find at h
  obtain ⟨p, hp, rfl⟩ := Option.map_eq_some_iff.mp h
  have hid := find?_some hp
  simp only [decide_eq_true_eq] at hid
  exact hid ▸ mem_of_find?_eq_some hp

variable {p : RowId × Version Row} {version : Version Row} {position : Nat}

/-- Row ids are unique, so the named version is the only one in its slot. -/
lemma eq_of_find (hids : (data.rows.map (·.1)).Nodup) (h : data.find rowId = some old)
    (hp : p ∈ data.rows) (hid : p.1 = rowId) : p = (rowId, old) :=
  inj_on_of_nodup_map hids hp (mem_of_find h) hid

lemma find_of_mem (hids : (data.rows.map (·.1)).Nodup) (h : (rowId, old) ∈ data.rows) :
    data.find rowId = some old := by
  cases hfind : data.find rowId with
  | some v =>
    have := eq_of_find hids hfind h rfl
    simp only [Prod.mk.injEq, true_and] at this
    rw [this]
  | none =>
    unfold find at hfind
    have := find?_eq_none.mp (Option.map_eq_none_iff.mp hfind) _ h
    simp at this

lemma mem_place :
    p ∈ (data.place position rowId version).rows ↔ p = (rowId, version) ∨ p ∈ data.rows := by
  have hperm : (data.place position rowId version).rows.Perm ((rowId, version) :: data.rows) := by
    refine perm_middle.trans ?_
    rw [take_append_drop]
  rw [hperm.mem_iff, mem_cons]

lemma rowIds_place (hids : (data.rows.map (·.1)).Nodup) (hfresh : rowId ∉ data.rows.map (·.1)) :
    ((data.place position rowId version).rows.map (·.1)).Nodup := by
  have hperm : (data.place position rowId version).rows.Perm ((rowId, version) :: data.rows) := by
    refine perm_middle.trans ?_
    rw [take_append_drop]
  rw [(hperm.map _).nodup_iff]
  exact nodup_cons.mpr ⟨hfresh, hids⟩

lemma rowIds_expire (x : TxnId) (cmax : CommandId) (next : Option RowId) :
    (data.expire rowId x cmax next).rows.map (·.1) = data.rows.map (·.1) := by
  unfold expire
  rw [map_map]
  refine map_congr_left fun p _ => ?_
  simp only [comp_apply]
  split <;> rfl

lemma mem_expire {x : TxnId} (hp : p ∈ (data.expire rowId x cmax next).rows) :
    (p ∈ data.rows ∧ p.1 ≠ rowId) ∨
      ∃ q ∈ data.rows, q.1 = rowId ∧
        p = (q.1, { q.2 with header := q.2.header.expire x cmax next }) := by
  obtain ⟨q, hq, rfl⟩ := mem_map.mp hp
  by_cases hid : q.1 = rowId
  · exact .inr ⟨q, hq, hid, by rw [if_pos hid]⟩
  · rw [if_neg hid]
    exact .inl ⟨hq, hid⟩

end HeapData

section Writes

variable {s : HeapState Row Column Key} {x : TxnId} {txn : Txn}

/-- A running writer changes rows within its own layer. -/
lemma Inv.write (h : Inv s) (hx : s.txns x = some txn) (hactive : txn.phase = .active)
    (hwriter : x ∈ s.stack.map (·.1)) (data : HeapData Row Column Key)
    (hlayer : ∀ base, Layer x base s.data.rows → Layer x base data.rows)
    (hids : (data.rows.map (·.1)).Nodup)
    (hmarks : ∀ p ∈ data.rows, ∀ y, p.2.header.xmax = some y →
      (∃ q ∈ s.data.rows, q.2.header.xmax = some y ∧ q.2.header.cmax = p.2.header.cmax) ∨
        (y = x ∧ p.2.header.cmax = some txn.commandId)) : Inv { s with data } := by
  obtain ⟨base, rest, hstack⟩ := h.top_of_running hx hactive hwriter
  have hstacked := h.stacked
  rw [hstack] at hstacked
  exact
    { h with
      rowIds := hids
      marked := by
        intro p hp hd
        obtain ⟨y, hy⟩ := Option.ne_none_iff_exists'.mp hd
        rcases hmarks p hp y hy with ⟨q, hq, hqx, hqc⟩ | ⟨-, hown⟩
        · rw [← hqc]
          exact h.marked q hq (by simp [hqx])
        · simp [hown]
      stacked := by
        change Stacked s.store data.rows s.stack
        rw [hstack]
        cases hstacked with
        | above _ _ layer below => exact .above x base (hlayer _ layer) below
      commands := by
        intro y t hy ht
        obtain ⟨hcommand, hrows⟩ := h.commands y t hy ht
        refine ⟨hcommand, fun p hp hxmax c hc => ?_⟩
        rcases hmarks p hp y hxmax with ⟨q, hq, hqx, hqc⟩ | ⟨rfl, hown⟩
        · exact hrows q hq hqx c (hqc.trans hc)
        · rw [hx, Option.some.injEq] at hy
          subst hy
          rw [hown, Option.some.injEq] at hc
          exact le_of_eq hc.symm }

lemma Inv.insert (h : Inv s) (hx : s.txns x = some txn) (hactive : txn.phase = .active)
    (hwriter : x ∈ s.stack.map (·.1)) (position : Nat) {rowId : RowId} (hfresh : rowId ∉ s.data.rows.map (·.1)) (row : Row)
    (value : Column → Row → Key) :
    Inv { s with
      data := (s.data.place position rowId
        ⟨.insertedBy x txn.commandId, row⟩).addEntries value rowId row } := by
  refine h.write hx hactive hwriter _ (fun base layer => ?_) (rowIds_place h.rowIds hfresh) ?_
  · exact layer.place position _ rfl (fun y hy => nomatch hy)
  · intro p hp y hxmax
    rcases mem_place.mp hp with rfl | hp
    · cases hxmax
    · exact .inl ⟨p, hp, hxmax, rfl⟩

variable {rowId : RowId} {old : Version Row}

lemma Inv.live_of_find (h : Inv s) (hfind : s.data.find rowId = some old)
    (hlive : old.header.xmax = none) : ∀ p ∈ s.data.rows, p.1 = rowId → p.2.header.xmax = none := by
  intro p hp hid
  rw [eq_of_find h.rowIds hfind hp hid]
  exact hlive

lemma expire_marks {data : HeapData Row Column Key} {p : RowId × Version Row}
    (hp : p ∈ (data.expire rowId x cmax next).rows) {y : TxnId} (hxmax : p.2.header.xmax = some y) :
    (∃ q ∈ data.rows, q.2.header.xmax = some y ∧ q.2.header.cmax = p.2.header.cmax) ∨
      (y = x ∧ p.2.header.cmax = some cmax) := by
  rcases mem_expire hp with ⟨hp, -⟩ | ⟨q, -, -, rfl⟩
  · exact .inl ⟨p, hp, hxmax, rfl⟩
  · exact .inr ⟨(Option.some.inj hxmax).symm, rfl⟩

section

variable (h : Inv s) (hx : s.txns x = some txn) (hactive : txn.phase = .active)
  (hwriter : x ∈ s.stack.map (·.1)) (hfind : s.data.find rowId = some old) (hlive : old.header.xmax = none)
include h hx hactive hwriter hfind hlive

lemma Inv.update (position : Nat) {newRowId : RowId} (hfresh : newRowId ∉ s.data.rows.map (·.1))
    (row : Row) (value : Column → Row → Key) :
    Inv { s with
      data := ((s.data.expire rowId x txn.commandId (some newRowId)).place position newRowId
        ⟨.insertedBy x txn.commandId, row⟩).addEntries value newRowId row } := by
  refine h.write hx hactive hwriter _ (fun base layer => ?_) ?_ ?_
  · exact (layer.expire rowId _ _ (h.live_of_find hfind hlive)).place position _ rfl
      (fun y hy => nomatch hy)
  · refine rowIds_place ?_ ?_
    · rw [rowIds_expire]
      exact h.rowIds
    · rw [rowIds_expire]
      exact hfresh
  · intro p hp y hxmax
    rcases mem_place.mp hp with rfl | hp
    · cases hxmax
    · exact expire_marks hp hxmax

lemma Inv.delete : Inv { s with data := s.data.expire rowId x txn.commandId none } := by
  refine h.write hx hactive hwriter _ (fun base layer => ?_) ?_ fun p hp y => expire_marks hp
  · exact layer.expire rowId _ _ (h.live_of_find hfind hlive)
  · rw [rowIds_expire]
    exact h.rowIds

end

end Writes

section Vacuum

variable {s : HeapState Row Column Key}

/-- The vacuum's own transaction, which no row names, ends. -/
lemma Inv.vacuumEnded (h : Inv s) (status : TxnStatus) (nextLsn : CommitSeq)
    (hnext : s.nextLsn ≤ nextLsn)
    (hseq : ∀ seq, status = .committed seq →
      s.store.maximumCommitSeq < seq ∧ seq < nextLsn) :
    Inv { s with
      store := s.store.insertStatus s.nextTxnId status
      nextTxnId := s.nextTxnId + 1
      nextLsn := nextLsn } := by
  have hnew := h.fresh s.nextTxnId (le_refl _)
  obtain ⟨hbounded, hlsn, hviews⟩ := h.insertStatus_bounds s.nextTxnId hnext hseq
  exact
    { h with
      stacked := h.stacked.mono fun x seq hx => ⟨seq, committed_insertStatus hnew hx⟩
      known := by
        intro x txn hx
        obtain ⟨hd, ha, hlt⟩ := h.known x txn hx
        have hne : x ≠ s.nextTxnId := Nat.ne_of_lt hlt
        exact ⟨(update_of_ne hne ..).trans hd, (update_of_ne hne ..).trans ha,
          lt_succ_of_lt hlt⟩
      fresh := by
        intro x hx
        have hne : x ≠ s.nextTxnId := (Nat.ne_of_lt hx).symm
        exact (update_of_ne hne ..).trans (h.fresh x (le_of_succ_le hx))
      pending := fun x txn seq hx hp => lt_of_lt_of_le (h.pending x txn seq hx hp) hnext
      kept := fun x txn visible hx hkept => le_trans (h.kept x txn visible hx hkept)
        maximumCommitSeq_le_insertStatus
      bounded := hbounded
      lsn := hlsn
      views := hviews }

lemma Inv.vacuumStuck (h : Inv s) (hidle : s.writer = .idle) : Inv { s with
      store := s.store.markActive s.nextTxnId
      nextTxnId := s.nextTxnId + 1
      writer := .recoveryRequired } :=
  { h with
    stacked := h.stacked.mono fun x seq hx => ⟨seq, committed_markActive hx⟩
    top := fun x txn hx hrunning hmem => by
      have := (h.top x txn hx hrunning hmem).2
      simp [hidle] at this
    placed := fun _ _ => .inr (.inr rfl)
    known := by
      intro x txn hx
      obtain ⟨hd, ha, hlt⟩ := h.known x txn hx
      have hne : x ≠ s.nextTxnId := Nat.ne_of_lt hlt
      exact ⟨hd, (update_of_ne hne ..).trans ha, lt_succ_of_lt hlt⟩
    fresh := fun x hx => h.fresh x (le_of_succ_le hx) }

variable [DecidableEq Column] [DecidableEq Key]

lemma Inv.reclaim (h : Inv s) (hstack : s.stack = []) (value : Column → Row → Key)
    (dead : List (RowId × Version Row)) (rowGone entryGone : RowId → Bool) :
    Inv { s with data := s.data.reclaim value dead rowGone entryGone } := by
  have hsub : (s.data.reclaim value dead rowGone entryGone).rows.Sublist s.data.rows :=
    filter_sublist
  exact
    { h with
      rowIds := h.rowIds.sublist (hsub.map _)
      marked := fun p hp => h.marked p (hsub.subset hp)
      stacked := by
        have hstacked := h.stacked
        change Stacked s.store (s.data.reclaim value dead rowGone entryGone).rows s.stack
        rw [hstack] at hstacked ⊢
        cases hstacked with
        | bottom settled => exact .bottom fun p hp => settled p (hsub.subset hp)
      commands := by
        intro y t hy ht
        obtain ⟨hcommand, hrows⟩ := h.commands y t hy ht
        exact ⟨hcommand, fun p hp => hrows p (hsub.subset hp)⟩ }

/-- Every elementary move keeps the invariant. -/
lemma Inv.move (h : Inv s) {value : Column → Row → Key} {who : TxnId → Prop}
    {s' : HeapState Row Column Key} (hmove : Move value who s s') : Inv s' := by
  cases hmove with
  | begin level => exact h.begin level
  | statement x txn txn' added hx hactive hactive' hcommand hnext hkept hadded =>
    refine Inv.addViews (s := s.setTxn x (some txn')) ?_ added fun v hv => ⟨(hadded v hv).1, ?_⟩
    · exact h.withTxn hx (fun _ => .inl hactive) (fun _ => ⟨hactive, hcommand, hnext⟩)
        (fun seq hphase => by rw [hactive'] at hphase; cases hphase) hkept
    · intro y hy
      rw [(hadded v hv).2, Option.some.injEq] at hy
      exact hy ▸ (h.known x txn hx).1
  | readView visibleCsn hcurrent => exact h.addViews [_] (by simpa using hcurrent)
  | acquire x hidle => exact h.acquire x hidle
  | touch x txn hx hwriter hnew => exact h.touch hx hwriter hnew
  | insert x txn position rowId row hwho hx hactive hwriter hfresh =>
    exact h.insert hx hactive hwriter position hfresh row value
  | update x txn visible rowId old position newRowId row hwho hx hactive hwriter hfind hvisible
      hlive hfresh =>
    exact h.update hx hactive hwriter hfind hlive position hfresh row value
  | delete x txn visible rowId old hwho hx hactive hwriter hfind hvisible hlive =>
    exact h.delete hx hactive hwriter hfind hlive
  | buildIndex column rows => exact { h with }
  | prepare x txn hx hactive =>
    exact h.withTxn hx (fun _ => .inl hactive) nofun nofun fun visible => h.kept x txn visible hx
  | park x txn hx => exact h.park hx
  | appendCommit x txn hx =>
    refine @Inv.withTxn _ _ _ _ h.bumpLsn x txn _ hx (by simp [TxnPhase.Running]) (by simp) ?_
      (fun visible => h.kept x txn visible hx)
    intro seq hphase
    cases hphase
    exact lt_succ_self _
  | poison => exact h.poison
  | commit x txn seq hx hlater hlsn holdest hpops => exact h.commit hx hlater hlsn holdest hpops
  | undo x txn data hwho hx hundo => exact h.undo hx hundo
  | abort x txn data hwho hx hundo hpops => exact h.abort hx hundo hpops
  | dropped x txn hx => exact h.dropped hx
  | forgotten x txn hx hout writer hwriter => exact h.forgotten hx hout writer hwriter
  | reclaim dead rowGone entryGone hstack hdead =>
    exact h.reclaim hstack value dead rowGone entryGone
  | vacuumCommit =>
    refine h.vacuumEnded (.committed s.nextLsn) (s.nextLsn + 1) (le_succ _) ?_
    rintro seq hseq
    cases hseq
    exact ⟨h.lsn, lt_succ_self _⟩
  | vacuumUndone => exact h.vacuumEnded .aborted s.nextLsn (le_refl _) (by simp)
  | vacuumStuck hidle => exact h.vacuumStuck hidle

end Vacuum

end Netbadb.Mvcc
