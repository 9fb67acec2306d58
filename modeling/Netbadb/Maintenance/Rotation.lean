import Mathlib.Data.Finset.Card
import Mathlib.Data.List.Chain
import Mathlib.Data.List.Sort
import Mathlib.Data.Prod.Lex

/-!
Manual maintenance takes one action a step: among the eligible candidates the class
that goes first, and in it the target after the cursor. The one cursor holds the last
action of any class, so a rotation lasts until a class before it has work.
-/

namespace Netbadb.Maintenance

open List

structure MaintenanceBudget where
  maxWorkUnits : Nat
  maxReadBytes : Nat
  maxWriteBytes : Nat
  maxActions : Nat

structure MaintenanceEstimate where
  workUnits : Nat
  readBytes : Nat
  writeBytes : Nat

inductive MaintenanceAction where
  | advanceColumnar (projectionId maxBatches maxChangeBytes : Nat)
  | compactColumnar (projectionId : Nat)
  | gcChangeStream (tableId storageId : Nat)
  | flushLsm (tableId storageId : Nat)
  | compactLsm (tableId storageId : Nat)

inductive MaintenanceBlocker where
  | actionBudgetExhausted | workBudgetExceeded | readBudgetExceeded | writeBudgetExceeded
  | busy | snapshotProjection | projectionFresh | projectionLagging | rebuildRequired
  | unavailable | noDelta | noRetentionConsumer | noReclaimableHistory | retentionUnsafe
  | historyUnavailable | recoveryRequired | memtableNotEmpty

structure MaintenanceCandidate where
  action : MaintenanceAction
  estimate : MaintenanceEstimate
  eligible : Bool
  blocker : Option MaintenanceBlocker

@[ext] structure MaintenanceCursor where
  actionClass : Nat
  target : Nat
deriving DecidableEq

def budgetBlocker (estimate : MaintenanceEstimate) (budget : MaintenanceBudget) :
    Option MaintenanceBlocker :=
  if budget.maxActions = 0 then some .actionBudgetExhausted
  else if estimate.workUnits > budget.maxWorkUnits then some .workBudgetExceeded
  else if estimate.readBytes > budget.maxReadBytes then some .readBudgetExceeded
  else if estimate.writeBytes > budget.maxWriteBytes then some .writeBudgetExceeded
  else none

def candidate (action : MaintenanceAction) (estimate : MaintenanceEstimate)
    (structuralBlocker : Option MaintenanceBlocker) (busy : Bool) (budget : MaintenanceBudget) :
    MaintenanceCandidate :=
  let blocker := structuralBlocker.or (if busy then some .busy else budgetBlocker estimate budget)
  ⟨action, estimate, blocker.isNone, blocker⟩

def actionPriority : MaintenanceAction → Nat
  | .flushLsm _ _ => 0
  | .advanceColumnar _ _ _ => 1
  | .gcChangeStream _ _ => 2
  | .compactLsm _ _ => 3
  | .compactColumnar _ => 4

def actionCursor : MaintenanceAction → MaintenanceCursor
  | .flushLsm _ storageId => ⟨0, storageId⟩
  | .advanceColumnar projectionId _ _ => ⟨1, projectionId⟩
  | .gcChangeStream _ storageId => ⟨2, storageId⟩
  | .compactLsm _ storageId => ⟨3, storageId⟩
  | .compactColumnar projectionId => ⟨4, projectionId⟩

variable (cursor : Option MaintenanceCursor)

def compareCandidates (left right : MaintenanceCandidate) : Ordering :=
  let l := actionCursor left.action
  let r := actionCursor right.action
  (compare (actionPriority left.action) (actionPriority right.action)).then
    ((compare l.actionClass r.actionClass).then (compare l.target r.target))

def compareWithCursor (left right : MaintenanceCandidate) : Ordering :=
  let priority := compare (actionPriority left.action) (actionPriority right.action)
  let l := actionCursor left.action
  let r := actionCursor right.action
  if priority ≠ .eq then priority
  else if l.actionClass ≠ r.actionClass then compare l.actionClass r.actionClass
  else
    match cursor.filter (·.actionClass = l.actionClass) with
    | none => compare l.target r.target
    | some c =>
      (compare (decide (r.target > c.target)) (decide (l.target > c.target))).then
        (compare l.target r.target)

/-- `Iterator::min_by`: the first of the least elements. -/
def minBy {α : Type} (cmp : α → α → Ordering) : List α → Option α
  | [] => none
  | a :: l => some (l.foldl (fun x y => if cmp x y = .gt then y else x) a)

/-- The decision alone: the report lists the sorted candidates too. -/
def planMaintenance (candidates : List MaintenanceCandidate) : Option MaintenanceCandidate :=
  minBy (compareWithCursor cursor)
    ((candidates.insertionSort (compareCandidates · · ≠ .gt)).filter (·.eligible))

/-- What a step finds, and how the action it takes ends. -/
structure Inspected where
  budget : MaintenanceBudget
  groupCommit : Bool
  busy : Bool
  work : List (MaintenanceAction × MaintenanceEstimate × Option MaintenanceBlocker)
  succeeds : Bool

def maintenanceState (o : Inspected) : List MaintenanceCandidate :=
  o.work.map fun w => candidate w.1 w.2.1 w.2.2 o.busy o.budget

/-- The action that succeeded, if any, and the cursor. -/
def maintenanceStep (o : Inspected) : Option MaintenanceAction × Option MaintenanceCursor :=
  if o.groupCommit then (none, cursor)
  else
    match planMaintenance cursor (maintenanceState o) with
    | none => (none, cursor)
    | some decision =>
      if o.succeeds then (some decision.action, some (actionCursor decision.action))
      else (none, cursor)

/-- The successful actions of a run, by class and target. -/
def performed (cursor : Option MaintenanceCursor) : List Inspected → List MaintenanceCursor
  | [] => []
  | o :: rest =>
    let (action, cursor) := maintenanceStep cursor o
    (action.map actionCursor).toList ++ performed cursor rest

lemma minBy_eq_some {α β : Type} [LinearOrder β] {cmp : α → α → Ordering} {key : α → β}
    (hcmp : ∀ x y, cmp x y = .gt ↔ key y < key x) {l : List α} {m : α}
    (h : minBy cmp l = some m) : m ∈ l ∧ ∀ x ∈ l, key m ≤ key x := by
  cases l with
  | nil => cases h
  | cons a l =>
    obtain rfl := Option.some.inj h
    clear h
    induction l generalizing a with
    | nil => simp
    | cons b l ih =>
      rw [foldl_cons]
      by_cases hgt : cmp a b = .gt
      · obtain ⟨hmem, hle⟩ := ih b
        have hb := hle b mem_cons_self
        have hba := ((hcmp a b).mp hgt).le
        rw [if_pos hgt]
        exact ⟨mem_cons_of_mem _ hmem, forall_mem_cons.mpr ⟨hb.trans hba, hle⟩⟩
      · obtain ⟨hmem, hle⟩ := ih a
        obtain ⟨ha, hrest⟩ := forall_mem_cons.mp hle
        have hab : key a ≤ key b := not_lt.mp fun hlt => hgt ((hcmp a b).mpr hlt)
        rw [if_neg hgt]
        refine ⟨?_, forall_mem_cons.mpr ⟨ha, forall_mem_cons.mpr ⟨ha.trans hab, hrest⟩⟩⟩
        rcases mem_cons.mp hmem with h | h
        · exact mem_cons.mpr (.inl h)
        · exact mem_cons_of_mem _ (mem_cons_of_mem _ h)

/-- The class, whether the cursor has passed the target, and the target. -/
def rank (c : MaintenanceCursor) : ℕ ×ₗ ℕ ×ₗ ℕ :=
  toLex (c.actionClass, toLex ((cursor.filter (·.actionClass = c.actionClass)).elim 0
    fun last => if last.target < c.target then 0 else 1, c.target))

lemma actionPriority_eq (action : MaintenanceAction) :
    actionPriority action = (actionCursor action).actionClass := by
  cases action <;> rfl

lemma compareWithCursor_eq_gt (left right : MaintenanceCandidate) :
    compareWithCursor cursor left right = .gt ↔
      rank cursor (actionCursor right.action) < rank cursor (actionCursor left.action) := by
  simp only [compareWithCursor, actionPriority_eq, rank, Prod.Lex.toLex_lt_toLex]
  generalize actionCursor left.action = l
  generalize actionCursor right.action = r
  rcases lt_trichotomy l.actionClass r.actionClass with h | h | h
  · simp [compare_lt_iff_lt.mpr h, h.not_gt, h.ne']
  · -- In one class the cursor counts when it is of that class.
    rcases cursor with - | last
    · simp [h, compare_gt_iff_gt]
    by_cases hlast : last.actionClass = r.actionClass
    · by_cases hl : last.target < l.target <;> by_cases hr : last.target < r.target <;>
        simp [h, hlast, hl, hr, compare_gt_iff_gt, Option.filter_some,
          show compare false true = .lt from rfl, show compare true false = .gt from rfl]
    · simp [h, hlast, compare_gt_iff_gt, Option.filter_some]
  · simp [compare_gt_iff_gt.mpr h, h]

/-- No group commit is open, and an action that is taken ends well. -/
def Inspected.Acts (o : Inspected) : Prop := o.groupCommit = false ∧ o.succeeds = true

/-- The target has an eligible candidate of its class. -/
def Eligible (c : MaintenanceCursor) (o : Inspected) : Prop :=
  ∃ x ∈ maintenanceState o, x.eligible = true ∧ actionCursor x.action = c

lemma planMaintenance_eq_some {o : Inspected} {d : MaintenanceCandidate}
    (h : planMaintenance cursor (maintenanceState o) = some d) :
    Eligible (actionCursor d.action) o ∧
      ∀ c, Eligible c o → rank cursor (actionCursor d.action) ≤ rank cursor c := by
  obtain ⟨hmem, hle⟩ := minBy_eq_some (compareWithCursor_eq_gt cursor) h
  simp only [mem_filter, mem_insertionSort] at hmem hle
  refine ⟨⟨d, hmem.1, hmem.2, rfl⟩, ?_⟩
  rintro _ ⟨x, hx, heligible, rfl⟩
  exact hle x ⟨hx, heligible⟩

lemma performed_cons (o : Inspected) (rest : List Inspected) :
    performed cursor (o :: rest) = performed cursor rest ∨
      ∃ d, o.Acts ∧ (Eligible d o ∧ ∀ c, Eligible c o → rank cursor d ≤ rank cursor c) ∧
        performed cursor (o :: rest) = d :: performed (some d) rest := by
  simp only [performed, maintenanceStep]
  split
  · exact .inl rfl
  split
  · exact .inl rfl
  rename_i hgroup _ decision hplan
  split
  · rename_i hsucceeds
    exact .inr ⟨_, ⟨by simpa using hgroup, hsucceeds⟩, planMaintenance_eq_some _ hplan, rfl⟩
  · exact .inl rfl

variable {steps : List Inspected} {cursor} {first second : MaintenanceCursor}

lemma eligible_of_performed (h : first ∈ performed cursor steps) :
    ∃ o ∈ steps, o.Acts ∧ Eligible first o ∧
      ∀ c, Eligible c o → first.actionClass ≤ c.actionClass := by
  induction steps generalizing cursor with
  | nil => cases h
  | cons o rest ih =>
    simp only [mem_cons, exists_eq_or_imp]
    rcases performed_cons cursor o rest with hstay | ⟨d, hacts, ⟨heligible, hle⟩, hmove⟩
    · exact .inr (ih (hstay ▸ h))
    rw [hmove] at h
    rcases mem_cons.mp h with rfl | h
    · refine .inl ⟨hacts, heligible, fun c hc => ?_⟩
      exact (Prod.Lex.toLex_le_toLex.mp (hle c hc)).elim le_of_lt fun h => h.1.le
    · exact .inr (ih h)

/-- Each action finds the cursor where the action before it has left it. -/
lemma isChain_performed (heligible : ∀ o ∈ steps, Eligible second o) :
    (cursor.toList ++ performed cursor steps).IsChain
      fun a b => rank (some a) b ≤ rank (some a) second := by
  induction steps generalizing cursor with
  | nil => cases cursor <;> simp [performed]
  | cons o rest ih =>
    obtain ⟨ho, hrest⟩ := forall_mem_cons.mp heligible
    rcases performed_cons cursor o rest with hstay | ⟨d, -, ⟨-, hle⟩, hmove⟩
    · exact hstay ▸ ih hrest
    have hnext := @ih (some d) hrest
    rw [hmove]
    cases cursor with
    | none => exact hnext
    | some a => exact .cons_cons (hle _ ho) hnext

/-- Going up from `f`, and round past the last target, `t` is met before `s`. -/
def Ahead (f s t : Nat) : Prop :=
  f ≤ t ∧ t < s ∨ s < f ∧ (f ≤ t ∨ t < s)

lemma Ahead.next {k f s t : Nat} {d : MaintenanceCursor} (h : Ahead f s t)
    (hle : rank (some ⟨k, t⟩) d ≤ rank (some ⟨k, t⟩) ⟨k, s⟩) (hclass : ¬ d.actionClass < k)
    (hne : d ≠ ⟨k, s⟩) : d.actionClass = k ∧ d.target ≠ f ∧ Ahead f s d.target := by
  obtain ⟨c, u⟩ := d
  simp only [rank, Prod.Lex.toLex_le_toLex, Option.filter_some, decide_eq_true_eq] at hle hclass
  obtain rfl : c = k := by omega
  have hus : u ≠ s := fun heq => hne (heq ▸ rfl)
  unfold Ahead at h ⊢
  simp only [lt_irrefl, if_true, Option.elim_some, true_and, false_or] at hle
  split at hle <;> split at hle <;> refine ⟨rfl, ?_, ?_⟩ <;> simp only [] <;> omega

/-- From a target before `s` the rotation meets `s` before it is back at `f`. -/
lemma mem_of_return {k f s t : Nat} (hfs : f ≠ s) (ht : Ahead f s t)
    {between : List MaintenanceCursor}
    (h : (⟨k, t⟩ :: (between ++ [⟨k, f⟩])).IsChain
      fun a b => rank (some a) b ≤ rank (some a) ⟨k, s⟩)
    (hclass : ∀ a ∈ between, ¬ a.actionClass < k) : ⟨k, s⟩ ∈ between := by
  induction between generalizing t with
  | nil =>
    exact absurd rfl (ht.next (isChain_cons_cons.mp h).1 (lt_irrefl k) (by simp [hfs])).2.1
  | cons d between ih =>
    obtain ⟨hle, hnext⟩ := isChain_cons_cons.mp h
    obtain ⟨hd, hbetween⟩ := forall_mem_cons.mp hclass
    by_cases hs : d = ⟨k, s⟩
    · exact hs ▸ mem_cons_self
    obtain ⟨rfl, -, hahead⟩ := ht.next hle hd hs
    exact mem_cons_of_mem _ (ih hahead hnext hbetween)

/-- While no class that goes before has eligible work at a step that acts, a target that
stays eligible is served between any two actions on another, and once in as many actions
as its class has targets. -/
theorem rotation_fair (heligible : ∀ o ∈ steps, Eligible second o)
    (hquiet : ∀ o ∈ steps, o.Acts → ∀ c, Eligible c o → ¬ c.actionClass < second.actionClass) :
    (∀ first between, first ≠ second →
      first :: (between ++ [first]) <:+: performed cursor steps → second ∈ between) ∧
    ∀ (targets : Finset Nat) (window : List MaintenanceCursor), second.target ∈ targets →
      (∀ o ∈ steps, ∀ c, Eligible c o → c.actionClass = second.actionClass →
        c.target ∈ targets) →
      window <:+: performed cursor steps → targets.card ≤ window.length → second ∈ window := by
  have hof : ∀ a ∈ performed cursor steps, a.actionClass = second.actionClass := fun a ha => by
    obtain ⟨o, ho, hacts, he, hle⟩ := eligible_of_performed ha
    exact le_antisymm (hle _ (heligible o ho)) (not_lt.mp (hquiet o ho hacts a he))
  have hreturn : ∀ first between, first ≠ second →
      first :: (between ++ [first]) <:+: performed cursor steps → second ∈ between := by
    rintro ⟨k, f⟩ between hne hpart
    have hchain := IsChain.infix (isChain_performed heligible).right_of_append hpart
    obtain ⟨k', s⟩ := second
    obtain rfl : k = k' := hof _ (hpart.subset mem_cons_self)
    have hfs : f ≠ s := fun h => hne (h ▸ rfl)
    refine mem_of_return hfs ?_ hchain fun a ha =>
      (hof a (hpart.subset (mem_cons_of_mem _ (mem_append_left _ ha)))).not_lt
    unfold Ahead
    omega
  refine ⟨hreturn, fun targets window hsecond htargets hwindow hcard => ?_⟩
  by_contra hnot
  -- A target that comes twice would have the second between: all are different.
  have hnodup : window.Nodup := by
    refine nodup_iff_sublist.mpr fun first hsub => ?_
    obtain ⟨r₁, r₂, rfl, hfirst, hlast⟩ := cons_sublist_iff.mp hsub
    obtain ⟨l, between, rfl⟩ := append_of_mem hfirst
    obtain ⟨between', r, rfl⟩ := append_of_mem (singleton_sublist.mp hlast)
    have hmem := hreturn first (between ++ between') (fun h => hnot (by simp [h]))
      (.trans ⟨l, r, by simp⟩ hwindow)
    rcases mem_append.mp hmem with h | h <;> simp [h] at hnot
  have hsub : (window.map (·.target)).toFinset ⊆ targets.erase second.target := by
    intro t ht
    obtain ⟨a, ha, rfl⟩ := mem_map.mp (mem_toFinset.mp ht)
    obtain ⟨o, ho, -, he, -⟩ := eligible_of_performed (hwindow.subset ha)
    have hclass := hof a (hwindow.subset ha)
    refine Finset.mem_erase.mpr ⟨fun h => hnot ?_, htargets o ho a he hclass⟩
    rwa [← MaintenanceCursor.ext hclass h]
  have hle := Finset.card_le_card hsub
  rw [toFinset_card_of_nodup (hnodup.map_on fun a ha b hb h =>
    MaintenanceCursor.ext
      ((hof a (hwindow.subset ha)).trans (hof b (hwindow.subset hb)).symm) h), length_map,
    Finset.card_erase_of_mem hsecond] at hle
  have := Finset.card_pos.mpr ⟨_, hsecond⟩
  omega

/-- Two projections that lag, beside the memtables that can be flushed. -/
def lagging (memtables : List Nat) : Inspected :=
  ⟨⟨10, 1000, 1000, 1⟩, false, false,
    memtables.map (fun id => (.flushLsm id id, ⟨1, 1, 1⟩, none)) ++
      [(.advanceColumnar 1 1 1, ⟨1, 1, 1⟩, none), (.advanceColumnar 2 1 1, ⟨1, 1, 1⟩, none)], true⟩

theorem rotation_fair_two :
    performed none (replicate 3 (lagging [])) = [⟨1, 1⟩, ⟨1, 2⟩, ⟨1, 1⟩] ∧
      (⟨1, 2⟩ : MaintenanceCursor) ∈ [⟨1, 2⟩] := by
  refine ⟨by decide, (@rotation_fair none (replicate 3 (lagging [])) ⟨1, 2⟩
    (by unfold Eligible; decide) ?_).1 ⟨1, 1⟩ _ (by decide) (by decide)⟩
  rintro o ho - _ ⟨x, hx, -, rfl⟩
  obtain rfl := eq_of_mem_replicate ho
  revert x
  decide

/-- A flush takes the cursor out of the class: the first projection is advanced again and
again, and the second, eligible all the time, never. -/
theorem flush_restarts_rotation :
    (∀ o ∈ [lagging [9], lagging []], Eligible ⟨1, 1⟩ o ∧ Eligible ⟨1, 2⟩ o) ∧
      ∀ n, performed none (replicate n [lagging [9], lagging []]).flatten =
        (replicate n [⟨0, 9⟩, ⟨1, 1⟩]).flatten := by
  refine ⟨by unfold Eligible; decide, fun n => ?_⟩
  suffices h : ∀ cursor, cursor = none ∨ cursor = some ⟨1, 1⟩ →
      performed cursor (replicate n [lagging [9], lagging []]).flatten =
        (replicate n [⟨0, 9⟩, ⟨1, 1⟩]).flatten from h none (.inl rfl)
  induction n with
  | zero => intros; rfl
  | succ n ih =>
    rintro _ (rfl | rfl) <;>
    · rw [replicate_succ, flatten_cons, replicate_succ, flatten_cons, ← ih _ (.inr rfl)]
      rfl

end Netbadb.Maintenance
