import Netbadb.Heap.UndoSpec

/-!
Rollback of stacked transactions. A transaction writes only while it holds the
writer lease and gives the lease up by being parked or by ending, so the records
of the unresolved transactions are stacked: those of a later one start from the
pages that the earlier ones left. The newest is the only one that can be rolled
back, the oldest the only one that may commit.
-/

namespace Netbadb.Heap

open List

variable {Page : Type} [DecidableEq Page] {images : PageImages Page}

/-- An unresolved transaction: the pages it started on and its records. -/
structure Segment (Page : Type) where
  base : List Page
  changes : List (PageChange Page)
  /-- A rollback was tried and failed; the transaction keeps the lease. -/
  attempted : Bool

/-- The pages of a heap and its unresolved transactions, newest first. -/
structure Stack (Page : Type) where
  pages : List Page
  segments : List (Segment Page)

inductive StackOp (Page : Type) where
  | start
  | log (change : PageChange Page)
  | publish (change : PageChange Page)
  | commit
  | rollback (results : List (FileResult Page))

/-- A record that continues the records of the transaction, for a page that is in
the file or is appended to it. -/
def Logs (images : PageImages Page) (pages : List Page) (segment : Segment Page)
    (change : PageChange Page) : Prop :=
  Logged images segment.base (change :: segment.changes) ∧
    (change.before ≠ images.zero → change.pageId < pages.length)

inductive StackStep (images : PageImages Page) :
    Stack Page → StackOp Page → Stack Page → Prop
  | start {s} : (∀ top ∈ s.segments.head?, top.attempted = false) →
      StackStep images s .start { s with segments := ⟨s.pages, [], false⟩ :: s.segments }
  | log {s top rest change} : s.segments = top :: rest → top.attempted = false →
      Logs images s.pages top change →
      StackStep images s (.log change)
        { s with segments := { top with changes := change :: top.changes } :: rest }
  | publish {s top rest change} : s.segments = top :: rest → top.attempted = false →
      change ∈ top.changes → change.pageId < s.pages.length →
      StackStep images s (.publish change)
        { s with pages := s.pages.set change.pageId change.after }
  | extend {s top rest change} : s.segments = top :: rest → top.attempted = false →
      change ∈ top.changes → change.pageId = s.pages.length →
      StackStep images s (.publish change) { s with pages := s.pages ++ [change.after] }
  | commit {s newer oldest} : s.segments = newer ++ [oldest] → oldest.attempted = false →
      StackStep images s .commit { s with segments := newer }
  | rolledBack {s top rest results pages'} : s.segments = top :: rest →
      undoRecords images s.pages top.changes results = (.ok (), pages') →
      StackStep images s (.rollback results) ⟨pages', rest⟩
  | rollbackFailed {s top rest results e pages'} : s.segments = top :: rest →
      undoRecords images s.pages top.changes results = (.error e, pages') →
      StackStep images s (.rollback results) ⟨pages', { top with attempted := true } :: rest⟩

/-- What a rollback needs. An update of a page that its transaction reused keeps
the allocation identity. A rollback tears no page, and one that is called again
still finds in the file every page whose before-image it puts back. -/
def Recoverable (images : PageImages Page) (s : Stack Page) : StackOp Page → Prop
  | .log change => ∀ top ∈ s.segments.head?, KeepsIdentity images (change :: top.changes)
  | .rollback results => ∀ top ∈ s.segments.head?, Whole top.changes results ∧
      (top.attempted = true → InFile images top.changes s.pages)
  | _ => True

inductive StackRun (images : PageImages Page) (ok : Stack Page → StackOp Page → Prop) :
    Stack Page → Prop
  | opened {pages} : pages ≠ [] → StackRun images ok ⟨pages, []⟩
  | step {s op s'} : StackRun images ok s → ok s op → StackStep images s op s' →
      StackRun images ok s'

/-- Each transaction started on what the one before it left. -/
def Stacked (images : PageImages Page) : List Page → List (Segment Page) → Prop
  | pages, [] => pages ≠ []
  | pages, segment :: rest =>
    Logged images segment.base segment.changes ∧ KeepsIdentity images segment.changes ∧
      Ready images segment.base segment.changes pages ∧
      (segment.attempted = false → InFile images segment.changes pages) ∧
      (∀ below ∈ rest, below.attempted = false) ∧ Stacked images segment.base rest

variable {pages : List Page}

omit [DecidableEq Page] in
lemma Whole.nil {changes : List (PageChange Page)} : Whole changes [] := by
  cases changes <;> trivial

lemma Stacked.nonempty {segments : List (Segment Page)}
    (h : Stacked images pages segments) : pages ≠ [] := by
  induction segments generalizing pages with
  | nil => exact h
  | cons segment rest ih =>
    obtain ⟨_, _, ready, _, _, hrest⟩ := h
    have hbase := length_pos_of_ne_nil (ih hrest)
    exact ne_nil_of_length_pos (lt_of_lt_of_le hbase ready.low)

lemma Stacked.commit {newer : List (Segment Page)} {oldest : Segment Page}
    (h : Stacked images pages (newer ++ [oldest])) : Stacked images pages newer := by
  induction newer generalizing pages with
  | nil => exact h.nonempty
  | cons segment rest ih =>
    obtain ⟨log, keeps, ready, inFile, hbelow, hrest⟩ := h
    exact ⟨log, keeps, ready, inFile, fun s hs => hbelow s (mem_append_left _ hs), ih hrest⟩

omit [DecidableEq Page] in
lemma inFile_of {segment : Segment Page}
    (hfirst : segment.attempted = false → InFile images segment.changes pages)
    (hretry : segment.attempted = true → InFile images segment.changes pages) :
    InFile images segment.changes pages := by
  cases ha : segment.attempted with
  | false => exact hfirst ha
  | true => exact hretry ha

/-- Starting, logging and rolling back keep the stack. -/
lemma StackStep.stacked {s s' : Stack Page} {op : StackOp Page}
    (h : StackStep images s op s') (hok : Recoverable images s op)
    (inv : Stacked images s.pages s.segments) : Stacked images s'.pages s'.segments := by
  cases h with
  | start hfree =>
    refine ⟨.nil, nofun, .refl, fun _ _ _ _ hc => by simp at hc, ?_, inv⟩
    cases hs : s.segments with
    | nil => simp
    | cons top rest =>
      rw [hs] at inv hfree
      obtain ⟨_, _, _, _, hbelow, _⟩ := inv
      exact forall_mem_cons.mpr ⟨hfree top rfl, hbelow⟩
  | @log top rest change hs hfree hlogs =>
    rw [hs] at inv
    obtain ⟨log, keeps, ready, inFile, hbelow, hrest⟩ := inv
    refine ⟨hlogs.1, hok top (by rw [hs]; rfl), ready.log hlogs.1, fun _ => ?_, hbelow, hrest⟩
    intro j b a hc hb
    rcases mem_cons.mp hc with rfl | hc
    · exact hlogs.2 hb
    · exact inFile hfree j b a hc hb
  | publish hs hfree hmem hlt =>
    rw [hs] at inv
    obtain ⟨log, keeps, ready, inFile, hbelow, hrest⟩ := inv
    show Stacked images _ s.segments
    rw [hs]
    refine ⟨log, keeps, ready.drop hmem ⟨_, hmem, rfl, .inr rfl⟩, fun hf j b a hc hb => ?_, hbelow, hrest⟩
    rw [length_set]
    exact inFile hf j b a hc hb
  | extend hs hfree hmem hid =>
    rw [hs] at inv
    obtain ⟨log, keeps, ready, inFile, hbelow, hrest⟩ := inv
    show Stacked images _ s.segments
    rw [hs]
    refine ⟨log, keeps, ready.extend log hmem hid, fun hf j b a hc hb => ?_, hbelow, hrest⟩
    rw [length_append]
    exact Nat.lt_add_right _ (inFile hf j b a hc hb)
  | commit hs _ =>
    rw [hs] at inv
    exact inv.commit
  | @rolledBack top rest results pages' hs hundo =>
    rw [hs] at inv
    obtain ⟨log, keeps, ready, inFile, hbelow, hrest⟩ := inv
    obtain ⟨whole, hretry⟩ := hok top (by rw [hs]; rfl)
    obtain ⟨_, hbase, _⟩ :=
      undoRecords_spec hrest.nonempty log ready (inFile_of inFile hretry) keeps whole hundo
    show Stacked images pages' rest
    rw [hbase rfl]
    exact hrest
  | @rollbackFailed top rest results e pages' hs hundo =>
    rw [hs] at inv
    obtain ⟨log, keeps, ready, inFile, hbelow, hrest⟩ := inv
    obtain ⟨whole, hretry⟩ := hok top (by rw [hs]; rfl)
    obtain ⟨ready', _, _⟩ :=
      undoRecords_spec hrest.nonempty log ready (inFile_of inFile hretry) keeps whole hundo
    exact ⟨log, keeps, ready', nofun, hbelow, hrest⟩

lemma StackRun.stacked {s : Stack Page} (run : StackRun images (Recoverable images) s) :
    Stacked images s.pages s.segments := by
  induction run with
  | opened hpages => exact hpages
  | step _ hok hstep ih => exact hstep.stacked hok ih

/-- Roll the newest transactions back, one after the other, without a failure. -/
def rollbackNewest (images : PageImages Page) :
    Nat → Stack Page → Except UndoError Unit × Stack Page
  | 0, s => (.ok (), s)
  | n + 1, s =>
    match s.segments with
    | [] => (.ok (), s)
    | top :: rest =>
      match undoRecords images s.pages top.changes [] with
      | (.error e, pages) => (.error e, ⟨pages, { top with attempted := true } :: rest⟩)
      | (.ok _, pages) => rollbackNewest images n ⟨pages, rest⟩

/-- Rolling back down to a segment leaves the pages it started on. -/
lemma Stacked.rollbackNewest {front rest : List (Segment Page)}
    {segment : Segment Page} (inv : Stacked images pages (front ++ segment :: rest))
    (hfile : ∀ top ∈ (front ++ segment :: rest).head?, InFile images top.changes pages) :
    rollbackNewest images (front.length + 1) ⟨pages, front ++ segment :: rest⟩
      = (.ok (), ⟨segment.base, rest⟩) := by
  have top_undone : ∀ {pages : List Page} {top : Segment Page} {below : List (Segment Page)},
      Stacked images pages (top :: below) → InFile images top.changes pages →
      undoRecords images pages top.changes [] = (.ok (), top.base) := by
    intro pages top below inv hfile
    obtain ⟨log, keeps, ready, _, _, hrest⟩ := inv
    cases h : undoRecords images pages top.changes [] with
    | mk r pages' =>
      obtain ⟨_, hbase, hdone⟩ :=
        undoRecords_spec hrest.nonempty log ready hfile keeps .nil h
      have hr := hdone (by simp)
      rw [hr, hbase hr]
  induction front generalizing pages with
  | nil =>
    have h := top_undone inv (hfile segment rfl)
    simp only [nil_append, length_nil, rollbackNewest, h]
  | cons top front ih =>
    have h := top_undone inv (hfile top rfl)
    obtain ⟨_, _, _, _, hbelow, hrest⟩ := inv
    have hnext : ∀ next ∈ (front ++ segment :: rest).head?, InFile images next.changes top.base := by
      intro next hnext
      have hmem := mem_of_mem_head? hnext
      cases hfront : front ++ segment :: rest with
      | nil => rw [hfront] at hmem; simp at hmem
      | cons next' below =>
        have hrest' : Stacked images top.base (next' :: below) := hfront ▸ hrest
        have heq : next' = next := by
          rw [hfront] at hnext
          exact Option.some.inj hnext
        subst heq
        exact hrest'.2.2.2.1 (hbelow next' hmem)
    have hrec := ih hrest hnext
    rw [length_cons, rollbackNewest]
    simp only [cons_append, h]
    exact hrec

/-- In every run in which the oldest unresolved transaction is the one that commits
and in which rollbacks have what they need: rolling the newest transactions back,
down to any of them, leaves every page as that transaction found it. -/
theorem StackRun.rollback_restores {s : Stack Page} (run : StackRun images (Recoverable images) s)
    {front rest : List (Segment Page)} {segment : Segment Page}
    (hs : s.segments = front ++ segment :: rest) (hretry : Recoverable images s (.rollback [])) :
    rollbackNewest images (front.length + 1) s = (.ok (), ⟨segment.base, rest⟩) := by
  have inv := run.stacked
  have hstate : s = ⟨s.pages, front ++ segment :: rest⟩ := by rw [← hs]
  have hfile : ∀ top ∈ (front ++ segment :: rest).head?, InFile images top.changes s.pages := by
    intro top htop
    rw [← hs] at htop
    obtain ⟨below, hsegments⟩ := head?_eq_some_iff.mp htop
    rw [hsegments] at inv
    exact inFile_of inv.2.2.2.1 (hretry top htop).2
  rw [hstate]
  exact Stacked.rollbackNewest (hs ▸ inv) hfile

/-- Heap pages that are numbers, with 0 for the page of zeros. -/
def numberImages : PageImages Nat where
  zero := 0
  valid _ := true
  generation _ := none
  identity _ := none
  retired _ := false
  generation_of_identity := nofun

/-- A transaction that changed pages 1 and 2, appended page 3 and changed it again. -/
def appendingSegment : Segment Nat :=
  ⟨[9, 1, 5], [.update 3 3 4, .update 3 0 3, .update 2 5 6, .update 1 1 2], false⟩

/-- Each record of the segment is logged and its image published. -/
lemma appendingSegment_run (ok : Stack Nat → StackOp Nat → Prop)
    (hok : ∀ s op, (∀ results, op ≠ .rollback results) → ok s op) :
    StackRun numberImages ok ⟨[9, 2, 6, 4], [appendingSegment]⟩ := by
  have logged₁ : Logged numberImages [9, 1, 5] [.update 1 1 2] :=
    .update .nil rfl (by decide) rfl rfl
  have logged₂ : Logged numberImages [9, 1, 5] [.update 2 5 6, .update 1 1 2] :=
    .update logged₁ rfl (by decide) rfl rfl
  have logged₃ : Logged numberImages [9, 1, 5] appendingSegment.changes.tail := .append logged₂
  have logged₄ : Logged numberImages [9, 1, 5] appendingSegment.changes :=
    .update logged₃ rfl (by decide) rfl rfl
  have started : StackRun numberImages ok ⟨[9, 1, 5], [⟨[9, 1, 5], [], false⟩]⟩ :=
    .step (.opened (by decide)) (hok _ .start nofun) (.start nofun)
  have changed : ∀ {pages changes} (i : PageId) (before after : Nat),
      StackRun numberImages ok ⟨pages, [⟨[9, 1, 5], changes, false⟩]⟩ →
      Logged numberImages [9, 1, 5] (.update i before after :: changes) → i < pages.length →
      StackRun numberImages ok
        ⟨pages.set i after, [⟨[9, 1, 5], .update i before after :: changes, false⟩]⟩ :=
    fun i before after run log hi =>
      .step (.step run (hok _ (.log (.update i before after)) nofun)
        (.log rfl rfl ⟨log, fun _ => hi⟩)) (hok _ (.publish (.update i before after)) nofun)
        (.publish rfl rfl (mem_cons_self ..) hi)
  have both := changed 2 5 6 (changed 1 1 2 started logged₁ (by decide)) logged₂ (by decide)
  have appended : StackRun numberImages ok
      ⟨[9, 2, 6, 3], [⟨[9, 1, 5], appendingSegment.changes.tail, false⟩]⟩ :=
    .step (.step both (hok _ (.log (.update 3 0 3)) nofun)
      (.log rfl rfl ⟨logged₃, fun h => absurd rfl h⟩)) (hok _ (.publish (.update 3 0 3)) nofun)
      (.extend rfl rfl (mem_cons_self ..) rfl)
  exact changed 3 3 4 appended logged₄ (by decide)

/-- The first rollback cuts the appended page off, puts page 2 back in its frame and
fails to write it. Called again, it starts over from the record of the page that is
no longer there, fails, and leaves page 1 as the transaction wrote it. -/
theorem repeated_rollback_stuck :
    ∃ s s', StackRun numberImages (fun _ _ => True) s ∧
      StackStep numberImages s (.rollback [.done, .done, .failedAfter]) s' ∧
      s.segments.map (·.base) = [[9, 1, 5]] ∧ s'.pages = [9, 2, 5] ∧
      rollbackNewest numberImages 1 s' = (.error (.pageOutsideFile 3),
        ⟨[9, 2, 5], [{ appendingSegment with attempted := true }]⟩) :=
  ⟨⟨[9, 2, 6, 4], [appendingSegment]⟩, ⟨[9, 2, 5], [{ appendingSegment with attempted := true }]⟩,
    appendingSegment_run _ fun _ _ _ => trivial,
    .rollbackFailed rfl rfl, rfl, rfl, rfl⟩

theorem StackRun.rollback_restores_appended :
    ∃ s, StackRun numberImages (Recoverable numberImages) s ∧ s.pages = [9, 2, 6, 4] ∧
      rollbackNewest numberImages 1 s = (.ok (), ⟨[9, 1, 5], []⟩) := by
  have run := appendingSegment_run (Recoverable numberImages) fun s op hop => by
    cases op with
    | rollback results => exact absurd rfl (hop results)
    | log change => exact fun _ _ _ _ _ _ _ => rfl
    | _ => trivial
  refine ⟨_, run, rfl, ?_⟩
  exact @StackRun.rollback_restores _ _ _ _ run [] [] appendingSegment rfl fun top htop =>
    ⟨.nil, fun ha => by
      cases htop
      cases ha⟩

end Netbadb.Heap
