import Netbadb.Heap.PhysicalUndo

/-!
Why undoing the records of a transaction restores its pages. `Logged` says how
the records of a transaction continue each other, `Ready` what the pages may look
like while the transaction runs or is being undone, and both together that every
record can be undone and the pages end as they were.
-/

namespace Netbadb.Heap

open List Option PageChange Nat

variable {Page : Type} [DecidableEq Page] {images : PageImages Page} {base pages : List Page}
  {changes : List (PageChange Page)} {change : PageChange Page} {page last : Page}

/-- The image of a page after the given records, newest first. -/
def lastImage (base : List Page) : List (PageChange Page) → PageId → Option Page
  | [], i => base[i]?
  | change :: rest, i => if change.pageId = i then some change.after else lastImage base rest i

/-- How many pages the records append to the file. -/
def newCount (images : PageImages Page) (changes : List (PageChange Page)) : Nat :=
  changes.countP fun change => change.before = images.zero

/-- The records of a transaction that started on `base`, newest first. An update
continues the last image of its page in one generation, a new page follows the
last one, and a transition takes a page that the transaction has not touched. -/
inductive Logged (images : PageImages Page) (base : List Page) : List (PageChange Page) → Prop
  | nil : Logged images base []
  | update {changes i before after} : Logged images base changes →
      lastImage base changes i = some before → before ≠ images.zero → images.valid before →
      images.generation before = images.generation after →
      Logged images base (.update i before after :: changes)
  | append {changes after} : Logged images base changes →
      Logged images base
        (.update (base.length + newCount images changes) images.zero after :: changes)
  | transition {changes i before after} : Logged images base changes →
      i ∉ changes.map (·.pageId) → base[i]? = some before → before ≠ images.zero →
      validateTransition images before after = .ok () →
      Logged images base (.transition i before after :: changes)

lemma newCount_update {i : PageId} {before after : Page} (h : before ≠ images.zero) :
    newCount images (.update i before after :: changes) = newCount images changes := by
  simp [newCount, PageChange.before, h]

lemma newCount_append {i : PageId} {after : Page} :
    newCount images (.update i images.zero after :: changes) = newCount images changes + 1 := by
  simp [newCount, before]

lemma newCount_transition {i : PageId} {before after : Page} (h : before ≠ images.zero) :
    newCount images (.transition i before after :: changes) = newCount images changes := by
  simp [newCount, PageChange.before, h]

omit [DecidableEq Page] in
lemma lastImage_of_not_mem {i : PageId} (h : i ∉ changes.map (·.pageId)) :
    lastImage base changes i = base[i]? := by
  induction changes with
  | nil => rfl
  | cons change rest ih =>
    simp only [map_cons, mem_cons, not_or] at h
    rw [lastImage, if_neg (Ne.symm h.1)]
    exact ih h.2

omit [DecidableEq Page] in
lemma lastImage_of_mem {i : PageId} (h : i ∈ changes.map (·.pageId)) :
    ∃ change ∈ changes, change.pageId = i ∧ lastImage base changes i = some change.after := by
  induction changes with
  | nil => simp at h
  | cons change rest ih =>
    by_cases hi : change.pageId = i
    · exact ⟨change, mem_cons_self .., hi, if_pos hi⟩
    · simp only [map_cons, mem_cons, Ne.symm hi, false_or] at h
      obtain ⟨c, hc, hid, hlast⟩ := ih h
      exact ⟨c, mem_cons_of_mem _ hc, hid, (if_neg hi).trans hlast⟩

omit [DecidableEq Page] in
lemma lastImage_cons {i : PageId} (h : lastImage base (change :: changes) i = some last) :
    (change.pageId = i ∧ change.after = last) ∨
      (change.pageId ≠ i ∧ lastImage base changes i = some last) := by
  rw [lastImage] at h
  split at h
  · exact .inl ⟨‹_›, some.inj h⟩
  · exact .inr ⟨‹_›, h⟩

namespace Logged

lemma tail (log : Logged images base (change :: changes)) : Logged images base changes := by
  cases log <;> assumption

section Undo

variable (log : Logged images base changes)

include log

lemma lastImage_lt {i : PageId} (h : lastImage base changes i = some page) :
    i < base.length + newCount images changes := by
  induction log generalizing page with
  | nil => exact Nat.lt_add_right _ (List.getElem?_eq_some_iff.mp h).1
  | update _ hlast hne _ _ ih =>
    rw [newCount_update hne]
    rcases lastImage_cons h with ⟨rfl, -⟩ | ⟨-, h⟩
    · exact ih hlast
    · exact ih h
  | append _ ih =>
    rw [newCount_append]
    rcases lastImage_cons h with ⟨rfl, -⟩ | ⟨-, h⟩
    · exact lt_succ_self _
    · exact lt_succ_of_lt (ih h)
  | transition _ _ hbase hne _ ih =>
    rw [newCount_transition hne]
    rcases lastImage_cons h with ⟨rfl, -⟩ | ⟨-, h⟩
    · exact Nat.lt_add_right _ (List.getElem?_eq_some_iff.mp hbase).1
    · exact ih h

lemma pageId_lt {i : PageId}
    (h : i ∈ changes.map (·.pageId)) : i < base.length + newCount images changes := by
  obtain ⟨_, _, _, hlast⟩ := @lastImage_of_mem _ base _ i h
  exact log.lastImage_lt hlast

/-- A transition is the first record of its page, and of a page that was there. -/
lemma transition_base {i : PageId} {before after : Page}
    (h : .transition i before after ∈ changes) : base[i]? = some before ∧
      validateTransition images before after = .ok () ∧ before ≠ images.zero := by
  induction log with
  | nil => simp at h
  | update _ _ _ _ _ ih | append _ ih =>
    rcases mem_cons.mp h with heq | hrest
    · cases heq
    · exact ih hrest
  | transition _ _ hbase hne hvalid ih =>
    rcases mem_cons.mp h with heq | hrest
    · cases heq
      exact ⟨hbase, hvalid, hne⟩
    · exact ih hrest

/-- A record with the page of zeros before it appended its page. -/
lemma append_ge {i : PageId} {before after : Page}
    (h : .update i before after ∈ changes) (hzero : before = images.zero) : base.length ≤ i := by
  induction log with
  | nil => simp at h
  | update _ _ hne _ _ ih =>
    rcases mem_cons.mp h with heq | hrest
    · cases heq
      exact absurd hzero hne
    · exact ih hrest
  | append _ ih =>
    rcases mem_cons.mp h with heq | hrest
    · cases heq
      exact Nat.le_add_right ..
    · exact ih hrest
  | transition _ _ _ _ _ ih =>
    rcases mem_cons.mp h with heq | hrest
    · cases heq
    · exact ih hrest

lemma generation_eq {i : PageId} {before after : Page} (h : .update i before after ∈ changes)
    (hne : before ≠ images.zero) : images.generation before = images.generation after := by
  induction log with
  | nil => simp at h
  | update _ _ _ _ hgen ih =>
    rcases mem_cons.mp h with heq | hrest
    · cases heq
      exact hgen
    · exact ih hrest
  | append _ ih =>
    rcases mem_cons.mp h with heq | hrest
    · cases heq
      exact absurd rfl hne
    · exact ih hrest
  | transition _ _ _ _ _ ih => exact ih ((mem_cons.mp h).resolve_left nofun)

/-- What every update of a page keeps is the same for all its images, but for the
page a transition replaced. -/
lemma constant {α : Type} (f : Page → α) {i : PageId} (hf : ∀ before after,
      .update i before after ∈ changes → before ≠ images.zero → f before = f after)
    (hlast : lastImage base changes i = some last) (hmem : change ∈ changes)
    (hid : change.pageId = i) :
    f change.after = f last ∧ ∀ before after, change = .update i before after →
      before ≠ images.zero → f before = f last := by
  induction log generalizing last with
  | nil => simp at hmem
  | @update changes j before after _ hlast' hne _ _ ih =>
    have hf' := fun b a (h : PageChange.update i b a ∈ changes) => hf b a (mem_cons_of_mem _ h)
    rcases lastImage_cons hlast with ⟨rfl, rfl⟩ | ⟨hother, hlast⟩
    · have heq := hf before after (mem_cons_self ..) hne
      rcases mem_cons.mp hmem with rfl | hrest
      · exact ⟨rfl, fun b a h _ => by cases h; exact heq⟩
      · obtain ⟨hafter, hbefore⟩ := ih hf' hlast' hrest
        exact ⟨hafter.trans heq, fun b a h hb => (hbefore b a h hb).trans heq⟩
    · exact ih hf' hlast ((mem_cons.mp hmem).resolve_left fun heq => hother (heq ▸ hid))
  | @append changes after log' ih =>
    have hf' := fun b a (h : PageChange.update i b a ∈ changes) => hf b a (mem_cons_of_mem _ h)
    rcases lastImage_cons hlast with ⟨rfl, rfl⟩ | ⟨hother, hlast⟩
    · rcases mem_cons.mp hmem with rfl | hrest
      · exact ⟨rfl, fun b a heq hb => by cases heq; exact absurd rfl hb⟩
      · exact absurd (log'.pageId_lt (mem_map.mpr ⟨change, hrest, hid⟩)) (lt_irrefl _)
    · exact ih hf' hlast ((mem_cons.mp hmem).resolve_left fun heq => hother (heq ▸ hid))
  | @transition changes j before after _ hout _ _ _ ih =>
    have hf' := fun b a (h : PageChange.update i b a ∈ changes) => hf b a (mem_cons_of_mem _ h)
    rcases lastImage_cons hlast with ⟨rfl, rfl⟩ | ⟨hother, hlast⟩
    · rcases mem_cons.mp hmem with rfl | hrest
      · exact ⟨rfl, nofun⟩
      · exact absurd (mem_map.mpr ⟨change, hrest, hid⟩) hout
    · exact ih hf' hlast ((mem_cons.mp hmem).resolve_left fun heq => hother (heq ▸ hid))

end Undo

end Logged

/-- An update of a page that the records reuse keeps its allocation identity. The
code recognises only nodes whose keys are of a few types. -/
def KeepsIdentity (images : PageImages Page) (changes : List (PageChange Page)) : Prop :=
  ∀ i before after, .update i before after ∈ changes →
    (∃ old new, .transition i old new ∈ changes) → images.identity before = images.identity after

omit [DecidableEq Page] in
lemma KeepsIdentity.tail (keeps : KeepsIdentity images (change :: changes)) :
    KeepsIdentity images changes := by
  rintro i before after h ⟨old, new, ht⟩
  exact keeps i before after (mem_cons_of_mem _ h) ⟨old, new, mem_cons_of_mem _ ht⟩

def Image (changes : List (PageChange Page)) (i : PageId) (page : Page) : Prop :=
  ∃ change ∈ changes, change.pageId = i ∧ (page = change.before ∨ page = change.after)

/-- Pages that the records do not name are untouched, the others hold some image
of theirs, and the file has at most the pages that were appended. -/
structure Ready (images : PageImages Page) (base : List Page) (changes : List (PageChange Page))
    (pages : List Page) : Prop where
  low : base.length ≤ pages.length
  high : pages.length ≤ base.length + newCount images changes
  kept : ∀ i, i < base.length → i ∉ changes.map (·.pageId) → pages[i]? = base[i]?
  image : ∀ i page, pages[i]? = some page → i ∈ changes.map (·.pageId) → Image changes i page

omit [DecidableEq Page] in
lemma Image.cons {i : PageId} (h : Image changes i page) : Image (change :: changes) i page := by
  obtain ⟨c, hc, himage⟩ := h
  exact ⟨c, mem_cons_of_mem _ hc, himage⟩

omit [DecidableEq Page] in
lemma Image.of_cons {i : PageId} (h : Image (change :: changes) i page) (hne : change.pageId ≠ i) :
    Image changes i page := by
  obtain ⟨c, hc, hid, himage⟩ := h
  rcases mem_cons.mp hc with rfl | hc
  · exact absurd hid hne
  · exact ⟨c, hc, hid, himage⟩

lemma newCount_le : newCount images changes ≤ newCount images (change :: changes) := by
  unfold newCount
  rw [countP_cons]
  exact Nat.le_add_right ..

namespace Ready

lemma refl : Ready images base [] base :=
  ⟨le_rfl, Nat.le_add_right .., fun _ _ _ => rfl, fun _ _ _ h => by simp at h⟩

lemma eq_base (ready : Ready images base [] pages) : pages = base := by
  have hlength : pages.length = base.length := le_antisymm (by simpa [newCount] using ready.high)
    ready.low
  refine ext_getElem? fun i => ?_
  by_cases hi : i < base.length
  · exact ready.kept i hi (by simp)
  · rw [getElem?_eq_none (by omega), getElem?_eq_none (by omega)]

section

variable (ready : Ready images base changes pages)
include ready

/-- Logging a record does not touch the pages. -/
lemma log (log : Logged images base (change :: changes)) :
    Ready images base (change :: changes) pages := by
  refine ⟨ready.low, le_trans ready.high (Nat.add_le_add_left newCount_le _), ?_, ?_⟩
  · exact fun i hi hout => ready.kept i hi fun hmem => hout (mem_cons_of_mem _ hmem)
  intro i page hpage hmem
  by_cases hold : i ∈ changes.map (·.pageId)
  · exact (ready.image i page hpage hold).cons
  obtain rfl : i = change.pageId := by
    exact (mem_cons.mp hmem).resolve_right hold
  refine ⟨change, mem_cons_self .., rfl, .inl ?_⟩
  -- The first record of a page starts from the page as it was.
  have start : ∀ before, base[change.pageId]? = some before → page = before := by
    intro before hbase
    have hlt := (List.getElem?_eq_some_iff.mp hbase).1
    have := ready.kept _ hlt hold
    rw [hpage, hbase] at this
    exact some.inj this
  cases log with
  | update _ hlast _ _ _ => exact start _ ((lastImage_of_not_mem hold) ▸ hlast)
  | append _ =>
    have hlt := (List.getElem?_eq_some_iff.mp hpage).1
    exact absurd ready.high (not_le.mpr hlt)
  | transition _ _ hbase _ _ => exact start _ hbase

/-- A page gets another image of its own. -/
lemma drop (hmem : change ∈ changes) (himage : Image changes change.pageId page) :
    Ready images base changes (pages.set change.pageId page) := by
  refine ⟨?_, ?_, ?_, ?_⟩
  · rw [length_set]
    exact ready.low
  · rw [length_set]
    exact ready.high
  · intro i hi hout
    have hne : change.pageId ≠ i := fun heq => hout (mem_map.mpr ⟨change, hmem, heq⟩)
    rw [getElem?_set_ne hne]
    exact ready.kept i hi hout
  · intro i page' hpage hi
    by_cases hid : change.pageId = i
    · subst hid
      obtain ⟨_, rfl⟩ : change.pageId < pages.length ∧ page = page' := by
        simpa [getElem?_set] using hpage
      exact himage
    · rw [getElem?_set_ne hid] at hpage
      exact ready.image i page' hpage hi

lemma extend (log : Logged images base changes)
    (hmem : change ∈ changes) (hid : change.pageId = pages.length) :
    Ready images base changes (pages ++ [change.after]) := by
  have hids : change.pageId ∈ changes.map (·.pageId) := mem_map_of_mem hmem
  have hbound := log.pageId_lt hids
  refine ⟨?_, ?_, ?_, ?_⟩
  · rw [length_append]
    exact le_trans ready.low (Nat.le_add_right ..)
  · rw [length_append, length_singleton, ← hid]
    exact hbound
  · intro i hi hout
    rw [List.getElem?_append_left (lt_of_lt_of_le hi ready.low)]
    exact ready.kept i hi hout
  intro i page hpage hi
  by_cases hlt : i < pages.length
  · rw [List.getElem?_append_left hlt] at hpage
    exact ready.image i page hpage hi
  have hlen := (List.getElem?_eq_some_iff.mp hpage).1
  rw [length_append, length_singleton] at hlen
  have hi' : i = pages.length := le_antisymm (le_of_lt_succ hlen) (not_lt.mp hlt)
  subst hi'
  simp only [List.getElem?_append_right le_rfl, Nat.sub_self, List.getElem?_cons_zero,
    some.injEq] at hpage
  exact ⟨change, hmem, hid, .inr hpage.symm⟩

end

end Ready

/-- Every page whose before-image is put back is in the file. -/
def InFile (images : PageImages Page) (changes : List (PageChange Page)) (pages : List Page) :
    Prop :=
  ∀ i before after, .update i before after ∈ changes → before ≠ images.zero → i < pages.length

/-- What holds before each record of a rollback that started with `undone`. -/
structure Pass (images : PageImages Page) (base : List Page)
    (undone : List (PageId × PageGeneration)) (changes : List (PageChange Page))
    (pages : List Page) : Prop where
  ready : Ready images base changes pages
  inFile : InFile images changes pages
  keeps : KeepsIdentity images changes
  skipped : ∀ i before after g, .transition i before after ∈ changes →
    images.generation after = some g → (i, g) ∈ undone → pages[i]? = some before
  crossed : ∀ i before after g, .transition i before after ∈ changes →
    images.generation after = some g → (i, g) ∉ undone →
      ∃ page, pages[i]? = some page ∧ images.identity page = images.identity after
  origin : ∀ i g, (i, g) ∈ undone → i ∈ changes.map (·.pageId) →
    ∃ before after, .transition i before after ∈ changes ∧ images.generation after = some g

omit [DecidableEq Page] in
lemma validateTransition_ok {before after : Page}
    (h : validateTransition images before after = .ok ()) :
    ∃ g, images.generation after = some g ∧ images.identity before ≠ images.identity after ∧
      ∃ identity, images.identity after = some identity ∧ identity.generation = g := by
  unfold validateTransition at h
  split at h
  · rename_i old new hold hnew
    split at h
    · cases h
    rename_i hcond
    refine ⟨new.generation, images.generation_of_identity _ _ hnew, ?_, new, hnew, rfl⟩
    rw [hold, hnew]
    intro heq
    cases heq
    exact hcond (.inl le_rfl)
  · cases h

variable {undone : List (PageId × PageGeneration)} {i : PageId} {before after : Page}
  {pages' : List Page} {results : List (FileResult Page)} {r : Except UndoError Unit}

/-- A record is undone: its page is as the records before it left it, and the others
stay as they were. -/
lemma Pass.drop (pass : Pass images base undone (change :: changes) pages)
    (log : Logged images base changes)
    (horigin : ∀ j b a, change = .transition j b a → j ∉ changes.map (·.pageId))
    (hlength : pages'.length = pages.length ∨
      pages'.length = base.length + newCount images changes)
    (hhigh : pages'.length ≤ base.length + newCount images changes)
    (hothers : ∀ j, j ≠ change.pageId → j < base.length + newCount images changes →
      pages'[j]? = pages[j]?)
    (hkept : change.pageId < base.length → change.pageId ∉ changes.map (·.pageId) →
      pages'[change.pageId]? = base[change.pageId]?)
    (himage : ∀ page, pages'[change.pageId]? = some page →
      change.pageId ∈ changes.map (·.pageId) → Image changes change.pageId page)
    (hskipped : ∀ before after g, .transition change.pageId before after ∈ changes →
      images.generation after = some g → (change.pageId, g) ∈ undone →
        pages'[change.pageId]? = some before)
    (hcrossed : ∀ before after g, .transition change.pageId before after ∈ changes →
      images.generation after = some g → (change.pageId, g) ∉ undone →
        ∃ page, pages'[change.pageId]? = some page ∧
          images.identity page = images.identity after) :
    Pass images base undone changes pages' := by
  have hlt : ∀ {j b a}, transition j b a ∈ changes → j < base.length + newCount images changes :=
    fun hc => log.pageId_lt (mem_map.mpr ⟨_, hc, rfl⟩)
  refine ⟨⟨?_, hhigh, ?_, ?_⟩, ?_, pass.keeps.tail, ?_, ?_, ?_⟩
  · rcases hlength with h | h
    · exact h ▸ pass.ready.low
    · exact h ▸ Nat.le_add_right ..
  · intro j hj hout
    by_cases hji : j = change.pageId
    · subst hji
      exact hkept hj hout
    · rw [hothers j hji (Nat.lt_add_right _ hj)]
      exact pass.ready.kept j hj (by simpa [hji] using hout)
  · intro j page hp hj
    by_cases hji : j = change.pageId
    · subst hji
      exact himage page hp hj
    · rw [hothers j hji (log.pageId_lt hj)] at hp
      exact (pass.ready.image j page hp (mem_cons_of_mem _ hj)).of_cons (Ne.symm hji)
  · intro j b a hc hb
    rcases hlength with h | h
    · exact h ▸ pass.inFile j b a (mem_cons_of_mem _ hc) hb
    · exact h ▸ log.pageId_lt (mem_map.mpr ⟨_, hc, rfl⟩)
  · intro j b a g hc hg hu
    by_cases hj : j = change.pageId
    · subst hj
      exact hskipped b a g hc hg hu
    · rw [hothers j hj (hlt hc)]
      exact pass.skipped j b a g (mem_cons_of_mem _ hc) hg hu
  · intro j b a g hc hg hu
    by_cases hj : j = change.pageId
    · subst hj
      exact hcrossed b a g hc hg hu
    · rw [hothers j hj (hlt hc)]
      exact pass.crossed j b a g (mem_cons_of_mem _ hc) hg hu
  · intro j g hu hj
    obtain ⟨b, a, hc, hg⟩ := pass.origin j g hu (mem_cons_of_mem _ hj)
    rcases mem_cons.mp hc with heq | hc
    · exact absurd hj (horigin j b a heq.symm)
    · exact ⟨b, a, hc, hg⟩

/-- Undoing a transition, in either direction, leaves the page as it was. -/
lemma transition_step (log : Logged images base (.transition i before after :: changes))
    (pass : Pass images base undone (.transition i before after :: changes) pages) :
    ∃ pages', undoChange images undone pages (.transition i before after) = .ok pages' ∧
      Pass images base undone changes pages' := by
  have hmem : transition i before after ∈ .transition i before after :: changes :=
    mem_cons_self ..
  obtain ⟨hbase, hvalid, hne⟩ := log.transition_base hmem
  obtain ⟨g, hg, hident, _⟩ := validateTransition_ok hvalid
  have hout : i ∉ changes.map (·.pageId) := by
    cases log
    assumption
  have hlt : i < base.length := (List.getElem?_eq_some_iff.mp hbase).1
  have hnot : ∀ {b a}, transition i b a ∉ changes := fun hc => hout (mem_map.mpr ⟨_, hc, rfl⟩)
  have done : ∀ pages', pages'.length = pages.length → pages'[i]? = some before →
      (∀ j, j ≠ i → pages'[j]? = pages[j]?) → Pass images base undone changes pages' := by
    intro pages' hlength hpage hothers
    refine pass.drop log.tail ?_ (.inl hlength) ?_ (fun j hj _ => hothers j hj)
      (fun _ _ => hpage.trans hbase.symm) (fun _ _ hmem => absurd hmem hout)
      (fun _ _ _ hc => absurd hc hnot) (fun _ _ _ hc => absurd hc hnot)
    · rintro j b a heq
      cases heq
      exact hout
    · rw [hlength, ← @newCount_transition _ _ images changes i before after hne]
      exact pass.ready.high
  by_cases hu : (i, g) ∈ undone
  · have hpage := pass.skipped i before after g hmem hg hu
    refine ⟨pages, ?_, done pages rfl hpage fun _ _ => rfl⟩
    simp [undoChange, undoPageTransition, hpage, undoTransition, hvalid]
  obtain ⟨page, hpage, hidentity⟩ := pass.crossed i before after g hmem hg hu
  have hlt' : i < pages.length := lt_of_lt_of_le hlt pass.ready.low
  refine ⟨pages.set i before, ?_, done _ length_set (List.getElem?_set_self hlt')
    fun j hj => List.getElem?_set_ne (Ne.symm hj)⟩
  simp [undoChange, undoPageTransition, hpage, undoTransition, hvalid, hidentity, Ne.symm hident]

/-- The page that an update is undone on is in the allocation of its after-image. -/
lemma current_generation {current : Page}
    (log : Logged images base (.update i before after :: changes))
    (pass : Pass images base undone (.update i before after :: changes) pages)
    (hskip : ¬ ∃ g ∈ images.generation after, (i, g) ∈ undone) (hcurrent : pages[i]? = some current)
    (hne : current ≠ images.zero) : images.generation current = images.generation after := by
  have hlast : lastImage base (.update i before after :: changes) i = some after := if_pos rfl
  obtain ⟨c, hc, hid, himage⟩ := pass.ready.image i current hcurrent (mem_cons_self ..)
  obtain ⟨hafter, hbefore⟩ :=
    log.constant images.generation (fun _ _ => log.generation_eq) hlast hc hid
  rcases himage with rfl | rfl
  · cases c with
    | update j b a =>
      cases hid
      exact hbefore b a rfl hne
    | transition j b a =>
      -- The page was not put back before the transition, so it is after it.
      cases hid
      obtain ⟨g, hg, _⟩ := validateTransition_ok (log.transition_base hc).2.1
      have hu : (j, g) ∉ undone := fun hu => hskip ⟨g, hafter.symm.trans hg, hu⟩
      obtain ⟨page, hpage, hident⟩ := pass.crossed j b a g hc hg hu
      have hpage : some b = some page := Eq.trans (Eq.symm hcurrent) hpage
      obtain ⟨_, _, hne, _⟩ := validateTransition_ok (log.transition_base hc).2.1
      exact absurd ((congrArg images.identity (some.inj hpage)).trans hident) hne
  · exact hafter

/-- An earlier attempt has gone past the transition of the page. -/
lemma Pass.skip_update {g : PageGeneration}
    (log : Logged images base (.update i before after :: changes))
    (pass : Pass images base undone (.update i before after :: changes) pages)
    (hu : (i, g) ∈ undone) : Pass images base undone changes pages := by
  obtain ⟨b, a, hc, ha⟩ := pass.origin i g hu (mem_cons_self ..)
  have hc : transition i b a ∈ changes := (mem_cons.mp hc).resolve_left nofun
  have hpage := pass.skipped i b a g (mem_cons_of_mem _ hc) ha hu
  have hmem : i ∈ changes.map (·.pageId) := mem_map.mpr ⟨_, hc, rfl⟩
  have hne : before ≠ images.zero := by
    rintro rfl
    cases log with
    | update _ _ hne _ _ => exact hne rfl
    | append log' => exact absurd (log'.pageId_lt hmem) (lt_irrefl _)
  refine pass.drop log.tail (fun _ _ _ => nofun) (.inl rfl) ?_ (fun _ _ _ => rfl)
    (fun _ hout => absurd hmem hout) (fun page hp _ => ?_)
    (fun b' a' g' hc' => pass.skipped i b' a' g' (mem_cons_of_mem _ hc'))
    fun b' a' g' hc' => pass.crossed i b' a' g' (mem_cons_of_mem _ hc')
  · rw [← @newCount_update _ _ images changes i before after hne]
    exact pass.ready.high
  · exact ⟨_, hc, rfl, .inl (some.inj (hp.symm.trans hpage))⟩

/-- The page that the record appended is cut off, if it is still there. -/
lemma Pass.cut_append (log : Logged images base changes) (pass : Pass images base undone
      (.update (base.length + newCount images changes) images.zero after :: changes) pages) :
    Pass images base undone changes (pages.take (base.length + newCount images changes)) := by
  have hout : base.length + newCount images changes ∉ changes.map (·.pageId) := fun hmem =>
    absurd (log.pageId_lt hmem) (lt_irrefl _)
  have hnot : ∀ {b a}, transition (base.length + newCount images changes) b a ∉ changes :=
    fun hc => hout (mem_map.mpr ⟨_, hc, rfl⟩)
  refine pass.drop log (fun _ _ _ => nofun) ?_ (length_take_le ..)
    (fun j _ hj => getElem?_take_of_lt hj)
    (fun hlt => absurd hlt (not_lt.mpr (Nat.le_add_right ..)))
    (fun _ _ hmem => absurd hmem hout) (fun _ _ _ hc => absurd hc hnot)
    (fun _ _ _ hc => absurd hc hnot)
  rw [length_take]
  omega

/-- The page gets the image before the record. -/
lemma Pass.restore_update (log : Logged images base (.update i before after :: changes))
    (pass : Pass images base undone (.update i before after :: changes) pages)
    (hlast : lastImage base changes i = some before) (hne : before ≠ images.zero)
    (hskip : ¬ ∃ g ∈ images.generation after, (i, g) ∈ undone) :
    Pass images base undone changes (pages.set i before) := by
  have hself : (pages.set i before)[i]? = some before :=
    getElem?_set_self (pass.inFile i before after (mem_cons_self ..) hne)
  -- All images of the page after a transition are in one allocation.
  have hsame {b a : Page} (hc : transition i b a ∈ changes) :
      images.generation a = images.generation after ∧
        images.identity before = images.identity a := by
    have hc' := mem_cons_of_mem (.update i before after) hc
    have hident := fun b' a' h => pass.keeps i b' a' h ⟨b, a, hc'⟩
    refine ⟨(log.constant _ (fun _ _ => log.generation_eq) (if_pos rfl) hc' rfl).1, ?_⟩
    exact (hident _ _ (mem_cons_self ..)).trans
      (log.constant _ (fun b' a' h _ => hident b' a' h) (if_pos rfl) hc' rfl).1.symm
  refine pass.drop log.tail (fun _ _ _ => nofun) (.inl length_set) ?_
    (fun j hj _ => getElem?_set_ne (Ne.symm hj)) (fun _ hout => ?_) (fun page hp hmem => ?_)
    (fun b a g hc hg hu => absurd ⟨g, (hsame hc).1.symm.trans hg, hu⟩ hskip)
    fun b a g hc hg _ => ⟨before, hself, (hsame hc).2⟩
  · rw [length_set, ← @newCount_update _ _ images changes i before after hne]
    exact pass.ready.high
  · exact hself.trans (hlast.symm.trans (lastImage_of_not_mem hout))
  · obtain ⟨c, hc, hid, hafter⟩ := @lastImage_of_mem _ base _ _ hmem
    have hpage : some page = some c.after := hp.symm.trans (hself.trans (hlast.symm.trans hafter))
    exact ⟨c, hc, hid, .inr (some.inj hpage)⟩

lemma update_step (hbase : base ≠ []) (log : Logged images base (.update i before after :: changes))
    (pass : Pass images base undone (.update i before after :: changes) pages) :
    ∃ pages', undoChange images undone pages (.update i before after) = .ok pages' ∧
      Pass images base undone changes pages' := by
  rw [undoChange]
  by_cases hskip : ∃ g ∈ images.generation after, (i, g) ∈ undone
  · rw [if_pos hskip]
    obtain ⟨g, -, hu⟩ := hskip
    exact ⟨pages, rfl, pass.skip_update log hu⟩
  rw [if_neg hskip]
  have hcheck : ¬ ∃ current ∈ pages[i]?, current ≠ images.zero ∧
      images.generation current ≠ images.generation after := by
    rintro ⟨current, hcurrent, hne, hgen⟩
    exact hgen (current_generation log pass hskip hcurrent hne)
  unfold undoPageUpdate
  rw [if_neg hcheck]
  cases log with
  | append log' =>
    rw [if_pos rfl]
    have hcut := pass.cut_append log'
    by_cases hlen : pages.length ≤ base.length + newCount images changes
    · rw [if_pos hlen]
      rw [take_of_length_le hlen] at hcut
      exact ⟨pages, rfl, hcut⟩
    · have hhigh := pass.ready.high
      rw [newCount_append] at hhigh
      have hpos := length_pos_iff.mpr hbase
      have hcond : ¬ (base.length + newCount images changes + 1 ≠ pages.length ∨
          base.length + newCount images changes = 0) := by omega
      rw [if_neg hlen, if_neg hcond]
      exact ⟨_, rfl, hcut⟩
  | update log' hlast hne hvalid hgen =>
    have hlt : i < pages.length := pass.inFile i before after (mem_cons_self ..) hne
    rw [if_neg hne, if_neg (not_not.mpr hvalid), if_neg (not_le.mpr hlt)]
    exact ⟨_, rfl, pass.restore_update (log'.update hlast hne hvalid hgen) hlast hne hskip⟩

lemma undo_step (hbase : base ≠ []) (log : Logged images base (change :: changes))
    (pass : Pass images base undone (change :: changes) pages) :
    ∃ pages', undoChange images undone pages change = .ok pages' ∧
      Pass images base undone changes pages' := by
  cases change with
  | update i before after => exact update_step hbase log pass
  | transition i before after => exact transition_step log pass

/-- No write that fails tears its page: a page whose frame was dropped has one of
its images in the file. -/
def Whole : List (PageChange Page) → List (FileResult Page) → Prop
  | change :: rest, result :: results =>
    (∀ page, result = .dropped page → Image (change :: rest) change.pageId page) ∧
      Whole rest results
  | _, _ => True

/-- Wherever a rollback stops, the pages are ready to be undone again; one that
does not fail leaves the pages the transaction started on. -/
lemma undoChanges_spec (hbase : base ≠ []) (log : Logged images base changes)
    (pass : Pass images base undone changes pages) (whole : Whole changes results)
    (h : undoChanges images undone pages changes results = (r, pages')) :
    Ready images base changes pages' ∧ (r = .ok () → pages' = base) ∧
      ((∀ result ∈ results, result = .done) → r = .ok ()) := by
  induction changes generalizing pages results with
  | nil =>
    cases h
    exact ⟨pass.ready, fun _ => pass.ready.eq_base, fun _ => rfl⟩
  | cons change rest ih =>
    obtain ⟨pages₁, hundo, pass₁⟩ := undo_step hbase log pass
    rw [undoChanges, hundo] at h
    cases results with
    | nil =>
      obtain ⟨ready, hok, hdone⟩ := ih log.tail pass₁ (by cases rest <;> trivial) h
      exact ⟨ready.log log, hok, fun _ => hdone (by simp)⟩
    | cons result results =>
      cases result with
      | done =>
        obtain ⟨ready, hok, hdone⟩ := ih log.tail pass₁ whole.2 h
        exact ⟨ready.log log, hok, fun hall => hdone fun x hx => hall x (mem_cons_of_mem _ hx)⟩
      | failedBefore =>
        cases h
        exact ⟨pass.ready, fun hok => (nomatch hok), fun hall => nomatch hall _ (mem_cons_self ..)⟩
      | failedAfter =>
        cases h
        exact ⟨pass₁.ready.log log, fun hok => (nomatch hok),
          fun hall => nomatch hall _ (mem_cons_self ..)⟩
      | dropped page =>
        cases h
        exact ⟨pass.ready.drop (mem_cons_self ..) (whole.1 page rfl), fun hok => (nomatch hok),
          fun hall => nomatch hall _ (mem_cons_self ..)⟩

/-- The page of a transition is still the old one, or in the new allocation. -/
lemma Ready.transition_page (ready : Ready images base changes pages)
    (log : Logged images base changes) (keeps : KeepsIdentity images changes) {i : PageId}
    {before after : Page} (hc : .transition i before after ∈ changes) :
    ∃ current, pages[i]? = some current ∧
      (current = before ∨ images.identity current = images.identity after) := by
  have hbase := (log.transition_base hc).1
  have hlt : i < pages.length :=
    lt_of_lt_of_le (List.getElem?_eq_some_iff.mp hbase).1 ready.low
  have hmem : i ∈ changes.map (·.pageId) := mem_map.mpr ⟨_, hc, rfl⟩
  refine ⟨pages[i], List.getElem?_eq_getElem hlt, ?_⟩
  obtain ⟨c, hc', hid, himage⟩ := ready.image i _ (List.getElem?_eq_getElem hlt) hmem
  obtain ⟨last, _, _, hlast⟩ := @lastImage_of_mem _ base _ _ hmem
  have hident := fun b a h (_ : b ≠ images.zero) => keeps i b a h ⟨before, after, hc⟩
  have hafter := (log.constant _ hident hlast hc rfl).1
  obtain ⟨hafter', hbefore'⟩ := log.constant _ hident hlast hc' hid
  rcases himage with hb | ha
  · cases c with
    | update j b a =>
      cases hid
      -- A page that a transition took was there, so no record appended it.
      by_cases hzero : b = images.zero
      · exact absurd (log.append_ge hc' hzero)
          (not_le.mpr (List.getElem?_eq_some_iff.mp hbase).1)
      · exact .inr (by rw [hb]; exact (hbefore' b a rfl hzero).trans hafter.symm)
    | transition j b a =>
      cases hid
      have := (log.transition_base hc').1.symm.trans hbase
      exact .inl (hb.trans (some.inj this))
  · exact .inr (by rw [ha]; exact hafter'.trans hafter.symm)

lemma undoneAllocations_spec {part : List (PageChange Page)}
    (ready : Ready images base changes pages) (log : Logged images base changes)
    (keeps : KeepsIdentity images changes) (hpart : ∀ c ∈ part, c ∈ changes) :
    ∃ undone, undoneAllocations images pages part = .ok undone ∧
      ∀ i g, (i, g) ∈ undone ↔ ∃ before after, .transition i before after ∈ part ∧
        images.generation after = some g ∧ pages[i]? = some before := by
  induction part with
  | nil => exact ⟨[], rfl, by simp⟩
  | cons c rest ih =>
    obtain ⟨undone, hundone, hmem⟩ := ih fun c hc => hpart c (mem_cons_of_mem _ hc)
    cases c with
    | update i b a => exact ⟨undone, hundone, fun j g => by simp [hmem]⟩
    | transition i b a =>
      have hc := hpart _ (mem_cons_self ..)
      obtain ⟨current, hcurrent, himage⟩ := ready.transition_page log keeps hc
      have hvalid := (log.transition_base hc).2.1
      obtain ⟨g, hg, hident, _⟩ := validateTransition_ok hvalid
      rw [undoneAllocations, hcurrent, hundone]
      by_cases heq : current = b
      · subst heq
        refine ⟨(i, g) :: undone, by simp [undoTransition, hvalid, hg], fun j g' => ?_⟩
        rw [mem_cons, hmem]
        constructor
        · rintro (heq | ⟨b', a', hc', h'⟩)
          · cases heq
            exact ⟨_, a, mem_cons_self .., hg, hcurrent⟩
          · exact ⟨b', a', mem_cons_of_mem _ hc', h'⟩
        · rintro ⟨b', a', hc', hg', hp'⟩
          rcases mem_cons.mp hc' with heq | hc'
          · cases heq
            rw [hg] at hg'
            cases hg'
            exact .inl rfl
          · exact .inr ⟨b', a', hc', hg', hp'⟩
      · have hcrossed := himage.resolve_left heq
        refine ⟨undone, by simp [undoTransition, hvalid, hcrossed, Ne.symm hident], fun j g' => ?_⟩
        rw [hmem]
        constructor
        · rintro ⟨b', a', hc', h'⟩
          exact ⟨b', a', mem_cons_of_mem _ hc', h'⟩
        rintro ⟨b', a', hc', hg', hp'⟩
        rcases mem_cons.mp hc' with heq' | hc'
        · cases heq'
          rw [hcurrent] at hp'
          exact absurd (some.inj hp') heq
        · exact ⟨b', a', hc', hg', hp'⟩

lemma undoRecords_spec (hbase : base ≠ []) (log : Logged images base changes)
    (ready : Ready images base changes pages) (inFile : InFile images changes pages)
    (keeps : KeepsIdentity images changes) (whole : Whole changes results)
    (h : undoRecords images pages changes results = (r, pages')) :
    Ready images base changes pages' ∧ (r = .ok () → pages' = base) ∧
      ((∀ result ∈ results, result = .done) → r = .ok ()) := by
  obtain ⟨undone, hundone, hmem⟩ := undoneAllocations_spec ready log keeps fun c hc => hc
  rw [undoRecords, hundone] at h
  refine undoChanges_spec hbase log ⟨ready, inFile, keeps, ?_, ?_, ?_⟩ whole h
  · intro i before after g hc hg hu
    obtain ⟨b, a, hc', _, hp⟩ := (hmem i g).mp hu
    rw [hp, ← (log.transition_base hc).1, (log.transition_base hc').1]
  · intro i before after g hc hg hu
    obtain ⟨current, hcurrent, himage⟩ := ready.transition_page log keeps hc
    refine ⟨current, hcurrent, himage.resolve_left fun heq => hu ?_⟩
    exact (hmem i g).mpr ⟨before, after, hc, hg, heq ▸ hcurrent⟩
  · intro i g hu _
    obtain ⟨b, a, hc, hg, _⟩ := (hmem i g).mp hu
    exact ⟨b, a, hc, hg⟩

end Netbadb.Heap
