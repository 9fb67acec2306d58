import Netbadb.Buffer.Coherence

/-!
Runs of the pool with the guards its callers hold. A read guard is a pin, a write
guard a pin with the copy its holder works on; both are given back exactly once.
Next to the pool a session keeps, for each page, the content it should have.
-/

namespace Netbadb.Buffer

open Netbadb.Wal (Lsn WalManager reaches)
open List Function BufferState Nat

structure Session (Page : Type) where
  pool : BufferState Page
  reads : List PageId
  writes : List (PageId × Page)
  /-- The last image released or restored for a page. A page whose allocation is
  undone goes back to what the file has. -/
  latest : PageId → Page

variable {Page : Type} {bytes : PageBytes Page} {files : FileResults Page}
  {pool pool' : BufferState Page} {latest : PageId → Page} {f : BufferFrame Page}
  {discarded : PageId → Prop} {g : BufferFrame Page} {pool₁ : BufferState Page} {i : PageId}
  {writes' : List PageId} {reads' : List PageId}

/-- The content of a page after an undo, which may have failed on the way. -/
def undone (bytes : PageBytes Page) (files : FileResults Page) (pool : BufferState Page)
    (pageId : PageId) (before : Page) (expected : Option PageGeneration)
    (latest : PageId → Page) : PageId → Page :=
  match pool.validateCurrent bytes files pageId expected with
  | .error _ => latest
  | .ok _ =>
    if bytes.isZero before then
      match pool.disk[pageId]? with
      | none => latest
      | some page => update latest pageId page
    else
      match bytes.pageLsn before, pool.restoreFrame bytes files pageId before with
      | .ok _, (.ok _, _) => update latest pageId before
      | _, _ => latest

inductive Op (Page : Type) where
  | pinRead (pageId : PageId)
  | pinWrite (pageId : PageId)
  | allocate
  | releaseRead (pageId : PageId)
  | releaseWrite (pageId : PageId) (page : Page) (dirty : Bool)
  | flushPage (pageId : PageId)
  | flushAll
  | undo (pageId : PageId) (before : Page) (expected : Option PageGeneration)
  /-- The log grows or is flushed by someone else. -/
  | log (wal : WalManager)

/-- One call. Its guards are taken or given back, and failures of the files may
stop it anywhere. -/
inductive Step (bytes : PageBytes Page) : Session Page → Op Page → Session Page → Prop
  | pinRead {s pageId page pool'} (files) :
      s.pool.pinRead bytes files pageId = (.ok page, pool') →
      Step bytes s (.pinRead pageId) { s with pool := pool', reads := pageId :: s.reads }
  | pinReadFailed {s pageId e pool'} (files) :
      s.pool.pinRead bytes files pageId = (.error e, pool') →
      Step bytes s (.pinRead pageId) { s with pool := pool' }
  | pinWrite {s pageId page pool'} (files) :
      s.pool.pinWrite bytes files pageId = (.ok page, pool') →
      Step bytes s (.pinWrite pageId)
        { s with pool := pool', writes := (pageId, page) :: s.writes }
  | pinWriteFailed {s pageId e pool'} (files) :
      s.pool.pinWrite bytes files pageId = (.error e, pool') →
      Step bytes s (.pinWrite pageId) { s with pool := pool' }
  | allocate {s pageId pool'} (files) :
      s.pool.allocatePage bytes files = (.ok pageId, pool') →
      Step bytes s .allocate
        { s with
          pool := pool'
          writes := (pageId, bytes.zero) :: s.writes
          latest := update s.latest pageId bytes.zero }
  | allocateFailed {s e pool'} (files) :
      s.pool.allocatePage bytes files = (.error e, pool') →
      Step bytes s .allocate { s with pool := pool' }
  | releaseRead {s pageId} : pageId ∈ s.reads →
      Step bytes s (.releaseRead pageId)
        { s with pool := s.pool.releaseRead pageId, reads := s.reads.erase pageId }
  | releaseClean {s pageId page before after} : s.writes = before ++ (pageId, page) :: after →
      Step bytes s (.releaseWrite pageId page false)
        { s with pool := s.pool.releaseWrite pageId page false, writes := before ++ after }
  | releaseDirty {s pageId page before after} (page') :
      s.writes = before ++ (pageId, page) :: after →
      Step bytes s (.releaseWrite pageId page' true)
        { s with
          pool := s.pool.releaseWrite pageId page' true
          writes := before ++ after
          latest := update s.latest pageId page' }
  | flushPage {s pageId r pool'} (files) : s.pool.flushPage bytes files pageId = (r, pool') →
      Step bytes s (.flushPage pageId) { s with pool := pool' }
  | flushAll {s r pool'} (files) : s.pool.flushAll bytes files = (r, pool') →
      Step bytes s .flushAll { s with pool := pool' }
  | undo {s pageId before expected r pool'} (files) :
      s.pool.undoPageUpdate bytes files pageId before expected = (r, pool') →
      Step bytes s (.undo pageId before expected)
        { s with
          pool := pool'
          latest := undone bytes files s.pool pageId before expected s.latest }
  | log {s wal} (wal') : s.pool.wal = some wal →
      Step bytes s (.log wal') { s with pool := { s.pool with wal := some wal' } }

/-- A pool over a page file, with nothing cached and no guard held. -/
def Session.opened (bytes : PageBytes Page) (disk : List Page) (capacity : Nat)
    (wal : Option WalManager) : Session Page where
  pool := ⟨disk, [], capacity, 0, wal, []⟩
  reads := []
  writes := []
  latest i := disk[i]?.getD bytes.zero

inductive Reachable (bytes : PageBytes Page) : Session Page → Prop
  | opened (disk capacity wal) : 0 < capacity → Reachable bytes (.opened bytes disk capacity wal)
  | step {s op s'} : Reachable bytes s → Step bytes s op s' → Reachable bytes s'

/-- Every guard pins the frame of its page, and nothing else does. -/
structure Pinned (reads : List PageId) (writes : List PageId) (pool : BufferState Page) :
    Prop where
  counts : ∀ f ∈ pool.frames, f.pinCount = reads.count f.pageId + writes.count f.pageId
  held : ∀ i, i ∈ reads ∨ i ∈ writes → i ∈ pool.frames.map (·.pageId)

namespace Pinned

variable {reads writes : List PageId} (pins : Pinned reads writes pool)
include pins

lemma unpinned (hf : f ∈ pool.frames) (hpin : f.pinCount = 0) :
    f.pageId ∉ reads ∧ f.pageId ∉ writes := by
  have hcount := pins.counts f hf
  exact ⟨count_eq_zero.mp (by omega), count_eq_zero.mp (by omega)⟩

lemma sameFrames (same : SameFrames pool pool') : Pinned reads writes pool' := by
  refine ⟨fun f hf => ?_, fun i hi => same.ids ▸ pins.held i hi⟩
  obtain ⟨f₀, hf₀, heq⟩ := same.symm.mem hf
  have hcount := pins.counts f₀ hf₀
  rwa [cleaned_pageId heq, cleaned_pinCount heq] at hcount

/-- One frame changes its pins, with the guards of its page. -/
lemma replace {front back : List (BufferFrame Page)} (hnodup : (pool.frames.map (·.pageId)).Nodup)
    (hframes : pool.frames = front ++ f :: back) (hframes' : pool'.frames = front ++ g :: back)
    (hid : g.pageId = f.pageId) (hpin : g.pinCount = reads'.count f.pageId + writes'.count f.pageId)
    (hcounts : ∀ i, i ≠ f.pageId →
      reads'.count i = reads.count i ∧ writes'.count i = writes.count i) :
    Pinned reads' writes' pool' := by
  have hids : pool'.frames.map (·.pageId) = pool.frames.map (·.pageId) := by
    rw [hframes, hframes']
    simp [hid]
  have others := others_ne hnodup hframes
  refine ⟨fun f' hf' => ?_, fun i hi => ?_⟩
  · rw [hframes'] at hf'
    have : f' = g ∨ f' ∈ front ++ back := by
      simp only [mem_append, mem_cons] at hf' ⊢
      tauto
    rcases this with rfl | hf'
    · rw [hid]
      exact hpin
    obtain ⟨hr, hw⟩ := hcounts _ (others f' hf')
    rw [hr, hw]
    refine pins.counts f' ?_
    rw [hframes]
    simp only [mem_append, mem_cons] at hf' ⊢
    tauto
  · rw [hids]
    by_cases hif : i = f.pageId
    · rw [hif, hframes]
      simp
    · obtain ⟨hr, hw⟩ := hcounts i hif
      refine pins.held i ?_
      simpa only [← count_pos_iff, hr, hw] using hi

lemma install (hout : g.pageId ∉ pool.frames.map (·.pageId)) (installed : Installed pool pool' g)
    (hpin : g.pinCount = reads'.count g.pageId + writes'.count g.pageId)
    (hcounts : ∀ i, i ≠ g.pageId →
      reads'.count i = reads.count i ∧ writes'.count i = writes.count i) :
    Pinned reads' writes' pool' := by
  refine ⟨fun f hf => ?_, fun i hi => ?_⟩
  · rcases installed.old f hf with rfl | hold
    · exact hpin
    · obtain ⟨hr, hw⟩ := hcounts f.pageId fun heq => hout (heq ▸ mem_map_of_mem hold)
      rw [hr, hw]
      exact pins.counts f hold
  · by_cases hig : i = g.pageId
    · exact hig ▸ mem_map_of_mem installed.added
    · obtain ⟨hr, hw⟩ := hcounts i hig
      have hi' : i ∈ reads ∨ i ∈ writes := by simpa only [← count_pos_iff, hr, hw] using hi
      obtain ⟨f, hf, rfl⟩ := mem_map.mp (pins.held i hi')
      rcases installed.kept f hf with hkept | ⟨_, hpin⟩
      · exact mem_map_of_mem hkept
      · obtain ⟨hr, hw⟩ := pins.unpinned hf hpin
        exact absurd hi' (by tauto)

lemma unheld (hout : i ∉ pool.frames.map (·.pageId)) : reads.count i = 0 ∧ writes.count i = 0 :=
  ⟨count_eq_zero.mpr fun hi => hout (pins.held i (.inl hi)),
    count_eq_zero.mpr fun hi => hout (pins.held i (.inr hi))⟩

lemma frame (pageId : PageId) (h : pageId ∈ reads ∨ pageId ∈ writes) :
    ∃ index f, pool.findFrame pageId = some index ∧ pool.frames[index]? = some f ∧
      f.pageId = pageId := by
  cases hfind : pool.findFrame pageId with
  | none => exact absurd (pins.held pageId h) (findFrame_none hfind)
  | some index =>
    obtain ⟨f, hf, hid⟩ := findFrame_some hfind
    exact ⟨index, f, rfl, hf, hid⟩

end Pinned

/-- Every dirty frame is still there or was written to the file, but for the
frame of a page in `discarded`. -/
def Kept (discarded : PageId → Prop) (pool pool' : BufferState Page) : Prop :=
  ∀ f ∈ pool.frames, f.dirty = true → f.pageId ∈ pool'.frames.map (·.pageId) ∨
    pool'.disk[f.pageId]? = some f.page ∨ discarded f.pageId

lemma Kept.of_ids (hids : pool'.frames.map (·.pageId) = pool.frames.map (·.pageId)) :
    Kept discarded pool pool' :=
  fun _ hf _ => .inl (hids ▸ mem_map_of_mem hf)

lemma Kept.of_installed (inv : Coherent bytes latest pool₁)
    (hframes : pool₁.frames.map BufferFrame.cleaned = pool.frames.map BufferFrame.cleaned)
    (installed : Installed pool₁ pool' g) : Kept discarded pool pool' := by
  intro f hf _
  have hmem : f.cleaned ∈ pool₁.frames.map BufferFrame.cleaned := hframes ▸ mem_map_of_mem hf
  obtain ⟨f₁, hf₁, heq⟩ := mem_map.mp hmem
  have hid : f₁.pageId = f.pageId := cleaned_pageId heq
  have hpage : f₁.page = f.page := cleaned_page heq
  rcases installed.kept f₁ hf₁ with hkept | ⟨hclean, _⟩
  · exact .inl (hid ▸ mem_map_of_mem hkept)
  · refine .inr (.inl ?_)
    rw [installed.disk, ← hid, ← hpage]
    exact inv.clean f₁ hf₁ hclean

section Calls

variable {reads writes : List PageId} {discarded : PageId → Prop}

variable {pageId : PageId} {e : BufferError}

lemma Coherent.grow (inv : Coherent bytes latest pool) (write : PageWrite Page)
    (hwrite : write.page = bytes.zero) :
    Coherent bytes (update latest pool.disk.length bytes.zero)
      { pool with disk := pool.disk ++ [bytes.zero], written := pool.written ++ [write] } := by
  have hold : ∀ {i}, i < pool.disk.length →
      (pool.disk ++ [bytes.zero])[i]? = pool.disk[i]? := fun hi => getElem?_append_left hi
  refine ⟨inv.nodup, fun f hf => ?_, fun f hf hclean => ?_, fun f hf => ?_, fun i hi hout => ?_, ?_⟩
  · simp only [length_append, length_singleton]
    exact Nat.lt_succ_of_lt (inv.inFile f hf)
  · exact (hold (inv.inFile f hf)).trans (inv.clean f hf hclean)
  · rw [update_of_ne (Nat.ne_of_lt (inv.inFile f hf))]
    exact inv.cached f hf
  · simp only [length_append, length_singleton] at hi
    by_cases hlt : i < pool.disk.length
    · rw [hold hlt, update_of_ne (Nat.ne_of_lt hlt)]
      exact inv.stored i hlt hout
    · obtain rfl : i = pool.disk.length := by omega
      simp
  · refine logged_append inv.logged fun _ lsn hlsn => ?_
    rw [hwrite] at hlsn
    exact absurd hlsn (bytes.zero_unlogged lsn)

/-- Releasing a write guard stores its page; a frame released unchanged is clean only
where it was clean before. -/
lemma releaseWrite_spec {dirty : Bool} {front' back' : List PageId}
    (inv : Coherent bytes latest pool) (pins : Pinned reads (front' ++ pageId :: back') pool)
    (hclean : dirty = false → page = latest pageId) :
    Coherent bytes (update latest pageId page) (pool.releaseWrite pageId page dirty) ∧
      Kept discarded pool (pool.releaseWrite pageId page dirty) ∧
      Pinned reads (front' ++ back') (pool.releaseWrite pageId page dirty) := by
  obtain ⟨index, f, hfind, hf, hid⟩ := pins.frame pageId (.inr (by simp))
  obtain ⟨front, back, hframes, _, hmodify, _⟩ := frames_split hf
  have hmem : f ∈ pool.frames := mem_of_getElem? hf
  have hframes' : (pool.releaseWrite pageId page dirty).frames
      = front ++ { f with
          page := page, dirty := f.dirty || dirty, writer := false,
          pinCount := f.pinCount - 1 } :: back := by
    unfold releaseWrite
    rw [hfind]
    exact hmodify _
  have hdisk : (pool.releaseWrite pageId page dirty).disk = pool.disk := by
    unfold releaseWrite
    rw [hfind]
  have hwritten : (pool.releaseWrite pageId page dirty).written = pool.written := by
    unfold releaseWrite
    rw [hfind]
  refine ⟨?_, .of_ids (by rw [hframes', hframes]; simp), ?_⟩
  · refine inv.replace hframes hframes' rfl (by rw [hdisk]) (fun _ _ => by rw [hdisk])
      (fun hboth => ?_) (fun i hi => update_of_ne (hid ▸ hi) ..)
      (by rw [hid]; exact update_self ..) (hwritten ▸ inv.logged)
    obtain ⟨hf, hd⟩ : f.dirty = false ∧ dirty = false := by simpa using hboth
    rw [hdisk, inv.clean f hmem hf, hclean hd, ← hid, inv.cached f hmem]
  · refine pins.replace inv.nodup hframes hframes' rfl ?_ fun i hi => ?_
    · rw [pins.counts f hmem, hid]
      simp only [count_append, count_cons_self]
      omega
    · have hne : pageId ≠ i := fun heq => hi (heq ▸ hid.symm)
      simp [count_append, count_cons_of_ne hne]

section Pins

variable (inv : Coherent bytes latest pool) (pins : Pinned reads writes pool) {writer : Bool}
include inv pins

lemma loadPage_spec {r : Except BufferError Page} (hout : pageId ∉ pool.frames.map (·.pageId))
    (h : pool.loadPage bytes files pageId writer = (r, pool'))
    (hpin : 1 = reads'.count pageId + writes'.count pageId)
    (hother : ∀ i, i ≠ pageId → reads'.count i = reads.count i ∧ writes'.count i = writes.count i) :
    Coherent bytes latest pool' ∧ Kept discarded pool pool' ∧
      (∀ page, r = .ok page → page = latest pageId ∧ Pinned reads' writes' pool') ∧
      (∀ e, r = .error e → Pinned reads writes pool') := by
  unfold loadPage at h
  split at h
  · cases h
    exact ⟨inv, .of_ids rfl, nofun, fun _ _ => pins⟩
  rename_i page hread
  obtain ⟨hlt, hdisk, hlatest⟩ := inv.readPage_latest hout hread
  cases hp : pool.prepareFrame bytes files with
  | mk r₁ pool₁ =>
    obtain ⟨inv₁, same, hslot⟩ := prepareFrame_spec inv hp
    rw [hp] at h
    cases r₁ with
    | error _ =>
      cases h
      exact ⟨inv₁, .of_ids same.ids, nofun, fun _ _ => pins.sameFrames same⟩
    | ok index =>
      cases h
      have hout₁ : pageId ∉ pool₁.frames.map (·.pageId) := same.ids ▸ hout
      have hlt₁ : pageId < pool₁.disk.length := same.length ▸ hlt
      obtain ⟨inv', installed⟩ := @installFrame_spec _ _ _ latest latest
        ⟨pageId, page, 1, writer, false⟩ index inv₁ (hslot index rfl) hout₁ hlt₁
        (fun _ => by rw [inv₁.stored pageId hlt₁ hout₁, hlatest]) (fun _ _ => rfl) hlatest
      refine ⟨inv', .of_installed inv₁ same.frames installed, fun page' hok => ?_, nofun⟩
      cases hok
      exact ⟨hlatest.symm, (pins.sameFrames same).install hout₁ installed hpin hother⟩

/-- Pinning or unpinning a cached frame changes no page. -/
lemma repin_spec {front back : List (BufferFrame Page)} {count : Nat} (pool' : BufferState Page)
    (hframes : pool.frames = front ++ f :: back)
    (hframes' : pool'.frames = front ++ { f with pinCount := count, writer := writer } :: back)
    (hdisk : pool'.disk = pool.disk) (hwritten : pool'.written = pool.written)
    (hpin : count = reads'.count f.pageId + writes'.count f.pageId) (hother : ∀ i, i ≠ f.pageId →
      reads'.count i = reads.count i ∧ writes'.count i = writes.count i) :
    Coherent bytes latest pool' ∧ Kept discarded pool pool' ∧ Pinned reads' writes' pool' := by
  have hmem : f ∈ pool.frames := by simp [hframes]
  refine ⟨?_, .of_ids (by rw [hframes', hframes]; simp),
    pins.replace inv.nodup hframes hframes' rfl hpin hother⟩
  exact inv.replace hframes hframes' rfl (by rw [hdisk]) (fun _ _ => by rw [hdisk])
    (fun hclean => hdisk ▸ inv.clean f hmem hclean) (fun _ _ => rfl) (inv.cached f hmem)
    (hwritten ▸ inv.logged)

lemma pinRead_spec {r : Except BufferError Page}
    (h : pool.pinRead bytes files pageId = (r, pool')) :
    Coherent bytes latest pool' ∧ Kept discarded pool pool' ∧
      (∀ page, r = .ok page → page = latest pageId ∧ Pinned (pageId :: reads) writes pool') ∧
      (∀ e, r = .error e → Pinned reads writes pool') := by
  unfold pinRead at h
  split at h
  · rename_i index hfind
    obtain ⟨f, hf, hid⟩ := findFrame_some hfind
    obtain ⟨front, back, hframes, hset, _, _⟩ := frames_split hf
    have hmem : f ∈ pool.frames := mem_of_getElem? hf
    simp only [hf] at h
    split at h
    · cases h
      exact ⟨inv, .of_ids rfl, nofun, fun _ _ => pins⟩
    split at h
    · cases h
      exact ⟨inv, .of_ids rfl, nofun, fun _ _ => pins⟩
    cases h
    have hpin : f.pinCount + 1 = (pageId :: reads).count f.pageId + writes.count f.pageId := by
      rw [← hid, count_cons_self, pins.counts f hmem]
      omega
    obtain ⟨inv', hkept, pins'⟩ := repin_spec inv pins { pool with frames := _ }
      hframes (hset _) rfl rfl hpin fun i hi => ⟨count_cons_of_ne (hid ▸ Ne.symm hi), rfl⟩
    refine ⟨inv', hkept, fun page hok => ?_, nofun⟩
    cases hok
    exact ⟨by rw [← hid, inv.cached f hmem], pins'⟩
  · rename_i hfind
    have hout := findFrame_none hfind
    obtain ⟨hr, hw⟩ := pins.unheld hout
    exact loadPage_spec inv pins hout h (by rw [count_cons_self, hr, hw])
      fun i hi => ⟨count_cons_of_ne (Ne.symm hi), rfl⟩

lemma pinWrite_spec {r : Except BufferError Page}
    (h : pool.pinWrite bytes files pageId = (r, pool')) :
    Coherent bytes latest pool' ∧ Kept discarded pool pool' ∧
      (∀ page, r = .ok page → page = latest pageId ∧ pageId ∉ writes ∧
        Pinned reads (pageId :: writes) pool') ∧
      (∀ e, r = .error e → Pinned reads writes pool') := by
  unfold pinWrite at h
  split at h
  · rename_i index hfind
    obtain ⟨f, hf, hid⟩ := findFrame_some hfind
    obtain ⟨front, back, hframes, hset, _, _⟩ := frames_split hf
    have hmem : f ∈ pool.frames := mem_of_getElem? hf
    simp only [hf] at h
    split at h
    · cases h
      exact ⟨inv, .of_ids rfl, nofun, fun _ _ => pins⟩
    rename_i hpin
    have hpin : f.pinCount = 0 := not_not.mp hpin
    cases h
    obtain ⟨hr, hw⟩ := pins.unpinned hmem hpin
    have hone : 1 = reads.count f.pageId + (pageId :: writes).count f.pageId := by
      rw [← hid, count_cons_self, count_eq_zero.mpr hr, count_eq_zero.mpr hw]
    obtain ⟨inv', hkept, pins'⟩ := repin_spec inv pins { pool with frames := _ }
      hframes (hset _) rfl rfl hone fun i hi => ⟨rfl, count_cons_of_ne (hid ▸ Ne.symm hi)⟩
    refine ⟨inv', hkept, fun page hok => ?_, nofun⟩
    cases hok
    exact ⟨by rw [← hid, inv.cached f hmem], hid ▸ hw, pins'⟩
  · rename_i hfind
    have hout := findFrame_none hfind
    obtain ⟨hr, hw⟩ := pins.unheld hout
    obtain ⟨inv', hkept, hok, herr⟩ := loadPage_spec inv pins hout h
      (by rw [count_cons_self, hr, hw]) fun i hi => ⟨rfl, count_cons_of_ne (Ne.symm hi)⟩
    exact ⟨inv', hkept, fun page hr => ⟨(hok page hr).1, count_eq_zero.mp hw, (hok page hr).2⟩,
      herr⟩

lemma allocatePage_spec {r : Except BufferError PageId}
    (h : pool.allocatePage bytes files = (r, pool')) :
    (∀ pageId, r = .ok pageId → Coherent bytes (update latest pageId bytes.zero) pool' ∧
      Kept discarded pool pool' ∧ pageId ∉ writes ∧ Pinned reads (pageId :: writes) pool') ∧
      (∀ e, r = .error e →
        Coherent bytes latest pool' ∧ Kept discarded pool pool' ∧ Pinned reads writes pool') := by
  unfold allocatePage at h
  cases hp : pool.prepareFrame bytes files with
  | mk r₁ pool₁ =>
    obtain ⟨inv₁, same, hslot⟩ := prepareFrame_spec inv hp
    have pins₁ := pins.sameFrames same
    rw [hp] at h
    cases r₁ with
    | error _ => cases h; exact ⟨nofun, fun _ _ => ⟨inv₁, .of_ids same.ids, pins₁⟩⟩
    | ok index =>
      simp only at h
      split at h
      · cases h; exact ⟨nofun, fun _ _ => ⟨inv₁, .of_ids same.ids, pins₁⟩⟩
      split at h
      · cases h; exact ⟨nofun, fun _ _ => ⟨inv₁, .of_ids same.ids, pins₁⟩⟩
      cases h
      refine ⟨fun pageId hok => ?_, nofun⟩
      cases hok
      have grown := inv₁.grow ⟨pool₁.disk.length, bytes.zero,
        pool₁.wal.bind (·.durableLsn)⟩ rfl
      have hout : pool₁.disk.length ∉ pool₁.frames.map (·.pageId) := by
        intro hmem
        obtain ⟨f, hf, hid⟩ := mem_map.mp hmem
        exact Nat.ne_of_lt (inv₁.inFile f hf) hid
      obtain ⟨hr, hw⟩ := pins₁.unheld hout
      obtain ⟨inv', installed⟩ := @installFrame_spec _ _ _ _ _
        ⟨pool₁.disk.length, bytes.zero, 1, true, false⟩ index grown (hslot index rfl) hout
        (by simp) (fun _ => by simp) (fun _ _ => rfl) (update_self ..)
      have pins₂ : Pinned reads writes { pool₁ with
          disk := pool₁.disk ++ [bytes.zero]
          written := pool₁.written ++ [⟨pool₁.disk.length, bytes.zero,
            pool₁.wal.bind (·.durableLsn)⟩] } := ⟨pins₁.counts, pins₁.held⟩
      refine ⟨inv', .of_installed grown same.frames installed, count_eq_zero.mp hw, ?_⟩
      refine pins₂.install hout installed ?_ fun i hi => ?_
      · rw [count_cons_self, hr, hw]
      · exact ⟨rfl, count_cons_of_ne (Ne.symm hi)⟩

lemma releaseRead_spec (hread : pageId ∈ reads) : Coherent bytes latest (pool.releaseRead pageId) ∧
      Kept discarded pool (pool.releaseRead pageId) ∧
      Pinned (reads.erase pageId) writes (pool.releaseRead pageId) := by
  obtain ⟨index, f, hfind, hf, hid⟩ := pins.frame pageId (.inl hread)
  obtain ⟨front, back, hframes, _, hmodify, _⟩ := frames_split hf
  have hmem : f ∈ pool.frames := mem_of_getElem? hf
  have hframes' : (pool.releaseRead pageId).frames
      = front ++ { f with pinCount := f.pinCount - 1 } :: back := by
    unfold releaseRead
    rw [hfind]
    exact hmodify _
  refine repin_spec inv pins _ hframes hframes' (by unfold releaseRead; rw [hfind])
    (by unfold releaseRead; rw [hfind]) ?_ fun i hi => ⟨count_erase_of_ne (hid ▸ hi), rfl⟩
  have hpos : 0 < reads.count f.pageId := count_pos_iff.mpr (hid ▸ hread)
  rw [← hid, count_erase_self, pins.counts f hmem]
  omega

end Pins

variable {r : Except BufferError Unit}

section

variable (inv : Coherent bytes latest pool)
include inv

lemma flushPage_spec (h : pool.flushPage bytes files pageId = (r, pool')) :
    Coherent bytes latest pool' ∧ SameFrames pool pool' := by
  unfold flushPage at h
  split at h
  · cases h
    exact ⟨inv, .refl⟩
  rename_i index _
  cases hf : pool.flushFrame bytes files index with
  | mk r₁ pool₁ =>
    obtain ⟨inv₁, same, _⟩ := flushFrame_spec inv hf
    rw [hf] at h
    cases r₁ <;> cases h <;> exact ⟨inv₁, same⟩

lemma flushFrames_spec {indices : List Nat}
    (h : flushFrames bytes files indices pool = (r, pool')) :
    Coherent bytes latest pool' ∧ SameFrames pool pool' := by
  induction indices generalizing pool with
  | nil =>
    cases h
    exact ⟨inv, .refl⟩
  | cons index rest ih =>
    unfold flushFrames at h
    cases hf : pool.flushFrame bytes files index with
    | mk r₁ pool₁ =>
      obtain ⟨inv₁, same, _⟩ := flushFrame_spec inv hf
      rw [hf] at h
      cases r₁ with
      | error _ => cases h; exact ⟨inv₁, same⟩
      | ok _ =>
        obtain ⟨inv', same'⟩ := ih inv₁ h
        exact ⟨inv', same.trans same'⟩

lemma flushAll_spec (h : pool.flushAll bytes files = (r, pool')) :
    Coherent bytes latest pool' ∧ SameFrames pool pool' := by
  unfold flushAll at h
  split at h
  · cases h
    exact ⟨inv, .refl⟩
  cases hf : flushFrames bytes files (range pool.frames.length) pool with
  | mk r₁ pool₁ =>
    obtain ⟨inv₁, same⟩ := flushFrames_spec inv hf
    rw [hf] at h
    cases r₁ <;> cases h <;> exact ⟨inv₁, same⟩

end

variable {expected : Option PageGeneration}

lemma validateCurrent_unpinned {index : Nat}
    (h : pool.validateCurrent bytes files pageId expected = .ok ())
    (hin : pageId < pool.disk.length) (hfind : pool.findFrame pageId = some index)
    (hf : pool.frames[index]? = some f) : f.pinCount = 0 := by
  unfold validateCurrent at h
  simp only [hin, if_true, hfind, Option.bind_some, hf] at h
  by_contra hpin
  simp [hpin] at h

/-- Cutting off the last page, which is not cached. -/
lemma Coherent.cut (inv : Coherent bytes latest pool) (hout : pageId ∉ pool.frames.map (·.pageId))
    (hlast : pageId + 1 = pool.disk.length) :
    Coherent bytes latest { pool with disk := pool.disk.take pageId } := by
  have hlength : (pool.disk.take pageId).length = pageId := by
    rw [length_take, ← hlast]
    exact min_eq_left (le_succ _)
  have hold : ∀ {i}, i < pageId → (pool.disk.take pageId)[i]? = pool.disk[i]? :=
    fun hi => getElem?_take_of_lt hi
  have hlt : ∀ f ∈ pool.frames, f.pageId < pageId := by
    intro f hf
    have hin := inv.inFile f hf
    have hne : f.pageId ≠ pageId := fun heq => hout (heq ▸ mem_map_of_mem hf)
    exact lt_of_le_of_ne (le_of_lt_succ (lt_of_lt_of_eq hin hlast.symm)) hne
  refine ⟨inv.nodup, fun f hf => ?_, fun f hf hclean => ?_, inv.cached, fun i hi hi' => ?_,
    inv.logged⟩
  · rw [hlength]
    exact hlt f hf
  · exact (hold (hlt f hf)).trans (inv.clean f hf hclean)
  · rw [hlength] at hi
    exact (hold hi).trans (inv.stored i (lt_of_lt_of_le hi (hlast ▸ le_succ _)) hi')

lemma Kept.trans_same (kept : Kept discarded pool pool₁) (inv₁ : Coherent bytes latest pool₁)
    (inv' : Coherent bytes latest pool') (same : SameFrames pool₁ pool') :
    Kept discarded pool pool' := by
  intro f hf hdirty
  rcases kept f hf hdirty with hid | hdisk | hdiscarded
  · exact .inl (same.ids ▸ hid)
  · by_cases hmem : f.pageId ∈ pool₁.frames.map (·.pageId)
    · exact .inl (same.ids ▸ hmem)
    · have hlt := (List.getElem?_eq_some_iff.mp hdisk).1
      refine .inr (.inl ?_)
      rw [inv'.stored _ (same.length ▸ hlt) (same.ids ▸ hmem), ← inv₁.stored _ hlt hmem, hdisk]
  · exact .inr (.inr hdiscarded)

variable {before : Page}

lemma restoreFrame_failed (inv : Coherent bytes latest pool)
    (h : pool.restoreFrame bytes files pageId before = (.error e, pool')) :
    Coherent bytes latest pool' ∧ SameFrames pool pool' := by
  unfold restoreFrame at h
  split at h
  · cases h
    exact ⟨inv, .refl⟩
  split at h
  · cases h
  cases hp : pool.prepareFrame bytes files with
  | mk r pool₁ =>
    obtain ⟨inv₁, same, _⟩ := prepareFrame_spec inv hp
    rw [hp] at h
    cases r with
    | error _ => cases h; exact ⟨inv₁, same⟩
    | ok _ => cases h

section

variable (inv : Coherent bytes latest pool) (pins : Pinned reads writes pool)
include inv pins

lemma discardFrame_spec (hpage : pool.disk[pageId]? = some page)
    (hunpinned : ∀ index f, pool.findFrame pageId = some index → pool.frames[index]? = some f →
      f.pinCount = 0) :
    Coherent bytes (Function.update latest pageId page) (pool.discardFrame pageId) ∧
      Kept (· = pageId) pool (pool.discardFrame pageId) ∧
      Pinned reads writes (pool.discardFrame pageId) ∧
      pageId ∉ (pool.discardFrame pageId).frames.map (·.pageId) ∧
      (pool.discardFrame pageId).disk = pool.disk := by
  have hlt := (List.getElem?_eq_some_iff.mp hpage).1
  unfold discardFrame
  cases hfind : pool.findFrame pageId with
  | none =>
    have hout := findFrame_none hfind
    have hlatest : latest pageId = page := by
      have := inv.stored pageId hlt hout
      rw [hpage] at this
      exact (Option.some.inj this).symm
    rw [update_eq_self_iff.mpr hlatest.symm]
    exact ⟨inv, .of_ids rfl, pins, hout, rfl⟩
  | some index =>
    obtain ⟨f, hf, hid⟩ := findFrame_some hfind
    obtain ⟨front, back, hframes, _, _, herase⟩ := frames_split hf
    have hmem : f ∈ pool.frames := mem_of_getElem? hf
    have hne := others_ne inv.nodup hframes
    have hframes' : (pool.removeFrame index).frames = front ++ back := herase
    have hids : ∀ i, i ≠ pageId → i ∈ pool.frames.map (·.pageId) →
        i ∈ (pool.removeFrame index).frames.map (·.pageId) := by
      intro i hi hmem
      rw [hframes] at hmem
      rw [hframes']
      simp only [map_append, map_cons, mem_append, mem_cons, hid] at hmem ⊢
      tauto
    refine ⟨?_, ?_, ⟨?_, ?_⟩, ?_, rfl⟩
    · exact inv.drop hframes hframes' rfl rfl
        (fun i hi => update_of_ne (hid ▸ hi) ..)
        (by rw [hid, hpage, update_self])
    · intro f' hf' _
      by_cases hf'id : f'.pageId = pageId
      · exact .inr (.inr hf'id)
      · exact .inl (hids _ hf'id (mem_map_of_mem hf'))
    · intro f' hf'
      refine pins.counts f' ?_
      rw [hframes'] at hf'
      rw [hframes]
      simp only [mem_append, mem_cons] at hf' ⊢
      tauto
    · intro i hi
      refine hids i (fun heq => ?_) (pins.held i hi)
      obtain ⟨hr, hw⟩ := pins.unpinned hmem (hunpinned index f hfind hf)
      rw [hid, ← heq] at hr hw
      tauto
    · rw [hframes']
      intro hmem
      obtain ⟨f', hf', hid'⟩ := mem_map.mp hmem
      exact hne f' hf' (hid'.trans hid.symm)

lemma restoreFrame_ok {index : Nat}
    (h : pool.restoreFrame bytes files pageId before = (.ok index, pool')) :
    Coherent bytes (update latest pageId before) pool' ∧ Kept discarded pool pool' ∧
      Pinned reads writes pool' := by
  unfold restoreFrame at h
  split at h
  · cases h
  rename_i hlen
  have hlt : pageId < pool.disk.length := not_le.mp hlen
  split at h
  · rename_i index' hfind
    cases h
    obtain ⟨f, hf, hid⟩ := findFrame_some hfind
    obtain ⟨front, back, hframes, _, hmodify, _⟩ := frames_split hf
    have hmem : f ∈ pool.frames := mem_of_getElem? hf
    have hframes' := hmodify fun frame => { frame with page := before, dirty := true }
    refine ⟨?_, .of_ids ?_, ?_⟩
    · exact inv.replace hframes hframes' rfl rfl (fun _ _ => rfl) (nofun)
        (fun i hi => update_of_ne (hid ▸ hi) ..)
        (by rw [hid]; exact update_self ..) inv.logged
    · rw [hframes', hframes]
      simp
    · exact pins.replace inv.nodup hframes hframes' rfl (pins.counts f hmem)
        fun _ _ => ⟨rfl, rfl⟩
  · rename_i hfind
    have hout := findFrame_none hfind
    cases hp : pool.prepareFrame bytes files with
    | mk r pool₁ =>
      obtain ⟨inv₁, same, hslot⟩ := prepareFrame_spec inv hp
      rw [hp] at h
      cases r with
      | error _ => cases h
      | ok index' =>
        cases h
        have hout₁ : pageId ∉ pool₁.frames.map (·.pageId) := same.ids ▸ hout
        obtain ⟨hr, hw⟩ := pins.unheld hout
        obtain ⟨inv', installed⟩ := @installFrame_spec _ _ _ latest
          (update latest pageId before) ⟨pageId, before, 0, false, true⟩ index inv₁
          (hslot index rfl) hout₁ (same.length ▸ hlt) (nofun)
          (fun i hi => update_of_ne hi ..) (update_self ..)
        refine ⟨inv', .of_installed inv₁ same.frames installed, ?_⟩
        exact (pins.sameFrames same).install hout₁ installed (by simp [hr, hw])
          fun _ _ => ⟨rfl, rfl⟩

lemma undoExisting_spec (h : pool.undoExisting bytes files pageId before = (r, pool')) :
    Coherent bytes (match bytes.pageLsn before, pool.restoreFrame bytes files pageId before with
        | .ok _, (.ok _, _) => update latest pageId before
        | _, _ => latest) pool' ∧
      Kept discarded pool pool' ∧ Pinned reads writes pool' := by
  unfold undoExisting at h
  split at h
  · rename_i hlsn
    cases h
    rw [hlsn]
    exact ⟨inv, .of_ids rfl, pins⟩
  · rename_i hlsn
    rw [hlsn]
    cases hrestore : pool.restoreFrame bytes files pageId before with
    | mk r₁ pool₁ =>
      rw [hrestore] at h
      cases r₁ with
      | error _ =>
        cases h
        obtain ⟨inv', same⟩ := restoreFrame_failed inv hrestore
        exact ⟨inv', .of_ids same.ids, pins.sameFrames same⟩
      | ok index =>
        obtain ⟨inv₁, kept, pins₁⟩ := @restoreFrame_ok _ _ _ _ _ _ _ _ discarded _ _ inv pins _
          hrestore
        cases hf : pool₁.flushFrame bytes files index with
        | mk r₂ pool₂ =>
          obtain ⟨inv₂, same, _⟩ := flushFrame_spec inv₁ hf
          simp only [hf] at h
          cases r₂ <;> cases h <;>
            exact ⟨inv₂, kept.trans_same inv₁ inv₂ same, pins₁.sameFrames same⟩

lemma undoAllocation_spec
    (hunpinned : pageId < pool.disk.length → ∀ index f, pool.findFrame pageId = some index →
      pool.frames[index]? = some f → f.pinCount = 0)
    (h : pool.undoAllocation files pageId = (r, pool')) :
    Coherent bytes (match pool.disk[pageId]? with
        | none => latest
        | some page => update latest pageId page) pool' ∧
      Kept (· = pageId) pool pool' ∧ Pinned reads writes pool' := by
  unfold undoAllocation at h
  split at h
  · rename_i hlt
    cases h
    rw [getElem?_eq_none (le_of_lt hlt)]
    exact ⟨inv, .of_ids rfl, pins⟩
  · rename_i hle
    by_cases heq : pageId = pool.disk.length
    · -- Only a partial extension of the file is cut off.
      rw [getElem?_eq_none (le_of_eq heq.symm)]
      have hpool : ∀ r₁ pool₁, pool.removeTrailingPage files pageId = (r₁, pool₁) →
          pool₁ = pool := by
        intro r₁ pool₁ hr
        unfold removeTrailingPage at hr
        rw [if_pos heq] at hr
        exact (Prod.mk.inj hr).2.symm
      rw [if_pos heq] at h
      cases hr : pool.removeTrailingPage files pageId with
      | mk r₁ pool₁ =>
        obtain rfl := hpool r₁ pool₁ hr
        rw [hr] at h
        cases r₁ <;> cases h <;> exact ⟨inv, .of_ids rfl, pins⟩
    · have hlt : pageId < pool.disk.length := lt_of_le_of_ne (not_lt.mp hle) heq
      obtain ⟨page, hpage⟩ : ∃ page, pool.disk[pageId]? = some page :=
        ⟨_, getElem?_eq_getElem hlt⟩
      obtain ⟨inv₁, kept, pins₁, hout, hdisk⟩ := discardFrame_spec inv pins hpage (hunpinned hlt)
      rw [hpage]
      rw [if_neg heq] at h
      unfold removeTrailingPage at h
      rw [hdisk, if_neg heq] at h
      by_cases hlast : pageId + 1 ≠ pool.disk.length ∨ pageId = 0
      · rw [if_pos hlast] at h
        cases h
        exact ⟨inv₁, kept, pins₁⟩
      rw [if_neg hlast] at h
      have hlast : pageId + 1 = pool.disk.length := by
        by_contra hne
        exact hlast (.inl hne)
      by_cases htruncate : files.truncate
      · rw [if_pos htruncate] at h
        cases h
        refine ⟨?_, fun f hf hdirty => ?_, ⟨pins₁.counts, pins₁.held⟩⟩
        · have := inv₁.cut hout (by rw [hdisk]; exact hlast)
          rw [hdisk] at this
          exact this
        rcases kept f hf hdirty with hid | hold | hsame
        · exact .inl hid
        · by_cases hid : f.pageId = pageId
          · exact .inr (.inr hid)
          · refine .inr (.inl ?_)
            have hlt' : f.pageId < pageId := lt_of_le_of_ne
              (le_of_lt_succ (lt_of_lt_of_eq (inv.inFile f hf) hlast.symm)) hid
            rw [hdisk] at hold
            exact (getElem?_take_of_lt hlt').trans hold
        · exact .inr (.inr hsame)
      · rw [if_neg htruncate] at h
        cases h
        exact ⟨inv₁, kept, pins₁⟩

lemma undoPageUpdate_spec
    (h : pool.undoPageUpdate bytes files pageId before expected = (r, pool')) :
    Coherent bytes (undone bytes files pool pageId before expected latest) pool' ∧
      Kept (fun i => i = pageId ∧ bytes.isZero before ∧ i ∉ reads ∧ i ∉ writes) pool pool' ∧
      Pinned reads writes pool' := by
  unfold undoPageUpdate at h
  unfold undone
  cases hvalid : pool.validateCurrent bytes files pageId expected with
  | error e =>
    rw [hvalid] at h
    cases h
    exact ⟨inv, .of_ids rfl, pins⟩
  | ok _ =>
    simp only [hvalid] at h
    have hunpinned : pageId < pool.disk.length → ∀ index f, pool.findFrame pageId = some index →
        pool.frames[index]? = some f → f.pinCount = 0 :=
      fun hlt index f hfind hf => validateCurrent_unpinned hvalid hlt hfind hf
    by_cases hzero : bytes.isZero before
    · rw [if_pos hzero] at h ⊢
      obtain ⟨inv', kept, pins'⟩ := undoAllocation_spec inv pins hunpinned h
      refine ⟨inv', fun f hf hdirty => ?_, pins'⟩
      rcases kept f hf hdirty with hid | hdisk | hsame
      · exact .inl hid
      · exact .inr (.inl hdisk)
      obtain ⟨index, hfind⟩ : ∃ index, pool.findFrame pageId = some index := by
        cases hfind : pool.findFrame pageId with
        | none => exact absurd (hsame ▸ mem_map_of_mem hf) (findFrame_none hfind)
        | some index => exact ⟨index, rfl⟩
      obtain ⟨g, hg, hid⟩ := findFrame_some hfind
      have hgmem : g ∈ pool.frames := mem_of_getElem? hg
      have hpin := hunpinned (hsame ▸ inv.inFile f hf) index g hfind hg
      obtain ⟨hr, hw⟩ := pins.unpinned hgmem hpin
      exact .inr (.inr ⟨hsame, hzero, (hid.trans hsame.symm) ▸ hr, (hid.trans hsame.symm) ▸ hw⟩)
    · rw [if_neg hzero] at h ⊢
      exact undoExisting_spec inv pins h

end

lemma undone_of_ne (hne : i ≠ pageId) :
    undone bytes files pool pageId before expected latest i = latest i := by
  unfold undone
  cases pool.validateCurrent bytes files pageId expected with
  | error _ => rfl
  | ok _ =>
    by_cases hzero : bytes.isZero before
    · simp only [hzero, if_true]
      cases pool.disk[pageId]? with
      | none => rfl
      | some page => exact update_of_ne hne ..
    · simp only [hzero]
      cases bytes.pageLsn before with
      | error _ => rfl
      | ok _ =>
        cases pool.restoreFrame bytes files pageId before with
        | mk r _ =>
          cases r with
          | error _ => rfl
          | ok _ => exact update_of_ne hne ..

/-- An undo does not change the content of a page that a writer has pinned. -/
lemma undone_of_held (inv : Coherent bytes latest pool) (pins : Pinned reads writes pool)
    (hheld : i ∈ writes) :
    undone bytes files pool pageId before expected latest i = latest i := by
  by_cases hne : i = pageId
  · subst hne
    obtain ⟨index, f, hfind, hf, hid⟩ := pins.frame i (.inr hheld)
    have hmem : f ∈ pool.frames := mem_of_getElem? hf
    unfold undone
    cases hvalid : pool.validateCurrent bytes files i expected with
    | error e => rfl
    | ok _ =>
      have hpin := validateCurrent_unpinned hvalid (hid ▸ inv.inFile f hmem) hfind hf
      exact absurd hheld (hid ▸ (pins.unpinned hmem hpin).2)
  · exact undone_of_ne hne

end Calls

/-- What holds in every session. -/
structure Session.Ok (bytes : PageBytes Page) (s : Session Page) : Prop where
  coherent : Coherent bytes s.latest s.pool
  pinned : Pinned s.reads (s.writes.map Prod.fst) s.pool
  /-- A page has one writer at a time, which works on its latest content. -/
  writers : (s.writes.map Prod.fst).Nodup
  snapshots : ∀ w ∈ s.writes, s.latest w.1 = w.2

/-- The page whose allocation a call undoes, which nobody has pinned. -/
def Discards (bytes : PageBytes Page) (s : Session Page) (op : Op Page) (i : PageId) : Prop :=
  ∃ before expected, op = .undo i before expected ∧ bytes.isZero before ∧
    i ∉ s.reads ∧ i ∉ s.writes.map Prod.fst

/-- One step, by the call that was made and its outcome. -/
lemma Step.ok {s s' : Session Page} {op : Op Page} (h : Step bytes s op s')
    (ok : s.Ok bytes) : s'.Ok bytes ∧ Kept (Discards bytes s op) s.pool s'.pool := by
  obtain ⟨inv, pins, writers, snapshots⟩ := ok
  cases h with
  | pinRead files h =>
    obtain ⟨inv', kept, hok, _⟩ := pinRead_spec inv pins h
    exact ⟨⟨inv', (hok _ rfl).2, writers, snapshots⟩, kept⟩
  | pinReadFailed files h =>
    obtain ⟨inv', kept, _, herr⟩ := pinRead_spec inv pins h
    exact ⟨⟨inv', herr _ rfl, writers, snapshots⟩, kept⟩
  | pinWrite files h =>
    obtain ⟨inv', kept, hok, _⟩ := pinWrite_spec inv pins h
    obtain ⟨hpage, hnew, pins'⟩ := hok _ rfl
    exact ⟨⟨inv', pins', nodup_cons.mpr ⟨hnew, writers⟩,
      forall_mem_cons.mpr ⟨hpage.symm, snapshots⟩⟩, kept⟩
  | pinWriteFailed files h =>
    obtain ⟨inv', kept, _, herr⟩ := pinWrite_spec inv pins h
    exact ⟨⟨inv', herr _ rfl, writers, snapshots⟩, kept⟩
  | allocate files h =>
    obtain ⟨inv', kept, hnew, pins'⟩ := (allocatePage_spec inv pins h).1 _ rfl
    refine ⟨⟨inv', pins', nodup_cons.mpr ⟨hnew, writers⟩,
      forall_mem_cons.mpr ⟨update_self .., fun w hw => ?_⟩⟩, kept⟩
    have hne : w.1 ≠ _ := fun heq => hnew (mem_map.mpr ⟨w, hw, heq⟩)
    exact (update_of_ne hne ..).trans (snapshots w hw)
  | allocateFailed files h =>
    obtain ⟨inv', kept, pins'⟩ := (allocatePage_spec inv pins h).2 _ rfl
    exact ⟨⟨inv', pins', writers, snapshots⟩, kept⟩
  | releaseRead hread =>
    obtain ⟨inv', kept, pins'⟩ := releaseRead_spec inv pins hread
    exact ⟨⟨inv', pins', writers, snapshots⟩, kept⟩
  | @releaseClean pageId page before after hsplit =>
    rw [hsplit, map_append, map_cons] at pins writers
    have hpage : page = s.latest pageId := (snapshots (pageId, page) (by simp [hsplit])).symm
    obtain ⟨inv', kept, pins'⟩ := releaseWrite_spec inv pins fun _ => hpage
    rw [update_eq_self_iff.mpr hpage] at inv'
    refine ⟨⟨inv', by simpa using pins', ?_, fun w hw => snapshots w ?_⟩, kept⟩
    · rw [map_append]
      exact (nodup_middle.mp writers).of_cons
    · rw [hsplit]
      simp only [mem_append, mem_cons] at hw ⊢
      tauto
  | @releaseDirty pageId page before after page' hsplit =>
    rw [hsplit, map_append, map_cons] at pins writers
    obtain ⟨inv', kept, pins'⟩ := @releaseWrite_spec _ _ _ _ _ _ pageId page' true _ _ inv pins
      nofun
    have hnodup := nodup_middle.mp writers
    refine ⟨⟨inv', by simpa using pins', ?_, fun w hw => ?_⟩, kept⟩
    · rw [map_append]
      exact hnodup.of_cons
    have hne : w.1 ≠ pageId := by
      intro heq
      refine (nodup_cons.mp hnodup).1 ?_
      rw [← map_append]
      exact mem_map.mpr ⟨w, hw, heq⟩
    refine (update_of_ne hne ..).trans (snapshots w ?_)
    rw [hsplit]
    simp only [mem_append, mem_cons] at hw ⊢
    tauto
  | flushPage files h =>
    obtain ⟨inv', same⟩ := flushPage_spec inv h
    exact ⟨⟨inv', pins.sameFrames same, writers, snapshots⟩, .of_ids same.ids⟩
  | flushAll files h =>
    obtain ⟨inv', same⟩ := flushAll_spec inv h
    exact ⟨⟨inv', pins.sameFrames same, writers, snapshots⟩, .of_ids same.ids⟩
  | @undo pageId before expected r pool' files h =>
    obtain ⟨inv', kept, pins'⟩ := undoPageUpdate_spec inv pins h
    refine ⟨⟨inv', pins', writers, fun w hw => ?_⟩, fun f hf hdirty => ?_⟩
    · exact (undone_of_held inv pins (mem_map_of_mem hw)).trans (snapshots w hw)
    · rcases kept f hf hdirty with hid | hdisk | ⟨rfl, hzero, hfree⟩
      · exact .inl hid
      · exact .inr (.inl hdisk)
      · exact .inr (.inr ⟨before, expected, rfl, hzero, hfree⟩)
  | log wal' _ =>
    exact ⟨⟨inv.perm (.refl _) rfl rfl, ⟨pins.counts, pins.held⟩, writers, snapshots⟩, .of_ids rfl⟩

lemma Session.opened_ok (bytes : PageBytes Page) (disk : List Page) (capacity : Nat)
    (wal : Option WalManager) : (Session.opened bytes disk capacity wal).Ok bytes where
  coherent := by
    refine ⟨nodup_nil, nofun, nofun, nofun, fun i hi _ => ?_, nofun⟩
    have hi : i < disk.length := hi
    simp [Session.opened, getElem?_eq_getElem hi]
  pinned := ⟨nofun, fun i hi => by simp [Session.opened] at hi⟩
  writers := nodup_nil
  snapshots := nofun

lemma Reachable.ok {s : Session Page} (h : Reachable bytes s) : s.Ok bytes := by
  induction h with
  | opened disk capacity wal _ => exact Session.opened_ok bytes disk capacity wal
  | step _ hstep ih => exact (hstep.ok ih).1

/-- In every session: reading or pinning a page for a write gives its latest
content; the page of every guard has a frame, pinned by it; every image in the
page file went there behind the log; and whatever call comes next, each dirty
frame stays or is in the file, but for the unpinned frame of a page whose
allocation the call undoes. -/
theorem Reachable.coherent {s : Session Page} (h : Reachable bytes s) :
    (∀ files pageId page pool', s.pool.pinRead bytes files pageId = (.ok page, pool') ∨
      s.pool.pinWrite bytes files pageId = (.ok page, pool') → page = s.latest pageId) ∧
    (∀ pageId, pageId ∈ s.reads ∨ pageId ∈ s.writes.map Prod.fst →
      ∃ f ∈ s.pool.frames, f.pageId = pageId ∧ 0 < f.pinCount) ∧
    (∀ op s', Step bytes s op s' → ∀ f ∈ s.pool.frames, f.dirty = true →
      f.pageId ∈ s'.pool.frames.map (·.pageId) ∨ s'.pool.disk[f.pageId]? = some f.page ∨
        Discards bytes s op f.pageId) ∧
    (∀ write ∈ s.pool.written, write.pageId ≠ 0 →
      ∀ lsn, bytes.pageLsn write.page = .ok (some lsn) → reaches write.durableLsn lsn) := by
  have ok := h.ok
  refine ⟨?_, ?_, fun op s' hstep => (hstep.ok ok).2, fun w hw => ok.coherent.logged w hw⟩
  · rintro files pageId page pool' (hpin | hpin)
    · exact ((@pinRead_spec _ _ _ _ _ _ _ _ (fun _ => False) _ ok.coherent ok.pinned _
        hpin).2.2.1 page rfl).1
    · exact ((@pinWrite_spec _ _ _ _ _ _ _ _ (fun _ => False) _ ok.coherent ok.pinned _
        hpin).2.2.1 page rfl).1
  · intro pageId hheld
    obtain ⟨index, f, _, hf, rfl⟩ := ok.pinned.frame pageId hheld
    have hmem := mem_of_getElem? hf
    refine ⟨f, hmem, rfl, ?_⟩
    rw [ok.pinned.counts f hmem]
    rcases hheld with hr | hw
    · exact Nat.add_pos_left (count_pos_iff.mpr hr) _
    · exact Nat.add_pos_right _ (count_pos_iff.mpr hw)

/-- The frames that are dirty after a flush were so before, and were not flushed. -/
lemma flushFrames_dirty {indices : List Nat} (inv : Coherent bytes latest pool)
    (h : flushFrames bytes files indices pool = (.ok (), pool')) {i : Nat} {f : BufferFrame Page}
    (hf : pool'.frames[i]? = some f) (hdirty : f.dirty = true) :
    i ∉ indices ∧ pool.frames[i]? = some f := by
  induction indices generalizing pool with
  | nil =>
    cases h
    exact ⟨not_mem_nil, hf⟩
  | cons index rest ih =>
    unfold flushFrames at h
    cases hflush : pool.flushFrame bytes files index with
    | mk r₁ pool₁ =>
      obtain ⟨inv₁, -, hclean⟩ := flushFrame_spec inv hflush
      rw [hflush] at h
      cases r₁ with
      | error _ => cases h
      | ok _ =>
        obtain ⟨hrest, hf₁⟩ := ih inv₁ h
        have hi : i ≠ index := by
          rintro rfl
          simp [hclean rfl f hf₁] at hdirty
        refine ⟨by simp [hi, hrest], ?_⟩
        simp only [flushFrame, writePage] at hflush
        split at hflush
        · cases hflush
        split_ifs at hflush <;> grind

/-- A flush of the whole pool that succeeds leaves the latest content of every page in the
page file. -/
theorem Reachable.flushAll_complete {s : Session Page} (h : Reachable bytes s)
    (hflush : s.pool.flushAll bytes files = (.ok (), pool')) :
    ∀ pageId < s.pool.disk.length, pool'.disk[pageId]? = some (s.latest pageId) := by
  intro pageId hlt
  have inv := h.ok.coherent
  obtain ⟨inv', same⟩ := flushAll_spec inv hflush
  by_cases hcached : pageId ∈ pool'.frames.map (·.pageId)
  · obtain ⟨f, hf, rfl⟩ := mem_map.mp hcached
    rw [inv'.cached f hf]
    refine inv'.clean f hf (Bool.eq_false_iff.mpr fun hdirty => ?_)
    obtain ⟨i, hi⟩ := getElem?_of_mem hf
    unfold flushAll at hflush
    split at hflush
    · cases hflush
    split at hflush
    · cases hflush
    rename_i _ _ _ hframes
    obtain ⟨-, rfl⟩ := Prod.mk.inj hflush
    obtain ⟨hout, hi⟩ := flushFrames_dirty inv hframes hi hdirty
    exact hout (mem_range.mpr (List.getElem?_eq_some_iff.mp hi).1)
  · exact inv'.stored pageId (same.length ▸ hlt) hcached

/-- Pages that are numbers; 0 is the page of zeros, and none has a position in a log. -/
def numberPages : PageBytes Nat where
  zero := 0
  isZero page := page = 0
  pageLsn page := if page = 0 then .error .invalidHeader else .ok none
  validateAllocation _ _ := .ok ()
  zero_unlogged := nofun

def goodFiles : FileResults Nat := ⟨true, fun _ => true, fun _ => .done, true, true, true⟩

theorem Reachable.flushAll_complete_written : ∃ (s : Session Nat) (pool' : BufferState Nat),
    Reachable numberPages s ∧ s.pool.flushAll numberPages goodFiles = (.ok (), pool') ∧
      s.latest 1 = 5 ∧ pool'.disk[1]? = some (s.latest 1) := by
  have pinned : Step numberPages (.opened numberPages [7, 8] 1 none) (.pinWrite 1) _ :=
    .pinWrite goodFiles rfl
  have written := ((Reachable.opened [7, 8] 1 none (by decide)).step pinned).step
    (@Step.releaseDirty _ numberPages _ 1 8 [] [] 5 rfl)
  exact ⟨_, _, written, rfl, rfl,
    @Reachable.flushAll_complete _ _ goodFiles _ _ written rfl 1 (by decide)⟩

/-- A new page is written and released, and undoing its allocation drops the frame
before it fails to cut the file: the write is in no frame and not in the file, and
the page is read back as zeros. -/
theorem undone_allocation_drops_write :
    ∃ s s' : Session Nat, ∃ f, Reachable numberPages s ∧
      Step numberPages s (.undo 1 0 none) s' ∧ f ∈ s.pool.frames ∧
      f.pageId = 1 ∧ f.dirty = true ∧ f.page = 5 ∧ s.latest 1 = 5 ∧ s'.pool.frames = [] ∧
      (s'.pool.pinRead numberPages goodFiles 1).1.toOption = some 0 := by
  have allocated : Step numberPages (.opened numberPages [7] 1 none) .allocate _ :=
    .allocate goodFiles rfl
  have written := ((Reachable.opened [7] 1 none (by decide)).step allocated).step
    (@Step.releaseDirty _ numberPages _ 1 0 [] [] 5 rfl)
  exact ⟨_, _, ⟨1, 5, 0, false, true⟩, written, .undo { goodFiles with truncate := false } rfl,
    mem_cons_self .., rfl, rfl, rfl, rfl, rfl, rfl⟩

/-- With one frame, a page is written, evicted by another and read again. -/
theorem Reachable.coherent_evicted :
    ∃ s : Session Nat, Reachable numberPages s ∧ s.pool.frames.map (·.pageId) = [2] ∧
      s.latest 1 = 5 ∧ ∀ files page pool',
        s.pool.pinRead numberPages files 1 = (.ok page, pool') → page = s.latest 1 := by
  have pinned : Step numberPages (.opened numberPages [7, 8, 9] 1 none) (.pinWrite 1) _ :=
    .pinWrite goodFiles rfl
  have written := ((Reachable.opened [7, 8, 9] 1 none (by decide)).step pinned).step
    (@Step.releaseDirty _ numberPages _ 1 8 [] [] 5 rfl)
  have evicted := (written.step (@Step.pinRead _ numberPages _ 2 _ _ goodFiles rfl)).step
    (.releaseRead (mem_cons_self ..))
  exact ⟨_, evicted, rfl, rfl, fun files page pool' hpin =>
    evicted.coherent.1 files 1 page pool' (.inl hpin)⟩

end Netbadb.Buffer
