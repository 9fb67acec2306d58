import Netbadb.Buffer.Pool

/-!
What every operation of the pool keeps: a page is read as it was last written,
whether its frame is still there or was written back, and an image reaches the
page file only behind the log.
-/

namespace Netbadb.Buffer

open Netbadb.Wal (Lsn WalManager WalError reaches)
open List BufferFrame BufferState

variable {Page : Type} {bytes : PageBytes Page} {files : FileResults Page}
  {pool pool' : BufferState Page} {latest latest' : PageId → Page} {f g : BufferFrame Page}
  {index : Nat} {page : Page}

/-- The image was handed to the file behind the log. Page 0 is the header of the
file and has no pageLSN. -/
def PageWrite.Logged (bytes : PageBytes Page) (write : PageWrite Page) : Prop :=
  write.pageId ≠ 0 → ∀ lsn, bytes.pageLsn write.page = .ok (some lsn) →
    reaches write.durableLsn lsn

/-- The pool against the contents its pages should have. -/
structure Coherent (bytes : PageBytes Page) (latest : PageId → Page) (pool : BufferState Page) :
    Prop where
  nodup : (pool.frames.map (·.pageId)).Nodup
  inFile : ∀ f ∈ pool.frames, f.pageId < pool.disk.length
  clean : ∀ f ∈ pool.frames, f.dirty = false → pool.disk[f.pageId]? = some f.page
  cached : ∀ f ∈ pool.frames, latest f.pageId = f.page
  stored : ∀ i, i < pool.disk.length → i ∉ pool.frames.map (·.pageId) →
    pool.disk[i]? = some (latest i)
  logged : ∀ w ∈ pool.written, w.Logged bytes

/-- A frame without its dirty flag. -/
def BufferFrame.cleaned (f : BufferFrame Page) : BufferFrame Page := { f with dirty := false }

section Cleaned

section

variable (h : f.cleaned = g.cleaned)
include h

lemma cleaned_pageId : f.pageId = g.pageId := (mk.inj h).1

lemma cleaned_page : f.page = g.page := (mk.inj h).2.1

lemma cleaned_pinCount : f.pinCount = g.pinCount :=
  (mk.inj h).2.2.1

end

end Cleaned

lemma frames_split {frames : List (BufferFrame Page)} (hf : frames[index]? = some f) :
    ∃ front back, frames = front ++ f :: back ∧
      (∀ g, frames.set index g = front ++ g :: back) ∧
      (∀ u, frames.modify index u = front ++ u f :: back) ∧
      frames.eraseIdx index = front ++ back := by
  obtain ⟨hlt, rfl⟩ := List.getElem?_eq_some_iff.mp hf
  refine ⟨frames.take index, frames.drop (index + 1), ?_, fun g => ?_, fun u => ?_, ?_⟩
  · rw [getElem_cons_drop, take_append_drop]
  · exact set_eq_take_append_cons_drop.trans (if_pos hlt)
  · exact modify_eq_take_cons_drop hlt
  · exact eraseIdx_eq_take_drop_succ ..

lemma findFrame_some {pageId : PageId} (h : pool.findFrame pageId = some index) :
    ∃ f, pool.frames[index]? = some f ∧ f.pageId = pageId := by
  obtain ⟨hlt, hf, _⟩ := findIdx?_eq_some_iff_getElem.mp h
  exact ⟨_, getElem?_eq_getElem hlt, by simpa using hf⟩

lemma findFrame_none {pageId : PageId} (h : pool.findFrame pageId = none) :
    pageId ∉ pool.frames.map (·.pageId) := by
  intro hmem
  obtain ⟨f, hf, rfl⟩ := mem_map.mp hmem
  simpa using findIdx?_eq_none_iff.mp h f hf

/-- The other frames are those of other pages. -/
lemma others_ne {frames front back : List (BufferFrame Page)}
    (hnodup : (frames.map (·.pageId)).Nodup) (hframes : frames = front ++ f :: back) :
    ∀ f' ∈ front ++ back, f'.pageId ≠ f.pageId := by
  rw [hframes, map_append, map_cons, nodup_append] at hnodup
  intro f' hf'
  rcases mem_append.mp hf' with hfront | hback
  · exact hnodup.2.2 _ (mem_map_of_mem hfront) _ (mem_cons_self ..)
  · exact fun heq => (nodup_cons.mp hnodup.2.1).1 (heq ▸ mem_map_of_mem hback)

namespace Coherent

variable {front back : List (BufferFrame Page)}

section

variable (inv : Coherent bytes latest pool)
include inv

/-- One frame changes, and with it at most its own page. -/
lemma replace (hframes : pool.frames = front ++ f :: back)
    (hframes' : pool'.frames = front ++ g :: back) (hid : g.pageId = f.pageId)
    (hlength : pool'.disk.length = pool.disk.length)
    (hdisk : ∀ i, i ≠ f.pageId → pool'.disk[i]? = pool.disk[i]?)
    (hclean : g.dirty = false → pool'.disk[f.pageId]? = some g.page)
    (hlatest : ∀ i, i ≠ f.pageId → latest' i = latest i) (hcached : latest' f.pageId = g.page)
    (hlogged : ∀ w ∈ pool'.written, w.Logged bytes) : Coherent bytes latest' pool' := by
  have hids : pool'.frames.map (·.pageId) = pool.frames.map (·.pageId) := by
    rw [hframes, hframes']
    simp [hid]
  have hmem : f ∈ pool.frames := by simp [hframes]
  have others : ∀ f' ∈ pool'.frames, f' = g ∨ f' ∈ pool.frames ∧ f'.pageId ≠ f.pageId := by
    intro f' hf'
    have hne := others_ne inv.nodup hframes f'
    rw [hframes'] at hf'
    rw [hframes]
    simp only [mem_append, mem_cons] at hf' hne ⊢
    tauto
  refine ⟨hids ▸ inv.nodup, ?_, ?_, ?_, ?_, hlogged⟩
  · intro f' hf'
    rw [hlength]
    rcases others f' hf' with rfl | ⟨hold, _⟩
    · exact hid ▸ inv.inFile f hmem
    · exact inv.inFile f' hold
  · intro f' hf' hdirty
    rcases others f' hf' with rfl | ⟨hold, hne⟩
    · exact hid ▸ hclean hdirty
    · rw [hdisk _ hne]
      exact inv.clean f' hold hdirty
  · intro f' hf'
    rcases others f' hf' with rfl | ⟨hold, hne⟩
    · exact hid ▸ hcached
    · rw [hlatest _ hne]
      exact inv.cached f' hold
  · intro i hi hout
    rw [hids] at hout
    have hne : i ≠ f.pageId := fun heq => hout (heq ▸ mem_map_of_mem hmem)
    rw [hdisk i hne, hlatest i hne]
    exact inv.stored i (hlength ▸ hi) hout

lemma push (hout : g.pageId ∉ pool.frames.map (·.pageId))
    (hin : g.pageId < pool.disk.length) (hframes' : pool'.frames = pool.frames ++ [g])
    (hdisk : pool'.disk = pool.disk) (hwritten : pool'.written = pool.written)
    (hclean : g.dirty = false → pool.disk[g.pageId]? = some g.page)
    (hlatest : ∀ i, i ≠ g.pageId → latest' i = latest i) (hcached : latest' g.pageId = g.page) :
    Coherent bytes latest' pool' := by
  have hne : ∀ f ∈ pool.frames, f.pageId ≠ g.pageId := fun f hf heq =>
    hout (heq ▸ mem_map_of_mem hf)
  refine ⟨?_, ?_, ?_, ?_, ?_, hwritten ▸ inv.logged⟩
  · rw [hframes', map_append]
    refine nodup_append.mpr ⟨inv.nodup, nodup_singleton _, ?_⟩
    intro i hi j hj hij
    obtain rfl : j = g.pageId := mem_singleton.mp hj
    exact hout (hij ▸ hi)
  · intro f hf
    rw [hdisk]
    rw [hframes'] at hf
    rcases mem_append.mp hf with hf | hf
    · exact inv.inFile f hf
    · rw [mem_singleton.mp hf]
      exact hin
  · intro f hf hdirty
    rw [hdisk]
    rw [hframes'] at hf
    rcases mem_append.mp hf with hf | hf
    · exact inv.clean f hf hdirty
    · rw [mem_singleton.mp hf] at hdirty ⊢
      exact hclean hdirty
  · intro f hf
    rw [hframes'] at hf
    rcases mem_append.mp hf with hf | hf
    · rw [hlatest _ (hne f hf)]
      exact inv.cached f hf
    · rw [mem_singleton.mp hf]
      exact hcached
  · intro i hi hi'
    rw [hframes', map_append, mem_append, not_or] at hi'
    rw [hdisk] at hi ⊢
    rw [hlatest i (by simpa using hi'.2)]
    exact inv.stored i hi hi'.1

lemma drop (hframes : pool.frames = front ++ f :: back)
    (hframes' : pool'.frames = front ++ back) (hdisk : pool'.disk = pool.disk)
    (hwritten : pool'.written = pool.written) (hlatest : ∀ i, i ≠ f.pageId → latest' i = latest i)
    (hstored : pool.disk[f.pageId]? = some (latest' f.pageId)) : Coherent bytes latest' pool' := by
  have hold : ∀ f' ∈ pool'.frames, f' ∈ pool.frames ∧ f'.pageId ≠ f.pageId := by
    intro f' hf'
    rw [hframes'] at hf'
    refine ⟨?_, others_ne inv.nodup hframes f' hf'⟩
    rw [hframes]
    simp only [mem_append, mem_cons] at hf' ⊢
    tauto
  refine ⟨?_, ?_, ?_, ?_, ?_, hwritten ▸ inv.logged⟩
  · have hsub : Sublist (pool'.frames.map (·.pageId)) (pool.frames.map (·.pageId)) := by
      rw [hframes, hframes']
      exact (Sublist.append_left (sublist_cons_self f back) front).map _
    exact hsub.nodup inv.nodup
  · exact fun f' hf' => hdisk ▸ inv.inFile f' (hold f' hf').1
  · exact fun f' hf' hdirty => hdisk ▸ inv.clean f' (hold f' hf').1 hdirty
  · intro f' hf'
    rw [hlatest _ (hold f' hf').2]
    exact inv.cached f' (hold f' hf').1
  · intro i hi hi'
    rw [hdisk] at hi ⊢
    by_cases hif : i = f.pageId
    · exact hif ▸ hstored
    rw [hlatest i hif]
    refine inv.stored i hi fun hmem => hi' ?_
    rw [hframes] at hmem
    rw [hframes']
    simpa [hif] using hmem

/-- The order of the frames does not matter. -/
lemma perm (hframes : pool'.frames.Perm pool.frames)
    (hdisk : pool'.disk = pool.disk) (hwritten : pool'.written = pool.written) :
    Coherent bytes latest pool' := by
  have hids := hframes.map (·.pageId)
  refine ⟨hids.nodup_iff.mpr inv.nodup, ?_, ?_, ?_, ?_, hwritten ▸ inv.logged⟩
  · exact fun f hf => hdisk ▸ inv.inFile f (hframes.mem_iff.mp hf)
  · exact fun f hf hdirty => hdisk ▸ inv.clean f (hframes.mem_iff.mp hf) hdirty
  · exact fun f hf => inv.cached f (hframes.mem_iff.mp hf)
  · exact fun i hi hout => hdisk ▸ inv.stored i (hdisk ▸ hi) fun hmem => hout (hids.mem_iff.mpr hmem)

end

end Coherent

/-- The frames are the same but for what was written back. -/
structure SameFrames (pool pool' : BufferState Page) : Prop where
  frames : pool'.frames.map cleaned = pool.frames.map cleaned
  length : pool'.disk.length = pool.disk.length

namespace SameFrames

lemma refl : SameFrames pool pool := ⟨rfl, rfl⟩

section

variable (h : SameFrames pool pool')
include h

lemma trans {pool'' : BufferState Page} (h' : SameFrames pool' pool'') : SameFrames pool pool'' :=
  ⟨h'.frames.trans h.frames, h'.length.trans h.length⟩

lemma ids : pool'.frames.map (·.pageId) = pool.frames.map (·.pageId) := by
  have := congrArg (map pageId) h.frames
  simpa [Function.comp_def, cleaned] using this

lemma mem (hf : f ∈ pool.frames) : ∃ f' ∈ pool'.frames, f'.cleaned = f.cleaned := by
  have : f.cleaned ∈ pool'.frames.map cleaned := h.frames ▸ mem_map_of_mem hf
  obtain ⟨f', hf', heq⟩ := mem_map.mp this
  exact ⟨f', hf', heq⟩

lemma symm : SameFrames pool' pool := ⟨h.frames.symm, h.length.symm⟩

lemma getElem? (hf : pool.frames[index]? = some f) :
    ∃ f', pool'.frames[index]? = some f' ∧ f'.cleaned = f.cleaned := by
  have := congrArg (·[index]?) h.frames
  simp only [getElem?_map, hf, Option.map_some] at this
  exact Option.map_eq_some_iff.mp this

end

end SameFrames

lemma flushThrough_durable {wal wal' : WalManager} {lsn : Lsn}
    (h : wal.flushThrough lsn = .ok wal') : reaches wal'.durableLsn lsn := by
  unfold WalManager.flushThrough WalManager.ensureHealthy at h
  cases hp : wal.poisoned
  · by_cases hd : reaches wal.durableLsn lsn
    · simp only [hp, hd] at h
      cases h
      exact hd
    · by_cases hw : reaches wal.writtenLsn lsn
      · simp only [hp, hd, hw] at h
        cases h
        exact hw
      · simp only [hp, hd, hw] at h
        cases h
  · simp only [hp] at h
    cases h

variable {pageId : PageId} {r : Except BufferError Unit}

lemma syncLog_spec {wal : Option WalManager} (h : pool.syncLog bytes files pageId page = .ok wal) :
    PageWrite.Logged bytes ⟨pageId, page, wal.bind (·.durableLsn)⟩ := by
  intro hne lsn hlsn
  unfold syncLog at h
  simp only [hne, if_false, hlsn] at h
  split at h
  · cases h
  split at h
  · cases h
  rename_i hflush
  split at h
  · cases h
    exact flushThrough_durable hflush
  · cases h

structure Wrote (pool pool' : BufferState Page) (pageId : PageId) (page : Page) : Prop where
  frames : pool'.frames = pool.frames
  length : pool'.disk.length = pool.disk.length
  others : ∀ i, i ≠ pageId → pool'.disk[i]? = pool.disk[i]?
  written : pool'.written = pool.written ++ [⟨pageId, page, pool.wal.bind (·.durableLsn)⟩]

lemma writePage_spec (hin : pageId < pool.disk.length)
    (h : pool.writePage files pageId page = (r, pool')) :
    Wrote pool pool' pageId page ∧ (r = .ok () → pool'.disk[pageId]? = some page) := by
  unfold writePage at h
  simp only [Nat.not_le.mpr hin, if_false] at h
  split at h <;> cases h
  · exact ⟨⟨rfl, length_set, fun i hi => getElem?_set_ne (Ne.symm hi), rfl⟩,
      fun _ => getElem?_set_self hin⟩
  · exact ⟨⟨rfl, rfl, fun _ _ => rfl, rfl⟩, nofun⟩
  · exact ⟨⟨rfl, length_set, fun i hi => getElem?_set_ne (Ne.symm hi), rfl⟩,
      nofun⟩

lemma logged_append {writes : List (PageWrite Page)} {w : PageWrite Page}
    (h : ∀ w ∈ writes, w.Logged bytes) (hw : w.Logged bytes) :
    ∀ w' ∈ writes ++ [w], w'.Logged bytes := by
  intro w' hw'
  rcases mem_append.mp hw' with hold | hnew
  · exact h w' hold
  · rw [mem_singleton.mp hnew]
    exact hw

/-- A flush changes no page; a frame it reports as flushed is clean. -/
lemma flushFrame_spec (inv : Coherent bytes latest pool)
    (h : pool.flushFrame bytes files index = (r, pool')) :
    Coherent bytes latest pool' ∧ SameFrames pool pool' ∧
      (r = .ok () → ∀ f, pool'.frames[index]? = some f → f.dirty = false) := by
  unfold flushFrame at h
  split at h
  · cases h
    exact ⟨inv, .refl, nofun⟩
  rename_i f hf
  obtain ⟨front, back, hframes, hset, _, _⟩ := frames_split hf
  have hmem : f ∈ pool.frames := mem_of_getElem? hf
  split at h
  · cases h
    exact ⟨inv, .refl, nofun⟩
  split at h
  · rename_i hdirty
    split at h
    · cases h
      exact ⟨inv, .refl, nofun⟩
    rename_i wal hlog
    cases hw : { pool with wal := wal }.writePage files f.pageId f.page with
    | mk r₁ pool₁ =>
      obtain ⟨wrote, hok⟩ := @writePage_spec _ _ { pool with wal := wal } _ _ _ _
        (inv.inFile f hmem) hw
      have hlogged : ∀ w ∈ pool₁.written, w.Logged bytes :=
        wrote.written ▸ logged_append inv.logged (syncLog_spec hlog)
      rw [hw] at h
      cases r₁ with
      | error e =>
        cases h
        refine ⟨?_, ⟨by rw [wrote.frames], wrote.length⟩, nofun⟩
        exact inv.replace hframes (wrote.frames.trans hframes) rfl wrote.length
          wrote.others (fun hclean => absurd hclean (by simp [hdirty])) (fun _ _ => rfl)
          (inv.cached f hmem) hlogged
      | ok _ =>
        cases h
        have hframes' : pool₁.frames.set index { f with dirty := false }
            = front ++ f.cleaned :: back := by
          rw [wrote.frames]
          exact hset _
        refine ⟨?_, ⟨?_, wrote.length⟩, fun _ f' hf' => ?_⟩
        · exact inv.replace hframes hframes' rfl wrote.length wrote.others
            (fun _ => hok rfl) (fun _ _ => rfl) (inv.cached f hmem) hlogged
        · rw [hframes', hframes]
          simp [cleaned]
        have hlt : index < pool₁.frames.length := by
          rw [wrote.frames]
          exact (List.getElem?_eq_some_iff.mp hf).1
        have hf'' : (pool₁.frames.set index { f with dirty := false })[index]? = some f' := hf'
        rw [List.getElem?_set_self hlt] at hf''
        rw [← Option.some.inj hf'']
  · rename_i hdirty
    cases h
    refine ⟨inv, .refl, fun _ f' hf' => ?_⟩
    rw [hf] at hf'
    rw [← Option.some.inj hf']
    simpa using hdirty

/-- A frame that may be overwritten: the next free one, or one that is clean and
not pinned. -/
def Slot (pool : BufferState Page) (index : Nat) : Prop :=
  index = pool.frames.length ∨
    ∃ f, pool.frames[index]? = some f ∧ f.dirty = false ∧ f.pinCount = 0

lemma victim_unpinned (h : pool.victim = some index) :
    ∃ f, pool.frames[index]? = some f ∧ f.pinCount = 0 := by
  have hany := find?_some h
  simp only [Option.any_eq_true, decide_eq_true_eq] at hany
  exact hany

section

variable (inv : Coherent bytes latest pool)
include inv

lemma prepareFrame_spec {r : Except BufferError Nat}
    (h : pool.prepareFrame bytes files = (r, pool')) :
    Coherent bytes latest pool' ∧ SameFrames pool pool' ∧ ∀ index, r = .ok index →
      Slot pool' index := by
  unfold prepareFrame at h
  split at h
  · cases h
    exact ⟨inv, .refl, fun index hok => by cases hok; exact .inl rfl⟩
  split at h
  · cases h
    exact ⟨inv, .refl, fun index hok => nomatch hok⟩
  rename_i index hvictim
  obtain ⟨f, hf, hpin⟩ := victim_unpinned hvictim
  cases hflush : pool.flushFrame bytes files index with
  | mk r₁ pool₁ =>
    obtain ⟨inv₁, same, hclean⟩ := flushFrame_spec inv hflush
    rw [hflush] at h
    cases r₁ with
    | error e =>
      cases h
      exact ⟨inv₁, same, fun index hok => nomatch hok⟩
    | ok _ =>
      cases h
      refine ⟨inv₁.perm (.refl _) rfl rfl, ⟨same.frames, same.length⟩, fun index' hok => ?_⟩
      cases hok
      obtain ⟨f', hf', hsame⟩ := same.getElem? hf
      refine .inr ⟨f', hf', hclean rfl f' hf', ?_⟩
      exact (cleaned_pinCount hsame).trans hpin

/-- The frames once one was filled: those there were, but for a clean one that
nobody had pinned. -/
structure Installed (pool pool' : BufferState Page) (g : BufferFrame Page) : Prop where
  added : g ∈ pool'.frames
  old : ∀ f ∈ pool'.frames, f = g ∨ f ∈ pool.frames
  kept : ∀ f ∈ pool.frames, f ∈ pool'.frames ∨ f.dirty = false ∧ f.pinCount = 0
  disk : pool'.disk = pool.disk

/-- Installing a frame drops the clean one of its slot and adds the new one. -/
lemma installFrame_spec (slot : Slot pool index)
    (hout : g.pageId ∉ pool.frames.map (·.pageId)) (hin : g.pageId < pool.disk.length)
    (hclean : g.dirty = false → pool.disk[g.pageId]? = some g.page)
    (hlatest : ∀ i, i ≠ g.pageId → latest' i = latest i) (hcached : latest' g.pageId = g.page) :
    Coherent bytes latest' (pool.installFrame index g) ∧
      Installed pool (pool.installFrame index g) g := by
  unfold installFrame
  rcases slot with hindex | ⟨f, hf, hdirty, hpin⟩
  · rw [if_pos hindex]
    refine ⟨inv.push hout hin rfl rfl rfl hclean hlatest hcached, ?_, ?_, ?_, rfl⟩
    · simp
    · intro f hf
      simpa [or_comm] using hf
    · exact fun f hf => .inl (mem_append_left _ hf)
  · obtain ⟨front, back, hframes, hset, _, _⟩ := frames_split hf
    have hlt := (List.getElem?_eq_some_iff.mp hf).1
    rw [if_neg (Nat.ne_of_lt hlt)]
    have hmem : f ∈ pool.frames := mem_of_getElem? hf
    have dropped : Coherent bytes latest { pool with frames := front ++ back } :=
      inv.drop hframes rfl rfl rfl (fun _ _ => rfl) (by
        rw [inv.cached f hmem]
        exact inv.clean f hmem hdirty)
    have hout' : g.pageId ∉ (front ++ back).map (·.pageId) := fun hmem => hout (by
      rw [hframes]
      simp only [map_append, mem_append, map_cons, mem_cons] at hmem ⊢
      tauto)
    have pushed : Coherent bytes latest' { pool with frames := (front ++ back) ++ [g] } :=
      dropped.push hout' hin rfl rfl rfl hclean hlatest hcached
    refine ⟨pushed.perm ?_ rfl rfl, ?_, ?_, ?_, rfl⟩
    · rw [hset]
      exact (perm_middle.trans (@perm_append_comm _ [g] _))
    · rw [hset]
      simp
    · intro f' hf'
      rw [hset] at hf'
      rw [hframes]
      simp only [mem_append, mem_cons] at hf' ⊢
      tauto
    · intro f' hf'
      rw [hset]
      rw [hframes] at hf'
      simp only [mem_append, mem_cons] at hf' ⊢
      rcases hf' with hf' | rfl | hf'
      · exact .inl (.inl hf')
      · exact .inr ⟨hdirty, hpin⟩
      · exact .inl (.inr (.inr hf'))

/-- The page of a cached frame, or the bytes in the file, is the latest content. -/
lemma Coherent.readPage_latest
    (hout : pageId ∉ pool.frames.map (·.pageId)) (h : pool.readPage files pageId = .ok page) :
    pageId < pool.disk.length ∧ pool.disk[pageId]? = some page ∧ latest pageId = page := by
  unfold readPage at h
  split at h
  · cases h
  rename_i page' hpage
  split at h
  · cases h
    have hlt := (List.getElem?_eq_some_iff.mp hpage).1
    have := inv.stored pageId hlt hout
    rw [hpage] at this
    exact ⟨hlt, hpage, (Option.some.inj this).symm⟩
  · cases h

end

end Netbadb.Buffer
