import Netbadb.Index.Rebalance
import Netbadb.Library.Outcome
import Mathlib.Data.List.TakeWhile

/-!
What the node operations of the index crate do on sorted nodes. Every later
argument uses these statements instead of the definitions.
-/

namespace Netbadb

open Outcome List

variable {α : Type} {xs : List IndexEntryKey}

lemma take_partitionPoint (p : α → Bool) (xs : List α) :
    xs.take (partitionPoint p xs) = xs.takeWhile p := by
  induction xs with
  | nil => rfl
  | cons x xs ih =>
    by_cases h : p x
    · simpa [partitionPoint, takeWhile_cons, h] using ih
    · simp [partitionPoint, h]

lemma drop_partitionPoint (p : α → Bool) (xs : List α) :
    xs.drop (partitionPoint p xs) = xs.dropWhile p := by
  induction xs with
  | nil => rfl
  | cons x xs ih =>
    by_cases h : p x
    · simpa [partitionPoint, takeWhile_cons, dropWhile_cons, h] using ih
    · simp [partitionPoint, h]

lemma partitionPoint_le (p : α → Bool) (xs : List α) : partitionPoint p xs ≤ xs.length :=
  (takeWhile_sublist p).length_le

/-- Past the first element that fails `p`, no element satisfies it, when `p`
is closed under going down the sorted list. -/
lemma not_of_mem_dropWhile {R : α → α → Prop} {p : α → Bool} {xs : List α}
    (hsorted : xs.Pairwise R) (hdown : ∀ a b, R a b → p b = true → p a = true) :
    ∀ x ∈ xs.dropWhile p, p x = false := by
  induction xs with
  | nil => simp
  | cons y ys ih =>
    obtain ⟨hy, hys⟩ := pairwise_cons.mp hsorted
    by_cases h : p y
    · simpa [dropWhile_cons, h] using ih hys
    intro x hx
    have hp : p y = false := by simpa using h
    rw [dropWhile_cons_of_neg h] at hx
    rcases mem_cons.mp hx with rfl | hx
    · exact hp
    · by_contra hpx
      have := hdown y x (hy x hx) (by simpa using hpx)
      rw [hp] at this
      cases this

lemma binarySearchBy_eq (cmp : α → Ordering) (xs : List α) : binarySearchBy cmp xs =
      match (xs.dropWhile fun x => cmp x == .lt).head? with
      | some x =>
        if cmp x = .eq then .ok (xs.takeWhile fun x => cmp x == .lt).length
        else .error (xs.takeWhile fun x => cmp x == .lt).length
      | none => .error (xs.takeWhile fun x => cmp x == .lt).length := by
  rw [← drop_partitionPoint, head?_drop]
  simp only [binarySearchBy]
  cases xs[partitionPoint (fun x => cmp x == .lt) xs]? <;> rfl

/-- An entry splits a sorted list into the entries below it, possibly itself,
and the entries above it. -/
lemma binarySearchBy_spec (hsorted : xs.Pairwise (· < ·)) (e : IndexEntryKey) :
    (∃ l r, xs = l ++ e :: r ∧
      binarySearchBy (compareEntryKeys · e) xs = .ok l.length) ∨
    (∃ l r, xs = l ++ r ∧ (∀ x ∈ l, x < e) ∧ (∀ x ∈ r, e < x) ∧
      binarySearchBy (compareEntryKeys · e) xs = .error l.length) := by
  set p : IndexEntryKey → Bool := fun x => compareEntryKeys x e == .lt with hp
  have hpiff : ∀ x, p x = true ↔ x < e := by
    intro x
    rw [hp, beq_iff_eq, compareEntryKeys_eq_lt]
  have hbelow : ∀ x ∈ xs.takeWhile p, x < e := fun x hx => (hpiff x).mp (mem_takeWhile_imp hx)
  have habove : ∀ x ∈ xs.dropWhile p, e ≤ x := by
    intro x hx
    have := not_of_mem_dropWhile hsorted
      (fun a b hab hb => (hpiff a).mpr (lt_trans hab ((hpiff b).mp hb))) x hx
    rw [← not_lt, ← hpiff x, this]
    simp
  have hsplit : xs.takeWhile p ++ xs.dropWhile p = xs := takeWhile_append_dropWhile
  have hsearch := binarySearchBy_eq (compareEntryKeys · e) xs
  rw [← hp] at hsearch
  cases hd : xs.dropWhile p with
  | nil =>
    right
    refine ⟨xs.takeWhile p, [], by rw [← hd, hsplit], hbelow, by simp, ?_⟩
    rw [hsearch, hd, head?_nil]
  | cons y ys =>
    have hdsorted : (y :: ys).Pairwise (· < ·) := hd ▸ hsorted.sublist (dropWhile_sublist p)
    by_cases hy : y = e
    · left
      subst hy
      refine ⟨xs.takeWhile p, ys, by rw [← hd, hsplit], ?_⟩
      rw [hsearch, hd, head?_cons]
      simp [compareEntryKeys_eq_eq.mpr rfl]
    · right
      have hey : e < y := lt_of_le_of_ne (habove y (hd ▸ mem_cons_self)) (Ne.symm hy)
      refine ⟨xs.takeWhile p, y :: ys, by rw [← hd, hsplit], hbelow, ?_, ?_⟩
      · intro x hx
        rcases mem_cons.mp hx with rfl | hx
        · exact hey
        · exact lt_trans hey ((pairwise_cons.mp hdsorted).1 x hx)
      · rw [hsearch, hd, head?_cons]
        simp [compareEntryKeys_eq_eq, hy]

lemma insertIdx_append_length (l r : List α) (a : α) :
    (l ++ r).insertIdx l.length a = l ++ a :: r := by
  induction l with
  | nil => rfl
  | cons x l ih => rw [cons_append, length_cons, insertIdx_succ_cons, ih]; rfl

lemma eraseIdx_append_length (l r : List α) (a : α) : (l ++ a :: r).eraseIdx l.length = l ++ r := by
  rw [eraseIdx_append_of_length_le (le_refl _)]
  simp

lemma modify_append_length (l r : List α) (a : α) (f : α → α) :
    (l ++ a :: r).modify l.length f = l ++ f a :: r := by
  induction l with
  | nil => rfl
  | cons x l ih => rw [cons_append, length_cons, modify_succ_cons, ih]; rfl

variable {u : Unit}

lemma validateEntryOrder_eq_ok : validateEntryOrder xs = .ok u ↔ xs.Pairwise (· < ·) := by
  rw [← isChain_iff_pairwise]
  induction xs with
  | nil => simp [validateEntryOrder]
  | cons a l ih =>
    cases l with
    | nil => simp [validateEntryOrder]
    | cons b l =>
      rw [validateEntryOrder, isChain_cons_cons, ← ih]
      by_cases h : a < b
      all_goals simp [compareEntryKeys_eq_lt, h]

/-- A key the specification accepts together with a real row locator. -/
def ValidEntry (spec : IndexSpec) (entry : IndexEntryKey) : Prop :=
  spec.validateKey entry.key = .ok () ∧ validateRowId entry.rowId = .ok ()

instance (spec : IndexSpec) (entry : IndexEntryKey) : Decidable (ValidEntry spec entry) :=
  inferInstanceAs (Decidable (_ ∧ _))

variable {spec : IndexSpec} {node : LeafNode}

lemma validateEntry_eq_ok {entry : IndexEntryKey} :
    validateEntry spec entry = .ok u ↔ ValidEntry spec entry := by
  rw [validateEntry, bind_eq_ok]
  exact ⟨fun ⟨_, hk, hr⟩ => ⟨hk, hr⟩, fun ⟨hk, hr⟩ => ⟨(), hk, hr⟩⟩

lemma validateLeaf_eq_ok : validateLeaf spec node = .ok u ↔
      (∀ next, node.nextLeaf = some next → next.pageId ≠ 0) ∧
      (∀ entry ∈ node.entries, ValidEntry spec entry) ∧ node.entries.Pairwise (· < ·) := by
  have hentries : (∃ a, node.entries.forM (validateEntry spec) = .ok a ∧
      validateEntryOrder node.entries = .ok u) ↔
      (∀ entry ∈ node.entries, ValidEntry spec entry) ∧ node.entries.Pairwise (· < ·) := by
    simp only [forM_eq_ok, validateEntry_eq_ok, validateEntryOrder_eq_ok, exists_const]
  rw [← hentries]
  simp only [validateLeaf]
  cases hn : node.nextLeaf with
  | none => simp [bind_eq_ok]
  | some next =>
    by_cases hz : next.pageId = 0
    all_goals simp [hz, bind_eq_ok]

lemma validateInternal_eq_ok {node : InternalNode} : validateInternal spec node = .ok u ↔
      validateRef node.firstChild = .ok () ∧
      (∀ separator ∈ node.separators,
        ValidEntry spec separator.key ∧ validateRef separator.rightChild = .ok ()) ∧
      (node.separators.map (·.key)).Pairwise (· < ·) := by
  have hseparator : ∀ separator : InternalSeparator,
      validateSeparator spec separator = .ok () ↔
        ValidEntry spec separator.key ∧ validateRef separator.rightChild = .ok () := by
    intro separator
    rw [validateSeparator, bind_eq_ok]
    simp [validateEntry_eq_ok]
  simp only [validateInternal, bind_eq_ok, forM_eq_ok, hseparator, validateInternalOrder,
    validateEntryOrder_eq_ok, exists_const]
  exact ⟨fun ⟨_, h⟩ => h, fun h => ⟨(), h⟩⟩

namespace LeafNode

variable {node' : LeafNode} {entry : IndexEntryKey}

section

variable (hsorted : node.entries.Pairwise (· < ·))
include hsorted

lemma insert_eq_ok (h : node.insert spec entry = .ok node') :
    ValidEntry spec entry ∧ ∃ l r, node.entries = l ++ r ∧ (∀ x ∈ l, x < entry) ∧
      (∀ x ∈ r, entry < x) ∧ node' = { node with entries := l ++ entry :: r } := by
  simp only [insert, bind_eq_ok] at h
  obtain ⟨_, hkey, _, hrow, h⟩ := h
  refine ⟨⟨hkey, hrow⟩, ?_⟩
  rcases binarySearchBy_spec hsorted entry with
    ⟨l, r, -, hsearch⟩ | ⟨l, r, hlr, hl, hr, hsearch⟩
  · simp [hsearch] at h
  · rw [hsearch] at h
    simp only [pure_eq_ok] at h
    refine ⟨l, r, hlr, hl, hr, ?_⟩
    rw [← h, hlr, insertIdx_append_length]

lemma insert_duplicate (hvalid : ValidEntry spec entry) (hmem : entry ∈ node.entries) :
    node.insert spec entry = .error .duplicateEntry := by
  rcases binarySearchBy_spec hsorted entry with
    ⟨l, r, -, hsearch⟩ | ⟨l, r, hlr, hl, hr, -⟩
  · simp only [insert, hvalid.1, hvalid.2, hsearch]
    rfl
  · rw [hlr] at hmem
    rcases mem_append.mp hmem with hmem | hmem
    · exact absurd (hl entry hmem) (lt_irrefl entry)
    · exact absurd (hr entry hmem) (lt_irrefl entry)

lemma remove_eq_ok (h : node.remove spec entry = .ok node') :
    ValidEntry spec entry ∧ ∃ l r, node.entries = l ++ entry :: r ∧
      node' = { node with entries := l ++ r } := by
  simp only [remove, bind_eq_ok] at h
  obtain ⟨_, hkey, _, hrow, h⟩ := h
  refine ⟨⟨hkey, hrow⟩, ?_⟩
  rcases binarySearchBy_spec hsorted entry with
    ⟨l, r, hlr, hsearch⟩ | ⟨l, r, -, -, -, hsearch⟩
  · rw [hsearch] at h
    simp only [pure_eq_ok] at h
    refine ⟨l, r, hlr, ?_⟩
    rw [← h, hlr, eraseIdx_append_length]
  · simp [hsearch] at h

lemma remove_absent (hvalid : ValidEntry spec entry) (hmem : entry ∉ node.entries) :
    node.remove spec entry = .error .entryNotFound := by
  rcases binarySearchBy_spec hsorted entry with
    ⟨l, r, hlr, -⟩ | ⟨l, r, -, -, -, hsearch⟩
  · exact absurd (by simp [hlr]) hmem
  · simp only [remove, hvalid.1, hvalid.2, hsearch]
    rfl

lemma containsExact_eq (hvalid : ValidEntry spec entry) :
    node.containsExact spec entry = .ok (decide (entry ∈ node.entries)) := by
  rcases binarySearchBy_spec hsorted entry with
    ⟨l, r, hlr, hsearch⟩ | ⟨l, r, hlr, hl, hr, hsearch⟩
  · have hmem : entry ∈ node.entries := by simp [hlr]
    simp only [containsExact, hvalid.1, hvalid.2, hsearch, hmem, decide_true]
    rfl
  have hmem : entry ∉ node.entries := by
    rw [hlr, mem_append]
    rintro (h | h)
    · exact lt_irrefl entry (hl entry h)
    · exact lt_irrefl entry (hr entry h)
  simp only [containsExact, hvalid.1, hvalid.2, hsearch, hmem, decide_false]
  rfl

end

lemma containsExact_eq_ok {b : Bool} (h : node.containsExact spec entry = .ok b) :
    ValidEntry spec entry := by
  simp only [containsExact, bind_eq_ok] at h
  obtain ⟨_, hkey, _, hrow, -⟩ := h
  exact ⟨hkey, hrow⟩

end LeafNode

variable {capacity : Nat} {promoted : IndexEntryKey}

lemma chooseSplit_mem {sizes : Nat → Except IndexError (Nat × Nat)} {positions : List Nat}
    {imbalance position : Nat}
    (h : chooseSplit capacity sizes positions = .ok (some (imbalance, position))) :
    position ∈ positions := by
  refine foldlM_invariant (fun best => ∀ i p, best = some (i, p) → p ∈ positions)
    ?_ (by simp) h imbalance position rfl
  intro best a best' ha hbest hstep
  rw [bind_eq_ok] at hstep
  obtain ⟨⟨leftSize, rightSize⟩, -, hstep⟩ := hstep
  dsimp only at hstep
  split_ifs at hstep
  · rw [pure_eq_ok] at hstep
    subst hstep
    intro i p hp
    cases best with
    | none =>
      simp only [betterSplit, Option.some.injEq, Prod.mk.injEq] at hp
      exact hp.2 ▸ ha
    | some b =>
      simp only [betterSplit] at hp
      split_ifs at hp
      · simp only [Option.some.injEq, Prod.mk.injEq] at hp
        exact hp.2 ▸ ha
      · exact hbest i p hp
  · rw [pure_eq_ok] at hstep
    exact hstep ▸ hbest

/-- A leaf split cuts the entries in two parts, neither of them empty, and
promotes the first entry of the right part. -/
lemma splitLeaf_eq_ok {entries : List IndexEntry} {oldNext : Option BTreePageRef}
    {rightPage : BTreePageRef} {left right : LeafNode}
    (h : splitLeaf spec entries oldNext rightPage capacity = .ok (left, right, promoted)) :
    ∃ ys zs, ys ≠ [] ∧ entries = ys ++ promoted :: zs ∧
      left = { entries := ys, nextLeaf := some rightPage } ∧
      right = { entries := promoted :: zs, nextLeaf := oldNext } := by
  rw [splitLeaf, bind_eq_ok] at h
  obtain ⟨_, -, h⟩ := h
  split_ifs at h with hlen
  · simp [bind_eq_ok] at h
  rw [bind_eq_ok] at h
  obtain ⟨best, hbest, h⟩ := h
  cases best with
  | none => simp at h
  | some best =>
    obtain ⟨imbalance, split⟩ := best
    have hsplit := mem_range'_1.mp (chooseSplit_mem hbest)
    cases hd : entries.drop split with
    | nil => simp [hd] at h
    | cons z zs =>
      simp only [hd, head?_cons, pure_eq_ok, Prod.mk.injEq] at h
      obtain ⟨rfl, rfl, rfl⟩ := h
      refine ⟨entries.take split, zs, ?_, ?_, rfl, rfl⟩
      · intro hnil
        have := congrArg length hnil
        simp only [length_take, length_nil] at this
        omega
      · rw [← hd, take_append_drop]

/-- An internal split promotes one separator and cuts around it. -/
lemma splitInternal_eq_ok {node left right : InternalNode}
    (h : splitInternal spec node capacity = .ok (left, promoted, right)) :
    ∃ ls middle rs, node.separators = ls ++ middle :: rs ∧ promoted = middle.key ∧
      left = { firstChild := node.firstChild, separators := ls } ∧
      right = { firstChild := middle.rightChild, separators := rs } := by
  rw [splitInternal, bind_eq_ok] at h
  obtain ⟨_, -, h⟩ := h
  rw [bind_eq_ok] at h
  obtain ⟨best, -, h⟩ := h
  cases best with
  | none => simp [bind_eq_ok] at h
  | some best =>
    obtain ⟨imbalance, position⟩ := best
    cases hm : node.separators[position]? with
    | none => simp [hm] at h
    | some middle =>
      simp only [hm, pure_eq_ok, Prod.mk.injEq] at h
      obtain ⟨rfl, rfl, rfl⟩ := h
      obtain ⟨hlt, rfl⟩ := List.getElem?_eq_some_iff.mp hm
      refine ⟨_, _, _, ?_, rfl, rfl, rfl⟩
      rw [← drop_eq_getElem_cons hlt, take_append_drop]

variable {size : Nat} {generated : Bool}

lemma leafEncodedLen_eq_ok (h : leafEncodedLen spec node generated = .ok size) :
    size = (if generated then 8 else 0) + encodedEntriesSize node.entries := by
  simp only [leafEncodedLen, bind_eq_ok] at h
  obtain ⟨_, -, h⟩ := h
  cases hnext : node.nextLeaf with
  | none =>
    simp only [hnext, pure_eq_ok] at h
    exact h.symm
  | some next =>
    simp only [hnext, check_eq_ok, pure_eq_ok] at h
    exact h.2.symm

/-- Leaves are left apart only when their entries overflow a page. -/
lemma mergeLeavesIfFits_eq_none {left right : LeafNode}
    (h : mergeLeavesIfFits spec left right capacity = .ok none) :
    capacity < (if left.nextLeaf.any (·.generation.isSome) then 8 else 0) +
      encodedEntriesSize (left.entries ++ right.entries) := by
  rw [mergeLeavesIfFits, bind_eq_ok] at h
  obtain ⟨size, hsize, h⟩ := h
  have hlen := leafEncodedLen_eq_ok hsize
  by_cases hfits : size ≤ capacity
  · simp [hfits] at h
  · rw [← hlen]
    exact not_le.mp hfits

lemma mergeLeavesIfFits_eq_ok {left right merged : LeafNode}
    (h : mergeLeavesIfFits spec left right capacity = .ok (some merged)) :
    merged = { entries := left.entries ++ right.entries, nextLeaf := right.nextLeaf } := by
  rw [mergeLeavesIfFits, bind_eq_ok] at h
  obtain ⟨size, -, h⟩ := h
  split_ifs at h
  · simp only [pure_eq_ok, Option.some.injEq] at h
    exact h.symm
  · simp at h

lemma mergeInternalsIfFits_eq_ok {left right merged : InternalNode} {fence : IndexEntryKey}
    (h : mergeInternalsIfFits spec left fence right capacity = .ok (some merged)) :
    merged = { firstChild := left.firstChild
               separators := left.separators ++
                { key := fence, rightChild := right.firstChild } :: right.separators } := by
  simp only [mergeInternalsIfFits, bind_eq_ok] at h
  obtain ⟨_, -, _, -, _, -, size, -, h⟩ := h
  split_ifs at h
  · simp only [pure_eq_ok, Option.some.injEq] at h
    exact h.symm
  · simp at h

/-- The identity words in front of a node: owner and generation. -/
def identitySize (owner : Option Nat) (generation : Option Nat) : Nat :=
  (if owner.isSome then 8 else 0) + (if generation.isSome then 8 else 0)

variable {owner generation : Option Nat}

lemma commonHeaderGeneration_eq_ok (h : commonHeaderGeneration owner generation = .ok size) :
    size = commonHeaderSize + identitySize owner generation ∧
      (generation.isSome → owner.isSome) ∧
      ∀ g, generation = some g → validateGeneration g = .ok () := by
  cases owner with
  | none =>
    cases generation with
    | none =>
      simp only [commonHeaderGeneration] at h
      simp at h
      simp [identitySize, ← h]
    | some g => simp [commonHeaderGeneration, bind_eq_ok] at h
  | some o =>
    by_cases ho : o = 0
    · cases generation <;> simp [commonHeaderGeneration, ho, bind_eq_ok, map_eq_ok] at h
    cases generation with
    | none =>
      simp [commonHeaderGeneration, ho] at h
      simp [identitySize, ← h]
    | some g =>
      simp [commonHeaderGeneration, ho, map_eq_ok] at h
      obtain ⟨⟨_, hvalid⟩, rfl⟩ := h
      simp [identitySize, hvalid]

lemma encodePageRef_eq_ok {reference : Option BTreePageRef}
    (h : encodePageRef reference generated = .ok size) :
    size = pointerWidth generated ∧ ∀ page, reference = some page →
      validateRef page = .ok () ∧ page.generation.isSome = generated := by
  cases reference with
  | none =>
    simp only [encodePageRef, pure_eq_ok] at h
    exact ⟨h.symm, by simp⟩
  | some page =>
    simp only [encodePageRef, bind_eq_ok] at h
    obtain ⟨_, hvalid, h⟩ := h
    split_ifs at h with hgen
    · simp [map_eq_ok] at h
    · simp only [pure_eq_ok] at h
      refine ⟨h.symm, ?_⟩
      rintro page' ⟨rfl⟩
      exact ⟨hvalid, by simpa using hgen⟩

lemma encodeLeafGeneration_eq_ok (h : encodeLeafGeneration spec node owner generation = .ok size) :
    validateLeaf spec node = .ok () ∧ ∀ next, node.nextLeaf = some next →
      validateRef next = .ok () ∧ next.generation.isSome = generation.isSome := by
  simp only [encodeLeafGeneration, bind_eq_ok, pure_eq_ok] at h
  obtain ⟨_, hvalid, _, -, _, hnext, -⟩ := h
  exact ⟨hvalid, (encodePageRef_eq_ok hnext).2⟩

lemma encodeInternalGeneration_eq_ok {node : InternalNode}
    (h : encodeInternalGeneration spec node owner generation = .ok size) :
    validateInternal spec node = .ok () ∧
    node.firstChild.generation.isSome = generation.isSome ∧
    ∀ separator ∈ node.separators,
      separator.rightChild.generation.isSome = generation.isSome := by
  simp only [encodeInternalGeneration, bind_eq_ok, pure_eq_ok, forM_eq_ok] at h
  obtain ⟨_, hvalid, _, -, _, hfirst, _, hseparators, -⟩ := h
  refine ⟨hvalid, ((encodePageRef_eq_ok hfirst).2 _ rfl).2, ?_⟩
  intro separator hmem
  obtain ⟨width, hwidth, -⟩ := hseparators separator hmem
  exact ((encodePageRef_eq_ok hwidth).2 _ rfl).2

end Netbadb
