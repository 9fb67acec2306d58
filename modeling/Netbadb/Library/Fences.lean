import Mathlib.Tactic

/-!
Ordered sequences with fences. A search tree read in order is a sequence of
items with routing fences between groups of them. A fence is strictly above
every item on its left and not above any item on its right.

The order is one pairwise condition on the sequence, so it splits over
appends, and removing cells keeps it. Regrouping the cells, which is all that
rebalancing a search tree does, leaves it untouched.
-/

namespace Fences

open List

inductive Cell (α : Type) where
  | item (a : α)
  | fence (a : α)

variable {α : Type}

def Cell.item? : Cell α → Option α
  | .item a => some a
  | .fence _ => none

def Cell.fence? : Cell α → Option α
  | .item _ => none
  | .fence a => some a

variable (cells : List (Cell α)) {l r : List (Cell α)} {a : α}

def items : List α := cells.filterMap Cell.item?

def fences : List α := cells.filterMap Cell.fence?

@[simp] lemma items_nil : items ([] : List (Cell α)) = [] := rfl

@[simp] lemma items_append (l r : List (Cell α)) : items (l ++ r) = items l ++ items r :=
  filterMap_append

@[simp] lemma items_item_cons (a : α) (l : List (Cell α)) :
    items (.item a :: l) = a :: items l := rfl

@[simp] lemma items_fence_cons (a : α) (l : List (Cell α)) : items (.fence a :: l) = items l := rfl

@[simp] lemma items_map_item (l : List α) : items (l.map Cell.item) = l := by
  induction l with
  | nil => rfl
  | cons a l ih => rw [map_cons, items_item_cons, ih]

@[simp] lemma fences_nil : fences ([] : List (Cell α)) = [] := rfl

@[simp] lemma fences_append (l r : List (Cell α)) : fences (l ++ r) = fences l ++ fences r :=
  filterMap_append

@[simp] lemma fences_item_cons (a : α) (l : List (Cell α)) : fences (.item a :: l) = fences l := rfl

@[simp] lemma fences_fence_cons (a : α) (l : List (Cell α)) :
    fences (.fence a :: l) = a :: fences l := rfl

lemma mem_items {cells : List (Cell α)} : a ∈ items cells ↔ .item a ∈ cells := by
  rw [items, mem_filterMap]
  constructor
  · rintro ⟨c, hc, ha⟩
    cases c with
    | item b =>
      cases ha
      exact hc
    | fence b => cases ha
  · exact fun h => ⟨_, h, rfl⟩

lemma mem_fences {cells : List (Cell α)} : a ∈ fences cells ↔ .fence a ∈ cells := by
  rw [fences, mem_filterMap]
  constructor
  · rintro ⟨c, hc, ha⟩
    cases c with
    | item b => cases ha
    | fence b =>
      cases ha
      exact hc
  · exact fun h => ⟨_, h, rfl⟩

/-- A left context: nothing, or cells that end with a fence. -/
def Closed : Prop :=
  cells = [] ∨ ∃ rest k, cells = rest ++ [.fence k]

/-- A right context: nothing, or cells that start with a fence. -/
def Opened : Prop :=
  cells = [] ∨ ∃ k rest, cells = .fence k :: rest

lemma Closed.append (hl : Closed l) (hr : Closed r) : Closed (l ++ r) := by
  rcases hr with rfl | ⟨rest, k, rfl⟩
  · rwa [append_nil]
  · exact Or.inr ⟨l ++ rest, k, by rw [append_assoc]⟩

lemma Opened.append (hl : Opened l) (hr : Opened r) : Opened (l ++ r) := by
  rcases hl with rfl | ⟨k, rest, rfl⟩
  · rwa [nil_append]
  · exact Or.inr ⟨k, rest ++ r, rfl⟩

section Order

variable [LinearOrder α]

/-- When one cell may stand before another. -/
def Cell.Before : Cell α → Cell α → Prop
  | .item a, .item b => a < b
  | .item a, .fence k => a < k
  | .fence k, .item a => k ≤ a
  | .fence k, .fence k' => k < k'

/-- Every cell may stand before every later one. -/
def Ordered (cells : List (Cell α)) : Prop := cells.Pairwise Cell.Before

variable {k e : α}

lemma ordered_append : Ordered (l ++ r) ↔ Ordered l ∧ Ordered r ∧ ∀ c ∈ l, ∀ d ∈ r, c.Before d :=
  pairwise_append

lemma Ordered.sublist (hr : Ordered r) (h : l.Sublist r) : Ordered l := List.Pairwise.sublist h hr

lemma ordered_map_item {l : List α} : Ordered (l.map Cell.item) ↔ l.Pairwise (· < ·) := by
  rw [Ordered, pairwise_map]
  exact Iff.rfl

lemma Ordered.items_sorted {cells : List (Cell α)} (h : Ordered cells) :
    (items cells).Pairwise (· < ·) := by
  refine List.Pairwise.filterMap _ ?_ h
  intro c d hcd a ha b hb
  cases c <;> cases d <;> cases ha <;> cases hb
  exact hcd

/-- Up to a fence, every fence is at most that fence. -/
lemma Ordered.fences_le_last (h : Ordered (l ++ [.fence k])) :
    ∀ k' ∈ fences (l ++ [.fence k]), k' ≤ k := by
  intro k' hk'
  rcases mem_append.mp (mem_fences.mp hk') with hmem | hmem
  · exact ((ordered_append.mp h).2.2 _ hmem (.fence k) (by simp)).le
  · simp only [mem_singleton, Cell.fence.injEq] at hmem
    exact hmem.le

/-- From a fence on, every fence is at least that fence. -/
lemma Ordered.head_le_fences (h : Ordered (.fence k :: r)) :
    ∀ k' ∈ fences (.fence k :: r), k ≤ k' := by
  intro k' hk'
  rcases mem_cons.mp (mem_fences.mp hk') with hmem | hmem
  · exact (Cell.fence.inj hmem).ge
  · exact ((pairwise_cons.mp h).1 _ hmem).le

/-- In an ordered left context, an item that is not below any fence is above
every cell. -/
lemma Ordered.left_before (h : Ordered l) (hc : Closed l) (he : ∀ k ∈ fences l, k ≤ e) :
    ∀ c ∈ l, c.Before (.item e) := by
  rcases hc with rfl | ⟨rest, k, rfl⟩
  · simp
  have hk : k ≤ e := he k (by simp)
  intro c hc
  rcases mem_append.mp hc with hc | hc
  · have hck := (ordered_append.mp h).2.2 c hc (.fence k) (by simp)
    cases c with
    | item a => exact lt_of_lt_of_le hck hk
    | fence a => exact (lt_of_lt_of_le hck hk).le
  · obtain rfl : c = .fence k := by simpa using hc
    exact hk

/-- In an ordered right context, an item below every fence is below every
cell. -/
lemma Ordered.right_after (h : Ordered r) (ho : Opened r) (he : ∀ k ∈ fences r, e < k) :
    ∀ c ∈ r, Cell.Before (.item e) c := by
  rcases ho with rfl | ⟨k, rest, rfl⟩
  · simp
  have hk : e < k := he k (by simp)
  intro c hc
  rcases mem_cons.mp hc with rfl | hc
  · exact hk
  · have hkc := (pairwise_cons.mp h).1 c hc
    cases c with
    | item a => exact lt_of_lt_of_le hk hkc
    | fence a => exact lt_trans hk hkc

/-- Replacing the items of one group by other sorted items of the same place
keeps the order. -/
lemma Ordered.replace_group {xs ys : List α} (h : Ordered (l ++ xs.map Cell.item ++ r))
    (hys : ys.Pairwise (· < ·)) (hl : ∀ y ∈ ys, ∀ c ∈ l, c.Before (.item y))
    (hr : ∀ y ∈ ys, ∀ c ∈ r, Cell.Before (.item y) c) : Ordered (l ++ ys.map Cell.item ++ r) := by
  obtain ⟨hlx, hor, hcross⟩ := ordered_append.mp h
  obtain ⟨hol, -, -⟩ := ordered_append.mp hlx
  refine ordered_append.mpr ⟨ordered_append.mpr ⟨hol, ordered_map_item.mpr hys, ?_⟩, hor, ?_⟩
  · intro c hc d hd
    obtain ⟨y, hy, rfl⟩ := mem_map.mp hd
    exact hl y hy c hc
  intro c hc d hd
  rcases mem_append.mp hc with hc | hc
  · exact hcross c (mem_append_left _ hc) d hd
  · obtain ⟨y, hy, rfl⟩ := mem_map.mp hc
    exact hr y hy d hd

/-- Splitting a group in two: the first item of the right part may be raised
as a fence between the parts, once the left part has an item. -/
lemma Ordered.split_group {ys zs : List α} {z : α}
    (h : Ordered (l ++ (ys ++ z :: zs).map Cell.item ++ r)) (hys : ys ≠ []) :
    Ordered (l ++ (ys.map Cell.item ++ .fence z :: (z :: zs).map Cell.item) ++ r) := by
  obtain ⟨y, hy⟩ := exists_mem_of_ne_nil ys hys
  rw [map_append, append_assoc, append_assoc, ← append_assoc] at h
  obtain ⟨hleft, hright, hcross⟩ := ordered_append.mp h
  have hzmem : Cell.item z ∈ (z :: zs).map Cell.item ++ r := by simp
  -- A fence left of the group is not above the left part's item, which is below `z`.
  have hlz : ∀ c ∈ l ++ ys.map Cell.item, c.Before (.fence z) := by
    intro c hc
    have hcz := hcross c hc (.item z) hzmem
    cases c with
    | item a => exact hcz
    | fence k =>
      have hk : Cell.fence k ∈ l := by
        rcases mem_append.mp hc with hk | hk
        · exact hk
        · simp at hk
      have hky := (ordered_append.mp hleft).2.2 _ hk (.item y) (mem_map_of_mem hy)
      have hyz := hcross (.item y) (mem_append_right _ (mem_map_of_mem hy))
        (.item z) hzmem
      exact lt_of_le_of_lt hky hyz
  have hzr : ∀ d ∈ (z :: zs).map Cell.item ++ r, Cell.Before (.fence z) d := by
    intro d hd
    rw [map_cons, cons_append] at hd hright
    rcases mem_cons.mp hd with rfl | hd
    · exact le_refl z
    · have hzd := (pairwise_cons.mp hright).1 d hd
      cases d with
      | item a => exact le_of_lt hzd
      | fence k => exact hzd
  have hres : Ordered ((l ++ ys.map Cell.item) ++
      (.fence z :: ((z :: zs).map Cell.item ++ r))) := by
    refine ordered_append.mpr ⟨hleft, pairwise_cons.mpr ⟨hzr, hright⟩, ?_⟩
    intro c hc d hd
    rcases mem_cons.mp hd with rfl | hd
    · exact hlz c hc
    · exact hcross c hc d hd
  simpa [append_assoc] using hres

end Order

end Fences
