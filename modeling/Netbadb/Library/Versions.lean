import Mathlib.Data.Set.Basic
import Mathlib.Tactic

/-!
Multi-version maps. A set of versions `(key, version, value)`, where a deletion
has no value, gives every key the value of its last version.
-/

namespace Versions

variable {K V : Type*} {A B M : Set (K × ℕ × Option V)} {k : K} {v : V}

/-- The last version of the key holds the value. -/
def Live (A : Set (K × ℕ × Option V)) (k : K) (v : V) : Prop :=
  ∃ n, (k, n, some v) ∈ A ∧ ∀ n' x, (k, n', x) ∈ A → n' ≤ n

/-- The versions that a map keeps showing: the last one of every key, unless it
is a deletion. -/
def latest (A : Set (K × ℕ × Option V)) : Set (K × ℕ × Option V) :=
  {e ∈ A | e.2.2.isSome ∧ ∀ n x, (e.1, n, x) ∈ A → n ≤ e.2.1}

lemma live_latest : Live (latest A) k v ↔ Live A k v := by
  constructor
  · rintro ⟨n, hmem, -⟩
    exact ⟨n, hmem.1, hmem.2.2⟩
  · rintro ⟨n, hmem, hlast⟩
    exact ⟨n, ⟨hmem, rfl, hlast⟩, fun n' x h => hlast n' x h.1⟩

/-- Versions behind all others decide the keys they touch and no others. -/
lemma live_union_of_lt (h : ∀ a ∈ A, ∀ m ∈ M, a.2.1 < m.2.1) :
    Live (A ∪ M) k v ↔ Live M k v ∨ (Live A k v ∧ ∀ n x, (k, n, x) ∉ M) := by
  constructor
  · rintro ⟨n, hmem | hmem, hlast⟩
    · have hnone : ∀ n x, (k, n, x) ∉ M := fun n' x hm =>
        absurd (hlast n' x (.inr hm)) (by simpa using h _ hmem _ hm)
      exact .inr ⟨⟨n, hmem, fun n' x ha => hlast n' x (.inl ha)⟩, hnone⟩
    · exact .inl ⟨n, hmem, fun n' x hm => hlast n' x (.inr hm)⟩
  · rintro (⟨n, hmem, hlast⟩ | ⟨⟨n, hmem, hlast⟩, hnone⟩)
    · refine ⟨n, .inr hmem, ?_⟩
      rintro n' x (ha | hm)
      · exact (h _ ha _ hmem).le
      · exact hlast n' x hm
    · refine ⟨n, .inl hmem, ?_⟩
      rintro n' x (ha | hm)
      · exact hlast n' x ha
      · exact absurd hm (hnone n' x)

lemma live_union_congr (hlive : ∀ k v, Live A k v ↔ Live B k v)
    (hA : ∀ a ∈ A, ∀ m ∈ M, a.2.1 < m.2.1) (hB : ∀ a ∈ B, ∀ m ∈ M, a.2.1 < m.2.1) :
    Live (A ∪ M) k v ↔ Live (B ∪ M) k v := by
  rw [live_union_of_lt hA, live_union_of_lt hB, hlive]

end Versions
