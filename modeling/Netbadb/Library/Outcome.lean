import Mathlib.Tactic

/-!
Taking fallible computations apart. A successful bind has a successful first
part, a traversal succeeds exactly when it succeeds on every element, and an
entry of an updated map is the new one or one from before.
-/

namespace Outcome

open List

variable {ε α β σ : Type} {x : Except ε α} {f : α → Except ε β}

lemma bind_eq_ok {b : β} : (x >>= f) = .ok b ↔ ∃ a, x = .ok a ∧ f a = .ok b := by
  cases x with
  | error e | ok a => simp [bind, Except.bind]

lemma map_eq_ok {f : α → β} {b : β} : (f <$> x) = .ok b ↔ ∃ a, x = .ok a ∧ f a = b := by
  cases x with
  | error e | ok a => simp [Functor.map, Except.map]

@[simp] lemma pure_eq_ok {a b : α} : (pure a : Except ε α) = .ok b ↔ a = b := by
  simp [pure, Except.pure]

@[simp] lemma throw_ne_ok {e : ε} {a : α} : (throw e : Except ε α) = .ok a ↔ False := by
  simp [throw, throwThe, MonadExceptOf.throw]

@[simp] lemma error_ne_ok {e : ε} {a : α} : (Except.error e : Except ε α) = .ok a ↔ False := by
  simp

lemma pure_ok (a : α) : (pure a : Except ε α) = .ok a := rfl

lemma ok_bind (a : α) (f : α → Except ε β) : (Except.ok a >>= f) = f a := rfl

lemma error_bind (e : ε) (f : α → Except ε β) : (Except.error e >>= f) = .error e := rfl

section Guard

variable {c : Prop} [Decidable c] {e : ε} {x : Except ε β} {b : β}

/-- A check in front of a computation. -/
@[simp] lemma check_eq_ok : (if c then (throw e >>= f) else x) = .ok b ↔ ¬ c ∧ x = .ok b := by
  by_cases h : c
  · simp [h, bind, Except.bind, throw, throwThe, MonadExceptOf.throw]
  · simp [h]

@[simp] lemma guard_eq_ok : (if c then throw e else x) = .ok b ↔ ¬ c ∧ x = .ok b := by
  by_cases h : c
  · simp [h]
  · simp [h]

end Guard

lemma forM_eq_ok {f : α → Except ε PUnit} {l : List α} {u : PUnit} :
    l.forM f = .ok u ↔ ∀ a ∈ l, f a = .ok () := by
  induction l with
  | nil => simp [List.forM, pure, Except.pure]
  | cons a l ih =>
    change (f a >>= fun _ => l.forM f) = .ok u ↔ _
    rw [bind_eq_ok]
    constructor
    · rintro ⟨v, hv, hl⟩ b hb
      rcases mem_cons.mp hb with rfl | hb
      · exact hv
      · exact ih.mp hl b hb
    · intro h
      exact ⟨(), h a mem_cons_self,
        ih.mpr fun b hb => h b (mem_cons_of_mem a hb)⟩

/-- A property of the accumulator that every successful step keeps holds of
the result of a successful fold. -/
lemma foldlM_invariant {f : σ → α → Except ε σ} (P : σ → Prop) {l : List α} {s s' : σ}
    (hstep : ∀ s a s', a ∈ l → P s → f s a = .ok s' → P s')
    (hinit : P s) (hrun : l.foldlM f s = .ok s') : P s' := by
  induction l generalizing s with
  | nil =>
    rw [foldlM_nil, pure_eq_ok] at hrun
    exact hrun ▸ hinit
  | cons a l ih =>
    rw [foldlM_cons, bind_eq_ok] at hrun
    obtain ⟨t, ht, hl⟩ := hrun
    refine ih (fun s b s' hb => hstep s b s' (mem_cons_of_mem a hb)) ?_ hl
    exact hstep s a t mem_cons_self hinit ht

lemma update_eq_some [DecidableEq α] {f : α → Option β} {a b : α} {v : Option β} {c : β}
    (h : Function.update f a v b = some c) : (b = a ∧ v = some c) ∨ (b ≠ a ∧ f b = some c) := by
  by_cases hba : b = a
  · subst hba
    exact .inl ⟨rfl, Function.update_self b v f ▸ h⟩
  · exact .inr ⟨hba, Function.update_of_ne hba v f ▸ h⟩

lemma eq_of_snd {σ β : Type} {p : σ × β} {b : β} (h : p.2 = b) : p = (p.1, b) := by rw [← h]

end Outcome
