import Mathlib.Algebra.BigOperators.Fin
import Mathlib.Algebra.Order.BigOperators.Group.Finset
import Mathlib.Data.Fintype.Card

/-!
# Threads at places

`pc t` is where thread `t` is. When one thread moves, the number of threads at the places of a kind changes
by what that thread does, and so does a sum over the threads.

* `at_update`, `see_update` — who is at a place, or seen there, after one move;
* `atPlaces_update`, `weigh_update` — the balance of one move;
* `atPlaces_pos`, `atPlaces_zero` — some thread, no thread.
-/

namespace Lib

variable {ι β γ : Type*}

/-- What is seen of a thread after the move is seen of the one that has moved, or was seen before. -/
theorem see_update [DecidableEq ι] (f : β → γ) {pc : ι → β} {t u : ι} {b : β} {c : γ}
    (h : f (Function.update pc t b u) = c) : u = t ∧ f b = c ∨ u ≠ t ∧ f (pc u) = c := by
  by_cases hut : u = t
  · exact .inl ⟨hut, by rwa [hut, Function.update_self] at h⟩
  · exact .inr ⟨hut, by rwa [Function.update_of_ne hut] at h⟩

/-- Who is at a place after the move: the one that has moved there, or one that was there. -/
theorem at_update [DecidableEq ι] {pc : ι → β} {t u : ι} {b c : β} (h : Function.update pc t b u = c) :
    u = t ∧ b = c ∨ u ≠ t ∧ pc u = c :=
  see_update id h

variable [Fintype ι]

/-- Sum of a weight over the threads. -/
def weigh (g : β → Nat) (pc : ι → β) : Nat := ∑ t, g (pc t)

/-- How many threads are at places of the kind `p`. -/
def atPlaces (p : β → Bool) (pc : ι → β) : Nat := (Finset.univ.filter fun t => p (pc t) = true).card

theorem atPlaces_eq_weigh (p : β → Bool) (pc : ι → β) : atPlaces p pc = weigh (fun b => if p b then 1 else 0) pc := by
  rw [atPlaces, weigh, Finset.card_filter]

theorem atPlaces_pos {p : β → Bool} {pc : ι → β} {t : ι} (h : p (pc t) = true) : 0 < atPlaces p pc :=
  Finset.card_pos.2 ⟨t, by simpa using h⟩

theorem atPlaces_zero {p : β → Bool} {pc : ι → β} : atPlaces p pc = 0 ↔ ∀ t, p (pc t) = false := by
  simp [atPlaces, Finset.filter_eq_empty_iff]

theorem atPlaces_le (p : β → Bool) (pc : ι → β) : atPlaces p pc ≤ Fintype.card ι :=
  Finset.card_filter_le _ _

/-- Fewer threads are at fewer places; the two may be seen in different things. -/
theorem atPlaces_mono {p : β → Bool} {q : γ → Bool} {pc : ι → β} {qc : ι → γ}
    (h : ∀ t, p (pc t) = true → q (qc t) = true) : atPlaces p pc ≤ atPlaces q qc :=
  Finset.card_le_card fun t ht => by simpa using h t (by simpa using ht)

/-- A thread that is elsewhere does not count. -/
theorem atPlaces_lt {p : β → Bool} {pc : ι → β} {t : ι} (h : p (pc t) = false) : atPlaces p pc < Fintype.card ι := by
  apply Finset.card_lt_univ_of_notMem (x := t)
  simp [h]

theorem weigh_zero {g : β → Nat} {pc : ι → β} : weigh g pc = 0 ↔ ∀ t, g (pc t) = 0 := by
  simp [weigh]

theorem weigh_le {g : β → Nat} {k : Nat} (h : ∀ b, g b ≤ k) (pc : ι → β) : weigh g pc ≤ k * Fintype.card ι := by
  rw [Nat.mul_comm]
  exact Finset.sum_le_card_nsmul _ _ _ fun t _ => h (pc t)

/-! ## One thread moves -/

variable [DecidableEq ι]

theorem weigh_update (g : β → Nat) (pc : ι → β) (t : ι) (b : β) :
    weigh g (Function.update pc t b) + g (pc t) = weigh g pc + g b := by
  have hu : ∀ u ∈ Finset.univ.erase t, g (Function.update pc t b u) = g (pc u) := fun u hu => by
    rw [Function.update_of_ne (Finset.ne_of_mem_erase hu)]
  rw [weigh, weigh, ← Finset.add_sum_erase _ _ (Finset.mem_univ t),
    ← Finset.add_sum_erase _ (fun u => g (pc u)) (Finset.mem_univ t), Finset.sum_congr rfl hu, Function.update_self]
  omega

theorem atPlaces_update (p : β → Bool) (pc : ι → β) (t : ι) (b : β) :
    atPlaces p (Function.update pc t b) + (if p (pc t) then 1 else 0) = atPlaces p pc + if p b then 1 else 0 := by
  simp only [atPlaces_eq_weigh]
  exact weigh_update _ pc t b

theorem weigh_lt {g : β → Nat} {pc : ι → β} {t : ι} {b : β} (h : g b < g (pc t)) :
    weigh g (Function.update pc t b) < weigh g pc := by
  have := weigh_update g pc t b
  omega

end Lib
