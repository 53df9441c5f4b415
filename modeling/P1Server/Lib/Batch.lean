import Mathlib.Algebra.GroupWithZero.Nat
import Mathlib.Data.Nat.Find
import Mathlib.Algebra.BigOperators.Group.List.Basic

/-!
# Batches

The longest prefix of a queue that has at most `N` elements and weighs less than `L`.

* `batch` — the prefix, as the greatest number of elements that meets the two limits;
* `batch_of_stop` — a prefix within the limits that cannot be extended is the batch: a loop that takes one
  element after the other may stop at the first that does not fit;
* `batch_ne_nil` — while every element alone is within the limits, a queue has a batch.
-/

namespace Lib

variable {α : Type*} (w : α → Nat) (N L : Nat)

/-- The longest prefix of at most `N` elements whose weights add up to less than `L`. -/
def batch (q : List α) : List α := q.take (Nat.findGreatest (fun m => ((q.take m).map w).sum < L) N)

variable {w N L} {v q : List α} {x : α}

theorem batch_starts : batch w N L q <+: q := List.take_prefix _ _

theorem batch_weight_lt (hL : 0 < L) : ((batch w N L q).map w).sum < L :=
  Nat.findGreatest_spec (P := fun m => ((q.take m).map w).sum < L) (Nat.zero_le N) (by simpa using hL)

theorem batch_of_within (hv : v.length ≤ N) (hw : (v.map w).sum < L) : batch w N L v = v := by
  have hle : v.length ≤ Nat.findGreatest (fun m => ((v.take m).map w).sum < L) N := by
    apply Nat.le_findGreatest hv
    rwa [List.take_length]
  exact List.take_of_length_le hle

/-- The loop stops at a full batch, or at an element that does not fit. -/
theorem batch_of_stop (hv : v.length ≤ N) (hw : (v.map w).sum < L) (hx : v.length = N ∨ L ≤ (v.map w).sum + w x) :
    batch w N L (v ++ x :: q) = v := by
  have hm : Nat.findGreatest (fun m => (((v ++ x :: q).take m).map w).sum < L) N = v.length := by
    rw [Nat.findGreatest_eq_iff]
    refine ⟨hv, ?_, ?_⟩
    · intro _
      rwa [List.take_left]
    · intro m hlt hle hm
      rcases hx with hx | hx
      · omega
      -- a longer prefix has `x` in it
      · obtain ⟨i, rfl⟩ := Nat.exists_eq_add_of_lt hlt
        rw [Nat.add_assoc, List.take_length_add_append, List.take_succ_cons, List.map_append, List.map_cons,
          List.sum_append, List.sum_cons] at hm
        omega
  rw [batch, hm, List.take_left]

theorem batch_ne_nil (hN : 0 < N) (hx : w x < L) : batch w N L (x :: q) ≠ [] := by
  have hpos : 0 < Nat.findGreatest (fun m => (((x :: q).take m).map w).sum < L) N := by
    rw [Nat.findGreatest_pos]
    exact ⟨1, Nat.one_pos, hN, by simpa using hx⟩
  intro h
  rcases List.take_eq_nil_iff.1 h with h | h
  · omega
  · cases h

end Lib
