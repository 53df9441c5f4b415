import Mathlib.Algebra.GroupWithZero.Nat
import Mathlib.Algebra.BigOperators.Group.List.Basic

/-!
# Files written through overlapped I/O

An overlapped write says itself where it goes. `Region` is what one write addresses, `writeAt` what it does to the
bytes of the file.

* `Tiles`, `tiles_of_count` — regions that cover each byte below a bound once;
* `Consecutive`, `consecutive_concat` — regions each of which starts where the one before it ends;
* `writeAt_end` — a write at the end of the file appends.
-/

namespace Lib

/-- Where an `OVERLAPPED` points to. -/
structure Overlapped where
  Offset : UInt32
  OffsetHigh : UInt32
  deriving DecidableEq

/-- `Offset` and `OffsetHigh` together. -/
def Overlapped.pos (ov : Overlapped) : Nat := ov.OffsetHigh.toNat * 2 ^ 32 + ov.Offset.toNat

/-- What a write addresses: `[pos, pos + len)`. -/
structure Region where
  pos : Nat
  len : Nat
  deriving DecidableEq

namespace Region

def covers (i : Nat) (r : Region) : Bool := decide (r.pos ≤ i ∧ i < r.pos + r.len)

def Disjoint (r q : Region) : Prop := ∀ i, r.covers i = true → q.covers i = false

end Region

/-! ## Regions that tile -/

/-- Pairwise disjoint, together exactly `[0, n)`. -/
structure Tiles (rs : List Region) (n : Nat) : Prop where
  disjoint : rs.Pairwise Region.Disjoint
  covers : ∀ i, (∃ r ∈ rs, r.covers i = true) ↔ i < n

theorem pairwise_disjoint {rs : List Region} (h : ∀ i, rs.countP (Region.covers i) ≤ 1) :
    rs.Pairwise Region.Disjoint := by
  induction rs with
  | nil => exact .nil
  | cons r rs ih =>
    refine .cons ?_ (ih ?_)
    · intro q hq i hi
      have hone := h i
      rw [List.countP_cons_of_pos hi] at hone
      have hnone : rs.countP (Region.covers i) = 0 := by omega
      simpa using List.countP_eq_zero.1 hnone q hq
    · intro i
      exact Nat.le_trans (List.sublist_cons_self r rs).countP_le (h i)

/-- Counted byte by byte. -/
theorem tiles_of_count {rs : List Region} {n : Nat}
    (h : ∀ i, rs.countP (Region.covers i) = if i < n then 1 else 0) : Tiles rs n := by
  refine ⟨pairwise_disjoint ?_, ?_⟩
  · intro i
    rw [h i]
    split <;> omega
  · intro i
    rw [← List.countP_pos_iff, h i]
    split <;> simp [*]

/-! ## Regions in a row -/

def Consecutive : Nat → List Region → Prop
  | _, [] => True
  | p, r :: rs => r.pos = p ∧ Consecutive (p + r.len) rs

def total (rs : List Region) : Nat := (rs.map Region.len).sum

@[simp] theorem total_concat (rs : List Region) (r : Region) : total (rs ++ [r]) = total rs + r.len := by
  simp [total]

theorem consecutive_concat {rs : List Region} {r : Region} {p : Nat} :
    Consecutive p (rs ++ [r]) ↔ Consecutive p rs ∧ r.pos = p + total rs := by
  induction rs generalizing p with
  | nil => simp [Consecutive, total]
  | cons q rs ih => simp [Consecutive, total, ih, and_assoc, Nat.add_assoc]

/-! ## The bytes -/

/-- The file after `data` is written at `pos`; a gap is filled with zeros. -/
def writeAt (file : List UInt8) (pos : Nat) (data : List UInt8) : List UInt8 :=
  file.take pos ++ List.replicate (pos - file.length) 0 ++ data ++ file.drop (pos + data.length)

@[simp] theorem writeAt_end (file data : List UInt8) : writeAt file file.length data = file ++ data := by
  simp [writeAt]

end Lib
