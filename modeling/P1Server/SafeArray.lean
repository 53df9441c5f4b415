import Mathlib.Data.Nat.Size
import Mathlib.Data.Int.ModEq
import Mathlib.Data.UInt
import Mathlib.Logic.Function.Iterate
import Mathlib.Order.Bounds.Defs

/-!
# `SafeArray`: sizes and indices

| here | there |
| --- | --- |
| `bitCount`, `arraySize` | the constructor (`CommonLib/SafeArray.h:9-26`; `P1/SafeArray.h` has the same text and its own `max`) |
| `SafeArray`             | the members; `new T[n]` leaves the slots as they come |
| `next`                  | `(i + 1) & m_ArraySizeInv` |

`1 << k` shifts an `int` by `k` modulo 32, as the processor does: a size above 2³¹ gives 8.

* `arraySize_pow` — every capacity is a power of two, from 8 to 2³¹;
* `new_sizes` — up to 2³¹ it is the least one that is large enough, and the mask takes the remainder;
* `next_slot` — an index goes round the slots.
-/

namespace P1Server

/-- The `while` loop of the constructor. -/
def bitCount (nSize : UInt32) : UInt32 :=
  if nSize = 0 then 0 else bitCount (nSize >>> 1) + 1
termination_by nSize.toNat
decreasing_by
  have : nSize.toNat ≠ 0 := fun h => by simp_all [← UInt32.toNat_inj]
  simp only [UInt32.toNat_shiftRight, UInt32.reduceToNat, Nat.reduceMod, Nat.shiftRight_one]
  omega

/-- `m_ArraySize`. -/
def arraySize (nSize : UInt32) : UInt32 :=
  let n := if nSize &&& (nSize - 1) ≠ 0 then 1 <<< bitCount nSize else nSize
  if n > 8 then n else 8

structure SafeArray (T : Type) where
  m_ArraySize : UInt32
  m_ArraySizeInv : UInt32
  m_pData : UInt32 → T
  m_PushIdx : UInt32
  m_PopIdx : UInt32

namespace SafeArray

variable {T : Type}

/-- The constructor, over the slots `new` returned. -/
def new (nSize : UInt32) (data : UInt32 → T) : SafeArray T :=
  ⟨arraySize nSize, arraySize nSize - 1, data, 0, 0⟩

/-- The index after `i`. -/
def next (q : SafeArray T) (i : UInt32) : UInt32 := (i + 1) &&& q.m_ArraySizeInv

end SafeArray

/-! ## Sizes -/

/-- The loop counts the bits. -/
theorem bitCount_toNat (n : UInt32) : (bitCount n).toNat = n.toNat.size := by
  fun_induction bitCount n with
  | case1 => rfl
  | case2 n hn ih =>
    have hz : n.toNat ≠ 0 := fun h => hn (UInt32.toNat_inj.1 h)
    have hs : n.toNat.size = (n.toNat / 2).size + 1 := by
      have hb := Nat.bit_bodd_div2 n.toNat
      rw [← hb, Nat.size_bit (by rwa [hb]), hb, Nat.div2_val]
    have hle : (n.toNat / 2).size ≤ 31 := Nat.size_le.2 (by have := n.toNat_lt; omega)
    simp only [UInt32.toNat_shiftRight, UInt32.reduceToNat, Nat.reduceMod, Nat.shiftRight_one] at ih
    simp only [UInt32.toNat_add, ih, hs, UInt32.reduceToNat]
    omega

theorem max_pow {n : UInt32} {m : Nat} (h : n.toNat = 2 ^ m) (hm : m ≤ 31) :
    ∃ k, 3 ≤ k ∧ k ≤ 31 ∧ (if n > 8 then n else 8).toNat = 2 ^ k := by
  have hlt : n > 8 ↔ 2 ^ 3 < 2 ^ m := by
    rw [gt_iff_lt, UInt32.lt_iff_toNat_lt, h]
    rfl
  rw [Nat.pow_lt_pow_iff_right (by omega)] at hlt
  split
  case isTrue h8 => exact ⟨m, by have := hlt.1 h8; omega, hm, h⟩
  case isFalse => exact ⟨3, by omega, by omega, rfl⟩

/-- The test of the constructor lets zero and the powers of two through. -/
theorem and_pred_eq_zero (n : UInt32) : n &&& (n - 1) = 0 ↔ n = 0 ∨ n.toNat.isPowerOfTwo := by
  by_cases hz : n = 0
  · simp [hz]
  have hn : n.toNat ≠ 0 := fun h => hz (UInt32.toNat_inj.1 h)
  have hle : (1 : UInt32) ≤ n := UInt32.le_iff_toNat_le.2 (by simp; omega)
  rw [← UInt32.toNat_inj, UInt32.toNat_and, UInt32.toNat_sub_of_le _ _ hle, or_iff_right hz]
  exact Nat.and_sub_one_eq_zero_iff_isPowerOfTwo hn

theorem one_shiftLeft_bitCount (n : UInt32) : (1 <<< bitCount n).toNat = 2 ^ (n.toNat.size % 32) := by
  have hlt : 2 ^ (n.toNat.size % 32) < 2 ^ 32 := Nat.pow_lt_pow_right (by omega) (by omega)
  simp only [UInt32.toNat_shiftLeft, bitCount_toNat, UInt32.reduceToNat, Nat.shiftLeft_eq, Nat.one_mul]
  exact Nat.mod_eq_of_lt hlt

/-- Every capacity is a power of two. -/
theorem arraySize_pow (n : UInt32) : ∃ k, 3 ≤ k ∧ k ≤ 31 ∧ (arraySize n).toNat = 2 ^ k := by
  simp only [arraySize]
  split
  case isTrue => exact max_pow (one_shiftLeft_bitCount n) (by omega)
  case isFalse h =>
    rcases (and_pred_eq_zero n).1 (not_not.1 h) with hz | ⟨m, hm⟩
    · exact ⟨3, by omega, by omega, by rw [hz]; rfl⟩
    refine max_pow hm ?_
    have hlt : 2 ^ m < 2 ^ 32 := hm ▸ n.toNat_lt
    have := (Nat.pow_lt_pow_iff_right (by omega)).1 hlt
    omega

/-- The loop runs once for each bit, and then stops. -/
theorem bitCount_rounds (n : UInt32) :
    (bitCount n).toNat ≤ 32 ∧ (fun i : UInt32 => i >>> 1)^[(bitCount n).toNat] n = 0 ∧
      ∀ r < (bitCount n).toNat, (fun i : UInt32 => i >>> 1)^[r] n ≠ 0 := by
  have hle (i : UInt32) : (bitCount i).toNat ≤ 32 := by
    rw [bitCount_toNat]
    exact Nat.size_le.2 i.toNat_lt
  refine ⟨hle n, ?_⟩
  fun_induction bitCount n with
  | case1 => exact ⟨rfl, by simp⟩
  | case2 n hn ih =>
    have hs : (bitCount (n >>> 1) + 1).toNat = (bitCount (n >>> 1)).toNat + 1 := by
      have := hle (n >>> 1)
      rw [UInt32.toNat_add, UInt32.toNat_one]
      omega
    rw [hs]
    refine ⟨ih.1, ?_⟩
    intro r hr
    cases r with
    | zero => exact hn
    | succ r => exact ih.2 r (by omega)

/-- Up to 2³¹, a capacity holds what was asked for. -/
theorem le_arraySize {n : UInt32} (hn : n.toNat ≤ 2 ^ 31) : n.toNat ≤ (arraySize n).toNat := by
  have hmax (m : UInt32) (h : n.toNat ≤ m.toNat) : n.toNat ≤ (if m > 8 then m else 8).toNat := by
    split
    case isTrue => exact h
    case isFalse h8 => exact h.trans (UInt32.le_iff_toNat_le.1 (UInt32.not_lt.1 h8))
  simp only [arraySize]
  split
  case isTrue h =>
    apply hmax
    have hlt : n.toNat < 2 ^ 31 := by
      refine lt_of_le_of_ne hn ?_
      intro he
      exact h ((and_pred_eq_zero n).2 (.inr ⟨31, he⟩))
    have hs := Nat.size_le.2 hlt
    rw [one_shiftLeft_bitCount, Nat.mod_eq_of_lt (by omega)]
    exact n.toNat.lt_size_self.le
  case isFalse => exact hmax n le_rfl

/-- No smaller power of two would do. -/
theorem arraySize_le {n : UInt32} {j : Nat} (hn : n.toNat ≤ 2 ^ j) (h8 : 8 ≤ 2 ^ j) :
    (arraySize n).toNat ≤ 2 ^ j := by
  simp only [arraySize]
  split
  case isTrue h =>
    have hlt : n.toNat < 2 ^ j := by
      refine lt_of_le_of_ne hn ?_
      intro he
      exact h ((and_pred_eq_zero n).2 (.inr ⟨j, he⟩))
    split
    · rw [one_shiftLeft_bitCount]
      exact Nat.pow_le_pow_right (by omega) ((Nat.mod_le _ _).trans (Nat.size_le.2 hlt))
    · exact h8
  case isFalse =>
    split
    · exact hn
    · exact h8

/-! ## Indices -/

/-- The slot of the `j`th value that is added. -/
def slot (n : UInt32) (j : Nat) : UInt32 := UInt32.ofNat (j % n.toNat)

theorem slot_toNat {n : UInt32} (hn : 0 < n.toNat) (j : Nat) : (slot n j).toNat = j % n.toNat := by
  rw [slot, UInt32.toNat_ofNat_of_lt']
  exact (Nat.mod_lt j hn).trans n.toNat_lt

/-- Two slots are one when the values are a whole number of rounds apart. -/
theorem slot_inj {n : UInt32} (hn : 0 < n.toNat) {i j : Nat} (hij : i ≤ j) (hlt : j - i < n.toNat)
    (h : slot n i = slot n j) : i = j := by
  have hm := congrArg UInt32.toNat h
  rw [slot_toNat hn, slot_toNat hn] at hm
  have hd : n.toNat ∣ j - i := (Nat.modEq_iff_dvd' hij).1 hm
  have := Nat.eq_zero_of_dvd_of_lt hd hlt
  omega

theorem arraySize_pos (n : UInt32) : 8 ≤ (arraySize n).toNat := by
  obtain ⟨k, h3, -, hk⟩ := arraySize_pow n
  rw [hk]
  exact Nat.pow_le_pow_right (n := 2) (by omega) h3

/-- The mask takes the remainder. -/
theorem and_arraySizeInv (n x : UInt32) : (x &&& (arraySize n - 1)).toNat = x.toNat % (arraySize n).toNat := by
  have h8 := arraySize_pos n
  obtain ⟨k, -, -, hk⟩ := arraySize_pow n
  rw [UInt32.toNat_and, UInt32.toNat_sub_of_le _ _ (UInt32.le_iff_toNat_le.2 (by simp; omega)), hk]
  exact Nat.and_two_pow_sub_one_eq_mod _ _

theorem SafeArray.next_slot {q : SafeArray T} {n : UInt32} (hq : q.m_ArraySizeInv = arraySize n - 1) (j : Nat) :
    q.next (slot (arraySize n) j) = slot (arraySize n) (j + 1) := by
  have hpos : 0 < (arraySize n).toNat := by have := arraySize_pos n; omega
  obtain ⟨k, -, hk31, hk⟩ := arraySize_pow n
  apply UInt32.toNat_inj.1
  have hd : (arraySize n).toNat ∣ 2 ^ 32 := hk ▸ Nat.pow_dvd_pow 2 (by omega)
  rw [next, hq, and_arraySizeInv, slot_toNat hpos, UInt32.toNat_add, slot_toNat hpos, Nat.mod_mod_of_dvd _ hd]
  simp

/-- **Sizes.** The loop of the constructor ends, the capacity is the least power of two from `nSize` and
from 8 on, and the mask takes the remainder of every index. -/
theorem SafeArray.new_sizes (nSize : UInt32) (data : UInt32 → T) (h : nSize.toNat ≤ 2 ^ 31) :
    (∃ r ≤ 32, (fun i : UInt32 => i >>> 1)^[r] nSize = 0) ∧
      IsLeast {n | n.isPowerOfTwo ∧ nSize.toNat ≤ n ∧ 8 ≤ n} (new nSize data).m_ArraySize.toNat ∧
      (new nSize data).m_ArraySizeInv = (new nSize data).m_ArraySize - 1 ∧
      ∀ x : UInt32, (x &&& (new nSize data).m_ArraySizeInv).toNat = x.toNat % (new nSize data).m_ArraySize.toNat := by
  obtain ⟨hle, hz, -⟩ := bitCount_rounds nSize
  obtain ⟨k, -, -, hk⟩ := arraySize_pow nSize
  refine ⟨⟨_, hle, hz⟩, ⟨⟨⟨k, hk⟩, le_arraySize h, arraySize_pos nSize⟩, ?_⟩, rfl, and_arraySizeInv nSize⟩
  rintro n ⟨⟨j, rfl⟩, hn, h8⟩
  exact arraySize_le hn h8

theorem SafeArray.new_sizes_thousand : (new 1000 fun _ => ()).m_ArraySize = 1024 ∧
    IsLeast {n | n.isPowerOfTwo ∧ (1000 : UInt32).toNat ≤ n ∧ 8 ≤ n} (new 1000 fun _ => ()).m_ArraySize.toNat :=
  ⟨by decide +kernel, (new_sizes 1000 (fun _ => ()) (by decide)).2.1⟩

end P1Server
