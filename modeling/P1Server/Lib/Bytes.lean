import Mathlib.Data.List.GetD

/-!
# Byte memory and little-endian fields

A memory is a function from addresses to bytes; a byte list stands for the memory that starts with
it and is zero behind it. `le16` and `le32` read a field as the machine does, from its own bytes
only (`le16_congr`, `le32_congr`).
-/

namespace Lib

/-- Bytes by address. -/
abbrev Mem := Nat → UInt8

/-- The memory holding `l` from address 0, zero elsewhere. -/
def memOf (l : List UInt8) : Mem := fun i => l.getD i 0

/-- 16-bit little-endian field at `i`. -/
def le16 (m : Mem) (i : Nat) : UInt16 := UInt16.ofNat ((m i).toNat + 256 * (m (i + 1)).toNat)

/-- 32-bit little-endian field at `i`. -/
def le32 (m : Mem) (i : Nat) : UInt32 :=
  UInt32.ofNat ((m i).toNat + 256 * (m (i + 1)).toNat + 65536 * (m (i + 2)).toNat +
    16777216 * (m (i + 3)).toNat)

theorem le16_toNat (m : Mem) (i : Nat) :
    (le16 m i).toNat = (m i).toNat + 256 * (m (i + 1)).toNat := by
  have h0 := (m i).toNat_lt
  have h1 := (m (i + 1)).toNat_lt
  simp only [le16, UInt16.toNat_ofNat']
  omega

theorem le16_congr {m m' : Mem} {i j : Nat} (h0 : m i = m' j) (h1 : m (i + 1) = m' (j + 1)) :
    le16 m i = le16 m' j := by
  simp only [le16, h0, h1]

theorem le32_congr {m m' : Mem} {i j : Nat} (h : ∀ k < 4, m (i + k) = m' (j + k)) :
    le32 m i = le32 m' j := by
  have h0 : m i = m' j := h 0 (by omega)
  simp only [le32, h0, h 1 (by omega), h 2 (by omega), h 3 (by omega)]

theorem le16_eq_zero {m : Mem} {i : Nat} : le16 m i = 0 ↔ m i = 0 ∧ m (i + 1) = 0 := by
  rw [← UInt16.toNat_inj, ← UInt8.toNat_inj, ← UInt8.toNat_inj, le16_toNat]
  simp only [UInt16.toNat_zero, UInt8.toNat_zero]
  omega

theorem memOf_append_left {l r : List UInt8} {i : Nat} (h : i < l.length) :
    memOf (l ++ r) i = memOf l i := List.getD_append _ _ _ _ h

theorem memOf_append_right (l r : List UInt8) (i : Nat) : memOf (l ++ r) (l.length + i) = memOf r i := by
  unfold memOf
  rw [List.getD_append_right _ _ _ _ (by omega)]
  simp

theorem memOf_of_le {l : List UInt8} {i : Nat} (h : l.length ≤ i) : memOf l i = 0 :=
  List.getD_eq_default _ _ h

end Lib
