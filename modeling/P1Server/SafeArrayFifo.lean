import P1Server.Lib.Fifo
import P1Server.SafeArray

/-!
# `SafeArray` as a queue

| here | there |
| --- | --- |
| `hasItem` … `count` | the members of the same name (`CommonLib/SafeArray.h:32-71`) |
| `call`              | a call of one of them, where the code's own `HasItem` and `HasSpace` allow it |
| `fifoCall`          | the same calls on a list of at most `m_ArraySize - 1` values |

* `refines` — over any list of calls the array answers as the list does.
-/

namespace P1Server
open Lib

variable {T : Type} {zero : T} {nSize : UInt32}

namespace SafeArray

def hasItem (q : SafeArray T) : Bool := q.m_PushIdx != q.m_PopIdx

def removeTopItem (q : SafeArray T) : SafeArray T := { q with m_PopIdx := q.next q.m_PopIdx }

/-- `zero` is `T(0)`. -/
def getItem (zero : T) (q : SafeArray T) : T × SafeArray T :=
  if q.hasItem = false then (zero, q) else (q.m_pData q.m_PopIdx, { q with m_PopIdx := q.next q.m_PopIdx })

def getItemNoRemove (q : SafeArray T) : T := q.m_pData q.m_PopIdx

def hasSpace (q : SafeArray T) : Bool := q.next q.m_PushIdx != q.m_PopIdx

def addItem (q : SafeArray T) (t : T) : SafeArray T :=
  { q with m_pData := Function.update q.m_pData q.m_PushIdx t, m_PushIdx := q.next q.m_PushIdx }

/-- `d` is an `int`; `m_ArraySize + d` is unsigned again. -/
def count (q : SafeArray T) : UInt32 :=
  let d := (q.m_PushIdx - q.m_PopIdx).toInt32
  if d < 0 then q.m_ArraySize + d.toUInt32 else d.toUInt32

/-- The members. -/
inductive Call (T : Type)
  | hasItem
  | removeTopItem
  | getItem
  | getItemNoRemove
  | hasSpace
  | addItem (t : T)
  | count
  | arraySize

inductive Answer (T : Type)
  | none
  | bool (b : Bool)
  | item (t : T)
  | size (n : Nat)

def call (zero : T) (q : SafeArray T) : Call T → Option (Answer T × SafeArray T)
  | .hasItem => some (.bool q.hasItem, q)
  | .removeTopItem => if q.hasItem then some (.none, q.removeTopItem) else none
  | .getItem => some (.item (q.getItem zero).1, (q.getItem zero).2)
  | .getItemNoRemove => if q.hasItem then some (.item q.getItemNoRemove, q) else none
  | .hasSpace => some (.bool q.hasSpace, q)
  | .addItem t => if q.hasSpace then some (.none, q.addItem t) else none
  | .count => some (.size q.count.toNat, q)
  | .arraySize => some (.size q.m_ArraySize.toNat, q)

/-- What the calls mean for a queue. -/
def fifoCall {cap : Nat} (zero : T) (f : Fifo T cap) : Call T → Option (Answer T × Fifo T cap)
  | .hasItem => some (.bool (decide (f.items ≠ [])), f)
  | .removeTopItem => if f.items ≠ [] then some (.none, f.pop) else none
  | .getItem => some (.item (f.items.headD zero), f.pop)
  | .getItemNoRemove => f.items.head?.map fun t => (.item t, f)
  | .hasSpace => some (.bool (decide (f.items.length < cap)), f)
  | .addItem t => if h : f.items.length < cap then some (.none, f.push t h) else none
  | .count => some (.size f.items.length, f)
  | .arraySize => some (.size (cap + 1), f)

/-! ## The list in the slots -/

/-- The values are in the slots from `m_PopIdx` on, the `p`th and later ones that were ever added. -/
structure Stores (nSize : UInt32) (q : SafeArray T) (items : List T) (p : Nat) : Prop where
  size : q.m_ArraySize = arraySize nSize
  mask : q.m_ArraySizeInv = arraySize nSize - 1
  lt : items.length < (arraySize nSize).toNat
  pop : q.m_PopIdx = slot (arraySize nSize) p
  push : q.m_PushIdx = slot (arraySize nSize) (p + items.length)
  kept : ∀ j t, items[j]? = some t → q.m_pData (slot (arraySize nSize) (p + j)) = t

theorem arraySize_toNat_pos (n : UInt32) : 0 < (arraySize n).toNat := by
  have := arraySize_pos n
  omega

theorem arraySize_le (n : UInt32) : (arraySize n).toNat ≤ 2 ^ 31 := by
  obtain ⟨k, -, hk, h⟩ := arraySize_pow n
  rw [h]
  exact Nat.pow_le_pow_right (by omega) hk

/-- The sign of an `int` difference of indices. -/
theorem toInt32_sub_neg {a b : UInt32} (ha : a.toNat < 2 ^ 31) (hb : b.toNat < 2 ^ 31) :
    (a - b).toInt32 < 0 ↔ a.toNat < b.toNat := by
  have hint : (a - b).toInt32.toInt = (a - b).toBitVec.toInt := rfl
  have hnat : (a - b).toBitVec.toNat = (a - b).toNat := rfl
  rw [Int32.lt_iff_toInt_lt, hint, BitVec.toInt_eq_toNat_cond, hnat, UInt32.toNat_sub, Int32.toInt_zero]
  split <;> omega

/-- Adding less than a round passes the end at most once. -/
theorem add_mod_cases {n p k : Nat} (hk : k < n) :
    (p + k) % n = if p % n + k < n then p % n + k else p % n + k - n := by
  have hr := Nat.mod_lt p (Nat.zero_lt_of_lt hk)
  rw [← Nat.mod_add_mod]
  split
  case isTrue h => exact Nat.mod_eq_of_lt h
  case isFalse h => rw [Nat.mod_eq_sub_mod (by omega), Nat.mod_eq_of_lt (by omega)]

variable {q : SafeArray T} {items : List T} {p : Nat}

namespace Stores

theorem hasItem (h : Stores nSize q items p) : q.hasItem = decide (items ≠ []) := by
  rw [SafeArray.hasItem, h.push, h.pop, Bool.eq_iff_iff, bne_iff_ne, decide_eq_true_eq]
  refine not_congr ⟨fun he => ?_, fun he => by simp [he]⟩
  have := slot_inj (arraySize_toNat_pos nSize) (Nat.le_add_right p _) (by have := h.lt; omega) he.symm
  exact List.length_eq_zero_iff.1 (by omega)

theorem hasSpace (h : Stores nSize q items p) :
    q.hasSpace = decide (items.length < (arraySize nSize).toNat - 1) := by
  have hpos := arraySize_toNat_pos nSize
  have hlt := h.lt
  rw [SafeArray.hasSpace, h.push, h.pop, next_slot h.mask, Bool.eq_iff_iff, bne_iff_ne, decide_eq_true_eq]
  constructor
  · intro hne
    by_contra hge
    have hfull : p + items.length + 1 = p + (arraySize nSize).toNat := by omega
    refine hne (UInt32.toNat_inj.1 ?_)
    rw [slot_toNat hpos, slot_toNat hpos, hfull, Nat.add_mod_right]
  · intro hroom he
    have := slot_inj hpos (by omega) (by omega) he.symm
    omega

theorem count (h : Stores nSize q items p) : q.count.toNat = items.length := by
  have hpos := arraySize_toNat_pos nSize
  have hle := arraySize_le nSize
  have hlt := h.lt
  have hpop : q.m_PopIdx.toNat = p % (arraySize nSize).toNat := by rw [h.pop, slot_toNat hpos]
  have hpush : q.m_PushIdx.toNat = (p + items.length) % (arraySize nSize).toNat := by rw [h.push, slot_toNat hpos]
  have hr := Nat.mod_lt p hpos
  rw [add_mod_cases hlt] at hpush
  have hneg : (q.m_PushIdx - q.m_PopIdx).toInt32 < 0 ↔ q.m_PushIdx.toNat < q.m_PopIdx.toNat :=
    toInt32_sub_neg (by split at hpush <;> omega) (by omega)
  simp only [SafeArray.count, hneg, UInt32.toUInt32_toInt32]
  split
  case isTrue hwrap =>
    rw [UInt32.toNat_add, UInt32.toNat_sub, h.size]
    split at hpush <;> omega
  case isFalse hflat =>
    rw [UInt32.toNat_sub_of_le _ _ (UInt32.le_iff_toNat_le.2 (by omega))]
    split at hpush <;> omega

theorem head (h : Stores nSize q items p) {t : T} (ht : items.head? = some t) : q.m_pData q.m_PopIdx = t := by
  rw [h.pop]
  exact h.kept 0 t (by rwa [← List.head?_eq_getElem?])

/-- The oldest value goes. -/
theorem tail (h : Stores nSize q items p) (hne : items ≠ []) :
    Stores nSize { q with m_PopIdx := q.next q.m_PopIdx } items.tail (p + 1) := by
  obtain ⟨t, rest, rfl⟩ := List.exists_cons_of_ne_nil hne
  have hlt := h.lt
  have hpush := h.push
  rw [List.length_cons] at hlt hpush
  refine ⟨h.size, h.mask, by simpa using Nat.lt_of_succ_lt hlt, ?_, ?_, fun j u hu => ?_⟩
  · show q.next q.m_PopIdx = _
    rw [h.pop, next_slot h.mask]
  · show q.m_PushIdx = slot (arraySize nSize) (p + 1 + rest.length)
    rw [hpush]
    congr 1
    omega
  · have hkept := h.kept (j + 1) u (by simpa using hu)
    rwa [show p + 1 + j = p + (j + 1) by omega]

/-- A new value takes the free slot. -/
theorem addItem (h : Stores nSize q items p) (hroom : items.length < (arraySize nSize).toNat - 1) (t : T) :
    Stores nSize (q.addItem t) (items ++ [t]) p := by
  have hpos := arraySize_toNat_pos nSize
  refine ⟨h.size, h.mask, by rw [List.length_append, List.length_singleton]; omega, h.pop, ?_, fun j u hu => ?_⟩
  · show q.next q.m_PushIdx = _
    rw [h.push, next_slot h.mask, List.length_append, List.length_singleton, Nat.add_assoc]
  · show Function.update q.m_pData q.m_PushIdx t (slot (arraySize nSize) (p + j)) = u
    rw [h.push]
    rcases Nat.lt_trichotomy j items.length with hj | hj | hj
    · rw [List.getElem?_append_left hj] at hu
      have hne : slot (arraySize nSize) (p + j) ≠ slot (arraySize nSize) (p + items.length) := fun he => by
        have := slot_inj hpos (by omega) (by omega) he
        omega
      rw [Function.update_of_ne hne]
      exact h.kept j u hu
    · subst hj
      rw [Function.update_self]
      simpa using hu
    · rw [List.getElem?_eq_none (by rw [List.length_append, List.length_singleton]; omega)] at hu
      cases hu

end Stores

theorem new_stores (nSize : UInt32) (data : UInt32 → T) : Stores nSize (.new nSize data) [] 0 := by
  refine ⟨rfl, rfl, arraySize_toNat_pos nSize, ?_, ?_, fun j t h => by simp at h⟩ <;>
    simp [new, slot]

/-! ## The calls -/

/-- The array stores the values of the queue. -/
def Refines (nSize : UInt32) (q : SafeArray T) (f : Fifo T ((arraySize nSize).toNat - 1)) : Prop :=
  ∃ p, Stores nSize q f.items p

theorem call_alike : Alike (Refines nSize) (call (T := T) zero) (fifoCall zero) := by
  rintro q f c ⟨p, h⟩
  have hpos := arraySize_toNat_pos nSize
  cases c with
  | hasItem =>
    refine .some ⟨?_, p, h⟩
    rw [h.hasItem]
  | removeTopItem =>
    simp only [call, fifoCall, h.hasItem, decide_eq_true_eq]
    split
    case isTrue hne => exact .some ⟨rfl, p + 1, h.tail hne⟩
    case isFalse => exact .none
  | getItem =>
    simp only [call, fifoCall, getItem, h.hasItem]
    by_cases hnil : f.items = []
    · refine .some ⟨by simp [hnil], p, ?_⟩
      simpa [hnil, Fifo.pop] using h
    · obtain ⟨t, ht⟩ := Option.isSome_iff_exists.1 (List.isSome_head?.2 hnil)
      refine .some ⟨?_, p + 1, ?_⟩
      · simp [hnil, h.head ht, List.headD_eq_head?_getD, ht]
      · simpa [hnil, Fifo.pop] using h.tail hnil
  | getItemNoRemove =>
    simp only [call, fifoCall, h.hasItem, decide_eq_true_eq]
    cases ht : f.items.head? with
    | none => simp [List.head?_eq_none_iff.1 ht]
    | some t =>
      have hne : f.items ≠ [] := fun hnil => by simp [hnil] at ht
      rw [if_pos hne]
      exact .some ⟨congrArg Answer.item (h.head ht), p, h⟩
  | hasSpace =>
    refine .some ⟨?_, p, h⟩
    rw [h.hasSpace]
  | addItem t =>
    simp only [call, fifoCall, h.hasSpace, decide_eq_true_eq]
    split
    case isTrue hroom => exact .some ⟨rfl, p, h.addItem hroom t⟩
    case isFalse => exact .none
  | count => exact .some ⟨congrArg Answer.size h.count, p, h⟩
  | arraySize =>
    refine .some ⟨congrArg Answer.size ?_, p, h⟩
    show q.m_ArraySize.toNat = _
    rw [h.size]
    omega

/-- **`SafeArray` is a queue** of `m_ArraySize - 1` values, whatever is called where it may be. -/
theorem refines (zero : T) (nSize : UInt32) (data : UInt32 → T) (cs : List (Call T)) :
    calls (call zero) (.new nSize data) cs =
      calls (fifoCall zero) (.empty : Fifo T ((P1Server.arraySize nSize).toNat - 1)) cs :=
  calls_alike call_alike cs ⟨0, new_stores nSize data⟩

end SafeArray

end P1Server
