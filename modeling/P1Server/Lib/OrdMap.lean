import Mathlib.Algebra.GroupWithZero.Nat
import Mathlib.Data.List.Sort
import Mathlib.Algebra.BigOperators.Group.List.Basic

/-!
# Ordered maps (`std::map`)

A map is its list of entries in strictly increasing key order; the order is a field, so every map
that can be built is one, and a loop over the map is a recursion over `entries`.

* `find_set`, `find_erase`, `find_empty` — lookup after each operation;
* `mem_entries`, `mem_keys` — entries and keys are what `find` finds;
* `set_set`, `set_eq_self` — an update over an update, and one that changes nothing;
* `sum_set`, `sum_erase` — a sum over the values after an update, as a balance.
-/

namespace Lib

/-- Machine words as keys. -/
instance linearOrderUInt32 : LinearOrder UInt32 where
  le_refl := UInt32.le_refl
  le_trans _ _ _ := UInt32.le_trans
  le_antisymm _ _ := UInt32.le_antisymm
  le_total := UInt32.le_total
  lt_iff_le_not_ge a b := by
    simp only [UInt32.lt_iff_toNat_lt, UInt32.le_iff_toNat_le]
    omega
  toDecidableLE := inferInstance
  toDecidableLT := inferInstance
  toDecidableEq := inferInstance

/-- Entries in strictly increasing key order. -/
structure OrdMap (κ : Type*) (ν : Type*) [LinearOrder κ] where
  entries : List (κ × ν)
  sorted : entries.Pairwise fun a b => a.1 < b.1
  deriving DecidableEq

namespace OrdMap

variable {κ ν : Type*} [LinearOrder κ]

/-! ## Entry lists -/

def lookupE : List (κ × ν) → κ → Option ν
  | [], _ => none
  | (a, b) :: l, k => if a = k then some b else lookupE l k

def insertE (k : κ) (v : ν) : List (κ × ν) → List (κ × ν)
  | [] => [(k, v)]
  | (a, b) :: l =>
    if k < a then (k, v) :: (a, b) :: l else if a = k then (k, v) :: l else (a, b) :: insertE k v l

def eraseE (k : κ) (l : List (κ × ν)) : List (κ × ν) := l.filter fun e => e.1 ≠ k

theorem lookupE_none {l : List (κ × ν)} {k : κ} (h : ∀ e ∈ l, e.1 ≠ k) : lookupE l k = none := by
  induction l with
  | nil => rfl
  | cons e l ih =>
    simp only [lookupE, if_neg (h e List.mem_cons_self)]
    exact ih fun e' he' => h e' (List.mem_cons_of_mem _ he')

theorem mem_insertE {k : κ} {v : ν} {e : κ × ν} :
    ∀ {l : List (κ × ν)}, e ∈ insertE k v l → e = (k, v) ∨ e ∈ l
  | [], h => by simpa [insertE] using h
  | (a, b) :: l, h => by
    simp only [insertE] at h
    split at h
    · simpa using h
    split at h
    · rcases List.mem_cons.1 h with h | h
      · exact Or.inl h
      · exact Or.inr (List.mem_cons_of_mem _ h)
    · rcases List.mem_cons.1 h with h | h
      · exact Or.inr (h ▸ List.mem_cons_self)
      · exact (mem_insertE h).imp_right (List.mem_cons_of_mem _)

theorem insertE_sorted (k : κ) (v : ν) : ∀ {l : List (κ × ν)},
    l.Pairwise (fun a b => a.1 < b.1) → (insertE k v l).Pairwise fun a b => a.1 < b.1
  | [], _ => by simp [insertE]
  | (a, b) :: l, h => by
    obtain ⟨hhd, htl⟩ := List.pairwise_cons.1 h
    simp only [insertE]
    split
    case isTrue hk =>
      refine List.pairwise_cons.2 ⟨?_, h⟩
      intro e he
      rcases List.mem_cons.1 he with rfl | he
      · exact hk
      · exact hk.trans (hhd e he)
    split
    case isTrue hk => exact List.pairwise_cons.2 ⟨fun e he => hk ▸ hhd e he, htl⟩
    case isFalse hlt hne =>
      refine List.pairwise_cons.2 ⟨?_, insertE_sorted k v htl⟩
      intro e he
      rcases mem_insertE he with rfl | he
      · exact lt_of_le_of_ne (not_lt.1 hlt) hne
      · exact hhd e he

theorem insertE_replace {k : κ} (v v' : ν) (l₂ : List (κ × ν)) : ∀ {l₁ : List (κ × ν)}, (∀ e ∈ l₁, e.1 < k) →
    insertE k v' (l₁ ++ (k, v) :: l₂) = l₁ ++ (k, v') :: l₂
  | [], _ => by simp [insertE]
  | (a, b) :: l₁, h => by
    have hlt : a < k := h (a, b) List.mem_cons_self
    have ih := insertE_replace v v' l₂ fun e he => h e (List.mem_cons_of_mem _ he)
    simp [insertE, hlt.not_gt, hlt.ne, ih]

theorem insertE_last {k : κ} (v : ν) : ∀ {l : List (κ × ν)}, (∀ e ∈ l, e.1 < k) → insertE k v l = l ++ [(k, v)]
  | [], _ => rfl
  | (a, b) :: l, h => by
    have hlt : a < k := h (a, b) List.mem_cons_self
    have ih := insertE_last v fun e he => h e (List.mem_cons_of_mem _ he)
    simp [insertE, hlt.not_gt, hlt.ne, ih]

theorem lookupE_insertE (k : κ) (v : ν) (j : κ) : ∀ (l : List (κ × ν)),
    lookupE (insertE k v l) j = if j = k then some v else lookupE l j
  | [] => by simp only [insertE, lookupE, eq_comm]
  | (a, b) :: l => by
    have ih := lookupE_insertE k v j l
    grind [insertE, lookupE]

theorem lookupE_eraseE (k j : κ) : ∀ (l : List (κ × ν)),
    lookupE (eraseE k l) j = if j = k then none else lookupE l j
  | [] => by simp [eraseE, lookupE]
  | (a, b) :: l => by
    have ih := lookupE_eraseE k j l
    simp only [eraseE] at ih ⊢
    grind [lookupE]

theorem insertE_insertE (k : κ) (v v' : ν) : ∀ (l : List (κ × ν)), insertE k v' (insertE k v l) = insertE k v' l
  | [] => by simp [insertE]
  | (a, b) :: l => by
    have ih := insertE_insertE k v v' l
    grind [insertE]

theorem mem_iff_lookupE {k : κ} {v : ν} : ∀ {l : List (κ × ν)},
    l.Pairwise (fun a b => a.1 < b.1) → ((k, v) ∈ l ↔ lookupE l k = some v)
  | [], _ => by simp [lookupE]
  | (a, b) :: l, h => by
    obtain ⟨hhd, htl⟩ := List.pairwise_cons.1 h
    have ih := mem_iff_lookupE (k := k) (v := v) htl
    by_cases hak : a = k
    · subst hak
      have : ∀ v', (a, v') ∉ l := fun v' hm => lt_irrefl a (hhd (a, v') hm)
      simp [lookupE, this, eq_comm]
    · simp [lookupE, hak, Ne.symm hak, ih]

/-! ## Maps -/

def empty : OrdMap κ ν := ⟨[], List.Pairwise.nil⟩

/-- `m.find(k)`. -/
def find (m : OrdMap κ ν) (k : κ) : Option ν := lookupE m.entries k

/-- `m[k] = v`. -/
def set (m : OrdMap κ ν) (k : κ) (v : ν) : OrdMap κ ν := ⟨insertE k v m.entries, insertE_sorted k v m.sorted⟩

/-- `m.erase(k)`. -/
def erase (m : OrdMap κ ν) (k : κ) : OrdMap κ ν := ⟨eraseE k m.entries, m.sorted.filter _⟩

/-- Keys in iteration order. -/
def keys (m : OrdMap κ ν) : List κ := m.entries.map Prod.fst

@[simp] theorem find_empty (k : κ) : (empty : OrdMap κ ν).find k = none := rfl

theorem find_set (m : OrdMap κ ν) (k j : κ) (v : ν) :
    (m.set k v).find j = if j = k then some v else m.find j := lookupE_insertE k v j _

@[simp] theorem find_set_self (m : OrdMap κ ν) (k : κ) (v : ν) : (m.set k v).find k = some v := by
  simp [find_set]

theorem find_set_ne {m : OrdMap κ ν} {k j : κ} {v : ν} (h : j ≠ k) : (m.set k v).find j = m.find j := by
  simp [find_set, h]

theorem find_erase (m : OrdMap κ ν) (k j : κ) :
    (m.erase k).find j = if j = k then none else m.find j := lookupE_eraseE k j _

@[simp] theorem find_erase_self (m : OrdMap κ ν) (k : κ) : (m.erase k).find k = none := by
  simp [find_erase]

theorem find_erase_ne {m : OrdMap κ ν} {k j : κ} (h : j ≠ k) : (m.erase k).find j = m.find j := by
  simp [find_erase, h]

theorem mem_entries {m : OrdMap κ ν} {k : κ} {v : ν} : (k, v) ∈ m.entries ↔ m.find k = some v :=
  mem_iff_lookupE m.sorted

theorem mem_keys {m : OrdMap κ ν} {k : κ} : k ∈ m.keys ↔ ∃ v, m.find k = some v := by
  simp only [keys, List.mem_map, Prod.exists, exists_and_right, exists_eq_right, mem_entries]

/-- `m[k] = v` where there is an entry already. -/
theorem entries_set {m : OrdMap κ ν} {k : κ} {v : ν} {l₁ l₂ : List (κ × ν)} (h : m.entries = l₁ ++ (k, v) :: l₂)
    (v' : ν) : (m.set k v').entries = l₁ ++ (k, v') :: l₂ := by
  have hs := m.sorted
  rw [h] at hs
  show insertE k v' m.entries = _
  rw [h]
  exact insertE_replace v v' l₂ fun e he => (List.pairwise_append.1 hs).2.2 e he _ List.mem_cons_self

/-- `m[k] = v` behind all entries. -/
theorem entries_set_last {m : OrdMap κ ν} {k : κ} (h : ∀ e ∈ m.entries, e.1 < k) (v : ν) :
    (m.set k v).entries = m.entries ++ [(k, v)] :=
  insertE_last v h

theorem ext_entries {m m' : OrdMap κ ν} (h : m.entries = m'.entries) : m = m' := by
  cases m
  cases m'
  cases h
  rfl

/-- The second of two updates of a key is the one that counts. -/
theorem set_set (m : OrdMap κ ν) (k : κ) (v v' : ν) : (m.set k v).set k v' = m.set k v' :=
  ext_entries (insertE_insertE k v v' m.entries)

/-- An update changes nothing where it writes what is there. -/
theorem set_eq_self {m : OrdMap κ ν} {k : κ} {v : ν} : m.set k v = m ↔ m.find k = some v := by
  constructor
  · intro h
    rw [← h, find_set_self]
  · intro h
    obtain ⟨l₁, l₂, hl⟩ := List.append_of_mem (mem_entries.2 h)
    exact ext_entries ((entries_set hl v).trans hl.symm)

/-- A key has one entry. -/
theorem filter_key {m : OrdMap κ ν} {k : κ} {v : ν} (h : m.find k = some v) :
    m.entries.filter (fun e => e.1 = k) = [(k, v)] := by
  obtain ⟨l₁, l₂, hl⟩ := List.append_of_mem (mem_entries.2 h)
  have hs := m.sorted
  rw [hl] at hs ⊢
  obtain ⟨-, hs₂, hs₁⟩ := List.pairwise_append.1 hs
  have h₁ : l₁.filter (fun e => e.1 = k) = [] :=
    List.filter_eq_nil_iff.2 fun e he => by simpa using ne_of_lt (hs₁ e he _ List.mem_cons_self)
  have h₂ : l₂.filter (fun e => e.1 = k) = [] :=
    List.filter_eq_nil_iff.2 fun e he => by simpa using ne_of_gt ((List.pairwise_cons.1 hs₂).1 e he)
  rw [List.filter_append, List.filter_cons, h₁, h₂]
  simp

theorem keys_sorted (m : OrdMap κ ν) : m.keys.Pairwise (· < ·) := List.pairwise_map.2 m.sorted

theorem keys_nodup (m : OrdMap κ ν) : m.keys.Nodup := m.keys_sorted.imp fun h => ne_of_lt h

/-- Maps with the same keys iterate over them in the same order. -/
theorem keys_eq {μ : Type*} {m : OrdMap κ ν} {m' : OrdMap κ μ}
    (h : ∀ k, (m.find k).isSome ↔ (m'.find k).isSome) : m.keys = m'.keys := by
  refine List.Pairwise.eq_of_mem_iff m.keys_sorted m'.keys_sorted ?_
  intro k
  rw [mem_keys, mem_keys, ← Option.isSome_iff_exists, ← Option.isSome_iff_exists]
  exact h k

/-! ## Sums over the values -/

def sum (f : ν → Nat) (m : OrdMap κ ν) : Nat := (m.entries.map fun e => f e.2).sum

@[simp] theorem sum_empty (f : ν → Nat) : (empty : OrdMap κ ν).sum f = 0 := rfl

theorem sum_insertE (f : ν → Nat) (k : κ) (v : ν) : ∀ {l : List (κ × ν)},
    l.Pairwise (fun a b => a.1 < b.1) →
    ((insertE k v l).map fun e => f e.2).sum + ((lookupE l k).elim 0 f) =
      (l.map fun e => f e.2).sum + f v
  | [], _ => by simp [insertE, lookupE]
  | (a, b) :: l, h => by
    obtain ⟨hhd, htl⟩ := List.pairwise_cons.1 h
    have ih := sum_insertE f k v htl
    simp only [insertE]
    split
    case isTrue hk =>
      have hn : lookupE ((a, b) :: l) k = none := by
        refine lookupE_none ?_
        intro e he
        rcases List.mem_cons.1 he with rfl | he
        · exact ne_of_gt hk
        · exact ne_of_gt (hk.trans (hhd e he))
      simp [hn]
      omega
    split
    case isTrue hk =>
      simp [lookupE, hk]
      omega
    case isFalse hlt hne =>
      simp [lookupE, hne]
      omega

theorem sum_set (f : ν → Nat) (m : OrdMap κ ν) (k : κ) (v : ν) :
    (m.set k v).sum f + (m.find k).elim 0 f = m.sum f + f v := sum_insertE f k v m.sorted

theorem sum_eraseE (f : ν → Nat) (k : κ) : ∀ {l : List (κ × ν)},
    l.Pairwise (fun a b => a.1 < b.1) →
    ((eraseE k l).map fun e => f e.2).sum + ((lookupE l k).elim 0 f) = (l.map fun e => f e.2).sum
  | [], _ => by simp [eraseE, lookupE]
  | (a, b) :: l, h => by
    obtain ⟨hhd, htl⟩ := List.pairwise_cons.1 h
    have ih := sum_eraseE f k htl
    simp only [eraseE] at ih ⊢
    by_cases hk : a = k
    · subst hk
      have hn : lookupE l a = none := lookupE_none fun e he => ne_of_gt (hhd e he)
      rw [hn] at ih
      simp [lookupE] at ih ⊢
      omega
    · simp [lookupE, hk] at ih ⊢
      omega

theorem sum_erase (f : ν → Nat) (m : OrdMap κ ν) (k : κ) :
    (m.erase k).sum f + (m.find k).elim 0 f = m.sum f := sum_eraseE f k m.sorted

end OrdMap

end Lib
