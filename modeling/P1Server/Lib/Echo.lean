import Mathlib.Tactic.TypeStar

/-!
# Lists that drop and repeat

`Echo l l'`: `l'` goes through `l` in its order, leaving elements out and giving elements several times.
What holds of every element, and what holds of every pair in order and of an element with itself, goes
over from `l` to `l'`.
-/

namespace Lib

inductive Echo {α : Type*} : List α → List α → Prop
  | nil : Echo [] []
  | drop {a : α} {l l' : List α} : Echo l l' → Echo (a :: l) l'
  | give {a : α} {l l' : List α} : Echo (a :: l) l' → Echo (a :: l) (a :: l')

namespace Echo

variable {α : Type*} {a b a' b' l l' : List α}

@[refl] theorem refl : ∀ (l : List α), Echo l l
  | [] => .nil
  | _ :: l => .give (.drop (refl l))

theorem toNil : ∀ (l : List α), Echo l []
  | [] => .nil
  | _ :: l => .drop (toNil l)

theorem mem (h : Echo l l') {x : α} (hx : x ∈ l') : x ∈ l := by
  induction h with
  | nil => exact hx
  | drop _ ih => exact List.mem_cons_of_mem _ (ih hx)
  | give _ ih =>
    rcases List.mem_cons.1 hx with rfl | hx
    · exact List.mem_cons_self
    · exact ih hx

theorem pairwise {R : α → α → Prop} (h : Echo l l') (hR : ∀ x, R x x) (hl : l.Pairwise R) : l'.Pairwise R := by
  induction h with
  | nil => exact hl
  | drop _ ih => exact ih (List.pairwise_cons.1 hl).2
  | give h ih =>
    refine List.pairwise_cons.2 ⟨?_, ih hl⟩
    intro y hy
    rcases List.mem_cons.1 (h.mem hy) with rfl | hy
    · exact hR y
    · exact (List.pairwise_cons.1 hl).1 y hy

theorem append (h : Echo a a') (h' : Echo b b') : Echo (a ++ b) (a' ++ b') := by
  induction h with
  | nil => exact h'
  | drop _ ih => exact .drop ih
  | give _ ih => exact .give ih

theorem left (l r : List α) : Echo (l ++ r) l := by
  have := (refl l).append (toNil r)
  rwa [List.append_nil] at this

theorem right (l r : List α) : Echo (l ++ r) r := (toNil l).append (refl r)

theorem filter (p : α → Bool) (h : Echo l l') : Echo (l.filter p) (l'.filter p) := by
  induction h with
  | nil => exact .nil
  | @drop x l l' _ ih =>
    rw [List.filter_cons]
    split
    · exact .drop ih
    · exact ih
  | @give x l l' _ ih =>
    rw [List.filter_cons] at ih ⊢
    split at ih
    case isTrue hx =>
      rw [if_pos hx, List.filter_cons_of_pos hx]
      exact .give ih
    case isFalse hx =>
      rw [if_neg hx, List.filter_cons_of_neg hx]
      exact ih

theorem map {β : Type*} (f : α → β) (h : Echo l l') : Echo (l.map f) (l'.map f) := by
  induction h with
  | nil => exact .nil
  | drop _ ih => exact .drop ih
  | give _ ih => exact .give ih

theorem flatMap {β : Type*} {f g : β → List α} (h : ∀ x, Echo (f x) (g x)) :
    ∀ l : List β, Echo (l.flatMap f) (l.flatMap g)
  | [] => .nil
  | x :: l => (h x).append (flatMap h l)

theorem replicate (x : α) : ∀ m, Echo [x] (List.replicate m x)
  | 0 => .drop .nil
  | m + 1 => .give (replicate x m)

end Echo

end Lib
