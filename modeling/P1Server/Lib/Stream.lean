import Mathlib.Data.List.Infix
import Mathlib.Data.Nat.Find

/-!
# A buffer that is filled in pieces

A reader adds pieces to a buffer until it has the delimiter. How many pieces that takes, and how much of the last one
is too much, depends on where the stream is cut; whether there is a delimiter, and where the first one is, does not.

* `ReadsUntil` — what is expected of a reader; `fillUntil` is one;
* `FirstAt` — where the first delimiter is; `firstAt_of_infix`, `FirstAt.prefix` — a buffer that has one has this one.
-/

namespace Lib

variable {α : Type*}

/-- From a delimiter, a buffer and the pieces to come, the buffer and the pieces that have not been read. -/
abbrev Reader (α : Type*) := List α → List α → List (List α) → Option (List α × List (List α))

/-- It reads until the delimiter is in the buffer, loses nothing, and fails where the stream ends without one. -/
structure ReadsUntil (read : Reader α) : Prop where
  found : ∀ {delim b b' : List α} {cs cs' : List (List α)}, read delim b cs = some (b', cs') →
    delim <:+: b' ∧ b' ++ cs'.flatten = b ++ cs.flatten
  fails : ∀ {delim b : List α} {cs : List (List α)}, read delim b cs = none → ¬ delim <:+: b ++ cs.flatten

theorem ReadsUntil.eq_none {read : Reader α} (h : ReadsUntil read) {delim b : List α} {cs : List (List α)} :
    read delim b cs = none ↔ ¬ delim <:+: b ++ cs.flatten := by
  refine ⟨h.fails, fun hd => ?_⟩
  cases hr : read delim b cs with
  | none => rfl
  | some r =>
    obtain ⟨hd', hf⟩ := h.found hr
    exact absurd (hf ▸ hd'.trans (List.prefix_append _ _).isInfix) hd

/-- The reader that takes one piece after the other. -/
def fillUntil [DecidableEq α] (delim : List α) : List α → List (List α) → Option (List α × List (List α))
  | b, [] => if delim <:+: b then some (b, []) else none
  | b, c :: cs => if delim <:+: b then some (b, c :: cs) else fillUntil delim (b ++ c) cs

theorem readsUntil_fillUntil [DecidableEq α] : ReadsUntil (@fillUntil α _) := by
  refine ⟨fun {delim b b' cs cs'} h => ?_, fun {delim b cs} h => ?_⟩
  · induction cs generalizing b with
    | nil =>
      obtain ⟨hd, ⟨⟩⟩ := Option.ite_none_right_eq_some.1 h
      exact ⟨hd, rfl⟩
    | cons c cs ih =>
      unfold fillUntil at h
      split at h
      case isTrue hd =>
        cases h
        exact ⟨hd, rfl⟩
      case isFalse =>
        obtain ⟨hd, hf⟩ := ih h
        exact ⟨hd, by simp [hf]⟩
  · induction cs generalizing b with
    | nil => simpa [fillUntil] using h
    | cons c cs ih =>
      unfold fillUntil at h
      split at h
      case isTrue => cases h
      case isFalse => simpa using ih h

/-- `r` is `l`, the first delimiter, and `after`. -/
structure FirstAt (delim r l after : List α) : Prop where
  eq : r = l ++ delim ++ after
  first : ∀ p q, r = p ++ delim ++ q → l.length ≤ p.length

theorem firstAt_of_infix {delim r : List α} (h : delim <:+: r) : ∃ l after, FirstAt delim r l after := by
  classical
  have hex : ∃ k, ∃ p q : List α, r = p ++ delim ++ q ∧ p.length = k := by
    obtain ⟨p, q, hr⟩ := h
    exact ⟨p.length, p, q, hr.symm, rfl⟩
  obtain ⟨l, after, hr, hl⟩ := Nat.find_spec hex
  refine ⟨l, after, hr, ?_⟩
  intro p q hp
  rw [hl]
  exact Nat.find_min' hex ⟨p, q, hp, rfl⟩

/-- What has come of the stream has the first delimiter, if it has one. -/
theorem FirstAt.prefix {delim r l after b t : List α} (h : FirstAt delim r l after) (hb : delim <:+: b)
    (hr : b ++ t = r) : ∃ x, b = l ++ delim ++ x ∧ x ++ t = after := by
  obtain ⟨p, q, hpq⟩ := hb
  have hle : l.length ≤ p.length := h.first p (q ++ t) (by rw [← hr, ← hpq]; simp)
  have hl : l ++ delim <+: r := ⟨after, h.eq.symm⟩
  have hpre : l ++ delim <+: b := by
    refine List.prefix_of_prefix_length_le hl ⟨t, hr⟩ ?_
    rw [← hpq]
    simp
    omega
  obtain ⟨x, rfl⟩ := hpre
  refine ⟨x, rfl, ?_⟩
  rw [h.eq, List.append_assoc] at hr
  exact List.append_cancel_left hr

theorem FirstAt.unique {delim r l after l' after' : List α} (h : FirstAt delim r l after)
    (h' : FirstAt delim r l' after') : l = l' := by
  have hle := h.first l' after' h'.eq
  have hge := h'.first l after h.eq
  have heq : l ++ (delim ++ after) = l' ++ (delim ++ after') := by
    rw [← List.append_assoc, ← List.append_assoc, ← h.eq, ← h'.eq]
  exact (List.append_inj heq (by omega)).1

end Lib
