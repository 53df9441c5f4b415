import Mathlib.Data.List.TakeWhile

/-!
# Words and numbers at the front of a text

* `isspace`, `digits` — white space, and the value of the digits in front;
* `takeWhile_within`, `takeWhile_stop`, `digits_stop` — what ends within the text is the same whatever is behind it.
-/

namespace Lib

def isspace (c : Char) : Bool := c == ' ' || ('\t' ≤ c && c ≤ '\r')

/-- The value of the digits in front. -/
def digits (cs : List Char) : Nat := (cs.takeWhile Char.isDigit).foldl (fun n c => 10 * n + (c.toNat - 48)) 0

variable {α : Type*}

/-- A `takeWhile` that ends before the end of what there is. -/
theorem takeWhile_within {p : α → Bool} {l : List α} (h : l.dropWhile p ≠ []) (x : List α) :
    (l ++ x).takeWhile p = l.takeWhile p ∧ (l ++ x).dropWhile p = l.dropWhile p ++ x := by
  induction l with
  | nil => exact absurd rfl h
  | cons a l ih =>
    cases ha : p a with
    | true =>
      rw [List.dropWhile_cons_of_pos ha] at h
      simpa [ha] using ih h
    | false => simp [ha]

theorem takeWhile_stop {p : α → Bool} {z : α} (hz : p z = false) (l x : List α) :
    (l ++ z :: x).takeWhile p = l.takeWhile p ∧ (l ++ z :: x).dropWhile p = l.dropWhile p ++ z :: x := by
  induction l with
  | nil => simp [hz]
  | cons a l ih => cases ha : p a <;> simp [ha, ih]

theorem digits_stop {z : Char} (hz : z.isDigit = false) (l x : List Char) : digits (l ++ z :: x) = digits l := by
  rw [digits, digits, (takeWhile_stop hz l x).1]

end Lib
