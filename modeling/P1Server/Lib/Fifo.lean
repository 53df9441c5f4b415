import Mathlib.Data.Option.Basic

/-!
# Objects that are called in sequence, and the bounded queue

`f s c` is what the call `c` answers on an object in state `s` and the state it leaves, `none` where `c` may not be
called. Two objects are `Alike` under a relation of their states if related states allow the same calls, with the same
answers.

* `calls_alike` — then they answer alike over any list of calls;
* `Fifo` — a queue that carries its bound.
-/

namespace Lib

variable {σ τ ι ο α : Type*}

/-- Answers of a list of calls. -/
def calls (f : σ → ι → Option (ο × σ)) : σ → List ι → Option (List ο)
  | _, [] => some []
  | s, c :: cs => (f s c).bind fun r => (calls f r.2 cs).map (r.1 :: ·)

/-- Related states allow the same calls, answer the same and stay related. -/
def Alike (R : σ → τ → Prop) (f : σ → ι → Option (ο × σ)) (g : τ → ι → Option (ο × τ)) : Prop :=
  ∀ s t c, R s t → Option.Rel (fun a b => a.1 = b.1 ∧ R a.2 b.2) (f s c) (g t c)

theorem calls_alike {R : σ → τ → Prop} {f : σ → ι → Option (ο × σ)} {g : τ → ι → Option (ο × τ)} (h : Alike R f g)
    (cs : List ι) {s : σ} {t : τ} (hR : R s t) : calls f s cs = calls g t cs := by
  induction cs generalizing s t with
  | nil => rfl
  | cons c cs ih =>
    have hc := h s t c hR
    simp only [calls]
    cases hf : f s c <;> cases hg : g t c <;> rw [hf, hg] at hc <;> cases hc
    case none.none => rfl
    case some.some a b hab => simp only [Option.bind_some, hab.1, ih hab.2]

/-- At most `cap` values, oldest first. -/
structure Fifo (α : Type*) (cap : Nat) where
  items : List α
  le : items.length ≤ cap

namespace Fifo

variable {cap : Nat}

def empty : Fifo α cap := ⟨[], Nat.zero_le _⟩

def push (f : Fifo α cap) (a : α) (h : f.items.length < cap) : Fifo α cap :=
  ⟨f.items ++ [a], by rw [List.length_append]; exact h⟩

def pop (f : Fifo α cap) : Fifo α cap := ⟨f.items.tail, by have := f.le; simp; omega⟩

end Fifo

end Lib
