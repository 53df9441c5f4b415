import P1Server.RWAutoLock

/-!
# `RWAutoLock`: a reader gives way to a writer

A reader that meets a writer gives up its increment and waits (`RWAutoLock.cpp:12-18`). So a writer that has announced
itself waits for no reader that comes later, and for no reader for ever.

* `waiting_step` — a step while a writer is counted;
* **`writer_first`** — from the increment of `_WriteRefCount` to its decrement nobody gets a read lock; the readers that
  are on their way touch `_ReadRefCount` three times each at most, and then it stays 0.
-/

namespace P1Server.RWAutoLock
open Lib

variable {n : Nat} {s s' : State n}

/-- The threads that touch `_ReadRefCount`, or look whether they may keep it, in a step. -/
def touches (s : State n) : Act n → List (Fin n)
  | .run t => if readSteps (s.pc t) ≠ 0 then [t] else []
  | _ => []

/-- The writer is announced. -/
def Announced (w : Fin n) (s : State n) (_ : Act n) : Prop := inWrite (s.pc w) = true

/-- What holds of a run while a writer is announced, with the turns of its readers. -/
structure Waiting (s s' : State n) (turns : List (Fin n)) : Prop where
  reading : ∀ u, s'.pc u = .reading → s.pc u = .reading
  turns : weigh readSteps s'.pc + turns.length ≤ weigh readSteps s.pc

theorem Waiting.refl (s : State n) : Waiting s s [] := ⟨fun _ h => h, Nat.le_refl _⟩

theorem Waiting.trans {s'' : State n} {l l' : List (Fin n)} (h : Waiting s s' l) (h' : Waiting s' s'' l') :
    Waiting s s'' (l ++ l') := by
  refine ⟨fun u hu => h.reading u (h'.reading u hu), ?_⟩
  have := h.turns
  have := h'.turns
  rw [List.length_append]
  omega

/-- One thread moves, and does not get a read lock. -/
theorem Waiting.goto {t : Fin n} {q : Pc} {l : List (Fin n)} (hpc : s'.pc = Function.update s.pc t q) (hq : q ≠ .reading)
    (hle : readSteps q + l.length ≤ readSteps (s.pc t)) : Waiting s s' l := by
  refine ⟨?_, ?_⟩
  · intro u hu
    rw [hpc] at hu
    rcases at_update hu with ⟨-, hu⟩ | ⟨-, hu⟩
    · exact absurd hu hq
    · exact hu
  · have := weigh_update readSteps s.pc t q
    rw [hpc]
    omega

theorem waiting_step (hw : s.writeRefCount ≠ 0) {a : Act n} (he : step s a = some s') : Waiting s s' (touches s a) := by
  cases a with
  | readLock t | writeLock t =>
    obtain ⟨ht, ⟨⟩⟩ := Option.ite_none_right_eq_some.1 he
    exact .goto (t := t) rfl (by simp) (by simp [touches, ht, readSteps])
  | run t =>
    simp only [step] at he
    cases ht : s.pc t <;> rw [ht] at he
    case out => cases he
    case enter =>
      obtain ⟨-, ⟨⟩⟩ := Option.ite_none_right_eq_some.1 he
      exact .goto (t := t) rfl (by simp) (by simp [touches, ht, readSteps])
    case testWrite | recheck =>
      -- the reader sees the writer
      simp only [if_neg hw] at he
      cases he
      exact .goto (t := t) rfl (by simp) (by simp [touches, ht, readSteps])
    case testRead =>
      dsimp only at he
      split at he <;> cases he <;>
        exact .goto (t := t) rfl (by simp) (by simp [touches, ht, readSteps])
    all_goals
      cases he
      exact .goto (t := t) rfl (by simp) (by simp [touches, ht, readSteps])

/-- An announced writer is counted. -/
theorem announced_counted (hn : n < 2 ^ 31) (h : Inv s) {w : Fin n} (hw : inWrite (s.pc w) = true) :
    s.writeRefCount ≠ 0 := counter_ne_zero hn h.write hw

theorem waiting_run (hn : n < 2 ^ 31) {w : Fin n} {l : List (Fin n)} (h : Inv s)
    (hr : (sys n).Shows (Announced w) touches s l s') : Waiting s s' l ∧ Inv s' := by
  refine Sys.Shows.inv (I := fun l s' => Waiting s s' l ∧ Inv s') ?_ hr ⟨.refl _, h⟩
  rintro l u a u' ⟨hrest, hi⟩ hk he
  exact ⟨hrest.trans (waiting_step (announced_counted hn hi hk) he), hi.step he⟩

/-- No reader is counted or on its way. -/
theorem Inv.no_readers (h : Inv s) (hz : weigh readSteps s.pc = 0) : s.readRefCount = 0 := by
  have hcount : atPlaces inRead s.pc = 0 := atPlaces_zero.2 fun t => by
    have ht := weigh_zero.1 hz t
    cases hp : s.pc t <;> simp_all [readSteps, inRead]
  rw [h.read, hcount]
  rfl

/-- **The writer first.** While the writer `w` is announced, whatever the others do: no thread gets a read lock; the
threads take three turns each at most at `_ReadRefCount`; when no turn is left it is 0, and the writer that has entered
the critical section gets through with its next step. -/
theorem writer_first (hn : n < 2 ^ 31) (h : (sys n).Reachable s) {w : Fin n} {l : List (Fin n)}
    (hr : (sys n).Shows (Announced w) touches s l s') :
    (∀ u, s'.pc u = .reading → s.pc u = .reading) ∧ l.length + weigh readSteps s'.pc ≤ weigh readSteps s.pc ∧
      weigh readSteps s.pc ≤ 3 * n ∧
      (weigh readSteps s'.pc = 0 → s'.readRefCount = 0 ∧
        (s'.pc w = .testRead → step s' (.run w) = some (s'.goto w .writing))) := by
  obtain ⟨hwait, hi⟩ := waiting_run hn (inv h) hr
  refine ⟨hwait.reading, by have := hwait.turns; omega, ?_, ?_⟩
  · simpa using weigh_le (fun p => by cases p <;> simp [readSteps]) s.pc
  · intro hz
    have hread := hi.no_readers hz
    refine ⟨hread, ?_⟩
    intro hw
    simp [step, hw, hread]

/-- A reader that has been counted backs off. -/
theorem writer_first_two : ∃ (s s' : State 2) (l : List (Fin 2)), (sys 2).Reachable s ∧ s.pc 0 = .recheck ∧
    s'.pc 0 = .testWrite ∧ l = [0, 0] ∧ (sys 2).Shows (Announced 1) touches s l s' ∧ s'.readRefCount = 0 ∧
    step s' (.run 1) = some (s'.goto 1 .writing) := by
  have hs : (sys 2).Reachable _ := Sys.Reachable.run [.readLock 0, .run 0, .run 0, .writeLock 1, .run 1, .run 1]
    (.init rfl) rfl
  have hex : ∃ (s s' : State 2) (l : List (Fin 2)), (sys 2).Reachable s ∧ s.pc 0 = .recheck ∧ s'.pc 0 = .testWrite ∧
      s'.pc 1 = .testRead ∧ l = [0, 0] ∧ (sys 2).Shows (Announced 1) touches s l s' ∧ weigh readSteps s'.pc = 0 :=
    ⟨_, _, _, hs, rfl, rfl, rfl, rfl, .step (a := Act.run 0) rfl rfl (.step (a := Act.run 0) rfl rfl .refl), by decide⟩
  obtain ⟨s, s', l, hs, h0, h0', h1, hl, hr, hz⟩ := hex
  have hfirst := (writer_first (by decide) hs hr).2.2.2 hz
  exact ⟨s, s', l, hs, h0, h0', hl, hr, hfirst.1, hfirst.2 h1⟩

end P1Server.RWAutoLock
