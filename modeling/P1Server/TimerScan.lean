import P1Server.TimerManager

/-!
# One scan of the timers

A scan is to delete the timers in `TIMER_REMOVE` that come before the first one that is due, to select that one and to
leave the others as they are (`wanted`). The loop of `ExcuteTimerTask` looks at no timer that stands behind one it has
erased.

* `scan_eq_wanted_iff` — it does so just where no timer before the first due one is erased with its follower to be
  looked at, or with none;
* `not_scan_eq_wanted` — two timers to be removed; one before a due one; one in the last place.
-/

namespace P1Server.TimerManager
open Lib

attribute [ext] Scan

variable {now : UInt32 → UInt32} {e f : UInt32 × CTimer} {l : List (UInt32 × CTimer)}

/-- To be executed when the clock reads `now`. -/
def due (now : UInt32 → UInt32) (e : UInt32 × CTimer) : Bool :=
  match e.2.state with
  | .run => true
  | .wait => decide (e.2.lastExcuteTime + e.2.interval < now e.1)
  | .remove | .suspend => false

def removed (e : UInt32 × CTimer) : Bool := decide (e.2.state = .remove)

/-- The timer after a query. -/
def queried (now : UInt32 → UInt32) (e : UInt32 × CTimer) : UInt32 × CTimer :=
  (e.1, (e.2.queryExcuteTimer (now e.1)).2)

/-- What a scan is to do. -/
def wanted (now : UInt32 → UInt32) (l : List (UInt32 × CTimer)) : Scan :=
  let before := l.takeWhile fun e => !due now e
  let rest := l.dropWhile fun e => !due now e
  ⟨before.filter (fun e => !removed e) ++ rest.modifyHead (queried now), before.filter removed,
    rest.head?.map (queried now), false⟩

/-- Before the first timer that is due, each one in `TIMER_REMOVE` is followed by one that is neither in `TIMER_REMOVE`
nor due. -/
def Spaced (now : UInt32 → UInt32) : List (UInt32 × CTimer) → Prop
  | [] => True
  | e :: l => due now e = true ∨
      (removed e = true → ∃ f ∈ l.head?, removed f = false ∧ due now f = false) ∧ Spaced now l

/-! ## One turn of the loop -/

theorem not_due_of_removed (h : removed e = true) : due now e = false := by
  have hs : e.2.state = .remove := of_decide_eq_true h
  simp [due, hs]

theorem query_due (h : due now e = true) : e.2.queryExcuteTimer (now e.1) = (.run, (queried now e).2) := by
  unfold due at h
  unfold queried CTimer.queryExcuteTimer
  cases hs : e.2.state <;> simp_all

theorem query_pass (hr : removed e = false) (hd : due now e = false) :
    e.2.queryExcuteTimer (now e.1) = (.wait, e.2) ∨ e.2.queryExcuteTimer (now e.1) = (.suspend, e.2) := by
  unfold removed at hr
  unfold due at hd
  unfold CTimer.queryExcuteTimer
  cases hs : e.2.state <;> simp_all [not_lt_of_ge]

theorem query_removed (h : removed e = true) : e.2.queryExcuteTimer (now e.1) = (.remove, e.2) := by
  have hs : e.2.state = .remove := of_decide_eq_true h
  simp [CTimer.queryExcuteTimer, hs]

theorem scan_due (h : due now e = true) :
    scan now (e :: l) = ⟨queried now e :: l, [], some (queried now e), false⟩ := by
  obtain ⟨id, t⟩ := e
  rw [scan.eq_def]
  simp only [query_due h]
  rfl

theorem scan_removed_nil (h : removed e = true) : scan now [e] = ⟨[], [e], none, true⟩ := by
  rw [scan, query_removed h]

theorem scan_removed_cons (h : removed e = true) : scan now (e :: f :: l) = { scan now l with
    timers := f :: (scan now l).timers, deleted := e :: (scan now l).deleted } := by
  rw [scan, query_removed h]

/-- A timer that is neither due nor to be removed is left. -/
theorem scan_pass (hr : removed e = false) (hd : due now e = false) :
    scan now (e :: l) = { scan now l with timers := e :: (scan now l).timers } := by
  obtain ⟨id, t⟩ := e
  rw [scan.eq_def]
  rcases query_pass hr hd with h | h <;> simp only [h]

/-- The scan comes to the first timer that is due, where none before it is to be removed. -/
theorem scan_at {l₁ l₂ : List (UInt32 × CTimer)} (hpass : ∀ f ∈ l₁, removed f = false ∧ due now f = false)
    (he : due now e = true) :
    scan now (l₁ ++ e :: l₂) = ⟨l₁ ++ queried now e :: l₂, [], some (queried now e), false⟩ := by
  induction l₁ with
  | nil => exact scan_due he
  | cons f l₁ ih =>
    obtain ⟨hr, hd⟩ := hpass f List.mem_cons_self
    rw [List.cons_append, scan_pass hr hd, ih fun g hg => hpass g (List.mem_cons_of_mem f hg)]
    rfl

theorem scan_none (hpass : ∀ f ∈ l, removed f = false ∧ due now f = false) : scan now l = ⟨l, [], none, false⟩ := by
  induction l with
  | nil => rfl
  | cons f l ih =>
    obtain ⟨hr, hd⟩ := hpass f List.mem_cons_self
    rw [scan_pass hr hd, ih fun g hg => hpass g (List.mem_cons_of_mem f hg)]

theorem wanted_due (h : due now e = true) :
    wanted now (e :: l) = ⟨queried now e :: l, [], some (queried now e), false⟩ := by
  simp [wanted, h]

theorem wanted_removed (h : removed e = true) :
    wanted now (e :: l) = { wanted now l with deleted := e :: (wanted now l).deleted } := by
  simp [wanted, h, not_due_of_removed h]

theorem wanted_pass (hr : removed e = false) (hd : due now e = false) :
    wanted now (e :: l) = { wanted now l with timers := e :: (wanted now l).timers } := by
  simp [wanted, hr, hd]

/-! ## The whole loop -/

theorem mem_of_deleted (h : e ∈ (scan now l).deleted) : e ∈ l :=
  reached_mem (scan_deleted h).1

theorem key_of_selected (h : (scan now l).selected = some e) : e.1 ∈ l.map Prod.fst :=
  (scan_sublist now l).subset (List.mem_map_of_mem (scan_selected h))

/-- A scan misses what stands behind a timer that it erases. -/
theorem scan_misses (hs : ∀ g ∈ l, f.1 < g.1) (he : removed e = true) (hf : removed f = true ∨ due now f = true) :
    scan now (e :: f :: l) ≠ wanted now (e :: f :: l) := by
  have hnot : f.1 ∉ l.map Prod.fst := fun hm => by
    obtain ⟨g, hg, hgf⟩ := List.mem_map.1 hm
    exact absurd (hs g hg) (hgf ▸ lt_irrefl _)
  intro h
  rw [scan_removed_cons he, wanted_removed he] at h
  rcases hf with hf | hf
  · rw [wanted_removed hf] at h
    simp only [Scan.mk.injEq, List.cons.injEq, true_and] at h
    have hmem : f ∈ (scan now l).deleted := h.2.1 ▸ List.mem_cons_self
    exact hnot (List.mem_map_of_mem (mem_of_deleted hmem))
  · rw [wanted_due hf] at h
    simp only [Scan.mk.injEq] at h
    exact hnot (key_of_selected (e := queried now f) h.2.2.1)

theorem scan_eq_wanted : ∀ {l : List (UInt32 × CTimer)}, l.Pairwise (fun a b => a.1 < b.1) →
    (scan now l = wanted now l ↔ Spaced now l)
  | [], _ => by simp [scan, wanted, Spaced]
  | [e], _ => by
    cases hd : due now e with
    | true => simp [scan_due hd, wanted_due hd, Spaced, hd]
    | false =>
      cases hr : removed e with
      | true => simp [scan_removed_nil hr, wanted, Spaced, hd, hr]
      | false => simp [scan_pass hr hd, scan, wanted, Spaced, hd, hr]
  | e :: f :: l, hs => by
    obtain ⟨-, hs⟩ := List.pairwise_cons.1 hs
    obtain ⟨hfl, hsl⟩ := List.pairwise_cons.1 hs
    cases hd : due now e with
    | true => simp [scan_due hd, wanted_due hd, Spaced, hd]
    | false =>
      cases hr : removed e with
      | false =>
        -- the scan goes on to `f`
        have ih := scan_eq_wanted hs
        rw [scan_pass hr hd, wanted_pass hr hd, Spaced, ← ih]
        simp [hd, hr, Scan.ext_iff]
      | true =>
        by_cases hf : removed f = true ∨ due now f = true
        · have hmiss := scan_misses hfl hr hf
          refine iff_of_false hmiss ?_
          rcases hf with hf | hf <;> simp [Spaced, hd, hr, hf]
        · -- the scan leaves out `f`, which it would have left
          rw [not_or, Bool.not_eq_true, Bool.not_eq_true] at hf
          have ih := scan_eq_wanted hsl
          rw [scan_removed_cons hr, wanted_removed hr, wanted_pass hf.1 hf.2, Spaced, Spaced, ← ih]
          simp [hd, hr, hf.1, hf.2, Scan.ext_iff]

/-- **A scan handles every timer it passes**, just where no timer to be removed hides another one. -/
theorem scan_eq_wanted_iff (m : Timers) (now : UInt32 → UInt32) :
    scan now m.entries = wanted now m.entries ↔ Spaced now m.entries :=
  scan_eq_wanted m.sorted

/-- A timer for the examples: last executed at 0. -/
def sample (id : UInt32) (interval : UInt32) (state : TimerState) : UInt32 × CTimer :=
  (id, ⟨id.toNat, id, 0, 0, interval, 0, 0, state⟩)

/-- Of two timers to be removed the second one stays; a due one behind one to be removed is not selected; behind a last
one to be removed the iterator leaves the map. -/
theorem not_scan_eq_wanted :
    (¬ ∀ (m : Timers) now, (scan now m.entries).deleted = (wanted now m.entries).deleted) ∧
    (¬ ∀ (m : Timers) now, (scan now m.entries).selected = (wanted now m.entries).selected) ∧
    ¬ ∀ (m : Timers) now, (scan now m.entries).pastEnd = false := by
  refine ⟨?_, ?_, ?_⟩
  · intro h
    exact absurd (h ⟨[sample 1 10 .remove, sample 2 10 .remove], by decide⟩ fun _ => 100) (by decide)
  · intro h
    exact absurd (h ⟨[sample 1 10 .remove, sample 2 10 .wait], by decide⟩ fun _ => 100) (by decide)
  · intro h
    exact absurd (h ⟨[sample 1 10 .remove], by decide⟩ fun _ => 100) (by decide)

end P1Server.TimerManager
