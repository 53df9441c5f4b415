import P1Server.Lib.Sys
import P1Server.Lib.OrdMap
import P1Server.Lib.Threads

/-!
# `TimerManager`

| here | there |
| --- | --- |
| `CTimer`, `queryExcuteTimer` | `CTimer` (`CommonLib/TimerManager.cpp:6-58`); `obj` is the object, which no other has been or will be |
| `scan`                       | the loop of `ExcuteTimerTask` (`:122-156`) |
| `Pc.selected`                | from `LeaveCriticalSection` to the end of `pTimer->ExcuteTimer()` (`:157-161`) |
| `Act.createTimer`            | `CreateTimer` (`:93-102`), from the increment of `_timerId` to the insertion |
| `Act.changeTimerState`       | `ChangeTimerState` (`:104-115`), by any thread and any callback |

A query reads the clock: `now id` is what it reads for the timer `id`. After an `erase` the loop still does `++it`, so
the timer behind the erased one is not looked at; where there is none, it does `++end()`, which is undefined. `pastEnd`
says so of a scan; that it ends there has no meaning for the code.

* `scan_perm`, `scan_deleted`, `scan_selected` — what a scan does to the table.
-/

namespace P1Server.TimerManager
open Lib

inductive TimerState
  | wait
  | run
  | remove
  | suspend
  deriving DecidableEq

structure CTimer where
  obj : Nat
  timerId : UInt32
  cb : Nat
  lParam : Nat
  interval : UInt32
  runcount : UInt64
  lastExcuteTime : UInt32
  state : TimerState
  deriving DecidableEq

/-- `QueryExcuteTimer`: the answer, and the timer after it. -/
def CTimer.queryExcuteTimer (t : CTimer) (tick : UInt32) : TimerState × CTimer :=
  match t.state with
  | .remove => (.remove, t)
  | .suspend => (.suspend, t)
  | .wait => if t.lastExcuteTime + t.interval < tick then (.run, { t with lastExcuteTime := tick }) else (.wait, t)
  | .run => (.run, { t with state := .wait })

abbrev Timers := OrdMap UInt32 CTimer

/-- What a scan leaves, deletes and selects, and whether it has moved its iterator on from `end()`. -/
structure Scan where
  timers : List (UInt32 × CTimer)
  deleted : List (UInt32 × CTimer)
  selected : Option (UInt32 × CTimer)
  pastEnd : Bool

def scan (now : UInt32 → UInt32) : List (UInt32 × CTimer) → Scan
  | [] => ⟨[], [], none, false⟩
  | (id, t) :: l =>
    match t.queryExcuteTimer (now id) with
    | (.run, t') => ⟨(id, t') :: l, [], some (id, t'), false⟩
    | (.remove, _) =>
      match l with
      | [] => ⟨[], [(id, t)], none, true⟩
      | e :: l =>
        let r := scan now l
        { r with timers := e :: r.timers, deleted := (id, t) :: r.deleted }
    | (_, t') =>
      let r := scan now l
      { r with timers := (id, t') :: r.timers }

/-- The timers a scan queries. -/
def reached (now : UInt32 → UInt32) : List (UInt32 × CTimer) → List (UInt32 × CTimer)
  | [] => []
  | (id, t) :: l =>
    match (t.queryExcuteTimer (now id)).1 with
    | .run => [(id, t)]
    | .remove =>
      match l with
      | [] => [(id, t)]
      | _ :: l => (id, t) :: reached now l
    | _ => (id, t) :: reached now l

/-! ## What a scan does -/

theorem queryExcuteTimer_obj (t : CTimer) (tick : UInt32) : (t.queryExcuteTimer tick).2.obj = t.obj := by
  unfold CTimer.queryExcuteTimer
  split <;> (try split) <;> rfl

theorem state_of_remove {t t' : CTimer} {tick : UInt32} (h : t.queryExcuteTimer tick = (.remove, t')) :
    t.state = .remove := by
  unfold CTimer.queryExcuteTimer at h
  split at h
  case h_1 hs => exact hs
  case h_3 => split at h <;> cases h
  all_goals cases h

/-- Every timer is left or deleted. -/
theorem scan_perm (now : UInt32 → UInt32) (l : List (UInt32 × CTimer)) :
    ((scan now l).timers.map Prod.fst ++ (scan now l).deleted.map Prod.fst).Perm (l.map Prod.fst) := by
  fun_induction scan now l with
  | case1 | case2 | case3 => simp
  | case4 id t t' hq e l r ih =>
    simp only [List.map_cons, List.cons_append]
    exact (List.perm_middle.cons e.1).trans ((List.Perm.swap id e.1 _).trans ((ih.cons e.1).cons id))
  | case5 id t l st t' hne1 hne2 hq r ih =>
    simp only [List.map_cons, List.cons_append]
    exact ih.cons id

theorem scan_sublist (now : UInt32 → UInt32) (l : List (UInt32 × CTimer)) :
    ((scan now l).timers.map Prod.fst).Sublist (l.map Prod.fst) := by
  fun_induction scan now l with
  | case1 | case2 | case3 => simp
  | case4 id t t' hq e l r ih => exact (ih.cons_cons e.1).cons id
  | case5 id t l st t' hne1 hne2 hq r ih => exact ih.cons_cons id

/-- What is left are the objects that were there. -/
theorem scan_timers {now : UInt32 → UInt32} {l : List (UInt32 × CTimer)} {id : UInt32} {t : CTimer}
    (h : (id, t) ∈ (scan now l).timers) : ∃ u, (id, u) ∈ l ∧ u.obj = t.obj := by
  fun_induction scan now l with
  | case1 => cases h
  | case2 k u l t' hq =>
    rcases List.mem_cons.1 h with h | h
    · cases h
      exact ⟨u, List.mem_cons_self, by rw [← queryExcuteTimer_obj u, hq]⟩
    · exact ⟨t, List.mem_cons_of_mem _ h, rfl⟩
  | case3 => cases h
  | case4 k u t' hq e l r ih =>
    rcases List.mem_cons.1 h with h | h
    · exact ⟨t, h ▸ List.mem_cons_of_mem _ List.mem_cons_self, rfl⟩
    · obtain ⟨v, hv, hobj⟩ := ih h
      exact ⟨v, List.mem_cons_of_mem _ (List.mem_cons_of_mem _ hv), hobj⟩
  | case5 k u l st t' hne1 hne2 hq r ih =>
    rcases List.mem_cons.1 h with h | h
    · cases h
      exact ⟨u, List.mem_cons_self, by rw [← queryExcuteTimer_obj u, hq]⟩
    · obtain ⟨v, hv, hobj⟩ := ih h
      exact ⟨v, List.mem_cons_of_mem _ hv, hobj⟩

/-- What is selected is left. -/
theorem scan_selected {now : UInt32 → UInt32} {l : List (UInt32 × CTimer)} {p : UInt32 × CTimer}
    (h : (scan now l).selected = some p) : p ∈ (scan now l).timers := by
  fun_induction scan now l with
  | case1 | case3 => cases h
  | case2 =>
    cases h
    exact List.mem_cons_self
  | case4 _ _ _ _ _ _ _ ih | case5 _ _ _ _ _ _ _ _ _ ih => exact List.mem_cons_of_mem _ (ih h)

/-- What is deleted was queried and in `TIMER_REMOVE`. -/
theorem scan_deleted {now : UInt32 → UInt32} {l : List (UInt32 × CTimer)} {p : UInt32 × CTimer}
    (h : p ∈ (scan now l).deleted) : p ∈ reached now l ∧ p.2.state = .remove := by
  fun_induction scan now l with
  | case1 | case2 => cases h
  | case3 id t t' hq =>
    rw [List.mem_singleton.1 h, reached, hq]
    exact ⟨List.mem_cons_self, state_of_remove hq⟩
  | case4 id t t' hq e l r ih =>
    rw [reached, hq]
    rcases List.mem_cons.1 h with rfl | h
    · exact ⟨List.mem_cons_self, state_of_remove hq⟩
    · exact ⟨List.mem_cons_of_mem _ (ih h).1, (ih h).2⟩
  | case5 id t l st t' hne1 hne2 hq r ih =>
    refine ⟨?_, (ih h).2⟩
    unfold reached
    rw [hq]
    cases st with
    | run => exact absurd rfl hne1
    | remove => exact absurd rfl hne2
    | wait | suspend => exact List.mem_cons_of_mem _ (ih h).1

theorem reached_mem {now : UInt32 → UInt32} {l : List (UInt32 × CTimer)} {p : UInt32 × CTimer}
    (h : p ∈ reached now l) : p ∈ l := by
  fun_induction reached now l with
  | case1 => cases h
  | case2 | case3 =>
    rw [List.mem_singleton.1 h]
    exact List.mem_cons_self
  | case4 id t hq e l ih =>
    rcases List.mem_cons.1 h with rfl | h
    · exact List.mem_cons_self
    · exact List.mem_cons_of_mem _ (List.mem_cons_of_mem _ (ih h))
  | case5 id t l hne1 hne2 ih =>
    rcases List.mem_cons.1 h with rfl | h
    · exact List.mem_cons_self
    · exact List.mem_cons_of_mem _ (ih h)

/-! ## The runs -/

/-- Where a run of `TimerThread` is. -/
inductive Pc
  | idle
  | selected (obj : Nat)
  deriving DecidableEq

/-- `deleted` has the objects that `SAFE_DELETE` was done to. -/
structure State (n : Nat) where
  pc : Fin n → Pc
  timer : Timers
  timerId : UInt32
  nextObj : Nat
  deleted : List Nat

inductive Act (n : Nat)
  | createTimer (cb lParam : Nat) (interval : UInt32) (runcount : UInt64)
  | changeTimerState (timerId : UInt32) (state : TimerState)
  | run (t : Fin n) (now : UInt32 → UInt32)

variable {n : Nat} {s s' : State n}

namespace State

def goto (s : State n) (t : Fin n) (p : Pc) : State n := { s with pc := Function.update s.pc t p }

/-- `InitTimer`, and the insertion. -/
def createTimer (s : State n) (cb lParam : Nat) (interval : UInt32) (runcount : UInt64) : State n :=
  let timerId := s.timerId + 1
  { s with
    timer := s.timer.set timerId ⟨s.nextObj, timerId, cb, lParam, interval, runcount, 0, .wait⟩
    timerId
    nextObj := s.nextObj + 1 }

def changeTimerState (s : State n) (timerId : UInt32) (state : TimerState) : State n :=
  match s.timer.find timerId with
  | some t => { s with timer := s.timer.set timerId { t with state } }
  | none => s

/-- The table after a scan. -/
def scanned (s : State n) (now : UInt32 → UInt32) : Timers :=
  ⟨(scan now s.timer.entries).timers, List.pairwise_map.1 (s.timer.keys_sorted.sublist (scan_sublist now _))⟩

/-- The locked part of `ExcuteTimerTask`. -/
def excuteTimerTask (s : State n) (t : Fin n) (now : UInt32 → UInt32) : State n :=
  let r := scan now s.timer.entries
  { s with
    pc := Function.update s.pc t (r.selected.elim .idle fun p => .selected p.2.obj)
    timer := s.scanned now
    deleted := s.deleted ++ r.deleted.map fun p => p.2.obj }

end State

def step (s : State n) : Act n → Option (State n)
  | .createTimer cb lParam interval runcount => some (s.createTimer cb lParam interval runcount)
  | .changeTimerState timerId state => some (s.changeTimerState timerId state)
  | .run t now =>
    match s.pc t with
    | .idle => some (s.excuteTimerTask t now)
    | .selected _ => some (s.goto t .idle)

/-- `n` runs of `TimerThread` at a time, over any table of timers that are objects of their own. -/
def sys (n : Nat) : Sys (State n) (Act n) where
  init s := (∀ t, s.pc t = .idle) ∧ s.deleted = [] ∧
    (∀ id t, s.timer.find id = some t → t.obj < s.nextObj) ∧
    ∀ id id' t t', s.timer.find id = some t → s.timer.find id' = some t' → t.obj = t'.obj → id = id'
  step := step

end P1Server.TimerManager
