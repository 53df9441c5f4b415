import P1Server.ThreadPoolLimits

/-!
# `CloseThreadPool`

It clears `_runFlag` and waits for every worker (`ThreadPool.cpp:60-72`). A worker reads the flag once for each task, so
one that has read it before still takes a task and runs it; a worker at `loop` has nothing to do but to return.

* `closing_step` — what one step does once the flag is cleared;
* **`closes`** — each worker returns after four steps at most, those that have read the flag start one callback each at
  most, and when all have returned no task is counted as running.
-/

namespace P1Server.ThreadPool
open Lib

variable {n : Nat} {q : Ratio} {s s' : State n}

/-- The steps a worker has left until it reads the flag again. -/
def left : Pc → Nat
  | .loop => 0
  | .getTick _ => 4
  | .getTask _ _ => 3
  | .running _ _ => 2
  | .record _ _ _ => 1

/-- A worker that has read the flag and has no task yet. -/
def asking : Pc → Bool
  | .getTick _ | .getTask _ _ => true
  | _ => false

/-- A step of the worker. -/
def runsBy (t : Fin n) : Act n → Bool
  | .run u .. => u = t
  | _ => false

/-- How many callbacks have been started, for tasks of these ids. -/
def started (s : State n) (ids : Finset UInt32) : Nat := ∑ tid ∈ ids, s.starts tid

theorem started_succ (starts : UInt32 → Nat) (tid : UInt32) (ids : Finset UInt32) :
    ∑ i ∈ ids, Function.update starts tid (starts tid + 1) i ≤ ∑ i ∈ ids, starts i + 1 := by
  have hle : ∀ i ∈ ids, Function.update starts tid (starts tid + 1) i ≤ starts i + if i = tid then 1 else 0 := by
    intro i _
    by_cases hi : i = tid
    · simp [hi]
    · simp [hi]
  refine (Finset.sum_le_sum hle).trans ?_
  rw [Finset.sum_add_distrib, Finset.sum_ite_eq']
  split <;> omega

/-- What a step does once the flag is cleared: it leaves its worker fewer steps, and who starts a callback asks for no
other task. -/
structure Closing (a : Act n) (s s' : State n) : Prop where
  runFlag : s'.runFlag = false
  steps : ∀ t, left (s'.pc t) + (if runsBy t a then 1 else 0) ≤ left (s.pc t)
  calls : ∀ ids, started s' ids + atPlaces asking s'.pc ≤ started s ids + atPlaces asking s.pc

theorem Closing.same {a : Act n} (hf : s'.runFlag = false) (ha : ∀ t, runsBy t a = false) (hpc : s'.pc = s.pc)
    (hs : s'.starts = s.starts) : Closing a s s' := by
  refine ⟨hf, ?_, ?_⟩
  · intro t
    simp [hpc, ha t]
  · intro ids
    rw [hpc, ThreadPool.started, ThreadPool.started, hs]

/-- A worker goes on. -/
theorem Closing.goto (hf : s'.runFlag = false) {t : Fin n} {now : UInt32} {junk : ThreadTask} {p : Pc}
    (hpc : s'.pc = Function.update s.pc t p) (hlt : left p < left (s.pc t))
    (hs : ∀ ids, started s' ids + (if asking p then 1 else 0) ≤ started s ids + if asking (s.pc t) then 1 else 0) :
    Closing (.run t now junk) s s' := by
  refine ⟨hf, ?_, ?_⟩
  · intro u
    rcases eq_or_ne u t with rfl | hu
    · simpa [hpc, runsBy] using Nat.succ_le_of_lt hlt
    · simp [hpc, runsBy, Function.update_of_ne hu, hu.symm]
  · intro ids
    have := atPlaces_update asking s.pc t p
    have := hs ids
    rw [hpc]
    omega

theorem closing_step (hc : s.runFlag = false) {a : Act n} (he : step q s a = some s') :
    Closing a s s' := by
  cases a with
  | add cb param runtimes mulNum now =>
    simp only [step] at he
    split at he <;> cases he <;> exact .same hc (fun _ => rfl) rfl rfl
  | remove tid =>
    cases he
    unfold State.removeThreadTask
    split <;> exact .same hc (fun _ => rfl) rfl rfl
  | close =>
    cases he
    exact .same rfl (fun _ => rfl) rfl rfl
  | run t now junk =>
    simp only [step] at he
    cases hp : s.pc t with
    | loop =>
      rw [hp, hc] at he
      cases he
    | getTick | running | record =>
      rw [hp] at he
      cases he
      exact .goto (t := t) (by exact hc) (by rfl) (by simp [hp, left]) fun ids => by simp [hp, asking, State.goto, started]
    | getTask tick tick' =>
      rw [hp] at he
      cases he
      unfold State.start
      split
      case isTrue =>
        -- the callback is the one it has asked for
        refine .goto (t := t) (by exact hc) (by rfl) (by simp [hp, left]) ?_
        intro ids
        simpa [hp, asking, started] using started_succ s.starts _ ids
      case isFalse =>
        exact .goto (t := t) (by exact hc) (by rfl) (by simp [hp, left]) fun ids => by simp [hp, asking, State.goto, started]

/-- A run starts no more callbacks than there are workers that ask for a task. -/
theorem started_le (hc : s.runFlag = false) {as : List (Act n)} (he : (sys q n).run s as = some s')
    (ids : Finset UInt32) : started s' ids ≤ started s ids + atPlaces asking s.pc := by
  have hrun := Sys.run_inv (M := sys q n) (P := fun u => u.runFlag = false ∧
    started u ids + atPlaces asking u.pc ≤ started s ids + atPlaces asking s.pc) (fun u a u' hu he =>
      have hstep := closing_step hu.1 he
      ⟨hstep.runFlag, (hstep.calls ids).trans hu.2⟩) as ⟨hc, le_rfl⟩ he
  exact (Nat.le_add_right _ _).trans hrun.2

/-- A worker that has not returned can go on. -/
theorem run_of_not_loop {t : Fin n} (ht : s.pc t ≠ .loop) (now : UInt32) (junk : ThreadTask) :
    step q s (.run t now junk) ≠ none := by
  simp only [step]
  cases hp : s.pc t with
  | loop => exact absurd hp ht
  | _ => simp

/-- Where no worker holds a task, no entry counts one; what the end of a run has made of a removed task has no callback. -/
theorem Ledger.none_running (h : Ledger s) (hl : ∀ t, s.pc t = .loop) {tid : UInt32} {e : ThreadTask}
    (hf : s.mapTask.find tid = some e) : e.runingnum = 0 ∨ e.cb = 0 ∧ tid ∈ s.removed := by
  rcases h.entries tid e hf with ⟨a, -, -, ho⟩ | ⟨hcb, -, hr⟩
  · have hz : holders s tid = 0 := atPlaces_zero.2 fun t => by rw [hl t]; rfl
    exact .inl (UInt32.toNat_inj.1 (by rw [ho.runingnum, hz]; rfl))
  · exact .inr ⟨hcb, hr⟩

/-- When the workers have returned: no step of theirs is left, and no task is counted as running. -/
structure Closed (q : Ratio) (s : State n) : Prop where
  still : ∀ t now junk, step q s (.run t now junk) = none
  none : ∀ tid e, s.mapTask.find tid = some e → e.runingnum = 0 ∨ e.cb = 0 ∧ tid ∈ s.removed

/-- **`CloseThreadPool` returns.** Once the flag is cleared, in every run that goes on, whoever adds and removes tasks
meanwhile: each worker takes at most the steps it had left, four at most; at most one callback is started for each worker
that had read the flag and had no task; a worker that has not returned can go on; and when all have, the pool is at
rest. -/
theorem closes (h : (sys q n).Reachable s) (hc : s.runFlag = false) {as : List (Act n)}
    (he : (sys q n).run s as = some s') (hle : s'.added.length ≤ 2 ^ 32) :
    (∀ t, as.countP (runsBy t) ≤ left (s.pc t) ∧ left (s.pc t) ≤ 4) ∧
      (∀ ids, started s' ids ≤ started s ids + atPlaces asking s.pc) ∧
      (∀ t, s'.pc t ≠ .loop → ∀ now junk, step q s' (.run t now junk) ≠ none) ∧
      ((∀ t, s'.pc t = .loop) → Closed q s') := by
  refine ⟨?_, started_le hc he, fun t ht now junk => run_of_not_loop ht now junk, ?_⟩
  · intro t
    have hrun := Sys.run_countP_le (M := sys q n) (P := fun u => u.runFlag = false) (fun u => left (u.pc t))
      (fun u a u' hu _ he => ⟨(closing_step hu he).runFlag, (closing_step hu he).steps t⟩) as hc
      (fun _ _ => trivial) he
    refine ⟨by omega, ?_⟩
    cases s.pc t <;> simp [left]
  · intro hl
    refine ⟨?_, fun tid e hf => (ledger (h.run as he) hle).none_running hl hf⟩
    intro t now junk
    have hf := Sys.run_inv (M := sys q n) (P := fun u => u.runFlag = false)
      (fun u a u' hu he => (closing_step hu he).runFlag) as hc he
    simp [step, hl t, hf]

/-- A worker that has read the flag runs a task to its end; the other one returns. -/
theorem closes_two : ∃ s s' : State 2, (sys double 2).Reachable s ∧ s.runFlag = false ∧ s.starts 0 = 0 ∧
    s'.starts 0 = 1 ∧ (∀ t, s'.pc t = .loop) ∧ Closed double s' := by
  have hs : (sys double 2).Reachable _ := Sys.Reachable.run [.add 1 1 MAX_TRHEAD_RUNTIMES 1 0, .run 0 5 .noJunk, .close]
    (.init rfl) rfl
  have hc := closes hs rfl (show (sys double 2).run _ (runs 0 5 4) = some _ from rfl) (by decide)
  exact ⟨_, _, hs, rfl, rfl, rfl, by decide, hc.2.2.2 (by decide)⟩

end P1Server.ThreadPool
