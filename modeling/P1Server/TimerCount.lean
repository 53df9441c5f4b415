import P1Server.TimerScan

/-!
# How often a timer is executed

`_runcount` is stored by `InitTimer` and never read again.

* `never_atMost` — after any `CreateTimer` the timer can be executed more than `runcount` times: all others are
  suspended, then `ChangeTimerState` and a scan take turns;
* `not_atMost` — a timer to be executed once is executed each time its interval has elapsed.
-/

namespace P1Server.TimerManager
open Lib

def maxTimerRuncount : UInt64 := -1

variable {n : Nat} {s s' : State n} {o : Nat}

/-- The step is a call of the callback of the timer `o`. -/
def executes (o : Nat) (s : State n) : Act n → Bool
  | .run t _ => decide (s.pc t = .selected o)
  | .createTimer .. | .changeTimerState .. => false

/-- How often a run executes the timer `o`. -/
def executions (o : Nat) : State n → List (Act n) → Nat
  | _, [] => 0
  | s, a :: as => (if executes o s a then 1 else 0) + (step s a).elim 0 fun s' => executions o s' as

/-- A scan, the end of an execution, or `ChangeTimerState`. -/
def later : Act n → Bool
  | .createTimer .. => false
  | .changeTimerState .. | .run .. => true

/-- No run executes the timer that `CreateTimer` has created more than `runcount` times. -/
def AtMost (s : State n) (cb lParam : Nat) (interval : UInt32) (runcount : UInt64) : Prop :=
  ∀ as : List (Act n), (∀ a ∈ as, later a = true) →
    executions s.nextObj (s.createTimer cb lParam interval runcount) as ≤ runcount.toNat

/-! ## Runs that execute a timer -/

/-- A run of later steps leads from `s` to `s'` and executes `o` at least `k` times. -/
def Gains (o k : Nat) (s s' : State n) : Prop :=
  ∃ as, (∀ a ∈ as, later a = true) ∧ (sys n).run s as = some s' ∧ k ≤ executions o s as

theorem executions_append : ∀ {s t : State n} {as : List (Act n)} (bs : List (Act n)), (sys n).run s as = some t →
    executions o s (as ++ bs) = executions o s as + executions o t bs
  | _, _, [], bs, h => by
    cases h
    simp [executions]
  | s, t, a :: as, bs, h => by
    obtain ⟨u, hu, h⟩ := Option.bind_eq_some_iff.1 h
    have hstep : step s a = some u := hu
    simp only [List.cons_append, executions, hstep, Option.elim_some, executions_append bs h, Nat.add_assoc]

theorem Gains.trans {j k : Nat} {t u : State n} (h : Gains o j s t) (h' : Gains o k t u) : Gains o (j + k) s u := by
  obtain ⟨as, has, hrun, hj⟩ := h
  obtain ⟨bs, hbs, hrun', hk⟩ := h'
  refine ⟨as ++ bs, ?_, ?_, ?_⟩
  · intro a ha
    exact (List.mem_append.1 ha).elim (has a) (hbs a)
  · rw [Sys.run_append, hrun]
    exact hrun'
  · rw [executions_append bs hrun]
    exact Nat.add_le_add hj hk

theorem Gains.refl (s : State n) : Gains o 0 s s := ⟨[], by simp, rfl, Nat.zero_le _⟩

/-- One step. -/
theorem Gains.step {a : Act n} (ha : later a = true) (h : step s a = some s') : Gains o 0 s s' :=
  ⟨[a], by simpa using ha, by simp [Sys.run, sys, h], Nat.zero_le _⟩

/-- The step that executes it. -/
theorem Gains.execute {t : Fin n} (h : s.pc t = .selected o) : Gains o 1 s (s.goto t .idle) := by
  have hstep : TimerManager.step s (.run t fun _ => 0) = some (s.goto t .idle) := by simp [TimerManager.step, h]
  exact ⟨[.run t fun _ => 0], by simp [later], by simp [Sys.run, sys, hstep], by simp [executions, executes, h]⟩

/-! ## The timer alone -/

theorem find_changeTimerState (s : State n) (id k : UInt32) (st : TimerState) :
    (s.changeTimerState id st).timer.find k =
      if k = id then (s.timer.find k).map fun t => { t with state := st } else s.timer.find k := by
  unfold State.changeTimerState
  split
  case h_1 t ht =>
    simp only [OrdMap.find_set]
    split
    case isTrue hk => simp [hk, ht]
    case isFalse => rfl
  case h_2 hn =>
    split
    case isTrue hk => simp [hk, hn]
    case isFalse => rfl

theorem pc_changeTimerState (s : State n) (id : UInt32) (st : TimerState) : (s.changeTimerState id st).pc = s.pc := by
  unfold State.changeTimerState
  split <;> rfl

/-- The worker is free, and all timers but `o` are suspended. -/
structure Alone (t : Fin n) (id : UInt32) (o : Nat) (s : State n) : Prop where
  idle : s.pc t = .idle
  timer : ∃ u, s.timer.find id = some u ∧ u.obj = o
  others : ∀ k u, k ≠ id → s.timer.find k = some u → u.state = .suspend

theorem gains_idle (s : State n) (t : Fin n) : ∃ s', Gains o 0 s s' ∧ s'.pc t = .idle ∧ s'.timer = s.timer := by
  cases hpc : s.pc t with
  | idle => exact ⟨s, .refl s, hpc, rfl⟩
  | selected o' =>
    have hstep : step s (.run t fun _ => 0) = some (s.goto t .idle) := by simp [TimerManager.step, hpc]
    exact ⟨_, .step rfl hstep, Function.update_self .., rfl⟩

/-- The timers of the list are suspended one after the other. -/
theorem gains_suspend : ∀ (ks : List UInt32) (s : State n), ∃ s', Gains o 0 s s' ∧ s'.pc = s.pc ∧
    ∀ k, s'.timer.find k = if k ∈ ks then (s.timer.find k).map fun t => { t with state := .suspend } else s.timer.find k
  | [], s => ⟨s, .refl s, rfl, by simp⟩
  | k :: ks, s => by
    obtain ⟨s', hg, hpc, hf⟩ := gains_suspend ks (s.changeTimerState k .suspend)
    refine ⟨s', Gains.trans (.step (a := .changeTimerState k .suspend) rfl rfl) hg, ?_, ?_⟩
    · rw [hpc, pc_changeTimerState]
    · intro j
      rw [hf j, find_changeTimerState]
      by_cases hj : j = k <;> by_cases hm : j ∈ ks <;> simp [hj, hm, Function.comp_def]

/-- A scan comes to a timer in `TIMER_RUN` that all others are suspended around. -/
theorem scan_alone {m : Timers} {id : UInt32} {u : CTimer} (hu : m.find id = some u) (hrun : u.state = .run)
    (hothers : ∀ k v, k ≠ id → m.find k = some v → v.state = .suspend) (now : UInt32 → UInt32) :
    ∃ l₁ l₂, m.entries = l₁ ++ (id, u) :: l₂ ∧ scan now m.entries =
      ⟨l₁ ++ (id, { u with state := .wait }) :: l₂, [], some (id, { u with state := .wait }), false⟩ := by
  obtain ⟨l₁, l₂, hl⟩ := List.append_of_mem (OrdMap.mem_entries.2 hu)
  have hsorted := m.sorted
  rw [hl] at hsorted
  have hpass : ∀ f ∈ l₁, removed f = false ∧ due now f = false := by
    intro f hf
    have hlt := (List.pairwise_append.1 hsorted).2.2 f hf _ List.mem_cons_self
    have hs : f.2.state = .suspend := hothers f.1 f.2 (ne_of_lt hlt) (OrdMap.mem_entries.1 (by simp [hl, hf]))
    simp [removed, due, hs]
  have hdue : due now (id, u) = true := by simp [due, hrun]
  have hq : queried now (id, u) = (id, { u with state := .wait }) := by
    simp [queried, CTimer.queryExcuteTimer, hrun]
  refine ⟨l₁, l₂, hl, ?_⟩
  rw [hl, scan_at hpass hdue, hq]

/-- `ChangeTimerState`, a scan and the execution. -/
theorem Alone.round {t : Fin n} {id : UInt32} (h : Alone t id o s) : ∃ s', Gains o 1 s s' ∧ Alone t id o s' := by
  have hf := fun k => find_changeTimerState s id k .run
  have hpc := pc_changeTimerState s id .run
  have hg : Gains o 0 s (s.changeTimerState id .run) := .step (a := .changeTimerState id .run) rfl rfl
  generalize s.changeTimerState id .run = s₁ at hf hpc hg
  obtain ⟨u, hu, hobj, hrun⟩ : ∃ u, s₁.timer.find id = some u ∧ u.obj = o ∧ u.state = .run := by
    obtain ⟨u, hu, hobj⟩ := h.timer
    exact ⟨{ u with state := .run }, by simp [hf, hu], hobj, rfl⟩
  have hothers : ∀ k v, k ≠ id → s₁.timer.find k = some v → v.state = .suspend := fun k v hk hv => by
    rw [hf, if_neg hk] at hv
    exact h.others k v hk hv
  obtain ⟨l₁, l₂, hl, hscan⟩ := scan_alone hu hrun hothers fun _ => 0
  let s₂ := s₁.excuteTimerTask t fun _ => 0
  have hentries : s₂.timer.entries = l₁ ++ (id, { u with state := .wait }) :: l₂ := by
    simp [s₂, State.excuteTimerTask, State.scanned, hscan]
  have hsel : s₂.pc t = .selected o := by simp [s₂, State.excuteTimerTask, hscan, hobj]
  have hstep : step s₁ (.run t fun _ => 0) = some s₂ := by simp [TimerManager.step, hpc, h.idle, s₂]
  refine ⟨s₂.goto t .idle, (hg.trans (.step rfl hstep)).trans (.execute hsel), Function.update_self .., ?_, ?_⟩
  · refine ⟨{ u with state := .wait }, OrdMap.mem_entries.1 ?_, hobj⟩
    show _ ∈ s₂.timer.entries
    simp [hentries]
  · intro k v hk hv
    have hmem : (k, v) ∈ s₂.timer.entries := OrdMap.mem_entries.2 hv
    refine hothers k v hk (OrdMap.mem_entries.1 ?_)
    rw [hentries] at hmem
    rw [hl]
    simpa [hk] using hmem

theorem Alone.rounds {t : Fin n} {id : UInt32} (h : Alone t id o s) (k : Nat) :
    ∃ s', Gains o k s s' ∧ Alone t id o s' := by
  induction k with
  | zero => exact ⟨s, .refl s, h⟩
  | succ k ih =>
    obtain ⟨s₁, hg₁, h₁⟩ := ih
    obtain ⟨s₂, hg₂, h₂⟩ := h₁.round
    exact ⟨s₂, hg₁.trans hg₂, h₂⟩

/-- **`runcount` limits nothing**: any timer that is created can be executed any number of times. -/
theorem never_atMost (s : State (n + 1)) (cb lParam : Nat) (interval : UInt32) (runcount : UInt64) :
    ¬ AtMost s cb lParam interval runcount := by
  let s₁ := s.createTimer cb lParam interval runcount
  let id := s.timerId + 1
  obtain ⟨s₂, hg₂, hpc₂, htimer⟩ := gains_idle s₁ 0
  obtain ⟨s₃, hg₃, hpc₃, hf₃⟩ := gains_suspend (s₂.timer.keys.filter fun k => k ≠ id) s₂
  have hcreated : s₂.timer.find id = some ⟨s.nextObj, id, cb, lParam, interval, runcount, 0, .wait⟩ := by
    rw [htimer]
    exact OrdMap.find_set_self ..
  have hu : s₃.timer.find id = some ⟨s.nextObj, id, cb, lParam, interval, runcount, 0, .wait⟩ := by
    simp [hf₃, hcreated]
  have halone : Alone 0 id s.nextObj s₃ := by
    refine ⟨by rw [hpc₃, hpc₂], ⟨_, hu, rfl⟩, ?_⟩
    intro k v hk hv
    rw [hf₃] at hv
    split at hv
    case isTrue =>
      obtain ⟨w, -, rfl⟩ := Option.map_eq_some_iff.1 hv
      rfl
    case isFalse hnot => exact absurd (List.mem_filter.2 ⟨OrdMap.mem_keys.2 ⟨v, hv⟩, by simpa using hk⟩) hnot
  obtain ⟨s₄, hg₄, -⟩ := halone.rounds (runcount.toNat + 1)
  obtain ⟨as, has, -, hcount⟩ := (hg₂.trans hg₃).trans hg₄
  intro h
  have hle : executions s.nextObj s₁ as ≤ runcount.toNat := h as has
  omega

/-- Once, but executed at both scans that find its interval elapsed. -/
theorem not_atMost : ¬ ∀ (s : State 1) (cb lParam : Nat) (interval : UInt32) (runcount : UInt64),
    runcount ≠ maxTimerRuncount → AtMost s cb lParam interval runcount := by
  intro h
  have twice := h ⟨fun _ => .idle, .empty, 0, 0, []⟩ 1 0 10 1 (by decide)
    [.run 0 fun _ => 100, .run 0 fun _ => 100, .run 0 fun _ => 200, .run 0 fun _ => 200] (by decide)
  exact absurd twice (by decide)

end P1Server.TimerManager
