import P1Server.Lib.Sys
import P1Server.Lib.OrdMap
import P1Server.Lib.Double
import P1Server.Lib.Threads

/-!
# `ThreadPool`

| here | there |
| --- | --- |
| `ThreadTask`                   | `CommonLib/ThreadPool.h:11-27`; a default-constructed one has the junk of the place it is in |
| `Pc`                           | a worker in `ThreadCallBack` (`ThreadPool.cpp:13-37`) |
| `getThreadTask`, `selectTid`   | `GetThreadTask` (`:110-144`): the loop, and what is done to the task it has found |
| `recordRun`                    | the end of a run (`:27-32`); `tasks[task.tid]` makes an entry where there is none |
| `Act.add`, `Act.remove`        | `AddThreadTask` (`:74-96`), `RemoveThreadTask` (`:98-108`), called by anyone |
| `Act.close`                    | `CloseThreadPool` (`:60-72`), up to its wait |

`timeLv` is a `double`. The loop is written for any way of computing and comparing quotients, a `Ratio`; `double` is the
one of the code. A label has what `timeGetTime` returns. `added`, `removed` and `starts` are for the statements only.

* `Move`, `move` — what a step does to the tasks.
-/

namespace P1Server.ThreadPool
open Lib

/-- `NULL` is 0. -/
abbrev Ptr := Nat

/-- The value of `runtimes` that is not counted down. -/
def MAX_TRHEAD_RUNTIMES : UInt64 := -1

def MAX_THREAD_RUNNING : UInt32 := -1

/-- How quotients are computed and compared. -/
structure Ratio where
  Val : Type
  one : Val
  div : UInt32 → UInt32 → Val
  lt : Val → Val → Bool
  one_eq : one = div 1 1
  lt_one : ∀ a b, lt (div a b) one = true ↔ a < b
  pos : ∀ {a b c d}, lt (div a b) (div c d) = true → 0 < b
  irrefl : ∀ a b, lt (div a b) (div a b) = false
  trans : ∀ {a b c d e f}, lt (div a b) (div c d) = true → lt (div c d) (div e f) = true →
    lt (div a b) (div e f) = true
  of_not : ∀ {a b c d e f}, lt (div a b) (div e f) = true → lt (div c d) (div e f) = false → 0 < d →
    lt (div a b) (div c d) = true

theorem double_lt {a b c d : UInt32} : decide (a.toFloat * 1.0 / b.toFloat < c.toFloat * 1.0 / d.toFloat) = true ↔
    Separated (a.toNat, b.toNat) (c.toNat, d.toNat) := by
  rw [toFloat_mul_one, toFloat_mul_one, decide_eq_true_iff, toFloat_div_lt]

/-- As in the code, where the dividend is made a `double` by `* 1.0`. -/
def double : Ratio where
  Val := Float
  one := 1.0
  div a b := a.toFloat * 1.0 / b.toFloat
  lt x y := decide (x < y)
  one_eq := by decide +kernel
  lt_one a b := by
    have hone : (1 : UInt32).toFloat * 1.0 / (1 : UInt32).toFloat = 1.0 := by decide +kernel
    have h := double_lt (a := a) (b := b) (c := 1) (d := 1)
    rw [hone] at h
    exact h.trans ((Separated.one_iff (lt_trans b.toNat_lt (by decide))).trans UInt32.lt_iff_toNat_lt.symm)
  pos h := UInt32.lt_iff_toNat_lt.2 (double_lt.1 h).pos.1
  irrefl a b := Bool.eq_false_iff.2 fun h => Separated.irrefl _ (double_lt.1 h)
  trans h h' := double_lt.2 ((double_lt.1 h).trans (double_lt.1 h'))
  of_not {a b c d e f} h hno hpos := by
    have hno' := fun hs => Bool.eq_false_iff.1 hno (double_lt.2 hs)
    exact double_lt.2 ((double_lt.1 h).of_not hno' (UInt32.lt_iff_toNat_lt.1 hpos) (lt_trans c.toNat_lt (by decide)))

/-- As fractions. -/
def exact : Ratio where
  Val := Nat × Nat
  one := (1, 1)
  div a b := (a.toNat, b.toNat)
  lt x y := decide (Below x y)
  one_eq := rfl
  lt_one a b := by
    rw [decide_eq_true_iff, UInt32.lt_iff_toNat_lt]
    simp [Below]
  pos h := UInt32.lt_iff_toNat_lt.2 (of_decide_eq_true h).pos
  irrefl a b := decide_eq_false (Below.irrefl _)
  trans h h' := decide_eq_true ((of_decide_eq_true h).trans (of_decide_eq_true h'))
  of_not h hno hpos :=
    decide_eq_true ((of_decide_eq_true h).of_not (of_decide_eq_false hno) (UInt32.lt_iff_toNat_lt.1 hpos))

structure ThreadTask where
  tid : UInt32
  param : Ptr
  cb : Ptr
  runtimes : UInt64
  mulNum : UInt32
  runingnum : UInt32
  runtime : UInt32
  lastruntime : UInt32
  deriving DecidableEq

/-- Of two quotients one at most is below the other. -/
theorem Ratio.asymm (q : Ratio) {a b c d : UInt32} (h : q.lt (q.div a b) (q.div c d) = true) :
    q.lt (q.div c d) (q.div a b) = false :=
  Bool.eq_false_iff.2 fun h' => Bool.eq_false_iff.1 (q.irrefl a b) (q.trans h h')

namespace ThreadTask

/-- `ThreadTask()`. -/
def fresh (junk : ThreadTask) : ThreadTask := { junk with tid := -1, param := 0, cb := 0 }

/-- Junk that is 0. -/
def noJunk : ThreadTask := ⟨0, 0, 0, 0, 0, 0, 0, 0⟩

/-- The test of `GetThreadTask`. -/
def eligible (t : ThreadTask) : Bool := decide (t.runingnum < t.mulNum) && decide (t.runtimes > 0)

/-- The time since the last run ended, by that time and the length of the last run together. -/
def timeLv (q : Ratio) (t : ThreadTask) (tick : UInt32) : q.Val :=
  q.div (tick - t.lastruntime) (tick - t.lastruntime + t.runtime)

/-- What `GetThreadTask` does to the task it returns. -/
def dispatch (t : ThreadTask) : ThreadTask :=
  { t with
    runingnum := t.runingnum + 1
    runtimes := if t.runtimes ≠ MAX_TRHEAD_RUNTIMES ∧ t.runtimes > 0 then t.runtimes - 1 else t.runtimes }

/-- What the worker does to the task after the callback. -/
def recordRun (t : ThreadTask) (tick endtick : UInt32) : ThreadTask :=
  { t with
    runingnum := if t.runingnum > 0 then t.runingnum - 1 else t.runingnum
    lastruntime := endtick
    runtime := if endtick ≠ tick then endtick - tick else 1 }

end ThreadTask

abbrev Tasks := OrdMap UInt32 ThreadTask

variable (q : Ratio)

/-- The loop of `GetThreadTask`: `tempTid` at its end. -/
def selectTid (tick : UInt32) : List (UInt32 × ThreadTask) → q.Val → UInt32 → UInt32
  | [], _, tempTid => tempTid
  | (tid, t) :: l, min, tempTid =>
    if t.eligible && q.lt (t.timeLv q tick) min then selectTid tick l (t.timeLv q tick) tid
    else selectTid tick l min tempTid

/-- `m[tid]`. -/
def at_ (m : Tasks) (tid : UInt32) (junk : ThreadTask) : ThreadTask := (m.find tid).getD (.fresh junk)

/-- `GetThreadTask`: the task that is returned, and the map. -/
def getThreadTask (m : Tasks) (tick : UInt32) (junk : ThreadTask) : ThreadTask × Tasks :=
  let tempTid := selectTid q tick m.entries q.one (-1)
  if tempTid ≠ -1 then
    let t := (at_ m tempTid junk).dispatch
    (t, m.set tempTid t)
  else (.fresh junk, m)

/-- The next atomic step of a worker. -/
inductive Pc
  | loop
  | getTick (tick : UInt32)
  | getTask (tick now : UInt32)
  | running (tick : UInt32) (task : ThreadTask)
  | record (tick endtick : UInt32) (task : ThreadTask)
  deriving DecidableEq

structure State (n : Nat) where
  pc : Fin n → Pc
  runFlag : Bool
  mapTask : Tasks
  tid : UInt32
  added : List ThreadTask
  removed : List UInt32
  starts : UInt32 → Nat

inductive Act (n : Nat)
  | add (cb param : Ptr) (runtimes : UInt64) (mulNum now : UInt32)
  | remove (tid : UInt32)
  | close
  | run (t : Fin n) (now : UInt32) (junk : ThreadTask)

variable {n : Nat} {q : Ratio} {s s' : State n}

namespace State

def goto (s : State n) (t : Fin n) (p : Pc) : State n := { s with pc := Function.update s.pc t p }

def addThreadTask (s : State n) (task : ThreadTask) : State n :=
  { s with mapTask := s.mapTask.set s.tid task, tid := s.tid + 1, added := s.added ++ [task] }

def removeThreadTask (s : State n) (tid : UInt32) : State n :=
  match s.mapTask.find tid with
  | some _ => { s with mapTask := s.mapTask.erase tid, removed := tid :: s.removed }
  | none => s

/-- The worker has `r` of `GetThreadTask`: it calls the callback, if there is one. -/
def start (s : State n) (t : Fin n) (tick : UInt32) (r : ThreadTask × Tasks) : State n :=
  if r.1.cb ≠ 0 ∧ r.1.param ≠ 0 then
    { s.goto t (.running tick r.1) with
      mapTask := r.2
      starts := Function.update s.starts r.1.tid (s.starts r.1.tid + 1) }
  else { s.goto t .loop with mapTask := r.2 }

end State

def step (q : Ratio) (s : State n) : Act n → Option (State n)
  | .add cb param runtimes mulNum now =>
    if cb = 0 ∨ param = 0 then some s
    else some (s.addThreadTask ⟨s.tid, param, cb, runtimes, mulNum, 0, 1, now⟩)
  | .remove tid => some (s.removeThreadTask tid)
  | .close => some { s with runFlag := false }
  | .run t now junk =>
    match s.pc t with
    | .loop => if s.runFlag then some (s.goto t (.getTick now)) else none
    | .getTick tick => some (s.goto t (.getTask tick now))
    | .getTask tick tick' => some (s.start t tick (getThreadTask q s.mapTask tick' junk))
    | .running tick task => some (s.goto t (.record tick now task))
    | .record tick endtick task =>
      some { s.goto t .loop with
        mapTask := s.mapTask.set task.tid ((at_ s.mapTask task.tid junk).recordRun tick endtick) }

/-- `k` steps of a worker, at one tick. -/
def runs (t : Fin n) (now : UInt32) (k : Nat) : List (Act n) := .replicate k (.run t now .noJunk)

/-- `n` workers after `InitThreadPool`. -/
def sys (q : Ratio) (n : Nat) : Sys (State n) (Act n) where
  init s := s = ⟨fun _ => .loop, true, .empty, 0, [], [], fun _ => 0⟩
  step := step q

/-! ## What a step does to the tasks -/

/-- The task a worker holds: fetched, and its end not recorded yet. -/
def held : Pc → Option ThreadTask
  | .running _ task | .record _ _ task => some task
  | _ => none

/-- The loop finds an entry it may run, if it finds one. -/
theorem selectTid_cases (tick : UInt32) (min : q.Val) (tempTid : UInt32) : ∀ l : List (UInt32 × ThreadTask),
    selectTid q tick l min tempTid = tempTid ∨ ∃ t, (selectTid q tick l min tempTid, t) ∈ l ∧ t.eligible = true
  | [] => .inl rfl
  | (tid, t) :: l => by
    simp only [selectTid]
    split
    case isTrue h =>
      have ht : t.eligible = true := (Bool.and_eq_true_iff.1 h).1
      rcases selectTid_cases tick (t.timeLv q tick) tid l with he | ⟨u, hu, hel⟩
      · exact .inr ⟨t, by rw [he]; exact List.mem_cons_self, ht⟩
      · exact .inr ⟨u, List.mem_cons_of_mem _ hu, hel⟩
    case isFalse =>
      rcases selectTid_cases tick min tempTid l with he | ⟨u, hu, hel⟩
      · exact .inl he
      · exact .inr ⟨u, List.mem_cons_of_mem _ hu, hel⟩

/-- `GetThreadTask` returns an entry that may run, or nothing. -/
theorem getThreadTask_cases (m : Tasks) (tick : UInt32) (junk : ThreadTask) :
    getThreadTask q m tick junk = (.fresh junk, m) ∨ ∃ tid e, m.find tid = some e ∧ e.eligible = true ∧
      getThreadTask q m tick junk = (e.dispatch, m.set tid e.dispatch) := by
  simp only [getThreadTask]
  split
  case isTrue h =>
    rcases selectTid_cases tick q.one (-1) m.entries with he | ⟨e, hm, hel⟩
    · exact absurd he h
    · have hf := OrdMap.mem_entries.1 hm
      exact .inr ⟨_, e, hf, hel, by rw [at_, hf]; rfl⟩
  case isFalse => exact .inl rfl

/-- What only `AddThreadTask` and `RemoveThreadTask` change. -/
structure Frame (s s' : State n) : Prop where
  tid : s'.tid = s.tid
  added : s'.added = s.added
  removed : s'.removed = s.removed

/-- The steps, by what they do to the tasks and to those who hold them. -/
inductive Move (s : State n) (a : Act n) (s' : State n) : Prop
  | quiet (hk : Frame s s') (hp : ∀ u, held (s'.pc u) = held (s.pc u)) (hm : s'.mapTask = s.mapTask)
      (hs : s'.starts = s.starts)
  | add (task : ThreadTask) (now : UInt32) (ha : a = .add task.cb task.param task.runtimes task.mulNum now)
      (hcb : task.cb ≠ 0) (hparam : task.param ≠ 0) (htid : task.tid = s.tid) (hnum : task.runingnum = 0)
      (hs : s' = s.addThreadTask task)
  | erase (tid : UInt32) (e : ThreadTask) (ha : a = .remove tid) (hf : s.mapTask.find tid = some e)
      (hs : s' = { s with mapTask := s.mapTask.erase tid, removed := tid :: s.removed })
  | start (t : Fin n) (tick tid : UInt32) (e : ThreadTask) (hk : Frame s s') (ht : held (s.pc t) = none)
      (hf : s.mapTask.find tid = some e) (hel : e.eligible = true) (hcb : e.cb ≠ 0)
      (hpc : s'.pc = Function.update s.pc t (.running tick e.dispatch)) (hm : s'.mapTask = s.mapTask.set tid e.dispatch)
      (hs : s'.starts = Function.update s.starts e.tid (s.starts e.tid + 1))
  | skip (tid : UInt32) (e : ThreadTask) (hk : Frame s s') (hf : s.mapTask.find tid = some e)
      (hnull : e.cb = 0 ∨ e.param = 0) (hp : ∀ u, held (s'.pc u) = held (s.pc u))
      (hm : s'.mapTask = s.mapTask.set tid e.dispatch) (hs : s'.starts = s.starts)
  | record (t : Fin n) (tick endtick now : UInt32) (task junk : ThreadTask) (ha : a = .run t now junk) (hk : Frame s s')
      (ht : s.pc t = .record tick endtick task) (hpc : s'.pc = Function.update s.pc t .loop)
      (hm : s'.mapTask = s.mapTask.set task.tid ((at_ s.mapTask task.tid junk).recordRun tick endtick))
      (hs : s'.starts = s.starts)

theorem held_goto {t : Fin n} {p : Pc} (hp : held p = held (s.pc t)) (u : Fin n) :
    held (Function.update s.pc t p u) = held (s.pc u) := by
  by_cases hut : u = t
  · rw [hut, Function.update_self, hp]
  · rw [Function.update_of_ne hut]

theorem move_start {t : Fin n} {a : Act n} (ht : held (s.pc t) = none) (tick now : UInt32) (junk : ThreadTask) :
    Move s a (s.start t tick (getThreadTask q s.mapTask now junk)) := by
  have hp := held_goto (s := s) (p := .loop) ht.symm
  rcases getThreadTask_cases (q := q) s.mapTask now junk with he | ⟨tid, e, hf, hel, he⟩ <;> rw [he, State.start]
  · rw [if_neg fun h => h.1 rfl]
    exact .quiet ⟨rfl, rfl, rfl⟩ hp rfl rfl
  · split
    case isTrue h => exact .start t tick tid e ⟨rfl, rfl, rfl⟩ ht hf hel h.1 rfl rfl rfl
    case isFalse h => exact .skip tid e ⟨rfl, rfl, rfl⟩ hf (by by_contra hn; exact h (not_or.1 hn)) hp rfl rfl

theorem move {a : Act n} (he : step q s a = some s') : Move s a s' := by
  cases a with
  | add cb param runtimes mulNum now =>
    simp only [step] at he
    split at he
    case isTrue =>
      cases he
      exact .quiet ⟨rfl, rfl, rfl⟩ (fun _ => rfl) rfl rfl
    case isFalse h =>
      cases he
      exact .add _ now rfl (not_or.1 h).1 (not_or.1 h).2 rfl rfl rfl
  | remove tid =>
    simp only [step, State.removeThreadTask] at he
    cases he
    split
    case h_1 e hf => exact .erase tid e rfl hf rfl
    case h_2 => exact .quiet ⟨rfl, rfl, rfl⟩ (fun _ => rfl) rfl rfl
  | close =>
    cases he
    exact .quiet ⟨rfl, rfl, rfl⟩ (fun _ => rfl) rfl rfl
  | run t now junk =>
    simp only [step] at he
    cases hp : s.pc t with
    | loop =>
      rw [hp] at he
      obtain ⟨-, ⟨⟩⟩ := Option.ite_none_right_eq_some.1 he
      exact .quiet ⟨rfl, rfl, rfl⟩ (held_goto (by rw [hp]; rfl)) rfl rfl
    | getTick | running =>
      rw [hp] at he
      cases he
      exact .quiet ⟨rfl, rfl, rfl⟩ (held_goto (by rw [hp]; rfl)) rfl rfl
    | getTask tick now =>
      rw [hp] at he
      cases he
      exact move_start (by rw [hp]; rfl) ..
    | record tick endtick task =>
      rw [hp] at he
      cases he
      exact .record t tick endtick now task junk rfl ⟨rfl, rfl, rfl⟩ hp rfl rfl rfl

/-- A worker adds nothing and removes nothing. -/
theorem run_frame {t : Fin n} {now : UInt32} {junk : ThreadTask} (he : step q s (.run t now junk) = some s') :
    Frame s s' := by
  cases move he with
  | quiet hk | start _ _ _ _ hk | skip _ _ hk | record _ _ _ _ _ _ _ hk => exact hk
  | add _ _ ha => cases ha
  | erase _ _ ha => cases ha

end P1Server.ThreadPool
