import P1Server.ThreadPoolLimits

/-!
# The background services

| here | there |
| --- | --- |
| `Service.timerThread`                         | `TimerManager::InitTimerManager` (`TimerManager.cpp:89`) |
| `Service.traceLogThread`                      | `TraceLog::InitIocpTask` (`TraceLog.cpp:68`) |
| `Service.acceptThread`, `Service.sendThread`  | `TCPServer::InitServer` (`TCPServer.cpp:24-25`) |

The services are added to run for good, with `MAX_TRHEAD_RUNTIMES`. `InitTimerManager` gives `MAX_THREAD_RUNNING`
instead, the 32-bit constant that stands for any number of workers: 2³² - 1 runs.

* `neverRunsOut_iff` — the services can be run whenever they have a worker less than they may have, if and only if
  `TimerThread` has been started less often than that;
* `not_neverRunsOut` — the run in which it has not.
-/

namespace P1Server.ThreadPool
open Lib

variable {n : Nat} {q : Ratio} {s s' : State n}

inductive Service
  | timerThread
  | traceLogThread
  | acceptThread
  | sendThread
  deriving DecidableEq

namespace Service

def cb : Service → Ptr
  | timerThread => 1
  | traceLogThread => 2
  | acceptThread => 3
  | sendThread => 4

def runtimes : Service → UInt64
  | timerThread => MAX_THREAD_RUNNING.toUInt64
  | traceLogThread | acceptThread | sendThread => MAX_TRHEAD_RUNTIMES

def mulNum : Service → UInt32
  | timerThread => 2
  | traceLogThread | acceptThread => 1
  | sendThread => 4

/-- `param` is `this`, of the `TimerManager`, the `TraceLog` or a `TCPServer`. -/
def add (v : Service) (param : Ptr) (now : UInt32) : Act n := .add v.cb param v.runtimes v.mulNum now

end Service

/-- Only services are added, of any objects, and nothing is removed. -/
def ServiceRun (_ : State n) : Act n → Prop
  | .add cb param runtimes mulNum _ =>
    param ≠ 0 ∧ ∃ v : Service, cb = v.cb ∧ runtimes = v.runtimes ∧ mulNum = v.mulNum
  | .remove _ => False
  | .close | .run .. => True

/-- Every task has its entry with runs left, and may be run when fewer workers than `mulNum` run it. -/
def NeverRunsOut (s : State n) : Prop :=
  ∀ a ∈ s.added, ∃ e, s.mapTask.find a.tid = some e ∧ e.runtimes ≠ 0 ∧
    (holders s a.tid < a.mulNum.toNat → e.eligible = true)

/-- What was added is a service. -/
structure Services (s : State n) : Prop where
  removed : s.removed = []
  added : ∀ a ∈ s.added, ∃ v : Service, a.cb = v.cb ∧ a.runtimes = v.runtimes

theorem Services.step (h : Services s) {a : Act n} (hv : ServiceRun s a) (he : step q s a = some s') : Services s' := by
  cases move he with
  | quiet hk | start _ _ _ _ hk | skip _ _ hk | record _ _ _ _ _ _ _ hk =>
    exact ⟨hk.removed.trans h.removed, hk.added ▸ h.added⟩
  | add task now ha _ _ _ _ hs =>
    subst hs ha
    obtain ⟨-, v, hcb, hruns, -⟩ := hv
    refine ⟨h.removed, ?_⟩
    intro a ha
    rcases List.mem_append.1 ha with ha | ha
    · exact h.added a ha
    · rw [List.mem_singleton.1 ha]
      exact ⟨v, hcb, hruns⟩
  | erase tid e ha _ _ =>
    subst ha
    exact hv.elim

theorem services (h : (sys q n).Reach ServiceRun s) : Services s := by
  refine Sys.Reach.inv ?_ (fun s a s' hi hv he => hi.step hv he) h
  intro s hs
  subst hs
  exact ⟨rfl, by simp⟩

/-- The entry of a service. -/
theorem own_of_service (h : (sys q n).Reach ServiceRun s) (hle : s.added.length ≤ 2 ^ 32) {a : ThreadTask}
    (ha : a ∈ s.added) : ∃ e, s.mapTask.find a.tid = some e ∧ Own a e (holders s a.tid) (s.starts a.tid) := by
  have hl := ledger h.reachable hle
  have hr := (services h).removed
  obtain ⟨e, hf⟩ := hl.present a ha (by simp [hr])
  rcases hl.entries a.tid e hf with ⟨b, hb, hba, ho⟩ | ⟨-, -, hrem⟩
  · obtain rfl := hl.unique hle hb ha hba
    exact ⟨e, hf, ho⟩
  · simp [hr] at hrem

/-- The runs a service has left. -/
theorem runtimes_ne_zero {a e : ThreadTask} {v : Service} {k m : Nat} (hcb : a.cb = v.cb) (hv : a.runtimes = v.runtimes)
    (ho : Own a e k m) : e.runtimes ≠ 0 ↔ (a.cb = Service.timerThread.cb → m < MAX_THREAD_RUNNING.toNat) := by
  have hruns := ho.runtimes
  rw [hv, RunsLeft] at hruns
  rw [hcb]
  cases v with
  | timerThread =>
    have hm : MAX_THREAD_RUNNING.toUInt64 ≠ MAX_TRHEAD_RUNTIMES := by decide
    have hn : MAX_THREAD_RUNNING.toUInt64.toNat = MAX_THREAD_RUNNING.toNat := rfl
    rw [Service.runtimes, if_neg hm, hn] at hruns
    rw [Ne, ← UInt64.toNat_inj]
    simp
    omega
  | traceLogThread | acceptThread | sendThread =>
    rw [Service.runtimes, if_pos rfl] at hruns
    rw [hruns]
    simp [Service.cb, MAX_TRHEAD_RUNTIMES]

/-- **Services run out when `TimerThread` has been started 2³² - 1 times**, and not before. -/
theorem neverRunsOut_iff (h : (sys q n).Reach ServiceRun s) (hlt : s.added.length < 2 ^ 32 - 1) :
    NeverRunsOut s ↔ ∀ a ∈ s.added, a.cb = Service.timerThread.cb → s.starts a.tid < MAX_THREAD_RUNNING.toNat := by
  refine ⟨fun hn a ha => ?_, fun hs a ha => ?_⟩ <;> obtain ⟨v, hcb, hv⟩ := (services h).added a ha <;>
    obtain ⟨e, hf, ho⟩ := own_of_service h (by omega) ha
  · obtain ⟨e', hf', hne, -⟩ := hn a ha
    rw [hf] at hf'
    cases hf'
    exact (runtimes_ne_zero hcb hv ho).1 hne
  · have hne := (runtimes_ne_zero hcb hv ho).2 (hs a ha)
    refine ⟨e, hf, hne, fun hlt => eligible_iff.2 ⟨?_, ?_⟩⟩
    · rw [ho.runingnum, ho.mulNum]
      exact hlt
    · exact Nat.pos_of_ne_zero fun hz => hne (UInt64.toNat_inj.1 hz)

/-! ## The run to the end -/

theorem selectTid_none {tick : UInt32} {min : q.Val} {tempTid : UInt32} : ∀ {l : List (UInt32 × ThreadTask)},
    (∀ p ∈ l, p.2.eligible = false) → selectTid q tick l min tempTid = tempTid
  | [], _ => rfl
  | (tid, t) :: l, h => by
    have ht : t.eligible = false := h _ List.mem_cons_self
    rw [selectTid, if_neg (by simp [ht])]
    exact selectTid_none fun p hp => h p (List.mem_cons_of_mem _ hp)

/-- The only entry that may be run is found. -/
theorem selectTid_only {tick : UInt32} {min : q.Val} {tempTid tid : UInt32} {e : ThreadTask}
    (hel : e.eligible = true) (hlt : q.lt (e.timeLv q tick) min = true) : ∀ {l : List (UInt32 × ThreadTask)},
    l.Pairwise (fun a b => a.1 < b.1) → (tid, e) ∈ l → (∀ p ∈ l, p.1 ≠ tid → p.2.eligible = false) →
    selectTid q tick l min tempTid = tid
  | [], _, hm, _ => by cases hm
  | (k, f) :: l, hp, hm, ho => by
    obtain ⟨hhd, htl⟩ := List.pairwise_cons.1 hp
    rcases List.mem_cons.1 hm with he | hm
    · cases he
      rw [selectTid, if_pos (by simp [hel, hlt])]
      exact selectTid_none fun p hm => ho p (List.mem_cons_of_mem _ hm) (ne_of_gt (hhd p hm))
    · have hf : f.eligible = false := ho _ List.mem_cons_self (ne_of_lt (hhd _ hm))
      rw [selectTid, if_neg (by simp [hf])]
      exact selectTid_only hel hlt htl hm fun p hm => ho p (List.mem_cons_of_mem _ hm)

theorem getThreadTask_only {m : Tasks} {tick tid : UInt32} {e junk : ThreadTask} (hf : m.find tid = some e)
    (htid : tid ≠ -1) (hel : e.eligible = true) (hlt : q.lt (e.timeLv q tick) q.one = true)
    (ho : ∀ k f, m.find k = some f → k ≠ tid → f.eligible = false) :
    getThreadTask q m tick junk = (e.dispatch, m.set tid e.dispatch) := by
  have hs : selectTid q tick m.entries q.one (-1) = tid :=
    selectTid_only hel hlt m.sorted (OrdMap.mem_entries.2 hf) fun p hp => ho p.1 p.2 (OrdMap.mem_entries.1 hp)
  rw [getThreadTask, hs]
  simp [htid, at_, hf]

/-- `e` has `r` runs left, one worker, and its last run ended at `now`, after no time. -/
structure Ready (e : ThreadTask) (tid : UInt32) (r : Nat) (now : UInt32) : Prop where
  tid : e.tid = tid
  cb : e.cb ≠ 0
  param : e.param ≠ 0
  mulNum : e.mulNum = 2
  runingnum : e.runingnum = 1
  runtime : e.runtime = 1
  lastruntime : e.lastruntime = now
  runtimes : e.runtimes.toNat = r

/-- The worker `t` is free, and of all tasks only `tid` may be run. -/
structure Spinning (s : State n) (t : Fin n) (tid : UInt32) (r : Nat) (now : UInt32) : Prop where
  reach : (sys double n).Reach ServiceRun s
  loop : s.pc t = .loop
  runFlag : s.runFlag = true
  ready : ∃ e, s.mapTask.find tid = some e ∧ Ready e tid r now
  others : ∀ k e, s.mapTask.find k = some e → k ≠ tid → e.eligible = false
  task : tid ∈ s.added.map ThreadTask.tid
  few : s.added.length < 2 ^ 32 - 1

theorem Ready.eligible {e : ThreadTask} {tid now : UInt32} {r : Nat} (h : Ready e tid (r + 1) now) :
    e.eligible = true := by
  refine eligible_iff.2 ⟨?_, ?_⟩
  · rw [h.runingnum, h.mulNum]
    decide
  · rw [h.runtimes]
    exact Nat.succ_pos r

/-- A tick later it has waited for half of the time. -/
theorem Ready.less {e : ThreadTask} {tid now : UInt32} {r : Nat} (h : Ready e tid r now) :
    double.lt (e.timeLv double (now + 1)) double.one = true := by
  have hd : now + 1 - now = 1 := by rw [UInt32.add_comm, UInt32.add_sub_cancel]
  rw [ThreadTask.timeLv, double.lt_one, h.lastruntime, h.runtime, hd]
  decide

theorem Ready.run {e : ThreadTask} {tid now : UInt32} {r : Nat} (h : Ready e tid (r + 1) now) (hr : r < 2 ^ 64 - 2) :
    Ready (e.dispatch.recordRun (now + 1) (now + 1)) tid r (now + 1) := by
  have hne : e.runtimes ≠ MAX_TRHEAD_RUNTIMES := fun he => by
    have hm := h.runtimes
    rw [he] at hm
    have hmax : MAX_TRHEAD_RUNTIMES.toNat = 2 ^ 64 - 1 := rfl
    omega
  have hruns : RunsLeft e.runtimes e.runtimes 0 := by
    rw [RunsLeft, if_neg hne]
    rfl
  have hleft := hruns.dispatch h.eligible
  rw [RunsLeft, if_neg hne, h.runtimes] at hleft
  refine ⟨h.tid, h.cb, h.param, h.mulNum, ?_, if_neg (by simp), rfl, Nat.succ.inj hleft⟩
  simp only [ThreadTask.recordRun, ThreadTask.dispatch, h.runingnum]
  decide

theorem find_set_others {m : Tasks} {tid k : UInt32} {e f : ThreadTask} (hk : k ≠ tid)
    (ho : ∀ k e, m.find k = some e → k ≠ tid → e.eligible = false) (hf : (m.set tid e).find k = some f) :
    f.eligible = false := by
  rw [OrdMap.find_set_ne hk] at hf
  exact ho k f hf hk

theorem reach_run (h : (sys double n).Reach ServiceRun s) (t : Fin n) (now : UInt32)
    (he : step double s (.run t now .noJunk) = some s') : (sys double n).Reach ServiceRun s' :=
  .step h (show ServiceRun s (.run t now .noJunk) from trivial) he

/-- One turn of the worker. -/
theorem Spinning.turn {t : Fin n} {tid now : UInt32} {r : Nat} (h : Spinning s t tid (r + 1) now) (htid : tid ≠ -1)
    (hr : r < 2 ^ 64 - 2) : ∃ s' : State n, Spinning s' t tid r (now + 1) := by
  obtain ⟨e, hf, he⟩ := h.ready
  have hget : getThreadTask double s.mapTask (now + 1) .noJunk = (e.dispatch, s.mapTask.set tid e.dispatch) :=
    getThreadTask_only hf htid he.eligible he.less h.others
  have h1 := reach_run h.reach t (now + 1)
    (show step double s _ = some (s.goto t (.getTick (now + 1))) by simp [step, h.loop, h.runFlag])
  have h2 := reach_run h1 t (now + 1)
    (show step double _ _ = some (s.goto t (.getTask (now + 1) (now + 1))) by simp [step, State.goto])
  have h3 := reach_run h2 t (now + 1)
    (show step double _ _ = some { s.goto t (.running (now + 1) e.dispatch) with
      mapTask := s.mapTask.set tid e.dispatch
      starts := Function.update s.starts tid (s.starts tid + 1) } by
      simp [step, State.goto, State.start, hget, ThreadTask.dispatch, he.cb, he.param, he.tid])
  have h4 := reach_run h3 t (now + 1)
    (show step double _ _ = some { s.goto t (.record (now + 1) (now + 1) e.dispatch) with
      mapTask := s.mapTask.set tid e.dispatch
      starts := Function.update s.starts tid (s.starts tid + 1) } by simp [step, State.goto])
  have hself : at_ (s.mapTask.set tid e.dispatch) tid .noJunk = e.dispatch := by simp [at_]
  have h5 := reach_run h4 t (now + 1)
    (show step double _ _ = some { s.goto t .loop with
      mapTask := (s.mapTask.set tid e.dispatch).set tid (e.dispatch.recordRun (now + 1) (now + 1))
      starts := Function.update s.starts tid (s.starts tid + 1) } by
      simp [step, State.goto, show e.dispatch.tid = tid from he.tid, hself])
  refine ⟨_, h5, ?_, h.runFlag, ⟨_, OrdMap.find_set_self .., he.run hr⟩, ?_, h.task, h.few⟩
  · simp [State.goto]
  · intro k f hk hkt
    exact find_set_others hkt (fun k f hf hk => find_set_others hk h.others hf) hk

/-- Turn by turn, until no run is left. -/
theorem Spinning.exhaust {t : Fin n} {tid : UInt32} (htid : tid ≠ -1) : ∀ {r : Nat} {now : UInt32} {s : State n},
    Spinning s t tid r now → r < 2 ^ 64 - 1 → ∃ (s' : State n) (now' : UInt32), Spinning s' t tid 0 now'
  | 0, now, s, h, _ => ⟨s, now, h⟩
  | r + 1, _, _, h, hr => by
    obtain ⟨s', h'⟩ := h.turn htid (by omega)
    exact h'.exhaust htid (by omega)

/-- The services are added in the order of `P1_Start`; all are run by as many workers as they may be, and one of those of
`TimerThread` comes back. -/
def startUp : List (Act 20) :=
  [Service.timerThread.add 1 10, Service.traceLogThread.add 2 10, Service.acceptThread.add 3 10,
    Service.sendThread.add 3 10] ++
    (([0, 1, 2, 3, 4, 5, 6, 7].flatMap fun t => runs t 10 3) ++ runs 0 10 2)

theorem startUp_service : ∀ a ∈ startUp, ∀ s, ServiceRun s a := by
  have hrun : ∀ (t : Fin 20) (k : Nat), ∀ a ∈ runs t 10 k, ∀ s, ServiceRun s a := fun t k a ha s => by
    rw [List.eq_of_mem_replicate ha]
    trivial
  intro a ha s
  rcases List.mem_append.1 ha with ha | ha
  · have hadd : ∀ (v : Service) (param : Ptr), param ≠ 0 → ServiceRun s (v.add param 10) :=
      fun v param hp => ⟨hp, v, rfl, rfl, rfl⟩
    simp only [List.mem_cons, List.not_mem_nil, or_false] at ha
    rcases ha with rfl | rfl | rfl | rfl <;> exact hadd _ _ (by decide)
  · rcases List.mem_append.1 ha with ha | ha
    · obtain ⟨t, -, ha⟩ := List.mem_flatMap.1 ha
      exact hrun t 3 a ha s
    · exact hrun 0 2 a ha s

theorem spinning_startUp : ∃ s : State 20, Spinning s 0 0 (2 ^ 32 - 3) 10 := by
  have hr : (sys double 20).Reach ServiceRun _ := Sys.Reach.run startUp (.init rfl) startUp_service rfl
  refine ⟨_, hr, rfl, rfl, ⟨_, rfl, rfl, by decide, by decide, rfl, rfl, rfl, rfl, rfl⟩, fun k e hf hk => ?_,
    List.mem_cons_self, by decide⟩
  exact (show ∀ p ∈ (State.mapTask _).entries, p.1 ≠ 0 → p.2.eligible = false by decide) (k, e)
    (OrdMap.mem_entries.2 hf) hk

theorem neverRunsOut_startUp : ∃ s : State 20, (sys double 20).Reach ServiceRun s ∧ s.starts 0 = 2 ∧
    (NeverRunsOut s ↔
      ∀ a ∈ s.added, a.cb = Service.timerThread.cb → s.starts a.tid < MAX_THREAD_RUNNING.toNat) :=
  have hr : (sys double 20).Reach ServiceRun _ := Sys.Reach.run startUp (.init rfl) startUp_service rfl
  ⟨_, hr, rfl, neverRunsOut_iff hr (by decide)⟩

/-- The four services are added, and `TimerThread` is run until it cannot be run any more. -/
theorem not_neverRunsOut : ¬ ∀ s : State 20, (sys double 20).Reach ServiceRun s → s.added.length < 2 ^ 32 - 1 →
    NeverRunsOut s := by
  intro h
  obtain ⟨s, hs⟩ := spinning_startUp
  obtain ⟨s', now, hs'⟩ := hs.exhaust (by decide) (by decide)
  obtain ⟨a, ha, hat⟩ := List.mem_map.1 hs'.task
  obtain ⟨e, hf, hne, -⟩ := h s' hs'.reach hs'.few a ha
  obtain ⟨f, hf', hready⟩ := hs'.ready
  rw [hat, hf'] at hf
  cases hf
  exact hne (UInt64.toNat_inj.1 hready.runtimes)

end P1Server.ThreadPool
