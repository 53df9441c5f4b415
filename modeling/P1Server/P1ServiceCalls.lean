import P1Server.P1ServiceStart

/-!
# Who runs what

The tasks and timers of `P1_Service` have the objects they are called on as bare pointers. A worker holds a copy of
the task, and a run of `TimerThread` a pointer to the timer.

* `ThreadPool.copies`, `TimerManager.selected_lt` — what is held is of a task added, of a timer created;
* `Added` — every task that was added is one of a service on an object that is there, and no two are of the same
  service on the same object;
* `inCall_le` — so the limit of a task is one for the service on the object;
* `timers_reachable` — for the `TimerManager` it is a run like any other;
* **`calls_sound`** — in every state: what is called is there, and how many call it.
-/

namespace P1Server.ThreadPool
open Lib

variable {n : Nat} {q : Ratio} {s s' : State n}

/-- A worker moves itself. -/
theorem run_pc {t u : Fin n} {now : UInt32} {junk : ThreadTask} (he : step q s (.run t now junk) = some s')
    (hu : u ≠ t) : s'.pc u = s.pc u := by
  simp only [step] at he
  cases hp : s.pc t with
  | loop =>
    rw [hp] at he
    obtain ⟨-, ⟨⟩⟩ := Option.ite_none_right_eq_some.1 he
    exact Function.update_of_ne hu ..
  | getTick | running | record =>
    rw [hp] at he
    cases he
    exact Function.update_of_ne hu ..
  | getTask tick tick' =>
    rw [hp] at he
    cases he
    simp only [State.start]
    split <;> exact Function.update_of_ne hu ..

/-- What the workers hold are copies of what was added. -/
def Copies (s : State n) : Prop :=
  ∀ t task, held (s.pc t) = some task → ∃ a ∈ s.added, a.tid = task.tid ∧ a.cb = task.cb ∧ a.param = task.param

theorem Copies.step (h : Copies s) (hl : Ledger s) {a : Act n} (he : step q s a = some s') : Copies s' := by
  cases move he with
  | quiet hk hp _ _ | skip _ _ hk _ _ hp _ _ =>
    intro u task hu
    rw [hk.added]
    exact h u task (hp u ▸ hu)
  | add task now ha hcb hparam htid hnum hs =>
    subst hs
    intro u task hu
    obtain ⟨a, ha, hat⟩ := h u task hu
    exact ⟨a, List.mem_append_left _ ha, hat⟩
  | erase tid e ha hf hs =>
    subst hs
    exact h
  | start t tick tid e hk ht hf hel hcb hpc hm hs =>
    intro u task hu
    rw [hpc] at hu
    rw [hk.added]
    rcases see_update held hu with ⟨-, hu⟩ | ⟨-, hu⟩
    · cases hu
      obtain ⟨a, ha, -, ho⟩ := hl.own hf (.inl hcb)
      exact ⟨a, ha, ho.tid.symm, ho.cb.symm, ho.param.symm⟩
    · exact h u task hu
  | record t tick endtick now task junk ha hk ht hpc hm hs =>
    intro u task hu
    rw [hpc] at hu
    rw [hk.added]
    rcases see_update held hu with ⟨-, hu⟩ | ⟨-, hu⟩
    · cases hu
    · exact h u task hu

theorem copies (h : (sys q n).Reachable s) (hle : s.added.length ≤ 2 ^ 32) : Copies s := by
  revert hle
  refine Sys.Reach.inv_of (I := fun s => s.added.length ≤ 2 ^ 32 → Copies s)
    (J := fun s => s.added.length ≤ 2 ^ 32 → Ledger s) (fun s hs => ledger hs) ?_ ?_ h
  · rintro s rfl - t task ht
    cases ht
  · intro s a s' hj _ hi _ he hle
    have hmono := added_mono he
    exact (hi (by omega)).step (hj (by omega)) he

end P1Server.ThreadPool

namespace P1Server.TimerManager
open Lib

variable {n : Nat} {s s' : State n}

/-- A timer that is being executed has been created. -/
theorem selected_lt (h : (sys n).Reachable s) {t : Fin n} {o : Nat} (ht : s.pc t = .selected o) : o < s.nextObj := by
  revert t o
  refine Sys.Reach.inv_of (I := fun s => ∀ {t o}, s.pc t = .selected o → o < s.nextObj) (fun s hs => owned hs) ?_ ?_ h
  · intro s hs t o ht
    rw [hs.1 t] at ht
    cases ht
  · intro s a s' ho _ hi _ he t o ht
    cases a with
    | createTimer cb lParam interval runcount =>
      cases he
      exact Nat.lt_succ_of_lt (hi ht)
    | changeTimerState timerId state =>
      cases he
      rw [pc_changeTimerState] at ht
      unfold State.changeTimerState
      split <;> exact hi ht
    | run u now =>
      simp only [sys, step] at he
      split at he <;> cases he
      · rcases at_update ht with ⟨-, ht⟩ | ⟨-, ht⟩
        · cases hsel : (scan now s.timer.entries).selected with
          | none =>
            rw [hsel] at ht
            cases ht
          | some p =>
            rw [hsel] at ht
            cases ht
            exact ((ho.scan u now).fresh p.1 p.2 (selected_scanned hsel)).1
        · exact hi ht
      · rcases at_update ht with ⟨-, ht⟩ | ⟨-, ht⟩
        · cases ht
        · exact hi ht

end P1Server.TimerManager

namespace P1Server.P1Service
open Lib
open ThreadPool (Service ThreadTask Ptr double held)
open ConfigManager (ServerInfo CfgFile plainNumber)

variable {n : Nat} {s s' : State n} {getValue : String → Option UInt32} {serverId : Int} {f : CfgFile}

/-- The server is there and listens. -/
def Listens (s : State n) (p : Ptr) : Prop := ∃ port, s.heap.find p = some ⟨some port⟩

/-- What a service may be called on. -/
def Serves (s : State n) : Service → Ptr → Prop
  | .timerThread, p => p = timerManager
  | .traceLogThread, p => p = traceLog
  | .acceptThread, p | .sendThread, p => Listens s p

/-- The worker runs the service on the object. -/
def inCall (v : Service) (p : Ptr) (q : ThreadPool.Pc) : Bool :=
  (held q).any fun task => decide (task.cb = v.cb) && decide (task.param = p)

structure Sound (s : State n) : Prop where
  calls : ∀ t task, held (s.pool.pc t) = some task → ∃ v, task.cb = Service.cb v ∧ Serves s v task.param
  limits : ∀ v p, atPlaces (inCall v p) s.pool.pc ≤ v.mulNum.toNat
  timers : ∀ id e, s.timers.timer.find id = some e → e.cb = heartCheckTimer ∧ Listens s e.lParam
  executed : ∀ t o, s.timers.pc t = .selected o → ∃ id e, s.timers.timer.find id = some e ∧ e.obj = o
  executing : atPlaces (fun q => decide (q ≠ .idle)) s.timers.pc ≤ 2

/-! ## What is called -/

theorem cb_inj {v w : Service} (h : v.cb = w.cb) : v = w := by
  cases v <;> cases w <;> simp [Service.cb] at h ⊢

theorem Pc.tasks_listening {q : Pc} {v : Service} {p : Ptr} (h : (v, p) ∈ q.tasks) :
    (v = .acceptThread ∨ v = .sendThread) ∧ ∃ it, (p, it) ∈ q.listening := by
  cases q with
  | server c p' it rest =>
    cases c with
    | createSocket | listen | acceptThread => simp [Pc.tasks] at h
    | sendThread =>
      cases List.mem_singleton.1 h
      exact ⟨.inl rfl, it, by simp [Pc.listening]⟩
    | createTimer | insert =>
      rcases List.mem_pair.1 h with h | h <;> cases h
      · exact ⟨.inl rfl, it, by simp [Pc.listening]⟩
      · exact ⟨.inr rfl, it, by simp [Pc.listening]⟩
  | _ => simp [Pc.tasks] at h

/-- What is called is there. -/
theorem serves_of_mem (hsv : Servers s) {k : Nat} {v : Service} {p : Ptr} (h : (v, p) ∈ tasks k s) :
    Serves s v p := by
  have hlis : ∀ {it}, (p, it) ∈ s.started ++ s.pc.listening → Listens s p := fun hm => ⟨_, hsv.listening _ hm⟩
  rcases List.mem_append.1 h with h | h
  · rcases List.mem_append.1 h with h | h
    · have h := List.mem_of_mem_take h
      rcases List.mem_pair.1 h with h | h <;> cases h <;> rfl
    · obtain ⟨⟨p', it⟩, hx, h⟩ := List.mem_flatMap.1 h
      rcases List.mem_pair.1 h with h | h <;> cases h <;> exact hlis (List.mem_append_left _ hx)
  · obtain ⟨rfl | rfl, it, hit⟩ := Pc.tasks_listening h <;> exact hlis (List.mem_append_right _ hit)

/-- No task is added twice. -/
theorem tasks_nodup (hsv : Servers s) (k : Nat) : (tasks k s).Nodup := by
  have hcur : s.pc.tasks.Sublist (s.pc.current.flatMap serverTasks) := by
    cases s.pc with
    | server c p it rest => cases c <;> simp [Pc.tasks, Pc.current, serverTasks]
    | _ => simp [Pc.tasks]
  have hsub : (tasks k s).Sublist (singletons ++ (servers s).flatMap serverTasks) := by
    rw [tasks, servers, List.flatMap_append, List.flatMap_map, List.append_assoc]
    exact (List.take_sublist k singletons).append ((List.Sublist.refl _).append hcur)
  refine List.Nodup.sublist hsub (List.Nodup.append (by decide) ?_ ?_)
  · rw [List.nodup_flatMap]
    refine ⟨fun p _ => by simp [serverTasks], ?_⟩
    refine hsv.nodup.imp ?_
    intro p q hne x hp hq
    simp only [serverTasks, List.mem_cons, List.not_mem_nil, or_false] at hp hq
    rcases hp with rfl | rfl <;> simp [hne] at hq
  · rintro ⟨v, p⟩ hs hm
    obtain ⟨q, -, hm⟩ := List.mem_flatMap.1 hm
    rcases List.mem_pair.1 hs with hs | hs <;> cases hs <;> simp [serverTasks] at hm

/-- A task that was added is one of a service that is there; no other has the callback and the object. -/
structure Added (s : State n) : Prop where
  serves : ∀ a ∈ s.pool.added, ∃ v, a.cb = Service.cb v ∧ a.mulNum = v.mulNum ∧ Serves s v a.param
  unique : ∀ a ∈ s.pool.added, ∀ b ∈ s.pool.added, a.cb = b.cb → a.param = b.param → a = b

theorem added_inv (h : (sys getValue serverId f n).Reachable s) : Added s := by
  have hsv := servers_inv h
  obtain ⟨k, -, -, -, hadd, -⟩ := tasks_inv h
  have hmem : ∀ a ∈ s.pool.added, ∃ v p, (v, p) ∈ tasks k s ∧ registered (v, p) = given a := by
    intro a ha
    have hg := List.mem_map_of_mem (f := given) ha
    rw [hadd] at hg
    obtain ⟨⟨v, p⟩, hx, he⟩ := List.mem_map.1 hg
    exact ⟨v, p, hx, he⟩
  refine ⟨?_, ?_⟩
  · intro a ha
    obtain ⟨v, p, hx, he⟩ := hmem a ha
    simp only [registered, given, Prod.mk.injEq] at he
    obtain ⟨hcb, rfl, -, hnum⟩ := he
    exact ⟨v, hcb.symm, hnum.symm, serves_of_mem hsv hx⟩
  · intro a ha b hb hcb hpar
    have hnd : (s.pool.added.map given).Nodup := by
      rw [hadd]
      refine (tasks_nodup hsv k).map ?_
      rintro ⟨v, p⟩ ⟨w, q⟩ he
      simp only [registered, Prod.mk.injEq] at he
      rw [cb_inj he.1, he.2.1]
    refine List.inj_on_of_nodup_map hnd ha hb ?_
    obtain ⟨v, p, -, hv⟩ := hmem a ha
    obtain ⟨w, q, -, hw⟩ := hmem b hb
    rw [← hv, ← hw]
    simp only [registered, given, Prod.mk.injEq] at hv hw ⊢
    obtain rfl := cb_inj (hv.1.trans (hcb.trans hw.1.symm))
    exact ⟨rfl, hv.2.1.trans (hpar.trans hw.2.1.symm), rfl, rfl⟩

/-- **Limits of a service**: how many workers are in it on one object. -/
theorem inCall_le (h : (sys getValue serverId f n).Reachable s) (hle : s.pool.added.length ≤ 2 ^ 32) (v : Service)
    (p : Ptr) : atPlaces (inCall v p) s.pool.pc ≤ v.mulNum.toNat := by
  have hpool := pool_reachable h
  have hadd := added_inv h
  have hcopy : ∀ t, inCall v p (s.pool.pc t) = true → ∃ task a, held (s.pool.pc t) = some task ∧
      a ∈ s.pool.added ∧ a.tid = task.tid ∧ a.cb = v.cb ∧ a.param = p := by
    intro t ht
    obtain ⟨task, htask, hc⟩ := (Option.any_eq_true _ _).1 ht
    simp only [Bool.and_eq_true, decide_eq_true_eq] at hc
    obtain ⟨a, ha, htid, hcb, hpar⟩ := ThreadPool.copies hpool hle t task htask
    exact ⟨task, a, htask, ha, htid, hcb.trans hc.1, hpar.trans hc.2⟩
  by_cases hex : ∃ a ∈ s.pool.added, a.cb = v.cb ∧ a.param = p
  · obtain ⟨a, ha, hcb, hpar⟩ := hex
    obtain ⟨w, hw, hnum, -⟩ := hadd.serves a ha
    obtain rfl := cb_inj (hcb.symm.trans hw)
    rw [← hnum]
    refine le_trans (atPlaces_mono ?_) ((ThreadPool.ledger hpool hle).limits a ha).1
    intro t ht
    obtain ⟨task, b, htask, hb, htid, hbcb, hbpar⟩ := hcopy t ht
    obtain rfl := hadd.unique b hb a ha (hbcb.trans hcb.symm) (hbpar.trans hpar.symm)
    simp [ThreadPool.holds, htask, htid]
  · have hz : atPlaces (inCall v p) s.pool.pc = 0 := by
      rw [atPlaces_zero]
      intro t
      rw [← Bool.not_eq_true]
      intro ht
      obtain ⟨-, a, -, ha, -, hcb, hpar⟩ := hcopy t ht
      exact hex ⟨a, ha, hcb, hpar⟩
    omega

/-! ## Who executes a timer -/

/-- A worker that executes a timer is in `TimerThread`. -/
def InThread (s : State n) : Prop :=
  ∀ t, s.timers.pc t ≠ .idle → ∃ tick task, s.pool.pc t = .running tick task ∧ isTimerThread task = true

theorem InThread.step (h : InThread s) (hsv : Servers s) {a : Act n} (he : step getValue serverId f s a = some s') :
    InThread s' := by
  cases move hsv.apart he with
  | quiet _ _ _ _ hs | new _ _ _ _ _ hs | listen _ _ _ _ hs =>
    subst hs
    exact h
  | singleton _ _ _ _ _ _ _ _ _ hs | task _ _ _ _ _ _ _ _ _ _ _ hs | createTimer _ _ _ _ hs =>
    subst hs
    exact h
  | insert _ _ _ _ hs | delete _ _ hs =>
    subst hs
    exact h
  | run t now junk pool hw hr hpool hs =>
    subst hs
    intro u hu
    obtain ⟨tick, task, hpc, htask⟩ := h u hu
    have hut : u ≠ t := by
      rintro rfl
      simp [State.mayReturn, hpc, htask, hu] at hr
    exact ⟨tick, task, (ThreadPool.run_pc hpool hut).trans hpc, htask⟩
  | timer t now timers hr ht hs =>
    subst hs
    intro u hu
    by_cases hut : u = t
    · subst hut
      simp only [State.mayExcute] at hr
      split at hr
      case h_1 tick task hpc => exact ⟨tick, task, hpc, (Bool.and_eq_true_iff.1 hr).1⟩
      case h_2 => cases hr
    · apply h u
      simp only [TimerManager.step] at ht
      split at ht <;> cases ht
      · simpa [TimerManager.State.excuteTimerTask, Function.update_of_ne hut] using hu
      · simpa [TimerManager.State.goto, Function.update_of_ne hut] using hu

theorem inThread (h : (sys getValue serverId f n).Reachable s) : InThread s := by
  refine Sys.Reach.inv_of (fun s hs => servers_inv hs) ?_ (fun s a s' hsv _ hi _ he => hi.step hsv he) h
  rintro s ⟨m, rfl⟩ t ht
  exact absurd rfl ht

/-- What happens to the `TimerManager` are its own runs. -/
theorem timers_reachable (h : (sys getValue serverId f n).Reachable s) : (TimerManager.sys n).Reachable s.timers := by
  refine Sys.Reachable.project State.timers (fun s hs => servers_inv hs) ?_ ?_ h
  · rintro s ⟨m, rfl⟩
    exact TimerManager.empty_init
  · intro s a s' hsv he
    cases move hsv.apart he with
    | quiet _ _ _ _ hs | new _ _ _ _ _ hs | listen _ _ _ _ hs => exact .inl (by rw [hs])
    | singleton _ _ _ _ _ _ _ _ _ hs | task _ _ _ _ _ _ _ _ _ _ _ hs => exact .inl (by rw [hs])
    | insert _ _ _ _ hs | delete _ _ hs | run _ _ _ _ _ _ _ hs => exact .inl (by rw [hs])
    | createTimer p it rest hp hs =>
      subst hs
      exact .inr ⟨.createTimer heartCheckTimer p 5000 TimerManager.maxTimerRuncount, rfl⟩
    | timer t now timers hr ht hs =>
      subst hs
      exact .inr ⟨.run t now, ht⟩

theorem timed_listens (hsv : Servers s) {p : Ptr} (h : p ∈ timed s) : Listens s p := by
  rcases List.mem_append.1 h with h | h
  · obtain ⟨x, hx, rfl⟩ := List.mem_map.1 h
    exact ⟨_, hsv.listening x (List.mem_append_left _ hx)⟩
  · obtain ⟨it, hit⟩ : ∃ it, (p, it) ∈ s.pc.listening := by
      cases hp : s.pc with
      | server c q it rest =>
        rw [hp] at h
        cases c with
        | insert =>
          cases List.mem_singleton.1 h
          exact ⟨it, List.mem_singleton_self _⟩
        | _ => simp [Pc.timed] at h
      | _ => simp [hp, Pc.timed] at h
    exact ⟨_, hsv.listening _ (List.mem_append_right _ hit)⟩

/-- **What the workers call**, from the first step of `P1_Start` on: services and timers of objects that are there, and
each service by no more workers than it may have. -/
theorem calls_sound (h : (sys getValue serverId f n).Reachable s) (hle : s.pool.added.length ≤ 2 ^ 32) : Sound s := by
  have hsv := servers_inv h
  have htb := table_inv h hle
  have hadd := added_inv h
  have hcalls : ∀ t task, held (s.pool.pc t) = some task → ∃ v, task.cb = Service.cb v ∧ Serves s v task.param := by
    intro t task ht
    obtain ⟨a, ha, -, hcb, hpar⟩ := ThreadPool.copies (pool_reachable h) hle t task ht
    obtain ⟨v, hv, -, hserves⟩ := hadd.serves a ha
    exact ⟨v, hcb.symm.trans hv, hpar ▸ hserves⟩
  refine ⟨hcalls, inCall_le h hle, ?_, ?_, ?_⟩
  · intro id e hf
    obtain ⟨i, p, hp, hst⟩ := htb.entry (OrdMap.mem_entries.2 hf)
    have hcb : e.cb = heartCheckTimer := congrArg (fun e => e.2.cb) hst
    have hpar : e.lParam = p := congrArg (fun e => e.2.lParam) hst
    exact ⟨hcb, hpar ▸ timed_listens hsv (List.mem_of_getElem? hp)⟩
  · intro t o ht
    have hlt := TimerManager.selected_lt (timers_reachable h) ht
    rw [htb.nextObj] at hlt
    have hmem : heartCheck (timed s)[o] o ∈ s.timers.timer.entries.map still := by
      rw [htb.entries]
      exact mem_heartChecks.2 ⟨o, _, List.getElem?_eq_getElem hlt, rfl⟩
    obtain ⟨⟨id, e⟩, he, hst⟩ := List.mem_map.1 hmem
    exact ⟨id, e, OrdMap.mem_entries.1 he, congrArg (fun e => e.2.obj) hst⟩
  · refine le_trans (atPlaces_mono ?_) (inCall_le h hle .timerThread timerManager)
    intro t ht
    obtain ⟨tick, task, hpc, htask⟩ := inThread h t (by simpa using ht)
    have hcb : task.cb = Service.cb .timerThread := by simpa [isTimerThread] using htask
    obtain ⟨v, hv, hserves⟩ := hcalls t task (by rw [hpc]; rfl)
    obtain rfl := cb_inj (hcb.symm.trans hv)
    simp [inCall, hpc, held, hcb, show task.param = timerManager from hserves]

/-- One worker executes the timer of the first server, another one runs its `AcceptThread`; the second server has just
been made. -/
theorem calls_sound_two : ∃ s : State 2, s.timers.pc 0 = .selected 0 ∧ ThreadPool.holds 2 (s.pool.pc 1) = true ∧
    servers s = [10, 11] ∧ Sound s := by
  obtain ⟨s, hrun, hsel, hacc, hserv, hlen⟩ : ∃ s, (sys plainNumber 7 twoServers 2).run (start 2 .empty)
      (.replicate 3 (.start true 5 0) ++ .replicate 3 (.run 0 5 .noJunk) ++ .replicate 6 (.start true 6 0) ++
        .replicate 7 (.start true 8 10) ++ [.start true 9 11] ++ .replicate 3 (.run 1 6000 .noJunk) ++
        [.timer 0 fun _ => 6000]) = some s ∧ s.timers.pc 0 = .selected 0 ∧ ThreadPool.holds 2 (s.pool.pc 1) = true ∧
        servers s = [10, 11] ∧ s.pool.added.length = 4 := Sys.exists_run (by decide +kernel)
  have h0 : (sys plainNumber 7 twoServers 2).Reachable (start 2 .empty) := .init ⟨.empty, rfl⟩
  exact ⟨s, hsel, hacc, hserv, calls_sound (h0.run _ hrun) (by omega)⟩

end P1Server.P1Service
