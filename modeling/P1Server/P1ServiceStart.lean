import P1Server.P1Service
import P1Server.ThreadPoolLimits

/-!
# What `P1_Start` starts

The workers and `P1_Start` go on side by side. What has been made is read off the place of `P1_Start`: `Pc.tasks`,
`Pc.timed`, `Pc.current` and `Pc.listening` are what the server in hand has of it.

* `Servers` — the servers that are there, and `_tcpServers`;
* `Tasks` — what `AddThreadTask` was given, in order;
* `Table` — the timers, which all wait and of which none is deleted;
* `pool_reachable` — for the `ThreadPool` it is a run like any other;
* **`start_returns`** — what there is when `P1_Start` returns, by the place it returns from: all of the configuration, or
  what comes before the step or the server that failed, which is deleted and has left nothing behind;
* **`query_finds`** — `QueryTcpServer` finds just the servers started.
-/

namespace P1Server.P1Service
open Lib
open ThreadPool (Service ThreadTask Ptr double)
open ConfigManager (ServerInfo ServerConfig Cfg CfgFile Ptree parseConfigFile getServerCfg plainNumber)

variable {n : Nat} {s s' : State n} {getValue : String → Option UInt32} {serverId : Int} {f : CfgFile}

/-! ## The servers -/

structure Servers (s : State n) : Prop where
  apart : Apart s
  nodup : (servers s).Nodup
  live : ∀ p, p ∈ servers s ↔ ∃ o, s.heap.find p = some o
  listening : ∀ x ∈ s.started ++ s.pc.listening, s.heap.find x.1 = some ⟨some x.2.uProt⟩
  named : ∀ p txt, s.tcpServers.find p = some txt ↔ ∃ it, (p, it) ∈ s.started ∧ txt = text it.ip it.uProt

theorem Pc.listening_nil {p : Pc} (h : p.current = []) : p.listening = [] := by
  cases p <;> simp [Pc.current, Pc.listening] at h ⊢

/-- What depends on the servers and on the place only. -/
theorem Servers.congr (h : Servers s) (hst : s'.started = s.started) (hheap : s'.heap = s.heap)
    (hmap : s'.tcpServers = s.tcpServers) (hcur : s'.pc.current = s.pc.current)
    (hlis : s'.pc.listening = s.pc.listening) : Servers s' := by
  have hsv : servers s' = servers s := by rw [servers, servers, hst, hcur]
  refine ⟨?_, hsv ▸ h.nodup, ?_, ?_, ?_⟩
  · intro p hp
    exact h.apart p (by rwa [hsv] at hp)
  · rw [hsv, hheap]
    exact h.live
  · rw [hst, hlis, hheap]
    exact h.listening
  · rw [hst, hmap]
    exact h.named

theorem Servers.new (h : Servers s) {addr : Ptr} {it : ServerInfo} {rest : List ServerInfo}
    (hp : s.pc = .loop (it :: rest)) (hu : s.unused addr = true) :
    Servers { s with heap := s.heap.set addr ⟨none⟩, pc := .server .createSocket addr it rest } := by
  simp only [State.unused, Bool.and_eq_true, decide_eq_true_eq, Option.isNone_iff_eq_none] at hu
  obtain ⟨⟨⟨h0, htm⟩, htl⟩, hf⟩ := hu
  have hcur : s.pc.current = [] := by rw [hp]; rfl
  have hsv : servers s = s.started.map Prod.fst := by simp [servers, hcur]
  have hnew : addr ∉ servers s := by simp [h.live, hf]
  refine ⟨?_, ?_, ?_, ?_, h.named⟩
  · intro p hmem
    rcases List.mem_append.1 hmem with hmem | hmem
    · exact h.apart p (List.mem_append_left _ hmem)
    · rw [List.mem_singleton.1 hmem]
      exact ⟨h0, htm, htl⟩
  · have hn := h.nodup
    rw [hsv] at hn hnew
    exact hn.append (List.nodup_singleton addr) (List.disjoint_singleton.2 hnew)
  · intro p
    have hl := h.live p
    rw [hsv] at hl
    simp only [servers, Pc.current, OrdMap.find_set, List.mem_append, List.mem_singleton, hl]
    split <;> simp_all
  · intro x hx
    have hst : x ∈ s.started := by simpa [Pc.listening] using hx
    have hne : x.1 ≠ addr := by
      rintro rfl
      exact hnew (by rw [hsv]; exact List.mem_map_of_mem hst)
    rw [OrdMap.find_set_ne hne]
    exact h.listening x (List.mem_append_left _ hst)

theorem Servers.listen (h : Servers s) {p : Ptr} {it : ServerInfo} {rest : List ServerInfo}
    (hp : s.pc = .server .listen p it rest) :
    Servers { s with heap := s.heap.set p ⟨some it.uProt⟩, pc := .server .acceptThread p it rest } := by
  have hcur : s.pc.current = [p] := by rw [hp]; rfl
  have hsv : servers s = s.started.map Prod.fst ++ [p] := by rw [servers, hcur]
  have hn := h.nodup
  rw [hsv] at hn
  refine ⟨?_, hn, ?_, ?_, h.named⟩
  · intro q hq
    exact h.apart q (by rwa [hsv])
  · intro q
    have hl := h.live q
    rw [hsv] at hl
    simp only [servers, Pc.current, hl, OrdMap.find_set]
    split
    case isTrue hqp => simpa [hqp] using (hl.1 (by simp [hqp]))
    case isFalse => rfl
  · intro x hx
    rw [OrdMap.find_set]
    rcases List.mem_append.1 hx with hx | hx
    · have hne : x.1 ≠ p := by
        rintro rfl
        exact (List.nodup_append.1 hn).2.2 x.1 (List.mem_map_of_mem hx) x.1 (by simp) rfl
      rw [if_neg hne]
      exact h.listening x (List.mem_append_left _ hx)
    · rw [List.mem_singleton.1 hx, if_pos rfl]

theorem Servers.insert (h : Servers s) {p : Ptr} {it : ServerInfo} {rest : List ServerInfo}
    (hp : s.pc = .server .insert p it rest) :
    Servers { s with tcpServers := s.insert p it, started := s.started ++ [(p, it)], pc := .loop rest } := by
  have hcur : s.pc.current = [p] := by rw [hp]; rfl
  have hsv : servers s = s.started.map Prod.fst ++ [p] := by rw [servers, hcur]
  have hn := h.nodup
  rw [hsv] at hn
  have hnew : ∀ j, (p, j) ∉ s.started := fun j hj =>
    (List.nodup_append.1 hn).2.2 p (List.mem_map_of_mem hj) p (by simp) rfl
  have hnone : s.tcpServers.find p = none := by
    cases hf : s.tcpServers.find p with
    | none => rfl
    | some txt =>
      obtain ⟨j, hj, -⟩ := (h.named p txt).1 hf
      exact absurd hj (hnew j)
  refine ⟨?_, by simpa [servers, Pc.current] using hn, ?_, ?_, ?_⟩
  · intro q hq
    exact h.apart q (by rw [hsv]; simpa [servers, Pc.current] using hq)
  · intro q
    have hl := h.live q
    rw [hsv] at hl
    simpa [servers, Pc.current] using hl
  · intro x hx
    refine h.listening x ?_
    simpa [hp, Pc.listening] using hx
  · intro q txt
    simp only [State.insert, hnone, OrdMap.find_set]
    split
    case isTrue hqp =>
      subst hqp
      constructor
      · rintro ⟨⟩
        exact ⟨it, by simp, rfl⟩
      · rintro ⟨j, hj, rfl⟩
        rcases List.mem_append.1 hj with hj | hj
        · exact absurd hj (hnew j)
        · cases List.mem_singleton.1 hj
          rfl
    case isFalse hqp => simp [h.named, hqp]

theorem Servers.delete (h : Servers s) {p : Ptr} (hp : s.pc = .delete p) :
    Servers { s with heap := s.heap.erase p, pc := .returned false } := by
  have hcur : s.pc.current = [p] := by rw [hp]; rfl
  have hsv : servers s = s.started.map Prod.fst ++ [p] := by rw [servers, hcur]
  have hn := h.nodup
  rw [hsv] at hn
  have hnew : ∀ q ∈ s.started.map Prod.fst, q ≠ p := fun q hq =>
    (List.nodup_append.1 hn).2.2 q hq p (by simp)
  refine ⟨?_, by simpa [servers, Pc.current] using (List.nodup_append.1 hn).1, ?_, ?_, h.named⟩
  · intro q hq
    exact h.apart q (List.mem_append_left _ (by simpa [servers, Pc.current] using hq))
  · intro q
    have hl := h.live q
    rw [hsv, List.mem_append, List.mem_singleton] at hl
    simp only [servers, Pc.current, List.append_nil, OrdMap.find_erase]
    split
    case isTrue hqp =>
      subst hqp
      simpa using fun hq => hnew q hq rfl
    case isFalse hqp => simpa [hqp] using hl
  · intro x hx
    have hx : x ∈ s.started := by simpa [Pc.listening] using hx
    rw [OrdMap.find_erase_ne (hnew x.1 (List.mem_map_of_mem hx))]
    exact h.listening x (List.mem_append_left _ hx)

theorem Servers.step (h : Servers s) {a : Act n} (he : step getValue serverId f s a = some s') : Servers s' := by
  cases move h.apart he with
  | quiet q m w hq hs =>
    subst hs
    exact h.congr rfl rfl rfl hq.current hq.listening
  | singleton k v p now q hv hk hq hcur hs =>
    subst hs
    exact h.congr rfl rfl rfl (hcur.2.trans hcur.1.symm)
      ((Pc.listening_nil hcur.2).trans (Pc.listening_nil hcur.1).symm)
  | new addr it rest hp hu hs =>
    subst hs
    exact h.new hp hu
  | listen p it rest hp hs =>
    subst hs
    exact h.listen hp
  | task v now c c' p it rest hp hv hl ht hs =>
    subst hs
    exact h.congr rfl rfl rfl (by rw [hp]; rfl) (hl.2.trans hl.1.symm)
  | createTimer p it rest hp hs =>
    subst hs
    exact h.congr rfl rfl rfl (by rw [hp]; rfl) (by rw [hp]; rfl)
  | insert p it rest hp hs =>
    subst hs
    exact h.insert hp
  | delete p hp hs =>
    subst hs
    exact h.delete hp
  | run t now junk pool hw hr hpool hs =>
    subst hs
    exact h.congr rfl rfl rfl rfl rfl
  | timer t now timers hr ht hs =>
    subst hs
    exact h.congr rfl rfl rfl rfl rfl

theorem servers_inv (h : (sys getValue serverId f n).Reachable s) : Servers s := by
  refine Sys.Reachable.inv ?_ (fun s a s' hi he => hi.step he) h
  rintro s ⟨m, rfl⟩
  refine ⟨?_, ?_, ?_, ?_, ?_⟩ <;> simp [Apart, servers, start, Pc.current, Pc.listening]


/-! ## The tasks -/

/-- What `AddThreadTask` was given. -/
def given (a : ThreadTask) : Ptr × Ptr × UInt64 × UInt32 := (a.cb, a.param, a.runtimes, a.mulNum)

def registered (x : Service × Ptr) : Ptr × Ptr × UInt64 × UInt32 := (x.1.cb, x.2, x.1.runtimes, x.1.mulNum)

/-- The tasks of the first `k` singletons, and those of the servers. -/
def tasks (k : Nat) (s : State n) : List (Service × Ptr) :=
  singletons.take k ++ (s.started.flatMap fun x => serverTasks x.1) ++ s.pc.tasks

def Tasks (s : State n) : Prop :=
  ∃ k ≤ 2, (∀ j ∈ s.pc.singletons, k = j) ∧ (k < 2 → s.started = []) ∧
    s.pool.added.map given = (tasks k s).map registered ∧ s.pool.removed = []

theorem Pc.tasks_nil {p : Pc} (h : p.current = []) : p.tasks = [] := by
  cases p <;> simp [Pc.current, Pc.tasks] at h ⊢

theorem Pc.timed_nil {p : Pc} (h : p.current = []) : p.timed = [] := by
  cases p <;> simp [Pc.current, Pc.timed] at h ⊢

theorem Tasks.congr (h : Tasks s) (hk : s'.pc.singletons = s.pc.singletons ∨ s'.pc.singletons = none)
    (hst : s'.started = s.started) (ht : s'.pc.tasks = s.pc.tasks) (ha : s'.pool.added = s.pool.added)
    (hr : s'.pool.removed = s.pool.removed) : Tasks s' := by
  obtain ⟨k, hle, hpc, hs, hadd, hrem⟩ := h
  refine ⟨k, hle, ?_, by rwa [hst], ?_, hr.trans hrem⟩
  · rcases hk with hk | hk <;> rw [hk]
    · exact hpc
    · simp
  · rw [ha, hadd, tasks, tasks, hst, ht]

theorem Tasks.singleton (h : Tasks s) {k : Nat} {v : Service} {p : Ptr} {now : UInt32} {q : Pc}
    (hv : singletons[k]? = some (v, p)) (hk : s.pc.singletons = some k) (hq : q.singletons = some (k + 1))
    (hcur : s.pc.current = [] ∧ q.current = []) :
    Tasks { s with
      pool := s.pool.addThreadTask ⟨s.pool.tid, p, v.cb, v.runtimes, v.mulNum, 0, 1, now⟩, pc := q } := by
  obtain ⟨j, -, hpc, hs, hadd, hrem⟩ := h
  obtain rfl := hpc k (by rw [hk]; rfl)
  have hlt : j < 2 := (List.getElem?_eq_some_iff.1 hv).1
  refine ⟨j + 1, hlt, ?_, fun _ => hs hlt, ?_, hrem⟩
  · simp [hq]
  · simp only [ThreadPool.State.addThreadTask, List.map_append, hadd]
    simp [tasks, hs hlt, Pc.tasks_nil hcur.1, Pc.tasks_nil hcur.2, List.take_add_one, hv, given, registered]

theorem Tasks.task (h : Tasks s) {v : Service} {now : UInt32} {c c' : InitPc} {p : Ptr} {it : ServerInfo}
    {rest : List ServerInfo} (hp : s.pc = .server c p it rest)
    (hv : (Pc.server c' p it rest).tasks = s.pc.tasks ++ [(v, p)]) :
    Tasks { s with
      pool := s.pool.addThreadTask ⟨s.pool.tid, p, v.cb, v.runtimes, v.mulNum, 0, 1, now⟩
      pc := .server c' p it rest } := by
  obtain ⟨k, hle, hpc, hs, hadd, hrem⟩ := h
  refine ⟨k, hle, ?_, hs, ?_, hrem⟩
  · simpa [hp, Pc.singletons] using hpc
  · simp only [ThreadPool.State.addThreadTask, List.map_append, hadd, tasks, hv]
    simp [given, registered]

theorem Tasks.step (h : Tasks s) (hsv : Servers s) {a : Act n} (he : step getValue serverId f s a = some s') :
    Tasks s' := by
  cases move hsv.apart he with
  | quiet q m w hq hs =>
    subst hs
    refine h.congr ?_ rfl hq.tasks rfl rfl
    rcases hq.singletons with hk | rfl
    · exact .inl hk
    · exact .inr rfl
  | singleton k v p now q hv hk hq hcur hs =>
    subst hs
    exact h.singleton hv hk hq hcur
  | new addr it rest hp hu hs =>
    subst hs
    exact h.congr (.inl (by rw [hp]; rfl)) rfl (by rw [hp]; rfl) rfl rfl
  | listen p it rest hp hs =>
    subst hs
    exact h.congr (.inl (by rw [hp]; rfl)) rfl (by rw [hp]; rfl) rfl rfl
  | task v now c c' p it rest hp hv hl ht hs =>
    subst hs
    exact h.task hp hv
  | createTimer p it rest hp hs =>
    subst hs
    exact h.congr (.inl (by rw [hp]; rfl)) rfl (by rw [hp]; rfl) rfl rfl
  | insert p it rest hp hs =>
    subst hs
    obtain ⟨k, hle, hpc, -, hadd, hrem⟩ := h
    obtain rfl := hpc 2 (by rw [hp]; rfl)
    refine ⟨2, hle, by simp [Pc.singletons], by simp, ?_, hrem⟩
    rw [hadd]
    simp [tasks, hp, Pc.tasks]
  | delete p hp hs =>
    subst hs
    exact h.congr (.inr rfl) rfl (by rw [hp]; rfl) rfl rfl
  | run t now junk pool hw hr hpool hs =>
    subst hs
    exact h.congr (.inl rfl) rfl rfl (ThreadPool.run_frame hpool).added (ThreadPool.run_frame hpool).removed
  | timer t now timers hr ht hs =>
    subst hs
    exact h.congr (.inl rfl) rfl rfl rfl rfl

theorem tasks_inv (h : (sys getValue serverId f n).Reachable s) : Tasks s := by
  refine Sys.Reach.inv_of (fun s hs => servers_inv hs) ?_ (fun s a s' hsv _ hi _ he => hi.step hsv he) h
  rintro s ⟨m, rfl⟩
  refine ⟨0, by omega, ?_, ?_, ?_, rfl⟩ <;> simp [start, Pc.singletons, tasks, Pc.tasks]

/-! ## The timers -/

/-- The servers that have their timer. -/
def timed (s : State n) : List Ptr := s.started.map Prod.fst ++ s.pc.timed

/-- The timer, and not when it was last executed. -/
def still (e : UInt32 × TimerManager.CTimer) : UInt32 × TimerManager.CTimer := (e.1, { e.2 with lastExcuteTime := 0 })

/-- The timer of the server `p`, the `i`-th that has one. -/
def heartCheck (p : Ptr) (i : Nat) : UInt32 × TimerManager.CTimer :=
  (UInt32.ofNat (i + 1), ⟨i, UInt32.ofNat (i + 1), heartCheckTimer, p, 5000, TimerManager.maxTimerRuncount, 0, .wait⟩)

def heartChecks (l : List Ptr) : List (UInt32 × TimerManager.CTimer) := l.zipIdx.map fun x => heartCheck x.1 x.2

structure Table (s : State n) : Prop where
  entries : s.timers.timer.entries.map still = heartChecks (timed s)
  timerId : s.timers.timerId = UInt32.ofNat (timed s).length
  nextObj : s.timers.nextObj = (timed s).length
  deleted : s.timers.deleted = []

theorem Table.congr (h : Table s) (hst : s'.started = s.started) (ht : s'.pc.timed = s.pc.timed)
    (hti : s'.timers = s.timers) : Table s' := by
  have htm : timed s' = timed s := by rw [timed, timed, hst, ht]
  refine ⟨?_, ?_, ?_, ?_⟩ <;> rw [hti]
  · rw [htm, h.entries]
  · rw [htm, h.timerId]
  · rw [htm, h.nextObj]
  · exact h.deleted

theorem mem_heartChecks {l : List Ptr} {e : UInt32 × TimerManager.CTimer} :
    e ∈ heartChecks l ↔ ∃ i p, l[i]? = some p ∧ e = heartCheck p i := by
  simp only [heartChecks, List.mem_map, Prod.exists, List.mk_mem_zipIdx_iff_getElem?]
  constructor
  · rintro ⟨p, i, hp, rfl⟩
    exact ⟨i, p, hp, rfl⟩
  · rintro ⟨i, p, hp, rfl⟩
    exact ⟨p, i, hp, rfl⟩

theorem heartChecks_append (l : List Ptr) (p : Ptr) :
    heartChecks (l ++ [p]) = heartChecks l ++ [heartCheck p l.length] := by
  simp [heartChecks, List.zipIdx_append]

/-- An entry is the timer of a server. -/
theorem Table.entry (h : Table s) {e : UInt32 × TimerManager.CTimer} (he : e ∈ s.timers.timer.entries) :
    ∃ i p, (timed s)[i]? = some p ∧ still e = heartCheck p i := by
  apply mem_heartChecks.1
  rw [← h.entries]
  exact List.mem_map_of_mem he

theorem Table.wait (h : Table s) {e : UInt32 × TimerManager.CTimer} (he : e ∈ s.timers.timer.entries) :
    e.2.state = .wait := by
  obtain ⟨i, p, -, hs⟩ := h.entry he
  exact congrArg (fun e => e.2.state) hs

theorem query_wait {t : TimerManager.CTimer} (h : t.state = .wait) (tick : UInt32) :
    (t.queryExcuteTimer tick).1 ≠ .remove ∧ still (k, (t.queryExcuteTimer tick).2) = still (k, t) := by
  unfold TimerManager.CTimer.queryExcuteTimer
  rw [h]
  simp only
  split <;> simp [still, h]

/-- A scan of timers that wait deletes none and changes when one was executed. -/
theorem scan_wait {now : UInt32 → UInt32} {l : List (UInt32 × TimerManager.CTimer)} (h : ∀ e ∈ l, e.2.state = .wait) :
    (TimerManager.scan now l).timers.map still = l.map still ∧ (TimerManager.scan now l).deleted = [] := by
  fun_induction TimerManager.scan now l with
  | case1 => exact ⟨rfl, rfl⟩
  | case2 id t l t' hq =>
    have hs := (query_wait (k := id) (h (id, t) List.mem_cons_self) (now id)).2
    rw [hq] at hs
    exact ⟨by simp [hs], rfl⟩
  | case3 id t t' hq =>
    have hs := (query_wait (k := id) (h (id, t) List.mem_cons_self) (now id)).1
    rw [hq] at hs
    exact absurd rfl hs
  | case4 id t t' hq e l r ih =>
    have hs := (query_wait (k := id) (h (id, t) List.mem_cons_self) (now id)).1
    rw [hq] at hs
    exact absurd rfl hs
  | case5 id t l st t' hne1 hne2 hq r ih =>
    have hs := (query_wait (k := id) (h (id, t) List.mem_cons_self) (now id)).2
    rw [hq] at hs
    obtain ⟨ht, hd⟩ := ih fun e he => h e (List.mem_cons_of_mem _ he)
    exact ⟨by simp [hs, ht, r], hd⟩

theorem Table.excute (h : Table s) {t : Fin n} {now : UInt32 → UInt32} {timers : TimerManager.State n}
    (he : TimerManager.step s.timers (.run t now) = some timers) (excuted : Fin n → Bool) :
    Table { s with timers, excuted } := by
  simp only [TimerManager.step] at he
  split at he <;> cases he
  · have hwait : ∀ e ∈ s.timers.timer.entries, e.2.state = .wait := fun e he => h.wait he
    obtain ⟨ht, hd⟩ : (TimerManager.scan now s.timers.timer.entries).timers.map still = _ ∧ _ = [] := scan_wait hwait
    refine ⟨ht.trans h.entries, h.timerId, h.nextObj, ?_⟩
    simp [TimerManager.State.excuteTimerTask, h.deleted, hd]
  · exact ⟨h.entries, h.timerId, h.nextObj, h.deleted⟩

theorem Table.create (h : Table s) {p : Ptr} {it : ServerInfo} {rest : List ServerInfo}
    (hp : s.pc = .server .createTimer p it rest) (hlt : s.started.length + 1 < 2 ^ 32) :
    Table { s with
      timers := s.timers.createTimer heartCheckTimer p 5000 TimerManager.maxTimerRuncount
      pc := .server .insert p it rest } := by
  have htm : timed s = s.started.map Prod.fst := by simp [timed, hp, Pc.timed]
  have hlen : (timed s).length = s.started.length := by simp [htm]
  have hobj : s.timers.nextObj = s.started.length := h.nextObj.trans hlen
  have hid : s.timers.timerId + 1 = UInt32.ofNat (s.started.length + 1) := by
    rw [h.timerId, hlen, UInt32.ofNat_add]
    rfl
  have hlast : ∀ e ∈ s.timers.timer.entries, e.1 < s.timers.timerId + 1 := by
    intro e he
    obtain ⟨i, q, hq, hs⟩ := h.entry he
    have hi := (List.getElem?_eq_some_iff.1 hq).1
    have hk : e.1 = UInt32.ofNat (i + 1) := congrArg Prod.fst hs
    have hsize : s.started.length + 1 < UInt32.size := hlt
    rw [hk, hid, UInt32.lt_iff_toNat_lt, UInt32.toNat_ofNat_of_lt' (by omega), UInt32.toNat_ofNat_of_lt' hsize]
    omega
  refine ⟨?_, ?_, ?_, h.deleted⟩
  · simp only [TimerManager.State.createTimer, OrdMap.entries_set_last hlast, List.map_append, h.entries, htm]
    show _ = heartChecks (s.started.map Prod.fst ++ [p])
    simp [heartChecks_append, still, heartCheck, hid, hobj]
  · simp [TimerManager.State.createTimer, hid, timed, Pc.timed]
  · simp [TimerManager.State.createTimer, hobj, timed, Pc.timed]

theorem Table.step (h : Table s) (hsv : Servers s) (hta : Tasks s) {a : Act n} (hle : s.pool.added.length ≤ 2 ^ 32)
    (he : step getValue serverId f s a = some s') : Table s' := by
  cases move hsv.apart he with
  | quiet q m w hq hs =>
    subst hs
    exact h.congr rfl hq.timed rfl
  | singleton k v p now q hv hk hq hcur hs =>
    subst hs
    exact h.congr rfl ((Pc.timed_nil hcur.2).trans (Pc.timed_nil hcur.1).symm) rfl
  | new addr it rest hp hu hs =>
    subst hs
    exact h.congr rfl (by rw [hp]; rfl) rfl
  | listen p it rest hp hs =>
    subst hs
    exact h.congr rfl (by rw [hp]; rfl) rfl
  | task v now c c' p it rest hp hv hl ht hs =>
    subst hs
    exact h.congr rfl (ht.2.trans ht.1.symm) rfl
  | createTimer p it rest hp hs =>
    subst hs
    refine h.create hp ?_
    -- four more tasks than two for each server
    obtain ⟨k, hk, hpc, -, hadd, -⟩ := hta
    obtain rfl := hpc 2 (by rw [hp]; rfl)
    have hlen := congrArg List.length hadd
    simp [tasks, singletons, hp, Pc.tasks, serverTasks, List.length_flatMap] at hlen
    omega
  | insert p it rest hp hs =>
    subst hs
    have htm : timed { s with tcpServers := s.insert p it, started := s.started ++ [(p, it)], pc := .loop rest } =
        timed s := by simp [timed, hp, Pc.timed]
    exact ⟨htm ▸ h.entries, htm ▸ h.timerId, htm ▸ h.nextObj, h.deleted⟩
  | delete p hp hs =>
    subst hs
    exact h.congr rfl (by rw [hp]; rfl) rfl
  | run t now junk pool hw hr hpool hs =>
    subst hs
    exact h.congr rfl rfl rfl
  | timer t now timers hr ht hs =>
    subst hs
    exact h.excute ht _

theorem added_mono {a : Act n} (hsv : Servers s) (he : step getValue serverId f s a = some s') :
    s.pool.added.length ≤ s'.pool.added.length := by
  cases move hsv.apart he with
  | run t now junk pool hw hr hpool hs => rw [hs, (ThreadPool.run_frame hpool).added]
  | singleton _ _ _ _ _ _ _ _ _ hs | task _ _ _ _ _ _ _ _ _ _ _ hs => simp [hs, ThreadPool.State.addThreadTask]
  | quiet _ _ _ _ hs | new _ _ _ _ _ hs | listen _ _ _ _ hs => rw [hs]
  | createTimer _ _ _ _ hs | insert _ _ _ _ hs | delete _ _ hs | timer _ _ _ _ _ hs => rw [hs]

theorem table_inv (h : (sys getValue serverId f n).Reachable s) (hle : s.pool.added.length ≤ 2 ^ 32) : Table s := by
  revert hle
  refine Sys.Reach.inv_of (I := fun s => s.pool.added.length ≤ 2 ^ 32 → Table s) (J := fun s => Servers s ∧ Tasks s)
    (fun s hs => ⟨servers_inv hs, tasks_inv hs⟩) ?_ ?_ h
  · rintro s ⟨m, rfl⟩ -
    refine ⟨?_, ?_, ?_, ?_⟩ <;> simp [start, TimerManager.empty, timed, Pc.timed, heartChecks, OrdMap.empty]
  · intro s a s' hj _ hi _ he hle
    have hmono := added_mono hj.1 he
    exact (hi (by omega)).step hj.1 hj.2 (by omega) he

/-! ## The configuration -/

/-- The configuration has the servers started, and then those that are left. -/
def Left (s : State n) (left : List ServerInfo) : Prop :=
  ∃ c, getServerCfg s.cfg = some c ∧ c.tcpServer = s.started.map Prod.snd ++ left

def Configured (s : State n) : Prop :=
  match s.pc with
  | .loop rest => Left s rest
  | .server _ _ it rest => Left s (it :: rest)
  | .delete _ => ∃ it rest, Left s (it :: rest)
  | .returned true => Left s []
  | .returned false => s.started = [] ∨ ∃ it rest, Left s (it :: rest)
  | _ => s.started = []

theorem Configured.initServer {ok : Bool} {now : UInt32} {c : InitPc} {p : Ptr} {it : ServerInfo}
    {rest : List ServerInfo} (h : Left s (it :: rest)) (h0 : p ≠ 0) (he : initServer s ok now p it rest c = some s') :
    Configured s' := by
  cases c with
  | createSocket =>
    cases he
    cases ok with
    | true => exact h
    | false => exact ⟨it, rest, h⟩
  | listen =>
    cases ok with
    | true =>
      cases he
      exact h
    | false =>
      cases he
      exact ⟨it, rest, h⟩
  | acceptThread | sendThread =>
    rw [P1Service.initServer, addThreadTask_eq _ h0] at he
    cases he
    exact h
  | createTimer =>
    cases he
    exact h
  | insert =>
    cases he
    obtain ⟨c, hc, hl⟩ := h
    exact ⟨c, hc, by simp [hl]⟩

theorem Configured.step (h : Configured s) (hsv : Servers s) {a : Act n}
    (he : step getValue serverId f s a = some s') : Configured s' := by
  cases a with
  | start ok now addr =>
    simp only [P1Service.step, p1_Start] at he
    unfold Configured at h
    cases hp : s.pc with
    | parseConfigFile =>
      rw [hp] at he h
      cases he
      by_cases hr : (parseConfigFile getValue s.cfg serverId f).1 = true
      · simpa [Configured, hr] using h
      · simp only [Configured, if_neg hr]
        exact .inl h
    | initThreadPool =>
      rw [hp] at he h
      cases he
      exact h
    | initService | createFile | registerHandle | wsaStartup =>
      rw [hp] at he h
      cases he
      cases ok with
      | true => exact h
      | false => exact .inl h
    | initTimerManager | traceLogThread =>
      rw [hp] at he h
      simp only at he
      rw [addThreadTask_eq _ (by decide)] at he
      cases he
      exact h
    | getServerCfg =>
      rw [hp] at he h
      simp only at he h
      split at he
      case h_1 c hc =>
        cases he
        exact ⟨c, hc, by simp [State.goto, h]⟩
      case h_2 =>
        cases he
        exact .inl h
    | loop rest =>
      rw [hp] at he h
      cases rest with
      | nil =>
        cases he
        exact h
      | cons it rest =>
        obtain ⟨-, ⟨⟩⟩ := Option.ite_none_right_eq_some.1 he
        exact h
    | server c p it rest =>
      rw [hp] at he h
      exact .initServer h (hsv.apart p (by simp [servers, hp, Pc.current])).1 he
    | delete p =>
      rw [hp] at he h
      cases he
      exact .inr h
    | returned rst =>
      rw [hp] at he
      cases he
  | run t now junk =>
    simp only [P1Service.step] at he
    obtain ⟨-, he⟩ := Option.ite_none_right_eq_some.1 he
    obtain ⟨pool, -, rfl⟩ := Option.map_eq_some_iff.1 he
    exact h
  | timer t now =>
    simp only [P1Service.step] at he
    obtain ⟨-, he⟩ := Option.ite_none_right_eq_some.1 he
    obtain ⟨timers, -, rfl⟩ := Option.map_eq_some_iff.1 he
    exact h

theorem configured (h : (sys getValue serverId f n).Reachable s) : Configured s := by
  refine Sys.Reach.inv_of (fun s hs => servers_inv hs) ?_ (fun s a s' hsv _ hi _ he => hi.step hsv he) h
  rintro s ⟨m, rfl⟩
  rfl

/-! ## The components -/

/-- What happens to the `ThreadPool` are its own runs. -/
theorem pool_reachable (h : (sys getValue serverId f n).Reachable s) : (ThreadPool.sys double n).Reachable s.pool := by
  refine Sys.Reachable.project State.pool (fun s hs => servers_inv hs) ?_ ?_ h
  · rintro s ⟨m, rfl⟩
    rfl
  · intro s a s' hsv he
    have hadd : ∀ {v : Service} {p : Ptr} (now : UInt32), p ≠ 0 → ∃ b, ThreadPool.step double s.pool b =
        some (s.pool.addThreadTask ⟨s.pool.tid, p, v.cb, v.runtimes, v.mulNum, 0, 1, now⟩) := fun {v p} now hp =>
      ⟨.add v.cb p v.runtimes v.mulNum now, by simp [ThreadPool.step, cb_ne_zero v, hp]⟩
    cases move hsv.apart he with
    | quiet _ _ _ _ hs | new _ _ _ _ _ hs | listen _ _ _ _ hs => exact .inl (by rw [hs])
    | createTimer _ _ _ _ hs | insert _ _ _ _ hs | delete _ _ hs | timer _ _ _ _ _ hs => exact .inl (by rw [hs])
    | singleton k v p now q hv hk hq hcur hs =>
      subst hs
      refine .inr (hadd now ?_)
      rcases List.mem_pair.1 (List.mem_of_getElem? hv) with hv | hv <;> cases hv <;> decide
    | task v now c c' p it rest hp hv hl ht hs =>
      subst hs
      exact .inr (hadd now (hsv.apart p (by simp [servers, hp, Pc.current])).1)
    | run t now junk pool hw hr hpool hs =>
      subst hs
      exact .inr ⟨.run t now junk, hpool⟩

/-! ## What has been started -/

/-- The entry of a task of the `ThreadPool`. -/
def Runs (x : Service × Ptr) (e : ThreadTask) : Prop := e.cb = x.1.cb ∧ e.param = x.2 ∧ e.mulNum = x.1.mulNum

/-- The tasks of the `ThreadPool` are those of the list, in order. -/
structure Running (s : State n) (l : List (Service × Ptr)) : Prop where
  present : ∀ i x, l[i]? = some x → ∃ e, s.pool.mapTask.find (.ofNat i) = some e ∧ Runs x e
  only : ∀ tid e, s.pool.mapTask.find tid = some e → ∃ i x, l[i]? = some x ∧ tid = .ofNat i ∧ Runs x e

theorem running {l : List (Service × Ptr)} (hl : ThreadPool.Ledger s.pool) (hle : s.pool.added.length ≤ 2 ^ 32)
    (hadd : s.pool.added.map given = l.map registered) (hrem : s.pool.removed = []) : Running s l := by
  have hat : ∀ i : Nat, s.pool.added[i]?.map given = l[i]?.map registered := by
    intro i
    rw [← List.getElem?_map, hadd, List.getElem?_map]
  have hruns : ∀ {a e : ThreadTask} {x : Service × Ptr} {k m : Nat}, given a = registered x → ThreadPool.Own a e k m →
      Runs x e := by
    intro a e x k m hg ho
    simp only [given, registered, Prod.mk.injEq] at hg
    exact ⟨ho.cb.trans hg.1, ho.param.trans hg.2.1, ho.mulNum.trans hg.2.2.2⟩
  have hown : ∀ {tid e}, s.pool.mapTask.find tid = some e → ∃ a ∈ s.pool.added, a.tid = tid ∧
      ∃ k m, ThreadPool.Own a e k m := by
    intro tid e hf
    rcases hl.entries tid e hf with ⟨a, ha, hat, ho⟩ | ⟨-, -, hr⟩
    · exact ⟨a, ha, hat, _, _, ho⟩
    · simp [hrem] at hr
  refine ⟨?_, ?_⟩
  · intro i x hx
    have hi := hat i
    rw [hx] at hi
    obtain ⟨a, ha, hg⟩ := Option.map_eq_some_iff.1 hi
    have hmem := List.mem_of_getElem? ha
    obtain ⟨e, hf⟩ := hl.present a hmem (by simp [hrem])
    obtain ⟨b, hb, hba, k, m, ho⟩ := hown hf
    obtain rfl := hl.unique hle hb hmem hba
    rw [hl.ids i b ha] at hf
    exact ⟨e, hf, hruns hg ho⟩
  · intro tid e hf
    obtain ⟨a, ha, rfl, k, m, ho⟩ := hown hf
    obtain ⟨i, hi, rfl⟩ := List.mem_iff_getElem.1 ha
    have hat := hat i
    rw [List.getElem?_eq_getElem hi] at hat
    obtain ⟨x, hx, hg⟩ := Option.map_eq_some_iff.1 hat.symm
    exact ⟨i, x, hx, hl.ids i _ (List.getElem?_eq_getElem hi), hruns hg.symm ho⟩

/-- What has been started of the configuration, by the place `P1_Start` returns from. -/
def Config (s : State n) (rst : Bool) : Pc → Prop
  | .loop _ => rst = true ∧ Left s []
  | .delete _ => rst = false ∧ ∃ it rest, Left s (it :: rest)
  | _ => rst = false ∧ s.started = []

/-- `P1_Start` has returned from the place `p`. -/
structure Returned (p : Pc) (s : State n) (rst : Bool) : Prop where
  config : Config s rst p
  tasks : ∃ k, p.singletons = some k ∧ Running s (singletons.take k ++ s.started.flatMap fun x => serverTasks x.1)
  timers : s.timers.timer.entries.map still = heartChecks (s.started.map Prod.fst)
  nodup : (s.started.map Prod.fst).Nodup
  live : ∀ p, p ∈ s.started.map Prod.fst ↔ ∃ o, s.heap.find p = some o
  listening : ∀ x ∈ s.started, s.heap.find x.1 = some ⟨some x.2.uProt⟩

/-- What the last step of `P1_Start`, at the place `p`, leaves as it is. -/
structure Last (p : Pc) (s s' : State n) (rst : Bool) : Prop where
  place : ∃ k, p.singletons = some k
  tasks : p.tasks = []
  pool : s'.pool = s.pool
  started : s'.started = s.started
  config : Config s' rst p

theorem Configured.last (h : Configured s) (hsv : Servers s) {ok : Bool} {now : UInt32} {addr : Ptr} {rst : Bool}
    (he : P1Service.step getValue serverId f s (.start ok now addr) = some s') (hr : s'.pc = .returned rst) {p : Pc}
    (hp : s.pc = p) : Last p s s' rst := by
  simp only [P1Service.step, p1_Start] at he
  unfold Configured at h
  rw [hp] at he h
  cases p with
  | parseConfigFile =>
    cases he
    by_cases hok : (parseConfigFile getValue s.cfg serverId f).1 = true
    · simp [hok] at hr
    · simp only [if_neg hok, Pc.returned.injEq] at hr
      exact ⟨⟨0, rfl⟩, rfl, rfl, rfl, hr.symm, h⟩
  | initThreadPool =>
    cases he
    cases hr
  | initService | createFile | registerHandle | wsaStartup =>
    cases he
    cases ok with
    | true => cases hr
    | false =>
      cases hr
      exact ⟨⟨_, rfl⟩, rfl, rfl, rfl, rfl, h⟩
  | initTimerManager | traceLogThread =>
    simp only at he
    rw [addThreadTask_eq _ (by decide)] at he
    cases he
    cases hr
  | getServerCfg =>
    simp only at he h
    split at he
    case h_1 =>
      cases he
      cases hr
    case h_2 =>
      cases he
      cases hr
      exact ⟨⟨_, rfl⟩, rfl, rfl, rfl, rfl, h⟩
  | loop rest =>
    cases rest with
    | nil =>
      cases he
      cases hr
      exact ⟨⟨_, rfl⟩, rfl, rfl, rfl, rfl, h⟩
    | cons it rest =>
      obtain ⟨-, ⟨⟩⟩ := Option.ite_none_right_eq_some.1 he
      cases hr
  | server c p it rest =>
    have h0 := (hsv.apart p (by simp [servers, hp, Pc.current])).1
    cases c with
    | createSocket =>
      cases he
      cases ok <;> cases hr
    | listen => cases ok <;> cases he <;> cases hr
    | acceptThread | sendThread =>
      simp only [P1Service.initServer, addThreadTask_eq _ h0] at he
      cases he
      cases hr
    | createTimer | insert =>
      cases he
      cases hr
  | delete p =>
    cases he
    cases hr
    exact ⟨⟨_, rfl⟩, rfl, rfl, rfl, rfl, h⟩
  | returned => cases he

/-- Once `P1_Start` has returned, nothing is added any more. -/
theorem returned_step {rst : Bool} (hr : s.pc = .returned rst) {a : Act n}
    (he : step getValue serverId f s a = some s') : s'.pc = .returned rst ∧ s'.pool.added = s.pool.added ∧
      s'.pool.removed = s.pool.removed ∧ s'.started = s.started ∧ s'.cfg = s.cfg := by
  cases a with
  | start ok now addr =>
    simp only [step, p1_Start, hr] at he
    cases he
  | run t now junk =>
    simp only [step] at he
    obtain ⟨-, he⟩ := Option.ite_none_right_eq_some.1 he
    obtain ⟨pool, hpool, rfl⟩ := Option.map_eq_some_iff.1 he
    exact ⟨hr, (ThreadPool.run_frame hpool).added, (ThreadPool.run_frame hpool).removed, rfl, rfl⟩
  | timer t now =>
    simp only [step] at he
    obtain ⟨-, he⟩ := Option.ite_none_right_eq_some.1 he
    obtain ⟨timers, -, rfl⟩ := Option.map_eq_some_iff.1 he
    exact ⟨hr, rfl, rfl, rfl, rfl⟩

theorem returned_run {rst : Bool} {as : List (Act n)} (hr : s.pc = .returned rst)
    (he : (sys getValue serverId f n).run s as = some s') : s'.pc = .returned rst ∧ s'.pool.added = s.pool.added ∧
      s'.pool.removed = s.pool.removed ∧ s'.started = s.started ∧ s'.cfg = s.cfg := by
  refine Sys.run_inv (M := sys getValue serverId f n) (P := fun u => u.pc = .returned rst ∧
    u.pool.added = s.pool.added ∧ u.pool.removed = s.pool.removed ∧ u.started = s.started ∧ u.cfg = s.cfg)
    (fun u a u' hu he => ?_) as ⟨hr, rfl, rfl, rfl, rfl⟩ he
  obtain ⟨hp, ha, hrem, hst, hc⟩ := returned_step hu.1 he
  exact ⟨hp, ha.trans hu.2.1, hrem.trans hu.2.2.1, hst.trans hu.2.2.2.1, hc.trans hu.2.2.2.2⟩

theorem Config.congr {rst : Bool} {p : Pc} (hst : s'.started = s.started) (hc : s'.cfg = s.cfg) (h : Config s rst p) :
    Config s' rst p := by
  have hl : ∀ left, Left s left → Left s' left := fun left hl => by rwa [Left, hc, hst]
  cases p with
  | loop => exact ⟨h.1, hl _ h.2⟩
  | delete =>
    obtain ⟨hr, it, rest, h⟩ := h
    exact ⟨hr, it, rest, hl _ h⟩
  | _ => exact ⟨h.1, hst.trans h.2⟩

/-- **What `P1_Start` has started when it returns**, whatever the workers have done meanwhile and do afterwards. -/
theorem start_returns (h : (sys getValue serverId f n).Reachable s) {ok : Bool} {now : UInt32} {addr : Ptr}
    (he : step getValue serverId f s (.start ok now addr) = some s') {rst : Bool} (hr : s'.pc = .returned rst)
    {as : List (Act n)} {u : State n} (hrun : (sys getValue serverId f n).run s' as = some u)
    (hle : u.pool.added.length ≤ 2 ^ 32) : Returned s.pc u rst := by
  have hu : (sys getValue serverId f n).Reachable u := .run as (.step h (a := .start ok now addr) trivial he) hrun
  obtain ⟨⟨k, hk⟩, htasks, hpool, hst, hconfig⟩ := (configured h).last (servers_inv h) he hr rfl
  obtain ⟨hpc, hadd, hrem, hstarted, hcfg⟩ := returned_run hr hrun
  have hsv := servers_inv hu
  have htb := table_inv hu hle
  have hcur : servers u = u.started.map Prod.fst := by simp [servers, hpc, Pc.current]
  have htm : timed u = u.started.map Prod.fst := by simp [timed, hpc, Pc.timed]
  obtain ⟨j, -, hj, -, hgiven, hremoved⟩ := tasks_inv h
  obtain rfl := hj k (by rw [hk]; rfl)
  refine ⟨hconfig.congr hstarted hcfg, ⟨j, hk, ?_⟩, ?_, ?_, ?_, ?_⟩
  · apply running (ThreadPool.ledger (pool_reachable hu) hle) hle
    · rw [hadd, hpool, hgiven, tasks, htasks, List.append_nil, hstarted, hst]
    · rw [hrem, hpool, hremoved]
  · rw [htb.entries, htm]
  · exact hcur ▸ hsv.nodup
  · exact hcur ▸ hsv.live
  · intro x hx
    exact hsv.listening x (List.mem_append_left _ hx)

/-- Two servers. -/
def twoServers : CfgFile :=
  let server (port : String) : String × Ptree := ("", .node "" [("ip", .node "10.0.0.1" []), ("port", .node port [])])
  .json (.node "" [("7", .node "" [("name", .node "Game07" []), ("TcpServer", .node "" [server "80", server "81"]),
    ("TcpClient", .node "" [])])])

/-- The second server cannot listen. -/
theorem firstOnly : ∃ s, (sys plainNumber 7 twoServers 1).Reachable s ∧ s.started = [(10, ⟨"10.0.0.1", 80⟩)] := by
  obtain ⟨s, hrun, hs⟩ : ∃ s, (sys plainNumber 7 twoServers 1).run (start 1 .empty)
      (.replicate 9 (.start true 5 0) ++ .replicate 7 (.start true 8 10) ++ [.start true 9 11, .start true 9 0,
        .start false 9 0, .start true 9 0]) = some s ∧ s.started = [(10, ⟨"10.0.0.1", 80⟩)] := ⟨_, rfl, rfl⟩
  have h0 : (sys plainNumber 7 twoServers 1).Reachable (start 1 .empty) := .init ⟨.empty, rfl⟩
  exact ⟨s, h0.run _ hrun, hs⟩

/-- A worker runs `TimerThread` while `P1_Start` goes on; the second server cannot listen. -/
theorem start_returns_first : ∃ u : State 1, u.started = [(10, ⟨"10.0.0.1", 80⟩)] ∧ u.pool.starts 0 = 1 ∧
    Returned (.delete 11) u false := by
  have h0 : (sys plainNumber 7 twoServers 1).Reachable (start 1 .empty) := .init ⟨.empty, rfl⟩
  obtain ⟨s, hrun, s', he, hpc, hr, u, hu, hst, hone, hle⟩ : ∃ s, (sys plainNumber 7 twoServers 1).run (start 1 .empty)
      (.replicate 3 (.start true 5 0) ++ .replicate 3 (.run 0 6 .noJunk) ++ .replicate 6 (.start true 7 0) ++
        .replicate 7 (.start true 8 10) ++ [.start true 9 11, .start true 9 0, .start false 9 0]) = some s ∧
      ∃ s', step plainNumber 7 twoServers s (.start true 9 0) = some s' ∧ s.pc = .delete 11 ∧ s'.pc = .returned false ∧
      ∃ u, (sys plainNumber 7 twoServers 1).run s' [.timer 0 fun _ => 6] = some u ∧
        u.started = [(10, ⟨"10.0.0.1", 80⟩)] ∧ u.pool.starts 0 = 1 ∧ u.pool.added.length ≤ 2 ^ 32 :=
    ⟨_, rfl, _, rfl, rfl, rfl, _, rfl, rfl, rfl, by decide⟩
  exact ⟨u, hst, hone, hpc ▸ start_returns (h0.run _ hrun) he hr hu hle⟩

/-! ## `QueryTcpServer` -/

/-- Where the last `c` of a list is. -/
theorem append_last {α : Type*} {c : α} {l l' d d' : List α} (hd : c ∉ d) (hd' : c ∉ d')
    (h : l ++ c :: d = l' ++ c :: d') : l = l' ∧ d = d' := by
  rcases List.append_eq_append_iff.1 h with ⟨m, rfl, hm⟩ | ⟨m, rfl, hm⟩
  · cases m with
    | nil => simpa using hm
    | cons x m =>
      have he : d = m ++ c :: d' := (List.cons.inj hm).2
      exact absurd (by simp [he]) hd
  · cases m with
    | nil => simpa [eq_comm] using hm
    | cons x m =>
      have he : d' = m ++ c :: d := (List.cons.inj hm).2
      exact absurd (by simp [he]) hd'

/-- The text tells the ip and the port: the digits have no colon. -/
theorem text_inj {ip ip' : String} {port port' : UInt16} (h : text ip port = text ip' port') :
    ip = ip' ∧ port = port' := by
  have hd : ∀ p : UInt16, ':' ∉ Nat.toDigits 10 p.toNat := fun p hc =>
    absurd (Nat.isDigit_of_mem_toDigits (by decide) (by decide) hc) (by decide)
  have hl : ∀ (i : String) (p : UInt16), (text i p).toList = i.toList ++ ':' :: Nat.toDigits 10 p.toNat := by
    intro i p
    simp [text]
  have ht := congrArg String.toList h
  rw [hl, hl] at ht
  obtain ⟨hi, hp⟩ := append_last (hd port) (hd port') ht
  have hn := congrArg (fun l => Nat.ofDigitChars 10 l 0) hp
  simp only [Nat.ofDigitChars_ten_toDigits] at hn
  exact ⟨String.toList_inj.1 hi, UInt16.toNat_inj.1 hn⟩

/-- **`QueryTcpServer`** finds a server that listens on the port and was started for the ip and the port, if there is
one; after a successful `P1_Start` there is one for each entry of the configuration, and for nothing else. -/
theorem query_finds (h : (sys getValue serverId f n).Reachable s) (ip : String) (port : UInt16) :
    (queryTcpServer s ip port = none ↔ ⟨ip, port⟩ ∉ s.started.map Prod.snd) ∧
      (∀ p, queryTcpServer s ip port = some p →
        (p, ⟨ip, port⟩) ∈ s.started ∧ s.heap.find p = some ⟨some port⟩) ∧
      (s.pc = .returned true → ∃ c, getServerCfg s.cfg = some c ∧
        (queryTcpServer s ip port = none ↔ ⟨ip, port⟩ ∉ c.tcpServer)) := by
  have hsv := servers_inv h
  have hentry : ∀ p txt, (p, txt) ∈ s.tcpServers.entries ↔ ∃ it, (p, it) ∈ s.started ∧ txt = text it.ip it.uProt :=
    fun p txt => OrdMap.mem_entries.trans (hsv.named p txt)
  have hnone : queryTcpServer s ip port = none ↔ ⟨ip, port⟩ ∉ s.started.map Prod.snd := by
    simp only [queryTcpServer, Option.map_eq_none_iff, List.find?_eq_none, beq_iff_eq, List.mem_map, not_exists,
      not_and]
    constructor
    · rintro hn ⟨p, it⟩ hx rfl
      exact hn _ ((hentry p _).2 ⟨_, hx, rfl⟩) rfl
    · rintro hn ⟨p, txt⟩ hx he
      obtain ⟨it, hit, rfl⟩ := (hentry p txt).1 hx
      obtain ⟨rfl, rfl⟩ := text_inj he
      exact hn _ hit rfl
  refine ⟨hnone, ?_, ?_⟩
  · intro p hp
    obtain ⟨⟨q, txt⟩, hfind, rfl⟩ := Option.map_eq_some_iff.1 hp
    have htxt : txt = text ip port := by simpa using List.find?_some hfind
    obtain ⟨it, hit, he⟩ := (hentry q txt).1 (List.mem_of_find?_eq_some hfind)
    obtain ⟨rfl, rfl⟩ := text_inj (htxt.symm.trans he)
    exact ⟨hit, hsv.listening _ (List.mem_append_left _ hit)⟩
  · intro hr
    have hcf := configured h
    unfold Configured at hcf
    rw [hr] at hcf
    obtain ⟨c, hc, hl⟩ := hcf
    rw [List.append_nil] at hl
    exact ⟨c, hc, hl ▸ hnone⟩

theorem query_finds_first : ∃ (s : State 1) (p : Ptr), queryTcpServer s "10.0.0.1" 80 = some p ∧
    s.heap.find p = some ⟨some 80⟩ ∧ queryTcpServer s "10.0.0.1" 81 = none := by
  obtain ⟨s, hr, hstarted⟩ := firstOnly
  cases hq : queryTcpServer s "10.0.0.1" 80 with
  | none => exact absurd ((query_finds hr "10.0.0.1" 80).1.1 hq) (by rw [hstarted]; decide)
  | some p =>
    exact ⟨s, p, hq, ((query_finds hr "10.0.0.1" 80).2.1 p hq).2,
      (query_finds hr "10.0.0.1" 81).1.2 (by rw [hstarted]; decide)⟩

end P1Server.P1Service
