import P1Server.ThreadPoolService
import P1Server.TimerCount
import P1Server.TimerDelete
import P1Server.ConfigManager

/-!
# `P1_Service`

| here | there |
| --- | --- |
| `Pc`, `p1_Start`       | `P1_Service::P1_Start` (`CommonLib/P1_Service.cpp:21-77`) with what it calls |
| … `.initTimerManager`  | `TimerManager::InitTimerManager` (`TimerManager.cpp:84-91`) |
| … `.initService`       | `IOCPService::InitService` (`IOCPService.cpp:61-80`) |
| … `.createFile` to `.registerHandle` | `TraceLog::InitIocpTask` (`TraceLog.cpp:51-78`) |
| … `.wsaStartup` to `.delete`         | `NetServiceTask::InitIocpTask` (`NetServiceTask.cpp:17-48`) |
| `initServer`           | `TCPServer::InitServer` (`TCPServer.cpp:10-28`), `CreateSocket` (`common.hpp`), the insertion |
| `Act.start`            | the next step of `P1_Start`: what the system answers, what `timeGetTime` and `new` return |
| `Act.run`, `Act.timer` | a worker of the `ThreadPool`; one that is in `TimerThread` (`TimerManager.cpp:75-82`) |
| `queryTcpServer`       | `NetServiceTask::QueryTcpServer` (`NetServiceTask.cpp:56-68`) |

The workers run while `P1_Start` goes on. A new server is at an address that no other server has; one that has been
deleted leaves its address free. The callbacks other than `TimerThread` add no task and no timer.
`started` is for the statements only.

* `Move`, `move` — what a step makes.
-/

namespace P1Server.P1Service
open Lib
open ThreadPool (Service ThreadTask Ptr double)
open ConfigManager (ServerInfo ServerConfig Cfg CfgFile parseConfigFile getServerCfg)

/-- The singletons. -/
def timerManager : Ptr := 1

def traceLog : Ptr := 2

def heartCheckTimer : Ptr := 1

/-- `listening` has the port that `_listenSocket` is bound to, once it listens; with port 0 (65536 in the configuration)
the system chooses another one, and `listening` has 0. -/
structure TCPServer where
  listening : Option UInt16
  deriving DecidableEq

inductive InitPc
  | createSocket
  | listen
  | acceptThread
  | sendThread
  | createTimer
  | insert
  deriving DecidableEq

inductive Pc
  | parseConfigFile
  | initThreadPool
  | initTimerManager
  | initService
  | createFile
  | traceLogThread
  | registerHandle
  | wsaStartup
  | getServerCfg
  | loop (rest : List ServerInfo)
  | server (pc : InitPc) (p : Ptr) (it : ServerInfo) (rest : List ServerInfo)
  | delete (p : Ptr)
  | returned (rst : Bool)
  deriving DecidableEq

/-- `excuted` holds of a worker whose run of `TimerThread` has called `ExcuteTimerTask`. -/
structure State (n : Nat) where
  pc : Pc
  cfg : Cfg
  workers : Bool
  pool : ThreadPool.State n
  timers : TimerManager.State n
  excuted : Fin n → Bool
  heap : OrdMap Ptr TCPServer
  tcpServers : OrdMap Ptr String
  started : List (Ptr × ServerInfo)

inductive Act (n : Nat)
  | start (ok : Bool) (now : UInt32) (addr : Ptr)
  | run (t : Fin n) (now : UInt32) (junk : ThreadTask)
  | timer (t : Fin n) (now : UInt32 → UInt32)

variable {n : Nat} {s s' : State n}

/-- `ss << ip << ":" << port`. -/
def text (ip : String) (port : UInt16) : String := ip ++ ":" ++ toString port.toNat

namespace State

def goto (s : State n) (p : Pc) : State n := { s with pc := p }

def addThreadTask (s : State n) (v : Service) (param : Ptr) (now : UInt32) (p : Pc) : Option (State n) :=
  (ThreadPool.step double s.pool (.add v.cb param v.runtimes v.mulNum now)).map fun pool => { s with pool, pc := p }

def createTimer (s : State n) (lParam : Ptr) (p : Pc) : Option (State n) :=
  (TimerManager.step s.timers (.createTimer heartCheckTimer lParam 5000 TimerManager.maxTimerRuncount)).map
    fun timers => { s with timers, pc := p }

/-- `new` may return the address. -/
def unused (s : State n) (addr : Ptr) : Bool :=
  decide (addr ≠ 0) && decide (addr ≠ timerManager) && decide (addr ≠ traceLog) && (s.heap.find addr).isNone

/-- `_tcpServers.insert`; it leaves the entry of a key that is there. -/
def insert (s : State n) (p : Ptr) (it : ServerInfo) : OrdMap Ptr String :=
  match s.tcpServers.find p with
  | some _ => s.tcpServers
  | none => s.tcpServers.set p (text it.ip it.uProt)

end State

def initServer (s : State n) (ok : Bool) (now : UInt32) (p : Ptr) (it : ServerInfo) (rest : List ServerInfo) :
    InitPc → Option (State n)
  | .createSocket => some (s.goto (if ok then .server .listen p it rest else .delete p))
  | .listen =>
    if ok then some { s with heap := s.heap.set p ⟨some it.uProt⟩, pc := .server .acceptThread p it rest }
    else some (s.goto (.delete p))
  | .acceptThread => s.addThreadTask .acceptThread p now (.server .sendThread p it rest)
  | .sendThread => s.addThreadTask .sendThread p now (.server .createTimer p it rest)
  | .createTimer => s.createTimer p (.server .insert p it rest)
  | .insert => some { s with tcpServers := s.insert p it, started := s.started ++ [(p, it)], pc := .loop rest }

variable (getValue : String → Option UInt32) (serverId : Int) (f : CfgFile)

def p1_Start (s : State n) (ok : Bool) (now : UInt32) (addr : Ptr) : Option (State n) :=
  match s.pc with
  | .parseConfigFile =>
    let r := parseConfigFile getValue s.cfg serverId f
    some { s with cfg := r.2, pc := if r.1 then .initThreadPool else .returned false }
  | .initThreadPool => some { s with workers := true, pc := .initTimerManager }
  | .initTimerManager => s.addThreadTask .timerThread timerManager now .initService
  | .initService => some (s.goto (if ok then .createFile else .returned false))
  | .createFile => some (s.goto (if ok then .traceLogThread else .returned false))
  | .traceLogThread => s.addThreadTask .traceLogThread traceLog now .registerHandle
  | .registerHandle => some (s.goto (if ok then .wsaStartup else .returned false))
  | .wsaStartup => some (s.goto (if ok then .getServerCfg else .returned false))
  | .getServerCfg =>
    match getServerCfg s.cfg with
    | some c => some (s.goto (.loop c.tcpServer))
    | none => some (s.goto (.returned false))
  | .loop [] => some (s.goto (.returned true))
  | .loop (it :: rest) =>
    if s.unused addr then some { s with heap := s.heap.set addr ⟨none⟩, pc := .server .createSocket addr it rest }
    else none
  | .server pc p it rest => initServer s ok now p it rest pc
  | .delete p => some { s with heap := s.heap.erase p, pc := .returned false }
  | .returned _ => none

/-- The task is a run of `TimerThread`. -/
def isTimerThread (task : ThreadTask) : Bool := decide (task.cb = Service.timerThread.cb)

/-- The callback of the worker, if it is in one, may return: `TimerThread` has been through `ExcuteTimerTask`. -/
def State.mayReturn (s : State n) (t : Fin n) : Bool :=
  match s.pool.pc t with
  | .running _ task => !isTimerThread task || (s.excuted t && decide (s.timers.pc t = .idle))
  | _ => true

/-- The worker may go on in `ExcuteTimerTask`, which it calls once. -/
def State.mayExcute (s : State n) (t : Fin n) : Bool :=
  match s.pool.pc t with
  | .running _ task => isTimerThread task && (!s.excuted t || !decide (s.timers.pc t = .idle))
  | _ => false

def step (s : State n) : Act n → Option (State n)
  | .start ok now addr => p1_Start getValue serverId f s ok now addr
  | .run t now junk =>
    if s.workers && s.mayReturn t then
      (ThreadPool.step double s.pool (.run t now junk)).map fun pool =>
        { s with pool, excuted := Function.update s.excuted t false }
    else none
  | .timer t now =>
    if s.mayExcute t then
      (TimerManager.step s.timers (.run t now)).map fun timers =>
        { s with timers, excuted := Function.update s.excuted t true }
    else none

/-- Before `P1_Start`. -/
def start (n : Nat) (m : Cfg) : State n where
  pc := .parseConfigFile
  cfg := m
  workers := false
  pool := ⟨fun _ => .loop, true, .empty, 0, [], [], fun _ => 0⟩
  timers := TimerManager.empty n
  excuted _ := false
  heap := .empty
  tcpServers := .empty
  started := []

def sys (n : Nat) : Sys (State n) (Act n) where
  init s := ∃ m, s = start n m
  step := step getValue serverId f

/-- `QueryTcpServer`. -/
def queryTcpServer (s : State n) (ip : String) (port : UInt16) : Option Ptr :=
  (s.tcpServers.entries.find? fun e => e.2 == text ip port).map Prod.fst


variable {getValue serverId f}

/-! ## What a step does -/

/-- The tasks of the singletons. -/
def singletons : List (Service × Ptr) := [(.timerThread, timerManager), (.traceLogThread, traceLog)]

def serverTasks (p : Ptr) : List (Service × Ptr) := [(.acceptThread, p), (.sendThread, p)]

namespace Pc

/-- How many of the singletons' tasks have been added, where the place tells. -/
def singletons : Pc → Option Nat
  | .parseConfigFile | .initThreadPool | .initTimerManager => some 0
  | .initService | .createFile | .traceLogThread => some 1
  | .returned false => none
  | _ => some 2

/-- The server that is being initialised, or deleted. -/
def current : Pc → List Ptr
  | .server _ p _ _ | .delete p => [p]
  | _ => []

/-- The server that listens, and is not in `_tcpServers` yet. -/
def listening : Pc → List (Ptr × ServerInfo)
  | .server .createSocket .. | .server .listen .. => []
  | .server _ p it _ => [(p, it)]
  | _ => []

/-- Its tasks. -/
def tasks : Pc → List (Service × Ptr)
  | .server .sendThread p _ _ => [(.acceptThread, p)]
  | .server .createTimer p _ _ | .server .insert p _ _ => serverTasks p
  | _ => []

/-- The server whose timer is there. -/
def timed : Pc → List Ptr
  | .server .insert p _ _ => [p]
  | _ => []

/-- From `p` to `q` nothing is made. -/
structure Quiet (p q : Pc) : Prop where
  singletons : q.singletons = p.singletons ∨ q = .returned false
  current : q.current = p.current
  listening : q.listening = p.listening
  tasks : q.tasks = p.tasks
  timed : q.timed = p.timed

end Pc

/-- The steps, by what they make. -/
inductive Move (s s' : State n) : Prop
  | quiet (q : Pc) (m : Cfg) (w : Bool) (hq : s.pc.Quiet q) (hs : s' = { s with pc := q, cfg := m, workers := w })
  | singleton (k : Nat) (v : Service) (p : Ptr) (now : UInt32) (q : Pc) (hv : singletons[k]? = some (v, p))
      (hk : s.pc.singletons = some k) (hq : q.singletons = some (k + 1)) (hcur : s.pc.current = [] ∧ q.current = [])
      (hs : s' = { s with
        pool := s.pool.addThreadTask ⟨s.pool.tid, p, v.cb, v.runtimes, v.mulNum, 0, 1, now⟩, pc := q })
  | new (addr : Ptr) (it : ServerInfo) (rest : List ServerInfo) (hp : s.pc = .loop (it :: rest))
      (hu : s.unused addr = true)
      (hs : s' = { s with heap := s.heap.set addr ⟨none⟩, pc := .server .createSocket addr it rest })
  | listen (p : Ptr) (it : ServerInfo) (rest : List ServerInfo) (hp : s.pc = .server .listen p it rest)
      (hs : s' = { s with heap := s.heap.set p ⟨some it.uProt⟩, pc := .server .acceptThread p it rest })
  | task (v : Service) (now : UInt32) (c c' : InitPc) (p : Ptr) (it : ServerInfo) (rest : List ServerInfo)
      (hp : s.pc = .server c p it rest) (hv : (Pc.server c' p it rest).tasks = s.pc.tasks ++ [(v, p)])
      (hl : s.pc.listening = [(p, it)] ∧ (Pc.server c' p it rest).listening = [(p, it)])
      (ht : s.pc.timed = [] ∧ (Pc.server c' p it rest).timed = [])
      (hs : s' = { s with
        pool := s.pool.addThreadTask ⟨s.pool.tid, p, v.cb, v.runtimes, v.mulNum, 0, 1, now⟩
        pc := .server c' p it rest })
  | createTimer (p : Ptr) (it : ServerInfo) (rest : List ServerInfo) (hp : s.pc = .server .createTimer p it rest)
      (hs : s' = { s with
        timers := s.timers.createTimer heartCheckTimer p 5000 TimerManager.maxTimerRuncount
        pc := .server .insert p it rest })
  | insert (p : Ptr) (it : ServerInfo) (rest : List ServerInfo) (hp : s.pc = .server .insert p it rest)
      (hs : s' = { s with tcpServers := s.insert p it, started := s.started ++ [(p, it)], pc := .loop rest })
  | delete (p : Ptr) (hp : s.pc = .delete p) (hs : s' = { s with heap := s.heap.erase p, pc := .returned false })
  | run (t : Fin n) (now : UInt32) (junk : ThreadTask) (pool : ThreadPool.State n) (hw : s.workers = true)
      (hr : s.mayReturn t = true) (he : ThreadPool.step double s.pool (.run t now junk) = some pool)
      (hs : s' = { s with pool, excuted := Function.update s.excuted t false })
  | timer (t : Fin n) (now : UInt32 → UInt32) (timers : TimerManager.State n) (hr : s.mayExcute t = true)
      (he : TimerManager.step s.timers (.run t now) = some timers)
      (hs : s' = { s with timers, excuted := Function.update s.excuted t true })

/-- The servers that have been made and not deleted. -/
def servers (s : State n) : List Ptr := s.started.map Prod.fst ++ s.pc.current

/-- Addresses are neither `NULL` nor those of the singletons. -/
def Apart (s : State n) : Prop := ∀ p ∈ servers s, p ≠ 0 ∧ p ≠ timerManager ∧ p ≠ traceLog

theorem cb_ne_zero (v : Service) : v.cb ≠ 0 := by
  cases v <;> simp [Service.cb]

theorem addThreadTask_eq (v : Service) {param : Ptr} (hp : param ≠ 0) (now : UInt32) (p : Pc) :
    s.addThreadTask v param now p = some { s with
      pool := s.pool.addThreadTask ⟨s.pool.tid, param, v.cb, v.runtimes, v.mulNum, 0, 1, now⟩, pc := p } := by
  simp [State.addThreadTask, ThreadPool.step, cb_ne_zero v, hp]

/-- `TCPServer::InitServer` and the insertion. -/
theorem move_initServer {ok : Bool} {now : UInt32} {c : InitPc} {p : Ptr} {it : ServerInfo} {rest : List ServerInfo}
    (h0 : p ≠ 0) (hp : s.pc = .server c p it rest) (he : initServer s ok now p it rest c = some s') : Move s s' := by
  cases c with
  | createSocket =>
    cases he
    refine .quiet _ s.cfg s.workers ?_ rfl
    rw [hp]
    cases ok <;> exact ⟨.inl rfl, rfl, rfl, rfl, rfl⟩
  | listen =>
    cases ok with
    | true =>
      cases he
      exact .listen p it rest hp rfl
    | false =>
      cases he
      refine .quiet _ s.cfg s.workers ?_ rfl
      rw [hp]
      exact ⟨.inl rfl, rfl, rfl, rfl, rfl⟩
  | acceptThread =>
    rw [initServer, addThreadTask_eq _ h0] at he
    cases he
    exact .task .acceptThread now .acceptThread .sendThread p it rest hp (by rw [hp]; rfl) ⟨by rw [hp]; rfl, rfl⟩
      ⟨by rw [hp]; rfl, rfl⟩ rfl
  | sendThread =>
    rw [initServer, addThreadTask_eq _ h0] at he
    cases he
    exact .task .sendThread now .sendThread .createTimer p it rest hp (by rw [hp]; rfl) ⟨by rw [hp]; rfl, rfl⟩
      ⟨by rw [hp]; rfl, rfl⟩ rfl
  | createTimer =>
    cases he
    exact .createTimer p it rest hp rfl
  | insert =>
    cases he
    exact .insert p it rest hp rfl

theorem move {a : Act n} (ha : Apart s) (he : step getValue serverId f s a = some s') : Move s s' := by
  cases a with
  | start ok now addr =>
    simp only [step, p1_Start] at he
    cases hp : s.pc with
    | parseConfigFile =>
      rw [hp] at he
      cases he
      refine .quiet _ _ s.workers ?_ rfl
      rw [hp]
      split
      · exact ⟨.inl rfl, rfl, rfl, rfl, rfl⟩
      · exact ⟨.inr rfl, rfl, rfl, rfl, rfl⟩
    | initThreadPool =>
      rw [hp] at he
      cases he
      refine .quiet _ s.cfg _ ?_ rfl
      rw [hp]
      exact ⟨.inl rfl, rfl, rfl, rfl, rfl⟩
    | initService | createFile | registerHandle | wsaStartup =>
      rw [hp] at he
      cases he
      refine .quiet _ s.cfg s.workers ?_ rfl
      rw [hp]
      cases ok with
      | true => exact ⟨.inl rfl, rfl, rfl, rfl, rfl⟩
      | false => exact ⟨.inr rfl, rfl, rfl, rfl, rfl⟩
    | initTimerManager =>
      rw [hp] at he
      simp only at he
      rw [addThreadTask_eq _ (by decide)] at he
      cases he
      exact .singleton 0 .timerThread timerManager now _ rfl (by rw [hp]; rfl) rfl ⟨by rw [hp]; rfl, rfl⟩ rfl
    | traceLogThread =>
      rw [hp] at he
      simp only at he
      rw [addThreadTask_eq _ (by decide)] at he
      cases he
      exact .singleton 1 .traceLogThread traceLog now _ rfl (by rw [hp]; rfl) rfl ⟨by rw [hp]; rfl, rfl⟩ rfl
    | getServerCfg =>
      rw [hp] at he
      simp only at he
      split at he <;> cases he <;> refine .quiet _ s.cfg s.workers ?_ rfl <;> rw [hp]
      · exact ⟨.inl rfl, rfl, rfl, rfl, rfl⟩
      · exact ⟨.inr rfl, rfl, rfl, rfl, rfl⟩
    | loop rest =>
      rw [hp] at he
      cases rest with
      | nil =>
        cases he
        refine .quiet _ s.cfg s.workers ?_ rfl
        rw [hp]
        exact ⟨.inl rfl, rfl, rfl, rfl, rfl⟩
      | cons it rest =>
        obtain ⟨hu, ⟨⟩⟩ := Option.ite_none_right_eq_some.1 he
        exact .new addr it rest hp hu rfl
    | server c p it rest =>
      rw [hp] at he
      exact move_initServer (ha p (by simp [servers, hp, Pc.current])).1 hp he
    | delete p =>
      rw [hp] at he
      cases he
      exact .delete p hp rfl
    | returned rst =>
      rw [hp] at he
      cases he
  | run t now junk =>
    simp only [step] at he
    obtain ⟨hr, he⟩ := Option.ite_none_right_eq_some.1 he
    obtain ⟨pool, hpool, rfl⟩ := Option.map_eq_some_iff.1 he
    exact .run t now junk pool (Bool.and_eq_true_iff.1 hr).1 (Bool.and_eq_true_iff.1 hr).2 hpool rfl
  | timer t now =>
    simp only [step] at he
    obtain ⟨hr, he⟩ := Option.ite_none_right_eq_some.1 he
    obtain ⟨timers, htimers, rfl⟩ := Option.map_eq_some_iff.1 he
    exact .timer t now timers hr htimers rfl

end P1Server.P1Service
