import P1Server.Lib.Sys
import P1Server.Lib.OrdMap
import P1Server.Lib.Threads
import Mathlib.Data.UInt

/-!
# The `ThreadPool` of `IOCP_Test`

| here | there |
| --- | --- |
| `Ctx`                                 | `THREADPOOL_OVERLAPPED` (`IOCP_Test/ThreadPool.h:13-19`); a pointer is a number, `none` is `NULL` |
| `Pc`                                  | an IO thread: `idle` and `got` before and after `GetQueuedCompletionStatus` (`IO_Service.cpp:17-51`), then in `callBackFunction` (`ThreadPool.cpp:58-95`) |
| `Act.registerThread`, `.post`, `.put` | `registerThread` (`:13-40`): up to the loop, one turn of it, the locked part |
| `Act.unRegisterThread`, `.mark`       | `unRegisterThread` (`:42-56`): up to the loop, one turn of it or the return |
| `sweep`                               | the loop of `callBackFunction` (`:71-83`) |
| `State.marking`                       | who has `mutex` and is not through in one step: the slots `unRegisterThread` has still to do |
| `State.queue`                         | the posted packets; which one a thread gets is not fixed |

The calls of `registerThread` are numbered, `call k` is where the `k`th is. `startLog` has the contexts whose `fn` has
been started, `returns` the returns of `unRegisterThread` with the length `startLog` had, `freed` what was deleted.
-/

namespace P1Server.IocpTest
open Lib

/-- `(DWORD)THREAD_CONCURRENCY_MAX`. -/
def THREAD_CONCURRENCY_MAX : UInt32 := -1

structure Ctx where
  fn : Nat
  param : Nat
  taskId : UInt32
  taskState : UInt32
  deriving DecidableEq

abbrev Slot := Option Nat

/-- A call of `registerThread`. -/
structure Call where
  taskId : UInt32
  fn : Nat
  param : Nat
  concurrency : UInt32
  pOvs : List Nat
  done : Bool
  deriving DecidableEq

inductive Pc
  | idle
  | got (c : Nat)
  | running (c : Nat)
  | test (c : Nat)
  | lock (c : Nat)
  | post (c : Nat)
  deriving DecidableEq

/-- A return of `unRegisterThread`. -/
structure Return where
  id : UInt32
  result : Bool
  starts : Nat

structure State (n : Nat) where
  pc : Fin n → Pc
  queue : List Nat
  heap : Nat → Ctx
  next : Nat
  threadTaskId : UInt32
  threadTasks : OrdMap UInt32 (List Slot)
  call : Nat → Call
  calls : Nat
  marking : Option (UInt32 × List Slot)
  startLog : List Nat
  called : List UInt32
  returns : List Return
  freed : List Nat

inductive Act (n : Nat)
  | registerThread (fn param : Nat) (concurrency : UInt32)
  | post (k : Nat)
  | put (k : Nat)
  | unRegisterThread (id : UInt32)
  | mark
  | get (t : Fin n) (c : Nat)
  | run (t : Fin n)

/-- The slots of a task after the loop of `callBackFunction`. -/
def sweep (c : Nat) (v : List Slot) : List Slot := v.map fun slot => if slot = some c then none else slot

variable {n : Nat} {s s' : State n}

namespace State

def goto (s : State n) (t : Fin n) (p : Pc) : State n := { s with pc := Function.update s.pc t p }

/-- `registerThread`, with `io_service.threadSums()`. -/
def registerThread (s : State n) (threadSums : UInt32) (fn param : Nat) (concurrency : UInt32) : State n :=
  let concurrency := if concurrency = THREAD_CONCURRENCY_MAX then threadSums else concurrency
  if concurrency = 0 ∨ concurrency > threadSums then s
  else
    { s with
      threadTaskId := s.threadTaskId + 1
      call := Function.update s.call s.calls ⟨s.threadTaskId + 1, fn, param, concurrency, [], false⟩
      calls := s.calls + 1 }

/-- A new context is made and posted. -/
def post (s : State n) (k : Nat) : State n :=
  let r := s.call k
  { s with
    heap := Function.update s.heap s.next ⟨r.fn, r.param, r.taskId, 1⟩
    next := s.next + 1
    queue := s.queue ++ [s.next]
    call := Function.update s.call k { r with pOvs := r.pOvs ++ [s.next] } }

/-- `threadTasks[taskId] = pOvs`. -/
def put (s : State n) (k : Nat) : State n :=
  let r := s.call k
  { s with
    threadTasks := s.threadTasks.set r.taskId (r.pOvs.map some)
    call := Function.update s.call k { r with done := true } }

def unRegisterThread (s : State n) (id : UInt32) : State n :=
  match s.threadTasks.find id with
  | none => { s with called := id :: s.called, returns := s.returns ++ [⟨id, false, s.startLog.length⟩] }
  | some v => { s with called := id :: s.called, marking := some (id, v) }

/-- One turn of the loop of `unRegisterThread`, or its return; a `NULL` slot ends the program. -/
def mark (s : State n) (id : UInt32) : List Slot → Option (State n)
  | [] => some { s with marking := none, returns := s.returns ++ [⟨id, true, s.startLog.length⟩] }
  | none :: _ => none
  | some c :: rest =>
    some { s with heap := Function.update s.heap c { s.heap c with taskState := 0 }, marking := some (id, rest) }

/-- The locked part of `callBackFunction`. -/
def free (s : State n) (t : Fin n) (c : Nat) : State n :=
  let taskId := (s.heap c).taskId
  match s.threadTasks.find taskId with
  | none => s.goto t .idle
  | some v =>
    let s' := { s.goto t .idle with freed := s.freed ++ List.replicate (v.count (some c)) c }
    if (sweep c v).countP Option.isSome = 0 then { s' with threadTasks := s.threadTasks.erase taskId }
    else { s' with threadTasks := s.threadTasks.set taskId (sweep c v) }

end State

def step (threadSums : UInt32) (s : State n) : Act n → Option (State n)
  | .registerThread fn param concurrency => some (s.registerThread threadSums fn param concurrency)
  | .post k =>
    if k < s.calls ∧ (s.call k).pOvs.length < (s.call k).concurrency.toNat then some (s.post k) else none
  | .put k =>
    if k < s.calls ∧ (s.call k).done = false ∧ (s.call k).pOvs.length = (s.call k).concurrency.toNat ∧
        s.marking = none then
      some (s.put k)
    else none
  | .unRegisterThread id => if s.marking = none then some (s.unRegisterThread id) else none
  | .mark =>
    match s.marking with
    | some (id, slots) => s.mark id slots
    | none => none
  | .get t c =>
    if s.pc t = .idle ∧ c ∈ s.queue then
      some { s.goto t (.got c) with queue := s.queue.erase c }
    else none
  | .run t =>
    match s.pc t with
    | .idle => none
    | .got c => some { s.goto t (.running c) with startLog := s.startLog ++ [c] }
    | .running c => some (s.goto t (.test c))
    | .test c => some (s.goto t (if (s.heap c).taskState = 0 then .lock c else .post c))
    | .lock c => if s.marking = none then some (s.free t c) else none
    | .post c => some { s.goto t .idle with queue := s.queue ++ [c] }

/-- `n` IO threads, and a pool nobody has called. -/
def sys (n : Nat) (threadSums : UInt32) : Sys (State n) (Act n) where
  init s := ∃ heap call, s = ⟨fun _ => .idle, [], heap, 0, 0, .empty, call, 0, none, [], [], [], []⟩
  step := step threadSums

end P1Server.IocpTest
