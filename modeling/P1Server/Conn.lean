import Mathlib.Data.Nat.Basic
import P1Server.Lib.Sys
import P1Server.Lib.OrdMap
import P1Server.Recv

/-!
# Connections: the client registry and the completion port

Threads of `TCPServer` and of the completion port, one atomic step at a time.

| here | there |
| --- | --- |
| `accept`, `construct`, `register`, `regIocp` | `AcceptThread` and `AddNewClient` (`TCPServer.cpp:76-91`, `:311-332`) |
| `recvReq`, `wsaRecv`, `recvFailed`  | `RecvReq` (`:208-226`): zero the buffer, set `op`; `WSARecv`; its failure |
| `sendReq`                           | the locked part of `SendReq` and its failure (`:228-264`) |
| `dequeue`, `dispatch`, `callBack`, `parse` | `CompletionPortThread` (`IOCPService.cpp:20-59`), `IocpCallBack` (`NetServiceTask.cpp:7-15`), `NetServerCallBack` (`TCPServer.cpp:30-47`), one round of `RecvNetCmdData` |
| `removeContext`, `removeCmd`, `removeErase` | `RemoveClient` (`:266-288`): the context; the command queues and `closesocket`; the last `erase` |
| `removeAllContext`, `removeAllCmd`, `removeAllClear` | `RemoveAllClient` (`:290-309`) |
| `complete`                          | the OS finishes an overlapped operation and queues its packet |

`_mutex` is `lock`: its exclusive holder. A shared section is one step taken while `lock` is free.
The steps inside one exclusive section are split where something outside it can happen in between:
`accept` may return a handle that `closesocket` has just given back, and an operation of a deleted
context may still complete before its socket is closed.

A pointer to a context carries, besides the address, the number of the object it was made for
(`Ref`), and so does a packet: an address may be reused, and `stale` records every use of a pointer
whose object is gone. What such a use finds is what the memory holds then.
-/

namespace P1Server.Conn
open Lib

/-- A `NET_CONTEXT*`; `inst` is the object the pointer was made for. -/
structure Ref where
  addr : Nat
  inst : Nat
  deriving DecidableEq

/-- `NET_OPERATOR`; a value-initialised context has neither of the two. -/
inductive NetOp where
  | zero | read | write
  deriving DecidableEq

/-- `NET_CONTEXT` (`Interface.h:38-46`). `buf` goes on behind the 8192 bytes of the buffer. -/
structure NetContext where
  s : Socket
  /-- `pNetServer != NULL`. -/
  pNetServer : Bool
  op : NetOp
  buf : Mem
  live : Bool
  inst : Nat

/-- A `ClientCmd*`; `conn` is the connection the object was made for. -/
structure Cref where
  addr : Nat
  conn : Nat
  deriving DecidableEq

/-- A `ClientCmd` object. -/
structure ClientCmd where
  conn : Nat
  live : Bool

inductive Kind where
  | recv | send
  deriving DecidableEq

/-- An overlapped `WSARecv` or `WSASend` that has started and not finished. -/
structure Overlapped where
  ctx : Ref
  kind : Kind
  sock : Socket
  deriving DecidableEq

/-- A completion packet; `ok` is what `GetQueuedCompletionStatus` will return. -/
structure Packet where
  ctx : Ref
  kind : Kind
  ok : Bool
  deriving DecidableEq

/-- Where a thread is. The `Option Kind` of `RecvReq` is the completion it is called for, `none` from
`AddNewClient`. -/
inductive Pc where
  | idle
  | accepted (k : Socket) (c : Nat)
  | built (k : Socket) (c : Nat) (r : Ref) (b : Cref)
  | regIocp (r : Ref)
  | recvReq (r : Ref) (cause : Option Kind)
  | wsaRecv (r : Ref) (cause : Option Kind)
  | recvFailed (r : Ref)
  | dispatch (r : Ref) (kind : Kind)
  | callBack (r : Ref) (kind : Kind)
  | parse (r : Ref) (kind : Kind) (tick : UInt32) (offset : Nat)
  | remove (ks : List Socket)
  | rmHeld (k : Socket) (ks : List Socket)
  | rmClosed (k : Socket) (ks : List Socket)
  | raCtx (todo : List (Socket × Ref))
  | raCmd (todo : List (Socket × Cref))
  deriving DecidableEq

structure State (n : Nat) where
  lock : Option (Fin n)
  clientsContext : OrdMap Socket Ref
  clientCmd : OrdMap Socket Cref
  ctx : Nat → NetContext
  cmd : Nat → ClientCmd
  /-- Open handles and the connection behind each. -/
  os : Socket → Option Nat
  io : List Overlapped
  port : List Packet
  clock : UInt32
  pc : Fin n → Pc
  /-- Numbers for the next object, connection and exclusive section. -/
  nextInst : Nat
  nextConn : Nat
  sect : Nat
  /-- Insertions that found an entry. -/
  overwrites : Nat
  /-- `closesocket` of a connection, and erasure of its entry, each with its exclusive section. -/
  closed : List (Nat × Nat)
  unreg : List (Nat × Nat)
  /-- Uses of pointers to deleted contexts. -/
  stale : List Ref

namespace State

variable {n : Nat} (s : State n)

/-- The object the pointer was made for is still there. -/
def live (r : Ref) : Prop := (s.ctx r.addr).live = true ∧ (s.ctx r.addr).inst = r.inst

instance (r : Ref) : Decidable (s.live r) := inferInstanceAs (Decidable (_ ∧ _))

/-- The object found through the pointer now. -/
def actual (r : Ref) : Ref := ⟨r.addr, (s.ctx r.addr).inst⟩

def goto (t : Fin n) (p : Pc) : State n := { s with pc := Function.update s.pc t p }

/-- A program access through `r`. -/
def touch (r : Ref) : State n := { s with stale := if s.live r then s.stale else s.stale ++ [r] }

def setCtx (a : Nat) (x : NetContext) : State n := { s with ctx := Function.update s.ctx a x }

/-! ## AcceptThread, AddNewClient -/

/-- `accept` returns a handle that is not open (`:83`). -/
def accept (t : Fin n) (k : Socket) : State n :=
  { s with os := Function.update s.os k (some s.nextConn), nextConn := s.nextConn + 1 }.goto t
    (.accepted k s.nextConn)

/-- `new NET_CONTEXT()` at `a`, its fields, `new ClientCmd(1024)` at `b` (`:313-320`). -/
def construct (t : Fin n) (k : Socket) (c a b : Nat) (behind : Mem) : State n :=
  { s with
    ctx := Function.update s.ctx a
      ⟨k, true, .zero, fun i => if i < SOCKET_BUFFER_SIZE then 0 else behind i, true, s.nextInst⟩
    cmd := Function.update s.cmd b ⟨c, true⟩
    nextInst := s.nextInst + 1 }.goto t (.built k c ⟨a, s.nextInst⟩ ⟨b, c⟩)

/-- The two insertions, in one exclusive section (`:321-325`). -/
def register (t : Fin n) (k : Socket) (r : Ref) (b : Cref) : State n :=
  { s with
    clientsContext := s.clientsContext.set k r
    clientCmd := s.clientCmd.set k b
    sect := s.sect + 1
    overwrites := s.overwrites + (s.clientsContext.find k).toList.length + (s.clientCmd.find k).toList.length
    }.goto t (.regIocp r)

/-- `RegNewIocpTask(clientContext)` (`:326-330`, `NetServiceTask.cpp:50-54`). -/
def regIocp (t : Fin n) (r : Ref) (ok : Bool) : State n :=
  (s.touch r).goto t (if ok then .recvReq r none else .idle)

/-! ## RecvReq, SendReq -/

/-- Zero the buffer, `op = NET_OP_READ` (`:212-213`). -/
def recvReq (t : Fin n) (r : Ref) (cause : Option Kind) : State n :=
  ((s.touch r).setCtx r.addr
    { s.ctx r.addr with
      buf := fun i => if i < SOCKET_BUFFER_SIZE then 0 else (s.ctx r.addr).buf i
      op := .read }).goto t (.wsaRecv r cause)

/-- `WSARecv` (`:214-220`); it cannot start on a handle that is not open. -/
def wsaRecv (t : Fin n) (r : Ref) (ok : Bool) : State n :=
  if ok ∧ (s.os (s.ctx r.addr).s).isSome then
    { s.touch r with io := s.io ++ [Overlapped.mk (s.actual r) .recv (s.ctx r.addr).s] }.goto t .idle
  else (s.touch r).goto t (.recvFailed r)

/-- `RemoveClient((SOCKET)clientContext->s)` (`:221`). -/
def recvFailed (t : Fin n) (r : Ref) : State n := (s.touch r).goto t (.remove [(s.ctx r.addr).s])

/-- `SendReq(k, ..)`: `op` is not set, and the send shares the context's `OVERLAPPED` (`:239-244`). -/
def sendReq (t : Fin n) (k : Socket) (ok : Bool) : State n :=
  match s.clientsContext.find k with
  | none => s
  | some r =>
    if ok then { s.touch r with io := s.io ++ [Overlapped.mk (s.actual r) .send k] } else (s.touch r).goto t (.remove [k])

/-! ## The completion port -/

/-- Bytes received are written to the start of the buffer. -/
def fill (x : NetContext) (data : List UInt8) : NetContext :=
  { x with buf := fun i => if i < data.length then memOf data i else x.buf i }

/-- The OS ends an operation; a successful receive has filled the buffer. -/
def complete (o : Overlapped) (ok : Bool) (data : List UInt8) : State n :=
  { s with
    io := s.io.erase o
    port := s.port ++ [⟨o.ctx, o.kind, ok⟩]
    ctx := if ok ∧ o.kind = .recv then Function.update s.ctx o.ctx.addr (fill (s.ctx o.ctx.addr) data)
      else s.ctx }

/-- `GetQueuedCompletionStatus`: a failed operation is skipped (`IOCPService.cpp:37-46`). -/
def dequeue (t : Fin n) (p : Packet) : State n :=
  { s with port := s.port.erase p }.goto t (if p.ok then .dispatch p.ctx p.kind else .idle)

/-- `IocpCallBack` (`NetServiceTask.cpp:7-15`). -/
def dispatch (t : Fin n) (r : Ref) (kind : Kind) : State n :=
  (s.touch r).goto t (if (s.ctx r.addr).pNetServer then .callBack r kind else .idle)

/-- The `switch` of `NetServerCallBack` (`TCPServer.cpp:32-46`). -/
def callBack (t : Fin n) (r : Ref) (kind : Kind) : State n :=
  (s.touch r).goto t (if (s.ctx r.addr).op = .read then .parse r kind s.clock 0 else .idle)

/-- One round of `RecvNetCmdData`, less the command it hands over; behind the loop comes `RecvReq` (`:36-37`). -/
def parse (t : Fin n) (r : Ref) (kind : Kind) (tick : UInt32) (offset : Nat) : State n :=
  if offset < SOCKET_BUFFER_SIZE then
    match recvRound (s.ctx r.addr).buf tick offset with
    | .stop _ => (s.touch r).goto t (.recvReq r (some kind))
    | .frame _ len _ _ _ => (s.touch r).goto t (.parse r kind tick (offset + len))
  else s.goto t (.recvReq r (some kind))

/-! ## RemoveClient, RemoveAllClient -/

/-- `closesocket(k)`; what is still in flight on the socket ends with a failure. -/
def closeSocket (k : Socket) : State n :=
  match s.os k with
  | none => s
  | some c =>
    { s with
      os := Function.update s.os k none
      closed := s.closed ++ [(c, s.sect)]
      io := s.io.filter fun o => o.sock ≠ k
      port := s.port ++ (s.io.filter fun o => o.sock = k).map fun o => ⟨o.ctx, o.kind, false⟩ }

/-- Take the lock; mark, delete and erase the context, if there is one (`:268-276`). -/
def removeContext (t : Fin n) (k : Socket) (ks : List Socket) : State n :=
  { s with
    lock := some t
    sect := s.sect + 1
    ctx := match s.clientsContext.find k with
      | some r => Function.update s.ctx r.addr { s.ctx r.addr with pNetServer := false, live := false }
      | none => s.ctx
    clientsContext := s.clientsContext.erase k }.goto t (.rmHeld k ks)

/-- Clear and delete the command queues of a client and close its socket (`:281-284`, `:302-304`). -/
def closeCmd (k : Socket) (b : Cref) : State n :=
  { s with cmd := Function.update s.cmd b.addr { s.cmd b.addr with live := false } }.closeSocket k

/-- `closeCmd`, if there is an entry (`:277-284`). -/
def removeCmd (t : Fin n) (k : Socket) (ks : List Socket) : State n :=
  (match s.clientCmd.find k with
    | some b => s.closeCmd k b
    | none => s).goto t (.rmClosed k ks)

/-- `_clientCmd.erase(itCmd)` and the end of the section (`:285-287`). -/
def removeErase (t : Fin n) (k : Socket) (ks : List Socket) : State n :=
  { s with
    clientCmd := s.clientCmd.erase k
    unreg := s.unreg ++ ((s.clientCmd.find k).map fun b : Cref => (b.conn, s.sect)).toList
    lock := none }.goto t (.remove ks)

/-- `RemoveAllClient` takes the lock (`:292`). -/
def removeAllLock (t : Fin n) : State n :=
  { s with lock := some t, sect := s.sect + 1 }.goto t (.raCtx s.clientsContext.entries)

/-- One context deleted (`:293-297`). -/
def removeAllContext (t : Fin n) (r : Ref) (todo : List (Socket × Ref)) : State n :=
  (s.setCtx r.addr { s.ctx r.addr with live := false }).goto t (.raCtx todo)

/-- One client's queues deleted and its socket closed (`:298-305`). -/
def removeAllCmd (t : Fin n) (k : Socket) (b : Cref) (todo : List (Socket × Cref)) : State n :=
  (s.closeCmd k b).goto t (.raCmd todo)

/-- Both maps cleared, end of the section (`:306-308`). -/
def removeAllClear (t : Fin n) : State n :=
  { s with
    clientsContext := .empty
    clientCmd := .empty
    unreg := s.unreg ++ s.clientCmd.entries.map fun e : Socket × Cref => (e.2.conn, s.sect)
    lock := none }.goto t .idle

end State

/-! ## Steps -/

/-- Who moves; `run` is the next step of a thread, with the answer of the call it makes. -/
inductive Act (n : Nat) where
  | accept (t : Fin n) (k : Socket)
  | construct (t : Fin n) (a b : Nat) (behind : Mem)
  | sendReq (t : Fin n) (k : Socket) (ok : Bool)
  | complete (o : Overlapped) (ok : Bool) (data : List UInt8)
  | dequeue (t : Fin n) (p : Packet)
  /-- Calls of `RemoveClient`, one after the other: `HeartCheckTimer`'s loop (`:189-193`). -/
  | removeClients (t : Fin n) (ks : List Socket)
  | removeAll (t : Fin n)
  | tick (d : UInt32)
  | run (t : Fin n) (ok : Bool)

variable {n : Nat}

/-- The next step of thread `t` at each place. -/
def State.next (s : State n) (t : Fin n) (ok : Bool) : Pc → Option (State n)
  | .idle | .accepted _ _ => none
  | .built k _ r b => if s.lock = none then some (s.register t k r b) else none
  | .regIocp r => some (s.regIocp t r ok)
  | .recvReq r cause => some (s.recvReq t r cause)
  | .wsaRecv r _ => some (s.wsaRecv t r ok)
  | .recvFailed r => some (s.recvFailed t r)
  | .dispatch r kind => some (s.dispatch t r kind)
  | .callBack r kind => some (s.callBack t r kind)
  | .parse r kind tick offset => some (s.parse t r kind tick offset)
  | .remove [] => some (s.goto t .idle)
  | .remove (k :: ks) => if s.lock = none then some (s.removeContext t k ks) else none
  | .rmHeld k ks => some (s.removeCmd t k ks)
  | .rmClosed k ks => some (s.removeErase t k ks)
  | .raCtx (e :: todo) => some (s.removeAllContext t e.2 todo)
  | .raCtx [] => some (s.goto t (.raCmd s.clientCmd.entries))
  | .raCmd (e :: todo) => some (s.removeAllCmd t e.1 e.2 todo)
  | .raCmd [] => some (s.removeAllClear t)

def step (s : State n) : Act n → Option (State n)
  | .accept t k => if s.pc t = .idle ∧ s.os k = none then some (s.accept t k) else none
  | .construct t a b behind =>
    match s.pc t with
    | .accepted k c =>
      if a ≠ 0 ∧ b ≠ 0 ∧ (s.ctx a).live = false ∧ (s.cmd b).live = false then
        some (s.construct t k c a b behind) else none
    | _ => none
  | .sendReq t k ok => if s.pc t = .idle ∧ s.lock = none then some (s.sendReq t k ok) else none
  | .complete o ok data =>
    if o ∈ s.io ∧ data.length ≤ SOCKET_BUFFER_SIZE then some (s.complete o ok data) else none
  | .dequeue t p => if s.pc t = .idle ∧ p ∈ s.port then some (s.dequeue t p) else none
  | .removeClients t ks => if s.pc t = .idle then some (s.goto t (.remove ks)) else none
  | .removeAll t => if s.pc t = .idle ∧ s.lock = none then some (s.removeAllLock t) else none
  | .tick d => some { s with clock := s.clock + d }
  | .run t ok => s.next t ok (s.pc t)

/-- A started server without clients. -/
def start (n : Nat) : State n where
  lock := none
  clientsContext := .empty
  clientCmd := .empty
  ctx := fun _ => ⟨0, false, .zero, fun _ => 0, false, 0⟩
  cmd := fun _ => ⟨0, false⟩
  os := fun _ => none
  io := []
  port := []
  clock := 0
  pc := fun _ => .idle
  nextInst := 1
  nextConn := 0
  sect := 0
  overwrites := 0
  closed := []
  unreg := []
  stale := []

/-- The server with `n` threads, each free to run any of the entry points. -/
def sys (n : Nat) : Sys (State n) (Act n) where
  init s := s = start n
  step := step

/-- One `AcceptThread` on thread `t`, up to the first `WSARecv`. -/
def acceptRun (t : Fin n) (k a b : Nat) : List (Act n) :=
  [.accept t k, .construct t a b fun _ => 0, .run t true, .run t true, .run t true, .run t true]

/-! ## What a step can do -/

/-- The moves of `step`, each with the place it is taken from. -/
inductive Move (s : State n) : Act n → State n → Prop
  | accept {t : Fin n} {k : Socket} : s.pc t = .idle → s.os k = none → Move s (.accept t k) (s.accept t k)
  | construct {t : Fin n} {k : Socket} {c a b : Nat} {behind : Mem} : s.pc t = .accepted k c → a ≠ 0 → b ≠ 0 →
      (s.ctx a).live = false → (s.cmd b).live = false →
      Move s (.construct t a b behind) (s.construct t k c a b behind)
  | register {t : Fin n} {ok : Bool} {k : Socket} {c : Nat} {r : Ref} {b : Cref} : s.pc t = .built k c r b →
      s.lock = none → Move s (.run t ok) (s.register t k r b)
  | regIocp {t : Fin n} {ok : Bool} {r : Ref} : s.pc t = .regIocp r → Move s (.run t ok) (s.regIocp t r ok)
  | recvReq {t : Fin n} {ok : Bool} {r : Ref} {cause : Option Kind} : s.pc t = .recvReq r cause →
      Move s (.run t ok) (s.recvReq t r cause)
  | wsaRecv {t : Fin n} {ok : Bool} {r : Ref} {cause : Option Kind} : s.pc t = .wsaRecv r cause →
      Move s (.run t ok) (s.wsaRecv t r ok)
  | recvFailed {t : Fin n} {ok : Bool} {r : Ref} : s.pc t = .recvFailed r → Move s (.run t ok) (s.recvFailed t r)
  | sendReq {t : Fin n} {k : Socket} {ok : Bool} : s.pc t = .idle → s.lock = none →
      Move s (.sendReq t k ok) (s.sendReq t k ok)
  | complete {o : Overlapped} {ok : Bool} {data : List UInt8} : o ∈ s.io → data.length ≤ SOCKET_BUFFER_SIZE →
      Move s (.complete o ok data) (s.complete o ok data)
  | dequeue {t : Fin n} {p : Packet} : s.pc t = .idle → p ∈ s.port → Move s (.dequeue t p) (s.dequeue t p)
  | dispatch {t : Fin n} {ok : Bool} {r : Ref} {kind : Kind} : s.pc t = .dispatch r kind →
      Move s (.run t ok) (s.dispatch t r kind)
  | callBack {t : Fin n} {ok : Bool} {r : Ref} {kind : Kind} : s.pc t = .callBack r kind →
      Move s (.run t ok) (s.callBack t r kind)
  | parse {t : Fin n} {ok : Bool} {r : Ref} {kind : Kind} {tick : UInt32} {offset : Nat} :
      s.pc t = .parse r kind tick offset → Move s (.run t ok) (s.parse t r kind tick offset)
  | removeClients {t : Fin n} {ks : List Socket} : s.pc t = .idle →
      Move s (.removeClients t ks) (s.goto t (.remove ks))
  | removeDone {t : Fin n} {ok : Bool} : s.pc t = .remove [] → Move s (.run t ok) (s.goto t .idle)
  | removeContext {t : Fin n} {ok : Bool} {k : Socket} {ks : List Socket} : s.pc t = .remove (k :: ks) →
      s.lock = none → Move s (.run t ok) (s.removeContext t k ks)
  | removeCmd {t : Fin n} {ok : Bool} {k : Socket} {ks : List Socket} : s.pc t = .rmHeld k ks →
      Move s (.run t ok) (s.removeCmd t k ks)
  | removeErase {t : Fin n} {ok : Bool} {k : Socket} {ks : List Socket} : s.pc t = .rmClosed k ks →
      Move s (.run t ok) (s.removeErase t k ks)
  | removeAllLock {t : Fin n} : s.pc t = .idle → s.lock = none → Move s (.removeAll t) (s.removeAllLock t)
  | removeAllContext {t : Fin n} {ok : Bool} {k : Socket} {r : Ref} {todo : List (Socket × Ref)} :
      s.pc t = .raCtx ((k, r) :: todo) → Move s (.run t ok) (s.removeAllContext t r todo)
  | removeAllTurn {t : Fin n} {ok : Bool} : s.pc t = .raCtx [] →
      Move s (.run t ok) (s.goto t (.raCmd s.clientCmd.entries))
  | removeAllCmd {t : Fin n} {ok : Bool} {k : Socket} {b : Cref} {todo : List (Socket × Cref)} :
      s.pc t = .raCmd ((k, b) :: todo) → Move s (.run t ok) (s.removeAllCmd t k b todo)
  | removeAllClear {t : Fin n} {ok : Bool} : s.pc t = .raCmd [] → Move s (.run t ok) (s.removeAllClear t)
  | tick {d : UInt32} : Move s (.tick d) { s with clock := s.clock + d }

theorem next_move {s s' : State n} {t : Fin n} {ok : Bool} {p : Pc} (hp : s.pc t = p)
    (h : s.next t ok p = some s') : Move s (.run t ok) s' := by
  cases p with
  | idle => cases h
  | accepted k c => cases h
  | built k c r b =>
    obtain ⟨hl, he⟩ := Option.ite_none_right_eq_some.1 h
    cases he
    exact .register hp hl
  | regIocp r => cases h; exact .regIocp hp
  | recvReq r cause => cases h; exact .recvReq hp
  | wsaRecv r cause => cases h; exact .wsaRecv hp
  | recvFailed r => cases h; exact .recvFailed hp
  | dispatch r kind => cases h; exact .dispatch hp
  | callBack r kind => cases h; exact .callBack hp
  | parse r kind tick offset => cases h; exact .parse hp
  | remove ks =>
    cases ks with
    | nil => cases h; exact .removeDone hp
    | cons k ks =>
      obtain ⟨hl, he⟩ := Option.ite_none_right_eq_some.1 h
      cases he
      exact .removeContext hp hl
  | rmHeld k ks => cases h; exact .removeCmd hp
  | rmClosed k ks => cases h; exact .removeErase hp
  | raCtx todo =>
    cases todo with
    | nil => cases h; exact .removeAllTurn hp
    | cons e todo => cases h; exact .removeAllContext hp
  | raCmd todo =>
    cases todo with
    | nil => cases h; exact .removeAllClear hp
    | cons e todo => cases h; exact .removeAllCmd hp

/-- **Every step is one of the moves.** -/
theorem step_move {s s' : State n} {a : Act n} (h : step s a = some s') : Move s a s' := by
  cases a with
  | accept t k =>
    obtain ⟨⟨hp, hk⟩, he⟩ := Option.ite_none_right_eq_some.1 h
    cases he
    exact .accept hp hk
  | construct t a b behind =>
    cases hp : s.pc t <;> simp only [step, hp, reduceCtorEq] at h
    obtain ⟨⟨ha, hb, hx, hy⟩, he⟩ := Option.ite_none_right_eq_some.1 h
    cases he
    exact .construct hp ha hb hx hy
  | sendReq t k ok =>
    obtain ⟨⟨hp, hl⟩, he⟩ := Option.ite_none_right_eq_some.1 h
    cases he
    exact .sendReq hp hl
  | complete o ok data =>
    obtain ⟨⟨ho, hd⟩, he⟩ := Option.ite_none_right_eq_some.1 h
    cases he
    exact .complete ho hd
  | dequeue t p =>
    obtain ⟨⟨hp, hm⟩, he⟩ := Option.ite_none_right_eq_some.1 h
    cases he
    exact .dequeue hp hm
  | removeClients t ks =>
    obtain ⟨hp, he⟩ := Option.ite_none_right_eq_some.1 h
    cases he
    exact .removeClients hp
  | removeAll t =>
    obtain ⟨⟨hp, hl⟩, he⟩ := Option.ite_none_right_eq_some.1 h
    cases he
    exact .removeAllLock hp hl
  | tick d => cases h; exact .tick
  | run t ok => exact next_move rfl h

end P1Server.Conn
