import Mathlib.Data.Nat.Basic
import Mathlib.Logic.Function.Basic
import P1Server.Lib.Sys
import P1Server.Lib.OrdMap
import P1Server.Cmd

/-!
# Sending

`SendCmdData`, the passes of `SendThread` and `SendReq`, one atomic step at a time.

| here | there |
| --- | --- |
| `handing`, `sendCmdData`        | a caller of `SendCmdData` (`TCPServer.cpp:49-74`); `inner`: `RecvNetCmdData` (`:378-382`), which goes on whatever the result is |
| `drain`, `popping`, `full`, `drained` | `SendThread` under the shared lock (`:93-134`): the loop over the clients; one `pop` a step; the put-back (`:127`); the lock released |
| `turn`, `pack`                  | the packing loop (`:142-171`), one `memcpy_s` a step, and `delete[] sendBuff` |
| `sendReq`, `setLen`, `wsaSend`  | `SendReq` (`:228-264`): find the context and set `wsaSendBuf.buf`; set `.len`; `WSASend` |
| `sendFailed`                    | its failure: `RemoveClient` (`:258`) |
| `addNewClient`, `removeClient`, `removeAllClient` | the exclusive sections (`:266-332`), each one step |
| `transmit`, `complete`          | the OS reads a byte of a pending send's buffer; ends the send |

The lock is held by nobody exclusively between two steps; an exclusive section waits until no thread
is in a shared one (`shares`). `addNewClient` comes with the `accept` before it, which returns no open
handle, and what is registered is open (`Conn.registry`): it finds no entry.

Bytes carry a stamp that says which command they were copied from, and a command accepted by a queue
the connection of that queue and its number in the order of acceptance.
-/

namespace P1Server.Send
open Lib

/-- `FRAME_NUMBER_SEND_DATA` (`TCPServer.cpp:8`). -/
def FRAME_NUMBER_SEND_DATA : Nat := 100

/-- The nodes of a `sendQueue` (`new ClientCmd(1024)`, `:320`). -/
def QUEUE_SIZE : Nat := 1024

/-- One connection of a handle. -/
structure ConnId where
  sock : Socket
  no : Nat
  deriving DecidableEq

/-- Which connection's queue accepted a command, and when. -/
structure Stamp where
  conn : ConnId
  seq : Nat
  deriving DecidableEq

/-- A `NetCmd*` in a caller's hands. -/
structure PCmd where
  cmd : NetCmd
  id : Nat
  deriving DecidableEq

/-- A `NetCmd*` that a queue has accepted: `SendCmdData` takes no longer ones. -/
structure Entry where
  cmd : NetCmd
  id : Nat
  stamp : Stamp
  short : cmd.length < SOCKET_BUFFER_SIZE
  deriving DecidableEq

structure Cell where
  val : UInt8
  stamp : Option Stamp
  deriving DecidableEq

/-- The bytes `memcpy_s` copies. -/
def Entry.cells (x : Entry) : List Cell := x.cmd.image.map fun b => ⟨b, some x.stamp⟩

/-- `wsaSendBuf` of a `NET_CONTEXT`. -/
structure Context where
  conn : ConnId
  buf : Nat
  len : Nat
  deriving DecidableEq

/-- A `ClientCmd`. -/
structure Client where
  conn : ConnId
  recvQueue : List Entry
  sendQueue : List Entry
  deriving DecidableEq

/-- A `sendBuff`. -/
structure Buff where
  live : Bool
  cells : Nat → Cell

def Buff.read (b : Buff) (len : Nat) : List Cell := (List.range len).map b.cells

/-- `memcpy_s(sendBuff + offset, ..)`. -/
def Buff.write (b : Buff) (offset : Nat) (l : List Cell) : Buff :=
  { b with cells := fun i => if i < offset then b.cells i else l[i - offset]?.getD (b.cells i) }

inductive Status where
  | pending | done | failed
  deriving DecidableEq

/-- A started `WSASend`: `buf` and `len` as `wsaSendBuf` had them, `want` the bytes that the caller of
`SendReq` passed, `sent` those transmitted so far. -/
structure Wsa where
  conn : ConnId
  buf : Nat
  len : Nat
  want : List Cell
  sent : List Cell
  status : Status
  deriving DecidableEq

abbrev TempCmds := List (Socket × List Entry)

/-- A pass behind the drain: the client whose commands it packs, those not packed yet, the bytes packed
since `offset` was 0, the clients to come. -/
structure Job where
  b : Nat
  k : Socket
  vec : List Entry
  offset : Nat
  temp : TempCmds
  deriving DecidableEq

/-- `SendReq` returns: `offset = 0`. -/
def Job.sent (j : Job) : Job := { j with offset := 0 }

/-- Where a thread is. -/
inductive Pc where
  | idle
  | handing (k : Socket) (p : PCmd) (inner : Bool)
  | holding (p : PCmd)
  | drain (todo : List Socket) (temp : TempCmds)
  | popping (k : Socket) (todo : List Socket) (vec : List Entry) (temp : TempCmds)
  | full (k : Socket) (todo : List Socket) (vec : List Entry) (x : Entry) (temp : TempCmds)
  | drained (temp : TempCmds)
  | turn (b : Nat) (temp : TempCmds)
  | pack (j : Job)
  | sendReq (j : Job)
  | setLen (j : Job)
  | wsaSend (j : Job)
  | sendFailed (j : Job)
  deriving DecidableEq

/-- Inside a shared section. -/
def shares : Pc → Bool
  | .drain _ _ | .popping _ _ _ _ | .full _ _ _ _ _ | .setLen _ | .wsaSend _ => true
  | _ => false

structure State (n : Nat) where
  clientsContext : OrdMap Socket Context
  clientCmd : OrdMap Socket Client
  buffs : Nat → Buff
  sends : List Wsa
  /-- What `WSASend` has been given, command by command and byte by byte. -/
  given : List Stamp
  /-- Commands deleted, and commands whose last pointer is gone. -/
  freed : List Nat
  lost : List Nat
  pc : Fin n → Pc
  nextConn : Nat
  nextSeq : Nat
  nextId : Nat

def cmdLength (vec : List Entry) : Nat := (vec.map fun x => x.cmd.length).sum

/-- The commands in a client's queues. -/
def Client.cmds (c : Client) : List Entry := c.recvQueue ++ c.sendQueue

/-- `closesocket` ends what is pending on the connection. -/
def Wsa.abort (w : Wsa) (p : ConnId → Bool) : Wsa :=
  if w.status = .pending ∧ p w.conn then { w with status := .failed } else w

namespace State

variable {n : Nat} (s : State n)

def goto (t : Fin n) (p : Pc) : State n := { s with pc := Function.update s.pc t p }

/-! ## The exclusive sections -/

/-- `accept` and `AddNewClient` (`:83-90`, `:311-332`). -/
def addNewClient (k : Socket) : State n :=
  { s with
    clientsContext := s.clientsContext.set k ⟨⟨k, s.nextConn⟩, 0, 0⟩
    clientCmd := s.clientCmd.set k ⟨⟨k, s.nextConn⟩, [], []⟩
    nextConn := s.nextConn + 1 }

/-- `RemoveClient`, with `ClearClientCmd` (`:266-288`, `:334-357`). -/
def removeClient (k : Socket) : State n :=
  { s with
    clientsContext := s.clientsContext.erase k
    clientCmd := s.clientCmd.erase k
    freed := s.freed ++ ((s.clientCmd.find k).elim [] fun c => c.cmds.map Entry.id)
    sends := s.sends.map fun w => w.abort fun c => (s.clientCmd.find k).elim false fun d => d.conn = c }

/-- `RemoveAllClient` (`:290-309`). -/
def removeAllClient : State n :=
  { s with
    clientsContext := .empty
    clientCmd := .empty
    freed := s.freed ++ s.clientCmd.entries.flatMap fun e => e.2.cmds.map Entry.id
    sends := s.sends.map fun w => w.abort fun c => s.clientCmd.entries.any fun e => e.2.conn = c }

/-! ## SendCmdData -/

/-- The result and what has become of the state: `iResult` is set to `false` and never again (`:56`). -/
def sendCmdData (k : Socket) (p : PCmd) : Bool × State n :=
  if h : SOCKET_BUFFER_SIZE ≤ p.cmd.length then (false, s)
  else
    let iResult := false
    match s.clientCmd.find k with
    | none => (iResult, s)
    | some c =>
      if c.sendQueue.length < QUEUE_SIZE then
        let x : Entry := ⟨p.cmd, p.id, ⟨c.conn, s.nextSeq⟩, Nat.lt_of_not_le h⟩
        (iResult, { s with
          clientCmd := s.clientCmd.set k { c with sendQueue := c.sendQueue ++ [x] }
          nextSeq := s.nextSeq + 1 })
      else (iResult, s)

/-- The queue has a node for the command. -/
def takes (k : Socket) (p : PCmd) : Bool :=
  p.cmd.length < SOCKET_BUFFER_SIZE && (s.clientCmd.find k).any fun c => c.sendQueue.length < QUEUE_SIZE

/-- A caller calls. Who has the command then is up to the queue, whatever the result says: a command that is
not taken is still another caller's, but `RecvNetCmdData` loses the pointer. -/
def hand (t : Fin n) (k : Socket) (p : PCmd) (inner : Bool) : State n :=
  let s' := (s.sendCmdData k p).2
  if s.takes k p then s'.goto t .idle
  else if inner then { s' with lost := s'.lost ++ [p.id] }.goto t .idle
  else s'.goto t (.holding p)

/-! ## SendThread -/

/-- One turn of the loop over a client's queue; behind it, `tempCmds[clientSocket] = vecCmds` (`:107-132`). -/
def pop (t : Fin n) (k : Socket) (todo : List Socket) (vec : List Entry) (temp : TempCmds) : State n :=
  let next := s.goto t (.drain todo (temp ++ [(k, vec)]))
  if vec.length < FRAME_NUMBER_SEND_DATA then
    match s.clientCmd.find k with
    | none => next
    | some c =>
      match c.sendQueue with
      | [] => next
      | x :: queue =>
        { s with clientCmd := s.clientCmd.set k { c with sendQueue := queue } }.goto t
          (if cmdLength vec + x.cmd.length < SOCKET_BUFFER_SIZE then .popping k todo (vec ++ [x]) temp
          else .full k todo vec x temp)
  else next

/-- `sendQueue.bounded_push(pCmd)` of the command that does not fit (`:127-128`). -/
def putBack (t : Fin n) (k : Socket) (todo : List Socket) (vec : List Entry) (x : Entry) (temp : TempCmds) :
    State n :=
  (match s.clientCmd.find k with
    | some c =>
      if c.sendQueue.length < QUEUE_SIZE then
        { s with clientCmd := s.clientCmd.set k { c with sendQueue := c.sendQueue ++ [x] } }
      else { s with lost := s.lost ++ [x.id] }
    | none => { s with lost := s.lost ++ [x.id] }).goto t (.drain todo (temp ++ [(k, vec)]))

/-- `new char[SOCKET_BUFFER_SIZE]` at `b`, with whatever is there (`:141`). -/
def newBuff (t : Fin n) (b : Nat) (cells : Nat → Cell) (temp : TempCmds) : State n :=
  { s with buffs := Function.update s.buffs b ⟨true, cells⟩ }.goto t (.turn b temp)

/-- `delete[] sendBuff` (`:171`). -/
def deleteBuff (t : Fin n) (b : Nat) : State n :=
  { s with buffs := Function.update s.buffs b { s.buffs b with live := false } }.goto t .idle

/-- `memcpy_s`, `offset += length`, `SAFE_DELETE(pCmd)` (`:153-155`). -/
def packOne (t : Fin n) (j : Job) (x : Entry) (vec : List Entry) : State n :=
  { s with
    buffs := Function.update s.buffs j.b ((s.buffs j.b).write j.offset x.cells)
    freed := s.freed ++ [x.id] }.goto t (.pack { j with vec := vec, offset := j.offset + x.cmd.length })

/-- One turn of the packing loop (`:147-169`). -/
def pack (t : Fin n) (j : Job) : State n :=
  match j.vec with
  | x :: vec =>
    if j.offset + x.cmd.length < SOCKET_BUFFER_SIZE then s.packOne t j x vec else s.goto t (.sendReq j)
  | [] => if j.offset ≠ 0 then s.goto t (.sendReq j) else s.goto t (.turn j.b j.temp)

/-! ## SendReq -/

/-- Find the context, `wsaSendBuf.buf = buff` (`:234-240`). -/
def sendReq (t : Fin n) (j : Job) : State n :=
  match s.clientsContext.find j.k with
  | none => s.goto t (.pack j.sent)
  | some c => { s with clientsContext := s.clientsContext.set j.k { c with buf := j.b } }.goto t (.setLen j)

/-- `wsaSendBuf.len = length` (`:241`). -/
def setLen (t : Fin n) (j : Job) : State n :=
  match s.clientsContext.find j.k with
  | none => s.goto t (.wsaSend j)
  | some c => { s with clientsContext := s.clientsContext.set j.k { c with len := j.offset } }.goto t (.wsaSend j)

/-- `WSASend(s, &wsaSendBuf, ..)` (`:242`). -/
def wsaSend (t : Fin n) (j : Job) (ok : Bool) : State n :=
  match s.clientsContext.find j.k with
  | none => s.goto t (.pack j.sent)
  | some c =>
    { s with
      given := s.given ++ ((s.buffs c.buf).read c.len).filterMap Cell.stamp
      sends := if ok then
          s.sends ++ [Wsa.mk c.conn c.buf c.len ((s.buffs j.b).read j.offset) [] .pending]
        else s.sends }.goto t (if ok then .pack j.sent else .sendFailed j)

/-! ## The operating system -/

/-- The next byte of a pending send, from its buffer; `junk` is what freed memory holds. -/
def transmit (i : Nat) (w : Wsa) (junk : Cell) : State n :=
  let cell := if (s.buffs w.buf).live then (s.buffs w.buf).cells w.sent.length else junk
  { s with sends := s.sends.set i { w with sent := w.sent ++ [cell] } }

def complete (i : Nat) (w : Wsa) (ok : Bool) : State n :=
  { s with sends := s.sends.set i { w with status := if ok then .done else .failed } }

end State

/-! ## Steps -/

inductive Act (n : Nat) where
  | addNewClient (k : Socket)
  /-- `RemoveClient` called by the heartbeat or by a failing receive. -/
  | removeClient (k : Socket)
  | removeAllClient
  /-- A thread creates a command and calls `SendCmdData`. -/
  | call (t : Fin n) (k : Socket) (cmd : NetCmd) (inner : Bool)
  /-- A caller frees the command it still has. -/
  | free (t : Fin n)
  | sendThread (t : Fin n)
  | newBuff (t : Fin n) (b : Nat) (cells : Nat → Cell)
  | run (t : Fin n) (ok : Bool)
  | transmit (i : Nat) (junk : Cell)
  | complete (i : Nat) (ok : Bool)

variable {n : Nat}

/-- No thread is in a shared section. -/
def State.unshared (s : State n) : Prop := ∀ t, shares (s.pc t) = false

instance (s : State n) : Decidable s.unshared := inferInstanceAs (Decidable (∀ t, shares (s.pc t) = false))

/-- The next step of thread `t` at each place. -/
def State.next (s : State n) (t : Fin n) (ok : Bool) : Pc → Option (State n)
  | .idle | .holding _ | .drained (_ :: _) => none
  | .handing k p inner => some (s.hand t k p inner)
  | .drain [] temp => some (s.goto t (.drained temp))
  | .drain (k :: todo) temp => some (s.goto t (.popping k todo [] temp))
  | .popping k todo vec temp => some (s.pop t k todo vec temp)
  | .full k todo vec x temp => some (s.putBack t k todo vec x temp)
  | .drained [] => some (s.goto t .idle)
  | .turn b [] => some (s.deleteBuff t b)
  | .turn b (e :: temp) => some (s.goto t (.pack ⟨b, e.1, e.2, 0, temp⟩))
  | .pack j => some (s.pack t j)
  | .sendReq j => some (s.sendReq t j)
  | .setLen j => some (s.setLen t j)
  | .wsaSend j => some (s.wsaSend t j ok)
  | .sendFailed j => if s.unshared then some ((s.removeClient j.k).goto t (.pack j.sent)) else none

def step (s : State n) : Act n → Option (State n)
  | .addNewClient k => if s.unshared ∧ s.clientCmd.find k = none then some (s.addNewClient k) else none
  | .removeClient k => if s.unshared then some (s.removeClient k) else none
  | .removeAllClient => if s.unshared then some s.removeAllClient else none
  | .call t k cmd inner =>
    if s.pc t = .idle then some ({ s with nextId := s.nextId + 1 }.goto t (.handing k ⟨cmd, s.nextId⟩ inner))
    else none
  | .free t =>
    match s.pc t with
    | .holding p => some ({ s with freed := s.freed ++ [p.id] }.goto t .idle)
    | _ => none
  | .sendThread t => if s.pc t = .idle then some (s.goto t (.drain s.clientCmd.keys [])) else none
  | .newBuff t b cells =>
    match s.pc t with
    | .drained (e :: temp) => if (s.buffs b).live = false then some (s.newBuff t b cells (e :: temp)) else none
    | _ => none
  | .run t ok => s.next t ok (s.pc t)
  | .transmit i junk =>
    match s.sends[i]? with
    | some w => if w.status = .pending ∧ w.sent.length < w.len then some (s.transmit i w junk) else none
    | none => none
  | .complete i ok =>
    match s.sends[i]? with
    | some w => if w.status = .pending ∧ (ok = true → w.sent.length = w.len) then some (s.complete i w ok) else none
    | none => none

/-- A started server without clients. -/
def start (n : Nat) : State n where
  clientsContext := .empty
  clientCmd := .empty
  buffs := fun _ => ⟨false, fun _ => ⟨0, none⟩⟩
  sends := []
  given := []
  freed := []
  lost := []
  pc := fun _ => .idle
  nextConn := 0
  nextSeq := 0
  nextId := 0

/-- The server with `n` threads that run passes of `SendThread` and calls of `SendCmdData`. -/
def sys (n : Nat) : Sys (State n) (Act n) where
  init s := s = start n
  step := step

/-- A command that is a header. -/
def headerCmd (subCmd : UInt8) : NetCmd :=
  ⟨[6, 0, 0, 0, subCmd, 0], Nat.le_of_ble_eq_true rfl, Nat.le_of_ble_eq_true rfl⟩

/-- A call of `SendCmdData` on thread `t`. -/
def callRun (t : Fin n) (k : Socket) (cmd : NetCmd) : List (Act n) := [.call t k cmd false, .run t true]

/-- The next `m` steps of thread `t`. -/
def runs (t : Fin n) (m : Nat) : List (Act n) := List.replicate m (.run t true)

/-! ## What a step can do -/

/-- The moves of `step`, each with the place it is taken from and the branch it takes. -/
inductive Move (s : State n) : Act n → State n → Prop
  | addNewClient {k : Socket} : s.unshared → s.clientCmd.find k = none →
      Move s (.addNewClient k) (s.addNewClient k)
  | removeClient {k : Socket} : s.unshared → Move s (.removeClient k) (s.removeClient k)
  | removeAllClient : s.unshared → Move s .removeAllClient s.removeAllClient
  | call {t : Fin n} {k : Socket} {cmd : NetCmd} {inner : Bool} : s.pc t = .idle →
      Move s (.call t k cmd inner) ({ s with nextId := s.nextId + 1 }.goto t (.handing k ⟨cmd, s.nextId⟩ inner))
  | taken {t : Fin n} {ok : Bool} {k : Socket} {p : PCmd} {inner : Bool} {c : Client}
      (h : p.cmd.length < SOCKET_BUFFER_SIZE) : s.pc t = .handing k p inner → s.takes k p = true →
      s.clientCmd.find k = some c →
      Move s (.run t ok) ({ s with
        clientCmd := s.clientCmd.set k { c with sendQueue := c.sendQueue ++ [Entry.mk p.cmd p.id ⟨c.conn, s.nextSeq⟩ h] }
        nextSeq := s.nextSeq + 1 }.goto t .idle)
  | dropped {t : Fin n} {ok : Bool} {k : Socket} {p : PCmd} : s.pc t = .handing k p true →
      s.takes k p = false → Move s (.run t ok) ({ s with lost := s.lost ++ [p.id] }.goto t .idle)
  | kept {t : Fin n} {ok : Bool} {k : Socket} {p : PCmd} : s.pc t = .handing k p false →
      s.takes k p = false → Move s (.run t ok) (s.goto t (.holding p))
  | free {t : Fin n} {p : PCmd} : s.pc t = .holding p →
      Move s (.free t) ({ s with freed := s.freed ++ [p.id] }.goto t .idle)
  | sendThread {t : Fin n} : s.pc t = .idle → Move s (.sendThread t) (s.goto t (.drain s.clientCmd.keys []))
  | drainEnd {t : Fin n} {ok : Bool} {temp : TempCmds} : s.pc t = .drain [] temp →
      Move s (.run t ok) (s.goto t (.drained temp))
  | drainNext {t : Fin n} {ok : Bool} {k : Socket} {todo : List Socket} {temp : TempCmds} :
      s.pc t = .drain (k :: todo) temp → Move s (.run t ok) (s.goto t (.popping k todo [] temp))
  | popEnd {t : Fin n} {ok : Bool} {k : Socket} {todo : List Socket} {vec : List Entry} {temp : TempCmds} :
      s.pc t = .popping k todo vec temp → Move s (.run t ok) (s.goto t (.drain todo (temp ++ [(k, vec)])))
  | pop {t : Fin n} {ok : Bool} {k : Socket} {todo : List Socket} {vec : List Entry} {temp : TempCmds} {c : Client}
      {x : Entry} {queue : List Entry} : s.pc t = .popping k todo vec temp → vec.length < FRAME_NUMBER_SEND_DATA →
      s.clientCmd.find k = some c → c.sendQueue = x :: queue →
      cmdLength vec + x.cmd.length < SOCKET_BUFFER_SIZE →
      Move s (.run t ok) ({ s with clientCmd := s.clientCmd.set k { c with sendQueue := queue } }.goto t
        (.popping k todo (vec ++ [x]) temp))
  | popFull {t : Fin n} {ok : Bool} {k : Socket} {todo : List Socket} {vec : List Entry} {temp : TempCmds}
      {c : Client} {x : Entry} {queue : List Entry} : s.pc t = .popping k todo vec temp →
      vec.length < FRAME_NUMBER_SEND_DATA → s.clientCmd.find k = some c → c.sendQueue = x :: queue →
      Move s (.run t ok) ({ s with clientCmd := s.clientCmd.set k { c with sendQueue := queue } }.goto t
        (.full k todo vec x temp))
  | putBack {t : Fin n} {ok : Bool} {k : Socket} {todo : List Socket} {vec : List Entry} {x : Entry}
      {temp : TempCmds} {c : Client} : s.pc t = .full k todo vec x temp → s.clientCmd.find k = some c →
      c.sendQueue.length < QUEUE_SIZE →
      Move s (.run t ok) ({ s with clientCmd := s.clientCmd.set k { c with sendQueue := c.sendQueue ++ [x] } }.goto t
        (.drain todo (temp ++ [(k, vec)])))
  | putLost {t : Fin n} {ok : Bool} {k : Socket} {todo : List Socket} {vec : List Entry} {x : Entry}
      {temp : TempCmds} : s.pc t = .full k todo vec x temp →
      (∀ c, s.clientCmd.find k = some c → QUEUE_SIZE ≤ c.sendQueue.length) →
      Move s (.run t ok) ({ s with lost := s.lost ++ [x.id] }.goto t (.drain todo (temp ++ [(k, vec)])))
  | noClients {t : Fin n} {ok : Bool} : s.pc t = .drained [] → Move s (.run t ok) (s.goto t .idle)
  | newBuff {t : Fin n} {b : Nat} {cells : Nat → Cell} {temp : TempCmds} : s.pc t = .drained temp →
      (s.buffs b).live = false → Move s (.newBuff t b cells) (s.newBuff t b cells temp)
  | deleteBuff {t : Fin n} {ok : Bool} {b : Nat} : s.pc t = .turn b [] → Move s (.run t ok) (s.deleteBuff t b)
  | turn {t : Fin n} {ok : Bool} {b : Nat} {k : Socket} {vec : List Entry} {temp : TempCmds} :
      s.pc t = .turn b ((k, vec) :: temp) → Move s (.run t ok) (s.goto t (.pack ⟨b, k, vec, 0, temp⟩))
  | packOne {t : Fin n} {ok : Bool} {j : Job} {x : Entry} {vec : List Entry} : s.pc t = .pack j → j.vec = x :: vec →
      j.offset + x.cmd.length < SOCKET_BUFFER_SIZE → Move s (.run t ok) (s.packOne t j x vec)
  | packed {t : Fin n} {ok : Bool} {j : Job} : s.pc t = .pack j → j.offset ≠ 0 →
      Move s (.run t ok) (s.goto t (.sendReq j))
  | packEnd {t : Fin n} {ok : Bool} {j : Job} : s.pc t = .pack j → j.vec = [] → j.offset = 0 →
      Move s (.run t ok) (s.goto t (.turn j.b j.temp))
  | sendReq {t : Fin n} {ok : Bool} {j : Job} {c : Context} : s.pc t = .sendReq j →
      s.clientsContext.find j.k = some c →
      Move s (.run t ok)
        ({ s with clientsContext := s.clientsContext.set j.k { c with buf := j.b } }.goto t (.setLen j))
  | noContext {t : Fin n} {ok : Bool} {j : Job} : s.pc t = .sendReq j → s.clientsContext.find j.k = none →
      Move s (.run t ok) (s.goto t (.pack j.sent))
  | setLen {t : Fin n} {ok : Bool} {j : Job} : s.pc t = .setLen j → Move s (.run t ok) (s.setLen t j)
  | wsaSend {t : Fin n} {ok : Bool} {j : Job} : s.pc t = .wsaSend j → Move s (.run t ok) (s.wsaSend t j ok)
  | sendFailed {t : Fin n} {ok : Bool} {j : Job} : s.pc t = .sendFailed j → s.unshared →
      Move s (.run t ok) ((s.removeClient j.k).goto t (.pack j.sent))
  | transmit {i : Nat} {junk : Cell} {w : Wsa} : s.sends[i]? = some w → w.status = .pending →
      w.sent.length < w.len → Move s (.transmit i junk) (s.transmit i w junk)
  | complete {i : Nat} {ok : Bool} {w : Wsa} : s.sends[i]? = some w → w.status = .pending →
      (ok = true → w.sent.length = w.len) → Move s (.complete i ok) (s.complete i w ok)

theorem hand_move {s : State n} {t : Fin n} {ok : Bool} {k : Socket} {p : PCmd} {inner : Bool}
    (hp : s.pc t = .handing k p inner) : Move s (.run t ok) (s.hand t k p inner) := by
  have hno : s.takes k p = false → (s.sendCmdData k p).2 = s := by
    intro ht
    unfold State.sendCmdData
    split
    · rfl
    case isFalse hl =>
      simp only [State.takes, decide_eq_true (Nat.lt_of_not_le hl), Bool.true_and] at ht
      split
      · rfl
      case h_2 c hf =>
        rw [hf, Option.any_some, decide_eq_false_iff_not] at ht
        rw [if_neg ht]
  unfold State.hand
  cases ht : s.takes k p with
  | false =>
    rw [hno ht, if_neg Bool.false_ne_true]
    cases inner with
    | true => exact .dropped hp ht
    | false => exact .kept hp ht
  | true =>
    have ht' := ht
    simp only [State.takes, Bool.and_eq_true, decide_eq_true_eq] at ht'
    obtain ⟨hl, hq⟩ := ht'
    cases hf : s.clientCmd.find k with
    | none => simp [hf] at hq
    | some c =>
      rw [hf, Option.any_some, decide_eq_true_eq] at hq
      simp only [State.sendCmdData, dif_neg (Nat.not_le.2 hl), hf, if_pos hq, if_true]
      exact .taken hl hp ht hf

theorem pop_move {s : State n} {t : Fin n} {ok : Bool} {k : Socket} {todo : List Socket} {vec : List Entry}
    {temp : TempCmds} (hp : s.pc t = .popping k todo vec temp) :
    Move s (.run t ok) (s.pop t k todo vec temp) := by
  unfold State.pop
  split
  case isTrue hv =>
    split
    · exact .popEnd hp
    case h_2 c hf =>
      split
      · exact .popEnd hp
      case h_2 x queue hq =>
        split
        case isTrue hl => exact .pop hp hv hf hq hl
        case isFalse => exact .popFull hp hv hf hq
  case isFalse => exact .popEnd hp

theorem putBack_move {s : State n} {t : Fin n} {ok : Bool} {k : Socket} {todo : List Socket} {vec : List Entry}
    {x : Entry} {temp : TempCmds} (hp : s.pc t = .full k todo vec x temp) :
    Move s (.run t ok) (s.putBack t k todo vec x temp) := by
  unfold State.putBack
  split
  case h_1 c hf =>
    split
    case isTrue hq => exact .putBack hp hf hq
    case isFalse hq =>
      refine .putLost hp ?_
      intro d hd
      rw [hf] at hd
      cases hd
      exact Nat.le_of_not_lt hq
  case h_2 hf => exact .putLost hp fun d hd => nomatch hf.symm.trans hd

theorem pack_move {s : State n} {t : Fin n} {ok : Bool} {j : Job} (hp : s.pc t = .pack j) :
    Move s (.run t ok) (s.pack t j) := by
  unfold State.pack
  split
  case h_1 x vec hv =>
    split
    case isTrue hl => exact .packOne hp hv hl
    case isFalse hl =>
      -- a command that does not fit behind `offset` is shorter than the buffer
      have := x.short
      exact .packed hp (by omega)
  case h_2 hv =>
    split
    case isTrue ho => exact .packed hp ho
    case isFalse ho => exact .packEnd hp hv (Nat.eq_zero_of_not_pos fun h => ho (Nat.ne_of_gt h))

theorem next_move {s s' : State n} {t : Fin n} {ok : Bool} {p : Pc} (hp : s.pc t = p)
    (h : s.next t ok p = some s') : Move s (.run t ok) s' := by
  cases p with
  | idle => cases h
  | handing k p inner => cases h; exact hand_move hp
  | holding p => cases h
  | drain todo temp =>
    cases todo with
    | nil => cases h; exact .drainEnd hp
    | cons k todo => cases h; exact .drainNext hp
  | popping k todo vec temp => cases h; exact pop_move hp
  | full k todo vec x temp => cases h; exact putBack_move hp
  | drained temp =>
    cases temp with
    | nil => cases h; exact .noClients hp
    | cons e temp => cases h
  | turn b temp =>
    cases temp with
    | nil => cases h; exact .deleteBuff hp
    | cons e temp => cases h; exact .turn hp
  | pack j => cases h; exact pack_move hp
  | sendReq j =>
    cases h
    unfold State.sendReq
    split
    case h_1 hf => exact .noContext hp hf
    case h_2 c hf => exact .sendReq hp hf
  | setLen j => cases h; exact .setLen hp
  | wsaSend j => cases h; exact .wsaSend hp
  | sendFailed j =>
    obtain ⟨hu, he⟩ := Option.ite_none_right_eq_some.1 h
    cases he
    exact .sendFailed hp hu

/-- **Every step is one of the moves.** -/
theorem step_move {s s' : State n} {a : Act n} (h : step s a = some s') : Move s a s' := by
  cases a with
  | addNewClient k =>
    obtain ⟨⟨hu, hk⟩, he⟩ := Option.ite_none_right_eq_some.1 h
    cases he
    exact .addNewClient hu hk
  | removeClient k =>
    obtain ⟨hu, he⟩ := Option.ite_none_right_eq_some.1 h
    cases he
    exact .removeClient hu
  | removeAllClient =>
    obtain ⟨hu, he⟩ := Option.ite_none_right_eq_some.1 h
    cases he
    exact .removeAllClient hu
  | call t k cmd inner =>
    obtain ⟨hp, he⟩ := Option.ite_none_right_eq_some.1 h
    cases he
    exact .call hp
  | free t =>
    cases hp : s.pc t <;> simp only [step, hp, reduceCtorEq] at h
    cases h
    exact .free hp
  | sendThread t =>
    obtain ⟨hp, he⟩ := Option.ite_none_right_eq_some.1 h
    cases he
    exact .sendThread hp
  | newBuff t b cells =>
    simp only [step] at h
    split at h
    case h_1 e temp hp =>
      obtain ⟨hb, he⟩ := Option.ite_none_right_eq_some.1 h
      cases he
      exact .newBuff hp hb
    case h_2 => cases h
  | run t ok => exact next_move rfl h
  | transmit i junk =>
    simp only [step] at h
    split at h
    case h_1 w hw =>
      obtain ⟨⟨hs, hl⟩, he⟩ := Option.ite_none_right_eq_some.1 h
      cases he
      exact .transmit hw hs hl
    case h_2 => cases h
  | complete i ok =>
    simp only [step] at h
    split at h
    case h_1 w hw =>
      obtain ⟨⟨hs, hl⟩, he⟩ := Option.ite_none_right_eq_some.1 h
      cases he
      exact .complete hw hs hl
    case h_2 => cases h

end P1Server.Send
