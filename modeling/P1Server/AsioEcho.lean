import P1Server.Lib.Sys
import Mathlib.Data.UInt

/-!
# `AsioTest/proto.hpp`: an echo server that waits for readiness

| here | there |
| --- | --- |
| `Session`            | `third_party_lib::session` (`proto.hpp:25-79`); `Buffer` is `write_buffer_`, a part of `data_` |
| `doRead`, `doWrite`  | `:43-50`, `:59-67`; `io` is what `read_some` and `write_some` give, an error only with nothing moved |
| `Connection`         | `connection` (`:84-188`); `waitRead`, `waitWrite` count the handlers that `async_wait` has been given and not called |
| `Error`              | `error::would_block`, and any other |
| `server`             | `server` (`:190-225`): `accepting` are the connections handed to `async_accept` |

`io_context::run` calls one handler after the other (`Act`). `received` and `sent` are the bytes of the socket. A
connection that fails to accept is never open; `non_blocking` and `close` do not throw here.

* `Connection.Inv` — what is read and not written is in `write_buffer_`, and the one wait is for what the session wants;
* **`echoes`** — what has been sent is what has been received, up to the bytes of one buffer;
* **`one_wait`** — an open connection has one handler to come, a closed one none; and one `async_accept` is waiting;
* **`all_echoed`** — so many writes later, what was received has been sent.
-/

namespace P1Server.AsioEcho
open Lib

inductive Error
  | wouldBlock
  | other
  deriving DecidableEq

inductive Wants
  | reading
  | writing
  deriving DecidableEq

/-- `const_buffer`: `size` bytes from `offset` on. -/
structure Buffer where
  offset : Nat
  size : Nat

/-- `write_buffer_ + len`. -/
def Buffer.advance (b : Buffer) (len : Nat) : Buffer := ⟨b.offset + min len b.size, b.size - min len b.size⟩

structure Session where
  state : Wants
  data : List UInt8
  writeBuffer : Buffer

/-- The length of `data_`. -/
def dataSize : Nat := 128

def Session.wantRead (s : Session) : Bool := s.state == .reading

def Session.wantWrite (s : Session) : Bool := s.state == .writing

/-- The bytes of `write_buffer_`. -/
def Session.pending (s : Session) : List UInt8 := (s.data.drop s.writeBuffer.offset).take s.writeBuffer.size

structure Connection where
  isOpen : Bool
  session : Session
  readInProgress : Bool
  writeInProgress : Bool
  waitRead : Nat
  waitWrite : Nat
  received : List UInt8
  sent : List UInt8

/-- `read_some` fills the front of `data_`. -/
def Session.doRead (s : Session) (bytes : List UInt8) : Session :=
  { state := .writing, data := bytes ++ s.data.drop bytes.length, writeBuffer := ⟨0, bytes.length⟩ }

def Session.doWrite (s : Session) (len : Nat) : Session :=
  { s with
    writeBuffer := s.writeBuffer.advance len
    state := if 0 < (s.writeBuffer.advance len).size then .writing else .reading }

namespace Connection

def create : Connection :=
  ⟨false, ⟨.reading, List.replicate dataSize 0, ⟨0, 0⟩⟩, false, false, 0, 0, [], []⟩

def startRead (c : Connection) : Connection :=
  if c.session.wantRead && !c.readInProgress then { c with readInProgress := true, waitRead := c.waitRead + 1 } else c

def startWrite (c : Connection) : Connection :=
  if c.session.wantWrite && !c.writeInProgress then { c with writeInProgress := true, waitWrite := c.waitWrite + 1 }
  else c

def startOperations (c : Connection) : Connection := c.startRead.startWrite

def start (c : Connection) : Connection := { c with isOpen := true }.startOperations

def close (c : Connection) : Connection := { c with isOpen := false }

/-- What follows a read or a write that left `ec`. -/
def proceed (c : Connection) (ec : Option Error) : Connection :=
  if ec = none ∨ ec = some .wouldBlock then c.startOperations else c.close

/-- `do_read(ec)`. -/
def doRead (c : Connection) (io : Except Error (List UInt8)) : Connection × Option Error :=
  match io with
  | .ok bytes => ({ c with session := c.session.doRead bytes, received := c.received ++ bytes }, none)
  | .error e => (c, some e)

/-- `do_write(ec)`. -/
def doWrite (c : Connection) (io : Except Error Nat) : Connection × Option Error :=
  match io with
  | .ok len => ({ c with session := c.session.doWrite len, sent := c.sent ++ c.session.pending.take len }, none)
  | .error e => (c, some e)

/-- `handle_read`, called with `ec`. -/
def handleRead (c : Connection) (ec : Option Error) (io : Except Error (List UInt8)) : Connection :=
  let c := { c with readInProgress := false, waitRead := c.waitRead - 1 }
  let (c, ec) := if ec = none then c.doRead io else (c, ec)
  c.proceed ec

/-- `handle_write`, called with `ec`. -/
def handleWrite (c : Connection) (ec : Option Error) (io : Except Error Nat) : Connection :=
  let c := { c with writeInProgress := false, waitWrite := c.waitWrite - 1 }
  let (c, ec) := if ec = none then c.doWrite io else (c, ec)
  c.proceed ec

end Connection

/-- `connections` are numbered in the order of `create`; `next` is the number of the next one. -/
structure State where
  connections : Nat → Connection
  next : Nat
  accepting : List Nat

/-- A handler that `io_context::run` calls. -/
inductive Act
  | accept (i : Nat) (error : Bool)
  | read (i : Nat) (ec : Option Error) (io : Except Error (List UInt8))
  | write (i : Nat) (ec : Option Error) (io : Except Error Nat)

variable {s s' : State} {c c' : Connection} {i : Nat}

/-- What `read_some` may give: up to `data_.size()` bytes, not none of them. -/
def readSome : Except Error (List UInt8) → Bool
  | .ok bytes => 0 < bytes.length && bytes.length ≤ dataSize
  | .error _ => true

/-- What `write_some` may give: some of the bytes. -/
def writeSome (size : Nat) : Except Error Nat → Bool
  | .ok len => 0 < len && len ≤ size
  | .error _ => true

def State.set (s : State) (i : Nat) (c : Connection) : State :=
  { s with connections := Function.update s.connections i c }

def startAccept (s : State) : State :=
  { s with
    connections := Function.update s.connections s.next .create
    next := s.next + 1
    accepting := s.accepting ++ [s.next] }

def handleAccept (s : State) (i : Nat) (error : Bool) : State :=
  let s := { s with accepting := s.accepting.erase i }
  startAccept (if error then s else s.set i (s.connections i).start)

def step (s : State) : Act → Option State
  | .accept i error => if i ∈ s.accepting then some (handleAccept s i error) else none
  | .read i ec io =>
    if 0 < (s.connections i).waitRead ∧ readSome io = true then some (s.set i ((s.connections i).handleRead ec io))
    else none
  | .write i ec io =>
    if 0 < (s.connections i).waitWrite ∧ writeSome (s.connections i).session.writeBuffer.size io = true then
      some (s.set i ((s.connections i).handleWrite ec io))
    else none

/-- The constructor of `server` calls `start_accept`. -/
def server : Sys State Act where
  init s := s = startAccept ⟨fun _ => .create, 0, []⟩
  step := step

/-! ## One connection -/

namespace Connection

/-- `write_buffer_` lies in `data_` and has what was read and not written; without it the session reads. -/
structure Bytes (c : Connection) : Prop where
  echo : c.received = c.sent ++ c.session.pending
  length : c.session.data.length = dataSize
  room : c.session.writeBuffer.offset + c.session.writeBuffer.size ≤ dataSize
  state : c.session.state = if 0 < c.session.writeBuffer.size then .writing else .reading

/-- An open connection waits for what the session wants, once; a closed one does not wait. -/
structure Waits (c : Connection) : Prop where
  read : c.readInProgress = (c.isOpen && c.session.wantRead)
  write : c.writeInProgress = (c.isOpen && c.session.wantWrite)
  waitRead : c.waitRead = c.readInProgress.toNat
  waitWrite : c.waitWrite = c.writeInProgress.toNat

structure Inv (c : Connection) : Prop where
  bytes : c.Bytes
  waits : c.Waits

/-- While one of its handlers runs, no other is to come. -/
structure Running (c : Connection) : Prop where
  bytes : c.Bytes
  isOpen : c.isOpen = true
  read : c.readInProgress = false
  write : c.writeInProgress = false
  waitRead : c.waitRead = 0
  waitWrite : c.waitWrite = 0

end Connection

namespace Session

/-- Bytes are pending just when the session wants to write. -/
theorem pending_nil {s : Session} (h : s.writeBuffer.size = 0) : s.pending = [] := by
  simp [pending, h]

theorem pending_doRead (s : Session) (bytes : List UInt8) : (s.doRead bytes).pending = bytes := by
  simp [pending, doRead]

/-- What `write_some` takes is what leaves the buffer. -/
theorem pending_doWrite (s : Session) {len : Nat} (h : len ≤ s.writeBuffer.size) :
    s.pending = s.pending.take len ++ (s.doWrite len).pending := by
  have hmin : min len s.writeBuffer.size = len := by omega
  rw [← List.take_append_drop len s.pending]
  congr 1
  · simp
  · simp [pending, doWrite, Buffer.advance, hmin, List.drop_take, List.drop_drop]

end Session

namespace Connection

theorem Running.startOperations (h : c.Running) : c.startOperations.Inv := by
  obtain ⟨hb, ho, hr, hw, hwr, hww⟩ := h
  obtain ⟨he, hl, hroom, hs⟩ := hb
  cases hst : c.session.state <;>
    refine ⟨⟨?_, ?_, ?_, ?_⟩, ⟨?_, ?_, ?_, ?_⟩⟩ <;>
    simp_all [Connection.startOperations, startRead, startWrite, Session.wantRead, Session.wantWrite]

theorem Running.proceed (h : c.Running) (ec : Option Error) : (c.proceed ec).Inv := by
  unfold Connection.proceed
  split
  · exact h.startOperations
  · obtain ⟨hb, -, hr, hw, hwr, hww⟩ := h
    exact ⟨⟨hb.echo, hb.length, hb.room, hb.state⟩, by simp [close, hr], by simp [close, hw],
      by simp [close, hr, hwr], by simp [close, hw, hww]⟩

theorem Bytes.size_zero (h : c.Bytes) (hs : c.session.state = .reading) : c.session.writeBuffer.size = 0 := by
  have := h.state
  rw [hs] at this
  split at this
  · cases this
  · omega

theorem Running.doRead (h : c.Running) (hs : c.session.state = .reading) {io : Except Error (List UInt8)}
    (hio : readSome io = true) : (c.doRead io).1.Running := by
  cases io with
  | error e => exact h
  | ok bytes =>
    simp only [readSome, Bool.and_eq_true, decide_eq_true_eq] at hio
    have hnil := Session.pending_nil (h.bytes.size_zero hs)
    have hecho := h.bytes.echo
    rw [hnil, List.append_nil] at hecho
    refine ⟨⟨?_, ?_, ?_, ?_⟩, h.isOpen, h.read, h.write, h.waitRead, h.waitWrite⟩
    · simp only [Connection.doRead]
      rw [Session.pending_doRead, hecho]
    · simp [Connection.doRead, Session.doRead, h.bytes.length]
      omega
    · simp only [Connection.doRead, Session.doRead]
      omega
    · exact (if_pos hio.1).symm

theorem Running.doWrite (h : c.Running) {io : Except Error Nat}
    (hio : writeSome c.session.writeBuffer.size io = true) : (c.doWrite io).1.Running := by
  cases io with
  | error e => exact h
  | ok len =>
    simp only [writeSome, Bool.and_eq_true, decide_eq_true_eq] at hio
    have hroom := h.bytes.room
    refine ⟨⟨?_, h.bytes.length, ?_, rfl⟩, h.isOpen, h.read, h.write, h.waitRead, h.waitWrite⟩
    · simp only [Connection.doWrite]
      rw [List.append_assoc, ← Session.pending_doWrite _ hio.2]
      exact h.bytes.echo
    · simp only [Connection.doWrite, Session.doWrite, Buffer.advance]
      omega

/-- The handler that is called was the one to come. -/
theorem Inv.runningRead (h : c.Inv) (hw : 0 < c.waitRead) :
    Running { c with readInProgress := false, waitRead := c.waitRead - 1 } ∧ c.session.state = .reading := by
  obtain ⟨hb, hr, hwr, hcr, hcw⟩ := h
  have hopen : c.readInProgress = true := by
    rw [hcr] at hw
    cases hp : c.readInProgress with
    | true => rfl
    | false => simp [hp] at hw
  rw [hopen, eq_comm, Bool.and_eq_true] at hr
  have hs : c.session.state = .reading := by simpa [Session.wantRead] using hr.2
  have hno : c.writeInProgress = false := by simp [hwr, Session.wantWrite, hs]
  refine ⟨⟨⟨hb.echo, hb.length, hb.room, hb.state⟩, hr.1, rfl, hno, ?_, ?_⟩, hs⟩
  · simp [hcr, hopen]
  · simp [hcw, hno]

theorem Inv.runningWrite (h : c.Inv) (hw : 0 < c.waitWrite) :
    Running { c with writeInProgress := false, waitWrite := c.waitWrite - 1 } ∧ c.session.state = .writing := by
  obtain ⟨hb, hr, hwr, hcr, hcw⟩ := h
  have hopen : c.writeInProgress = true := by
    rw [hcw] at hw
    cases hp : c.writeInProgress with
    | true => rfl
    | false => simp [hp] at hw
  rw [hopen, eq_comm, Bool.and_eq_true] at hwr
  have hs : c.session.state = .writing := by simpa [Session.wantWrite] using hwr.2
  have hno : c.readInProgress = false := by simp [hr, Session.wantRead, hs]
  refine ⟨⟨⟨hb.echo, hb.length, hb.room, hb.state⟩, hwr.1, hno, rfl, ?_, ?_⟩, hs⟩
  · simp [hcr, hno]
  · simp [hcw, hopen]

theorem Inv.handleRead (h : c.Inv) (hw : 0 < c.waitRead) (ec : Option Error) {io : Except Error (List UInt8)}
    (hio : readSome io = true) : (c.handleRead ec io).Inv := by
  obtain ⟨hrun, hs⟩ := h.runningRead hw
  unfold Connection.handleRead
  by_cases he : ec = none
  · simp only [if_pos he]
    exact (hrun.doRead hs hio).proceed _
  · simp only [if_neg he]
    exact hrun.proceed _

theorem Inv.handleWrite (h : c.Inv) (hw : 0 < c.waitWrite) (ec : Option Error) {io : Except Error Nat}
    (hio : writeSome c.session.writeBuffer.size io = true) : (c.handleWrite ec io).Inv := by
  obtain ⟨hrun, -⟩ := h.runningWrite hw
  unfold Connection.handleWrite
  by_cases he : ec = none
  · simp only [if_pos he]
    exact (hrun.doWrite hio).proceed _
  · simp only [if_neg he]
    exact hrun.proceed _

theorem create_bytes : create.Bytes := ⟨rfl, by simp [create], by simp [create], rfl⟩

theorem create_inv : create.Inv := ⟨create_bytes, rfl, rfl, rfl, rfl⟩

theorem start_create : (Connection.start .create).Inv :=
  Running.startOperations
    ⟨⟨create_bytes.echo, create_bytes.length, create_bytes.room, create_bytes.state⟩, rfl, rfl, rfl, rfl, rfl⟩

end Connection

/-! ## The server -/

/-- One `async_accept` is waiting, for the connection made last. -/
structure Inv (s : State) : Prop where
  connection : ∀ i, (s.connections i).Inv
  accepting : ∃ k, s.accepting = [k] ∧ s.next = k + 1
  fresh : ∀ i, s.next ≤ i + 1 → s.connections i = .create

theorem Inv.startAccept (h : ∀ i, (s.connections i).Inv) (hno : s.accepting = []) (hf : ∀ i, s.next ≤ i →
    s.connections i = .create) : Inv (startAccept s) := by
  refine ⟨?_, ⟨s.next, by simp [AsioEcho.startAccept, hno], rfl⟩, ?_⟩
  · intro i
    by_cases hi : i = s.next
    · simp [AsioEcho.startAccept, hi, Connection.create_inv]
    · simp only [AsioEcho.startAccept, Function.update_of_ne hi]
      exact h i
  · intro i hi
    simp only [AsioEcho.startAccept] at hi ⊢
    by_cases hin : i = s.next
    · rw [hin, Function.update_self]
    · rw [Function.update_of_ne hin]
      exact hf i (by omega)

theorem Inv.set (h : Inv s) {c : Connection} (hc : c.Inv) (hi : i + 1 < s.next) : Inv (s.set i c) := by
  refine ⟨?_, h.accepting, ?_⟩
  · intro j
    by_cases hj : j = i
    · simp only [State.set, hj, Function.update_self]
      exact hc
    · simp only [State.set, Function.update_of_ne hj]
      exact h.connection j
  · intro j hj
    simp only [State.set] at hj ⊢
    rw [Function.update_of_ne (by omega)]
    exact h.fresh j hj

/-- A connection with a handler to come has been accepted. -/
theorem Inv.lt_of_wait (h : Inv s) (hw : 0 < (s.connections i).waitRead ∨ 0 < (s.connections i).waitWrite) :
    i + 1 < s.next := by
  by_contra hno
  rw [h.fresh i (by omega)] at hw
  exact hw.elim (fun hw => absurd hw (by decide)) fun hw => absurd hw (by decide)

theorem Inv.step (h : Inv s) {a : Act} (he : step s a = some s') : Inv s' := by
  cases a with
  | accept i error =>
    obtain ⟨hi, ⟨⟩⟩ := Option.ite_none_right_eq_some.1 he
    obtain ⟨k, hk, hn⟩ := h.accepting
    obtain rfl : i = k := by simpa [hk] using hi
    have hfresh := h.fresh i (by omega)
    cases error with
    | true =>
      refine Inv.startAccept h.connection (by simp [hk]) ?_
      intro j hj
      exact h.fresh j (Nat.le_succ_of_le hj)
    | false =>
      refine Inv.startAccept ?_ (by simp [hk, State.set]) ?_
      · intro j
        by_cases hj : j = i
        · simp [State.set, hj, hfresh, Connection.start_create]
        · simp only [Bool.false_eq_true, if_false, State.set, Function.update_of_ne hj]
          exact h.connection j
      · intro j hj
        simp only [Bool.false_eq_true, if_false, State.set] at hj ⊢
        rw [Function.update_of_ne (by omega)]
        exact h.fresh j (by omega)
  | read i ec io =>
    obtain ⟨⟨hw, hio⟩, ⟨⟩⟩ := Option.ite_none_right_eq_some.1 he
    exact h.set ((h.connection i).handleRead hw ec hio) (h.lt_of_wait (.inl hw))
  | write i ec io =>
    obtain ⟨⟨hw, hio⟩, ⟨⟩⟩ := Option.ite_none_right_eq_some.1 he
    exact h.set ((h.connection i).handleWrite hw ec hio) (h.lt_of_wait (.inr hw))

theorem inv (h : server.Reachable s) : Inv s := by
  refine Sys.Reachable.inv ?_ (fun s a s' hi he => hi.step he) h
  intro s hs
  subst hs
  exact Inv.startAccept (fun _ => Connection.create_inv) rfl fun _ _ => rfl

/-! ## What the peer gets -/

/-- The bytes come back in order and unchanged; only those of one buffer may be missing, and none while the session
reads. -/
structure Echoes (c : Connection) : Prop where
  echo : c.received = c.sent ++ c.session.pending
  most : c.received.length ≤ c.sent.length + dataSize
  all : c.session.wantRead = true → c.sent = c.received

theorem pending_length_le (c : Connection) : c.session.pending.length ≤ c.session.writeBuffer.size := by
  simp [Session.pending]

/-- **What has been sent is what has been received**, on every connection, whatever the order of the handlers. -/
theorem echoes (h : server.Reachable s) (i : Nat) : Echoes (s.connections i) := by
  have hb := ((inv h).connection i).bytes
  have hle := pending_length_le (s.connections i)
  have hroom := hb.room
  refine ⟨hb.echo, ?_, ?_⟩
  · rw [hb.echo, List.length_append]
    omega
  · intro hw
    have hnil := Session.pending_nil (hb.size_zero (by simpa [Session.wantRead] using hw))
    rw [hb.echo, hnil, List.append_nil]

/-- What waits: for each open connection one handler, for the operation the session wants; for the others none, so that
nothing holds them; and one `async_accept`, for a connection not used yet. A flag is set just while its handler waits. -/
structure OneWait (s : State) : Prop where
  one : ∀ i, (s.connections i).waitRead + (s.connections i).waitWrite = (s.connections i).isOpen.toNat
  read : ∀ i, (s.connections i).isOpen = true →
    ((s.connections i).waitRead = 1 ↔ (s.connections i).session.wantRead = true)
  write : ∀ i, (s.connections i).isOpen = true →
    ((s.connections i).waitWrite = 1 ↔ (s.connections i).session.wantWrite = true)
  readFlag : ∀ i, (s.connections i).readInProgress = true ↔ (s.connections i).waitRead = 1
  writeFlag : ∀ i, (s.connections i).writeInProgress = true ↔ (s.connections i).waitWrite = 1
  accept : ∃ k, s.accepting = [k] ∧ s.next = k + 1 ∧ s.connections k = .create

theorem echoes_three : ∃ s, server.Reachable s ∧ (s.connections 0).received = [1, 2, 3] ∧
    (s.connections 0).sent = [1] ∧ Echoes (s.connections 0) := by
  have hrun := Sys.Reachable.run (M := server) [.accept 0 false, .read 0 none (.ok [1, 2, 3]), .write 0 none (.ok 1)]
    (.init rfl) rfl
  exact ⟨_, hrun, rfl, rfl, echoes hrun 0⟩

theorem Connection.wants (c : Connection) : c.session.wantWrite = !c.session.wantRead := by
  cases hs : c.session.state <;> simp [Session.wantRead, Session.wantWrite, hs]

theorem one_wait (h : server.Reachable s) : OneWait s := by
  have hi := inv h
  obtain ⟨k, hk, hn⟩ := hi.accepting
  refine ⟨?_, ?_, ?_, ?_, ?_, k, hk, hn, hi.fresh k (by omega)⟩
  all_goals
    intro i
    obtain ⟨hr, hw, hcr, hcw⟩ := (hi.connection i).waits
    rw [Connection.wants] at hw
    cases ho : (s.connections i).isOpen <;> cases hs : (s.connections i).session.wantRead <;>
      simp [hcr, hcw, hr, hw, ho, hs, Connection.wants]

theorem one_wait_three : ∃ s, server.Reachable s ∧ (s.connections 0).waitWrite = 1 ∧ (s.connections 1).isOpen = false ∧
    s.accepting = [2] ∧ OneWait s := by
  have hrun := Sys.Reachable.run (M := server) [.accept 0 false, .accept 1 false, .read 0 none (.ok [1, 2, 3]),
    .read 1 (some .wouldBlock) (.error .other), .read 1 none (.error .other)] (.init rfl) rfl
  exact ⟨_, hrun, rfl, rfl, rfl, one_wait hrun⟩

/-! ## What is received is sent in the end -/

/-- A call of `handle_write` that has written something. -/
def wrote (i : Nat) : Act → Bool
  | .write j none (.ok _) => j == i
  | _ => false

theorem Connection.startOperations_bytes (c : Connection) :
    c.startOperations.received = c.received ∧ c.startOperations.sent = c.sent := by
  unfold Connection.startOperations startWrite startRead
  split <;> split <;> exact ⟨rfl, rfl⟩

theorem Connection.proceed_bytes (c : Connection) (ec : Option Error) :
    (c.proceed ec).received = c.received ∧ (c.proceed ec).sent = c.sent := by
  unfold Connection.proceed
  split
  · exact c.startOperations_bytes
  · exact ⟨rfl, rfl⟩

theorem Connection.handleRead_bytes (c : Connection) (ec : Option Error) (io : Except Error (List UInt8)) :
    c.received <+: (c.handleRead ec io).received ∧ (c.handleRead ec io).sent = c.sent := by
  unfold Connection.handleRead
  by_cases he : ec = none
  · cases io <;> simp [he, Connection.doRead, Connection.proceed_bytes]
  · simp [he, Connection.proceed_bytes]

/-- A write that succeeds sends the front of `write_buffer_`. -/
theorem Connection.handleWrite_bytes (c : Connection) (ec : Option Error) (io : Except Error Nat) :
    (c.handleWrite ec io).received = c.received ∧ c.sent <+: (c.handleWrite ec io).sent := by
  unfold Connection.handleWrite
  by_cases he : ec = none
  · cases io <;> simp [he, Connection.doWrite, Connection.proceed_bytes]
  · simp [he, Connection.proceed_bytes]

/-- A connection keeps the bytes it has received and sent. -/
structure Grows (c c' : Connection) : Prop where
  received : c.received <+: c'.received
  sent : c.sent <+: c'.sent

theorem Grows.refl (c : Connection) : Grows c c := ⟨List.prefix_refl _, List.prefix_refl _⟩

theorem Grows.trans {c₁ c₂ c₃ : Connection} (h : Grows c₁ c₂) (h' : Grows c₂ c₃) : Grows c₁ c₃ :=
  ⟨h.received.trans h'.received, h.sent.trans h'.sent⟩

theorem Grows.set (h : Grows (s.connections i) c) (j : Nat) : Grows (s.connections j) ((s.set i c).connections j) := by
  by_cases hj : j = i
  · subst hj
    simpa [State.set] using h
  · simp only [State.set, Function.update_of_ne hj]
    exact .refl _

theorem Grows.startAccept (hf : s.connections s.next = .create) (j : Nat) :
    Grows (s.connections j) ((startAccept s).connections j) := by
  by_cases hj : j = s.next
  · subst hj
    simp only [AsioEcho.startAccept, Function.update_self, hf]
    exact .refl _
  · simp only [AsioEcho.startAccept, Function.update_of_ne hj]
    exact .refl _

theorem step_grows (h : Inv s) {a : Act} (he : step s a = some s') (j : Nat) :
    Grows (s.connections j) (s'.connections j) := by
  cases a with
  | accept i error =>
    obtain ⟨hi, ⟨⟩⟩ := Option.ite_none_right_eq_some.1 he
    obtain ⟨k, hk, hn⟩ := h.accepting
    obtain rfl : i = k := by simpa [hk] using hi
    have hfresh := h.fresh s.next (by omega)
    cases error with
    | true => exact Grows.startAccept (s := { s with accepting := s.accepting.erase i }) hfresh j
    | false =>
      have hb := Connection.startOperations_bytes { s.connections i with isOpen := true }
      have hset := Grows.set (s := { s with accepting := s.accepting.erase i }) (i := i)
        (c := (s.connections i).start) ⟨hb.1 ▸ List.prefix_refl _, hb.2 ▸ List.prefix_refl _⟩ j
      refine hset.trans (Grows.startAccept ?_ j)
      simp only [State.set]
      rw [Function.update_of_ne (by omega)]
      exact hfresh
  | read i ec io =>
    obtain ⟨-, ⟨⟩⟩ := Option.ite_none_right_eq_some.1 he
    have hb := (s.connections i).handleRead_bytes ec io
    exact Grows.set ⟨hb.1, hb.2 ▸ List.prefix_refl _⟩ j
  | write i ec io =>
    obtain ⟨-, ⟨⟩⟩ := Option.ite_none_right_eq_some.1 he
    have hb := (s.connections i).handleWrite_bytes ec io
    exact Grows.set ⟨hb.1 ▸ List.prefix_refl _, hb.2⟩ j

/-- A write that succeeds sends something. -/
theorem step_wrote (h : Inv s) {a : Act} (he : step s a = some s') (ha : wrote i a = true) :
    (s.connections i).sent.length < (s'.connections i).sent.length := by
  cases a with
  | accept j error | read j ec io => cases ha
  | write j ec io =>
    obtain ⟨⟨-, hio⟩, ⟨⟩⟩ := Option.ite_none_right_eq_some.1 he
    cases ec with
    | some e => cases ha
    | none =>
      cases io with
      | error e => cases ha
      | ok len =>
        obtain rfl : j = i := beq_iff_eq.1 ha
        simp only [writeSome, Bool.and_eq_true, decide_eq_true_eq] at hio
        have hb := (h.connection j).bytes
        have hroom := hb.room
        have hlen : (s.connections j).session.pending.length = (s.connections j).session.writeBuffer.size := by
          simp [Session.pending, hb.length]
          omega
        simp [State.set, Connection.handleWrite, Connection.doWrite, Connection.proceed_bytes, hlen]
        omega

/-- **What a connection has received is sent** after as many successful writes as bytes are missing, whatever else
happens between them. -/
theorem all_echoed {as : List Act} {t : State} (h : server.Reachable s) (he : server.run s as = some t)
    (hle : (s.connections i).received.length ≤ (s.connections i).sent.length + as.countP (wrote i)) :
    (s.connections i).received <+: (t.connections i).sent := by
  have hi := inv h
  have hecho := ((hi.connection i).bytes).echo
  by_cases hz : (s.connections i).received.length ≤ (s.connections i).sent.length
  · -- nothing is missing
    have hsent : (s.connections i).received <+: (s.connections i).sent := by
      rw [hecho, List.length_append] at hz
      rw [hecho, List.eq_nil_of_length_eq_zero (by omega : (s.connections i).session.pending.length = 0),
        List.append_nil]
    have hrun := Sys.run_inv (M := server) (P := fun u => Inv u ∧ (s.connections i).received <+: (u.connections i).sent)
      (fun u a u' hP hu => ⟨hP.1.step hu, hP.2.trans (step_grows hP.1 hu i).sent⟩) as ⟨hi, hsent⟩ he
    exact hrun.2
  · have hlt : (s.connections i).received.length - (s.connections i).sent.length - 1 < as.countP (wrote i) := by omega
    rw [← Sys.runK_true (K := fun _ _ => True) (fun _ _ => trivial)] at he
    have hrun := Sys.runK_ranked (M := server) (K := fun _ _ => True)
      (P := fun u => Inv u ∧ (s.connections i).received <+: (u.connections i).received)
      (Q := fun u => (s.connections i).received <+: (u.connections i).sent)
      (fun u => (s.connections i).received.length - (u.connections i).sent.length - 1) ?_ as
      ⟨hi, List.prefix_refl _⟩ hlt he
    · exact hrun.2
    · intro u a u' hP _ hu
      obtain ⟨hi, hpre⟩ := hP
      have hgrow := step_grows hi hu i
      refine ⟨⟨hi.step hu, hpre.trans hgrow.received⟩, ?_⟩
      by_cases hQ : (s.connections i).received.length ≤ (u'.connections i).sent.length
      · refine .inl (List.prefix_of_prefix_length_le (hpre.trans hgrow.received) ?_ hQ)
        rw [(((hi.step hu).connection i).bytes).echo]
        exact List.prefix_append _ _
      · have hmono := hgrow.sent.length_le
        refine .inr ⟨fun hq => ?_, ?_⟩
        · have := hq.length_le
          omega
        · cases ha : wrote i a with
          | true =>
            have := step_wrote hi hu ha
            exact .inl (by omega)
          | false => exact .inr ⟨rfl, by omega⟩

theorem all_echoed_three : ∃ s t as, server.Reachable s ∧ server.run s as = some t ∧ (s.connections 0).sent = [] ∧
    [1, 2, 3] <+: (t.connections 0).sent := by
  have hex : ∃ s, server.Reachable s ∧ (s.connections 0).received = [1, 2, 3] ∧ (s.connections 0).sent = [] ∧
      (server.run s [.write 0 none (.ok 1), .write 0 none (.error .wouldBlock), .write 0 none (.ok 1),
        .write 0 none (.ok 1), .read 0 none (.ok [4])]).isSome = true :=
    ⟨_, Sys.Reachable.run [.accept 0 false, .read 0 none (.ok [1, 2, 3])] (.init rfl) rfl, rfl, rfl, rfl⟩
  obtain ⟨s, hs, hr, hn, hrun⟩ := hex
  obtain ⟨t, ht⟩ := Option.isSome_iff_exists.1 hrun
  have hecho := all_echoed (i := 0) hs ht (by rw [hr, hn]; decide)
  rw [hr] at hecho
  exact ⟨s, t, _, hs, ht, hn, hecho⟩

end P1Server.AsioEcho
