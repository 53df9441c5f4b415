import P1Server.Conn

/-!
# `AddNewClient` as a whole

The steps of one `AddNewClient` that nobody else comes between, by what `RegNewIocpTask` and the first `WSARecv` answer.

| here | there |
| --- | --- |
| `removeClient` | `RemoveClient` (`TCPServer.cpp:266-288`) |
| `recvReqAll`   | `RecvReq` (`:208-226`) |
| `addNewClient` | `AddNewClient` (`:311-332`), and what it returns |

* `run_addNewClient` — it is a run of the server;
* **`all_or_nothing_iff`** — it adds a client or leaves nothing just where both succeed.
-/

namespace P1Server.Conn
open Lib

variable {n : Nat} {s s' : State n}

namespace State

def removeClient (s : State n) (t : Fin n) (k : Socket) : State n :=
  (((s.removeContext t k []).removeCmd t k []).removeErase t k []).goto t .idle

/-- `RecvReq` for a new client; a receive that is pending has started. -/
def recvReqAll (s : State n) (t : Fin n) (r : Ref) (ok : Bool) : Bool × State n :=
  let s := (s.recvReq t r none).wsaRecv t r ok
  if s.pc t = .idle then (true, s) else (false, (s.recvFailed t r).removeClient t (s.ctx r.addr).s)

/-- `AddNewClient` of the handle `k`, with the objects at `a` and `b`. -/
def addNewClient (s : State n) (t : Fin n) (k : Socket) (c a b : Nat) (behind : Mem) (reg recv : Bool) :
    Bool × State n :=
  let r : Ref := ⟨a, s.nextInst⟩
  let s := ((s.construct t k c a b behind).register t k r ⟨b, c⟩).regIocp t r reg
  if reg then (true, (s.recvReqAll t r recv).2) else (true, s)

end State

/-- The labels of one `AddNewClient`. -/
def addRun (t : Fin n) (a b : Nat) (behind : Mem) (reg recv : Bool) : List (Act n) :=
  .construct t a b behind :: .run t true :: .run t reg ::
    if reg then .run t true :: .run t recv :: if recv then [] else .replicate 5 (.run t true) else []

/-- `accept` has just given `t` the handle `k`, of the connection `c`; nobody holds the lock, and there is room for the
two objects at `a` and `b`. -/
structure Fresh (s : State n) (t : Fin n) (k : Socket) (c a b : Nat) : Prop where
  place : s.pc t = .accepted k c
  lock : s.lock = none
  opened : s.os k = some c
  clientsContext : s.clientsContext.find k = none
  clientCmd : s.clientCmd.find k = none
  io : ∀ o ∈ s.io, o.sock ≠ k
  ctx : a ≠ 0 ∧ (s.ctx a).live = false
  cmd : b ≠ 0 ∧ (s.cmd b).live = false

variable {t : Fin n} {k : Socket} {c a b : Nat} {behind : Mem}

/-! ## After the two insertions -/

/-- The client is in both maps, its objects are there, and nothing else has changed. -/
structure Inserted (s s' : State n) (k : Socket) (r : Ref) (b : Cref) : Prop where
  lock : s'.lock = none
  os : s'.os = s.os
  clientsContext : s'.clientsContext = s.clientsContext.set k r
  clientCmd : s'.clientCmd = s.clientCmd.set k b
  ctx : s'.live r ∧ (s'.ctx r.addr).s = k
  cmd : (s'.cmd b.addr).live = true
  otherCtx : ∀ x, x ≠ r.addr → s'.ctx x = s.ctx x
  otherCmd : ∀ x, x ≠ b.addr → s'.cmd x = s.cmd x
  io : s'.io = s.io
  port : s'.port = s.port

theorem inserted_register (h : Fresh s t k c a b) (behind : Mem) : Inserted s
    ((s.construct t k c a b behind).register t k ⟨a, s.nextInst⟩ ⟨b, c⟩) k ⟨a, s.nextInst⟩ ⟨b, c⟩ where
  lock := h.lock
  os := rfl
  clientsContext := rfl
  clientCmd := rfl
  ctx := by simp [State.live, State.construct, State.register, State.goto]
  cmd := by simp [State.construct, State.register, State.goto]
  otherCtx x hx := Function.update_of_ne hx ..
  otherCmd x hx := Function.update_of_ne hx ..
  io := rfl
  port := rfl

section Inserted
variable {s₁ : State n} {r : Ref} {d : Cref}

theorem Inserted.touch (h : Inserted s s₁ k r d) (q : Ref) : Inserted s (s₁.touch q) k r d :=
  ⟨h.lock, h.os, h.clientsContext, h.clientCmd, h.ctx, h.cmd, h.otherCtx, h.otherCmd, h.io, h.port⟩

theorem Inserted.goto (h : Inserted s s₁ k r d) (t : Fin n) (p : Pc) : Inserted s (s₁.goto t p) k r d :=
  ⟨h.lock, h.os, h.clientsContext, h.clientCmd, h.ctx, h.cmd, h.otherCtx, h.otherCmd, h.io, h.port⟩

theorem Inserted.regIocp (h : Inserted s s₁ k r d) (ok : Bool) : Inserted s (s₁.regIocp t r ok) k r d :=
  (h.touch r).goto t _

theorem Inserted.recvReq (h : Inserted s s₁ k r d) : Inserted s (s₁.recvReq t r none) k r d := by
  refine ⟨h.lock, h.os, h.clientsContext, h.clientCmd, ?_, h.cmd, ?_, h.otherCmd, h.io, h.port⟩
  · have hl := h.ctx
    simpa [State.live, State.recvReq, State.setCtx, State.touch, State.goto] using hl
  · intro x hx
    exact (Function.update_of_ne hx ..).trans (h.otherCtx x hx)

theorem wsaRecv_false (r : Ref) : s.wsaRecv t r false = (s.touch r).goto t (.recvFailed r) := by
  simp [State.wsaRecv]

/-- `WSARecv` has failed, and `RecvReq` is about to call `RemoveClient`. -/
theorem Inserted.recvFailed (h : Inserted s s₁ k r d) :
    Inserted s ((s₁.wsaRecv t r false).recvFailed t r) k r d := by
  rw [wsaRecv_false]
  exact (((h.touch r).goto t _).touch r).goto t _

end Inserted

/-- The receive starts: the handle is open. -/
theorem wsaRecv_true {r : Ref} (ho : (s.os (s.ctx r.addr).s).isSome) : s.wsaRecv t r true =
    { s.touch r with io := s.io ++ [Overlapped.mk (s.actual r) .recv (s.ctx r.addr).s] }.goto t .idle := by
  simp [State.wsaRecv, ho]

theorem recvReqAll_true {r : Ref} (ho : (s.os (s.ctx r.addr).s).isSome) :
    s.recvReqAll t r true = (true, (s.recvReq t r none).wsaRecv t r true) := by
  have hs : ((s.recvReq t r none).ctx r.addr).s = (s.ctx r.addr).s := by
    simp [State.recvReq, State.setCtx, State.touch, State.goto]
  have hw := wsaRecv_true (t := t) (s := s.recvReq t r none) (r := r) (by rw [hs]; exact ho)
  have hp : ((s.recvReq t r none).wsaRecv t r true).pc t = .idle := by
    rw [hw]
    exact Function.update_self ..
  rw [State.recvReqAll, if_pos hp]

theorem recvReqAll_false {r : Ref} : s.recvReqAll t r false =
    (false, (((s.recvReq t r none).wsaRecv t r false).recvFailed t r).removeClient t (s.ctx r.addr).s) := by
  have hw := wsaRecv_false (s := s.recvReq t r none) (t := t) r
  have hp : ((s.recvReq t r none).wsaRecv t r false).pc t ≠ .idle := by
    rw [hw]
    simp [State.goto]
  have hs : (((s.recvReq t r none).wsaRecv t r false).ctx r.addr).s = (s.ctx r.addr).s := by
    rw [hw]
    simp [State.recvReq, State.setCtx, State.touch, State.goto]
  rw [State.recvReqAll, if_neg hp, hs]

/-! ## `RemoveClient` -/

/-- What `RemoveClient` does to a client. -/
theorem removeClient_eq {r : Ref} {d : Cref} (hx : s.clientsContext.find k = some r) (hd : s.clientCmd.find k = some d)
    (ho : s.os k = some c) : s.removeClient t k =
      { s with
        lock := none
        sect := s.sect + 1
        clientsContext := s.clientsContext.erase k
        clientCmd := s.clientCmd.erase k
        ctx := Function.update s.ctx r.addr { s.ctx r.addr with pNetServer := false, live := false }
        cmd := Function.update s.cmd d.addr { s.cmd d.addr with live := false }
        os := Function.update s.os k none
        io := s.io.filter fun o => o.sock ≠ k
        port := s.port ++ (s.io.filter fun o => o.sock = k).map fun o => ⟨o.ctx, o.kind, false⟩
        closed := s.closed ++ [(c, s.sect + 1)]
        unreg := s.unreg ++ [(d.conn, s.sect + 1)]
        pc := Function.update s.pc t .idle } := by
  simp [State.removeClient, State.removeContext, State.removeCmd, State.closeCmd, State.closeSocket, State.removeErase,
    State.goto, hx, hd, ho]

/-! ## It is a run of the server -/

/-- The next step of a thread, by its place. -/
theorem step_next {p : Pc} (hp : s.pc t = p) {ok : Bool} (h : s.next t ok p = some s') :
    (sys n).step s (.run t ok) = some s' := by
  show s.next t ok (s.pc t) = some s'
  rw [hp, h]

/-- `RemoveClient` from a state without holder. -/
theorem run_removeClient (hp : s.pc t = .remove [k]) (hl : s.lock = none) :
    (sys n).run s (.replicate 4 (.run t true)) = some (s.removeClient t k) := by
  have h₁ : (s.removeContext t k []).pc t = .rmHeld k [] := Function.update_self ..
  have h₂ : ((s.removeContext t k []).removeCmd t k []).pc t = .rmClosed k [] := Function.update_self ..
  have h₃ : (((s.removeContext t k []).removeCmd t k []).removeErase t k []).pc t = .remove [] :=
    Function.update_self ..
  simp only [List.replicate]
  rw [Sys.run_cons (step_next hp (if_pos hl)), Sys.run_cons (step_next h₁ rfl), Sys.run_cons (step_next h₂ rfl),
    Sys.run_cons (step_next h₃ rfl)]
  rfl

/-- It is a run of the server. -/
theorem run_addNewClient (h : Fresh s t k c a b) (reg recv : Bool) :
    (sys n).run s (addRun t a b behind reg recv) = some (s.addNewClient t k c a b behind reg recv).2 := by
  let r : Ref := ⟨a, s.nextInst⟩
  let s₁ := s.construct t k c a b behind
  let s₂ := s₁.register t k r ⟨b, c⟩
  have hc : (sys n).step s (.construct t a b behind) = some s₁ := by
    simp [sys, step, h.place, h.ctx, h.cmd, s₁]
  have h₁ : s₁.pc t = .built k c r ⟨b, c⟩ := Function.update_self ..
  have h₂ : s₂.pc t = .regIocp r := Function.update_self ..
  have h₃ : (s₂.regIocp t r reg).pc t = if reg then .recvReq r none else .idle := Function.update_self ..
  rw [addRun, Sys.run_cons hc, Sys.run_cons (step_next h₁ (if_pos h.lock)), Sys.run_cons (step_next h₂ rfl)]
  cases reg with
  | false => rfl
  | true =>
    let s₃ := s₂.regIocp t r true
    let s₄ := s₃.recvReq t r none
    have h₄ : s₄.pc t = .wsaRecv r none := Function.update_self ..
    have hi₃ : Inserted s s₃ k r ⟨b, c⟩ := (inserted_register h behind).regIocp true
    have hopen : (s₃.os (s₃.ctx r.addr).s).isSome := by
      rw [hi₃.ctx.2, hi₃.os, h.opened]
      rfl
    have hall : s.addNewClient t k c a b behind true recv = (true, (s₃.recvReqAll t r recv).2) := rfl
    rw [hall, if_pos rfl, Sys.run_cons (step_next h₃ rfl), Sys.run_cons (step_next h₄ rfl)]
    cases recv with
    | true =>
      rw [recvReqAll_true hopen]
      rfl
    | false =>
      have hi₅ : Inserted s ((s₄.wsaRecv t r false).recvFailed t r) k r ⟨b, c⟩ := hi₃.recvReq.recvFailed
      have hw := wsaRecv_false (s := s₄) (t := t) r
      have h₅ : (s₄.wsaRecv t r false).pc t = .recvFailed r := by
        rw [hw]
        exact Function.update_self ..
      have h₆ : ((s₄.wsaRecv t r false).recvFailed t r).pc t = .remove [k] := by
        rw [hw]
        have hk : (s₄.ctx r.addr).s = k := hi₃.recvReq.ctx.2
        rw [← hk]
        exact Function.update_self ..
      rw [recvReqAll_false, hi₃.ctx.2]
      simp only [Bool.false_eq_true, if_false]
      rw [List.replicate_succ, Sys.run_cons (step_next h₅ rfl)]
      exact run_removeClient h₆ hi₅.lock

/-! ## What it leaves -/

/-- The client is in both maps, with one receive posted. -/
structure Added (s s' : State n) (k : Socket) (r : Ref) (b : Cref) : Prop where
  clientsContext : s'.clientsContext.find k = some r
  clientCmd : s'.clientCmd.find k = some b
  ctx : s'.live r
  cmd : (s'.cmd b.addr).live = true
  opened : s'.os k = s.os k
  io : s'.io = s.io ++ [⟨r, .recv, k⟩]

/-- The client is in neither map, its objects are deleted and its socket is closed. -/
structure Gone (s' : State n) (k : Socket) (r : Ref) (b : Cref) : Prop where
  clientsContext : s'.clientsContext.find k = none
  clientCmd : s'.clientCmd.find k = none
  ctx : (s'.ctx r.addr).live = false
  cmd : (s'.cmd b.addr).live = false
  closed : s'.os k = none

/-- The other clients are as before. -/
structure OthersKept (s s' : State n) (k : Socket) : Prop where
  clientsContext : ∀ j, j ≠ k → s'.clientsContext.find j = s.clientsContext.find j
  clientCmd : ∀ j, j ≠ k → s'.clientCmd.find j = s.clientCmd.find j
  ctx : ∀ q, s.live q → s'.ctx q.addr = s.ctx q.addr
  cmd : ∀ x, (s.cmd x).live = true → s'.cmd x = s.cmd x
  os : ∀ j, j ≠ k → s'.os j = s.os j
  io : ∀ o : Overlapped, o.sock ≠ k → (o ∈ s'.io ↔ o ∈ s.io)
  port : s'.port = s.port

def AllOrNothing (s : State n) (k : Socket) (r : Ref) (b : Cref) (res : Bool × State n) : Prop :=
  ((res.1 = true ∧ Added s res.2 k r b) ∨ (res.1 = false ∧ Gone res.2 k r b)) ∧ OthersKept s res.2 k

section Inserted
variable {s₁ : State n} {r : Ref} {d : Cref}

theorem Inserted.others (h : Inserted s s₁ k r d) (hr : (s.ctx r.addr).live = false)
    (hd : (s.cmd d.addr).live = false) : OthersKept s s₁ k where
  clientsContext j hj := by rw [h.clientsContext, OrdMap.find_set_ne hj]
  clientCmd j hj := by rw [h.clientCmd, OrdMap.find_set_ne hj]
  ctx q hq := by
    apply h.otherCtx
    apply ne_of_apply_ne fun x => (s.ctx x).live
    simp [hq.1, hr]
  cmd x hx := by
    apply h.otherCmd
    apply ne_of_apply_ne fun x => (s.cmd x).live
    simp [hx, hd]
  os _ _ := by rw [h.os]
  io _ _ := by rw [h.io]
  port := h.port

theorem Inserted.post (h : Inserted s s₁ k r d) (hopen : (s.os k).isSome) :
    Added s (s₁.wsaRecv t r true) k r d ∧ (OthersKept s s₁ k → OthersKept s (s₁.wsaRecv t r true) k) := by
  have hact : s₁.actual r = r := by
    rw [State.actual, h.ctx.1.2]
  rw [wsaRecv_true (by rw [h.ctx.2, h.os]; exact hopen), hact, h.ctx.2]
  refine ⟨⟨?_, ?_, h.ctx.1, h.cmd, congrFun h.os k, by rw [← h.io]; rfl⟩, ?_⟩
  · exact (congrArg (OrdMap.find · k) h.clientsContext).trans (OrdMap.find_set_self ..)
  · exact (congrArg (OrdMap.find · k) h.clientCmd).trans (OrdMap.find_set_self ..)
  · intro ho
    refine ⟨ho.clientsContext, ho.clientCmd, ho.ctx, ho.cmd, ho.os, ?_, ho.port⟩
    intro o hk
    rw [← ho.io o hk]
    show o ∈ s₁.io ++ [_] ↔ _
    rw [List.mem_append, List.mem_singleton, or_iff_left]
    rintro rfl
    exact hk rfl

theorem Inserted.remove (h : Inserted s s₁ k r d) (hopen : s.os k = some c)
    (hio : ∀ o ∈ s.io, o.sock ≠ k) (hr : (s.ctx r.addr).live = false) (hd : (s.cmd d.addr).live = false) :
    Gone (s₁.removeClient t k) k r d ∧ OthersKept s (s₁.removeClient t k) k := by
  have ho := h.others hr hd
  have hx : s₁.clientsContext.find k = some r := by rw [h.clientsContext, OrdMap.find_set_self]
  have hc : s₁.clientCmd.find k = some d := by rw [h.clientCmd, OrdMap.find_set_self]
  have hkeep : s₁.io.filter (fun o => o.sock ≠ k) = s₁.io := by
    rw [h.io, List.filter_eq_self]
    exact fun o hm => decide_eq_true (hio o hm)
  have hnone : s₁.io.filter (fun o => o.sock = k) = [] := by
    rw [h.io, List.filter_eq_nil_iff]
    exact fun o hm => by simpa using hio o hm
  rw [removeClient_eq hx hc (by rw [h.os, hopen]), hkeep, hnone]
  refine ⟨⟨OrdMap.find_erase_self .., OrdMap.find_erase_self .., ?_, ?_, Function.update_self ..⟩, ?_⟩
  · simp
  · simp
  refine ⟨?_, ?_, ?_, ?_, ?_, ho.io, ?_⟩
  · intro j hj
    exact (OrdMap.find_erase_ne hj).trans (ho.clientsContext j hj)
  · intro j hj
    exact (OrdMap.find_erase_ne hj).trans (ho.clientCmd j hj)
  · intro q hq
    refine (Function.update_of_ne ?_ ..).trans (ho.ctx q hq)
    apply ne_of_apply_ne fun x => (s.ctx x).live
    simp [hq.1, hr]
  · intro x hx
    refine (Function.update_of_ne ?_ ..).trans (ho.cmd x hx)
    apply ne_of_apply_ne fun x => (s.cmd x).live
    simp [hx, hd]
  · intro j hj
    exact (Function.update_of_ne hj ..).trans (ho.os j hj)
  · exact (List.append_nil _).trans ho.port

end Inserted

/-- It returns `true` and leaves the other clients alone. A client whose handle the port does not take stays in both
maps without a receive; one whose first receive fails is gone. -/
theorem addNewClient_cases (h : Fresh s t k c a b) (behind : Mem) (reg recv : Bool) :
    (s.addNewClient t k c a b behind reg recv).1 = true ∧ OthersKept s (s.addNewClient t k c a b behind reg recv).2 k ∧
      (reg = false → Inserted s (s.addNewClient t k c a b behind reg recv).2 k ⟨a, s.nextInst⟩ ⟨b, c⟩) ∧
      (reg = true → recv = true → Added s (s.addNewClient t k c a b behind reg recv).2 k ⟨a, s.nextInst⟩ ⟨b, c⟩) ∧
      (reg = true → recv = false → Gone (s.addNewClient t k c a b behind reg recv).2 k ⟨a, s.nextInst⟩ ⟨b, c⟩) := by
  have hi := inserted_register h behind
  cases reg with
  | false => exact ⟨rfl, (hi.regIocp false).others h.ctx.2 h.cmd.2, fun _ => hi.regIocp false, by simp, by simp⟩
  | true =>
    have hi₃ := hi.regIocp (t := t) true
    have hopen : (s.os k).isSome := by rw [h.opened]; rfl
    simp only [State.addNewClient, if_true, Bool.true_eq_false, false_implies, true_implies]
    cases recv with
    | true =>
      rw [recvReqAll_true (by rw [hi₃.ctx.2, hi₃.os]; exact hopen)]
      obtain ⟨hadd, hkeep⟩ := hi₃.recvReq.post (t := t) hopen
      exact ⟨trivial, hkeep (hi₃.recvReq.others h.ctx.2 h.cmd.2), trivial, fun _ => hadd, by simp⟩
    | false =>
      rw [recvReqAll_false, hi₃.ctx.2]
      obtain ⟨hgone, hkeep⟩ := hi₃.recvReq.recvFailed.remove (t := t) h.opened h.io h.ctx.2 h.cmd.2
      exact ⟨trivial, hkeep, trivial, by simp, fun _ => hgone⟩

theorem AllOrNothing.succeeded (h : Fresh s t k c a b) {reg recv : Bool}
    (ha : AllOrNothing s k ⟨a, s.nextInst⟩ ⟨b, c⟩ (s.addNewClient t k c a b behind reg recv)) :
    reg = true ∧ recv = true := by
  obtain ⟨hres, -, hreg, -, hgone⟩ := addNewClient_cases h behind reg recv
  rcases ha.1 with ⟨-, hin⟩ | ⟨hfalse, -⟩
  · cases reg with
    | false =>
      have hio := hin.io
      rw [(hreg rfl).io] at hio
      simp at hio
    | true =>
      cases recv with
      | false =>
        have hf := hin.clientsContext
        rw [(hgone rfl rfl).clientsContext] at hf
        cases hf
      | true => exact ⟨rfl, rfl⟩
  · rw [hres] at hfalse
    cases hfalse

/-- **All or nothing** just where the port takes the handle and the first receive starts. -/
theorem all_or_nothing_iff (h : Fresh s t k c a b) (behind : Mem) (reg recv : Bool) :
    AllOrNothing s k ⟨a, s.nextInst⟩ ⟨b, c⟩ (s.addNewClient t k c a b behind reg recv) ↔ reg = true ∧ recv = true := by
  obtain ⟨hres, hothers, -, hadd, -⟩ := addNewClient_cases h behind reg recv
  constructor
  · exact AllOrNothing.succeeded h
  · rintro ⟨rfl, rfl⟩
    exact ⟨.inl ⟨hres, hadd rfl rfl⟩, hothers⟩

/-- A server that has just accepted its first client. -/
def firstAccept (t : Fin n) : State n := (start n).accept t 5

theorem fresh_firstAccept (t : Fin n) : Fresh (firstAccept t) t 5 0 1 1 :=
  ⟨Function.update_self .., rfl, rfl, rfl, rfl, List.forall_mem_nil _, ⟨by decide, rfl⟩, by decide, rfl⟩

theorem all_or_nothing_first : AllOrNothing (firstAccept (0 : Fin 1)) 5 ⟨1, 1⟩ ⟨1, 0⟩
    ((firstAccept 0).addNewClient 0 5 0 1 1 (fun _ => 0) true true) :=
  (all_or_nothing_iff (fresh_firstAccept 0) (fun _ => 0) true true).2 ⟨rfl, rfl⟩

/-- The port does not take the handle, or it does and the receive fails: `true` is returned for half a client, or for
none. -/
theorem not_all_or_nothing : (sys 1).Reachable (firstAccept 0) ∧ ∀ reg recv, ¬ (reg = true ∧ recv = true) →
    ¬ AllOrNothing (firstAccept (0 : Fin 1)) 5 ⟨1, 1⟩ ⟨1, 0⟩
      ((firstAccept 0).addNewClient 0 5 0 1 1 (fun _ => 0) reg recv) := by
  refine ⟨Sys.Reachable.run [.accept 0 5] (.init rfl) rfl, ?_⟩
  intro reg recv hno h
  exact hno (h.succeeded (fresh_firstAccept 0))

end P1Server.Conn
