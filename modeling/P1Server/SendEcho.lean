import P1Server.SendDrain
import P1Server.Segments

/-!
# What a client gets back

A completed receive hands its commands to `SendCmdData` for the same socket (`RecvNetCmdData`, `TCPServer.cpp:359-394`),
and the passes of `SendThread` send what is in the queue. Receives and passes are taken whole here, in any order and
for any clients: no pass runs beside another pass or beside a receive, and a receive finds room for its commands.

| here | there |
| --- | --- |
| `handRun`  | `SendCmdData(clientSocket, pCmd)` (`:382`); the object's bytes read as the command |
| `Serves`   | completed receives (`NetServerCallBack`, `:36`) on thread `w`, passes on thread `t` |

Only commands of the size of a `TestNetCmd` come into the queues. A packet of 100 of them is far from full, so no
command is put back, and a pass takes them in order.

* `settle_small` — such a queue is the packet and what is left, in this order;
* `Serves.echo` — what is sent to a client and what waits for it are the commands it has sent, in order;
* **`echoes_back`** — of frames that are received whole and alike, each comes back once, in order, with its receive
  time, after as many passes as commands are waiting.
-/

namespace P1Server

/-- The parse hands over commands of one size. -/
theorem handed_size {buf : Lib.Mem} {tick : UInt32} {c : TestNetCmd} (h : c ∈ handed (recvNetCmdData buf tick)) :
    c.length = TEST_SIZE := by
  obtain ⟨r, hr, hc⟩ := List.mem_filterMap.1 h
  obtain ⟨o, -, -, rfl⟩ := mem_recvNetCmdData.1 hr
  obtain ⟨⟨src, c'⟩, hm, rfl⟩ := Option.map_eq_some_iff.1 hc
  obtain ⟨hz, htest, hsize, -⟩ := recvRound_made hm
  rw [recvRound_frame hz, htest, switchCmd_test hsize] at hm
  cases hm
  exact hsize

end P1Server

namespace P1Server.Send
open Lib

variable {n : Nat} {s s' : State n} {t w : Fin n} {b : Nat} {cells : Nat → Cell} {fails down : Socket → Bool}

/-! ## Queues of small commands -/

/-- Every command that waits has the size of a `TestNetCmd`. -/
def Small (s : State n) : Prop :=
  ∀ k c, s.clientCmd.find k = some c → ∀ x ∈ c.sendQueue, x.cmd.length = TEST_SIZE.toNat

theorem cmdLength_small {vec : List Entry} (h : ∀ x ∈ vec, x.cmd.length = TEST_SIZE.toNat) :
    cmdLength vec = TEST_SIZE.toNat * vec.length := by
  rw [cmdLength, List.map_congr_left h, List.map_const', List.sum_replicate, smul_eq_mul, Nat.mul_comm]

theorem takeAll_small (q : List Entry) {vec : List Entry} (hs : ∀ x ∈ vec ++ q, x.cmd.length = TEST_SIZE.toNat) :
    (takeAll vec q).1 ++ (takeAll vec q).2 = vec ++ q := by
  induction q generalizing vec with
  | nil => simp [takeAll]
  | cons x q ih =>
    simp only [takeAll]
    split
    case isTrue hn =>
      have hvec := cmdLength_small fun y hy => hs y (List.mem_append_left _ hy)
      have hx := hs x (List.mem_append_right _ List.mem_cons_self)
      have hfit : cmdLength vec + x.cmd.length < SOCKET_BUFFER_SIZE := by
        rw [hvec, hx]
        simp only [TEST_SIZE, SOCKET_BUFFER_SIZE, FRAME_NUMBER_SEND_DATA] at hn ⊢
        simp only [UInt16.reduceToNat]
        omega
      rw [if_pos hfit, ih (by simpa using hs)]
      simp
    case isFalse => rfl

/-- **A queue of small commands is the packet and the rest.** -/
theorem settle_small {q : List Entry} (hs : ∀ x ∈ q, x.cmd.length = TEST_SIZE.toNat) : packet q ++ settle q = q := by
  have h : (takeAll [] q).1 ++ (takeAll [] q).2 = [] ++ q := takeAll_small q (by simpa using hs)
  rwa [takeAll_packet] at h

/-- **What a pass leaves**: the queues of the clients for which no send fails, settled; the other threads. -/
theorem Pass.settles {l : List Event} (h : Ready t s) (hb : (s.buffs b).live = false)
    (hp : Pass t b cells fails s l s') :
    (∀ k, fails k = false → s'.clientCmd.find k = (s.clientCmd.find k).map Client.settle) ∧
      ∀ u, u ≠ t → s'.pc u = s.pc u := by
  have hcall : step s (.sendThread t) = some (s.has t s.clientCmd (.drain s.clientCmd.keys [])) := if_pos h.idle
  obtain ⟨m, hdrain, hm⟩ := @drainAll n s t b cells fails h
  obtain ⟨l', s₁, hs, hi, -, hframed, -, -⟩ := @sendAll n s t b cells fails m _ h.alone hb (temps_fit h)
  obtain ⟨-, rfl⟩ := Pass.unique hp ⟨⟨_, hcall, hdrain.trans hs⟩, hi⟩
  refine ⟨?_, fun u hu => (hframed.pc u hu).trans (has_pc_ne hu)⟩
  intro k hk
  rw [hframed.keeps k hk]
  exact hm k

/-! ## Receives and passes -/

/-- The object is handed to `SendCmdData` from `RecvNetCmdData`. -/
def handRun (w : Fin n) (k : Socket) (o : Frame) : List (Act n) := [.call w k o.toNetCmd true, .run w true]

/-- Completed receives on thread `w`, each with its socket and its objects, and passes on thread `t`, in any order. No
send fails for a client that is not `down`, and the queues have room for what is received. -/
inductive Serves (t w : Fin n) (down : Socket → Bool) :
    State n → List (Socket × Delivery) → List Event → State n → Prop
  | done {s : State n} : Serves t w down s [] [] s
  | receive {s s₁ s' : State n} {k : Socket} {d : Delivery} {os : List Frame} {ds : List (Socket × Delivery)}
      {l : List Event} : os.map Frame.test = d.receive →
      (∀ c, s.clientCmd.find k = some c → c.sendQueue.length + os.length ≤ QUEUE_SIZE) →
      (sys n).run s (os.flatMap (handRun w k)) = some s₁ → Serves t w down s₁ ds l s' →
      Serves t w down s ((k, d) :: ds) l s'
  | pass {s s₁ s' : State n} {b : Nat} {cells : Nat → Cell} {fails : Socket → Bool} {ds : List (Socket × Delivery)}
      {l l' : List Event} : (s.buffs b).live = false → (∀ k, down k = false → fails k = false) →
      Pass t b cells fails s l s₁ → Serves t w down s₁ ds l' s' → Serves t w down s ds (l ++ l') s'

/-- What a receive leaves: the commands are in the client's queue, behind those that were there. -/
structure Handed (w : Fin n) (k : Socket) (os : List Frame) (s s' : State n) : Prop where
  pc : s'.pc = s.pc
  buffs : s'.buffs = s.buffs
  others : ∀ j, j ≠ k → s'.clientCmd.find j = s.clientCmd.find j
  queue : ∀ c, s.clientCmd.find k = some c → ∃ xs : List Entry, xs.map Entry.cmd = os.map Frame.toNetCmd ∧
    s'.clientCmd.find k = some { c with sendQueue := c.sendQueue ++ xs }
  gone : s.clientCmd.find k = none → s'.clientCmd.find k = none

theorem hand_none {k : Socket} {p : PCmd} (hf : s.clientCmd.find k = none) :
    s.hand w k p true = { s with lost := s.lost ++ [p.id] }.goto w .idle := by
  have ht : s.takes k p = false := by simp [State.takes, hf]
  have hs : (s.sendCmdData k p).2 = s := by
    unfold State.sendCmdData
    split
    · rfl
    · rw [hf]
  rw [State.hand, hs, ht]
  rfl

theorem hand_some {k : Socket} {p : PCmd} {c : Client} (hf : s.clientCmd.find k = some c)
    (hl : p.cmd.length < SOCKET_BUFFER_SIZE) (hq : c.sendQueue.length < QUEUE_SIZE) :
    s.hand w k p true = { s with
      clientCmd := s.clientCmd.set k { c with sendQueue := c.sendQueue ++ [Entry.mk p.cmd p.id ⟨c.conn, s.nextSeq⟩ hl] }
      nextSeq := s.nextSeq + 1 }.goto w .idle := by
  have ht : s.takes k p = true := by simp [State.takes, hf, hl, hq]
  simp only [State.hand, ht, if_true, State.sendCmdData, dif_neg (Nat.not_le.2 hl), hf, if_pos hq]

/-- One command is handed over. -/
theorem handed_one {k : Socket} {o : Frame} (hi : s.pc w = .idle) (hl : o.length < SOCKET_BUFFER_SIZE)
    (hroom : ∀ c, s.clientCmd.find k = some c → c.sendQueue.length < QUEUE_SIZE) :
    ∃ s', (sys n).run s (handRun w k o) = some s' ∧ Handed w k [o] s s' := by
  have hidle : Function.update (Function.update s.pc w (.handing k ⟨o.toNetCmd, s.nextId⟩ true)) w .idle = s.pc := by
    rw [Function.update_idem, ← hi, Function.update_eq_self]
  obtain ⟨s₁, hs₁⟩ : ∃ s₁, s₁ = { s with nextId := s.nextId + 1 }.goto w (.handing k ⟨o.toNetCmd, s.nextId⟩ true) :=
    ⟨_, rfl⟩
  have hcmd : s₁.clientCmd = s.clientCmd := by rw [hs₁]; rfl
  refine ⟨s₁.hand w k ⟨o.toNetCmd, s.nextId⟩ true, ?_, ?_⟩
  · simp [handRun, Sys.run, sys, step, hi, State.goto, State.next, hs₁]
  · cases hf : s.clientCmd.find k with
    | none =>
      rw [hand_none (hcmd ▸ hf), hs₁]
      refine ⟨hidle, rfl, fun _ _ => rfl, ?_, fun _ => hf⟩
      intro c hc
      rw [hf] at hc
      cases hc
    | some c =>
      rw [hand_some (p := ⟨o.toNetCmd, s.nextId⟩) (hcmd ▸ hf) hl (hroom c hf), hs₁]
      refine ⟨hidle, rfl, ?_, ?_, ?_⟩
      · intro j hj
        simp only [State.goto, OrdMap.find_set_ne hj]
      · intro c' hc'
        rw [hf] at hc'
        cases hc'
        refine ⟨[Entry.mk o.toNetCmd s.nextId ⟨c.conn, s.nextSeq⟩ hl], rfl, ?_⟩
        simp only [State.goto, OrdMap.find_set_self]
      · intro hno
        rw [hf] at hno
        cases hno

theorem Handed.refl (w : Fin n) (k : Socket) (s : State n) : Handed w k [] s s :=
  ⟨rfl, rfl, fun _ _ => rfl, fun c hc => ⟨[], rfl, by simpa using hc⟩, id⟩

theorem Handed.trans {k : Socket} {os os' : List Frame} {s'' : State n} (h : Handed w k os s s')
    (h' : Handed w k os' s' s'') : Handed w k (os ++ os') s s'' := by
  refine ⟨h'.pc.trans h.pc, h'.buffs.trans h.buffs, fun j hj => (h'.others j hj).trans (h.others j hj), ?_,
    fun hno => h'.gone (h.gone hno)⟩
  intro c hc
  obtain ⟨xs, hxs, hc₁⟩ := h.queue c hc
  obtain ⟨ys, hys, hc₂⟩ := h'.queue _ hc₁
  exact ⟨xs ++ ys, by rw [List.map_append, hxs, hys, List.map_append], by rw [hc₂, List.append_assoc]⟩

/-- The commands of one receive are handed over. -/
theorem handed_all {k : Socket} (os : List Frame) {s : State n} (hi : s.pc w = .idle)
    (hl : ∀ o ∈ os, o.length < SOCKET_BUFFER_SIZE)
    (hroom : ∀ c, s.clientCmd.find k = some c → c.sendQueue.length + os.length ≤ QUEUE_SIZE) :
    ∃ s', (sys n).run s (os.flatMap (handRun w k)) = some s' ∧ Handed w k os s s' := by
  induction os generalizing s with
  | nil => exact ⟨s, rfl, .refl w k s⟩
  | cons o os ih =>
    obtain ⟨s₁, h₁, hone⟩ := handed_one (k := k) hi (hl o List.mem_cons_self) (fun c hc => by
      have := hroom c hc
      rw [List.length_cons] at this
      omega)
    have hroom₁ : ∀ c', s₁.clientCmd.find k = some c' → c'.sendQueue.length + os.length ≤ QUEUE_SIZE := by
      intro c' hc'
      cases hf : s.clientCmd.find k with
      | none =>
        rw [hone.gone hf] at hc'
        cases hc'
      | some c =>
        obtain ⟨xs, hxs, hc₁⟩ := hone.queue c hf
        rw [hc₁] at hc'
        cases hc'
        have hlen := congrArg List.length hxs
        have := hroom c hf
        simp only [List.length_map, List.length_cons, List.length_nil, List.length_append] at hlen this ⊢
        omega
    obtain ⟨s', h', hrest⟩ := ih (by rwa [hone.pc]) (fun o ho => hl o (List.mem_cons_of_mem _ ho)) hroom₁
    refine ⟨s', ?_, hone.trans hrest⟩
    rw [List.flatMap_cons, Sys.run_append, h₁]
    exact h'

/-! ## What has been sent and what waits -/

/-- The bytes given to `WSASend` for a client. -/
def bytesTo (k : Socket) (l : List Event) : List UInt8 := (sentTo k l).flatten.map Cell.val

/-- The bytes of the commands that wait. -/
def queueBytes (q : List Entry) : List UInt8 := q.flatMap fun x => x.cmd.image

/-- The commands of the receives on a socket. -/
def receivedOn (k : Socket) (ds : List (Socket × Delivery)) : List TestNetCmd :=
  (ds.filter fun e => e.1 = k).flatMap fun e => e.2.receive

theorem bytesTo_append (k : Socket) (l l' : List Event) : bytesTo k (l ++ l') = bytesTo k l ++ bytesTo k l' := by
  simp [bytesTo, sentTo_append]

theorem val_cells (q : List Entry) : (q.flatMap Entry.cells).map Cell.val = queueBytes q := by
  simp [queueBytes, Entry.cells, List.map_flatMap, Function.comp_def]

/-- What a pass sends to a client is the packet of its queue. -/
theorem Sends.bytesTo {l : List Event} (h : Sends b fails s l s') {k : Socket} {c : Client}
    (hc : s.clientCmd.find k = some c) : bytesTo k l = queueBytes (packet c.sendQueue) := by
  rw [Send.bytesTo, h.sentTo hc, ← val_cells]
  by_cases hp : packet c.sendQueue = [] <;> simp [hp]

theorem image_frame (o : Frame) : o.image = o.bytes := by
  rw [NetCmd.image, o.exact, List.take_length]

theorem queueBytes_frames {xs : List Entry} {os : List Frame} (h : xs.map Entry.cmd = os.map Frame.toNetCmd) :
    queueBytes xs = P1Server.packet os := by
  have himage : queueBytes xs = (xs.map Entry.cmd).flatMap NetCmd.image := by simp [queueBytes, List.flatMap_map]
  rw [himage, h, List.flatMap_map, P1Server.packet]
  exact List.flatMap_congr fun o _ => image_frame o

/-- Where receives and passes go on. -/
structure Quiet (t w : Fin n) (s : State n) : Prop where
  ready : Ready t s
  idle : s.pc w = .idle
  small : Small s

/-- The commands of a receive are small. -/
theorem object_size {d : Delivery} {os : List Frame} (h : os.map Frame.test = d.receive) {o : Frame} (ho : o ∈ os) :
    o.length = TEST_SIZE.toNat :=
  Frame.length_eq_test.2 (handed_size (h ▸ List.mem_map_of_mem ho))

/-- A receive of small commands can be taken, where the queue has room for them. -/
theorem Quiet.receives (h : Quiet t w s) {k : Socket} {d : Delivery} {os : List Frame}
    (hd : os.map Frame.test = d.receive)
    (hroom : ∀ c, s.clientCmd.find k = some c → c.sendQueue.length + os.length ≤ QUEUE_SIZE) :
    ∃ s', (sys n).run s (os.flatMap (handRun w k)) = some s' ∧ Handed w k os s s' :=
  handed_all os h.idle (fun o ho => by rw [object_size hd ho]; decide) hroom

theorem Quiet.receive (h : Quiet t w s) {k : Socket} {d : Delivery} {os : List Frame} (hd : os.map Frame.test = d.receive)
    (hroom : ∀ c, s.clientCmd.find k = some c → c.sendQueue.length + os.length ≤ QUEUE_SIZE)
    (hh : Handed w k os s s') : Quiet t w s' := by
  -- the queues behind the receive
  have hq : ∀ j c', s'.clientCmd.find j = some c' → c'.sendQueue.length ≤ QUEUE_SIZE ∧
      ∀ x ∈ c'.sendQueue, x.cmd.length = TEST_SIZE.toNat := by
    intro j c' hc'
    by_cases hj : j = k
    · subst hj
      cases hf : s.clientCmd.find j with
      | none =>
        rw [hh.gone hf] at hc'
        cases hc'
      | some c =>
        obtain ⟨xs, hxs, hc₁⟩ := hh.queue c hf
        rw [hc₁] at hc'
        cases hc'
        have hlen := congrArg List.length hxs
        have := hroom c hf
        refine ⟨?_, ?_⟩
        · simp only [List.length_map, List.length_append] at hlen ⊢
          omega
        · intro x hx
          rcases List.mem_append.1 hx with hx | hx
          · exact h.small j c hf x hx
          · have hmem : x.cmd ∈ os.map Frame.toNetCmd := hxs ▸ List.mem_map_of_mem hx
            obtain ⟨o, ho, he⟩ := List.mem_map.1 hmem
            rw [← he]
            exact object_size hd ho
    · rw [hh.others j hj] at hc'
      exact ⟨h.ready.room j c' hc', h.small j c' hc'⟩
  refine ⟨⟨?_, ?_, fun j c' hc' => (hq j c' hc').1, ?_⟩, ?_, fun j c' hc' => (hq j c' hc').2⟩
  · rw [hh.pc]
    exact h.ready.idle
  · intro u hu
    rw [hh.pc]
    exact h.ready.alone u hu
  · intro j c' hc' x hx
    rw [(hq j c' hc').2 x hx]
    decide
  · rw [hh.pc]
    exact h.idle

theorem Quiet.pass (h : Quiet t w s) {l : List Event} (hb : (s.buffs b).live = false)
    (hp : Pass t b cells fails s l s') : Quiet t w s' := by
  obtain ⟨hs, hr⟩ := hp.sends h.ready hb
  refine ⟨hr, ?_, ?_⟩
  · by_cases hw : w = t
    · rw [hw]
      exact hr.idle
    · rw [(hp.settles h.ready hb).2 w hw]
      exact h.idle
  · intro k c' hc' x hx
    obtain ⟨c, hc, hl⟩ := hs.left k c' hc'
    exact h.small k c hc x (hl.2.subset (List.mem_append_right _ hx))

/-- The commands a client has sent, in what it is sent and in what waits for it. -/
def Echoed (k : Socket) (c c' : Client) (ds : List (Socket × Delivery)) (l : List Event) : Prop :=
  ∃ gs : List Frame, gs.map Frame.test = receivedOn k ds ∧
    bytesTo k l ++ queueBytes c'.sendQueue = queueBytes c.sendQueue ++ P1Server.packet gs

/-- **Everything received is sent or waits**, in order. -/
theorem Serves.echo {ds : List (Socket × Delivery)} {l : List Event} (h : Serves t w down s ds l s')
    (hq : Quiet t w s) {k : Socket} {c : Client} (hc : s.clientCmd.find k = some c) (hk : down k = false) :
    Quiet t w s' ∧ ∃ c', s'.clientCmd.find k = some c' ∧ c'.conn = c.conn ∧ Echoed k c c' ds l := by
  induction h generalizing c with
  | done => exact ⟨hq, c, hc, rfl, [], rfl, by simp [bytesTo, sentTo, reqs, P1Server.packet]⟩
  | @receive s s₁ s' j d os ds l hd hroom hrun _ ih =>
    obtain ⟨_, hrun', hh⟩ := hq.receives hd hroom
    cases hrun.symm.trans hrun'
    have hq₁ := hq.receive hd hroom hh
    by_cases hj : k = j
    · subst hj
      obtain ⟨xs, hxs, hc₁⟩ := hh.queue c hc
      obtain ⟨hq', c', hc', hconn, gs, hgs, hbytes⟩ := ih hq₁ hc₁
      refine ⟨hq', c', hc', hconn, os ++ gs, ?_, ?_⟩
      · rw [List.map_append, hgs, hd]
        simp [receivedOn]
      · have hx := queueBytes_frames hxs
        simp only [queueBytes, P1Server.packet, List.flatMap_append] at hx hbytes ⊢
        rw [hbytes, hx, List.append_assoc]
    · obtain ⟨hq', c', hc', hconn, gs, hgs, hbytes⟩ := ih hq₁ ((hh.others k hj).trans hc)
      refine ⟨hq', c', hc', hconn, gs, ?_, hbytes⟩
      rw [hgs]
      simp [receivedOn, Ne.symm hj]
  | @pass s s₁ s' b cells fails ds l l' hb hf hp _ ih =>
    have hkeep := (hp.settles hq.ready hb).1 k (hf k hk)
    rw [hc, Option.map_some] at hkeep
    obtain ⟨hq', c', hc', hconn, gs, hgs, hbytes⟩ := ih (hq.pass hb hp) hkeep
    refine ⟨hq', c', hc', hconn, gs, hgs, ?_⟩
    have hsettle := settle_small (hq.small k c hc)
    rw [bytesTo_append, List.append_assoc, hbytes, (hp.sends hq.ready hb).1.bytesTo hc, ← List.append_assoc]
    congr 1
    conv => rhs; rw [← hsettle]
    simp [queueBytes, Client.settle]

/-! ## The replies -/

theorem Passes.serves {m : Nat} {l : List Event} (h : Passes t down m s l s') : Serves t w down s [] l s' := by
  induction h with
  | none => exact .done
  | more hb hf hp _ ih => exact .pass hb hf hp ih

end P1Server.Send
