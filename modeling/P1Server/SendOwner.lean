import Mathlib.Algebra.BigOperators.Fin
import P1Server.SendLine

/-!
# Who has a command

A `NetCmd` belongs to the caller of `SendCmdData`, then to a `sendQueue`, then to the lists of a pass, and is
freed: with its packet, by `ClearClientCmd`, or by the caller it was left to. Two branches forget it:
`RecvNetCmdData` does not look whether its command was taken (`TCPServer.cpp:382`), and the put-back
into a queue that has been filled up meanwhile (`:127`).

* `conserved` — a command is never in two places nor freed twice; in the runs without these branches it is
  in exactly one; the result of `SendCmdData` is right when the queue does not take the command, and
  wrong when it does;
* `not_conserved` — a received command for a client that is gone.
-/

namespace P1Server.Send
open Lib

variable {n : Nat} {s s' : State n} {i : Nat}

/-! ## Places -/

/-- The command in the hands of a caller. -/
def held : Pc → List Nat
  | .handing _ p _ | .holding p => [p.id]
  | _ => []

def idsOf (l : TempCmds) : List Nat := l.flatMap fun e => e.2.map Entry.id

/-- The commands in `tempCmds`, `vecCmds` and `pCmd` of a pass. -/
def listed (p : Pc) : List Nat := idsOf (load p)

/-- How often the command is in the `sendQueue`s. -/
def inQueues (s : State n) (i : Nat) : Nat := s.clientCmd.sum fun c => (c.sendQueue.map Entry.id).count i

/-- How often the command is anywhere, and how often it has been freed. -/
def places (s : State n) (i : Nat) : Nat :=
  (∑ t, (held (s.pc t)).count i) + inQueues s i + (∑ t, (listed (s.pc t)).count i) + s.freed.count i

/-- Every command is in one place, once. -/
def Conserved (s : State n) : Prop := ∀ i, places s i = if i < s.nextId then 1 else 0

/-- The queue took the command. -/
def Took (s : State n) (k : Socket) (p : PCmd) : Prop :=
  ∃ c x, s.clientCmd.find k = some c ∧ x.cmd = p.cmd ∧ x.id = p.id ∧
    (s.sendCmdData k p).2.clientCmd.find k = some { c with sendQueue := c.sendQueue ++ [x] }

/-- The next step at a place forgets no command: the queue takes that of `RecvNetCmdData`, and the one that is
put back. -/
def keeps (s : State n) : Pc → Bool
  | .handing k p true => s.takes k p
  | .full k _ _ _ _ => (s.clientCmd.find k).any fun c => c.sendQueue.length < QUEUE_SIZE
  | _ => true

def Kept (s : State n) : Act n → Prop
  | .run t _ => keeps s (s.pc t) = true
  | _ => True

instance (s : State n) : ∀ a, Decidable (Kept s a)
  | .run t _ => inferInstanceAs (Decidable (keeps s (s.pc t) = true))
  | .addNewClient _ | .removeClient _ | .removeAllClient | .call .. | .free _ | .sendThread _ | .newBuff .. | .transmit ..
  | .complete .. => inferInstanceAs (Decidable True)

/-! ## The balance of a step -/

@[simp] theorem idsOf_nil : idsOf [] = [] := rfl

@[simp] theorem idsOf_cons (k : Socket) (vec : List Entry) (l : TempCmds) :
    idsOf ((k, vec) :: l) = vec.map Entry.id ++ idsOf l := rfl

@[simp] theorem idsOf_append (l l' : TempCmds) : idsOf (l ++ l') = idsOf l ++ idsOf l' := List.flatMap_append

/-- What a thread has. -/
def ids (p : Pc) : List Nat := held p ++ listed p

/-- All commands, the lost ones too. -/
def total (s : State n) (i : Nat) : Nat :=
  (∑ t, (ids (s.pc t)).count i) + inQueues s i + s.freed.count i + s.lost.count i

theorem total_eq (s : State n) (i : Nat) : total s i = places s i + s.lost.count i := by
  simp only [total, places, ids, List.count_append, Finset.sum_add_distrib]
  omega

/-- What the thread and the queues give up, the thread, the queues, `freed` and `lost` get. -/
theorem total_goto {t : Fin n} {p : Pc} {out got : Nat} {f l : List Nat} (hpc : s'.pc = Function.update s.pc t p)
    (hq : inQueues s' i + out = inQueues s i + got) (hf : s'.freed = s.freed ++ f) (hl : s'.lost = s.lost ++ l)
    (h : (ids p).count i + got + f.count i + l.count i = (ids (s.pc t)).count i + out) : total s' i = total s i := by
  have hs := weigh_update (fun p => (ids p).count i) s.pc t p
  rw [weigh, weigh] at hs
  rw [total, total, hpc, hf, hl, List.count_append, List.count_append]
  omega

theorem inQueues_same (hc : s'.clientCmd = s.clientCmd) : inQueues s' i + 0 = inQueues s i + 0 := by
  rw [inQueues, inQueues, hc]

/-- The thread has the same commands as before. -/
theorem total_same {t : Fin n} {p : Pc} (hpc : s'.pc = Function.update s.pc t p) (hp : ids p = ids (s.pc t))
    (hc : s'.clientCmd = s.clientCmd) (hf : s'.freed = s.freed) (hl : s'.lost = s.lost) : total s' i = total s i :=
  total_goto hpc (inQueues_same hc) (hf.trans (List.append_nil _).symm) (hl.trans (List.append_nil _).symm) (by rw [hp]; rfl)

theorem inQueues_set {k : Socket} {c : Client} {q : List Entry} (hf : s.clientCmd.find k = some c)
    (hc : s'.clientCmd = s.clientCmd.set k { c with sendQueue := q }) :
    inQueues s' i + (c.sendQueue.map Entry.id).count i = inQueues s i + (q.map Entry.id).count i := by
  have h := OrdMap.sum_set (fun c : Client => (c.sendQueue.map Entry.id).count i) s.clientCmd k { c with sendQueue := q }
  rw [hf] at h
  rw [inQueues, hc]
  exact h

/-- Nothing puts a command into a `recvQueue`. -/
def NoRecv (s : State n) : Prop := ∀ k c, s.clientCmd.find k = some c → c.recvQueue = []

theorem NoRecv.flow (h : NoRecv s) {a : Act n} (f : Flow s a s') : NoRecv s' := by
  have set : ∀ {k : Socket} {c : Client} {q : List Entry}, s.clientCmd.find k = some c →
      s'.clientCmd = s.clientCmd.set k { c with sendQueue := q } → NoRecv s' := by
    intro k c q hf hc j d hd
    rw [hc, OrdMap.find_set] at hd
    split at hd
    · cases hd
      exact h k c hf
    · exact h j d hd
  cases f with
  | less hc _ _ _ => exact fun k c hf => h k c (hc k c hf)
  | add hc _ _ _ =>
    intro j d hd
    rw [hc, OrdMap.find_set] at hd
    split at hd
    · cases hd
      rfl
    · exact h j d hd
  | push hf _ hc _ _ _ => exact set hf hc
  | pop _ hf _ hc _ _ _ _ => exact set hf hc
  | putBack _ hf _ hc _ _ _ _ => exact set hf hc
  | give _ _ hc _ _ _ _ =>
    intro j d hd
    rw [hc] at hd
    exact h j d hd

theorem noRecv (h : (sys n).Reachable s) : NoRecv s :=
  Sys.Reach.inv_of (J := Owners) (I := NoRecv) (fun _ hr => owners hr.reachable) (fun _ hi => hi ▸ nofun)
    (fun _ _ _ ho _ hr _ he => hr.flow (flow ho (step_move he))) h

theorem cmds_id (h : NoRecv s) {k : Socket} {c : Client} (hf : s.clientCmd.find k = some c) :
    c.cmds.map Entry.id = c.sendQueue.map Entry.id := by
  rw [Client.cmds, h k c hf, List.nil_append]

/-- `ClearClientCmd` frees what was in the queue. -/
theorem removeClient_balance (h : NoRecv s) (k : Socket) :
    inQueues (s.removeClient k) i + (s.removeClient k).freed.count i = inQueues s i + s.freed.count i := by
  have hs := OrdMap.sum_erase (fun c : Client => (c.sendQueue.map Entry.id).count i) s.clientCmd k
  simp only [inQueues, State.removeClient, List.count_append]
  cases hf : s.clientCmd.find k with
  | none =>
    rw [hf] at hs
    simp only [Option.elim_none, List.count_nil] at hs ⊢
    omega
  | some c =>
    rw [hf] at hs
    simp only [Option.elim_some, cmds_id h hf] at hs ⊢
    omega

theorem removeAllClient_balance (h : NoRecv s) :
    inQueues s.removeAllClient i + s.removeAllClient.freed.count i = inQueues s i + s.freed.count i := by
  have hids : (s.clientCmd.entries.flatMap fun e => e.2.cmds.map Entry.id) =
      s.clientCmd.entries.flatMap fun e => e.2.sendQueue.map Entry.id :=
    List.flatMap_congr fun e he => cmds_id h (OrdMap.mem_entries.1 he)
  simp only [inQueues, State.removeAllClient, List.count_append, hids, List.count_flatMap, OrdMap.sum_empty]
  rw [OrdMap.sum, Nat.zero_add, Nat.add_comm]
  rfl

/-- The thread gets a new command. -/
theorem total_new {t : Fin n} {p : Pc} {m : Nat} (ht : ids (s.pc t) = []) (hp : ids p = [m])
    (hpc : s'.pc = Function.update s.pc t p) (hc : s'.clientCmd = s.clientCmd) (hf : s'.freed = s.freed)
    (hl : s'.lost = s.lost) : total s' i = total s i + if i = m then 1 else 0 := by
  have hs := weigh_update (fun p => (ids p).count i) s.pc t p
  rw [weigh, weigh, ht, hp, List.count_nil, List.count_singleton] at hs
  rw [total, total, inQueues, inQueues, hpc, hc, hf, hl]
  grind

theorem total_removes (hpc : s'.pc = s.pc) (hb : inQueues s' i + s'.freed.count i = inQueues s i + s.freed.count i)
    (hl : s'.lost = s.lost) : total s' i = total s i := by
  rw [total, total, hpc, hl]
  omega

/-! ## Every step -/

/-- A step creates no command but the one of a call, and none disappears. -/
theorem total_move (hr : NoRecv s) {a : Act n} (m : Move s a s') (i : Nat) :
    total s' i + (if i < s.nextId then 1 else 0) = total s i + if i < s'.nextId then 1 else 0 := by
  have keep : ∀ {s' : State n}, s'.nextId = s.nextId → total s' i = total s i →
      total s' i + (if i < s.nextId then 1 else 0) = total s i + if i < s'.nextId then 1 else 0 := by
    intro s' hn ht
    rw [hn, ht]
  have nil : ∀ {l : List Nat}, l = l ++ [] := (List.append_nil _).symm
  cases m with
  | @addNewClient k _ hk =>
    have hs := OrdMap.sum_set (fun c : Client => (c.sendQueue.map Entry.id).count i) s.clientCmd k
      ⟨⟨k, s.nextConn⟩, [], []⟩
    rw [hk] at hs
    simp only [Option.elim_none, List.map_nil, List.count_nil, Nat.add_zero] at hs
    refine keep rfl ?_
    rw [total, total, inQueues, inQueues, ← hs]
    rfl
  | @removeClient k _ => exact keep rfl (total_removes rfl (removeClient_balance hr k) rfl)
  | removeAllClient _ => exact keep rfl (total_removes rfl (removeAllClient_balance hr) rfl)
  | @call t k cmd inner ht =>
    have hnew : total ({ s with nextId := s.nextId + 1 }.goto t (.handing k ⟨cmd, s.nextId⟩ inner)) i = _ :=
      total_new (s := s) (by rw [ht]; rfl) rfl rfl rfl rfl rfl
    rw [hnew]
    show _ = _ + if i < s.nextId + 1 then 1 else 0
    grind
  | taken h ht _ hf =>
    refine keep rfl (total_goto rfl (inQueues_set hf rfl) nil nil ?_)
    rw [ht]
    simp [ids, held, listed, load]
    omega
  | dropped ht _ =>
    refine keep rfl (total_goto rfl (inQueues_same rfl) nil rfl ?_)
    rw [ht]
    simp [ids, held, listed, load]
  | kept ht _ => exact keep rfl (total_same rfl (by rw [ht]; rfl) rfl rfl rfl)
  | free ht =>
    refine keep rfl (total_goto rfl (inQueues_same rfl) rfl nil ?_)
    rw [ht]
    simp [ids, held, listed, load]
  | sendThread ht => exact keep rfl (total_same rfl (by rw [ht]; rfl) rfl rfl rfl)
  | drainEnd ht => exact keep rfl (total_same rfl (by rw [ht]; rfl) rfl rfl rfl)
  | drainNext ht => exact keep rfl (total_same rfl (by rw [ht]; simp [ids, held, listed, load]) rfl rfl rfl)
  | popEnd ht => exact keep rfl (total_same rfl (by rw [ht]; simp [ids, held, listed, load]) rfl rfl rfl)
  | pop ht _ hf hq _ =>
    refine keep rfl (total_goto rfl (inQueues_set hf rfl) nil nil ?_)
    rw [ht, hq]
    simp [ids, held, listed, load, List.count_cons]
    omega
  | popFull ht _ hf hq =>
    refine keep rfl (total_goto rfl (inQueues_set hf rfl) nil nil ?_)
    rw [ht, hq]
    simp [ids, held, listed, load, List.count_cons]
    omega
  | putBack ht hf _ =>
    refine keep rfl (total_goto rfl (inQueues_set hf rfl) nil nil ?_)
    rw [ht]
    simp [ids, held, listed, load, List.count_cons]
    omega
  | putLost ht _ =>
    refine keep rfl (total_goto rfl (inQueues_same rfl) nil rfl ?_)
    rw [ht]
    simp [ids, held, listed, load]
    omega
  | noClients ht => exact keep rfl (total_same rfl (by rw [ht]; rfl) rfl rfl rfl)
  | newBuff ht _ => exact keep rfl (total_same rfl (by rw [ht]; rfl) rfl rfl rfl)
  | deleteBuff ht => exact keep rfl (total_same rfl (by rw [ht]; rfl) rfl rfl rfl)
  | turn ht => exact keep rfl (total_same rfl (by rw [ht]; rfl) rfl rfl rfl)
  | packOne ht hv _ =>
    refine keep rfl (total_goto rfl (inQueues_same rfl) rfl nil ?_)
    rw [ht]
    simp [ids, held, listed, load, hv, List.count_cons]
  | packed ht _ => exact keep rfl (total_same rfl (by rw [ht]; rfl) rfl rfl rfl)
  | packEnd ht hv _ => exact keep rfl (total_same rfl (by rw [ht]; simp [ids, held, listed, load, hv]) rfl rfl rfl)
  | sendReq ht _ => exact keep rfl (total_same rfl (by rw [ht]; rfl) rfl rfl rfl)
  | noContext ht _ => exact keep rfl (total_same rfl (by rw [ht]; rfl) rfl rfl rfl)
  | setLen ht =>
    unfold State.setLen
    split <;> exact keep rfl (total_same rfl (by rw [ht]; rfl) rfl rfl rfl)
  | @wsaSend t ok j ht =>
    unfold State.wsaSend
    split
    · exact keep rfl (total_same rfl (by rw [ht]; rfl) rfl rfl rfl)
    · refine keep rfl (total_same (t := t) rfl ?_ rfl rfl rfl)
      rw [ht]
      cases ok <;> rfl
  | @sendFailed t _ j ht _ =>
    have hgo : total ((s.removeClient j.k).goto t (.pack j.sent)) i = total (s.removeClient j.k) i := by
      refine total_same (t := t) rfl ?_ rfl rfl rfl
      show ids (.pack j.sent) = ids (s.pc t)
      rw [ht]
      rfl
    exact keep rfl (hgo.trans (total_removes rfl (removeClient_balance hr j.k) rfl))
  | transmit _ _ _ => exact keep rfl rfl
  | complete _ _ _ => exact keep rfl rfl

/-- Every command that was created is somewhere, or lost. -/
theorem counted (h : (sys n).Reachable s) (i : Nat) : total s i = if i < s.nextId then 1 else 0 := by
  refine Sys.Reach.inv_of (J := NoRecv) (I := fun s => total s i = if i < s.nextId then 1 else 0)
    (fun _ hr => noRecv hr.reachable) ?_ ?_ h
  · rintro _ rfl
    simp [total, inQueues, ids, held, listed, load, start]
  · intro s a s' hr _ hi _ he
    have hm := total_move hr (step_move he) i
    omega

theorem lost_move {a : Act n} (hk : Kept s a) (m : Move s a s') : s'.lost = s.lost := by
  cases m with
  | dropped ht hn =>
    simp only [Kept, ht, keeps, hn] at hk
    cases hk
  | putLost ht hn =>
    simp only [Kept, ht, keeps, Option.any_eq_true, decide_eq_true_eq] at hk
    obtain ⟨c, hc, hl⟩ := hk
    exact absurd hl (Nat.not_lt.2 (hn c hc))
  | setLen _ =>
    unfold State.setLen
    split <;> rfl
  | wsaSend _ =>
    unfold State.wsaSend
    split <;> rfl
  | _ => rfl

theorem lost_nil (h : (sys n).Reach Kept s) : s.lost = [] :=
  h.inv (I := fun s => s.lost = []) (fun _ hi => hi ▸ rfl) fun _ _ _ hl hk he => (lost_move hk (step_move he)).trans hl

/-! ## The result of SendCmdData -/

theorem sendCmdData_false (s : State n) (k : Socket) (p : PCmd) : (s.sendCmdData k p).1 = false := by
  unfold State.sendCmdData
  split
  · rfl
  · dsimp only
    split
    · rfl
    · split <;> rfl

theorem took_iff (s : State n) (k : Socket) (p : PCmd) : Took s k p ↔ s.takes k p = true := by
  simp only [Took, State.takes, State.sendCmdData, Bool.and_eq_true, decide_eq_true_eq, Option.any_eq_true]
  constructor
  · rintro ⟨c, x, hf, -, -, hs⟩
    have hne : { c with sendQueue := c.sendQueue ++ [x] } ≠ c := fun he => by
      simpa using congrArg (fun c => c.sendQueue.length) he
    split at hs
    case isTrue => exact absurd (Option.some.inj (hs.symm.trans hf)) hne
    case isFalse hl =>
      rw [hf] at hs
      dsimp only at hs
      split at hs
      case isTrue hq => exact ⟨Nat.lt_of_not_le hl, c, hf, hq⟩
      case isFalse => exact absurd (Option.some.inj (hs.symm.trans hf)) hne
  · rintro ⟨hl, c, hf, hq⟩
    refine ⟨c, ⟨p.cmd, p.id, ⟨c.conn, s.nextSeq⟩, hl⟩, hf, rfl, rfl, ?_⟩
    rw [dif_neg (Nat.not_le.2 hl), hf]
    simp only [if_pos hq, OrdMap.find_set_self]

/-- **Command ownership.** -/
theorem conserved (s : State n) :
    ((sys n).Reach Kept s → Conserved s) ∧ ((sys n).Reachable s → ∀ i, places s i ≤ 1) ∧
      ∀ k p, ((s.sendCmdData k p).1 = true ↔ Took s k p) ↔ s.takes k p = false := by
  refine ⟨?_, ?_, ?_⟩
  · intro h i
    have ht := counted h.reachable i
    rw [total_eq, lost_nil h] at ht
    exact ht
  · intro h i
    have ht := counted h i
    rw [total_eq] at ht
    split at ht <;> omega
  · intro k p
    rw [sendCmdData_false, took_iff]
    cases s.takes k p <;> simp

/-- A received command goes through the queue and a pass and is freed with its packet. -/
theorem conserved_received : ∃ s : State 2, (sys 2).Reach Kept s ∧ s.nextId = 1 ∧ s.freed = [0] ∧ Conserved s :=
  have hr : (sys 2).Reach Kept _ := Sys.Reach.runK ([.addNewClient 1, .call 0 1 (headerCmd 7) true, .run 0 true,
    .sendThread 1] ++ runs 1 4 ++ [.newBuff 1 9 fun _ => ⟨0, none⟩] ++ runs 1 2) (.init rfl) rfl
  ⟨_, hr, rfl, rfl, (conserved _).1 hr⟩

/-- `RecvNetCmdData` forgets a command for a client that is gone; and the queue takes a command of which
`SendCmdData` says that it has not. -/
theorem not_conserved : (¬ ∀ s : State 4, (sys 4).Reachable s → Conserved s) ∧
    ¬ ∀ s : State 4, (sys 4).Reachable s → ∀ k p, (s.sendCmdData k p).1 = true ↔ Took s k p := by
  refine ⟨?_, ?_⟩
  · intro h
    have hr : (sys 4).Reachable _ := Sys.Reachable.run [.call 0 1 (headerCmd 7) true, .run 0 true] (.init rfl) rfl
    exact absurd (h _ hr 0) (by decide)
  · intro h
    have hr : (sys 4).Reachable _ := Sys.Reachable.run [.addNewClient 1] (.init rfl) rfl
    exact nomatch (h _ hr 1 ⟨headerCmd 7, 0⟩).2 ⟨_, _, rfl, rfl, rfl, rfl⟩

end P1Server.Send
