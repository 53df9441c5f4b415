import P1Server.SafeArraySpsc

/-!
# `HttpClientBoost`: who deletes the requests

One calling thread and one `ExecuteThread`, over the steps of `reqQueue`.

| here | there |
| --- | --- |
| `Caller`     | `ReqPlayerTotalCost` (`P1/HttpClientBoost.cpp:103-118`): in `ReqData` (`:93-101`), then at `request->size()` |
| `Worker`     | `ExecuteThread` (`:14-75`): at the queue, then with a request |
| `Answer`     | what `from_string`, `connect`, `write_some` and `close` do; a short write is `ok` |
| `Worker.stopped` | the `return false` (`:32-36`) |

Requests are numbered from 1, as the caller makes them; `NULL` is 0. `deleted` has what has been deleted, `stale` the
reads of a request that was.

* `places` — how often a request is with the caller, in the queue, with the worker and deleted;
* `Inv.move` — what a step does where nothing fails that the code does not provide for;
* `Inv.ends` — then every request added is deleted, so many steps of the worker later;
* **`requests_owned`** — and is in one place until then, is not read afterwards, and the worker goes on;
* `not_requests_owned` — a host that is no address, and a worker that is faster than `size()`. An exception and a full
  queue also leave a request to nobody.
-/

namespace P1Server.Http
open Lib

inductive Caller
  | idle
  | reqData (r : Nat)
  | print (r : Nat)
  deriving DecidableEq

inductive Worker
  | poll
  | address (r : Nat)
  | connect (r : Nat)
  | writeSome (r : Nat)
  | sizes (r : Nat)
  | delete (r : Nat)
  | close
  | stopped
  deriving DecidableEq

inductive Answer
  | ok
  | error
  | thrown
  deriving DecidableEq

structure State where
  reqQueue : Spsc.State Nat
  caller : Caller
  worker : Worker
  made : Nat
  deleted : List Nat
  stale : List Nat

inductive Act
  | reqPlayerTotalCost
  | caller
  | worker (a : Answer)

namespace State

/-- A read of the request. -/
def read (s : State) (r : Nat) : State := { s with stale := if r ∈ s.deleted then s.stale ++ [r] else s.stale }

/-- The next step of the caller; the result of `ReqData` is not looked at. -/
def stepCaller (s : State) : Option State :=
  match s.caller with
  | .idle => none
  | .reqData r => (Spsc.stepProducer s.reqQueue).map fun q =>
    { s with
      reqQueue := q
      caller := match q.prod with
        | .idle => .print r
        | _ => .reqData r }
  | .print r => some { s.read r with caller := .idle }

/-- `HasItem` and `GetItem`; what `GetItem` returns is tested for `NULL`. -/
def stepPoll (s : State) : Option State :=
  match s.reqQueue.cons with
  | .idle => some { s with reqQueue := { s.reqQueue with cons := .itemPush } }
  | _ => (Spsc.stepConsumer 0 s.reqQueue).map fun q =>
    { s with
      reqQueue := q
      worker := match q.got.drop s.reqQueue.got.length with
        | r :: _ => if r ≠ 0 then .address r else .poll
        | [] => .poll }

/-- The next step of `ExecuteThread`. -/
def stepWorker (s : State) (a : Answer) : Option State :=
  match s.worker with
  | .poll => s.stepPoll
  | .address r =>
    match a with
    | .ok => some { s with worker := .connect r }
    | .error => some { s with worker := .stopped }
    | .thrown => some { s with worker := .poll }
  | .connect r =>
    match a with
    | .ok | .error => some { s with worker := .writeSome r }
    | .thrown => some { s with worker := .poll }
  | .writeSome r =>
    match a with
    | .ok | .error => some { s.read r with worker := .sizes r }
    | .thrown => some { s.read r with worker := .poll }
  | .sizes r => some { s.read r with worker := .delete r }
  | .delete r => some { s with deleted := s.deleted ++ [r], worker := .close }
  | .close => some { s with worker := .poll }
  | .stopped => none

end State

def step (s : State) : Act → Option State
  | .reqPlayerTotalCost =>
    match s.caller with
    | .idle => (Spsc.step 0 s.reqQueue (.add (s.made + 1))).map fun q =>
      { s with reqQueue := q, caller := .reqData (s.made + 1), made := s.made + 1 }
    | _ => none
  | .caller => s.stepCaller
  | .worker a => s.stepWorker a

/-- `reqQueue(1000)`, and the worker has been started. -/
def sys : Sys State Act where
  init s := ∃ q, (Spsc.sys 0 1000).init q ∧ s = ⟨q, .idle, .poll, 0, [], []⟩
  step := step

/-! ## The runs in which the code's assumptions hold -/

/-- `HasSpace` finds a free slot. -/
def HasSpace (q : Spsc.State Nat) : Spsc.Producer Nat → Prop
  | .spacePop _ push => q.q.next push ≠ q.q.m_PopIdx
  | _ => True

/-- The host is an address, nothing is thrown before the `delete`, and the caller has printed the size by then. -/
def Served (s : State) (a : Answer) : Worker → Prop
  | .address _ => a = .ok
  | .connect _ | .writeSome _ => a ≠ .thrown
  | .delete r => s.caller ≠ .print r
  | _ => True

/-- Nothing happens that the code does not provide for. -/
def Careful (s : State) : Act → Prop
  | .reqPlayerTotalCost => True
  | .caller => HasSpace s.reqQueue s.reqQueue.prod
  | .worker a => Served s a s.worker

instance decidableHasSpace (q : Spsc.State Nat) : ∀ p, Decidable (HasSpace q p)
  | .spacePop _ push => inferInstanceAs (Decidable (q.q.next push ≠ q.q.m_PopIdx))
  | .idle | .spacePush _ | .slotIdx _ | .slotWrite .. | .pushRead _ | .pushWrite .. => .isTrue trivial

instance decidableServed (s : State) (a : Answer) : ∀ w, Decidable (Served s a w)
  | .address _ => inferInstanceAs (Decidable (a = .ok))
  | .connect _ | .writeSome _ => inferInstanceAs (Decidable (a ≠ .thrown))
  | .delete r => inferInstanceAs (Decidable (s.caller ≠ .print r))
  | .poll | .sizes _ | .close | .stopped => .isTrue trivial

instance decidableCareful (s : State) : ∀ a, Decidable (Careful s a)
  | .reqPlayerTotalCost => .isTrue trivial
  | .caller => inferInstanceAs (Decidable (HasSpace s.reqQueue s.reqQueue.prod))
  | .worker a => inferInstanceAs (Decidable (Served s a s.worker))

/-! ## Where the requests are -/

/-- The request in the hands of `ReqData`. -/
def offered : Spsc.Producer Nat → Option Nat
  | .idle => none
  | .spacePush r | .spacePop r _ | .slotIdx r | .slotWrite r _ | .pushRead r | .pushWrite r _ => some r

def held : Worker → Option Nat
  | .address r | .connect r | .writeSome r | .sizes r | .delete r => some r
  | .poll | .close | .stopped => none

/-- What is in the queue, or on its way out of it. -/
def queued (q : Spsc.State Nat) : List Nat := q.added.drop q.got.length

/-- How often the request is with the caller, in the queue, with the worker and deleted. -/
def places (s : State) (r : Nat) : Nat :=
  (if offered s.reqQueue.prod = some r then 1 else 0) + (queued s.reqQueue).count r +
    (if held s.worker = some r then 1 else 0) + s.deleted.count r

/-! ## How long a request waits -/

/-- Steps of `HasItem` and `GetItem` still to make; more of them where `HasItem` is about to find nothing. -/
def stage (q : Spsc.State Nat) : Nat :=
  match q.cons with
  | .idle => 9
  | .itemPush => 8
  | .itemPop push => if push ≠ q.q.m_PopIdx then 7 else 10
  | .getPush => 6
  | .getPop _ => 5
  | .idxRead => 4
  | .popRead _ => 3
  | .popWrite .. => 2
  | .slotRead _ => 1

/-- Steps to the end of the worker's turn. -/
def turn (s : State) : Nat :=
  match s.worker with
  | .poll => stage s.reqQueue
  | .close => 11
  | .delete _ => 12
  | .sizes _ => 13
  | .writeSome _ => 14
  | .connect _ => 15
  | .address _ => 16
  | .stopped => 0

/-- The worker's turns until it has the request. -/
def ahead (r : Nat) (s : State) : Nat :=
  if held s.worker = some r then 0 else (queued s.reqQueue).idxOf r + 1

def wait (r : Nat) (s : State) : Nat := 20 * ahead r s + turn s

def isWorker : Act → Bool
  | .worker _ => true
  | .reqPlayerTotalCost | .caller => false

/-- `ends`: whoever moves in between, after so many steps of the worker the request has been deleted once. -/
structure Owned (s : State) : Prop where
  place : ∀ r, 1 ≤ r → r ≤ s.made → places s r = 1
  ends : ∀ r, 1 ≤ r → r ≤ s.made → offered s.reqQueue.prod ≠ some r → ∃ n, ∀ as t, n < as.countP isWorker →
    sys.runK Careful s as = some t → t.deleted.count r = 1
  stale : s.stale = []
  goesOn : ∀ a, ∃ s', step s (.worker a) = some s'

structure Inv (s : State) : Prop where
  queue : (Spsc.sys 0 1000).Reachable s.reqQueue
  place : ∀ r, places s r = if 1 ≤ r ∧ r ≤ s.made then 1 else 0
  caller : ∀ r, offered s.reqQueue.prod = some r ↔ s.caller = .reqData r
  printed : ∀ r, s.caller = .print r → r ∉ s.deleted
  stale : s.stale = []
  goesOn : s.worker ≠ .stopped

/-! ## What a step does -/

/-- What a step of such a run does. -/
inductive Move (s : State) : Act → State → Prop
  | make {q : Spsc.State Nat} : s.caller = .idle → offered q.prod = some (s.made + 1) →
      queued q = queued s.reqQueue → stage q = stage s.reqQueue →
      Move s .reqPlayerTotalCost { s with reqQueue := q, caller := .reqData (s.made + 1), made := s.made + 1 }
  | offer {q : Spsc.State Nat} {r : Nat} : offered s.reqQueue.prod = some r → offered q.prod = some r →
      queued q = queued s.reqQueue → stage q = stage s.reqQueue →
      Move s .caller { s with reqQueue := q, caller := .reqData r }
  | add {q : Spsc.State Nat} {r : Nat} : offered s.reqQueue.prod = some r → offered q.prod = none →
      queued q = queued s.reqQueue ++ [r] → stage q = stage s.reqQueue →
      Move s .caller { s with reqQueue := q, caller := .print r }
  | print {r : Nat} : s.caller = .print r → Move s .caller { s with caller := .idle }
  | poll {q : Spsc.State Nat} {a : Answer} : s.worker = .poll → q.prod = s.reqQueue.prod →
      queued q = queued s.reqQueue → (queued q ≠ [] → stage q < stage s.reqQueue) →
      Move s (.worker a) { s with reqQueue := q }
  | take {q : Spsc.State Nat} {r : Nat} {a : Answer} : s.worker = .poll → q.prod = s.reqQueue.prod →
      queued s.reqQueue = r :: queued q → Move s (.worker a) { s with reqQueue := q, worker := .address r }
  | work {w : Worker} {a : Answer} : held w = held s.worker → w ≠ .stopped → turn { s with worker := w } < turn s →
      Move s (.worker a) { s with worker := w }
  | delete {r : Nat} {a : Answer} : s.worker = .delete r → s.caller ≠ .print r →
      Move s (.worker a) { s with deleted := s.deleted ++ [r], worker := .close }

variable {s s' : State} {q q' : Spsc.State Nat} {a : Act}

theorem stage_le (q : Spsc.State Nat) : stage q ≤ 10 := by
  unfold stage
  split <;> (try split) <;> omega

/-- A step of `ReqData`: it goes on, has added the request, or has found no space. -/
theorem producer_cases (he : Spsc.stepProducer q = some q') : q'.got = q.got ∧ stage q' = stage q ∧
    ∃ r, offered q.prod = some r ∧
      ((q'.prod ≠ .idle ∧ offered q'.prod = some r ∧ q'.added = q.added) ∨
        (q'.prod = .idle ∧ q'.added = q.added ++ [r]) ∨
        (q'.prod = .idle ∧ q'.added = q.added ∧ ∃ push, q.prod = .spacePop r push ∧ q.q.next push = q.q.m_PopIdx)) := by
  unfold Spsc.stepProducer at he
  cases hp : q.prod with
  | idle =>
    rw [hp] at he
    cases he
  | spacePush r | slotIdx r | slotWrite r push | pushRead r =>
    rw [hp] at he
    cases he
    exact ⟨rfl, rfl, r, rfl, .inl ⟨by simp, rfl, rfl⟩⟩
  | spacePop r push =>
    rw [hp] at he
    cases he
    refine ⟨rfl, rfl, r, rfl, ?_⟩
    by_cases hn : q.q.next push = q.q.m_PopIdx
    · exact .inr (.inr ⟨if_neg (not_not.2 hn), rfl, push, rfl, hn⟩)
    · refine .inl ?_
      simp only [ne_eq, hn, not_false_eq_true, if_true]
      exact ⟨by simp, rfl, trivial⟩
  | pushWrite r push =>
    rw [hp] at he
    cases he
    exact ⟨rfl, rfl, r, rfl, .inr (.inl ⟨rfl, rfl⟩)⟩

/-- A step of `HasItem` or `GetItem`, which may be the one that returns. -/
theorem consumer_cases (he : Spsc.stepConsumer 0 q = some q') : q'.prod = q.prod ∧ q'.added = q.added ∧
    (q'.got = q.got ∧ ((q.cons = .itemPush → q.q.m_PushIdx ≠ q.q.m_PopIdx) → stage q' < stage q) ∨
      ∃ r, q'.got = q.got ++ [r]) := by
  unfold Spsc.stepConsumer at he
  rw [stage, stage]
  cases hc : q.cons with
  | idle =>
    rw [hc] at he
    cases he
  | itemPush =>
    rw [hc] at he
    cases he
    refine ⟨rfl, rfl, .inl ⟨rfl, ?_⟩⟩
    intro hn
    simp only [if_pos (hn rfl)]
    omega
  | itemPop push =>
    rw [hc] at he
    cases he
    refine ⟨rfl, rfl, .inl ⟨rfl, ?_⟩⟩
    intro _
    by_cases hn : push = q.q.m_PopIdx
    · simp [hn]
    · simp [hn]
  | getPush | idxRead | popRead | popWrite =>
    rw [hc] at he
    cases he
    exact ⟨rfl, rfl, .inl ⟨rfl, fun _ => by simp⟩⟩
  | getPop push =>
    rw [hc] at he
    dsimp only at he
    split at he
    · cases he
      exact ⟨rfl, rfl, .inl ⟨rfl, fun _ => by simp⟩⟩
    · cases he
      exact ⟨rfl, rfl, .inr ⟨0, rfl⟩⟩
  | slotRead idx =>
    rw [hc] at he
    cases he
    exact ⟨rfl, rfl, .inr ⟨_, rfl⟩⟩

/-- What has been taken was the first in the queue. -/
theorem queued_take (h : (Spsc.sys 0 1000).Reachable q') {r : Nat} (ha : q'.added = q.added)
    (hg : q'.got = q.got ++ [r]) : queued q = r :: queued q' := by
  obtain ⟨rest, hrest⟩ := Spsc.got_prefix h
  rw [queued, queued, ← ha, ← hrest, hg, List.append_assoc, List.drop_append_of_le_length (Nat.le_refl _)]
  simp

/-- `HasItem` finds what has been in the queue since before it looks. -/
theorem finds (h : (Spsc.sys 0 1000).Reachable q) (hq : queued q ≠ []) (hc : q.cons = .itemPush) :
    q.q.m_PushIdx ≠ q.q.m_PopIdx := by
  have hi := Spsc.inv h
  have hpop : Spsc.popped q = q.got.length := by rw [Spsc.popped, hc]
  have hlt : q.got.length < q.added.length := by
    rw [queued, ne_eq, List.drop_eq_nil_iff] at hq
    omega
  have hle := hi.lt
  rw [hi.push, hi.pop]
  intro he
  have := slot_inj Spsc.arraySize_pos' hi.le (by omega) he.symm
  omega

/-! ## Each step -/

theorem Inv.made_le (h : Inv s) {r : Nat} (hr : 0 < places s r) : 1 ≤ r ∧ r ≤ s.made := by
  rw [h.place r] at hr
  split at hr
  · assumption
  · cases hr

/-- A request that is somewhere else is not deleted. -/
theorem Inv.not_deleted (h : Inv s) {r : Nat} (hr : s.deleted.count r < places s r) : r ∉ s.deleted := by
  have hp := h.place r
  rw [← List.count_eq_zero]
  split at hp <;> omega

theorem Inv.place_made (h : Inv s) {r : Nat} (h1 : 1 ≤ r) (hle : r ≤ s.made) : places s r = 1 :=
  (h.place r).trans (if_pos ⟨h1, hle⟩)

theorem Inv.held_not_deleted (h : Inv s) {r : Nat} (hr : held s.worker = some r) : r ∉ s.deleted := by
  apply h.not_deleted
  rw [places, if_pos hr]
  omega

theorem State.read_eq {r : Nat} (hr : r ∉ s.deleted) : s.read r = s := by
  rw [State.read, if_neg hr]

theorem Inv.move_worker (h : Inv s) {a : Answer} (hk : Served s a s.worker) (he : s.stepWorker a = some s')
    (hpoll : s.worker ≠ .poll) : Move s (.worker a) s' := by
  have hread : ∀ r, held s.worker = some r → s.read r = s := fun r hr => State.read_eq (h.held_not_deleted hr)
  unfold State.stepWorker at he
  cases hw : s.worker with
  | poll => exact absurd hw hpoll
  | stopped => exact absurd hw h.goesOn
  | address r =>
    rw [hw] at he hk
    cases hk
    cases he
    exact .work (by rw [hw]; rfl) (by simp) (by simp [turn, hw])
  | connect r =>
    rw [hw] at he hk
    cases a with
    | thrown => exact absurd rfl hk
    | ok | error =>
      cases he
      exact .work (by rw [hw]; rfl) (by simp) (by simp [turn, hw])
  | writeSome r =>
    rw [hw] at he hk
    cases a with
    | thrown => exact absurd rfl hk
    | ok | error =>
      simp only [hread r (by rw [hw]; rfl)] at he
      cases he
      exact .work (by rw [hw]; rfl) (by simp) (by simp [turn, hw])
  | sizes r =>
    rw [hw] at he
    simp only [hread r (by rw [hw]; rfl)] at he
    cases he
    exact .work (by rw [hw]; rfl) (by simp) (by simp [turn, hw])
  | delete r =>
    rw [hw] at he hk
    cases he
    exact .delete hw hk
  | close =>
    rw [hw] at he
    cases he
    refine .work (by rw [hw]; rfl) (by simp) ?_
    simp only [turn, hw]
    exact Nat.lt_succ_of_le (stage_le _)

/-- The worker is at the queue, and may get a request. -/
theorem Inv.move_poll (h : Inv s) (hw : s.worker = .poll) (he : s.stepPoll = some s') (a : Answer) :
    Move s (.worker a) s' ∧ (Spsc.sys 0 1000).Reachable s'.reqQueue := by
  unfold State.stepPoll at he
  split at he
  case h_1 hc =>
    cases he
    refine ⟨.poll hw rfl rfl ?_, .step h.queue (a := .get) trivial ?_⟩
    · simp [stage, hc]
    · simp [Spsc.sys, Spsc.step, hc]
  case h_2 =>
    obtain ⟨q, hq, he⟩ := Option.map_eq_some_iff.1 he
    have hr : (Spsc.sys 0 1000).Reachable q := .step h.queue (a := .consumer) trivial hq
    obtain ⟨hprod, hadded, ⟨hgot, hstage⟩ | ⟨r, hgot⟩⟩ := consumer_cases hq
    · have hqueued : queued q = queued s.reqQueue := by rw [queued, queued, hadded, hgot]
      rw [hgot, List.drop_length] at he
      cases he
      rw [← hw]
      refine ⟨.poll hw hprod hqueued ?_, hr⟩
      intro hne
      exact hstage (finds h.queue (hqueued ▸ hne))
    · have hqueued := queued_take hr hadded hgot
      have hne : r ≠ 0 := by
        have hpos : 0 < places s r := by
          rw [places, hqueued, List.count_cons_self]
          omega
        have := (h.made_le hpos).1
        omega
      rw [hgot, List.drop_append_of_le_length (Nat.le_refl _), List.drop_length] at he
      simp only [List.nil_append, ne_eq, hne, not_false_eq_true, if_true] at he
      cases he
      exact ⟨.take hw hprod hqueued, hr⟩

/-- The caller goes on in `ReqData`, comes back from it, or prints. -/
theorem Inv.move_caller (h : Inv s) (hk : HasSpace s.reqQueue s.reqQueue.prod) (he : s.stepCaller = some s') :
    Move s .caller s' ∧ (Spsc.sys 0 1000).Reachable s'.reqQueue := by
  unfold State.stepCaller at he
  cases hc : s.caller with
  | idle =>
    rw [hc] at he
    cases he
  | print r =>
    rw [hc] at he
    simp only [State.read_eq (h.printed r hc)] at he
    cases he
    exact ⟨.print hc, h.queue⟩
  | reqData r =>
    rw [hc] at he
    obtain ⟨q, hq, he⟩ := Option.map_eq_some_iff.1 he
    have hr : (Spsc.sys 0 1000).Reachable q := .step h.queue (a := .producer) trivial hq
    obtain ⟨hgot, hstage, d, hd, hcases⟩ := producer_cases hq
    obtain rfl : r = d := Option.some.inj (((h.caller r).2 hc).symm.trans hd)
    rcases hcases with ⟨hne, hoff, hadded⟩ | ⟨hidle, hadded⟩ | ⟨-, -, push, hpop, hfull⟩
    · have hcall : (match q.prod with
          | .idle => Caller.print r
          | _ => Caller.reqData r) = .reqData r := by
        split
        · exact absurd ‹_› hne
        · rfl
      rw [hcall] at he
      cases he
      exact ⟨.offer hd hoff (by rw [queued, queued, hgot, hadded]) hstage, hr⟩
    · rw [hidle] at he
      cases he
      have hqueued : queued q = queued s.reqQueue ++ [r] := by
        rw [queued, queued, hgot, hadded, List.drop_append_of_le_length (Spsc.got_prefix h.queue).length_le]
      exact ⟨.add hd (by rw [hidle]; rfl) hqueued hstage, hr⟩
    · rw [hpop] at hk
      exact absurd hfull hk

theorem Inv.move_reqPlayerTotalCost (h : Inv s) (he : step s .reqPlayerTotalCost = some s') :
    Move s .reqPlayerTotalCost s' ∧ (Spsc.sys 0 1000).Reachable s'.reqQueue := by
  simp only [step] at he
  split at he
  case h_2 => cases he
  case h_1 hc =>
    obtain ⟨q, hq, he⟩ := Option.map_eq_some_iff.1 he
    have hr : (Spsc.sys 0 1000).Reachable q := .step h.queue (a := .add (s.made + 1)) trivial hq
    simp only [Spsc.step] at hq
    split at hq
    case h_2 => cases hq
    case h_1 =>
      cases hq
      cases he
      exact ⟨.make hc rfl rfl rfl, hr⟩

theorem Inv.move (h : Inv s) (hk : Careful s a) (he : step s a = some s') :
    Move s a s' ∧ (Spsc.sys 0 1000).Reachable s'.reqQueue := by
  cases a with
  | reqPlayerTotalCost => exact h.move_reqPlayerTotalCost he
  | caller => exact h.move_caller hk he
  | worker a =>
    by_cases hw : s.worker = .poll
    · refine h.move_poll hw ?_ a
      rw [← he]
      simp only [step, State.stepWorker, hw]
    · have hm := h.move_worker hk he hw
      refine ⟨hm, ?_⟩
      cases hm with
      | poll hp | take hp => exact absurd hp hw
      | work | delete => exact h.queue

/-- No request while the caller makes none. -/
theorem Inv.not_offered (h : Inv s) (hc : ∀ r, s.caller ≠ .reqData r) : offered s.reqQueue.prod = none := by
  cases ho : offered s.reqQueue.prod with
  | none => rfl
  | some r => exact absurd ((h.caller r).1 ho) (hc r)

/-- A step leaves a request where it is or takes it one place on. -/
theorem Inv.place_move (h : Inv s) (hm : Move s a s') (r : Nat) :
    places s' r = if 1 ≤ r ∧ r ≤ s'.made then 1 else 0 := by
  have hp := h.place r
  cases hm with
  | make hc hoff hqueued =>
    have hnew : places s r + (if s.made + 1 = r then 1 else 0) = if 1 ≤ r ∧ r ≤ s.made + 1 then 1 else 0 := by
      rw [hp]
      split <;> split <;> split <;> omega
    rw [← hnew, places, places, h.not_offered (by simp [hc]), hoff, hqueued]
    simp only [Option.some.injEq, reduceCtorEq, if_false]
    omega
  | offer hoff hoff' hqueued =>
    rw [← hp, places, places, hoff, hoff', hqueued]
  | add hoff hoff' hqueued =>
    rw [← hp, places, places, hoff, hoff', hqueued]
    simp only [List.count_append, List.count_singleton, beq_iff_eq, Option.some.injEq, reduceCtorEq, if_false]
    omega
  | print => exact hp
  | poll _ hprod hqueued =>
    rw [← hp, places, places, hprod, hqueued]
  | take hw hprod hqueued =>
    rw [← hp, places, places, hprod, hqueued, hw, List.count_cons]
    simp only [held, Option.some.injEq, beq_iff_eq, reduceCtorEq, if_false]
    omega
  | work hheld => rw [← hp, places, places, hheld]
  | delete hw =>
    rw [← hp, places, places, hw]
    simp only [held, List.count_append, List.count_singleton, beq_iff_eq, Option.some.injEq, reduceCtorEq, if_false]
    omega

theorem Inv.step (h : Inv s) (hm : Move s a s') (hr : (Spsc.sys 0 1000).Reachable s'.reqQueue) : Inv s' := by
  have hplace := h.place_move hm
  cases hm with
  | make hc hoff =>
    refine ⟨hr, hplace, ?_, by simp, h.stale, h.goesOn⟩
    intro r
    simp [hoff]
  | offer hoff hoff' =>
    refine ⟨hr, hplace, ?_, by simp, h.stale, h.goesOn⟩
    intro r
    simp [hoff']
  | add hoff hoff' =>
    refine ⟨hr, hplace, ?_, ?_, h.stale, h.goesOn⟩
    · intro r
      simp [hoff']
    · intro r hc
      cases hc
      apply h.not_deleted
      rw [places, if_pos hoff]
      omega
  | print hc =>
    refine ⟨hr, hplace, ?_, by simp, h.stale, h.goesOn⟩
    intro r
    rw [h.caller r, hc]
    simp
  | poll _ hprod => exact ⟨hr, hplace, fun r => hprod ▸ h.caller r, h.printed, h.stale, h.goesOn⟩
  | take _ hprod => exact ⟨hr, hplace, fun r => hprod ▸ h.caller r, h.printed, h.stale, by simp⟩
  | work _ hne => exact ⟨hr, hplace, h.caller, h.printed, h.stale, hne⟩
  | delete hw hne =>
    refine ⟨hr, hplace, h.caller, ?_, h.stale, by simp⟩
    intro r hc hd
    rcases List.mem_append.1 hd with hd | hd
    · exact h.printed r hc hd
    · rw [List.mem_singleton.1 hd] at hc
      exact hne hc

theorem inv (h : sys.Reach Careful s) : Inv s := by
  refine Sys.Reach.inv ?_ ?_ h
  · rintro s ⟨q, hq, rfl⟩
    have hr : (Spsc.sys 0 1000).Reachable q := .init hq
    obtain ⟨data, rfl⟩ := hq
    refine ⟨hr, ?_, ?_, by simp, rfl, by simp⟩
    · intro r
      have hr : ¬(1 ≤ r ∧ r ≤ 0) := by omega
      exact (if_neg hr).symm
    · intro r
      constructor <;> intro hc <;> cases hc
  · intro s a s' hi hk he
    obtain ⟨hm, hr⟩ := hi.move hk he
    exact hi.step hm hr

/-! ## Every request comes to its end -/

theorem Move.deleted (hm : Move s a s') {r : Nat} (hr : r ∈ s.deleted) : r ∈ s'.deleted := by
  cases hm with
  | delete => exact List.mem_append_left _ hr
  | make | offer | add | print | poll | take | work => exact hr

/-- A request once added is not offered again. -/
theorem Move.not_offered (hm : Move s a s') {r : Nat} (hr : r ≤ s.made) (ho : offered s.reqQueue.prod ≠ some r) :
    r ≤ s'.made ∧ offered s'.reqQueue.prod ≠ some r := by
  cases hm with
  | make _ hoff =>
    refine ⟨Nat.le_succ_of_le hr, ?_⟩
    rw [hoff, ne_eq, Option.some.injEq]
    omega
  | offer hoff hoff' => exact ⟨hr, by rwa [hoff', ← hoff]⟩
  | add _ hoff' => exact ⟨hr, by simp [hoff']⟩
  | poll _ hprod | take _ hprod => exact ⟨hr, by rwa [hprod]⟩
  | print | work | delete => exact ⟨hr, ho⟩

/-- A request that is neither offered nor deleted is with the worker or in the queue. -/
theorem Inv.waiting (h : Inv s) {r : Nat} (h1 : 1 ≤ r) (hle : r ≤ s.made) (ho : offered s.reqQueue.prod ≠ some r)
    (hd : r ∉ s.deleted) : held s.worker = some r ∨ r ∈ queued s.reqQueue := by
  have hp := h.place_made h1 hle
  rw [places, if_neg ho, List.count_eq_zero.2 hd] at hp
  by_cases hh : held s.worker = some r
  · exact .inl hh
  · rw [if_neg hh] at hp
    exact .inr (List.count_pos_iff.1 (by omega))

theorem ahead_congr {r : Nat} (hw : held s'.worker = held s.worker)
    (hq : held s.worker = some r ∨ (queued s'.reqQueue).idxOf r = (queued s.reqQueue).idxOf r) :
    ahead r s' = ahead r s := by
  rw [ahead, ahead, hw]
  split
  · rfl
  · rw [hq.resolve_left ‹_›]

theorem wait_le {r : Nat} (ha : ahead r s' = ahead r s) (hw : s'.worker = s.worker)
    (hs : stage s'.reqQueue = stage s.reqQueue) : wait r s' ≤ wait r s := by
  rw [wait, wait, ha, turn, turn, hw, hs]

theorem wait_lt {r : Nat} (ha : ahead r s' = ahead r s) (ht : turn s' < turn s) : wait r s' < wait r s := by
  rw [wait, wait, ha]
  omega

/-- The caller does not lengthen the wait, and a step of the worker shortens it. -/
theorem Move.wait (hm : Move s a s') {r : Nat} (hr : held s.worker = some r ∨ r ∈ queued s.reqQueue) :
    r ∈ s'.deleted ∨ wait r s' < wait r s ∨ isWorker a = false ∧ wait r s' ≤ wait r s := by
  cases hm with
  | make _ _ hqueued hstage | offer _ _ hqueued hstage =>
    exact .inr (.inr ⟨rfl, wait_le (ahead_congr rfl (.inr (by rw [hqueued]))) rfl hstage⟩)
  | add _ _ hqueued hstage =>
    refine .inr (.inr ⟨rfl, wait_le (ahead_congr rfl (hr.imp_right ?_)) rfl hstage⟩)
    intro hr
    simp only [hqueued, List.idxOf_append_of_mem hr]
  | print => exact .inr (.inr ⟨rfl, Nat.le_refl _⟩)
  | poll hw _ hqueued hstage =>
    refine .inr (.inl (wait_lt (ahead_congr rfl (.inr (by rw [hqueued]))) ?_))
    simp only [turn, hw]
    apply hstage
    rw [hw] at hr
    rw [hqueued]
    exact List.ne_nil_of_mem (hr.resolve_left (by simp [held]))
  | @take q d _ hw _ hqueued =>
    have hahead : ahead r { s with reqQueue := q, worker := .address d } + 1 = ahead r s := by
      rw [ahead, ahead, hw, hqueued]
      by_cases hd : d = r
      · simp [held, hd]
      · simp [held, hd, List.idxOf_cons_ne]
    refine .inr (.inl ?_)
    rw [Http.wait, Http.wait, ← hahead]
    simp only [turn]
    omega
  | work hheld _ hlt => exact .inr (.inl (wait_lt (ahead_congr hheld (.inr rfl)) hlt))
  | @delete d _ hw =>
    by_cases hd : d = r
    · exact .inl (List.mem_append_right _ (by simp [hd]))
    · refine .inr (.inl (wait_lt ?_ ?_))
      · simp only [ahead, hw, held, Option.some.injEq, hd, reduceCtorEq, if_false]
      · simp only [turn, hw]
        omega

theorem Inv.ends (h : Inv s) {r : Nat} (h1 : 1 ≤ r) (hle : r ≤ s.made) (ho : offered s.reqQueue.prod ≠ some r)
    {as : List Act} {t : State} (hlt : wait r s < as.countP isWorker) (he : sys.runK Careful s as = some t) :
    t.deleted.count r = 1 := by
  have hstep : ∀ s a s', (Inv s ∧ r ≤ s.made ∧ offered s.reqQueue.prod ≠ some r) → Careful s a →
      sys.step s a = some s' → (Inv s' ∧ r ≤ s'.made ∧ offered s'.reqQueue.prod ≠ some r) ∧
        (r ∈ s'.deleted ∨ r ∉ s.deleted ∧ (wait r s' < wait r s ∨ isWorker a = false ∧ wait r s' ≤ wait r s)) := by
    rintro s a s' ⟨hi, hle, ho⟩ hk he
    obtain ⟨hm, hr⟩ := hi.move hk he
    refine ⟨⟨hi.step hm hr, hm.not_offered hle ho⟩, ?_⟩
    by_cases hd : r ∈ s.deleted
    · exact .inl (hm.deleted hd)
    · exact (hm.wait (hi.waiting h1 hle ho hd)).imp_right fun hw => ⟨hd, hw⟩
  obtain ⟨⟨hi, hle', -⟩, hd⟩ := Sys.runK_ranked (wait r) hstep as ⟨h, hle, ho⟩ hlt he
  have hp := hi.place_made h1 hle'
  rw [places] at hp
  have := List.count_pos_iff.2 hd
  omega

theorem Inv.goes_on (h : Inv s) (a : Answer) : ∃ s', Http.step s (.worker a) = some s' := by
  simp only [Http.step, State.stepWorker]
  cases hw : s.worker with
  | stopped => exact absurd hw h.goesOn
  | poll =>
    simp only [State.stepPoll, Spsc.stepConsumer]
    cases hc : s.reqQueue.cons with
    | getPop push =>
      simp only [Option.map_eq_some_iff]
      split <;> simp
    | idle | itemPush | itemPop | getPush | idxRead | popRead | popWrite | slotRead => exact ⟨_, rfl⟩
  | address | connect | writeSome => cases a <;> exact ⟨_, rfl⟩
  | sizes | delete | close => exact ⟨_, rfl⟩

/-- **Ownership of the requests.** In every run in which the host is an address, nothing is thrown before the `delete`,
`ReqData` finds space and `ReqPlayerTotalCost` has printed the size before the worker deletes the request. -/
theorem requests_owned (h : sys.Reach Careful s) : Owned s where
  place _ h1 hle := (inv h).place_made h1 hle
  ends r h1 hle ho := ⟨wait r s, fun _ _ => (inv h).ends h1 hle ho⟩
  stale := (inv h).stale
  goesOn := (inv h).goes_on

/-! ## Runs -/

theorem arraySize_thousand : arraySize 1000 = 1024 := by decide +kernel

/-- No request yet. -/
def start : State := ⟨⟨⟨1024, 1023, fun _ => 0, 0, 0⟩, .idle, .idle, [], []⟩, .idle, .poll, 0, [], []⟩

theorem start_reach {K : State → Act → Prop} : sys.Reach K start := by
  refine .init ⟨start.reqQueue, ⟨fun _ => 0, ?_⟩, rfl⟩
  rw [SafeArray.new, arraySize_thousand]
  rfl

/-- A request is made and added, and the worker takes it. -/
def taken : List Act := [.reqPlayerTotalCost] ++ .replicate 6 .caller ++ .replicate 9 (.worker .ok)

/-- One request, with a peer that refuses it. -/
theorem requests_owned_one : ∃ s, sys.Reach Careful s ∧ s.made = 1 ∧ s.deleted = [1] ∧ Owned s :=
  have hr : sys.Reach Careful _ := .runK (taken ++ [.caller, .worker .ok, .worker .error, .worker .error, .worker .ok,
    .worker .ok, .worker .thrown]) start_reach rfl
  ⟨_, hr, rfl, rfl, requests_owned hr⟩

/-- The host is a name: the worker stops with the request in its hands, and takes no other. Or the worker has sent and
deleted the request when the caller asks for its size. -/
theorem not_requests_owned :
    (∃ s, sys.Reachable s ∧ s.made = 1 ∧ places s 1 = 0 ∧ s.worker = .stopped ∧ ¬Owned s) ∧
    ∃ s, sys.Reachable s ∧ s.deleted = [1] ∧ s.stale = [1] ∧ ¬Owned s := by
  constructor
  · have hr : sys.Reachable _ := .run (taken ++ [.worker .error]) start_reach rfl
    refine ⟨_, hr, rfl, rfl, rfl, ?_⟩
    intro h
    exact absurd (h.place 1 (by decide) (by decide)) (by decide)
  · have hr : sys.Reachable _ := .run (taken ++ .replicate 5 (.worker .ok) ++ [.caller]) start_reach rfl
    refine ⟨_, hr, rfl, rfl, ?_⟩
    intro h
    exact absurd h.stale (by decide)

end P1Server.Http
