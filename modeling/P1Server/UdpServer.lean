import P1Server.IoService
import P1Server.Lib.Threads

/-!
# `UdpServer`: the receives

| here | there |
| --- | --- |
| `len`               | `wsaBuf.len`, the size of `data` (`IOCP_Test/UdpServer.h:11-15`) |
| `Result`, `recv`    | `WSARecvFrom`, whose result nobody looks at (`UdpServer.cpp:21`, `:69`) |
| `Act.init`          | a turn of the loop of `initServer` (`:66-70`), slot `next` of `sOV` |
| `Act.arrive`        | what happens to a receive that is outstanding |
| `Act.get`, `.run`   | a worker gets a completion, and does with it what `dispatch` says (`IO_Service.cpp:25-49`) |
| `Act.callBack`      | `callBackFunction` (`UdpServer.cpp:17-23`) |

The receives of a slot are counted, the completions are a list: that no slot has two is proved.

* `alive` — where no completion is a failure and `WSARecvFrom` does not fail, each slot has one receive outstanding, or
  its completion is queued or being handled;
* `lost` — a slot that has none never gets one again;
* `not_alive` — a long datagram, and a receive that fails at once.
-/

namespace P1Server.UdpServer
open Lib IoService

def len : Nat := 50

/-- What becomes of a receive. -/
inductive Arrival
  | datagram (size : Nat)
  | error

/-- `bSuccess` of the completion. -/
def Arrival.bSuccess : Arrival → Bool
  | .datagram size => decide (size ≤ len)
  | .error => false

/-- How `WSARecvFrom` returns; a receive that completes at once is completed in the queue too. -/
inductive Result
  | pending
  | completed (bSuccess : Bool)
  | failed
  deriving DecidableEq

/-- Where a worker is, with the slot it has to do with. -/
inductive Pc (N : Nat)
  | waiting
  | got (i : Fin N) (bSuccess : Bool)
  | callBack (i : Fin N)
  deriving DecidableEq

/-- `N` processors: `N` slots, and `N + 2` workers. -/
structure State (N : Nat) where
  next : Nat
  outstanding : Fin N → Nat
  queue : List (Fin N × Bool)
  pc : Fin (N + 2) → Pc N

inductive Act (N : Nat)
  | init (r : Result)
  | arrive (i : Fin N) (a : Arrival)
  | get (w : Fin (N + 2)) (c : Fin N × Bool)
  | run (w : Fin (N + 2))
  | callBack (w : Fin (N + 2)) (r : Result)

variable {N : Nat} {s s' : State N}

namespace State

def goto (s : State N) (w : Fin (N + 2)) (p : Pc N) : State N := { s with pc := Function.update s.pc w p }

/-- `WSARecvFrom` into slot `i`. -/
def recv (s : State N) (i : Fin N) : Result → State N
  | .pending => { s with outstanding := Function.update s.outstanding i (s.outstanding i + 1) }
  | .completed bSuccess => { s with queue := s.queue ++ [(i, bSuccess)] }
  | .failed => s

end State

def step (s : State N) : Act N → Option (State N)
  | .init r => if h : s.next < N then some { s.recv ⟨s.next, h⟩ r with next := s.next + 1 } else none
  | .arrive i a =>
    if 0 < s.outstanding i then
      some { s with
        outstanding := Function.update s.outstanding i (s.outstanding i - 1)
        queue := s.queue ++ [(i, a.bSuccess)] }
    else none
  | .get w c =>
    if s.pc w = .waiting ∧ c ∈ s.queue then some { s.goto w (.got c.1 c.2) with queue := s.queue.erase c } else none
  | .run w =>
    match s.pc w with
    | .got i bSuccess =>
      match dispatch ⟨bSuccess, some .default, true⟩ with
      | .callBackFunction => some (s.goto w (.callBack i))
      | .wait | .shutdown => some (s.goto w .waiting)
    | _ => none
  | .callBack w r =>
    match s.pc w with
    | .callBack i => some ((s.goto w .waiting).recv i r)
    | _ => none

/-- `initServer` has bound the socket and made the slots. -/
def sys (N : Nat) : Sys (State N) (Act N) where
  init s := s = ⟨0, fun _ => 0, [], fun _ => .waiting⟩
  step := step

/-! ## The places of a slot -/

/-- The worker handles a completion of the slot. -/
def handles (i : Fin N) : Pc N → Bool
  | .waiting => false
  | .got j _ | .callBack j => decide (j = i)

/-- How many receives of the slot are outstanding, completed or being handled. -/
def live (s : State N) (i : Fin N) : Nat :=
  s.outstanding i + s.queue.countP (fun c => decide (c.1 = i)) + atPlaces (handles i) s.pc

/-- After `initServer` each slot is live, once. -/
def Alive (s : State N) : Prop := s.next = N → ∀ i, live s i = 1

/-- No `WSARecvFrom` fails at once. -/
def Recv (_ : State N) : Act N → Prop
  | .init r | .callBack _ r => r ≠ .failed
  | _ => True

/-- No worker has to do with a receive that has completed with an error. -/
def Success (s : State N) : Act N → Prop
  | .run w => ∀ i, s.pc w ≠ .got i false
  | _ => True

instance (s : State N) : ∀ a, Decidable (Recv s a)
  | .init r | .callBack _ r => inferInstanceAs (Decidable (r ≠ .failed))
  | .run _ | .arrive .. | .get .. => .isTrue trivial

instance (s : State N) : ∀ a, Decidable (Success s a)
  | .run w => inferInstanceAs (Decidable (∀ i, s.pc w ≠ .got i false))
  | .init _ | .callBack .. | .arrive .. | .get .. => .isTrue trivial

theorem live_recv (i j : Fin N) {r : Result} (hr : r ≠ .failed) :
    live (s.recv i r) j = live s j + if j = i then 1 else 0 := by
  cases r with
  | pending =>
    simp only [live, State.recv, Function.update_apply]
    split
    case isTrue h =>
      subst h
      omega
    case isFalse => rfl
  | completed bSuccess =>
    by_cases hji : j = i
    · subst hji
      simp [live, State.recv]
      omega
    · have hij : i ≠ j := Ne.symm hji
      simp [live, State.recv, hji, hij]
  | failed => exact absurd rfl hr

theorem live_recv_le (i j : Fin N) (r : Result) : live (s.recv i r) j ≤ live s j + if j = i then 1 else 0 := by
  by_cases hr : r = .failed
  · rw [hr]
    exact Nat.le_add_right _ _
  · exact Nat.le_of_eq (live_recv i j hr)

theorem live_goto (w : Fin (N + 2)) (p : Pc N) (j : Fin N) :
    live (s.goto w p) j + (if handles j (s.pc w) then 1 else 0) = live s j + if handles j p then 1 else 0 := by
  have ha := atPlaces_update (handles j) s.pc w p
  simp only [live, State.goto]
  omega

/-- The completion is no longer queued, and the worker handles it. -/
theorem live_get {w : Fin (N + 2)} {c : Fin N × Bool} (hw : s.pc w = .waiting) (hc : c ∈ s.queue) (j : Fin N) :
    live { s.goto w (.got c.1 c.2) with queue := s.queue.erase c } j = live s j := by
  have hq := (List.perm_cons_erase hc).countP_eq fun c => decide (c.1 = j)
  have ha := atPlaces_update (handles j) s.pc w (.got c.1 c.2)
  rw [List.countP_cons] at hq
  rw [hw] at ha
  simp only [live, State.goto, hq]
  by_cases hcj : c.1 = j
  · simp [handles, hcj] at ha ⊢
    omega
  · simp [handles, hcj] at ha ⊢
    omega

theorem live_arrive {i : Fin N} (hi : 0 < s.outstanding i) (b : Bool) (j : Fin N) :
    live { s with
      outstanding := Function.update s.outstanding i (s.outstanding i - 1), queue := s.queue ++ [(i, b)] } j = live s j := by
  simp only [live, Function.update_apply, List.countP_append, List.countP_singleton]
  by_cases hji : j = i
  · subst hji
    simp
    omega
  · have hij : i ≠ j := Ne.symm hji
    simp [hji, hij]

/-- A step does not give a slot a receive, and keeps the one it has, or it is a turn of `initServer`. -/
theorem step_cases {a : Act N} (he : step s a = some s') :
    (s'.next = s.next ∧ ∀ j, live s' j ≤ live s j ∧ (Recv s a → Success s a → live s' j = live s j)) ∨
      ∃ r, ∃ h : s.next < N, a = .init r ∧ s' = { s.recv ⟨s.next, h⟩ r with next := s.next + 1 } := by
  cases a with
  | init r =>
    simp only [step] at he
    split at he
    case isTrue h =>
      cases he
      exact .inr ⟨r, h, rfl, rfl⟩
    case isFalse => cases he
  | arrive i a =>
    obtain ⟨hi, ⟨⟩⟩ := Option.ite_none_right_eq_some.1 he
    exact .inl ⟨rfl, fun j => ⟨(live_arrive hi _ j).le, fun _ _ => live_arrive hi _ j⟩⟩
  | get w c =>
    obtain ⟨⟨hw, hc⟩, ⟨⟩⟩ := Option.ite_none_right_eq_some.1 he
    exact .inl ⟨rfl, fun j => ⟨(live_get hw hc j).le, fun _ _ => live_get hw hc j⟩⟩
  | run w =>
    simp only [step] at he
    split at he
    case h_1 i b hw =>
      cases b with
      | true =>
        cases he
        refine .inl ⟨rfl, ?_⟩
        intro j
        have hg := live_goto (s := s) w (.callBack i) j
        rw [hw] at hg
        exact ⟨(Nat.add_right_cancel hg).le, fun _ _ => Nat.add_right_cancel hg⟩
      | false =>
        cases he
        refine .inl ⟨rfl, fun j => ⟨?_, fun _ hs => absurd hw (hs i)⟩⟩
        have hg := live_goto (s := s) w .waiting j
        simp only [handles, Bool.false_eq_true, if_false] at hg
        omega
    case h_2 => cases he
  | callBack w r =>
    simp only [step] at he
    split at he
    case h_1 i hw =>
      cases he
      refine .inl ⟨by cases r <;> rfl, fun j => ?_⟩
      have hg := live_goto (s := s) w .waiting j
      have hle := live_recv_le (s := s.goto w .waiting) i j r
      have hsame : live (s.goto w .waiting) j + (if j = i then 1 else 0) = live s j := by
        simpa [hw, handles, eq_comm] using hg
      refine ⟨hle.trans hsame.le, ?_⟩
      intro hr _
      rw [live_recv i j hr]
      exact hsame
    case h_2 => cases he

/-! ## The runs -/

/-- The slots that `initServer` has come to are live. -/
def Placed (s : State N) : Prop := ∀ j : Fin N, live s j = if j.val < s.next then 1 else 0

theorem Placed.step (h : Placed s) {a : Act N} (hr : Recv s a) (hs : Success s a) (he : step s a = some s') :
    Placed s' := by
  intro j
  rcases step_cases he with ⟨hn, hj⟩ | ⟨r, hlt, rfl, rfl⟩
  · rw [hn, (hj j).2 hr hs, h j]
  · show live (s.recv ⟨s.next, hlt⟩ r) j = if j.val < s.next + 1 then 1 else 0
    rw [live_recv _ j hr, h j]
    simp only [Fin.ext_iff]
    split <;> split <;> split <;> omega

/-- A slot has at most one receive, and none before `initServer` has come to it. -/
def Single (s : State N) : Prop := ∀ j : Fin N, live s j ≤ if j.val < s.next then 1 else 0

theorem Single.step (h : Single s) {a : Act N} (he : step s a = some s') : Single s' := by
  intro j
  rcases step_cases he with ⟨hn, hj⟩ | ⟨r, hlt, rfl, rfl⟩
  · exact hn ▸ (hj j).1.trans (h j)
  · have hrecv : live (s.recv ⟨s.next, hlt⟩ r) j ≤ live s j + if j = ⟨s.next, hlt⟩ then 1 else 0 := live_recv_le _ j r
    refine hrecv.trans ((Nat.add_le_add_right (h j) _).trans ?_)
    simp only [Fin.ext_iff]
    split <;> split <;> split <;> omega

theorem live_init (j : Fin N) : live (⟨0, fun _ => 0, [], fun _ => .waiting⟩ : State N) j = 0 := by
  have hz : atPlaces (handles j) (fun _ : Fin (N + 2) => Pc.waiting) = 0 := atPlaces_zero.2 fun _ => rfl
  simp [live, hz]

/-- **No slot is lost**, where no completion is a failure and no `WSARecvFrom` fails. -/
theorem alive (h : (sys N).Reach (fun s a => Recv s a ∧ Success s a) s) : Alive s := by
  have hp : Placed s := by
    refine Sys.Reach.inv ?_ (fun s a s' hi hk he => hi.step hk.1 hk.2 he) h
    intro s hs j
    cases (hs : s = _)
    rw [live_init]
    rfl
  intro hn j
  rw [hp j, hn, if_pos j.isLt]

/-- A slot that is lost stays lost, whatever comes. -/
theorem lost {as : List (Act N)} {j : Fin N} (hrun : (sys N).run s as = some s') (hj : j.val < s.next)
    (h : live s j = 0) : live s' j = 0 := by
  induction as generalizing s with
  | nil =>
    cases hrun
    exact h
  | cons a as ih =>
    obtain ⟨t, he, hrun⟩ := Option.bind_eq_some_iff.1 hrun
    rcases step_cases he with ⟨hn, hle⟩ | ⟨r, hlt, -, rfl⟩
    · exact ih hrun (hn ▸ hj) (Nat.le_zero.1 (h ▸ (hle j).1))
    · refine ih hrun (Nat.lt_succ_of_lt hj) ?_
      have hle := live_recv_le (s := s) ⟨s.next, hlt⟩ j r
      rw [if_neg (Fin.ne_of_lt hj), h] at hle
      exact Nat.le_zero.1 hle

/-- Two slots, one of them being handled. -/
theorem alive_two : ∃ s : State 2, (sys 2).Reach (fun s a => Recv s a ∧ Success s a) s ∧ s.pc 3 = .callBack 0 ∧
    s.next = 2 ∧ Alive s :=
  have hr : (sys 2).Reach _ _ := Sys.Reach.runK [.init .pending, .init (.completed true), .arrive 0 (.datagram 50),
    .get 1 (1, true), .run 1, .callBack 1 .pending, .get 3 (0, true), .run 3] (.init rfl) rfl
  ⟨_, hr, rfl, rfl, alive hr⟩

/-- A datagram of 51 bytes takes the slot, and so does a receive that fails at once. -/
theorem not_alive : (¬ ∀ s : State 1, (sys 1).Reach Recv s → Alive s) ∧
    ¬ ∀ s : State 1, (sys 1).Reach Success s → Alive s := by
  constructor
  · intro h
    have hr : (sys 1).Reach Recv _ := Sys.Reach.runK [.init .pending, .arrive 0 (.datagram 51), .get 0 (0, false),
      .run 0] (.init rfl) rfl
    exact absurd (h _ hr rfl 0) (by decide)
  · intro h
    have hr : (sys 1).Reach Success _ := Sys.Reach.runK [.init .failed] (.init rfl) rfl
    exact absurd (h _ hr rfl 0) (by decide)

end P1Server.UdpServer
