import P1Server.Lib.Sys
import Mathlib.Data.UInt
import Mathlib.Data.Fintype.Basic

/-!
# `IO_Service`: the workers and `shutDown`

| here | there |
| --- | --- |
| `IoOperator`      | `IO_OPERATOR` (`IOCP_Test/typedef.h:2-8`) |
| `dispatch`        | what a worker does with a packet (`IO_Service.cpp:25-49`) |
| `clear`           | `(DWORD)(-1) ^ (1 << threadId)` (`:36`); a shift by 32 and more is that of the processor, modulo 32 |
| `initService`     | the loop over `threadState` (`:63-68`) |
| `Act.get`         | a worker gets a packet |
| `Act.read/.write` | the two accesses of `(*threadState) &= ...` (`:36`), and `break` |
| `Act.turn`        | the loop of `shutDown` (`:77-85`): the test, and `PostQueuedCompletionStatus` |
| `Act.join`        | the loop over `vecThreads` (`:88-94`), `CloseHandle` |

`posted` counts the shutdown packets in the queue. The other packets come whenever they want: what their callbacks do
has no effect here.

* `waits` — `threadState` is 0 just when all workers have gone, where no update is lost and the ids that share a bit do
  not hide the last workers;
* `spared` — up to 30 processors no ids share a bit;
* `not_waits` — three workers and a lost update, 33 workers and a shared bit.
-/

namespace P1Server.IoService
open Lib

inductive IoOperator
  | shutdown
  | default
  | read
  | write
  deriving DecidableEq

/-- What `GetQueuedCompletionStatus` gives: `op` is `none` if `pOv` is `NULL`, `key` tells whether `pIock` is not. -/
structure Packet where
  bSuccess : Bool
  op : Option IoOperator
  key : Bool

inductive Todo
  | wait
  | shutdown
  | callBackFunction
  deriving DecidableEq

def dispatch (p : Packet) : Todo :=
  if p.bSuccess then
    match p.op with
    | none => .wait
    | some .shutdown => .shutdown
    | some _ => if p.key then .callBackFunction else .wait
  else .wait

/-- `1 << i`. -/
def bit (i : Nat) : UInt32 := 1 <<< UInt32.ofNat i

def clear (threadId : Nat) : UInt32 := (-1) ^^^ bit threadId

/-- `threadState` after `n` turns of the loop of `initService`. -/
def initService (n : Nat) : UInt32 := (List.range n).foldl (fun threadState i => threadState ||| bit i) 0

/-- Where a worker is; `read v` has read `v`, `done` has written and leaves the loop. -/
inductive Pc
  | waiting
  | shutdown
  | read (v : UInt32)
  | done
  deriving DecidableEq

/-- Where `shutDown` is. -/
inductive Shut
  | no
  | posting
  | joining (k : Nat)
  | closed
  deriving DecidableEq

structure State (n : Nat) where
  threadState : UInt32
  pc : Fin n → Pc
  posted : Nat
  shut : Shut

inductive Act (n : Nat)
  | get (w : Fin n) (p : Packet)
  | read (w : Fin n)
  | write (w : Fin n)
  | shutDown
  | turn (bSucess : Bool)
  | join

variable {n : Nat} {s s' : State n}

def State.goto (s : State n) (w : Fin n) (p : Pc) : State n := { s with pc := Function.update s.pc w p }

def step (s : State n) : Act n → Option (State n)
  | .get w p =>
    if s.pc w = .waiting then
      match dispatch p with
      | .shutdown => if 0 < s.posted then some { s.goto w .shutdown with posted := s.posted - 1 } else none
      | .wait | .callBackFunction => some s
    else none
  | .read w => if s.pc w = .shutdown then some (s.goto w (.read s.threadState)) else none
  | .write w =>
    match s.pc w with
    | .read v => some { s.goto w .done with threadState := v &&& clear w }
    | _ => none
  | .shutDown => if s.shut = .no then some { s with shut := .posting } else none
  | .turn bSucess =>
    if s.shut = .posting then
      if s.threadState = 0 then some { s with shut := .joining 0 }
      else some { s with posted := s.posted + if bSucess then 1 else 0 }
    else none
  | .join =>
    match s.shut with
    | .joining k =>
      if hk : k < n then if s.pc ⟨k, hk⟩ = .done then some { s with shut := .joining (k + 1) } else none
      else some { s with shut := .closed }
    | _ => none

/-- `n` workers that `initService` has started. -/
def sys (n : Nat) : Sys (State n) (Act n) where
  init s := s = ⟨initService n, fun _ => .waiting, 0, .no⟩
  step := step

/-! ## The bits -/

def has (m : UInt32) (j : Nat) : Bool := m.toBitVec.getLsbD j

theorem eq_zero_iff {m : UInt32} : m = 0 ↔ ∀ j < 32, has m j = false := by
  constructor
  · rintro rfl j -
    simp [has]
  · intro h
    refine UInt32.toBitVec_inj.1 (BitVec.eq_of_getLsbD_eq ?_)
    intro j hj
    rw [show m.toBitVec.getLsbD j = false from h j hj]
    simp

@[simp] theorem has_or (a b : UInt32) (j : Nat) : has (a ||| b) j = (has a j || has b j) := by simp [has]

@[simp] theorem has_and (a b : UInt32) (j : Nat) : has (a &&& b) j = (has a j && has b j) := by simp [has]

theorem has_bit (i : Nat) {j : Nat} (hj : j < 32) : has (bit i) j = decide (i % 32 = j) := by
  have hb : has (bit i) j = (!decide (j < i % 32) && decide (j - i % 32 = 0)) := by simp [has, bit, hj]
  rw [hb, Bool.eq_iff_iff]
  simp only [Bool.and_eq_true, Bool.not_eq_true', decide_eq_false_iff_not, decide_eq_true_eq]
  omega

theorem has_clear (i : Nat) {j : Nat} (hj : j < 32) : has (clear i) j = decide (i % 32 ≠ j) := by
  have hc : has (clear i) j = !has (bit i) j := by simp [has, clear, hj]
  rw [hc, has_bit i hj, decide_not]

theorem has_initService (n : Nat) {j : Nat} (hj : j < 32) : has (initService n) j = true ↔ ∃ i < n, i % 32 = j := by
  induction n with
  | zero => simp [initService, has]
  | succ n ih =>
    have hs : initService (n + 1) = initService n ||| bit n := by simp [initService, List.range_succ]
    rw [hs, has_or, Bool.or_eq_true, ih, has_bit n hj, decide_eq_true_eq]
    constructor
    · rintro (⟨i, hi, hij⟩ | hn)
      · exact ⟨i, Nat.lt_succ_of_lt hi, hij⟩
      · exact ⟨n, Nat.lt_succ_self n, hn⟩
    · rintro ⟨i, hi, hij⟩
      rcases Nat.lt_succ_iff_lt_or_eq.1 hi with hi | rfl
      · exact .inl ⟨i, hi, hij⟩
      · exact .inr hij

/-! ## What a step does -/

/-- `shutDown` is through its first loop. -/
def joins : Shut → Bool
  | .no | .posting => false
  | .joining _ | .closed => true

theorem at_done {pc : Fin n → Pc} {w : Fin n} {p : Pc} (hw : pc w ≠ .done) (hp : p ≠ .done) (u : Fin n) :
    Function.update pc w p u = .done ↔ pc u = .done := by
  by_cases huw : u = w
  · rw [huw, Function.update_self]
    exact iff_of_false hp hw
  · rw [Function.update_of_ne huw]

/-- A step changes neither `threadState` nor who has gone, or it is the write of a worker. The first loop of `shutDown`
ends where `threadState` is 0. -/
theorem step_cases {a : Act n} (h : step s a = some s') :
    (joins s'.shut = true → joins s.shut = true ∨ s.threadState = 0) ∧
      ((s'.threadState = s.threadState ∧ ∀ w, s'.pc w = .done ↔ s.pc w = .done) ∨
        ∃ w v, a = .write w ∧ s.pc w = .read v ∧ s' = { s.goto w .done with threadState := v &&& clear w }) := by
  have same : ∀ w, s.pc w = .done ↔ s.pc w = .done := fun _ => Iff.rfl
  cases a with
  | get w p =>
    obtain ⟨hw, h⟩ := Option.ite_none_right_eq_some.1 h
    cases hd : dispatch p <;> rw [hd] at h
    case shutdown =>
      obtain ⟨-, ⟨⟩⟩ := Option.ite_none_right_eq_some.1 h
      exact ⟨.inl, .inl ⟨rfl, at_done (by simp [hw]) (by simp)⟩⟩
    all_goals
      cases h
      exact ⟨.inl, .inl ⟨rfl, same⟩⟩
  | read w =>
    obtain ⟨hw, ⟨⟩⟩ := Option.ite_none_right_eq_some.1 h
    exact ⟨.inl, .inl ⟨rfl, at_done (by simp [hw]) (by simp)⟩⟩
  | write w =>
    simp only [step] at h
    split at h
    case h_1 v hw =>
      cases h
      exact ⟨.inl, .inr ⟨w, v, rfl, hw, rfl⟩⟩
    case h_2 => cases h
  | shutDown =>
    obtain ⟨-, ⟨⟩⟩ := Option.ite_none_right_eq_some.1 h
    refine ⟨?_, .inl ⟨rfl, same⟩⟩
    intro hj
    cases hj
  | turn bSucess =>
    obtain ⟨-, h⟩ := Option.ite_none_right_eq_some.1 h
    split at h
    case isTrue hz =>
      cases h
      exact ⟨fun _ => .inr hz, .inl ⟨rfl, same⟩⟩
    case isFalse =>
      cases h
      exact ⟨.inl, .inl ⟨rfl, same⟩⟩
  | join =>
    simp only [step] at h
    split at h
    case h_1 k hk =>
      have hj : joins s.shut = true := by rw [hk]; rfl
      split at h
      case isTrue =>
        obtain ⟨-, ⟨⟩⟩ := Option.ite_none_right_eq_some.1 h
        exact ⟨fun _ => .inl hj, .inl ⟨rfl, same⟩⟩
      case isFalse =>
        cases h
        exact ⟨fun _ => .inl hj, .inl ⟨rfl, same⟩⟩
    case h_2 => cases h

/-! ## What the mask says -/

/-- A bit is set as long as none of the workers it belongs to has gone. -/
def Mask (s : State n) : Prop :=
  ∀ j < 32, has s.threadState j = true ↔ (∃ w : Fin n, w.val % 32 = j) ∧ ∀ w, s.pc w = .done → w.val % 32 ≠ j

/-- No update is lost: when a worker writes, no other bit is another than it was when it read. -/
def Atomic (s : State n) : Act n → Prop
  | .write w => ∀ v, s.pc w = .read v → v &&& clear w = s.threadState &&& clear w
  | _ => True

/-- Who has gone when `w` has written. -/
def Handled (s : State n) (w u : Fin n) : Prop := u = w ∨ s.pc u = .done

theorem handled_iff {w u : Fin n} : Function.update s.pc w .done u = .done ↔ Handled s w u := by
  by_cases huw : u = w
  · simp [huw, Handled]
  · simp [huw, Handled]

theorem Mask.step (h : Mask s) {a : Act n} (hk : Atomic s a) (he : step s a = some s') : Mask s' := by
  intro j hj
  rcases (step_cases he).2 with ⟨hts, hpc⟩ | ⟨w, v, rfl, hw, rfl⟩
  · simp only [hts, hpc]
    exact h j hj
  · have hv : has (v &&& clear w) j = true ↔ has s.threadState j = true ∧ w.val % 32 ≠ j := by
      rw [hk v hw, has_and, has_clear _ hj]
      simp
    show has (v &&& clear w) j = true ↔ _ ∧ ∀ u, Function.update s.pc w .done u = .done → _
    simp only [hv, h j hj, and_assoc, handled_iff, Handled, forall_eq_or_imp]
    exact and_congr_right fun _ => and_comm

theorem mask (h : (sys n).Reach Atomic s) : Mask s := by
  refine Sys.Reach.inv ?_ (fun s a s' hi hk he => hi.step hk he) h
  intro s hs
  subst hs
  intro j hj
  rw [has_initService n hj]
  constructor
  · rintro ⟨i, hi, hij⟩
    exact ⟨⟨⟨i, hi⟩, hij⟩, fun w hw => by cases hw⟩
  · rintro ⟨⟨w, hw⟩, -⟩
    exact ⟨w, w.isLt, hw⟩

/-- `threadState` is 0 when each bit has a worker that has gone. -/
theorem Mask.zero_iff (h : Mask s) :
    s.threadState = 0 ↔ ∀ u : Fin n, ∃ w, s.pc w = .done ∧ w.val % 32 = u.val % 32 := by
  rw [eq_zero_iff]
  constructor
  · intro hz u
    by_contra hn
    have hb := (h (u.val % 32) (Nat.mod_lt _ (by decide))).2 ⟨⟨u, rfl⟩, fun w hw he => hn ⟨w, hw, he⟩⟩
    rw [hz _ (Nat.mod_lt _ (by decide))] at hb
    cases hb
  · intro hall j hj
    rw [Bool.eq_false_iff, Ne, h j hj]
    rintro ⟨⟨u, rfl⟩, hn⟩
    obtain ⟨w, hw, he⟩ := hall u
    exact hn w hw he

/-! ## Shutting down -/

/-- No bit hides the last workers: when a worker has written, all have gone, or one is left with whose bit none has. -/
def Spared (s : State n) : Act n → Prop
  | .write w => (∀ u, Handled s w u) ∨ ∃ u : Fin n, ∀ x, Handled s w x → x.val % 32 ≠ u.val % 32
  | _ => True

/-- `shutDown` waits for the workers: `threadState` is 0 when all have gone, and not before; then the first loop
ends, not before, and all the threads are joined. -/
structure Waits (s : State n) : Prop where
  zero : s.threadState = 0 ↔ ∀ w, s.pc w = .done
  joins : joins s.shut = true → ∀ w, s.pc w = .done
  ends : s.shut = .posting → (∀ w, s.pc w = .done) →
    (sys n).Leads (fun a => a = .turn true ∨ a = .join) (fun t => t.shut = .closed) s

/-- All workers have gone, or there is one with whose bit none has. -/
def Left (s : State n) : Prop := (∀ w, s.pc w = .done) ∨ ∃ u : Fin n, ∀ x, s.pc x = .done → x.val % 32 ≠ u.val % 32

def Clean (s : State n) (a : Act n) : Prop := Atomic s a ∧ Spared s a

theorem left (h : (sys n).Reach Clean s) : Left s := by
  refine Sys.Reach.inv ?_ ?_ h
  · intro s hs
    subst hs
    cases n with
    | zero => exact .inl fun w => w.elim0
    | succ n => exact .inr ⟨0, fun x hx => by cases hx⟩
  · intro s a s' hi hk he
    rcases (step_cases he).2 with ⟨-, hpc⟩ | ⟨w, v, rfl, -, rfl⟩
    · simpa only [Left, hpc] using hi
    · show (∀ u, Function.update s.pc w .done u = .done) ∨ ∃ u : Fin n, ∀ x, Function.update s.pc w .done x = .done → _
      simp only [handled_iff]
      exact hk.2

theorem zero_iff (h : (sys n).Reach Clean s) : s.threadState = 0 ↔ ∀ w, s.pc w = .done := by
  rw [(mask (h.mono fun _ _ hk => hk.1)).zero_iff]
  constructor
  · intro hall
    rcases left h with hd | ⟨u, hu⟩
    · exact hd
    · obtain ⟨w, hw, he⟩ := hall u
      exact absurd he (hu w hw)
  · exact fun hd u => ⟨u, hd u, rfl⟩

theorem done_mono {a : Act n} (he : step s a = some s') {w : Fin n} (hw : s.pc w = .done) : s'.pc w = .done := by
  rcases (step_cases he).2 with ⟨-, hpc⟩ | ⟨u, v, -, -, rfl⟩
  · exact (hpc w).2 hw
  · exact handled_iff.2 (.inr hw)

/-- What `shutDown` has still to do when all workers have gone. -/
def rest (s : State n) : Nat :=
  match s.shut with
  | .no | .posting => n + 2
  | .joining k => n + 1 - k
  | .closed => 0

/-- All workers have gone, and `shutDown` has been called. -/
structure Gone (s : State n) : Prop where
  zero : s.threadState = 0
  gone : ∀ w, s.pc w = .done
  called : s.shut ≠ .no
  joined : ∀ k, s.shut = .joining k → k ≤ n

theorem Gone.closed (h : Gone s) (hr : rest s = 0) : s.shut = .closed := by
  cases hs : s.shut with
  | no => exact absurd hs h.called
  | posting => simp [rest, hs] at hr
  | joining k =>
    have := h.joined k hs
    simp [rest, hs] at hr
    omega
  | closed => rfl

theorem Gone.step (h : Gone s) (hr : rest s ≠ 0) : ∃ (a : Act n) (s' : State n), (a = .turn true ∨ a = .join) ∧
    step s a = some s' ∧ Gone s' ∧ rest s' < rest s := by
  obtain ⟨hz, hg, hc, hj⟩ := h
  cases hs : s.shut with
  | no => exact absurd hs hc
  | posting =>
    refine ⟨.turn true, { s with shut := .joining 0 }, .inl rfl, ?_, ⟨hz, hg, ?_, ?_⟩, ?_⟩
    · simp [IoService.step, hs, hz]
    · simp
    · simp
    · simp [rest, hs]
  | joining k =>
    have hk := hj k hs
    by_cases hlt : k < n
    · refine ⟨.join, { s with shut := .joining (k + 1) }, .inr rfl, ?_, ⟨hz, hg, ?_, ?_⟩, ?_⟩
      · simp [IoService.step, hs, hlt, hg]
      · simp
      · intro j hj
        cases hj
        exact hlt
      · simp only [rest, hs]
        omega
    · refine ⟨.join, { s with shut := .closed }, .inr rfl, ?_, ⟨hz, hg, ?_, ?_⟩, ?_⟩
      · simp [IoService.step, hs, hlt]
      · simp
      · simp
      · simp only [rest, hs]
        omega
  | closed => simp [rest, hs] at hr

/-- When all have gone `shutDown` comes to its end. -/
theorem Gone.ends (h : Gone s) :
    (sys n).Leads (fun a => a = .turn true ∨ a = .join) (fun t => t.shut = .closed) s := by
  obtain ⟨as, t, has, hrun, ht, hr⟩ := Sys.drain (M := sys n) (A := fun a => a = .turn true ∨ a = .join) rest
    (fun t ht hr => ht.step hr) h
  exact ⟨as, t, has, hrun, ht.closed hr⟩

/-- **`shutDown` waits for the workers**, where no update is lost and no bit hides the last of them. -/
theorem waits (processors : Nat) {s : State (processors + 2)} (h : (sys (processors + 2)).Reach Clean s) : Waits s := by
  refine ⟨zero_iff h, fun hj => ?_, fun hs hd =>
    Gone.ends ⟨(zero_iff h).2 hd, hd, by simp [hs], by simp [hs]⟩⟩
  refine Sys.Reach.inv_of (I := fun s => joins s.shut = true → ∀ w, s.pc w = .done) (fun s hs => zero_iff hs)
    ?_ ?_ h hj
  · intro s hs hj
    cases (hs : s = _)
    cases hj
  · intro s a s' hz _ hi _ he hj w
    rcases (step_cases he).1 hj with hj | h0
    · exact done_mono he (hi hj w)
    · exact done_mono he (hz.1 h0 w)

/-- Up to 30 processors no two workers share a bit. -/
theorem spared {processors : Nat} (hp : processors ≤ 30) (s : State (processors + 2)) (a : Act (processors + 2)) :
    Spared s a := by
  cases a with
  | write w =>
    by_cases hall : ∀ u, Handled s w u
    · exact .inl hall
    · obtain ⟨u, hu⟩ := not_forall.1 hall
      refine .inr ⟨u, fun x hx he => hu ?_⟩
      rw [Nat.mod_eq_of_lt (by omega), Nat.mod_eq_of_lt (by omega)] at he
      exact Fin.ext he ▸ hx
  | _ => trivial

instance (s : State n) : ∀ a : Act n, Decidable (Atomic s a)
  | .write w => match h : s.pc w with
    | .read v => decidable_of_iff (v &&& clear w = s.threadState &&& clear w)
      ⟨fun he u hu => by cases h.symm.trans hu; exact he, fun he => he v h⟩
    | .waiting | .shutdown | .done => .isTrue fun u hu => by cases h.symm.trans hu
  | .get .. | .read _ | .shutDown | .turn _ | .join => .isTrue trivial

/-- The packet that `shutDown` posts. -/
def shutdownPacket : Packet := ⟨true, some .shutdown, false⟩

/-- Three workers, one after the other. -/
theorem waits_three : ∃ s : State 3, (sys 3).Reach Clean s ∧ s.shut = .joining 0 ∧ Waits s := by
  have hr : (sys 3).Reach Atomic _ := Sys.Reach.runK [.shutDown, .turn true, .turn true, .turn true,
    .get 0 shutdownPacket, .get 1 shutdownPacket, .read 1, .write 1, .read 0, .write 0, .get 2 shutdownPacket, .read 2,
    .write 2, .turn true] (.init rfl) rfl
  have hr : (sys 3).Reach Clean _ := hr.mono fun s a ha => ⟨ha, spared (show 1 ≤ 30 by decide) s a⟩
  exact ⟨_, hr, rfl, waits 1 hr⟩

/-! ## Where the mask is wrong -/

/-- The first `k` workers have gone, one after the other. -/
structure First (s : State n) (k : Nat) : Prop where
  shut : s.shut = .posting
  done : ∀ w : Fin n, w.val < k → s.pc w = .done
  waiting : ∀ w : Fin n, k ≤ w.val → s.pc w = .waiting

/-- The next worker goes; while its bit is set `shutDown` posts. -/
theorem First.next (hr : (sys n).Reach Atomic s) {k : Nat} (h : First s k) (hk : k < n) (h32 : k < 32) :
    ∃ t, (sys n).Reach Atomic t ∧ First t (k + 1) := by
  have hw : s.pc ⟨k, hk⟩ = .waiting := h.waiting ⟨k, hk⟩ (Nat.le_refl k)
  have hz : s.threadState ≠ 0 := by
    rw [Ne, (mask hr).zero_iff]
    intro hall
    obtain ⟨w, hw, he⟩ := hall ⟨k, hk⟩
    by_cases hwk : w.val < k
    · rw [Nat.mod_eq_of_lt (by omega), Nat.mod_eq_of_lt h32] at he
      exact Nat.ne_of_lt hwk he
    · rw [h.waiting w (Nat.le_of_not_lt hwk)] at hw
      cases hw
  have ht : (sys n).Reach Atomic { s with posted := s.posted + 1 } :=
    hr.step (a := .turn true) trivial (by simp [sys, step, h.shut, hz])
  have ht : (sys n).Reach Atomic (s.goto ⟨k, hk⟩ .shutdown) :=
    ht.step (a := .get ⟨k, hk⟩ shutdownPacket) trivial (by simp [sys, step, hw, dispatch, shutdownPacket, State.goto])
  have ht : (sys n).Reach Atomic (s.goto ⟨k, hk⟩ (.read s.threadState)) :=
    ht.step (a := .read ⟨k, hk⟩) trivial (by simp [sys, step, State.goto])
  refine ⟨{ s.goto ⟨k, hk⟩ .done with threadState := s.threadState &&& clear k },
    ht.step (a := .write ⟨k, hk⟩) ?_ (by simp [sys, step, State.goto]), h.shut, ?_, ?_⟩
  · intro v hv
    simp only [State.goto, Function.update_self, Pc.read.injEq] at hv
    rw [← hv]
    rfl
  · intro w hwk
    refine handled_iff.2 ?_
    rcases Nat.lt_succ_iff_lt_or_eq.1 hwk with hwk | hwk
    · exact .inr (h.done w hwk)
    · exact .inl (Fin.ext hwk)
  · intro w hwk
    show Function.update s.pc ⟨k, hk⟩ .done w = .waiting
    rw [Function.update_of_ne (Fin.ne_of_gt hwk)]
    exact h.waiting w (Nat.le_of_lt hwk)

theorem first {k : Nat} (hn : k ≤ n) (h32 : k ≤ 32) : ∃ t : State n, (sys n).Reach Atomic t ∧ First t k := by
  induction k with
  | zero =>
    have hr : (sys n).Reach Atomic ⟨initService n, fun _ => .waiting, 0, .posting⟩ :=
      .step (.init rfl) (a := .shutDown) trivial rfl
    exact ⟨_, hr, rfl, fun w hw => absurd hw (Nat.not_lt_zero _), fun w _ => rfl⟩
  | succ k ih =>
    obtain ⟨t, ht, hf⟩ := ih (by omega) (by omega)
    exact hf.next ht hn h32

/-- Two workers read before either writes, and a bit stays; and the 33rd worker has the bit of the first. -/
theorem not_waits : (¬ ∀ s : State 3, (sys 3).Reachable s → Waits s) ∧
    ¬ ∀ s : State 33, (sys 33).Reach Atomic s → Waits s := by
  constructor
  · intro h
    have hr : (sys 3).Reachable _ := Sys.Reachable.run [.shutDown, .turn true, .turn true, .turn true,
      .get 0 shutdownPacket, .get 1 shutdownPacket, .get 2 shutdownPacket, .read 0, .read 1, .write 0, .write 1,
      .read 2, .write 2] (.init rfl) rfl
    have := (h _ hr).zero.2 (by decide)
    exact absurd this (by decide)
  · intro h
    obtain ⟨s, hr, hs⟩ := first (n := 33) (k := 32) (by decide) (by decide)
    have hz : s.threadState = 0 := (mask hr).zero_iff.2 fun u => by
      by_cases hu : u.val < 32
      · exact ⟨u, hs.done u hu, rfl⟩
      · exact ⟨0, hs.done 0 (by decide), by omega⟩
    have hd := (h s hr).zero.1 hz 32
    rw [hs.waiting 32 (by decide)] at hd
    cases hd

end P1Server.IoService
