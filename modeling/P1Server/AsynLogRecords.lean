import P1Server.AsynLog
import P1Server.IoService

/-!
# The records of `AsynLog`

| here | there |
| --- | --- |
| `enter`                 | `new LOG_OVERLAPPED()`, if there is something to log (`IOCP_Test/AsynLog.cpp:81-86`) |
| `Act.writeFile`         | `WriteFile`, and the `Log` of its error (`:88-93`); it has returned, or the write is pending |
| `Act.complete`          | the OS ends a write and queues its completion |
| `Act.get`, `.run`       | a worker gets the completion, and does with it what `dispatch` says, or logs the failure (`IO_Service.cpp:25-49`) |
| `Act.callBackFunction`  | `delete pIoov` (`AsynLog.cpp:46-52`) |

The records are numbered as they are made. A thread may log, and it may be a worker.

* **`records_once`** — a record is deleted at most once, and not before its write has ended; in the end there are no
  others left than those of the writes that failed.
-/

namespace P1Server.AsynLogRecords
open Lib IoService
open AsynLog (strlen)

inductive Pc
  | out
  | traceLog (logOv : Nat)
  | got (logOv : Nat) (bSuccess : Bool)
  | callBack (logOv : Nat)
  deriving DecidableEq

structure State (n : Nat) where
  pc : Fin n → Pc
  made : Nat
  flight : List Nat
  port : List (Nat × Bool)
  deleted : List Nat

inductive Act (n : Nat)
  | traceLog (t : Fin n) (data : List UInt8)
  | writeFile (t : Fin n)
  | writeFails (t : Fin n) (text : List UInt8)
  | complete (logOv : Nat) (ok : Bool)
  | get (t : Fin n) (c : Nat × Bool)
  | run (t : Fin n) (text : List UInt8)
  | callBackFunction (t : Fin n)

variable {n : Nat} {s s' : State n}

namespace State

def goto (s : State n) (t : Fin n) (p : Pc) : State n := { s with pc := Function.update s.pc t p }

def enter (s : State n) (t : Fin n) (data : List UInt8) : State n :=
  if 0 < strlen data then { s.goto t (.traceLog s.made) with made := s.made + 1 } else s.goto t .out

end State

def step (s : State n) : Act n → Option (State n)
  | .traceLog t data => if s.pc t = .out then some (s.enter t data) else none
  | .writeFile t =>
    match s.pc t with
    | .traceLog logOv => some { s.goto t .out with flight := s.flight ++ [logOv] }
    | _ => none
  | .writeFails t text =>
    match s.pc t with
    | .traceLog _ => some (s.enter t text)
    | _ => none
  | .complete logOv ok =>
    if logOv ∈ s.flight then
      some { s with flight := s.flight.erase logOv, port := s.port ++ [(logOv, ok)] }
    else none
  | .get t c =>
    if s.pc t = .out ∧ c ∈ s.port then some { s.goto t (.got c.1 c.2) with port := s.port.erase c } else none
  | .run t text =>
    match s.pc t with
    | .got logOv bSuccess =>
      match dispatch ⟨bSuccess, some .write, true⟩ with
      | .callBackFunction => some (s.goto t (.callBack logOv))
      | .wait => some (s.enter t text)
      | .shutdown => none
    | _ => none
  | .callBackFunction t =>
    match s.pc t with
    | .callBack logOv => some { s.goto t .out with deleted := s.deleted ++ [logOv] }
    | _ => none

def sys (n : Nat) : Sys (State n) (Act n) where
  init s := s = ⟨fun _ => .out, 0, [], [], []⟩
  step := step

/-- The records of the writes that fail: nobody comes back to them. -/
def failed (s : State n) : Act n → List Nat
  | .writeFails t _ => match s.pc t with
    | .traceLog logOv => [logOv]
    | _ => []
  | .run t _ => match s.pc t with
    | .got logOv false => [logOv]
    | _ => []
  | _ => []

/-- The thread has to do with the record. -/
def holds (r : Nat) : Pc → Bool
  | .out => false
  | .traceLog logOv | .got logOv _ | .callBack logOv => decide (logOv = r)

/-- In how many places a record is, with those that are left. -/
def places (s : State n) (left : List Nat) (r : Nat) : Nat :=
  atPlaces (holds r) s.pc + s.flight.count r + (s.port.map Prod.fst).count r + s.deleted.count r + left.count r

/-- Each record that was made is in one place. -/
def Placed (s : State n) (left : List Nat) : Prop := ∀ r, places s left r = if r < s.made then 1 else 0

theorem places_goto (s : State n) (left : List Nat) (t : Fin n) (p : Pc) (r : Nat) :
    places (s.goto t p) left r + (if holds r (s.pc t) then 1 else 0) = places s left r + if holds r p then 1 else 0 := by
  have h := atPlaces_update (holds r) s.pc t p
  simp only [places, State.goto]
  omega

theorem places_left (s : State n) (left left' : List Nat) (r : Nat) :
    places s (left ++ left') r = places s left r + left'.count r := by
  simp only [places, List.count_append]
  omega

/-- A call of `traceLog` makes a record; the one the thread had to do with is left. -/
theorem Placed.enter {left left' : List Nat} (h : Placed s left) (t : Fin n) (data : List UInt8)
    (hl : ∀ r, left'.count r = if holds r (s.pc t) then 1 else 0) : Placed (s.enter t data) (left ++ left') := by
  intro r
  have hr := h r
  rw [places_left, hl r]
  unfold State.enter
  split
  case isTrue =>
    have hg := places_goto s left t (.traceLog s.made) r
    show places (s.goto t (.traceLog s.made)) left r + _ = if r < s.made + 1 then 1 else 0
    rw [hg, hr]
    simp only [holds, decide_eq_true_eq]
    split <;> split <;> split <;> omega
  case isFalse =>
    exact ((places_goto s left t .out r).trans (by simp [holds])).trans hr

/-- **A step moves one record at most.** -/
theorem Placed.step {left : List Nat} (h : Placed s left) {a : Act n} (he : step s a = some s') :
    Placed s' (left ++ failed s a) := by
  cases a with
  | traceLog t data =>
    obtain ⟨ht, ⟨⟩⟩ := Option.ite_none_right_eq_some.1 he
    exact h.enter t data fun r => by simp [failed, ht, holds]
  | writeFile t =>
    simp only [AsynLogRecords.step] at he
    cases ht : s.pc t with rw [ht] at he
    | traceLog logOv =>
      cases he
      intro r
      refine Eq.trans ?_ (h r)
      have hg := places_goto s left t .out r
      simp only [ht, holds, decide_eq_true_eq, Bool.false_eq_true, if_false] at hg
      simp only [failed, List.append_nil]
      simp only [places, State.goto, List.count_append, List.count_singleton, beq_iff_eq] at hg ⊢
      omega
    | out | got | callBack => cases he
  | writeFails t text =>
    simp only [AsynLogRecords.step] at he
    cases ht : s.pc t with rw [ht] at he
    | traceLog logOv =>
      cases he
      exact h.enter t text fun r => by simp [failed, ht, holds, List.count_singleton]
    | out | got | callBack => cases he
  | complete logOv ok =>
    obtain ⟨hm, ⟨⟩⟩ := Option.ite_none_right_eq_some.1 he
    intro r
    refine Eq.trans ?_ (h r)
    have hc := (List.perm_cons_erase hm).count_eq r
    simp only [failed, List.append_nil]
    simp only [places, List.count_cons, List.map_append, List.map_cons, List.map_nil, List.count_append,
      List.count_nil, beq_iff_eq] at hc ⊢
    omega
  | get t c =>
    obtain ⟨⟨ht, hm⟩, ⟨⟩⟩ := Option.ite_none_right_eq_some.1 he
    intro r
    refine Eq.trans ?_ (h r)
    have hg := places_goto s left t (.got c.1 c.2) r
    have hc := ((List.perm_cons_erase hm).map Prod.fst).count_eq r
    simp only [ht, holds, decide_eq_true_eq, Bool.false_eq_true, if_false] at hg
    simp only [failed, List.append_nil]
    simp only [places, State.goto, List.map_cons, List.count_cons, beq_iff_eq] at hc hg ⊢
    omega
  | run t text =>
    simp only [AsynLogRecords.step] at he
    cases ht : s.pc t with rw [ht] at he
    | got logOv bSuccess =>
      cases bSuccess with
      | true =>
        cases he
        intro r
        have hg := places_goto s left t (.callBack logOv) r
        rw [ht] at hg
        simp only [failed, ht, List.append_nil]
        exact (Nat.add_right_cancel hg).trans (h r)
      | false =>
        cases he
        exact h.enter t text fun r => by simp [failed, ht, holds, List.count_singleton]
    | out | traceLog | callBack => cases he
  | callBackFunction t =>
    simp only [AsynLogRecords.step] at he
    cases ht : s.pc t with rw [ht] at he
    | callBack logOv =>
      cases he
      intro r
      refine Eq.trans ?_ (h r)
      have hg := places_goto s left t .out r
      simp only [ht, holds, decide_eq_true_eq, Bool.false_eq_true, if_false] at hg
      simp only [failed, List.append_nil]
      simp only [places, State.goto, List.count_append, List.count_singleton, beq_iff_eq] at hg ⊢
      omega
    | out | traceLog | got => cases he

/-- **Who frees a record.** Whatever the threads, the writes and their completions do: no record is deleted twice, none
is deleted that a write, a completion or a thread still has to do with, and when nothing is under way any more, the
records that were made are those that were deleted and those of the failed writes, each once. -/
theorem records_once {s₀ : State n} (h0 : (sys n).init s₀) {left : List Nat}
    (hr : (sys n).Shows (fun _ _ => True) failed s₀ left s) :
    s.deleted.Nodup ∧
    (∀ r ∈ s.deleted, r ∉ s.flight ∧ r ∉ s.port.map Prod.fst ∧ ∀ t, holds r (s.pc t) = false) ∧
    ((∀ t, s.pc t = .out) → s.flight = [] → s.port = [] → (s.deleted ++ left).Perm (List.range s.made)) := by
  have hi : Placed s left := by
    refine Sys.Shows.inv (I := fun l s => Placed s l) (fun l s a s' h _ he => h.step he) hr ?_
    cases (h0 : s₀ = _)
    intro r
    have hz : atPlaces (holds r) (fun _ : Fin n => Pc.out) = 0 := atPlaces_zero.2 fun _ => rfl
    simp [places, hz]
  have hone : ∀ r, places s left r ≤ 1 := fun r => by rw [hi r]; split <;> omega
  refine ⟨?_, ?_, ?_⟩
  · refine List.nodup_iff_count_le_one.2 fun r => ?_
    have := hone r
    unfold places at this
    omega
  · intro r hm
    have hpos := List.count_pos_iff.2 hm
    have hle := hone r
    unfold places at hle
    refine ⟨?_, ?_, ?_⟩
    · exact List.count_eq_zero.1 (by omega)
    · exact List.count_eq_zero.1 (by omega)
    · exact atPlaces_zero.1 (by omega)
  · intro hout hf hp
    refine List.perm_iff_count.2 fun r => ?_
    have hz : atPlaces (holds r) s.pc = 0 := atPlaces_zero.2 fun t => by rw [hout t]; rfl
    have hr := hi r
    simp only [places, hz, hf, hp, List.count_nil, List.map_nil] at hr
    rw [List.count_append, List.count_range]
    omega

/-- The second message cannot be written, and the write of the message about it fails too; the one about this is
written. -/
theorem records_once_two : ∃ s : State 2, ∃ left, (sys 2).Shows (fun _ _ => True) failed
      (⟨fun _ => .out, 0, [], [], []⟩ : State 2) left s ∧ left = [1, 2] ∧ s.made = 4 ∧
    (s.deleted ++ left).Perm (List.range s.made) := by
  have hex : ∃ s : State 2, (sys 2).Shows (fun _ _ => True) failed (⟨fun _ => .out, 0, [], [], []⟩ : State 2) [1, 2] s ∧
      (∀ t, s.pc t = .out) ∧ s.flight = [] ∧ s.port = [] ∧ s.made = 4 :=
    ⟨_, .step (a := Act.traceLog 0 [65]) trivial rfl (.step (a := Act.writeFile 0) trivial rfl
      (.step (a := Act.traceLog 0 [66]) trivial rfl (.step (a := Act.writeFails 0 [67]) trivial rfl
        (.step (a := Act.writeFile 0) trivial rfl (.step (a := Act.complete 0 true) trivial rfl
          (.step (a := Act.complete 2 false) trivial rfl (.step (a := Act.get 1 (2, false)) trivial rfl
            (.step (a := Act.run 1 [68]) trivial rfl (.step (a := Act.writeFile 1) trivial rfl
              (.step (a := Act.get 0 (0, true)) trivial rfl (.step (a := Act.run 0 []) trivial rfl
                (.step (a := Act.callBackFunction 0) trivial rfl (.step (a := Act.complete 3 true) trivial rfl
                  (.step (a := Act.get 0 (3, true)) trivial rfl (.step (a := Act.run 0 []) trivial rfl
                    (.step (a := Act.callBackFunction 0) trivial rfl .refl)))))))))))))))),
      by decide, rfl, rfl, rfl⟩
  obtain ⟨s, hr, hout, hf, hp, hm⟩ := hex
  exact ⟨s, _, hr, rfl, hm, (records_once rfl hr).2.2 hout hf hp⟩

end P1Server.AsynLogRecords
