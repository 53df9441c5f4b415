import P1Server.Lib.Sys
import P1Server.Lib.File

/-!
# `TraceLog`: what gets into the file

| here | there |
| --- | --- |
| `Act.traceLog`       | `TRACELOG`, the push under `_cs` (`CommonLib/TraceLog.cpp:79-90`) |
| `Act.traceLogThread` | a run of `TraceLogThread` starts and empties the list under `_cs` (`:18-28`) |
| `Act.writeFile`      | `WriteFile` with the shared `_pLogContext->ov`; its result is not looked at (`:34-35`) |
| `Act.run`            | the other lines: `ov.Offset += bytesToWrite`, `log = ""`, the return (`:36-39`) |
| `Act.complete`       | the system finishes a pending write: it takes the bytes from where they were handed over |
| `Pending.mem`        | what the string `log` holds by now; `none` once it is released |

The runs of `TraceLogThread` do not overlap (`mulNum` is 1). `pushed` and `writes` (where each `WriteFile` goes, with
the length of its batch) are ghost.

* `loses_nothing` — where every write is complete before the thread goes on, none fails and the sizes stay below 4 GiB,
  the file is what was pushed, in order, and no write has its string or its `OVERLAPPED` taken away;
* `not_faithful` — one write that is pending, and three that are not, past 4 GiB.
-/

namespace P1Server.TraceLog
open Lib

/-- A write that is pending: what was handed over, and what the memory of `log` holds now. -/
structure Pending where
  ov : Overlapped
  data : List UInt8
  mem : Option (List UInt8)
  deriving DecidableEq

/-- Where `TraceLogThread` is. -/
inductive Pc
  | out
  | drained (log : List UInt8)
  | wrote (bytesToWrite : UInt32)
  | added
  | cleared
  deriving DecidableEq

structure State where
  runFlag : Bool
  logList : List (List UInt8)
  ov : Overlapped
  pc : Pc
  file : List UInt8
  pending : List Pending
  pushed : List (List UInt8)
  writes : List Region
  deriving DecidableEq

/-- How `WriteFile` returns. -/
inductive Result
  | completed
  | pending
  | failed
  deriving DecidableEq

inductive Act
  | traceLog (is : List UInt8)
  | traceLogThread
  | writeFile (r : Result)
  | run
  | complete (i : Nat) (bSuccess : Bool) (junk : Nat → UInt8)

variable {s s' : State}

/-- The loop over `_logList`. -/
def drain : List UInt8 → List (List UInt8) → List UInt8
  | log, [] => log
  | log, front :: rest => drain (log ++ front) rest

theorem drain_eq (log : List UInt8) (list : List (List UInt8)) : drain log list = log ++ list.flatten := by
  induction list generalizing log with
  | nil => simp [drain]
  | cons front rest ih => simp [drain, ih]

namespace Pending

/-- `log = ""` puts the terminating zero in front. -/
def clear (w : Pending) : Pending := { w with mem := w.mem.map fun bytes => 0 :: bytes.tail }

def release (w : Pending) : Pending := { w with mem := none }

/-- What the system finds where the bytes were. -/
def bytes (w : Pending) (junk : Nat → UInt8) : List UInt8 := w.mem.getD ((List.range w.data.length).map junk)

end Pending

/-- `WriteFile` of the first `bytesToWrite` bytes of `log`. -/
def writeFile (s : State) (log : List UInt8) (bytesToWrite : UInt32) (r : Result) : State :=
  let data := log.take bytesToWrite.toNat
  { s with
    pc := .wrote bytesToWrite
    writes := s.writes ++ [⟨s.ov.pos, log.length⟩]
    file := if r = .completed then writeAt s.file s.ov.pos data else s.file
    pending := if r = .pending then s.pending ++ [⟨s.ov, data, some data⟩] else s.pending }

def step (s : State) : Act → Option State
  | .traceLog is =>
    if s.runFlag then some { s with logList := s.logList ++ [is], pushed := s.pushed ++ [is] } else some s
  | .traceLogThread =>
    match s.pc with
    | .out => some { s with pc := .drained (drain [] s.logList), logList := [] }
    | _ => none
  | .writeFile r =>
    match s.pc with
    | .drained log => if log ≠ [] then some (writeFile s log (UInt32.ofNat log.length) r) else none
    | _ => none
  | .run =>
    match s.pc with
    | .out => none
    | .drained log => if log = [] then some { s with pc := .added } else none
    | .wrote bytesToWrite => some { s with pc := .added, ov := { s.ov with Offset := s.ov.Offset + bytesToWrite } }
    | .added => some { s with pc := .cleared, pending := s.pending.map Pending.clear }
    | .cleared => some { s with pc := .out, pending := s.pending.map Pending.release }
  | .complete i bSuccess junk =>
    match s.pending[i]? with
    | some w => some { s with
        pending := s.pending.eraseIdx i
        file := if bSuccess then writeAt s.file w.ov.pos (w.bytes junk) else s.file }
    | none => none

/-- `InitIocpTask` has succeeded. -/
def sys : Sys State Act where
  init s := s = ⟨true, [], ⟨0, 0⟩, .out, [], [], [], []⟩
  step := step

/-- Each `WriteFile` goes where the batch before it ends, a pending write is the only one and still has its string and
its `OVERLAPPED`, and when nothing is under way the file is what was pushed. -/
structure Faithful (s : State) : Prop where
  placed : Consecutive 0 s.writes
  untouched : ∀ w ∈ s.pending, s.pending = [w] ∧ w.mem = some w.data ∧ w.ov = s.ov
  file : s.logList = [] → s.pc = .out → s.pending = [] → s.file = s.pushed.flatten

/-! ## The runs in which every write is complete at once -/

def Pc.goesOn : Pc → Bool
  | .wrote _ => true
  | _ => false

/-- Nothing is pending when the thread goes on from `WriteFile`, no write fails, `Offset` is below 4 GiB at each
`WriteFile`, and so is each batch. -/
def Waits (s : State) : Act → Prop
  | .traceLog _ => True
  | .traceLogThread => s.logList.flatten.length < 2 ^ 32
  | .writeFile r => r ≠ .failed ∧ s.file.length < 2 ^ 32
  | .run => s.pc.goesOn = true → s.pending.length = 0
  | .complete _ bSuccess _ => bSuccess = true

instance (s : State) : ∀ a, Decidable (Waits s a)
  | .traceLog _ => .isTrue trivial
  | .traceLogThread => inferInstanceAs (Decidable (s.logList.flatten.length < 2 ^ 32))
  | .writeFile r => inferInstanceAs (Decidable (r ≠ .failed ∧ s.file.length < 2 ^ 32))
  | .run => inferInstanceAs (Decidable (s.pc.goesOn = true → s.pending.length = 0))
  | .complete _ bSuccess _ => inferInstanceAs (Decidable (bSuccess = true))

/-- The batch that no `WriteFile` has been called for yet. -/
def batch : Pc → List UInt8
  | .drained log => log
  | _ => []

/-- What has still to be added to `Offset`. -/
def toAdd : Pc → UInt32
  | .wrote bytesToWrite => bytesToWrite
  | _ => 0

structure Inv (s : State) : Prop where
  runFlag : s.runFlag = true
  placed : Consecutive 0 s.writes
  small : (batch s.pc).length < 2 ^ 32
  order : s.file ++ (s.pending.map Pending.data).flatten ++ batch s.pc ++ s.logList.flatten = s.pushed.flatten
  size : s.file.length + (s.pending.map Pending.data).flatten.length = total s.writes
  high : s.ov.OffsetHigh = 0
  offset : s.ov.Offset + toAdd s.pc = UInt32.ofNat (total s.writes)
  pending : s.pending = [] ∨
    s.pc.goesOn = true ∧ ∃ w, s.pending = [w] ∧ w.mem = some w.data ∧ w.ov = s.ov ∧ w.ov.pos = s.file.length

theorem Inv.none_pending (h : Inv s) (hpc : s.pc.goesOn = false) : s.pending = [] := by
  rcases h.pending with hp | ⟨hg, -⟩
  · exact hp
  · rw [hpc] at hg
    cases hg

theorem Inv.writeFile (h : Inv s) {log : List UInt8} (hpc : s.pc = .drained log) {r : Result} (hr : r ≠ .failed)
    (hlow : s.file.length < 2 ^ 32) : Inv (writeFile s log (UInt32.ofNat log.length) r) := by
  have hnone : s.pending = [] := h.none_pending (by rw [hpc]; rfl)
  have hlen : log.length < 2 ^ 32 := by simpa [hpc, batch] using h.small
  have htake : log.take (UInt32.ofNat log.length).toNat = log := by
    rw [UInt32.toNat_ofNat', Nat.mod_eq_of_lt hlen, List.take_length]
  have hsize := h.size
  have hoff := h.offset
  have horder := h.order
  simp only [hnone, hpc, batch, toAdd, List.map_nil, List.flatten_nil, List.length_nil, Nat.add_zero, List.append_nil,
    UInt32.add_zero] at hsize hoff horder
  have hpos : s.ov.pos = s.file.length := by
    simp only [Overlapped.pos, h.high, hoff, ← hsize, UInt32.toNat_ofNat', Nat.mod_eq_of_lt hlow, UInt32.toNat_zero,
      Nat.zero_mul, Nat.zero_add]
  have hplaced : Consecutive 0 (s.writes ++ [⟨s.ov.pos, log.length⟩]) :=
    consecutive_concat.2 ⟨h.placed, by rw [hpos, hsize, Nat.zero_add]⟩
  cases r with
  | failed => exact absurd rfl hr
  | completed =>
    have hstate : TraceLog.writeFile s log (UInt32.ofNat log.length) .completed = { s with
        pc := .wrote (UInt32.ofNat log.length)
        writes := s.writes ++ [⟨s.ov.pos, log.length⟩]
        file := s.file ++ log } := by
      simp only [TraceLog.writeFile, htake, hpos, writeAt_end, if_true, reduceCtorEq, if_false]
    rw [hstate]
    refine ⟨h.runFlag, hplaced, by simp [batch], ?_, ?_, h.high, ?_, .inl hnone⟩
    · simpa [hnone, batch] using horder
    · simp [hnone, hsize]
    · simp [toAdd, hoff]
  | pending =>
    have hstate : TraceLog.writeFile s log (UInt32.ofNat log.length) .pending = { s with
        pc := .wrote (UInt32.ofNat log.length)
        writes := s.writes ++ [⟨s.ov.pos, log.length⟩]
        pending := [⟨s.ov, log, some log⟩] } := by
      simp only [TraceLog.writeFile, htake, hnone, List.nil_append, if_true, reduceCtorEq, if_false]
    rw [hstate]
    refine ⟨h.runFlag, hplaced, by simp [batch], ?_, ?_, h.high, ?_, .inr ⟨rfl, _, rfl, rfl, rfl, hpos⟩⟩
    · simpa [batch] using horder
    · simp [hsize]
    · simp [toAdd, hoff]

theorem Inv.complete (h : Inv s) {i : Nat} {w : Pending} {junk : Nat → UInt8} (hw : s.pending[i]? = some w) :
    Inv { s with pending := s.pending.eraseIdx i, file := writeAt s.file w.ov.pos (w.bytes junk) } := by
  obtain hnone | ⟨-, v, hv, hmem, -, hpos⟩ := h.pending
  · simp [hnone] at hw
  obtain ⟨rfl, rfl⟩ : i = 0 ∧ v = w := by
    rw [hv, List.getElem?_singleton] at hw
    obtain ⟨hi, ⟨⟩⟩ := Option.ite_none_right_eq_some.1 hw
    exact ⟨hi, rfl⟩
  have hfile : writeAt s.file v.ov.pos (v.bytes junk) = s.file ++ v.data := by
    rw [hpos, Pending.bytes, hmem, Option.getD_some, writeAt_end]
  have horder := h.order
  have hsize := h.size
  rw [hv] at horder hsize
  rw [hfile, hv]
  refine ⟨h.runFlag, h.placed, h.small, ?_, ?_, h.high, h.offset, .inl rfl⟩
  · simpa using horder
  · simpa using hsize

theorem Inv.step (h : Inv s) {a : Act} (hk : Waits s a) (he : step s a = some s') : Inv s' := by
  cases a with
  | traceLog is =>
    simp only [TraceLog.step, h.runFlag, if_true] at he
    cases he
    refine ⟨rfl, h.placed, h.small, ?_, h.size, h.high, h.offset, h.pending⟩
    have horder := congrArg (fun bytes => bytes ++ is) h.order
    simpa using horder
  | traceLogThread =>
    simp only [TraceLog.step] at he
    cases hpc : s.pc with rw [hpc] at he
    | drained | wrote | added | cleared => cases he
    | out =>
      cases he
      have hnone : s.pending = [] := h.none_pending (by rw [hpc]; rfl)
      have horder := h.order
      have hoff := h.offset
      have hsmall : s.logList.flatten.length < 2 ^ 32 := hk
      rw [hpc] at horder hoff
      refine ⟨h.runFlag, h.placed, ?_, ?_, h.size, h.high, hoff, .inl hnone⟩
      · simpa [drain_eq, batch] using hsmall
      · simpa [drain_eq, batch] using horder
  | writeFile r =>
    simp only [TraceLog.step] at he
    cases hpc : s.pc with rw [hpc] at he
    | out | wrote | added | cleared => cases he
    | drained log =>
      obtain ⟨-, ⟨⟩⟩ := Option.ite_none_right_eq_some.1 he
      exact h.writeFile hpc hk.1 hk.2
  | run =>
    have hnone : s.pending = [] := by
      cases hg : s.pc.goesOn with
      | false => exact h.none_pending hg
      | true => exact List.length_eq_zero_iff.1 (hk hg)
    have horder := h.order
    have hsize := h.size
    have hoff := h.offset
    simp only [TraceLog.step] at he
    cases hpc : s.pc with rw [hpc] at he horder hoff
    | out => cases he
    | drained log =>
      obtain ⟨rfl, ⟨⟩⟩ := Option.ite_none_right_eq_some.1 he
      exact ⟨h.runFlag, h.placed, by simp [batch], horder, hsize, h.high, hoff, .inl hnone⟩
    | wrote b =>
      cases he
      exact ⟨h.runFlag, h.placed, by simp [batch], horder, hsize, h.high, by simpa [toAdd] using hoff, .inl hnone⟩
    | added | cleared =>
      cases he
      simp only [hnone, List.map_nil] at horder hsize ⊢
      exact ⟨h.runFlag, h.placed, by simp [batch], horder, hsize, h.high, hoff, .inl rfl⟩
  | complete i bSuccess junk =>
    simp only [TraceLog.step] at he
    cases (hk : bSuccess = true)
    split at he
    case h_1 w hw =>
      cases he
      exact h.complete hw
    case h_2 => cases he

theorem inv (h : sys.Reach Waits s) : Inv s := by
  refine Sys.Reach.inv ?_ (fun s a s' hi hk he => hi.step hk he) h
  intro s hs
  cases (hs : s = _)
  exact ⟨rfl, trivial, by simp [batch], rfl, rfl, rfl, rfl, .inl rfl⟩

/-- **What was pushed is what gets written**, where each write is complete before the thread goes on. -/
theorem loses_nothing (h : sys.Reach Waits s) : Faithful s := by
  have hi := inv h
  refine ⟨hi.placed, ?_, ?_⟩
  · intro w hw
    obtain hnone | ⟨-, v, hv, hmem, hov, -⟩ := hi.pending
    · simp [hnone] at hw
    · cases List.mem_singleton.1 (hv ▸ hw)
      exact ⟨hv, hmem, hov⟩
  · intro hlist hpc hnone
    simpa [hlist, hpc, hnone, batch] using hi.order

/-- Two batches, the first written in the background, the second at once. -/
theorem loses_nothing_two : ∃ s, sys.Reach Waits s ∧ s.file = [65, 66, 67] ∧ s.writes = [⟨0, 2⟩, ⟨2, 1⟩] ∧
    Faithful s :=
  have hr : sys.Reach Waits
      ⟨true, [], ⟨3, 0⟩, .out, [65, 66, 67], [], [[65], [66], [67]], [⟨0, 2⟩, ⟨2, 1⟩]⟩ :=
    Sys.Reach.runK [.traceLog [65], .traceLog [66], .traceLogThread, .writeFile .pending, .traceLog [67],
      .complete 0 true fun _ => 0, .run, .run, .run, .traceLogThread, .writeFile .completed, .run, .run, .run]
      (.init rfl) (by decide +kernel)
  ⟨_, hr, rfl, rfl, loses_nothing hr⟩

/-! ## Where it fails -/

/-- Between the batches, nothing pending. -/
def Idle (s : State) : Prop := s.runFlag = true ∧ s.logList = [] ∧ s.pc = .out ∧ s.pending = []

/-- One message, written at once. -/
theorem oneBatch (h : Idle s) {is : List UInt8} (hne : is ≠ []) : ∃ s',
    sys.run s [.traceLog is, .traceLogThread, .writeFile .completed, .run, .run, .run] = some s' ∧ Idle s' ∧
      s'.ov = { s.ov with Offset := s.ov.Offset + UInt32.ofNat is.length } ∧
      s'.writes = s.writes ++ [⟨s.ov.pos, is.length⟩] := by
  obtain ⟨hrun, hlist, hpc, hnone⟩ := h
  have hsteps : sys.run s [.traceLog is, .traceLogThread, .writeFile .completed, .run, .run, .run] = some
      ⟨true, [], { s.ov with Offset := s.ov.Offset + UInt32.ofNat is.length }, .out,
        writeAt s.file s.ov.pos (is.take (UInt32.ofNat is.length).toNat), [], s.pushed ++ [is],
        s.writes ++ [⟨s.ov.pos, is.length⟩]⟩ := by
    simp [Sys.run, sys, step, hrun, hlist, hpc, hnone, hne, drain, writeFile]
  exact ⟨_, hsteps, ⟨rfl, rfl, rfl, rfl⟩, rfl, rfl⟩

/-- Two batches of `k` bytes, then one of a byte. -/
theorem three_writes {k : Nat} (hk : 0 < k) : ∃ s, sys.Reachable s ∧ Idle s ∧
    s.writes = [⟨0, k⟩, ⟨(UInt32.ofNat k).toNat, k⟩, ⟨(UInt32.ofNat k + UInt32.ofNat k).toNat, 1⟩] := by
  have hne : List.replicate k (65 : UInt8) ≠ [] := by simp; omega
  have hlen : (List.replicate k (65 : UInt8)).length = k := List.length_replicate
  obtain ⟨s1, h1, hi1, hov1, hw1⟩ := oneBatch (s := ⟨true, [], ⟨0, 0⟩, .out, [], [], [], []⟩) ⟨rfl, rfl, rfl, rfl⟩ hne
  obtain ⟨s2, h2, hi2, hov2, hw2⟩ := oneBatch hi1 hne
  obtain ⟨s3, h3, hi3, -, hw3⟩ := @oneBatch s2 hi2 [66] (by simp)
  refine ⟨s3, .run _ (.run _ (.run _ (.init rfl) h1) h2) h3, hi3, ?_⟩
  rw [hw3, hw2, hw1, hov2, hov1, hlen]
  simp [Overlapped.pos]

/-- A write that is pending when the thread goes on has its `OVERLAPPED` changed; and where none is ever pending, the
third batch goes to the start of the file, past 4 GiB. -/
theorem not_faithful : (∃ s, sys.Reachable s ∧ s.writes.length = 1 ∧ ¬ Faithful s) ∧
    ∃ s, sys.Reachable s ∧ Idle s ∧ ¬ Faithful s := by
  constructor
  · have hr : sys.Reachable _ :=
      Sys.Reachable.run [.traceLog [65], .traceLogThread, .writeFile .pending, .run] (.init rfl) rfl
    refine ⟨_, hr, rfl, ?_⟩
    intro h
    have hov := (h.untouched _ List.mem_cons_self).2.2
    exact absurd hov (by decide +kernel)
  · obtain ⟨s, hr, hidle, hw⟩ := three_writes (k := 2 ^ 31) (by decide)
    refine ⟨s, hr, hidle, ?_⟩
    intro h
    have hplaced := hw ▸ h.placed
    exact absurd hplaced.2.2.1 (by decide)

end P1Server.TraceLog
