import P1Server.Lib.Sys
import P1Server.Lib.Threads
import P1Server.Lib.File

/-!
# `AsynLog`: where the messages go

| here | there |
| --- | --- |
| `Pc.read`, `.add`, `.write` | the three accesses of `traceLog` (`IOCP_Test/AsynLog.cpp:85-88`): `logSize` into `ov.Offset`, `InterlockedExchangeAdd64`, `WriteFile` |
| `overlapped`                | `LOG_OVERLAPPED`, zeroed, then `Offset` set (`AsynLog.h:8-12`, `AsynLog.cpp:85-86`) |
| `Act.fails`                 | `WriteFile` fails; `Log` hands the text of the error to `traceLog` (`:89-93`) |

The completion of a write only frees its `OVERLAPPED`. `writes` (what the calls of `WriteFile` address) and `sum` (the
lengths of the messages) are ghost.

* `tiled` — where no call adds between another one's read and add, and the sizes stay below 4 GiB, the writes are
  disjoint and cover what was logged;
* `not_tiled` — two threads that read the same size; one thread past 4 GiB.
-/

namespace P1Server.AsynLog
open Lib

def strlen (data : List UInt8) : Nat := (data.takeWhile fun c => c != 0).length

/-- The next access of a thread, with `length` and `logOv->ov`. -/
inductive Pc
  | out
  | read (length : Nat)
  | add (length : Nat) (ov : Overlapped)
  | write (length : Nat) (ov : Overlapped)
  deriving DecidableEq

structure State (n : Nat) where
  pc : Fin n → Pc
  logSize : UInt64
  writes : List Region
  sum : Nat

inductive Act (n : Nat)
  | traceLog (t : Fin n) (data : List UInt8)
  | run (t : Fin n)
  | fails (t : Fin n) (text : List UInt8)

variable {n : Nat} {s s' : State n}

def State.goto (s : State n) (t : Fin n) (p : Pc) : State n := { s with pc := Function.update s.pc t p }

/-- `if (length > 0)`. -/
def enter (data : List UInt8) : Pc := if 0 < strlen data then .read (strlen data) else .out

/-- The `static_cast<DWORD>` keeps the low half. -/
def overlapped (logSize : UInt64) : Overlapped := ⟨logSize.toUInt32, 0⟩

/-- What `WriteFile` addresses; `length` becomes a `DWORD` there. -/
def region (length : Nat) (ov : Overlapped) : Region := ⟨ov.pos, (UInt32.ofNat length).toNat⟩

def step (s : State n) : Act n → Option (State n)
  | .traceLog t data =>
    if s.pc t = .out then some { s.goto t (enter data) with sum := s.sum + strlen data } else none
  | .run t =>
    match s.pc t with
    | .out => none
    | .read length => some (s.goto t (.add length (overlapped s.logSize)))
    | .add length ov => some { s.goto t (.write length ov) with logSize := s.logSize + UInt64.ofNat length }
    | .write length ov => some { s.goto t .out with writes := s.writes ++ [region length ov] }
  | .fails t text =>
    match s.pc t with
    | .write length ov => some { s.goto t (enter text) with
        writes := s.writes ++ [region length ov]
        sum := s.sum + strlen text }
    | _ => none

def sys (n : Nat) : Sys (State n) (Act n) where
  init s := s = ⟨fun _ => .out, 0, [], 0⟩
  step := step

/-- The writes are disjoint, and when every call has returned they cover exactly what was logged. -/
structure Tiled (s : State n) : Prop where
  disjoint : s.writes.Pairwise Region.Disjoint
  covers : (∀ t, s.pc t = .out) → Tiles s.writes s.sum

/-! ## The runs that keep clear of the races and of 4 GiB -/

def Pc.reads : Pc → Bool
  | .read _ => true
  | _ => false

def Pc.adds : Pc → Bool
  | .add .. => true
  | _ => false

/-- No call adds to `logSize` while another one is between its read and its add, `logSize` fits `Offset` when it is
read, and each message fits a `DWORD`. -/
def Apart (s : State n) : Act n → Prop
  | .traceLog _ data | .fails _ data => strlen data < 2 ^ 32
  | .run t => ((s.pc t).reads = true → s.logSize.toNat < 2 ^ 32) ∧
      ((s.pc t).adds = true → ∀ u, (s.pc u).adds = true → u = t)

instance (s : State n) : ∀ a, Decidable (Apart s a)
  | .traceLog _ data | .fails _ data => inferInstanceAs (Decidable (strlen data < 2 ^ 32))
  | .run t => inferInstanceAs (Decidable (((s.pc t).reads = true → s.logSize.toNat < 2 ^ 32) ∧
      ((s.pc t).adds = true → ∀ u, (s.pc u).adds = true → u = t)))

/-! ## Who has reserved which bytes -/

/-- What a call has still to add to `logSize`. -/
def toAdd : Pc → Nat
  | .read length | .add length _ => length
  | _ => 0

/-- The call has reserved byte `i` and not yet written. -/
def holds (i : Nat) : Pc → Bool
  | .write length ov => (region length ov).covers i
  | _ => false

def length : Pc → Nat
  | .out => 0
  | .read length | .add length _ | .write length _ => length

structure Inv (s : State n) : Prop where
  small : ∀ t, length (s.pc t) < 2 ^ 32
  kept : ∀ t l ov, s.pc t = .add l ov → ov.pos = s.logSize.toNat ∧ s.logSize.toNat < 2 ^ 32
  once : ∀ i, s.writes.countP (Region.covers i) + atPlaces (holds i) s.pc = if i < s.logSize.toNat then 1 else 0
  sums : s.logSize.toNat + weigh toAdd s.pc = s.sum

@[simp] theorem toAdd_enter (data : List UInt8) : toAdd (enter data) = strlen data := by
  unfold enter
  split <;> simp [toAdd]
  omega

@[simp] theorem length_enter (data : List UInt8) : length (enter data) = strlen data := by
  unfold enter
  split <;> simp [length]
  omega

@[simp] theorem holds_enter (i : Nat) (data : List UInt8) : holds i (enter data) = false := by
  unfold enter
  split <;> rfl

theorem enter_ne_add (data : List UInt8) (l : Nat) (ov : Overlapped) : enter data ≠ .add l ov := by
  unfold enter
  split <;> simp

theorem overlapped_pos {logSize : UInt64} (h : logSize.toNat < 2 ^ 32) : (overlapped logSize).pos = logSize.toNat := by
  simp only [overlapped, Overlapped.pos, UInt64.toNat_toUInt32, UInt32.toNat_zero, Nat.zero_mul, Nat.zero_add]
  exact Nat.mod_eq_of_lt h

theorem covers_region {i l : Nat} {ov : Overlapped} (hl : l < 2 ^ 32) :
    (region l ov).covers i = true ↔ ov.pos ≤ i ∧ i < ov.pos + l := by
  simp only [region, Region.covers, decide_eq_true_eq, UInt32.toNat_ofNat', Nat.mod_eq_of_lt hl]

theorem small_goto (h : ∀ t, length (s.pc t) < 2 ^ 32) (t : Fin n) {q : Pc} (hq : length q < 2 ^ 32) (u : Fin n) :
    length ((s.goto t q).pc u) < 2 ^ 32 := by
  rcases see_update length (rfl : length (Function.update s.pc t q u) = _) with ⟨-, hu⟩ | ⟨-, hu⟩
  · exact hu ▸ hq
  · exact hu ▸ h u

/-! ## The steps -/

/-- A message comes: it has to be added to the size. -/
theorem Inv.enter (h : Inv s) {t : Fin n} {data : List UInt8} {ws : List Region} (hd : strlen data < 2 ^ 32)
    (hadd : toAdd (s.pc t) = 0)
    (hws : ∀ i, ws.countP (Region.covers i) = s.writes.countP (Region.covers i) + if holds i (s.pc t) then 1 else 0) :
    Inv { s.goto t (AsynLog.enter data) with writes := ws, sum := s.sum + strlen data } := by
  refine ⟨small_goto h.small t (by simpa using hd), ?_, ?_, ?_⟩
  · intro u l ov hu
    rcases at_update hu with ⟨-, hq⟩ | ⟨-, hu⟩
    · exact absurd hq (enter_ne_add data l ov)
    · exact h.kept u l ov hu
  · intro i
    have hb := atPlaces_update (holds i) s.pc t (AsynLog.enter data)
    refine Eq.trans ?_ (h.once i)
    simp only [holds_enter, Bool.false_eq_true, if_false] at hb
    simp only [State.goto, hws i]
    omega
  · have hb := weigh_update toAdd s.pc t (AsynLog.enter data)
    have hs := h.sums
    rw [toAdd_enter, hadd] at hb
    show s.logSize.toNat + weigh toAdd (Function.update s.pc t (AsynLog.enter data)) = s.sum + strlen data
    omega

/-- The size is read, by a call that is the only one to add until it adds. -/
theorem Inv.read (h : Inv s) {t : Fin n} {l : Nat} (ht : s.pc t = .read l) (hlow : s.logSize.toNat < 2 ^ 32) :
    Inv (s.goto t (.add l (overlapped s.logSize))) := by
  have hl : l < 2 ^ 32 := by simpa [ht, length] using h.small t
  refine ⟨small_goto h.small t hl, ?_, ?_, ?_⟩
  · intro u k ov hu
    rcases at_update hu with ⟨-, hq⟩ | ⟨-, hu⟩
    · cases hq
      exact ⟨overlapped_pos hlow, hlow⟩
    · exact h.kept u k ov hu
  · intro i
    have hb := atPlaces_update (holds i) s.pc t (.add l (overlapped s.logSize))
    refine Eq.trans ?_ (h.once i)
    simp only [ht, holds, Bool.false_eq_true, if_false] at hb
    simp only [State.goto]
    omega
  · have hb := weigh_update toAdd s.pc t (.add l (overlapped s.logSize))
    rw [ht] at hb
    refine Eq.trans ?_ h.sums
    simp only [State.goto]
    simp only [toAdd] at hb
    omega

/-- The bytes just past the old size are reserved. -/
theorem Inv.add (h : Inv s) {t : Fin n} {l : Nat} {ov : Overlapped} (ht : s.pc t = .add l ov)
    (hone : ∀ u, (s.pc u).adds = true → u = t) :
    Inv { s.goto t (.write l ov) with logSize := s.logSize + UInt64.ofNat l } := by
  have hl : l < 2 ^ 32 := by simpa [ht, length] using h.small t
  obtain ⟨hpos, hlow⟩ := h.kept t l ov ht
  have hsize : (s.logSize + UInt64.ofNat l).toNat = s.logSize.toNat + l := by
    rw [UInt64.toNat_add, UInt64.toNat_ofNat']
    omega
  refine ⟨small_goto h.small t hl, ?_, ?_, ?_⟩
  · intro u k ov' hu
    rcases at_update hu with ⟨-, hq⟩ | ⟨hne, hu⟩
    · cases hq
    · exact absurd (hone u (by rw [hu]; rfl)) hne
  · intro i
    have hb := atPlaces_update (holds i) s.pc t (.write l ov)
    have ho := h.once i
    have hc := @covers_region i l ov hl
    rw [hpos] at hc
    simp only [ht, holds, Bool.false_eq_true, if_false, hc] at hb
    simp only [State.goto, hsize]
    split at ho <;> split at hb <;> split <;> omega
  · have hb := weigh_update toAdd s.pc t (.write l ov)
    have hs := h.sums
    simp only [ht, toAdd] at hb
    simp only [State.goto, hsize]
    omega

theorem Inv.step (h : Inv s) {a : Act n} (hk : Apart s a) (he : step s a = some s') : Inv s' := by
  cases a with
  | traceLog t data =>
    obtain ⟨ht, ⟨⟩⟩ := Option.ite_none_right_eq_some.1 he
    exact h.enter hk (by rw [ht]; rfl) fun i => by simp [State.goto, ht, holds]
  | run t =>
    simp only [AsynLog.step] at he
    cases ht : s.pc t with rw [ht] at he
    | out => cases he
    | read l =>
      cases he
      exact h.read ht (hk.1 (by rw [ht]; rfl))
    | add l ov =>
      cases he
      exact h.add ht (hk.2 (by rw [ht]; rfl))
    | write l ov =>
      cases he
      exact @Inv.enter n s h t [] _ (by simp [strlen]) (by rw [ht]; rfl) fun i => by
        simp [ht, holds, List.countP_append]
  | fails t text =>
    simp only [AsynLog.step] at he
    cases ht : s.pc t with rw [ht] at he
    | out | read | add => cases he
    | write l ov =>
      cases he
      exact h.enter hk (by rw [ht]; rfl) fun i => by simp [ht, holds, List.countP_append]

theorem inv (h : (sys n).Reach Apart s) : Inv s := by
  refine Sys.Reach.inv ?_ (fun s a s' hi hk he => hi.step hk he) h
  intro s hs
  cases (hs : s = _)
  exact ⟨by simp [length], by simp, fun i => by simp [atPlaces, holds], by simp [weigh, toAdd]⟩

/-- **The writes do not overlap** and leave no gap. -/
theorem tiled (h : (sys n).Reach Apart s) : Tiled s := by
  have hi := inv h
  refine ⟨pairwise_disjoint ?_, fun hout => tiles_of_count ?_⟩
  · intro i
    have := hi.once i
    split at this <;> omega
  · intro i
    have hheld : atPlaces (holds i) s.pc = 0 := atPlaces_zero.2 fun t => by rw [hout t]; rfl
    have hadd : weigh toAdd s.pc = 0 := weigh_zero.2 fun t => by rw [hout t]; rfl
    have ho := hi.once i
    have hs := hi.sums
    rw [hheld] at ho
    rw [hadd] at hs
    simpa [← hs] using ho

/-- Two threads, the second one in between the first one's add and write; its write is done first. -/
theorem tiled_two : ∃ s : State 2, (sys 2).Reach Apart s ∧ s.writes = [⟨2, 1⟩, ⟨0, 2⟩] ∧ s.sum = 3 ∧ Tiled s :=
  have hr : (sys 2).Reach Apart _ := Sys.Reach.runK [.traceLog 0 [65, 66, 0, 67], .traceLog 1 [68], .run 0, .run 0,
    .run 1, .run 1, .run 1, .run 0] (.init rfl) rfl
  ⟨_, hr, rfl, rfl, tiled hr⟩

/-! ## Where it fails -/

/-- What one call does when nobody is in its way. -/
theorem alone {t : Fin n} {data : List UInt8} (ht : s.pc t = .out) (hd : 0 < strlen data) :
    (sys n).run s [.traceLog t data, .run t, .run t, .run t] = some { s with
      logSize := s.logSize + UInt64.ofNat (strlen data)
      writes := s.writes ++ [region (strlen data) (overlapped s.logSize)]
      sum := s.sum + strlen data } := by
  have hout : Function.update s.pc t .out = s.pc := by rw [← ht, Function.update_eq_self]
  simp [Sys.run, sys, step, ht, enter, hd, State.goto, hout]

/-- Two messages of `k` bytes, then one of a byte. -/
theorem three_writes {k : Nat} (hk : 0 < k) : ∃ s : State 1, (sys 1).Reachable s ∧
    s.writes = [region k (overlapped 0), region k (overlapped (UInt64.ofNat k)),
      region 1 (overlapped (UInt64.ofNat k + UInt64.ofNat k))] := by
  have hlen : strlen (List.replicate k 65) = k := by simp [strlen]
  have h1 := Sys.Reachable.run _ (.init rfl) (alone (n := 1) (t := 0) rfl (hlen ▸ hk))
  have h2 := Sys.Reachable.run _ h1 (alone (t := 0) rfl (hlen ▸ hk))
  have h3 := Sys.Reachable.run _ h2 (@alone 1 _ 0 [66] rfl (by decide))
  refine ⟨_, h3, ?_⟩
  simp [strlen]

/-- Two threads read the size before either has added to it; and one thread writes past 4 GiB, to the start of the
file. -/
theorem not_tiled : (∃ s : State 2, (sys 2).Reachable s ∧ ¬ Tiled s) ∧
    ∃ s : State 1, (sys 1).Reachable s ∧ ¬ Tiled s := by
  constructor
  · have hr : (sys 2).Reachable _ := Sys.Reachable.run [.traceLog 0 [65], .traceLog 1 [66], .run 0, .run 1, .run 0,
      .run 1, .run 0, .run 1] (.init rfl) rfl
    refine ⟨_, hr, ?_⟩
    intro h
    have hd : Region.Disjoint ⟨0, 1⟩ ⟨0, 1⟩ := List.rel_of_pairwise_cons h.disjoint List.mem_cons_self
    exact absurd (hd 0 rfl) (by decide)
  · obtain ⟨s, hr, hw⟩ := three_writes (k := 2 ^ 31) (by decide)
    refine ⟨s, hr, ?_⟩
    intro h
    have hd : Region.Disjoint ⟨0, 2 ^ 31⟩ ⟨0, 1⟩ := List.rel_of_pairwise_cons (hw ▸ h.disjoint) (by decide)
    exact absurd (hd 0 rfl) (by decide)

end P1Server.AsynLog
