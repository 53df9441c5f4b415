import P1Server.Lib.Sys
import P1Server.Lib.Threads
import Mathlib.Data.BitVec

/-!
# `RWAutoLock`

| here | there |
| --- | --- |
| `Pc.testWrite` … `Pc.backOff` | the loop of `ReadLock` (`CommonLib/RWAutoLock.cpp:7-22`), one place per access to a counter |
| `Pc.reading`                  | between the `break` of `ReadLock` and the decrement of `ReadUnLock` (`:17`, `:27`) |
| `Pc.incWrite` … `Pc.testRead` | `WriteLock` (`:32-42`) |
| `Pc.writing`, `Pc.decWrite`   | up to `LeaveCriticalSection`, up to the decrement (`WriteUnlock`, `:47-48`) |
| `State.cs`                    | the owner of `_cs`; no thread enters twice, so recursion does not occur |

The counters are `volatile LONG`s, which the interlocked functions wrap at 32 bits. `Sleep(0)` does nothing.

* `exclusive` — no two writers, no writer beside a reader, and the counters are what their names say;
* `quiesces` — from every reachable state the threads can all get out.
-/

namespace P1Server.RWAutoLock
open Lib

/-- The next atomic step of a thread. -/
inductive Pc
  | out
  | testWrite | incRead | recheck | backOff | reading
  | incWrite | enter | testRead | writing | decWrite
  deriving DecidableEq

structure State (n : Nat) where
  pc : Fin n → Pc
  cs : Option (Fin n)
  readRefCount : BitVec 32
  writeRefCount : BitVec 32

/-- A thread calls `ReadLock` or `WriteLock`, or goes on. -/
inductive Act (n : Nat)
  | readLock (t : Fin n)
  | writeLock (t : Fin n)
  | run (t : Fin n)

variable {n : Nat} {s s' : State n}

def State.goto (s : State n) (t : Fin n) (p : Pc) : State n := { s with pc := Function.update s.pc t p }

def step (s : State n) : Act n → Option (State n)
  | .readLock t => if s.pc t = .out then some (s.goto t .testWrite) else none
  | .writeLock t => if s.pc t = .out then some (s.goto t .incWrite) else none
  | .run t =>
    match s.pc t with
    | .out => none
    -- ReadLock
    | .testWrite => some (s.goto t (if s.writeRefCount = 0 then .incRead else .testWrite))
    | .incRead => some { s.goto t .recheck with readRefCount := s.readRefCount + 1 }
    | .recheck => some (s.goto t (if s.writeRefCount = 0 then .reading else .backOff))
    | .backOff => some { s.goto t .testWrite with readRefCount := s.readRefCount - 1 }
    -- ReadUnLock
    | .reading => some { s.goto t .out with readRefCount := s.readRefCount - 1 }
    -- WriteLock
    | .incWrite => some { s.goto t .enter with writeRefCount := s.writeRefCount + 1 }
    | .enter => if s.cs = none then some { s.goto t .testRead with cs := some t } else none
    | .testRead => some (s.goto t (if s.readRefCount = 0 then .writing else .testRead))
    -- WriteUnlock
    | .writing => some { s.goto t .decWrite with cs := none }
    | .decWrite => some { s.goto t .out with writeRefCount := s.writeRefCount - 1 }

def sys (n : Nat) : Sys (State n) (Act n) where
  init s := s = ⟨fun _ => .out, none, 0, 0⟩
  step := step

/-! ## What the counters and the critical section say -/

/-- Between the increment and the decrement of `_ReadRefCount`. -/
def inRead : Pc → Bool
  | .recheck | .backOff | .reading => true
  | _ => false

/-- Between the increment and the decrement of `_WriteRefCount`. -/
def inWrite : Pc → Bool
  | .enter | .testRead | .writing | .decWrite => true
  | _ => false

/-- Between `EnterCriticalSection` and `LeaveCriticalSection`. -/
def inside : Pc → Bool
  | .testRead | .writing => true
  | _ => false

structure Inv (s : State n) : Prop where
  read : s.readRefCount = BitVec.ofNat 32 (atPlaces inRead s.pc)
  write : s.writeRefCount = BitVec.ofNat 32 (atPlaces inWrite s.pc)
  owner : ∀ t, inside (s.pc t) = true ↔ s.cs = some t

/-- A counter that moves with the thread still counts the threads. -/
theorem counts_goto {p : Pc → Bool} {pc : Fin n → Pc} {c c' : BitVec 32} {t : Fin n} {q : Pc}
    (h : c = BitVec.ofNat 32 (atPlaces p pc))
    (hc : c' + (if p (pc t) then 1 else 0) = c + if p q then 1 else 0) :
    c' = BitVec.ofNat 32 (atPlaces p (Function.update pc t q)) := by
  have hb := congrArg (BitVec.ofNat 32) (atPlaces_update p pc t q)
  simp only [BitVec.ofNat_add, apply_ite (BitVec.ofNat 32), ← h] at hb
  exact (BitVec.add_left_inj _).1 (hc.trans hb.symm)

theorem Inv.goto (h : Inv s) {t : Fin n} {q : Pc} (hpc : s'.pc = Function.update s.pc t q)
    (hr : s'.readRefCount + (if inRead (s.pc t) then 1 else 0) = s.readRefCount + if inRead q then 1 else 0)
    (hw : s'.writeRefCount + (if inWrite (s.pc t) then 1 else 0) = s.writeRefCount + if inWrite q then 1 else 0)
    (ho : s'.cs = if inside q then some t else if inside (s.pc t) then none else s.cs)
    (hf : inside q = true → inside (s.pc t) = true ∨ s.cs = none) : Inv s' := by
  refine ⟨hpc ▸ counts_goto h.read hr, hpc ▸ counts_goto h.write hw, ?_⟩
  intro u
  have ht := h.owner t
  have hu := h.owner u
  rw [hpc, ho]
  by_cases hut : u = t
  · subst hut
    rw [Function.update_self]
    grind
  · rw [Function.update_of_ne hut]
    grind

theorem Inv.step (h : Inv s) {a : Act n} (he : step s a = some s') : Inv s' := by
  cases a with
  | readLock t =>
    obtain ⟨ht, ⟨⟩⟩ := Option.ite_none_right_eq_some.1 he
    apply h.goto (t := t) rfl <;> simp [State.goto, ht, inRead, inWrite, inside]
  | writeLock t =>
    obtain ⟨ht, ⟨⟩⟩ := Option.ite_none_right_eq_some.1 he
    apply h.goto (t := t) rfl <;> simp [State.goto, ht, inRead, inWrite, inside]
  | run t =>
    simp only [RWAutoLock.step] at he
    have hcs : s.pc t = .testRead → s.cs = some t := fun ht => (h.owner t).1 (by rw [ht]; rfl)
    cases ht : s.pc t <;> rw [ht] at he
    case out => cases he
    case enter =>
      obtain ⟨hfree, ⟨⟩⟩ := Option.ite_none_right_eq_some.1 he
      apply h.goto (t := t) rfl <;> simp [State.goto, ht, hfree, inRead, inWrite, inside]
    case testWrite | recheck | testRead =>
      dsimp only at he
      split at he <;> cases he <;> apply h.goto (t := t) rfl <;>
        simp_all [State.goto, inRead, inWrite, inside]
    all_goals
      cases he
      apply h.goto (t := t) rfl <;> simp [State.goto, ht, inRead, inWrite, inside]

theorem inv (h : (sys n).Reachable s) : Inv s := by
  refine Sys.Reachable.inv ?_ (fun s a s' hi he => hi.step he) h
  intro s hs
  subst hs
  refine ⟨?_, ?_, ?_⟩
  · simp [atPlaces, inRead]
  · simp [atPlaces, inWrite]
  · simp [inside]

/-! ## Exclusion -/

/-- At most one thread holds the write lock, none holds a read lock beside it, the counters count, and are 0 when
every thread is out. -/
structure Exclusive (s : State n) : Prop where
  writers : ∀ t u, s.pc t = .writing → s.pc u = .writing → t = u
  readers : ∀ t u, s.pc t = .writing → s.pc u ≠ .reading
  readRefCount : s.readRefCount.toInt = atPlaces inRead s.pc
  writeRefCount : s.writeRefCount.toInt = atPlaces inWrite s.pc
  outside : (∀ t, s.pc t = .out) → s.readRefCount = 0 ∧ s.writeRefCount = 0

theorem toInt_atPlaces (hn : n < 2 ^ 31) (p : Pc → Bool) (pc : Fin n → Pc) :
    (BitVec.ofNat 32 (atPlaces p pc)).toInt = atPlaces p pc := by
  have hle : atPlaces p pc ≤ n := by simpa using atPlaces_le p pc
  rw [BitVec.toInt_ofNat', Int.bmod_eq_of_le (by omega) (by omega)]

/-- A counted thread shows in the counter. -/
theorem counter_ne_zero (hn : n < 2 ^ 31) {p : Pc → Bool} {pc : Fin n → Pc} {c : BitVec 32}
    (hc : c = BitVec.ofNat 32 (atPlaces p pc)) {t : Fin n} (ht : p (pc t) = true) : c ≠ 0 := by
  intro hz
  have hi := toInt_atPlaces hn p pc
  rw [← hc, hz] at hi
  have hpos := atPlaces_pos ht
  simp at hi
  omega

/-- One thread moves, to `writing` or `reading` only when it has seen the others' counter at 0. -/
theorem step_goto {a : Act n} (he : step s a = some s') :
    ∃ t q, s'.pc = Function.update s.pc t q ∧ (q = .writing → s.readRefCount = 0) ∧
      (q = .reading → s.writeRefCount = 0) := by
  cases a with
  | readLock t | writeLock t =>
    obtain ⟨-, ⟨⟩⟩ := Option.ite_none_right_eq_some.1 he
    exact ⟨t, _, rfl, by simp, by simp⟩
  | run t =>
    simp only [step] at he
    cases ht : s.pc t <;> rw [ht] at he <;> dsimp only at he
    case out => cases he
    case enter =>
      obtain ⟨-, ⟨⟩⟩ := Option.ite_none_right_eq_some.1 he
      exact ⟨t, _, rfl, by simp, by simp⟩
    case testWrite | recheck | testRead =>
      split at he <;> cases he <;> exact ⟨t, _, rfl, by simp [*], by simp [*]⟩
    all_goals
      cases he
      exact ⟨t, _, rfl, by simp, by simp⟩

/-- No reader beside a writer. -/
def Apart (s : State n) : Prop := ∀ t u, s.pc t = .writing → s.pc u ≠ .reading

theorem Apart.step (hn : n < 2 ^ 31) (hi : Inv s) (h : Apart s) {a : Act n} (he : step s a = some s') : Apart s' := by
  obtain ⟨t, q, hpc, hw, hr⟩ := step_goto he
  intro u v hu hv
  rw [hpc] at hu hv
  rcases at_update hu with ⟨-, hu⟩ | ⟨-, hu⟩ <;> rcases at_update hv with ⟨-, hv⟩ | ⟨-, hv⟩
  · rw [hu] at hv
    cases hv
  · exact counter_ne_zero hn hi.read (t := v) (by rw [hv]; rfl) (hw hu)
  · exact counter_ne_zero hn hi.write (t := u) (by rw [hu]; rfl) (hr hv)
  · exact h u v hu hv

theorem apart (hn : n < 2 ^ 31) (h : (sys n).Reachable s) : Apart s := by
  refine Sys.Reach.inv_of (fun s => inv) ?_ (fun s a s' hi _ ha _ he => ha.step hn hi he) h
  intro s hs
  subst hs
  intro t u ht
  cases ht

/-- **Reader/writer exclusion.** -/
theorem exclusive (hn : n < 2 ^ 31) (h : (sys n).Reachable s) : Exclusive s := by
  have hi := inv h
  refine ⟨?_, apart hn h, ?_, ?_, ?_⟩
  · intro t u ht hu
    have hto := (hi.owner t).1 (by rw [ht]; rfl)
    have huo := (hi.owner u).1 (by rw [hu]; rfl)
    exact Option.some.inj (hto.symm.trans huo)
  · rw [hi.read]
    exact toInt_atPlaces hn _ _
  · rw [hi.write]
    exact toInt_atPlaces hn _ _
  · intro hout
    have hr : atPlaces inRead s.pc = 0 := atPlaces_zero.2 fun t => by rw [hout t]; rfl
    have hw : atPlaces inWrite s.pc = 0 := atPlaces_zero.2 fun t => by rw [hout t]; rfl
    exact ⟨by rw [hi.read, hr]; rfl, by rw [hi.write, hw]; rfl⟩

/-- A reader that has backed off, and a writer in. -/
theorem exclusive_two : ∃ s : State 2, (sys 2).Reachable s ∧ s.pc 0 = .backOff ∧ s.pc 1 = .testRead ∧
    s.readRefCount = 1 ∧ Exclusive s :=
  have hr : (sys 2).Reachable _ := Sys.Reachable.run [.readLock 0, .run 0, .run 0, .writeLock 1, .run 1, .run 1, .run 0]
    (.init rfl) rfl
  ⟨_, hr, rfl, rfl, rfl, exclusive (by decide) hr⟩

/-! ## The way out -/

/-- Steps left of the part of `ReadLock` and `ReadUnLock` that has been counted, or is about to be. -/
def readSteps : Pc → Nat
  | .incRead => 3
  | .recheck => 2
  | .backOff | .reading => 1
  | _ => 0

def writeSteps : Pc → Nat
  | .incWrite => 5
  | .enter => 4
  | .testRead => 3
  | .writing => 2
  | .decWrite => 1
  | _ => 0

/-- Steps left of a reader when no writer is there. -/
def freeReadSteps : Pc → Nat
  | .backOff => 5
  | .testWrite => 4
  | p => readSteps p

/-- All threads are outside, and the lock is as at the start. -/
structure Quiet (s : State n) : Prop where
  out : ∀ t, s.pc t = .out
  cs : s.cs = none
  readRefCount : s.readRefCount = 0
  writeRefCount : s.writeRefCount = 0

def isRun : Act n → Prop
  | .run _ => True
  | _ => False

/-- The threads have nothing left to do of the kind `g`, and the lock says so. -/
def Done (g : Pc → Nat) (s : State n) : Prop := Inv s ∧ ∀ t, g (s.pc t) = 0

/-- The step of one thread lowers the measure of a phase and keeps what the phases before have reached. -/
theorem lower {g m : Pc → Nat} (h : Done g s) {t : Fin n} {q : Pc} (he : step s (.run t) = some s')
    (hpc : s'.pc = Function.update s.pc t q) (hq : g q = 0) (hm : m q < m (s.pc t)) :
    ∃ a s', isRun a ∧ (sys n).step s a = some s' ∧ Done g s' ∧ weigh m s'.pc < weigh m s.pc := by
  refine ⟨.run t, s', trivial, he, ⟨h.1.step he, ?_⟩, hpc ▸ weigh_lt hm⟩
  intro u
  rw [hpc]
  by_cases hut : u = t
  · rw [hut, Function.update_self]
    exact hq
  · rw [Function.update_of_ne hut]
    exact h.2 u

theorem exists_of_weigh {m : Pc → Nat} (h : weigh m s.pc ≠ 0) : ∃ t, m (s.pc t) ≠ 0 := by
  by_contra hn
  exact h (weigh_zero.2 fun t => by_contra fun ht => hn ⟨t, ht⟩)

/-- Readers that are counted release or back off, whatever the writers do. -/
theorem readers_back (h : Inv s) : (sys n).Leads isRun (Done readSteps) s := by
  have hd := Sys.drain (M := sys n) (A := isRun) (P := Done fun _ => 0) (fun s => weigh readSteps s.pc)
    (fun s hs hm => ?_) (s := s) ⟨h, fun _ => rfl⟩
  · exact hd.trans fun u hu => ⟨[], u, by simp, rfl, hu.1.1, weigh_zero.1 hu.2⟩
  · obtain ⟨t, ht⟩ := exists_of_weigh hm
    cases hp : s.pc t <;> rw [hp] at ht <;> try exact absurd rfl ht
    case recheck =>
      by_cases hw : s.writeRefCount = 0 <;>
        exact lower hs (t := t) (by simp only [step, hp, hw]; rfl) rfl rfl (by rw [hp]; decide)
    all_goals exact lower hs (t := t) (by simp only [step, hp]; rfl) rfl rfl (by rw [hp]; decide)

/-- Without counted readers the owner of the critical section gets out, and then the others in turn. -/
theorem writers_out (h : Done readSteps s) : (sys n).Leads isRun (Done writeSteps) s := by
  refine (Sys.drain (M := sys n) (A := isRun) (P := Done readSteps) (fun s => weigh writeSteps s.pc)
    (fun s hs hm => ?_) h).trans fun u hu => ⟨[], u, by simp, rfl, hu.1.1, weigh_zero.1 hu.2⟩
  have hr : s.readRefCount = 0 := by
    rw [hs.1.read, atPlaces_zero.2 fun t => ?_]
    · rfl
    · have ht := hs.2 t
      cases hp : s.pc t <;> rw [hp] at ht <;> first | rfl | cases ht
  cases hcs : s.cs with
  | some t =>
    have ht := (hs.1.owner t).2 hcs
    cases hp : s.pc t <;> rw [hp] at ht <;> try exact absurd ht (by decide)
    case testRead => exact lower hs (t := t) (by simp only [step, hp, hr]; rfl) rfl rfl (by rw [hp]; decide)
    case writing => exact lower hs (t := t) (by simp only [step, hp]; rfl) rfl rfl (by rw [hp]; decide)
  | none =>
    obtain ⟨t, ht⟩ := exists_of_weigh hm
    have hn : ¬ inside (s.pc t) = true := fun hi => by
      rw [(hs.1.owner t).1 hi] at hcs
      cases hcs
    cases hp : s.pc t <;> rw [hp] at ht hn <;> try first | exact absurd rfl ht | exact absurd rfl hn
    case enter => exact lower hs (t := t) (by simp only [step, hp, hcs]; rfl) rfl rfl (by rw [hp]; decide)
    all_goals exact lower hs (t := t) (by simp only [step, hp]; rfl) rfl rfl (by rw [hp]; decide)

/-- Without writers every reader gets through. -/
theorem readers_out (h : Done writeSteps s) :
    (sys n).Leads isRun (fun u => Done writeSteps u ∧ weigh freeReadSteps u.pc = 0) s := by
  refine Sys.drain (M := sys n) (A := isRun) (fun s => weigh freeReadSteps s.pc) ?_ h
  intro s hs hm
  have hw : s.writeRefCount = 0 := by
    rw [hs.1.write, atPlaces_zero.2 fun t => ?_]
    · rfl
    · have ht := hs.2 t
      cases hp : s.pc t <;> rw [hp] at ht <;> first | rfl | cases ht
  obtain ⟨t, ht⟩ := exists_of_weigh hm
  cases hp : s.pc t <;> rw [hp] at ht <;> try exact absurd rfl ht
  case testWrite | recheck => exact lower hs (t := t) (by simp only [step, hp, hw]; rfl) rfl rfl (by rw [hp]; decide)
  all_goals exact lower hs (t := t) (by simp only [step, hp]; rfl) rfl rfl (by rw [hp]; decide)

theorem Done.quiet (hw : Done writeSteps s) (hr : weigh freeReadSteps s.pc = 0) : Quiet s := by
  have hout : ∀ t, s.pc t = .out := fun t => by
    have ht := weigh_zero.1 hr t
    have hu := hw.2 t
    cases hp : s.pc t <;> rw [hp] at ht hu <;>
      first | rfl | exact absurd ht (by decide) | exact absurd hu (by decide)
  refine ⟨hout, ?_, ?_, ?_⟩
  · cases hcs : s.cs with
    | none => rfl
    | some t =>
      have ht := (hw.1.owner t).2 hcs
      rw [hout t] at ht
      cases ht
  · rw [hw.1.read, atPlaces_zero.2 fun t => by rw [hout t]; rfl]
    rfl
  · rw [hw.1.write, atPlaces_zero.2 fun t => by rw [hout t]; rfl]
    rfl

/-- **No deadlock.** From every reachable state the threads can finish what they are at, without a new call. -/
theorem quiesces (h : (sys n).Reachable s) : (sys n).Leads isRun Quiet s :=
  (((readers_back (inv h)).trans fun _ => writers_out).trans fun _ => readers_out).trans
    fun u hu => ⟨[], u, by simp, rfl, hu.1.quiet hu.2⟩

/-- Two writers and a reader, none of them out. -/
theorem quiesces_three : ∃ s : State 3, (sys 3).Reachable s ∧ s.pc 0 = .recheck ∧ s.pc 1 = .testRead ∧
    s.pc 2 = .enter ∧ (sys 3).Leads isRun Quiet s :=
  have hr : (sys 3).Reachable _ := Sys.Reachable.run [.readLock 0, .run 0, .run 0, .writeLock 1, .run 1, .run 1, .run 1,
    .writeLock 2, .run 2] (.init rfl) rfl
  ⟨_, hr, rfl, rfl, rfl, quiesces hr⟩

end P1Server.RWAutoLock
