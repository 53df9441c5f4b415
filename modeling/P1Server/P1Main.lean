import P1Server.Lib.Sys
import P1Server.Lib.Threads
import Mathlib.Data.List.Perm.Subperm
import Mathlib.Data.List.Range
import Mathlib.Tactic.Zify

/-!
# `P1/P1_main.cpp`: threads that take their samples from a common index

| here | there |
| --- | --- |
| `Pc`                      | the thread function (`P1_main.cpp:25-36`): `fetch` and `count` are the accesses to the two atomics |
| `MainPc`                  | `main`: the loop that starts the threads (`:23-37`), the loop that joins them (`:39-42`), the output (`:44`) |
| `fetchAdd`                | `fetch_add(1)` and `++` of an `std::atomic<int>`, which wrap |
| `State.processed`         | the indices `ProcessData` has been called for, in this order |
| `data`, `ProcessData`     | `:18-21`, `:6-11`: there 0, 1, …, 999, so that `data.length` is `samples`, and always true |

`n` is what `std::thread::hardware_concurrency()` returns. An index that is not in `data` has no step.

* `inv` — every index below `currentIndex` has been processed or is in the hand of one thread;
* `handed_once` — no sample is processed twice, and the index runs past the end by at most one for a thread;
* `prints` — whatever the order of the steps, `main` gets to its output, and what it prints counts every sample.
-/

namespace P1Server.P1Main
open Lib

/-- The next atomic step of a thread. -/
inductive Pc
  | idle
  | fetch
  | test (index : Int)
  | work (index : Int)
  | count
  | ended
  deriving DecidableEq

inductive MainPc
  | create (i : Nat)
  | join (i : Nat)
  | printed (result : Int)
  deriving DecidableEq

structure State (n : Nat) where
  pc : Fin n → Pc
  main : MainPc
  currentIndex : Int
  result : Int
  processed : List Int

inductive Act (n : Nat)
  | main
  | thread (t : Fin n)

def fetchAdd (x : Int) : Int := (x + 1).bmod (2 ^ 32)

section
variable {D : Type} (data : List D) (ProcessData : D → Bool) {n : Nat}

def State.goto (s : State n) (t : Fin n) (p : Pc) : State n := { s with pc := Function.update s.pc t p }

/-- `data[index]`. -/
def dataAt (index : Int) : Option D := if 0 ≤ index then data[index.toNat]? else none

def stepMain (s : State n) : Option (State n) :=
  match s.main with
  | .create i =>
    if h : i < n then some { s.goto ⟨i, h⟩ .fetch with main := .create (i + 1) }
    else some { s with main := .join 0 }
  | .join i =>
    if h : i < n then if s.pc ⟨i, h⟩ = .ended then some { s with main := .join (i + 1) } else none
    else some { s with main := .printed s.result }
  | .printed _ => none

def stepThread (s : State n) (t : Fin n) : Option (State n) :=
  match s.pc t with
  | .idle | .ended => none
  | .fetch => some { s.goto t (.test s.currentIndex) with currentIndex := fetchAdd s.currentIndex }
  | .test index =>
    if index ≥ data.length then some (s.goto t .ended)
    else (dataAt data index).map fun _ => { s.goto t (.work index) with processed := s.processed ++ [index] }
  | .work index => (dataAt data index).map fun d => s.goto t (if ProcessData d then .count else .fetch)
  | .count => some { s.goto t .fetch with result := fetchAdd s.result }

def step (s : State n) : Act n → Option (State n)
  | .main => stepMain s
  | .thread t => stepThread data ProcessData s t

def start (n : Nat) : State n := ⟨fun _ => .idle, .create 0, 0, 0, []⟩

def sys (n : Nat) : Sys (State n) (Act n) where
  init s := s = start n
  step := step data ProcessData

/-! ## Who has which index -/

/-- A thread whose index is past the end. -/
def past : Pc → Bool
  | .test index => decide (index ≥ data.length)
  | .ended => true
  | _ => false

/-- The samples `ProcessData` is true of. -/
def good (index : Int) : Bool := (dataAt data index).any ProcessData

/-- A call of `ProcessData` that returns true and is not in `result` yet. -/
def uncounted : Pc → Bool
  | .work index => good data ProcessData index
  | .count => true
  | _ => false

/-- How far `main` is: which threads it has started, and which it has seen end. -/
def MainAt (main : MainPc) (pc : Fin n → Pc) : Prop :=
  match main with
  | .create i => i ≤ n ∧ ∀ t, pc t = .idle ↔ i ≤ t.val
  | .join i => i ≤ n ∧ (∀ t, pc t ≠ .idle) ∧ ∀ t, t.val < i → pc t = .ended
  | .printed _ => ∀ t, pc t = .ended

structure Inv (s : State n) : Prop where
  main : MainAt s.main s.pc
  output : ∀ r, s.main = .printed r → r = s.result
  nonneg : 0 ≤ s.currentIndex ∧ 0 ≤ s.result
  bound : s.currentIndex ≤ data.length + atPlaces (past data) s.pc
  hand : ∀ t i, s.pc t = .test i → 0 ≤ i ∧ i < s.currentIndex
  work : ∀ t i, s.pc t = .work i → 0 ≤ i ∧ i < data.length
  ended : ∀ t, s.pc t = .ended → data.length ≤ s.currentIndex
  processed : ∀ i ∈ s.processed, 0 ≤ i ∧ i < data.length
  each : ∀ i : Int, 0 ≤ i → i < data.length →
    s.processed.count i + atPlaces (fun p => decide (p = .test i)) s.pc = if i < s.currentIndex then 1 else 0
  working : ∀ i, atPlaces (fun p => decide (p = .work i)) s.pc ≤ s.processed.count i
  counted : (s.processed.countP (good data ProcessData) : Int) =
    s.result + atPlaces (uncounted data ProcessData) s.pc

end

variable {D : Type} {data : List D} {ProcessData : D → Bool} {n : Nat} {s s' : State n}

theorem dataAt_isSome {i : Int} (h0 : 0 ≤ i) (h : i < data.length) : ∃ d, dataAt data i = some d := by
  refine ⟨data[i.toNat], ?_⟩
  rw [dataAt, if_pos h0, List.getElem?_eq_getElem]

/-- A thread that has started and not ended moves on, and `main` does not notice. -/
theorem MainAt.goto {main : MainPc} {pc : Fin n → Pc} (h : MainAt main pc) {t : Fin n} {q : Pc} (hi : pc t ≠ .idle)
    (he : pc t ≠ .ended) (hq : q ≠ .idle) : MainAt main (Function.update pc t q) := by
  cases main with
  | create i =>
    refine ⟨h.1, ?_⟩
    intro u
    rw [← h.2 u]
    by_cases hut : u = t
    · subst hut
      simp [hi, hq]
    · simp [hut]
  | join i =>
    refine ⟨h.1, ?_, ?_⟩
    · intro u hu
      rcases at_update hu with ⟨-, hu⟩ | ⟨-, hu⟩
      · exact hq hu
      · exact h.2.1 u hu
    · intro u hu
      have := h.2.2 u hu
      rw [Function.update_of_ne]
      · exact this
      · intro hut
        exact he (hut ▸ this)
  | printed r => exact absurd (h t) he

theorem fetchAdd_eq {x : Int} (h0 : 0 ≤ x) (h : x < 2 ^ 31 - 1) : fetchAdd x = x + 1 :=
  Int.bmod_eq_of_le (by omega) (by omega)

theorem Inv.count_le (h : Inv data ProcessData s) (i : Int) : s.processed.count i ≤ 1 := by
  by_cases hi : i ∈ s.processed
  · have hr := h.processed i hi
    have := h.each i hr.1 hr.2
    split at this <;> omega
  · rw [List.count_eq_zero_of_not_mem hi]
    omega

theorem Inv.nodup (h : Inv data ProcessData s) : s.processed.Nodup := List.nodup_iff_count_le_one.2 h.count_le

theorem Inv.length_le (h : Inv data ProcessData s) : s.processed.length ≤ data.length := by
  have hsub : s.processed ⊆ (List.range data.length).map Int.ofNat := by
    intro i hi
    have hr := h.processed i hi
    refine List.mem_map.2 ⟨i.toNat, List.mem_range.2 (by omega), ?_⟩
    simp [hr.1]
  simpa using (List.subperm_of_subset h.nodup hsub).length_le

theorem Inv.running (h : Inv data ProcessData s) {t : Fin n} {q : Pc} (hi : s.pc t ≠ .idle) (he : s.pc t ≠ .ended)
    (hq : q ≠ .idle) : MainAt s.main (Function.update s.pc t q) ∧ ∀ r, s.main ≠ .printed r := by
  refine ⟨h.main.goto hi he hq, ?_⟩
  intro r hr
  have hm : MainAt (.printed r) s.pc := hr ▸ h.main
  exact he (hm t)

/-- One thread moves: the counts before and after differ by what this thread is counted for. -/
theorem Inv.move (h : Inv data ProcessData s) {t : Fin n} {q : Pc} {main : MainPc} {currentIndex result : Int}
    {processed : List Int} (hmain : MainAt main (Function.update s.pc t q) ∧ ∀ r, main ≠ .printed r)
    (hle : s.currentIndex ≤ currentIndex)
    (hres : s.result ≤ result)
    (hbound : currentIndex ≤ data.length ∨
      currentIndex + (if past data (s.pc t) then 1 else 0) ≤ s.currentIndex + if past data q then 1 else 0)
    (hhand : ∀ i, q = .test i → 0 ≤ i ∧ i < currentIndex) (hwork : ∀ i, q = .work i → 0 ≤ i ∧ i < data.length)
    (hend : q = .ended → data.length ≤ currentIndex)
    (hprocessed : ∀ i ∈ processed, i ∈ s.processed ∨ 0 ≤ i ∧ i < data.length)
    (heach : ∀ i : Int, 0 ≤ i → i < data.length →
      processed.count i + (if i < s.currentIndex then 1 else 0) + (if q = .test i then 1 else 0) =
        s.processed.count i + (if i < currentIndex then 1 else 0) + if s.pc t = .test i then 1 else 0)
    (hworking : ∀ i, s.processed.count i + (if q = .work i then 1 else 0) ≤
      processed.count i + if s.pc t = .work i then 1 else 0)
    (hcounted : (processed.countP (good data ProcessData) : Int) + s.result +
        (if uncounted data ProcessData (s.pc t) then 1 else 0) =
      s.processed.countP (good data ProcessData) + result + if uncounted data ProcessData q then 1 else 0) :
    Inv data ProcessData ⟨Function.update s.pc t q, main, currentIndex, result, processed⟩ := by
  refine ⟨hmain.1, fun r hr => absurd hr (hmain.2 r), ⟨le_trans h.nonneg.1 hle, le_trans h.nonneg.2 hres⟩, ?_, ?_, ?_, ?_, ?_, ?_, ?_, ?_⟩
  · have hc := atPlaces_update (past data) s.pc t q
    have := h.bound
    zify at hc
    simp only
    omega
  · intro u i hu
    rcases at_update hu with ⟨-, hu⟩ | ⟨-, hu⟩
    · exact hhand i hu
    · have := h.hand u i hu
      exact ⟨this.1, lt_of_lt_of_le this.2 hle⟩
  · intro u i hu
    rcases at_update hu with ⟨-, hu⟩ | ⟨-, hu⟩
    · exact hwork i hu
    · exact h.work u i hu
  · intro u hu
    rcases at_update hu with ⟨-, hu⟩ | ⟨-, hu⟩
    · exact hend hu
    · exact le_trans (h.ended u hu) hle
  · intro i hi
    exact (hprocessed i hi).elim (h.processed i) id
  · intro i h0 hi
    have hc := atPlaces_update (fun p => decide (p = .test i)) s.pc t q
    have := h.each i h0 hi
    have := heach i h0 hi
    simp only [decide_eq_true_eq] at hc ⊢
    omega
  · intro i
    have hc := atPlaces_update (fun p => decide (p = .work i)) s.pc t q
    have := h.working i
    have := hworking i
    simp only [decide_eq_true_eq] at hc ⊢
    omega
  · have hc := atPlaces_update (uncounted data ProcessData) s.pc t q
    have := h.counted
    zify at hc
    simp only
    omega

/-- A thread that has not ended finds room for one more in the counter. -/
theorem fetch_succ (hn : data.length + n < 2 ^ 31) (h : Inv data ProcessData s) {t : Fin n} (ht : s.pc t = .fetch) :
    fetchAdd s.currentIndex = s.currentIndex + 1 := by
  have hbound := h.bound
  have hlt : atPlaces (past data) s.pc < n := by
    have hpast : past data (s.pc t) = false := by rw [ht]; rfl
    simpa using atPlaces_lt hpast
  exact fetchAdd_eq h.nonneg.1 (by omega)

/-- What an access to an atomic changes, and what a thread does with its own index. -/
theorem Inv.stepThread (hn : data.length + n < 2 ^ 31) (h : Inv data ProcessData s) {t : Fin n}
    (he : stepThread data ProcessData s t = some s') : Inv data ProcessData s' := by
  have hbound := h.bound
  have hnonneg := h.nonneg
  unfold P1Main.stepThread State.goto at he
  cases ht : s.pc t with
  | idle | ended =>
    rw [ht] at he
    cases he
  | fetch =>
    rw [ht] at he
    cases he
    rw [fetch_succ hn h ht]
    refine h.move (h.running (by simp [ht]) (by simp [ht]) (by simp)) (by omega) le_rfl ?_ ?_ (by simp) (by simp)
      (fun i hi => .inl hi) ?_ (by simp [ht]) (by simp [ht, uncounted])
    · simp [ht, past]
      omega
    · intro i hi
      cases hi
      exact ⟨hnonneg.1, by omega⟩
    · intro i _ _
      simp [ht]
      split <;> split <;> split <;> omega
  | test index =>
    rw [ht] at he
    have hidx := h.hand t index ht
    simp only at he
    split at he
    case isTrue hge =>
      -- `break`
      cases he
      refine h.move (h.running (by simp [ht]) (by simp [ht]) (by simp)) le_rfl le_rfl ?_ (by simp) (by simp) ?_
        (fun i hi => .inl hi) ?_ (by simp [ht]) (by simp [ht, uncounted])
      · simp [ht, past, hge]
      · intro _
        omega
      · intro i _ hi
        have hne : index ≠ i := by omega
        simp [ht, hne]
    case isFalse hlt =>
      have hlt : index < data.length := by omega
      obtain ⟨d, hd⟩ : ∃ d, dataAt data index = some d := dataAt_isSome hidx.1 hlt
      rw [hd] at he
      cases he
      refine h.move (h.running (by simp [ht]) (by simp [ht]) (by simp)) le_rfl le_rfl ?_ (by simp) ?_ (by simp) ?_ ?_ ?_ ?_
      · simp [ht, past, not_le.2 hlt]
      · intro i hi
        cases hi
        exact ⟨hidx.1, hlt⟩
      · intro i hi
        rcases List.mem_append.1 hi with hi | hi
        · exact .inl hi
        · cases List.mem_singleton.1 hi
          exact .inr ⟨hidx.1, hlt⟩
      · intro i _ _
        simp [ht, List.count_singleton]
        omega
      · intro i
        simp [ht, List.count_singleton]
      · simp [ht, uncounted, List.countP_append, List.countP_singleton]
        exact add_right_comm _ _ _
  | work index =>
    rw [ht] at he
    have hidx := h.work t index ht
    obtain ⟨d, hd⟩ : ∃ d, dataAt data index = some d := dataAt_isSome hidx.1 hidx.2
    simp only [hd, Option.map_some] at he
    cases he
    have hgood : good data ProcessData index = ProcessData d := by simp [good, hd]
    cases hp : ProcessData d with
    | true | false =>
      refine h.move (h.running (by simp [ht]) (by simp [ht]) (by simp)) le_rfl le_rfl (by simp [ht, past]) (by simp) (by simp)
        (by simp) (fun i hi => .inl hi) (by simp [ht]) (by simp [ht]) ?_
      simp [ht, uncounted, hgood, hp]
  | count =>
    rw [ht] at he
    cases he
    have hpos : 0 < atPlaces (uncounted data ProcessData) s.pc := atPlaces_pos (t := t) (by rw [ht]; rfl)
    have hcounted := h.counted
    have hlen := h.length_le
    have hle := List.countP_le_length (p := good data ProcessData) (l := s.processed)
    rw [fetchAdd_eq hnonneg.2 (by omega)]
    refine h.move (h.running (by simp [ht]) (by simp [ht]) (by simp)) le_rfl (by omega) (by simp [ht, past]) (by simp) (by simp)
      (by simp) (fun i hi => .inl hi) (by simp [ht]) (by simp [ht]) ?_
    simp [ht, uncounted]
    omega

theorem Inv.stepMain (h : Inv data ProcessData s) (he : stepMain s = some s') : Inv data ProcessData s' := by
  have hm := h.main
  unfold P1Main.stepMain State.goto at he
  cases hs : s.main with
  | create i =>
    rw [hs] at he hm
    simp only at he
    split at he
    case isTrue hi =>
      cases he
      have ht : s.pc ⟨i, hi⟩ = .idle := (hm.2 _).2 le_rfl
      refine h.move ⟨⟨hi, ?_⟩, by simp⟩ le_rfl le_rfl (by simp [ht, past]) (by simp) (by simp) (by simp)
        (fun i hi => .inl hi) (by simp [ht]) (by simp [ht]) (by simp [ht, uncounted])
      intro u
      by_cases hu : u = ⟨i, hi⟩
      · subst hu
        simp
      · rw [Function.update_of_ne hu, hm.2 u]
        have : u.val ≠ i := fun hv => hu (Fin.ext hv)
        omega
    case isFalse hi =>
      cases he
      refine { h with main := ⟨Nat.zero_le n, ?_, by simp⟩, output := by simp }
      intro u hu
      have := (hm.2 u).1 hu
      omega
  | join i =>
    rw [hs] at he hm
    simp only at he
    split at he
    case isTrue hi =>
      obtain ⟨hend, ⟨⟩⟩ := Option.ite_none_right_eq_some.1 he
      refine { h with main := ⟨hi, hm.2.1, ?_⟩, output := by simp }
      intro u hu
      by_cases hui : u.val < i
      · exact hm.2.2 u hui
      · have : u = ⟨i, hi⟩ := Fin.ext (by simp only; omega)
        rw [this, hend]
    case isFalse hi =>
      cases he
      refine { h with main := ?_, output := by simp }
      intro u
      exact hm.2.2 u (by omega)
  | printed r =>
    rw [hs] at he
    cases he

theorem inv (hn : data.length + n < 2 ^ 31) (h : (sys data ProcessData n).Reachable s) : Inv data ProcessData s := by
  refine Sys.Reachable.inv ?_ ?_ h
  · intro s hs
    subst hs
    refine ⟨⟨Nat.zero_le n, by simp [start]⟩, by simp [start], by simp [start], Int.add_nonneg (by omega) (by omega),
      by simp [start], by simp [start], by simp [start], by simp [start], ?_, ?_, ?_⟩
    · intro i h0 _
      simp [start, atPlaces, not_lt.2 h0]
    · simp [start, atPlaces]
    · simp [start, atPlaces, uncounted]
  · intro s a s' hi he
    cases a with
    | main => exact hi.stepMain he
    | thread t => exact hi.stepThread hn he

/-! ## No sample is processed twice -/

/-- A sample below `currentIndex` has been handed out: to a call of `ProcessData`, or to one thread that is to make it. -/
structure Handed (data : List D) (s : State n) : Prop where
  once : s.processed.Nodup
  inside : ∀ i ∈ s.processed, 0 ≤ i ∧ i < data.length
  alone : ∀ t u i, s.pc t = .work i → s.pc u = .work i → t = u
  taken : ∀ i : Int, 0 ≤ i → i < data.length → (i < s.currentIndex ↔ i ∈ s.processed ∨ ∃ t, s.pc t = .test i)
  single : ∀ t (i : Int), i < data.length → s.pc t = .test i → i ∉ s.processed ∧ ∀ u, s.pc u = .test i → u = t
  bound : 0 ≤ s.currentIndex ∧ s.currentIndex ≤ data.length + n

theorem eq_of_atPlaces {p : Pc} {pc : Fin n → Pc} (h : atPlaces (fun q => decide (q = p)) pc ≤ 1) {t u : Fin n}
    (ht : pc t = p) (hu : pc u = p) : t = u :=
  Finset.card_le_one.1 h t (by simpa using ht) u (by simpa using hu)

/-- **Each sample is handed to one thread.** -/
theorem handed_once (hn : data.length + n < 2 ^ 31) (h : (sys data ProcessData n).Reachable s) : Handed data s := by
  have hi := inv hn h
  have hpast : atPlaces (past data) s.pc ≤ n := by simpa using atPlaces_le (past data) s.pc
  have hbound := hi.bound
  refine ⟨hi.nodup, hi.processed, ?_, ?_, ?_, hi.nonneg.1, by omega⟩
  · intro t u i ht hu
    exact eq_of_atPlaces (le_trans (hi.working i) (hi.count_le i)) ht hu
  · intro i h0 hlt
    have he := hi.each i h0 hlt
    constructor
    · intro hcur
      rw [if_pos hcur] at he
      by_contra hno
      rw [not_or, not_exists] at hno
      rw [List.count_eq_zero_of_not_mem hno.1, atPlaces_zero.2 (by simpa using hno.2)] at he
      omega
    · intro hor
      by_contra hcur
      rw [if_neg hcur] at he
      rcases hor with hp | ⟨t, ht⟩
      · have := List.count_pos_iff.2 hp
        omega
      · have : 0 < atPlaces (fun p => decide (p = .test i)) s.pc := atPlaces_pos (by simpa using ht)
        omega
  · intro t i hlt ht
    have he := hi.each i (hi.hand t i ht).1 hlt
    rw [if_pos (hi.hand t i ht).2] at he
    have hpos : 0 < atPlaces (fun p => decide (p = .test i)) s.pc := atPlaces_pos (by simpa using ht)
    refine ⟨?_, ?_⟩
    · rw [← List.count_eq_zero]
      omega
    · intro u hu
      exact eq_of_atPlaces (by omega) hu ht

theorem handed_once_two : ∃ s, (sys [true, false] id 2).Reachable s ∧ s.pc 0 = .work 0 ∧ s.pc 1 = .test 1 ∧
    Handed [true, false] s := by
  have hrun := Sys.Reachable.run (M := sys [true, false] id 2)
    [.main, .main, .thread 0, .thread 1, .thread 0] (.init rfl) rfl
  exact ⟨_, hrun, rfl, rfl, handed_once (by decide) hrun⟩

/-! ## What is printed -/

theorem countP_range (data : List D) (p : D → Bool) :
    (List.range data.length).countP (fun i => (data[i]?).any p) = data.countP p := by
  induction data with
  | nil => rfl
  | cons d ds ih =>
    rw [List.length_cons, List.range_succ_eq_map, List.countP_cons, List.countP_map, List.countP_cons, ← ih]
    simp [Function.comp_def]

/-- The samples, by their indices. -/
def indices (data : List D) : List Int := (List.range data.length).map Int.ofNat

theorem countP_indices (data : List D) (ProcessData : D → Bool) :
    (indices data).countP (good data ProcessData) = data.countP ProcessData := by
  rw [indices, List.countP_map, ← countP_range data]
  apply List.countP_congr
  intro i _
  simp [good, dataAt]

/-- Once every thread has ended, and there is one, all samples have been processed. -/
theorem Inv.processed_all (h : Inv data ProcessData s) (hpos : 0 < n) (hend : ∀ t, s.pc t = .ended) :
    s.processed.Perm (indices data) := by
  have hcur := h.ended ⟨0, hpos⟩ (hend _)
  have hnodup : (indices data).Nodup := List.nodup_range.map Int.ofNat_injective
  rw [List.perm_ext_iff_of_nodup h.nodup hnodup]
  intro i
  rw [indices, List.mem_map]
  constructor
  · intro hi
    have hr := h.processed i hi
    exact ⟨i.toNat, List.mem_range.2 (by omega), by simp [hr.1]⟩
  · rintro ⟨k, hk, rfl⟩
    have hk := List.mem_range.1 hk
    have he := h.each (Int.ofNat k) (by simp) (by simpa using hk)
    rw [if_pos (by simp only [Int.ofNat_eq_natCast]; omega), atPlaces_zero.2 (by simp [hend])] at he
    exact List.count_pos_iff.1 (by omega)

/-- Where there is no thread nothing is processed. -/
theorem idle_without_threads {s : State 0} (h : (sys data ProcessData 0).Reachable s) : s.result = 0 ∧ s.processed = [] := by
  refine Sys.Reachable.inv (I := fun s => s.result = 0 ∧ s.processed = []) ?_ ?_ h
  · intro s hs
    subst hs
    exact ⟨rfl, rfl⟩
  · intro s a s' hi he
    cases a with
    | thread t => exact t.elim0
    | main =>
      simp only [sys, step, P1Main.stepMain] at he
      split at he
      · cases he
        exact hi
      · cases he
        exact hi
      · cases he

/-- **What is printed** is the number of samples `ProcessData` is true of, each of which has been processed once; it
is 0 where `hardware_concurrency()` returns 0. -/
theorem prints (hn : data.length + n < 2 ^ 31) (h : (sys data ProcessData n).Reachable s) {r : Int}
    (hr : s.main = .printed r) :
    if 0 < n then r = data.countP ProcessData ∧ s.processed.Perm (indices data) else r = 0 ∧ s.processed = [] := by
  have hi := inv hn h
  have hend : ∀ t, s.pc t = .ended := by simpa [MainAt, hr] using hi.main
  rw [hi.output r hr]
  split
  case isTrue hpos =>
    have hall := hi.processed_all hpos hend
    refine ⟨?_, hall⟩
    have hc := hi.counted
    rw [hall.countP_eq, countP_indices, atPlaces_zero.2 (by simp [hend, uncounted])] at hc
    omega
  case isFalse hz =>
    obtain rfl : n = 0 := by omega
    exact idle_without_threads h

theorem prints_two : ∃ s, (sys [true, false] id 1).Reachable s ∧ s.main = .printed 1 ∧
    s.processed.Perm (indices [true, false]) := by
  have hrun := Sys.Reachable.run (M := sys [true, false] id 1)
    [.main, .thread 0, .thread 0, .thread 0, .thread 0, .thread 0, .thread 0, .thread 0, .thread 0, .thread 0, .main,
      .main, .main] (.init rfl) rfl
  exact ⟨_, hrun, rfl, (prints (by decide) hrun rfl).2⟩

/-! ## Every run ends with the output -/

/-- The steps a thread has before it. -/
def weight (data : List D) : Pc → Nat
  | .idle | .fetch => 2
  | .test index => if index < data.length then 5 else 1
  | .work _ => 4
  | .count => 3
  | .ended => 0

def MainPc.weight (n : Nat) : MainPc → Nat
  | .create i => n - i + n + 2
  | .join i => n - i + 1
  | .printed _ => 0

/-- A step more for each sample than its thread counts: the one that takes the index. -/
def rank (data : List D) (s : State n) : Nat :=
  4 * (data.length - s.currentIndex).toNat + weigh (weight data) s.pc + s.main.weight n

/-- A thread that goes on with a smaller weight lowers the rank. -/
theorem rank_goto {t : Fin n} {q : Pc} {result : Int} {processed : List Int}
    (h : weight data q < weight data (s.pc t)) :
    rank data ⟨Function.update s.pc t q, s.main, s.currentIndex, result, processed⟩ < rank data s := by
  have := weigh_lt h
  simp only [rank]
  omega

theorem rank_stepThread (hn : data.length + n < 2 ^ 31) (h : Inv data ProcessData s) {t : Fin n}
    (he : stepThread data ProcessData s t = some s') : rank data s' < rank data s := by
  unfold P1Main.stepThread State.goto at he
  cases ht : s.pc t with
  | idle | ended =>
    rw [ht] at he
    cases he
  | fetch =>
    rw [ht] at he
    cases he
    have hw := weigh_update (weight data) s.pc t (.test s.currentIndex)
    have hf := fetch_succ hn h ht
    simp only [ht, weight] at hw
    simp only [rank, hf]
    split at hw <;> omega
  | test index =>
    rw [ht] at he
    simp only at he
    split at he
    case isTrue hge =>
      cases he
      apply rank_goto
      simp [ht, weight, not_lt.2 hge]
    case isFalse hlt =>
      obtain ⟨d, -, ⟨⟩⟩ := Option.map_eq_some_iff.1 he
      apply rank_goto
      simp only [ht, weight, if_pos (not_le.1 hlt)]
      omega
  | work index =>
    rw [ht] at he
    obtain ⟨d, -, ⟨⟩⟩ := Option.map_eq_some_iff.1 he
    apply rank_goto
    simp only [ht]
    split <;> simp [weight]
  | count =>
    rw [ht] at he
    cases he
    apply rank_goto
    simp [ht, weight]

theorem rank_stepMain (h : Inv data ProcessData s) (he : stepMain s = some s') : rank data s' < rank data s := by
  have hm := h.main
  unfold P1Main.stepMain State.goto at he
  cases hs : s.main with
  | create i =>
    rw [hs] at he hm
    simp only at he
    split at he
    case isTrue hi =>
      cases he
      have ht : s.pc ⟨i, hi⟩ = .idle := (hm.2 _).2 le_rfl
      have hw := weigh_update (weight data) s.pc ⟨i, hi⟩ .fetch
      simp only [ht, weight] at hw
      simp only [rank, hs, MainPc.weight]
      omega
    case isFalse hi =>
      cases he
      simp only [rank, hs, MainPc.weight]
      omega
  | join i =>
    rw [hs] at he
    simp only at he
    split at he
    case isTrue hi =>
      obtain ⟨-, ⟨⟩⟩ := Option.ite_none_right_eq_some.1 he
      simp only [rank, hs, MainPc.weight]
      omega
    case isFalse hi =>
      cases he
      simp only [rank, hs, MainPc.weight]
      omega
  | printed r =>
    rw [hs] at he
    cases he

/-- A thread that is started and has not ended can go on. -/
theorem Inv.enabled (h : Inv data ProcessData s) {t : Fin n} (hi : s.pc t ≠ .idle) (he : s.pc t ≠ .ended) :
    P1Main.stepThread data ProcessData s t ≠ none := by
  unfold P1Main.stepThread
  cases ht : s.pc t with
  | idle => exact absurd ht hi
  | ended => exact absurd ht he
  | fetch | count => simp
  | test index =>
    by_cases hlt : index < data.length
    · obtain ⟨d, hd⟩ := dataAt_isSome (h.hand t index ht).1 hlt
      simp [not_le.2 hlt, hd]
    · simp [not_lt.1 hlt]
  | work index =>
    obtain ⟨d, hd⟩ := dataAt_isSome (h.work t index ht).1 (h.work t index ht).2
    simp [hd]

/-- **Every run ends.** It has no more steps than the four of each sample, the four of each thread (two of its own, its
start and its join) and two of `main`; and where no step is left the number has been printed. -/
theorem main_ends (hn : data.length + n < 2 ^ 31) :
    (∀ as s, (sys data ProcessData n).run (start n) as = some s → as.length ≤ 4 * data.length + 4 * n + 2) ∧
    ∀ s, (sys data ProcessData n).Reachable s → (∀ a, (sys data ProcessData n).step s a = none) →
      ∃ r, s.main = .printed r := by
  refine ⟨?_, ?_⟩
  · intro as s hs
    have hle := Sys.run_length_le (P := Inv data ProcessData) (rank data) ?_ as (inv hn (.init rfl)) hs
    · have h0 : rank data (start n) = 4 * data.length + 4 * n + 2 := by
        simp [rank, start, weigh, weight, MainPc.weight]
        omega
      omega
    · intro s a s' hi he
      cases a with
      | main => exact ⟨hi.stepMain he, rank_stepMain hi he⟩
      | thread t => exact ⟨hi.stepThread hn he, rank_stepThread hn hi he⟩
  · intro s hr hno
    have hi := inv hn hr
    have hmain := hno .main
    have hm := hi.main
    simp only [sys, step, P1Main.stepMain] at hmain
    cases hs : s.main with
    | create i =>
      rw [hs] at hmain
      simp only at hmain
      split at hmain <;> cases hmain
    | join i =>
      rw [hs] at hmain hm
      simp only at hmain
      split at hmain
      case isTrue hlt =>
        split at hmain
        case isTrue => cases hmain
        case isFalse hne => exact absurd (hno (.thread ⟨i, hlt⟩)) (hi.enabled (hm.2.1 _) hne)
      case isFalse => cases hmain
    | printed r => exact ⟨r, rfl⟩

theorem main_ends_two : (∀ as s, (sys [true, false] id 3).run (start 3) as = some s → as.length ≤ 22) ∧
    ∀ s, (sys [true, false] id 3).Reachable s → (∀ a, (sys [true, false] id 3).step s a = none) →
      ∃ r, s.main = .printed r :=
  main_ends (by decide)

end P1Server.P1Main
