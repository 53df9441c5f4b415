import Mathlib.Data.UInt
import P1Server.TimerManager

/-!
# Timers and the clock

`timeGetTime` counts milliseconds modulo 2³². `answers` is what a timer in `TIMER_WAIT` answers to queries at the given
true times, `firings` what it should: that it runs when more than its interval has passed since it last did.

* `answers_eq_iff` — it does so just where the end of the interval lies in the same round of the clock as the query;
* `not_answers_eq` — one that runs after a millisecond, and one that does not run after its interval.
-/

namespace P1Server.TimerManager

def timeGetTime (time : Nat) : UInt32 := UInt32.ofNat time

/-- Queries one after the other. -/
def answers (t : CTimer) : List Nat → List TimerState
  | [] => []
  | time :: times =>
    let r := t.queryExcuteTimer (timeGetTime time)
    r.1 :: answers r.2 times

/-- `t0` after a query, by the true time. -/
def lastFiring (interval t0 time : Nat) : Nat := if interval < time - t0 then time else t0

def firings (interval t0 : Nat) : List Nat → List TimerState
  | [] => []
  | time :: times =>
    (if interval < time - t0 then .run else .wait) :: firings interval (lastFiring interval t0 time) times

/-- Each query comes less than 2³² milliseconds after the firing before it. -/
def Near (interval t0 : Nat) : List Nat → Prop
  | [] => True
  | time :: times => t0 ≤ time ∧ time < t0 + 2 ^ 32 ∧ Near interval (lastFiring interval t0 time) times

/-- No wrap of the clock lies between the query and the end of the interval. -/
def SameRound (interval t0 : Nat) : List Nat → Prop
  | [] => True
  | time :: times =>
    (t0 + interval) / 2 ^ 32 = time / 2 ^ 32 ∧ SameRound interval (lastFiring interval t0 time) times

instance decidableNear (interval : Nat) : ∀ t0 times, Decidable (Near interval t0 times)
  | _, [] => .isTrue trivial
  | t0, time :: times =>
    have := decidableNear interval (lastFiring interval t0 time) times
    inferInstanceAs (Decidable (_ ∧ _ ∧ _))

/-- Comparing modulo `M` is comparing, for two numbers less than a round apart, just if they are in the same one. -/
theorem mod_lt_mod_iff {M a b : Nat} (hab : a < b + M) (hba : b < a + M) :
    ((a % M < b % M) ↔ a < b) ↔ a / M = b / M := by
  have ha := Nat.div_add_mod a M
  have hb := Nat.div_add_mod b M
  have hra := Nat.mod_lt a (show 0 < M by omega)
  have hrb := Nat.mod_lt b (show 0 < M by omega)
  rcases Nat.lt_trichotomy (a / M) (b / M) with h | h | h
  · have hle : M * (a / M) + M ≤ M * (b / M) := by
      simpa [Nat.mul_add] using Nat.mul_le_mul_left M (Nat.succ_le_of_lt h)
    constructor <;> intro <;> omega
  · rw [h] at ha
    constructor <;> intro <;> omega
  · have hle : M * (b / M) + M ≤ M * (a / M) := by
      simpa [Nat.mul_add] using Nat.mul_le_mul_left M (Nat.succ_le_of_lt h)
    constructor <;> intro <;> omega

/-- The comparison of `QueryExcuteTimer`. -/
theorem elapsed_iff (t0 time : Nat) (interval : UInt32) :
    timeGetTime t0 + interval < timeGetTime time ↔ (t0 + interval.toNat) % 2 ^ 32 < time % 2 ^ 32 := by
  rw [UInt32.lt_iff_toNat_lt, UInt32.toNat_add, timeGetTime, timeGetTime, UInt32.toNat_ofNat', UInt32.toNat_ofNat',
    Nat.mod_add_mod]

variable {t : CTimer} {t0 : Nat}

theorem query_runs {time : Nat} (hs : t.state = .wait) (hl : t.lastExcuteTime = timeGetTime t0)
    (h : (t0 + t.interval.toNat) % 2 ^ 32 < time % 2 ^ 32) :
    t.queryExcuteTimer (timeGetTime time) = (.run, { t with lastExcuteTime := timeGetTime time }) := by
  simp only [CTimer.queryExcuteTimer, hs, hl, if_pos ((elapsed_iff t0 time t.interval).2 h)]

theorem query_waits {time : Nat} (hs : t.state = .wait) (hl : t.lastExcuteTime = timeGetTime t0)
    (h : ¬ (t0 + t.interval.toNat) % 2 ^ 32 < time % 2 ^ 32) : t.queryExcuteTimer (timeGetTime time) = (.wait, t) := by
  simp only [CTimer.queryExcuteTimer, hs, hl, if_neg (mt (elapsed_iff t0 time t.interval).1 h)]

/-- **A timer keeps its interval** just where the clock does not wrap between its end and the query. -/
theorem answers_eq_iff {times : List Nat} (hs : t.state = .wait) (hl : t.lastExcuteTime = timeGetTime t0)
    (hn : Near t.interval.toNat t0 times) :
    answers t times = firings t.interval.toNat t0 times ↔ SameRound t.interval.toNat t0 times := by
  induction times generalizing t t0 with
  | nil => simp [answers, firings, SameRound]
  | cons time times ih =>
    obtain ⟨hle, hlt, hn⟩ := hn
    have hi := t.interval.toNat_lt
    have hlate : t.interval.toNat < time - t0 ↔ t0 + t.interval.toNat < time := by omega
    have hround := mod_lt_mod_iff (M := 2 ^ 32) (a := t0 + t.interval.toNat) (b := time) (by omega) (by omega)
    rw [← hlate] at hround
    simp only [answers, firings, SameRound, lastFiring, List.cons.injEq] at hn ⊢
    -- where code and true time agree the rest goes on alike, where they do not both sides are false
    by_cases hcode : (t0 + t.interval.toNat) % 2 ^ 32 < time % 2 ^ 32 <;> by_cases htrue : t.interval.toNat < time - t0
    · have hsame := hround.1 (iff_of_true hcode htrue)
      rw [if_pos htrue] at hn
      rw [query_runs hs hl hcode, if_pos htrue, if_pos htrue, and_iff_right hsame, and_iff_right rfl]
      exact ih hs rfl hn
    · have hwrap : ¬ _ := fun h => htrue ((hround.2 h).1 hcode)
      rw [query_runs hs hl hcode, if_neg htrue]
      exact iff_of_false (fun h => by simp at h) (fun h => hwrap h.1)
    · have hwrap : ¬ _ := fun h => hcode ((hround.2 h).2 htrue)
      rw [query_waits hs hl hcode, if_pos htrue]
      exact iff_of_false (fun h => by simp at h) (fun h => hwrap h.1)
    · have hsame := hround.1 (iff_of_false hcode htrue)
      rw [if_neg htrue] at hn
      rw [query_waits hs hl hcode, if_neg htrue, if_neg htrue, and_iff_right hsame, and_iff_right rfl]
      exact ih hs hl hn

/-- The clock wraps before the first query. -/
theorem answers_eq_iff_wrap : answers ⟨0, 1, 0, 0, 10, 0, 2 ^ 32 - 5, .wait⟩ [2 ^ 32 + 3, 2 ^ 32 + 6] = [.wait, .run] ↔
    SameRound 10 (2 ^ 32 - 5) [2 ^ 32 + 3, 2 ^ 32 + 6] :=
  answers_eq_iff (t := ⟨0, 1, 0, 0, 10, 0, 2 ^ 32 - 5, .wait⟩) rfl rfl (by decide)

/-- A timer whose interval ends past the wrap runs a millisecond after it last did; one that is queried past the wrap
does not run after its interval. -/
theorem not_answers_eq : ¬ (∀ (t : CTimer) (t0 : Nat) (times : List Nat), t.state = .wait →
      t.lastExcuteTime = timeGetTime t0 → Near t.interval.toNat t0 times →
      answers t times = firings t.interval.toNat t0 times) ∧
    answers ⟨0, 1, 0, 0, 10, 0, 2 ^ 32 - 5, .wait⟩ [2 ^ 32 - 4] = [.run] ∧
    answers ⟨0, 1, 0, 0, 10, 0, 2 ^ 32 - 20, .wait⟩ [2 ^ 32 + 1] = [.wait] := by
  refine ⟨fun h => ?_, by decide, by decide⟩
  have early := h ⟨0, 1, 0, 0, 10, 0, 2 ^ 32 - 5, .wait⟩ (2 ^ 32 - 5) [2 ^ 32 - 4] rfl rfl (by decide)
  exact absurd early (by decide)

end P1Server.TimerManager
