import Mathlib.Algebra.BigOperators.Fin
import P1Server.UdpServer

/-!
# What failures cost `UdpServer`

A worker gets nothing to do for a receive that has completed with an error (`IO_Service.cpp:45-48`), and nobody looks at
the result of `WSARecvFrom` (`UdpServer.cpp:21`, `:69`).

* **`capacity`** — each failure costs one slot, and nothing else does; the server stops just when there have been as
  many as it has slots.
-/

namespace P1Server.UdpServer
open Lib IoService

variable {N : Nat} {s s' : State N}

/-- The receives of all slots, wherever they are. -/
def total (s : State N) : Nat := ∑ j, live s j

/-- The failures: a receive that does not start, and a completion that is not dispatched. -/
def failures (s : State N) : Act N → List (Act N)
  | .init .failed => [.init .failed]
  | .run w => match s.pc w with
    | .got _ false => [.run w]
    | _ => []
  | .callBack w .failed => [.callBack w .failed]
  | _ => []

/-- The worker handles a completion. -/
def busy : Pc N → Nat
  | .waiting => 0
  | .got _ _ | .callBack _ => 1

theorem sum_handles (p : Pc N) : ∑ j, (if handles j p = true then 1 else 0) = busy p := by
  cases p <;> simp [handles, busy]

theorem total_goto (s : State N) (w : Fin (N + 2)) (p : Pc N) : total (s.goto w p) + busy (s.pc w) = total s + busy p := by
  rw [total, total, ← sum_handles, ← sum_handles, ← Finset.sum_add_distrib, ← Finset.sum_add_distrib]
  exact Finset.sum_congr rfl fun j _ => live_goto w p j

theorem total_recv (s : State N) (i : Fin N) {r : Result} (hr : r ≠ .failed) : total (s.recv i r) = total s + 1 := by
  rw [total, Finset.sum_congr rfl fun j _ => live_recv i j hr, Finset.sum_add_distrib]
  simp [total]

theorem next_recv (s : State N) (i : Fin N) (r : Result) : (s.recv i r).next = s.next := by
  cases r <;> rfl

/-- **A failure costs one slot**, a turn of `initServer` brings one, and the other steps move them. -/
theorem total_step {a : Act N} (he : step s a = some s') :
    total s' + (failures s a).length + s.next = total s + s'.next ∧ s'.next ≤ max s.next N := by
  cases a with
  | init r =>
    simp only [step] at he
    split at he
    case isFalse => cases he
    case isTrue hlt =>
      cases he
      have hnext : max s.next N = N := max_eq_right hlt.le
      refine ⟨?_, by rw [hnext]; exact hlt⟩
      show total (s.recv ⟨s.next, hlt⟩ r) + _ + _ = _ + (s.next + 1)
      by_cases hr : r = .failed
      · subst hr
        simp only [State.recv, failures, List.length_singleton]
        omega
      · rw [total_recv s _ hr]
        cases r with
        | failed => exact absurd rfl hr
        | pending | completed =>
          simp only [failures, List.length_nil]
          omega
  | arrive i a =>
    obtain ⟨hi, ⟨⟩⟩ := Option.ite_none_right_eq_some.1 he
    refine ⟨?_, le_max_left ..⟩
    rw [total, Finset.sum_congr rfl fun j _ => live_arrive hi a.bSuccess j]
    rfl
  | get w c =>
    obtain ⟨⟨hw, hc⟩, ⟨⟩⟩ := Option.ite_none_right_eq_some.1 he
    refine ⟨?_, le_max_left ..⟩
    rw [total, Finset.sum_congr rfl fun j _ => live_get hw hc j]
    rfl
  | run w =>
    simp only [step] at he
    split at he
    case h_2 => cases he
    case h_1 i b hw =>
      cases b with
      | true =>
        cases he
        have hg := total_goto s w (.callBack i)
        rw [hw] at hg
        refine ⟨?_, le_max_left ..⟩
        simp only [failures, hw, List.length_nil]
        simp only [busy] at hg
        simp only [State.goto] at hg ⊢
        omega
      | false =>
        cases he
        have hg := total_goto s w .waiting
        rw [hw] at hg
        refine ⟨?_, le_max_left ..⟩
        simp only [failures, hw, List.length_singleton]
        simp only [busy] at hg
        simp only [State.goto] at hg ⊢
        omega
  | callBack w r =>
    simp only [step] at he
    split at he
    case h_2 => cases he
    case h_1 i hw =>
      cases he
      have hg := total_goto s w .waiting
      rw [hw] at hg
      simp only [busy] at hg
      have hn : ((s.goto w .waiting).recv i r).next = s.next := next_recv ..
      refine ⟨?_, hn.symm ▸ le_max_left ..⟩
      rw [hn]
      by_cases hr : r = .failed
      · subst hr
        simp only [State.recv, failures, List.length_singleton]
        omega
      · rw [total_recv _ _ hr]
        cases r with
        | failed => exact absurd rfl hr
        | pending | completed =>
          simp only [failures, List.length_nil]
          omega

/-- Where a receive is left, somebody can go on. -/
theorem stopped_iff (hn : s.next ≤ N) : (∀ a, step s a = none) ↔ s.next = N ∧ total s = 0 := by
  refine ⟨?_, ?_⟩
  · intro hno
    have hwait : ∀ w, s.pc w = .waiting := by
      intro w
      cases hw : s.pc w with
      | waiting => rfl
      | got i b => exact absurd (hno (.run w)) (by cases b <;> simp [step, hw, dispatch])
      | callBack i => exact absurd (hno (.callBack w .failed)) (by simp [step, hw])
    have hqueue : s.queue = [] := by
      cases hq : s.queue with
      | nil => rfl
      | cons c q => exact absurd (hno (.get 0 c)) (by simp [step, hwait 0, hq])
    have hout : ∀ i, s.outstanding i = 0 := fun i =>
      Nat.eq_zero_of_not_pos fun hi => absurd (hno (.arrive i .error)) (by simp [step, hi])
    refine ⟨?_, ?_⟩
    · refine le_antisymm hn (Nat.not_lt.1 fun hlt => ?_)
      exact absurd (hno (.init .pending)) (by simp [step, hlt])
    · refine Finset.sum_eq_zero fun j _ => ?_
      have hz : atPlaces (handles j) s.pc = 0 := atPlaces_zero.2 fun w => by rw [hwait w]; rfl
      simp [live, hout, hqueue, hz]
  · rintro ⟨hN, hz⟩ a
    have hlive : ∀ j, live s j = 0 := fun j => Finset.sum_eq_zero_iff.1 hz j (Finset.mem_univ j)
    have hout : ∀ j, s.outstanding j = 0 := fun j => by have := hlive j; unfold live at this; omega
    have hqueue : ∀ c, c ∉ s.queue := by
      intro c hc
      have hpos : 0 < s.queue.countP fun d => decide (d.1 = c.1) := List.countP_pos_iff.2 ⟨c, hc, by simp⟩
      have := hlive c.1
      unfold live at this
      omega
    have hwait : ∀ w, s.pc w = .waiting := by
      intro w
      have hz : ∀ j, handles j (s.pc w) = false := fun j =>
        atPlaces_zero.1 (by have := hlive j; unfold live at this; omega) w
      cases hw : s.pc w with
      | waiting => rfl
      | got i b => exact absurd (hz i) (by simp [hw, handles])
      | callBack i => exact absurd (hz i) (by simp [hw, handles])
    cases a with
    | init r => simp [step, hN]
    | arrive i a => simp [step, hout i]
    | get w c => simp [step, hqueue c]
    | run w => simp [step, hwait w]
    | callBack w r => simp [step, hwait w]

/-- **What failures cost.** No slot has two receives; the slots that have one and the failures so far make up the slots
that have been started, whatever comes; and the server stops just when it has seen as many failures as it has slots. -/
theorem capacity {s₀ : State N} (h0 : (sys N).init s₀) {l : List (Act N)}
    (hr : (sys N).Shows (fun _ _ => True) failures s₀ l s) :
    (∀ j, live s j ≤ 1) ∧ total s + l.length = s.next ∧ ((∀ a, step s a = none) ↔ l.length = N) := by
  have hi : Single s ∧ total s + l.length = s.next ∧ s.next ≤ N := by
    refine Sys.Shows.inv (I := fun l s => Single s ∧ total s + l.length = s.next ∧ s.next ≤ N) ?_ hr ?_
    · rintro l s a s' ⟨hsingle, hsum, hN⟩ _ he
      obtain ⟨hstep, hle⟩ := total_step he
      rw [List.length_append]
      exact ⟨hsingle.step he, by omega, by omega⟩
    · cases (h0 : s₀ = _)
      have hz : total (⟨0, fun _ => 0, [], fun _ => .waiting⟩ : State N) = 0 :=
        Finset.sum_eq_zero fun j _ => live_init j
      exact ⟨fun j => (live_init j).le, by rw [hz]; rfl, Nat.zero_le N⟩
  obtain ⟨hsingle, hsum, hN⟩ := hi
  refine ⟨fun j => (hsingle j).trans (by split <;> simp), hsum, (stopped_iff hN).trans ?_⟩
  constructor
  · rintro ⟨hnext, ht⟩
    omega
  · intro hl
    omega

/-- Two slots: one is lost to a long datagram, the other one to a receive that does not start. -/
theorem capacity_two : ∃ s : State 2, ∃ l, (sys 2).Shows (fun _ _ => True) failures
      (⟨0, fun _ => 0, [], fun _ => .waiting⟩ : State 2) l s ∧
    l = [Act.run 3, .callBack 1 .failed] ∧ s.next = 2 ∧ ∀ a, step s a = none := by
  have hex : ∃ s : State 2, s.next = 2 ∧ (sys 2).Shows (fun _ _ => True) failures
      (⟨0, fun _ => 0, [], fun _ => .waiting⟩ : State 2) [Act.run 3, .callBack 1 .failed] s :=
    ⟨_, rfl, .step (a := Act.init .pending) trivial rfl (.step (a := Act.init .pending) trivial rfl
      (.step (a := Act.arrive 0 (.datagram 51)) trivial rfl (.step (a := Act.arrive 1 (.datagram 50)) trivial rfl
        (.step (a := Act.get 3 (0, false)) trivial rfl (.step (a := Act.run 3) trivial rfl
          (.step (a := Act.get 1 (1, true)) trivial rfl (.step (a := Act.run 1) trivial rfl
            (.step (a := Act.callBack 1 .failed) trivial rfl .refl))))))))⟩
  obtain ⟨s, hn, hr⟩ := hex
  exact ⟨s, _, hr, rfl, hn, (capacity rfl hr).2.2.2 rfl⟩

end P1Server.UdpServer
