import P1Server.TimerScan
import Mathlib.Data.List.DropRight

/-!
# Timers that are deleted

A scan selects a timer under the lock, and the run executes it without. A scan of another run deletes the timers in
`TIMER_REMOVE`, whoever is executing them.

* `pastEnd_iff` — when a scan evaluates `++end()`, in terms of the table;
* `neverDeleted` — no timer is deleted between its selection and the end of its execution, in the runs where none is
  removed meanwhile and no scan evaluates `++end()`;
* `not_neverDeleted` — a timer is removed while it is executed.
-/

namespace P1Server.TimerManager
open Lib

variable {n : Nat} {s s' : State n}

/-! ## Past the end -/

/-- The timers end in an odd number of timers in `TIMER_REMOVE`. -/
def OddEnd (l : List (UInt32 × CTimer)) : Prop := (l.rtakeWhile removed).length % 2 = 1

/-- The table ends in an odd number of timers in `TIMER_REMOVE`, and an odd number of them stands directly before each
timer that is due. -/
def PassesEnd (now : UInt32 → UInt32) (l : List (UInt32 × CTimer)) : Prop :=
  OddEnd l ∧ ∀ l₁ e l₂, l = l₁ ++ e :: l₂ → due now e = true → OddEnd l₁

theorem length_rtakeWhile_cons {α : Type*} (p : α → Bool) (a : α) (l : List α) :
    ((a :: l).rtakeWhile p).length = (l.rtakeWhile p).length + if l.all p && p a then 1 else 0 := by
  induction l using List.reverseRecOn with
  | nil => by_cases h : p a = true <;> simp [List.rtakeWhile, h]
  | append_singleton l x ih =>
    rw [← List.cons_append, List.rtakeWhile_concat, List.rtakeWhile_concat]
    cases h : p x with
    | true => simp [h, ih, Nat.add_right_comm]
    | false => simp [h]

theorem oddEnd_pass {e : UInt32 × CTimer} {l : List (UInt32 × CTimer)} (h : removed e = false) :
    OddEnd (e :: l) ↔ OddEnd l := by
  rw [OddEnd, OddEnd, length_rtakeWhile_cons, h]
  simp

theorem oddEnd_removed {e f : UInt32 × CTimer} {l : List (UInt32 × CTimer)} (h : removed e = true) :
    OddEnd (e :: f :: l) ↔ OddEnd l := by
  rw [OddEnd, OddEnd, length_rtakeWhile_cons, length_rtakeWhile_cons, h, List.all_cons]
  cases removed f <;> cases l.all removed <;> simp
  omega

/-- What is asked of every place in a list. -/
theorem forall_place_cons {α : Type*} {P : List α → α → Prop} (a : α) (l : List α) :
    (∀ l₁ x l₂, a :: l = l₁ ++ x :: l₂ → P l₁ x) ↔ P [] a ∧ ∀ l₁ x l₂, l = l₁ ++ x :: l₂ → P (a :: l₁) x := by
  constructor
  · intro h
    exact ⟨h [] a l rfl, fun l₁ x l₂ hl => h (a :: l₁) x l₂ (by rw [hl]; rfl)⟩
  · rintro ⟨h0, h⟩ l₁ x l₂ hl
    cases l₁ with
    | nil =>
      cases hl
      exact h0
    | cons b l₁ =>
      cases hl
      exact h l₁ x l₂ rfl

/-- **When a scan evaluates `++end()`.** -/
theorem pastEnd_iff (now : UInt32 → UInt32) : ∀ l : List (UInt32 × CTimer),
    (scan now l).pastEnd = true ↔ PassesEnd now l
  | [] => by simp [scan, PassesEnd, OddEnd]
  | e :: l => by
    cases hd : due now e with
    | true =>
      rw [scan_due hd, PassesEnd, forall_place_cons]
      simp [hd, OddEnd]
    | false =>
      cases hr : removed e with
      | false =>
        rw [scan_pass hr hd, PassesEnd, forall_place_cons, oddEnd_pass hr]
        simp only [oddEnd_pass hr, hd, Bool.false_eq_true, false_implies, true_and]
        exact pastEnd_iff now l
      | true =>
        cases l with
        | nil =>
          rw [scan_removed_nil hr, PassesEnd, forall_place_cons]
          simp [hd, OddEnd, List.rtakeWhile, hr]
        | cons f l =>
          have hone : OddEnd [e] := by simp [OddEnd, List.rtakeWhile, hr]
          rw [scan_removed_cons hr, PassesEnd, forall_place_cons, forall_place_cons, oddEnd_removed hr]
          simp only [oddEnd_removed hr, hd, hone, Bool.false_eq_true, false_implies, true_and, implies_true]
          exact pastEnd_iff now l

instance (now : UInt32 → UInt32) (l : List (UInt32 × CTimer)) : Decidable (PassesEnd now l) :=
  decidable_of_iff _ (pastEnd_iff now l)

/-! ## Timers that are executed -/

/-- What a run has selected and not finished executing has not been deleted. -/
def NeverDeleted (s : State n) : Prop := ∀ t o, s.pc t = .selected o → o ∉ s.deleted

/-- No timer is removed while a run executes it, and no scan evaluates `++end()`. -/
def Spares (s : State n) : Act n → Prop
  | .createTimer .. => True
  | .changeTimerState timerId state =>
    state = .remove → ∀ t ∈ s.timer.find timerId, ∀ u, s.pc u ≠ .selected t.obj
  | .run t now => s.pc t = .idle → ¬ PassesEnd now s.timer.entries

instance (s : State n) : ∀ a, Decidable (Spares s a)
  | .createTimer .. => inferInstanceAs (Decidable True)
  | .changeTimerState timerId state =>
    inferInstanceAs (Decidable (state = .remove → ∀ t ∈ s.timer.find timerId, ∀ u, s.pc u ≠ .selected t.obj))
  | .run t now => inferInstanceAs (Decidable (s.pc t = .idle → ¬ PassesEnd now s.timer.entries))

/-- Every timer in the table is an object of its own, which has not been deleted. -/
structure Owned (s : State n) : Prop where
  fresh : ∀ id t, s.timer.find id = some t → t.obj < s.nextObj ∧ t.obj ∉ s.deleted
  inj : ∀ id id' t t', s.timer.find id = some t → s.timer.find id' = some t' → t.obj = t'.obj → id = id'
  old : ∀ o ∈ s.deleted, o < s.nextObj

/-- A timer keeps its object. -/
theorem Owned.change (h : Owned s) {timerId : UInt32} {t t' : CTimer} (hf : s.timer.find timerId = some t)
    (ho : t'.obj = t.obj) : Owned { s with timer := s.timer.set timerId t' } := by
  have find : ∀ {id u}, (s.timer.set timerId t').find id = some u → ∃ v, s.timer.find id = some v ∧ v.obj = u.obj := by
    intro id u hu
    rw [OrdMap.find_set] at hu
    split at hu
    case isTrue he =>
      cases hu
      exact ⟨t, he ▸ hf, ho.symm⟩
    case isFalse => exact ⟨u, hu, rfl⟩
  refine ⟨?_, ?_, h.old⟩
  · intro id u hu
    obtain ⟨v, hv, hobj⟩ := find hu
    exact hobj ▸ h.fresh id v hv
  · intro id id' u u' hu hu' he
    obtain ⟨v, hv, hobj⟩ := find hu
    obtain ⟨v', hv', hobj'⟩ := find hu'
    exact h.inj id id' v v' hv hv' (hobj.trans (he.trans hobj'.symm))

theorem Owned.create (h : Owned s) (cb lParam : Nat) (interval : UInt32) (runcount : UInt64) :
    Owned (s.createTimer cb lParam interval runcount) := by
  have hne : ∀ {id t}, s.timer.find id = some t → t.obj ≠ s.nextObj := fun hf => Nat.ne_of_lt (h.fresh _ _ hf).1
  have hold : s.nextObj ∉ s.deleted := fun ho => Nat.lt_irrefl _ (h.old _ ho)
  refine ⟨?_, ?_, fun o ho => Nat.lt_succ_of_lt (h.old o ho)⟩
  · intro id u hu
    simp only [State.createTimer, OrdMap.find_set] at hu ⊢
    split at hu
    case isTrue =>
      cases hu
      exact ⟨Nat.lt_succ_self _, hold⟩
    case isFalse => exact ⟨Nat.lt_succ_of_lt (h.fresh id u hu).1, (h.fresh id u hu).2⟩
  · intro id id' u u' hu hu' he
    simp only [State.createTimer, OrdMap.find_set] at hu hu'
    split at hu <;> split at hu'
    case isTrue.isTrue h1 h2 => exact h1.trans h2.symm
    case isTrue.isFalse =>
      cases hu
      exact absurd he.symm (hne hu')
    case isFalse.isTrue =>
      cases hu'
      exact absurd he (hne hu)
    case isFalse.isFalse => exact h.inj id id' u u' hu hu' he

/-- A timer a scan leaves was there before. -/
theorem find_scanned {now : UInt32 → UInt32} {id : UInt32} {t : CTimer} (h : (s.scanned now).find id = some t) :
    ∃ u, s.timer.find id = some u ∧ u.obj = t.obj := by
  obtain ⟨u, hu, hobj⟩ := scan_timers (OrdMap.mem_entries.2 h)
  exact ⟨u, OrdMap.mem_entries.1 hu, hobj⟩

/-- A timer a scan deletes is not one that it leaves. -/
theorem Owned.apart (h : Owned s) {now : UInt32 → UInt32} {id : UInt32} {t : CTimer}
    (hf : (s.scanned now).find id = some t) : ∀ p ∈ (TimerManager.scan now s.timer.entries).deleted, p.2.obj ≠ t.obj := by
  intro p hp he
  obtain ⟨u, hu, hobj⟩ := find_scanned hf
  have hpf := OrdMap.mem_entries.1 (reached_mem (scan_deleted hp).1)
  obtain rfl := h.inj p.1 id p.2 u hpf hu (he.trans hobj.symm)
  have hnd := (scan_perm now s.timer.entries).nodup_iff.2 s.timer.keys_nodup
  have hleft : p.1 ∈ (TimerManager.scan now s.timer.entries).timers.map Prod.fst :=
    List.mem_map.2 ⟨(p.1, t), OrdMap.mem_entries.2 hf, rfl⟩
  exact (List.nodup_append.1 hnd).2.2 p.1 hleft p.1 (List.mem_map_of_mem hp) rfl

theorem Owned.scan (h : Owned s) (t : Fin n) (now : UInt32 → UInt32) : Owned (s.excuteTimerTask t now) := by
  refine ⟨?_, ?_, ?_⟩
  · intro id u hu
    obtain ⟨v, hv, hobj⟩ := find_scanned hu
    refine ⟨hobj ▸ (h.fresh id v hv).1, ?_⟩
    intro hd
    rcases List.mem_append.1 hd with hd | hd
    · exact (h.fresh id v hv).2 (hobj ▸ hd)
    · obtain ⟨p, hp, hpo⟩ := List.mem_map.1 hd
      exact h.apart hu p hp hpo
  · intro id id' u u' hu hu' he
    obtain ⟨v, hv, hobj⟩ := find_scanned hu
    obtain ⟨v', hv', hobj'⟩ := find_scanned hu'
    exact h.inj id id' v v' hv hv' (hobj.trans (he.trans hobj'.symm))
  · intro o ho
    rcases List.mem_append.1 ho with ho | ho
    · exact h.old o ho
    · obtain ⟨p, hp, rfl⟩ := List.mem_map.1 ho
      exact (h.fresh p.1 p.2 (OrdMap.mem_entries.1 (reached_mem (scan_deleted hp).1))).1

theorem Owned.step (h : Owned s) {a : Act n} (he : step s a = some s') : Owned s' := by
  cases a with
  | createTimer cb lParam interval runcount =>
    cases he
    exact h.create ..
  | changeTimerState timerId state =>
    simp only [TimerManager.step, State.changeTimerState, Option.some.injEq] at he
    subst he
    split
    case h_1 t hf => exact h.change hf rfl
    case h_2 => exact h
  | run t now =>
    simp only [TimerManager.step] at he
    split at he <;> cases he
    · exact h.scan t now
    · exact ⟨h.fresh, h.inj, h.old⟩

theorem owned (h : (sys n).Reachable s) : Owned s := by
  refine Sys.Reachable.inv ?_ (fun s a s' hi he => hi.step he) h
  intro s hs
  obtain ⟨-, hdel, hlt, hinj⟩ := hs
  exact ⟨fun id t hf => ⟨hlt id t hf, by simp [hdel]⟩, hinj, by simp [hdel]⟩

/-- What the scan selects is left in the table. -/
theorem selected_scanned {now : UInt32 → UInt32} {p : UInt32 × CTimer}
    (h : (TimerManager.scan now s.timer.entries).selected = some p) : (s.scanned now).find p.1 = some p.2 :=
  OrdMap.mem_entries.1 (scan_selected h)

/-- No timer in `TIMER_REMOVE` is being executed. -/
def Spared (s : State n) : Prop :=
  ∀ id t, s.timer.find id = some t → t.state = .remove → ∀ u, s.pc u ≠ .selected t.obj

/-- `QueryExcuteTimer` leaves no timer in `TIMER_REMOVE` but one that it has found there. -/
theorem query_removed_state {t t' : CTimer} {tick : UInt32} {st : TimerState}
    (h : t.queryExcuteTimer tick = (st, t')) (hr : t'.state = .remove) : st = .remove ∧ t' = t := by
  unfold CTimer.queryExcuteTimer at h
  cases hs : t.state with
  | remove =>
    simp only [hs] at h
    cases h
    exact ⟨rfl, rfl⟩
  | suspend =>
    simp only [hs] at h
    cases h
    cases hs.symm.trans hr
  | run =>
    simp only [hs] at h
    cases h
    cases hr
  | wait =>
    simp only [hs] at h
    split at h
    · cases h
      cases hr
    · cases h
      cases hs.symm.trans hr

/-- What a scan leaves in `TIMER_REMOVE` was there. -/
theorem left_removed {now : UInt32 → UInt32} {l : List (UInt32 × CTimer)} {p : UInt32 × CTimer}
    (h : p ∈ (TimerManager.scan now l).timers) (hs : p.2.state = .remove) : p ∈ l := by
  fun_induction TimerManager.scan now l with
  | case1 | case3 => cases h
  | case2 id u l t' hq =>
    rcases List.mem_cons.1 h with rfl | h
    · cases (query_removed_state hq hs).1
    · exact List.mem_cons_of_mem _ h
  | case4 id u t' hq e l r ih =>
    rcases List.mem_cons.1 h with rfl | h
    · exact List.mem_cons_of_mem _ List.mem_cons_self
    · exact List.mem_cons_of_mem _ (List.mem_cons_of_mem _ (ih h))
  | case5 id u l st t' hne1 hne2 hq r ih =>
    rcases List.mem_cons.1 h with rfl | h
    · exact absurd (query_removed_state hq hs).1 hne2
    · exact List.mem_cons_of_mem _ (ih h)

/-- A scan selects no timer in `TIMER_REMOVE`. -/
theorem selected_state {now : UInt32 → UInt32} {l : List (UInt32 × CTimer)} {p : UInt32 × CTimer}
    (h : (TimerManager.scan now l).selected = some p) : p.2.state ≠ .remove := by
  fun_induction TimerManager.scan now l with
  | case1 | case3 => cases h
  | case2 id u l t' hq =>
    cases h
    intro hs
    cases (query_removed_state hq hs).1
  | case4 _ _ _ _ _ _ _ ih | case5 _ _ _ _ _ _ _ _ _ ih => exact ih h

theorem Spared.scan (h : Spared s) (ho : Owned s) (t : Fin n) (now : UInt32 → UInt32) :
    Spared (s.excuteTimerTask t now) := by
  intro id v hv hs u hu
  rcases at_update hu with ⟨-, hu⟩ | ⟨-, hu⟩
  · cases hsel : (TimerManager.scan now s.timer.entries).selected with
    | none =>
      rw [hsel] at hu
      cases hu
    | some p =>
      -- the timer it has selected is not in that state
      rw [hsel] at hu
      have hobj : p.2.obj = v.obj := Pc.selected.inj hu
      have hp := selected_scanned hsel
      obtain rfl := (ho.scan t now).inj p.1 id p.2 v hp hv hobj
      obtain rfl := Option.some.inj (hp.symm.trans hv)
      exact selected_state hsel hs
  · exact h id v (OrdMap.mem_entries.1 (left_removed (OrdMap.mem_entries.2 hv) hs)) hs u hu

theorem Spared.change (h : Spared s) {timerId : UInt32} {state : TimerState}
    (hk : Spares s (.changeTimerState timerId state)) : Spared (s.changeTimerState timerId state) := by
  unfold State.changeTimerState
  split
  case h_2 => exact h
  case h_1 t hf =>
    intro id v hv hs u
    simp only [OrdMap.find_set] at hv
    split at hv
    · cases hv
      exact hk hs t hf u
    · exact h id v hv hs u

theorem Spared.step (h : Spared s) (ho : Owned s) {a : Act n} (hk : Spares s a) (he : step s a = some s') :
    Spared s' := by
  cases a with
  | createTimer cb lParam interval runcount =>
    cases he
    intro id v hv hs u
    simp only [State.createTimer, OrdMap.find_set] at hv
    split at hv
    · cases hv
      cases hs
    · exact h id v hv hs u
  | changeTimerState timerId state =>
    cases he
    exact h.change hk
  | run t now =>
    simp only [TimerManager.step] at he
    split at he <;> cases he
    case h_1 => exact h.scan ho t now
    case h_2 =>
      intro id v hv hs u hu
      rcases at_update hu with ⟨-, hu⟩ | ⟨-, hu⟩
      · cases hu
      · exact h id v hv hs u hu

theorem NeverDeleted.scan (h : NeverDeleted s) (ho : Owned s) (hsp : Spared s) (t : Fin n) (now : UInt32 → UInt32) :
    NeverDeleted (s.excuteTimerTask t now) := by
  intro u o hu
  simp only [State.excuteTimerTask] at hu
  rcases at_update hu with ⟨-, hu⟩ | ⟨-, hu⟩
  · cases hsel : (TimerManager.scan now s.timer.entries).selected with
    | none =>
      rw [hsel] at hu
      cases hu
    | some p =>
      rw [hsel] at hu
      cases hu
      exact ((ho.scan t now).fresh p.1 p.2 (selected_scanned hsel)).2
  · intro hd
    rcases List.mem_append.1 hd with hd | hd
    · exact h u o hu hd
    · obtain ⟨p, hp, rfl⟩ := List.mem_map.1 hd
      obtain ⟨hreach, hs⟩ := scan_deleted hp
      exact hsp p.1 p.2 (OrdMap.mem_entries.1 (reached_mem hreach)) hs u hu

theorem NeverDeleted.step (h : NeverDeleted s) (ho : Owned s) (hsp : Spared s) {a : Act n} (he : step s a = some s') :
    NeverDeleted s' := by
  cases a with
  | createTimer cb lParam interval runcount =>
    cases he
    exact h
  | changeTimerState timerId state =>
    simp only [TimerManager.step, State.changeTimerState, Option.some.injEq] at he
    subst he
    split <;> exact h
  | run t now =>
    simp only [TimerManager.step] at he
    split at he <;> cases he
    case h_1 => exact h.scan ho hsp t now
    case h_2 =>
      intro u o hu
      rcases at_update hu with ⟨-, hu⟩ | ⟨-, hu⟩
      · cases hu
      · exact h u o hu

/-- **No timer is deleted while it is executed**, where none is removed meanwhile and no scan evaluates `++end()`. -/
theorem neverDeleted (h : (sys n).Reach Spares s) : NeverDeleted s := by
  have hi : Spared s ∧ NeverDeleted s := by
    refine Sys.Reach.inv_of (I := fun s => Spared s ∧ NeverDeleted s) (fun s hs => owned hs.reachable) ?_
      (fun s a s' ho _ hi hk he => ⟨hi.1.step ho hk he, hi.2.step ho hi.1 he⟩) h
    intro s hs
    refine ⟨?_, ?_⟩
    · intro id v hv _ u hu
      rw [hs.1 u] at hu
      cases hu
    · intro t o ht
      rw [hs.1 t] at ht
      cases ht
  exact hi.2

/-- The table of a fresh `TimerManager`. -/
def empty (n : Nat) : State n := ⟨fun _ => .idle, .empty, 0, 0, []⟩

theorem empty_init : (sys n).init (empty n) := by
  refine ⟨fun _ => rfl, rfl, ?_, ?_⟩ <;> simp [empty]

/-- One timer is removed after its execution and deleted; the other one is being executed. -/
theorem neverDeleted_two : ∃ s : State 2, (sys 2).Reach Spares s ∧ s.pc 1 = .selected 1 ∧ s.deleted = [0] ∧
    NeverDeleted s :=
  have hr : (sys 2).Reach Spares _ := Sys.Reach.runK [.createTimer 1 0 10 5, .createTimer 2 0 10 5,
    .run 0 fun _ => 100, .run 1 fun _ => 100, .run 0 fun _ => 100, .changeTimerState 1 .remove,
    .run 0 fun _ => 101] (.init empty_init) rfl
  ⟨_, hr, rfl, rfl, neverDeleted hr⟩

/-- The first run executes the timer when it is removed; the scan of the second run deletes it. -/
theorem not_neverDeleted : ¬ ∀ s : State 2, (sys 2).Reachable s → NeverDeleted s := by
  intro h
  have hr : (sys 2).Reachable _ := Sys.Reachable.run [.createTimer 1 0 10 5, .run 0 fun _ => 100,
    .changeTimerState 1 .remove, .run 1 fun _ => 101] (.init empty_init) rfl
  exact h _ hr 0 0 rfl (List.mem_singleton_self _)

end P1Server.TimerManager
