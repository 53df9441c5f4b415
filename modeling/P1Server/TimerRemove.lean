import P1Server.TimerDelete

/-!
# Timers that are removed

`ChangeTimerState(id, TIMER_REMOVE)` marks a timer; the scan that comes to it deletes the object and erases the entry.

* `no_timer_lost` — every timer that was created is in the table or has been deleted, once, as long as no id is given
  out while a timer has it;
* `removed_stays` — a timer in `TIMER_REMOVE` is not executed again, unless its state is changed once more.

A scan that evaluates `++end()` (`pastEnd_iff`) counts as one that ends there.
-/

namespace P1Server.TimerManager
open Lib

variable {n : Nat} {s s' : State n}

/-! ## Every timer is somewhere -/

/-- `_timer[timerId] = pTimer` finds no timer there. -/
def Fresh (s : State n) : Act n → Prop
  | .createTimer .. => s.timer.find (s.timerId + 1) = none
  | _ => True

instance (s : State n) : ∀ a, Decidable (Fresh s a)
  | .createTimer .. => inferInstanceAs (Decidable (_ = none))
  | .changeTimerState .. | .run .. => inferInstanceAs (Decidable True)

/-- A fresh `TimerManager`. -/
def fresh (n : Nat) : Sys (State n) (Act n) where
  init s := s = empty n
  step := step

structure Somewhere (s : State n) : Prop where
  owned : Owned s
  once : s.deleted.Nodup
  all : ∀ o < s.nextObj, o ∈ s.deleted ∨ ∃ id t, s.timer.find id = some t ∧ t.obj = o

/-- A scan leaves a timer or deletes it. -/
theorem left_or_deleted (now : UInt32 → UInt32) {id : UInt32} {t : CTimer} (h : s.timer.find id = some t) :
    (∃ u, (s.scanned now).find id = some u ∧ u.obj = t.obj) ∨ (id, t) ∈ (scan now s.timer.entries).deleted := by
  have hid : id ∈ s.timer.entries.map Prod.fst := List.mem_map_of_mem (OrdMap.mem_entries.2 h)
  rcases List.mem_append.1 ((scan_perm now s.timer.entries).mem_iff.2 hid) with hl | hd
  · obtain ⟨⟨k, u⟩, hu, rfl⟩ := List.mem_map.1 hl
    have hf : (s.scanned now).find _ = some u := OrdMap.mem_entries.1 hu
    obtain ⟨v, hv, hobj⟩ := find_scanned hf
    obtain rfl := Option.some.inj (h.symm.trans hv)
    exact .inl ⟨u, hf, hobj.symm⟩
  · obtain ⟨⟨k, u⟩, hu, rfl⟩ := List.mem_map.1 hd
    obtain rfl := Option.some.inj (h.symm.trans (OrdMap.mem_entries.1 (reached_mem (scan_deleted hu).1)))
    exact .inr hu

/-- The objects that a scan deletes are different ones. -/
theorem Owned.deleted_nodup (h : Owned s) (now : UInt32 → UInt32) :
    ((TimerManager.scan now s.timer.entries).deleted.map fun p => p.2.obj).Nodup := by
  have hkeys : ((TimerManager.scan now s.timer.entries).deleted.map Prod.fst).Nodup :=
    (List.nodup_append.1 ((scan_perm now s.timer.entries).nodup_iff.2 s.timer.keys_nodup)).2.1
  rw [List.Nodup, List.pairwise_map] at hkeys ⊢
  refine hkeys.imp_of_mem ?_
  intro p q hp hq hne he
  exact hne (h.inj p.1 q.1 p.2 q.2 (OrdMap.mem_entries.1 (reached_mem (scan_deleted hp).1))
    (OrdMap.mem_entries.1 (reached_mem (scan_deleted hq).1)) he)

theorem Somewhere.scan (h : Somewhere s) (t : Fin n) (now : UInt32 → UInt32) : Somewhere (s.excuteTimerTask t now) := by
  refine ⟨h.owned.scan t now, ?_, ?_⟩
  · refine List.nodup_append.2 ⟨h.once, h.owned.deleted_nodup now, ?_⟩
    rintro o ho o' ho' rfl
    obtain ⟨p, hp, rfl⟩ := List.mem_map.1 ho'
    exact (h.owned.fresh p.1 p.2 (OrdMap.mem_entries.1 (reached_mem (scan_deleted hp).1))).2 ho
  · intro o ho
    rcases h.all o ho with hd | ⟨id, u, hu, rfl⟩
    · exact .inl (List.mem_append_left _ hd)
    · rcases left_or_deleted now hu with ⟨v, hv, hobj⟩ | hd
      · exact .inr ⟨id, v, hv, hobj⟩
      · exact .inl (List.mem_append_right _ (List.mem_map.2 ⟨(id, u), hd, rfl⟩))

theorem Somewhere.create (h : Somewhere s) (hf : s.timer.find (s.timerId + 1) = none) (cb lParam : Nat)
    (interval : UInt32) (runcount : UInt64) : Somewhere (s.createTimer cb lParam interval runcount) := by
  refine ⟨h.owned.create .., h.once, ?_⟩
  intro o ho
  rcases Nat.lt_succ_iff_lt_or_eq.1 ho with ho | rfl
  · refine (h.all o ho).imp_right ?_
    rintro ⟨id, u, hu, rfl⟩
    have hne : id ≠ s.timerId + 1 := by
      rintro rfl
      cases hf.symm.trans hu
    exact ⟨id, u, (OrdMap.find_set_ne hne).trans hu, rfl⟩
  · exact .inr ⟨s.timerId + 1, _, OrdMap.find_set_self .., rfl⟩

theorem Somewhere.change (h : Somewhere s) (timerId : UInt32) (state : TimerState) :
    Somewhere (s.changeTimerState timerId state) := by
  unfold State.changeTimerState
  split
  case h_2 => exact h
  case h_1 t hf =>
    refine ⟨h.owned.change hf rfl, h.once, ?_⟩
    intro o ho
    refine (h.all o ho).imp_right ?_
    rintro ⟨id, u, hu, rfl⟩
    rcases eq_or_ne id timerId with rfl | hne
    · cases hf.symm.trans hu
      exact ⟨id, _, OrdMap.find_set_self .., rfl⟩
    · exact ⟨id, u, (OrdMap.find_set_ne hne).trans hu, rfl⟩

/-- **No timer is lost, and none deleted twice**, as long as no id is given out while a timer has it. -/
theorem no_timer_lost (h : (fresh n).Reach Fresh s) : s.deleted.Nodup ∧
    ∀ o < s.nextObj, (o ∈ s.deleted ↔ ∀ id t, s.timer.find id = some t → t.obj ≠ o) := by
  have hi : Somewhere s := by
    refine Sys.Reach.inv ?_ ?_ h
    · rintro s rfl
      exact ⟨⟨nofun, nofun, nofun⟩, List.nodup_nil, nofun⟩
    · intro s a s' hi hk he
      cases a with
      | createTimer cb lParam interval runcount =>
        cases he
        exact hi.create hk ..
      | changeTimerState timerId state =>
        cases he
        exact hi.change ..
      | run t now =>
        simp only [fresh, step] at he
        split at he <;> cases he
        · exact hi.scan t now
        · exact ⟨⟨hi.owned.fresh, hi.owned.inj, hi.owned.old⟩, hi.once, hi.all⟩
  refine ⟨hi.once, fun o ho => ⟨?_, ?_⟩⟩
  · rintro hd id t hf rfl
    exact (hi.owned.fresh id t hf).2 hd
  · intro hno
    refine (hi.all o ho).resolve_right ?_
    rintro ⟨id, t, hf, rfl⟩
    exact hno id t hf rfl

/-- The timer is deleted, and its number is given out no more. -/
theorem no_timer_lost_two : ∃ s : State 2, (fresh 2).Reach Fresh s ∧ s.nextObj = 2 ∧ s.deleted = [0] ∧
    (1 ∈ s.deleted ↔ ∀ id t, s.timer.find id = some t → t.obj ≠ 1) :=
  have hr : (fresh 2).Reach Fresh _ := Sys.Reach.runK [.createTimer 1 0 10 5, .changeTimerState 1 .remove,
    .createTimer 2 0 10 5, .run 0 fun _ => 100] (.init rfl) rfl
  ⟨_, hr, rfl, rfl, (no_timer_lost hr).2 1 (by decide)⟩

/-! ## What is removed stays removed -/

/-- The timer is in `TIMER_REMOVE`, or in the table no more. -/
def Removed (s : State n) (o : Nat) : Prop := ∀ id t, s.timer.find id = some t → t.obj = o → t.state = .remove

/-- Nobody brings the timer back. -/
def Leaves (o : Nat) (s : State n) : Act n → Prop
  | .changeTimerState timerId state => state = .remove ∨ ∀ t, s.timer.find timerId = some t → t.obj ≠ o
  | _ => True

/-- The timer a run comes to execute. -/
def selects (s : State n) : Act n → List Nat
  | .run t now => if s.pc t = .idle then ((scan now s.timer.entries).selected.map fun p => p.2.obj).toList else []
  | _ => []

theorem query_remove {t : CTimer} (h : t.state = .remove) (tick : UInt32) : t.queryExcuteTimer tick = (.remove, t) := by
  simp [CTimer.queryExcuteTimer, h]

theorem scan_selected_state {now : UInt32 → UInt32} {l : List (UInt32 × CTimer)} {p : UInt32 × CTimer}
    (h : (scan now l).selected = some p) : ∃ t, (p.1, t) ∈ l ∧ t.obj = p.2.obj ∧ t.state ≠ .remove := by
  fun_induction scan now l with
  | case1 | case3 => cases h
  | case2 id t l t' hq =>
    cases h
    refine ⟨t, List.mem_cons_self, by rw [← queryExcuteTimer_obj t, hq], ?_⟩
    intro hs
    cases (query_remove hs _).symm.trans hq
  | case4 _ _ _ _ _ _ _ ih =>
    obtain ⟨t, ht, hobj⟩ := ih h
    exact ⟨t, List.mem_cons_of_mem _ (List.mem_cons_of_mem _ ht), hobj⟩
  | case5 _ _ _ _ _ _ _ _ _ ih =>
    obtain ⟨t, ht, hobj⟩ := ih h
    exact ⟨t, List.mem_cons_of_mem _ ht, hobj⟩

/-- A timer in `TIMER_REMOVE` that a scan leaves is as it was. -/
theorem scan_removed {now : UInt32 → UInt32} {l : List (UInt32 × CTimer)} {id : UInt32} {t : CTimer}
    (h : (id, t) ∈ (scan now l).timers) : ∃ u, (id, u) ∈ l ∧ u.obj = t.obj ∧ (u.state = .remove → u = t) := by
  fun_induction scan now l with
  | case1 | case3 => cases h
  | case2 k u l t' hq =>
    rcases List.mem_cons.1 h with h | h
    · cases h
      refine ⟨u, List.mem_cons_self, by rw [← queryExcuteTimer_obj u, hq], ?_⟩
      intro hs
      cases (query_remove hs _).symm.trans hq
    · exact ⟨t, List.mem_cons_of_mem _ h, rfl, fun _ => rfl⟩
  | case4 k u t' hq e l r ih =>
    rcases List.mem_cons.1 h with h | h
    · exact ⟨t, h ▸ List.mem_cons_of_mem _ List.mem_cons_self, rfl, fun _ => rfl⟩
    · obtain ⟨v, hv, hobj⟩ := ih h
      exact ⟨v, List.mem_cons_of_mem _ (List.mem_cons_of_mem _ hv), hobj⟩
  | case5 k u l st t' hne1 hne2 hq r ih =>
    rcases List.mem_cons.1 h with h | h
    · cases h
      refine ⟨u, List.mem_cons_self, by rw [← queryExcuteTimer_obj u, hq], ?_⟩
      intro hs
      cases (query_remove hs _).symm.trans hq
      rfl
    · obtain ⟨v, hv, hobj⟩ := ih h
      exact ⟨v, List.mem_cons_of_mem _ hv, hobj⟩

theorem Removed.scan {o : Nat} (h : Removed s o) (t : Fin n) (now : UInt32 → UInt32) :
    Removed (s.excuteTimerTask t now) o := by
  intro id u hu ho
  obtain ⟨v, hv, hobj, hkept⟩ := scan_removed (OrdMap.mem_entries.2 hu)
  have hs := h id v (OrdMap.mem_entries.1 hv) (hobj.trans ho)
  rwa [← hkept hs]

/-- One step selects no removed timer, and leaves it removed. -/
theorem Removed.step {o : Nat} (h : Removed s o) (ho : o < s.nextObj) {a : Act n} (hk : Leaves o s a)
    (he : step s a = some s') : Removed s' o ∧ o < s'.nextObj ∧ o ∉ selects s a := by
  cases a with
  | createTimer cb lParam interval runcount =>
    cases he
    refine ⟨?_, Nat.lt_succ_of_lt ho, List.not_mem_nil⟩
    intro id u hu hobj
    simp only [State.createTimer, OrdMap.find_set] at hu
    split at hu
    · cases hu
      exact absurd hobj (Nat.ne_of_gt ho)
    · exact h id u hu hobj
  | changeTimerState timerId state =>
    cases he
    unfold State.changeTimerState
    split
    case h_2 => exact ⟨h, ho, List.not_mem_nil⟩
    case h_1 t hf =>
      refine ⟨?_, ho, List.not_mem_nil⟩
      intro id u hu hobj
      simp only [OrdMap.find_set] at hu
      split at hu
      · cases hu
        exact hk.resolve_right fun hno => hno t hf hobj
      · exact h id u hu hobj
  | run t now =>
    cases hp : s.pc t with
    | idle =>
      simp only [TimerManager.step, hp] at he
      cases he
      refine ⟨h.scan t now, ho, ?_⟩
      simp only [selects, hp, if_true, Option.mem_toList, Option.map_eq_some_iff]
      rintro ⟨p, hsel, hobj⟩
      obtain ⟨u, hu, huo, hs⟩ := scan_selected_state hsel
      exact hs (h p.1 u (OrdMap.mem_entries.1 hu) (huo.trans hobj))
    | selected o' =>
      simp only [TimerManager.step, hp] at he
      cases he
      exact ⟨h, ho, by simp [selects, hp]⟩

/-- **A removed timer is not executed again**, in any run in which nobody changes its state once more: whatever a run
of `TimerThread` comes to execute is another one. -/
theorem removed_stays {o : Nat} (ho : o < s.nextObj) (h : Removed s o) {l : List Nat}
    (hr : (sys n).Shows (Leaves o) selects s l s') : o ∉ l ∧ Removed s' o := by
  have hall : o ∉ l ∧ Removed s' o ∧ o < s'.nextObj := by
    refine Sys.Shows.inv (I := fun l s => o ∉ l ∧ Removed s o ∧ o < s.nextObj) ?_ hr ⟨List.not_mem_nil, h, ho⟩
    rintro l s a s' ⟨hl, h, ho⟩ hk he
    obtain ⟨h', ho', hno⟩ := h.step ho hk he
    exact ⟨fun hm => (List.mem_append.1 hm).elim hl hno, h', ho'⟩
  exact ⟨hall.1, hall.2.1⟩

/-- Two timers are due, and the first one is removed: the run that deletes it passes over the second one. -/
theorem removed_stays_two : ∃ s s' : State 2, (sys 2).Shows (Leaves 0) selects s [1] s' ∧ 0 ∉ [1] ∧ Removed s' 0 := by
  have hex : ∃ s s' : State 2, 0 < s.nextObj ∧ (∀ e ∈ s.timer.entries, e.2.obj = 0 → e.2.state = .remove) ∧
      (sys 2).Shows (Leaves 0) selects s [1] s' :=
    ⟨((((empty 2).createTimer 1 0 10 5).createTimer 2 0 10 5).createTimer 3 0 1000 5).changeTimerState 1 .remove, _,
      by decide, by decide, .step (a := Act.run 0 fun _ => 100) trivial rfl
        (.step (a := Act.run 1 fun _ => 200) trivial rfl .refl)⟩
  obtain ⟨s, s', ho, hrm, hr⟩ := hex
  have hstays := removed_stays ho (fun id t hf => hrm (id, t) (OrdMap.mem_entries.2 hf)) hr
  exact ⟨s, s', hr, hstays⟩

end P1Server.TimerManager
