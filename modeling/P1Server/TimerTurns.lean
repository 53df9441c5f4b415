import P1Server.TimerScan

/-!
# Which timer has its turn

`State.call` is a whole call of `ExcuteTimerTask` by one worker, `calls` and `history` are such calls one after the
other: what they leave, and what each one executes. Within a call the clock stands still.

* `due_once` — as many calls at one tick as timers are due execute just these, in order, and further calls none;
* `turns` — the lowest of the timers that are due is executed: a timer that waits behind another one stays due, and
  the other one comes first again only with a lower id and when its interval has elapsed anew;
* `not_turns` — so a timer with a short interval goes first again and again.
-/

namespace P1Server.TimerManager
open Lib

variable {n : Nat} {s : State n} {t : Fin n} {tick : UInt32}

/-- The scan and the execution. -/
def State.call (s : State n) (t : Fin n) (tick : UInt32) : State n :=
  (s.excuteTimerTask t fun _ => tick).goto t .idle

/-- The timer that a call executes. -/
def State.executed (s : State n) (tick : UInt32) : Option UInt32 :=
  (scan (fun _ => tick) s.timer.entries).selected.map Prod.fst

def calls (t : Fin n) : State n → List UInt32 → State n
  | s, [] => s
  | s, tick :: ticks => calls t (s.call t tick) ticks

/-- The ticks of the calls, with what they execute. -/
def history (t : Fin n) : State n → List UInt32 → List (UInt32 × Option UInt32)
  | _, [] => []
  | s, tick :: ticks => (tick, s.executed tick) :: history t (s.call t tick) ticks

/-- A call is a run of the worker. -/
theorem run_call (h : s.pc t = .idle) (tick : UInt32) : ∃ k,
    (sys n).run s (List.replicate k (.run t fun _ => tick)) = some (s.call t tick) := by
  have hscan : step s (.run t fun _ => tick) = some (s.excuteTimerTask t fun _ => tick) := by simp [step, h]
  cases hsel : (scan (fun _ => tick) s.timer.entries).selected with
  | none =>
    refine ⟨1, ?_⟩
    simp [Sys.run, sys, List.replicate, hscan, State.call, State.goto, State.excuteTimerTask, hsel]
  | some p =>
    refine ⟨2, ?_⟩
    have hpc : (s.excuteTimerTask t fun _ => tick).pc t = .selected p.2.obj := by simp [State.excuteTimerTask, hsel]
    have hend : step (s.excuteTimerTask t fun _ => tick) (.run t fun _ => tick) = some (s.call t tick) := by
      simp [step, hpc, State.call]
    simp [Sys.run, sys, List.replicate, hscan, hend]

/-! ## Timers that wait or are suspended, and a clock that does not wrap -/

/-- It waits or is suspended, and neither its last execution nor any of the ticks is so late that the interval wraps. -/
structure Calm (ticks : List UInt32) (u : CTimer) : Prop where
  state : u.state = .wait ∨ u.state = .suspend
  last : u.lastExcuteTime.toNat + u.interval.toNat < 2 ^ 32
  ticks : ∀ tick ∈ ticks, tick.toNat + u.interval.toNat < 2 ^ 32

/-- Waiting, with the interval elapsed. -/
def dueAt (tick : UInt32) (u : CTimer) : Prop :=
  u.state = .wait ∧ u.lastExcuteTime.toNat + u.interval.toNat < tick.toNat

instance (tick : UInt32) (u : CTimer) : Decidable (dueAt tick u) :=
  inferInstanceAs (Decidable (_ ∧ _))

/-- The timer after its execution. -/
def fire (tick : UInt32) (u : CTimer) : CTimer := { u with lastExcuteTime := tick }

section
variable {ticks : List UInt32} {u : CTimer} {id : UInt32}

theorem Calm.due_iff (h : Calm ticks u) : due (fun _ => tick) (id, u) = true ↔ dueAt tick u := by
  have hsum : (u.lastExcuteTime + u.interval).toNat = u.lastExcuteTime.toNat + u.interval.toNat := by
    rw [UInt32.toNat_add]
    exact Nat.mod_eq_of_lt h.last
  rcases h.state with hs | hs <;> simp [due, dueAt, hs, UInt32.lt_iff_toNat_lt, hsum]

theorem Calm.not_removed (h : Calm ticks u) : removed (id, u) = false := by
  rcases h.state with hs | hs <;> simp [removed, hs]

theorem Calm.queried (h : Calm ticks u) (hd : dueAt tick u) :
    TimerManager.queried (fun _ => tick) (id, u) = (id, fire tick u) := by
  have hlt : u.lastExcuteTime + u.interval < tick := by
    have hdue : due (fun _ => tick) (id, u) = true := h.due_iff.2 hd
    simpa [due, hd.1] using hdue
  simp [TimerManager.queried, CTimer.queryExcuteTimer, hd.1, hlt, TimerManager.fire]

theorem Calm.fire (h : Calm ticks u) (ht : tick ∈ ticks) : Calm ticks (fire tick u) :=
  ⟨h.state, h.ticks tick ht, h.ticks⟩

/-- It is not due again at the same tick. -/
theorem not_due_fire (tick : UInt32) (u : CTimer) : ¬ dueAt tick (fire tick u) := by
  rintro ⟨-, hlt⟩
  simp only [fire] at hlt
  omega

end

/-- A scan of calm timers: the first one that is due is executed. -/
theorem scan_calm {ticks : List UInt32} {l : List (UInt32 × CTimer)} (h : ∀ e ∈ l, Calm ticks e.2) (tick : UInt32) :
    (∀ e ∈ l, ¬ dueAt tick e.2) ∧ scan (fun _ => tick) l = ⟨l, [], none, false⟩ ∨
    ∃ l₁ id u l₂, l = l₁ ++ (id, u) :: l₂ ∧ (∀ e ∈ l₁, ¬ dueAt tick e.2) ∧ dueAt tick u ∧
      scan (fun _ => tick) l = ⟨l₁ ++ (id, fire tick u) :: l₂, [], some (id, fire tick u), false⟩ := by
  have pass : ∀ {l' : List (UInt32 × CTimer)}, (∀ e ∈ l', e ∈ l) → (∀ e ∈ l', ¬ dueAt tick e.2) →
      ∀ e ∈ l', removed e = false ∧ due (fun _ => tick) e = false := fun hsub hnot e he =>
    ⟨(h e (hsub e he)).not_removed, Bool.not_eq_true _ ▸ mt (h e (hsub e he)).due_iff.1 (hnot e he)⟩
  cases hfirst : l.find? fun e => decide (dueAt tick e.2) with
  | none =>
    have hnot : ∀ e ∈ l, ¬ dueAt tick e.2 := fun e he =>
      of_decide_eq_false (by simpa using List.find?_eq_none.1 hfirst e he)
    exact .inl ⟨hnot, scan_none (pass (fun e he => he) hnot)⟩
  | some e =>
    obtain ⟨hd, l₁, l₂, rfl, hbefore⟩ := List.find?_eq_some_iff_append.1 hfirst
    have hdue : dueAt tick e.2 := of_decide_eq_true hd
    have hnot : ∀ f ∈ l₁, ¬ dueAt tick f.2 := fun f hf => by simpa using hbefore f hf
    have hcalm := h e (by simp)
    refine .inr ⟨l₁, e.1, e.2, l₂, rfl, hnot, hdue, ?_⟩
    rw [← hcalm.queried hdue]
    exact scan_at (pass (fun f hf => by simp [hf]) hnot) (hcalm.due_iff.2 hdue)

theorem calm_call {ticks : List UInt32} (h : ∀ e ∈ s.timer.entries, Calm ticks e.2) (t : Fin n) (ht : tick ∈ ticks) :
    ∀ e ∈ (s.call t tick).timer.entries, Calm ticks e.2 := by
  intro e he
  obtain ⟨-, hscan⟩ | ⟨l₁, id, u, l₂, hl, -, -, hscan⟩ := scan_calm h tick
  · have hsame : (s.call t tick).timer.entries = s.timer.entries := congrArg Scan.timers hscan
    exact h e (hsame ▸ he)
  · have hentries : (s.call t tick).timer.entries = l₁ ++ (id, fire tick u) :: l₂ := congrArg Scan.timers hscan
    rw [hentries] at he
    rcases List.mem_append.1 he with he | he
    · exact h e (by simp [hl, he])
    · rcases List.mem_cons.1 he with rfl | he
      · exact (h (id, u) (by simp [hl])).fire ht
      · exact h e (by simp [hl, he])

/-! ## Calls at one tick -/

/-- The timers that are due, in order. -/
def dueIds (tick : UInt32) (l : List (UInt32 × CTimer)) : List UInt32 :=
  (l.filter fun e => decide (dueAt tick e.2)).map Prod.fst

def fireDue (tick : UInt32) (e : UInt32 × CTimer) : UInt32 × CTimer :=
  if dueAt tick e.2 then (e.1, fire tick e.2) else e

theorem idle_calls (h : ∀ e ∈ s.timer.entries, Calm [tick] e.2) (hnot : ∀ e ∈ s.timer.entries, ¬ dueAt tick e.2)
    (j : Nat) :
    (history t s (List.replicate j tick)).map Prod.snd = List.replicate j none ∧
      (calls t s (List.replicate j tick)).timer.entries = s.timer.entries := by
  induction j generalizing s with
  | zero => exact ⟨rfl, rfl⟩
  | succ j ih =>
    obtain ⟨-, hscan⟩ | ⟨l₁, id, u, l₂, hl, -, hdue, -⟩ := scan_calm h tick
    · have hsame : (s.call t tick).timer.entries = s.timer.entries := congrArg Scan.timers hscan
      have hnone : s.executed tick = none := by rw [State.executed, hscan]; rfl
      obtain ⟨hh, hc⟩ := ih (s := s.call t tick) (hsame ▸ h) (hsame ▸ hnot)
      simp only [List.replicate_succ, history, calls, List.map_cons, hnone, hh, hc, hsame, and_self]
    · exact absurd hdue (hnot (id, u) (by simp [hl]))

theorem dueIds_nil {l : List (UInt32 × CTimer)} (hnot : ∀ e ∈ l, ¬ dueAt tick e.2) : dueIds tick l = [] := by
  simpa [dueIds, List.filter_eq_nil_iff] using hnot

theorem map_fireDue {l : List (UInt32 × CTimer)} (hnot : ∀ e ∈ l, ¬ dueAt tick e.2) : l.map (fireDue tick) = l := by
  have hsame : ∀ e ∈ l, fireDue tick e = e := fun e he => if_neg (hnot e he)
  rw [List.map_congr_left hsame, List.map_id']

/-- The first timer that is due leaves those that are. -/
theorem dueIds_first {l₁ : List (UInt32 × CTimer)} (l₂ : List (UInt32 × CTimer)) (id : UInt32) {u : CTimer}
    (hnot : ∀ e ∈ l₁, ¬ dueAt tick e.2) (hdue : dueAt tick u) :
    dueIds tick (l₁ ++ (id, u) :: l₂) = id :: dueIds tick l₂ ∧
      dueIds tick (l₁ ++ (id, fire tick u) :: l₂) = dueIds tick l₂ := by
  have hnil := dueIds_nil hnot
  have hfired := not_due_fire tick u
  simp only [dueIds] at hnil ⊢
  simp only [List.filter_append, List.map_append, hnil, List.nil_append, List.filter_cons, hdue, hfired, decide_true,
    decide_false, if_true, Bool.false_eq_true, if_false, List.map_cons, and_self]

theorem due_once_from (h : ∀ e ∈ s.timer.entries, Calm [tick] e.2) (j : Nat) {ids : List UInt32}
    (hids : dueIds tick s.timer.entries = ids) :
    (history t s (List.replicate (ids.length + j) tick)).map Prod.snd = ids.map some ++ List.replicate j none ∧
      (calls t s (List.replicate (ids.length + j) tick)).timer.entries = s.timer.entries.map (fireDue tick) := by
  induction ids generalizing s with
  | nil =>
    have hnot : ∀ e ∈ s.timer.entries, ¬ dueAt tick e.2 := by
      simpa [dueIds, List.filter_eq_nil_iff] using hids
    rw [map_fireDue hnot, List.length_nil, Nat.zero_add]
    exact idle_calls h hnot j
  | cons id ids ih =>
    obtain ⟨hnot, -⟩ | ⟨l₁, id', u, l₂, hl, hnot, hdue, hscan⟩ := scan_calm h tick
    · rw [dueIds_nil hnot] at hids
      cases hids
    · obtain ⟨hbefore, hafter⟩ := dueIds_first l₂ id' hnot hdue
      rw [hl, hbefore] at hids
      cases hids
      have hentries : (s.call t tick).timer.entries = l₁ ++ (id, fire tick u) :: l₂ := congrArg Scan.timers hscan
      have hexec : s.executed tick = some id := by rw [State.executed, hscan]; rfl
      obtain ⟨hh, hc⟩ := ih (calm_call h t (List.mem_singleton_self tick)) (by rw [hentries, hafter])
      have hmap : (l₁ ++ (id, fire tick u) :: l₂).map (fireDue tick) = (l₁ ++ (id, u) :: l₂).map (fireDue tick) := by
        simp [fireDue, hdue, not_due_fire]
      rw [List.length_cons, Nat.add_right_comm, List.replicate_succ]
      simp only [history, calls, List.map_cons, List.cons_append, hexec, hh, hc, hentries, hmap, hl, and_self]

/-- **Each timer that is due is executed once**, the lowest id first, and the others are left as they are. -/
theorem due_once (h : ∀ e ∈ s.timer.entries, Calm [tick] e.2) (t : Fin n) (j : Nat) :
    (dueIds tick s.timer.entries).Pairwise (· < ·) ∧
    (history t s (List.replicate ((dueIds tick s.timer.entries).length + j) tick)).map Prod.snd =
      (dueIds tick s.timer.entries).map some ++ List.replicate j none ∧
    (calls t s (List.replicate ((dueIds tick s.timer.entries).length + j) tick)).timer.entries =
      s.timer.entries.map (fireDue tick) :=
  ⟨s.timer.keys_sorted.sublist (List.filter_sublist.map Prod.fst), due_once_from h j rfl⟩

/-- Three timers, of which the second is suspended. -/
def secondSuspended : State 1 :=
  ⟨fun _ => .idle, ⟨[sample 1 10 .wait, sample 2 10 .suspend, sample 3 20 .wait], by decide⟩, 3, 4, []⟩

theorem due_once_three : (history 0 secondSuspended [100, 100, 100]).map Prod.snd = [some 1, some 3, none] :=
  (@due_once 1 secondSuspended 100 (by
    intro e he
    simp only [secondSuspended, List.mem_cons, List.not_mem_nil, or_false] at he
    rcases he with rfl | rfl | rfl <;> exact ⟨by decide, by decide, List.forall_mem_singleton.2 (by decide)⟩) 0 1).2.1

/-! ## Calls one after the other -/

section
variable {ticks before between : List UInt32} {tick' a b : UInt32}

/-- A call executes the lowest timer that is due. -/
theorem call_cases (h : ∀ e ∈ s.timer.entries, Calm ticks e.2) (t : Fin n) (tick : UInt32) :
    (s.executed tick = none ∧ (∀ id u, s.timer.find id = some u → ¬ dueAt tick u) ∧
      (s.call t tick).timer = s.timer) ∨
    ∃ id u, s.executed tick = some id ∧ s.timer.find id = some u ∧ dueAt tick u ∧
      (∀ id' u', id' < id → s.timer.find id' = some u' → ¬ dueAt tick u') ∧
      (s.call t tick).timer = s.timer.set id (fire tick u) := by
  obtain ⟨hnot, hscan⟩ | ⟨l₁, id, u, l₂, hl, hnot, hdue, hscan⟩ := scan_calm h tick
  · refine .inl ⟨by rw [State.executed, hscan]; rfl, ?_, OrdMap.ext_entries (congrArg Scan.timers hscan)⟩
    intro id u hu
    exact hnot (id, u) (OrdMap.mem_entries.2 hu)
  · have hsorted := s.timer.sorted
    rw [hl] at hsorted
    refine .inr ⟨id, u, by rw [State.executed, hscan]; rfl, OrdMap.mem_entries.1 (by simp [hl]), hdue, ?_, ?_⟩
    · intro id' u' hlt hu'
      have hmem := OrdMap.mem_entries.2 hu'
      rw [hl] at hmem
      rcases List.mem_append.1 hmem with hmem | hmem
      · exact hnot _ hmem
      · -- from `id` on the ids only grow
        have hge : id ≤ id' := by
          rcases List.mem_cons.1 hmem with heq | hmem
          · exact (congrArg Prod.fst heq).ge
          · exact ((List.pairwise_cons.1 (List.pairwise_append.1 hsorted).2.1).1 _ hmem).le
        exact absurd hlt (not_lt_of_ge hge)
    · refine OrdMap.ext_entries ?_
      rw [OrdMap.entries_set hl]
      exact congrArg Scan.timers hscan

theorem calls_append (s : State n) (before between : List UInt32) :
    calls t s (before ++ between) = calls t (calls t s before) between := by
  induction before generalizing s with
  | nil => rfl
  | cons tick before ih => exact ih (s.call t tick)

theorem calm_calls (h : ∀ e ∈ s.timer.entries, Calm ticks e.2) (hsub : before ⊆ ticks) :
    ∀ e ∈ (calls t s before).timer.entries, Calm ticks e.2 := by
  induction before generalizing s with
  | nil => exact h
  | cons tick before ih =>
    exact ih (calm_call h t (hsub List.mem_cons_self)) fun k hk => hsub (List.mem_cons_of_mem _ hk)

/-- A timer that is not executed stays as it is. -/
theorem find_calls (h : ∀ e ∈ s.timer.entries, Calm ticks e.2) (hsub : between ⊆ ticks)
    (hkept : ∀ p ∈ history t s between, p.2 ≠ some b) : (calls t s between).timer.find b = s.timer.find b := by
  induction between generalizing s with
  | nil => rfl
  | cons tick between ih =>
    have hrest := ih (calm_call h t (hsub List.mem_cons_self)) (fun k hk => hsub (List.mem_cons_of_mem _ hk))
      fun p hp => hkept p (List.mem_cons_of_mem _ hp)
    refine Eq.trans hrest ?_
    obtain ⟨-, -, htimer⟩ | ⟨id, u, hexec, -, -, -, htimer⟩ := call_cases h t tick
    · rw [htimer]
    · have hne : id ≠ b := fun he => hkept _ List.mem_cons_self (by simp [hexec, he])
      rw [htimer, OrdMap.find_set_ne hne.symm]

/-- A timer has last been executed at the last of the calls that have executed it. -/
theorem last_calls (h : ∀ e ∈ s.timer.entries, Calm ticks e.2) (hsub : between ⊆ ticks)
    (horder : between.Pairwise (· ≤ ·)) {u : CTimer} (hu : s.timer.find a = some u) :
    ∃ u', (calls t s between).timer.find a = some u' ∧
      (∀ p ∈ history t s between, p.2 = some a → p.1 ≤ u'.lastExcuteTime) ∧
      ∀ k, k ≤ u.lastExcuteTime → (∀ j ∈ between, k ≤ j) → k ≤ u'.lastExcuteTime := by
  induction between generalizing s u with
  | nil => exact ⟨u, hu, by simp [history], fun k hk _ => hk⟩
  | cons tick between ih =>
    obtain ⟨hfirst, horder⟩ := List.pairwise_cons.1 horder
    have hcalm := calm_call h t (hsub List.mem_cons_self)
    have hsub' : between ⊆ ticks := fun k hk => hsub (List.mem_cons_of_mem _ hk)
    by_cases hexec : s.executed tick = some a
    · -- executed by this call
      have hfire : (s.call t tick).timer.find a = some (fire tick u) := by
        obtain ⟨hnone, -⟩ | ⟨id, v, hsome, hv, -, -, htimer⟩ := call_cases h t tick
        · rw [hexec] at hnone
          cases hnone
        · rw [hexec] at hsome
          cases hsome
          rw [hu] at hv
          cases hv
          rw [htimer, OrdMap.find_set_self]
      obtain ⟨u', hu', hhist, hlow⟩ := ih hcalm hsub' horder hfire
      refine ⟨u', hu', ?_, ?_⟩
      · intro p hp hpa
        rcases List.mem_cons.1 hp with rfl | hp
        · exact hlow tick le_rfl hfirst
        · exact hhist p hp hpa
      · intro k hk hall
        exact hlow k (hall tick List.mem_cons_self) fun j hj => hall j (List.mem_cons_of_mem _ hj)
    · have hsame : (s.call t tick).timer.find a = some u := by
        obtain ⟨-, -, htimer⟩ | ⟨id, v, hsome, -, -, -, htimer⟩ := call_cases h t tick
        · rw [htimer, hu]
        · have hne : a ≠ id := fun he => hexec (he ▸ hsome)
          rw [htimer, OrdMap.find_set_ne hne, hu]
      obtain ⟨u', hu', hhist, hlow⟩ := ih hcalm hsub' horder hsame
      refine ⟨u', hu', ?_, ?_⟩
      · intro p hp hpa
        rcases List.mem_cons.1 hp with rfl | hp
        · exact absurd hpa hexec
        · exact hhist p hp hpa
      · intro k hk hall
        exact hlow k hk fun j hj => hall j (List.mem_cons_of_mem _ hj)

/-- Timer `b` is due where `a` is executed, and is not executed by the calls after that one. -/
structure Passed (s : State n) (t : Fin n) (before : List UInt32) (tick : UInt32) (between : List UInt32)
    (tick' a b : UInt32) : Prop where
  calm : ∀ e ∈ s.timer.entries, Calm (before ++ (tick :: between ++ [tick'])) e.2
  order : (before ++ (tick :: between ++ [tick'])).Pairwise (· ≤ ·)
  executed : (calls t s before).executed tick = some a
  due : ∃ u, (calls t s before).timer.find b = some u ∧ dueAt tick u
  other : a ≠ b
  kept : ∀ p ∈ history t (calls t s (before ++ [tick])) between, p.2 ≠ some b

/-- **Whose turn it is**: `b` is still due, the lowest timer that is due is executed, and it is `a` again only if `a` is
below `b` and due anew since each of its executions. -/
theorem turns (h : Passed s t before tick between tick' a b) :
    (∃ u, (calls t s (before ++ tick :: between)).timer.find b = some u ∧ dueAt tick' u) ∧
    (∃ c u, (calls t s (before ++ tick :: between)).executed tick' = some c ∧ c ≤ b ∧
      (calls t s (before ++ tick :: between)).timer.find c = some u ∧ dueAt tick' u ∧
      ∀ id v, id < c → (calls t s (before ++ tick :: between)).timer.find id = some v → ¬ dueAt tick' v) ∧
    ((calls t s (before ++ tick :: between)).executed tick' = some a → a < b ∧
      ∃ u, (calls t s (before ++ tick :: between)).timer.find a = some u ∧
        ∀ p ∈ history t (calls t s before) (tick :: between), p.2 = some a →
          p.1.toNat + u.interval.toNat < tick'.toNat) := by
  have hsub : before ⊆ before ++ (tick :: between ++ [tick']) := List.subset_append_left ..
  have hsub' : tick :: between ⊆ before ++ (tick :: between ++ [tick']) := fun k hk =>
    List.mem_append_right _ (List.mem_append_left _ hk)
  obtain ⟨-, horder, -⟩ := List.pairwise_append.1 h.order
  obtain ⟨horder', -, hlast⟩ := List.pairwise_append.1 horder
  have hle : tick.toNat ≤ tick'.toNat := UInt32.le_iff_toNat_le.1 (hlast tick (by simp) tick' (by simp))
  obtain ⟨v, hv, hdue⟩ := h.due
  have hexec := h.executed
  have hkept := h.kept
  rw [calls_append] at hkept ⊢
  have hcalm₁ : ∀ e ∈ (calls t s before).timer.entries, Calm _ e.2 := calm_calls h.calm hsub
  generalize calls t s before = s₁ at hv hexec hkept hcalm₁ ⊢
  -- `b` is left alone
  have hb : (calls t s₁ (tick :: between)).timer.find b = some v := by
    refine (find_calls hcalm₁ hsub' ?_).trans hv
    intro p hp
    rcases List.mem_cons.1 hp with rfl | hp
    · simpa [hexec] using h.other
    · exact hkept p hp
  have hdue' : dueAt tick' v := ⟨hdue.1, by have := hdue.2; omega⟩
  have hcalm₂ : ∀ e ∈ (calls t s₁ (tick :: between)).timer.entries, Calm _ e.2 := calm_calls hcalm₁ hsub'
  refine ⟨⟨v, hb, hdue'⟩, ?_⟩
  obtain ⟨-, hnot, -⟩ | ⟨c, u, hc, hu, hduec, hlow, -⟩ := call_cases hcalm₂ t tick'
  · exact absurd hdue' (hnot b v hb)
  · have hcb : c ≤ b := le_of_not_gt fun hlt => hlow b v hlt hb hdue'
    refine ⟨⟨c, u, hc, hcb, hu, hduec, hlow⟩, ?_⟩
    intro ha
    obtain rfl : c = a := Option.some.inj (hc.symm.trans ha)
    refine ⟨lt_of_le_of_ne hcb h.other, u, hu, ?_⟩
    intro p hp hpa
    -- what `a` remembers is its last execution
    obtain ⟨w, hw⟩ : ∃ w, s₁.timer.find c = some w := by
      obtain ⟨hnone, -⟩ | ⟨id, w, hsome, hw, -⟩ := call_cases hcalm₁ t tick
      · rw [hexec] at hnone
        cases hnone
      · rw [hexec] at hsome
        cases hsome
        exact ⟨w, hw⟩
    obtain ⟨u', hu', hhist, -⟩ := last_calls hcalm₁ hsub' horder' hw
    obtain rfl : u = u' := Option.some.inj (hu.symm.trans hu')
    have hlast := UInt32.le_iff_toNat_le.1 (hhist p hp hpa)
    have := hduec.2
    omega

/-- Two timers for every ten milliseconds. -/
def everyTen : State 1 := ⟨fun _ => .idle, ⟨[sample 1 10 .wait, sample 2 10 .wait], by decide⟩, 2, 3, []⟩

theorem everyTen_calm (tick tick' : UInt32) (h : tick.toNat + 10 < 2 ^ 32) (h' : tick'.toNat + 10 < 2 ^ 32) :
    ∀ e ∈ everyTen.timer.entries, Calm [tick, tick'] e.2 := by
  intro e he
  simp only [everyTen, List.mem_cons, List.not_mem_nil, or_false] at he
  have hticks : ∀ k ∈ [tick, tick'], k.toNat + 10 < 2 ^ 32 :=
    List.forall_mem_cons.2 ⟨h, List.forall_mem_singleton.2 h'⟩
  rcases he with rfl | rfl <;> exact ⟨by decide, by decide, hticks⟩

/-- At 105 the second one's turn comes. -/
theorem turns_two : (everyTen.call 0 100).executed 105 = some 2 ∧
    ∃ u, (everyTen.call 0 100).timer.find 2 = some u ∧ dueAt 105 u :=
  ⟨rfl, (@turns 1 everyTen 0 100 [] [] 105 1 2
    ⟨everyTen_calm _ _ (by decide) (by decide), by decide, rfl, ⟨_, rfl, by decide⟩, by decide, List.forall_mem_nil _⟩).1⟩

/-- The second one is due at 100 and at 200, and the first one is executed both times. -/
theorem not_turns : ¬ ∀ (s : State 1) (t : Fin 1) (before : List UInt32) (tick : UInt32) (between : List UInt32)
    (tick' a b : UInt32), (∀ e ∈ s.timer.entries, e.2.state = .wait) → Passed s t before tick between tick' a b →
    (calls t s (before ++ tick :: between)).executed tick' ≠ some a := by
  intro h
  refine h everyTen 0 [] 100 [] 200 1 2 (by decide) ?_ rfl
  exact ⟨everyTen_calm _ _ (by decide) (by decide), by decide, rfl, ⟨_, rfl, by decide⟩, by decide, List.forall_mem_nil _⟩

end

end P1Server.TimerManager
