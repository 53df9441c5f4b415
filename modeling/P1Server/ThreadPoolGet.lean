import P1Server.ThreadPool

/-!
# Does `GetThreadTask` find a task?

The loop takes the task with the least quotient below 1, of the time since its last run by that time and the length of
that run. With 32-bit values the quotient is not below 1 where the two together wrap (the tick is read outside the lock,
so the time since the last run may be a little less than 0), and `(UINT)-1` stands for no task. How the quotients are
computed does not matter.

* `selectTid_first` — the loop: the first of the tasks with the least quotient below 1;
* `finds_iff` — a task is returned whenever there is one, just where one that may run has a quotient below 1, not above
  that of the task with the id `(UINT)-1`;
* `not_finds` — one worker reads the clock before another one ends a run.
-/

namespace P1Server.ThreadPool
open Lib

variable {n : Nat} {q : Ratio} {s s' : State n}

/-! ## The loop -/

/-- The loop keeps what it has, or finds the first of the tasks with the least quotient. -/
theorem selectTid_first (tick a b : UInt32) (tempTid : UInt32) (l : List (UInt32 × ThreadTask)) :
    (selectTid q tick l (q.div a b) tempTid = tempTid ∧
      ∀ x ∈ l, x.2.eligible = true → q.lt (x.2.timeLv q tick) (q.div a b) = false) ∨
    ∃ l₁ p l₂, l = l₁ ++ p :: l₂ ∧ selectTid q tick l (q.div a b) tempTid = p.1 ∧ p.2.eligible = true ∧
      q.lt (p.2.timeLv q tick) (q.div a b) = true ∧
      (∀ x ∈ l, x.2.eligible = true → q.lt (x.2.timeLv q tick) (p.2.timeLv q tick) = false) ∧
      ∀ x ∈ l₁, x.2.eligible = true → q.lt (x.2.timeLv q tick) (q.div a b) = true →
        q.lt (p.2.timeLv q tick) (x.2.timeLv q tick) = true := by
  induction l generalizing a b tempTid with
  | nil => exact .inl ⟨rfl, by simp⟩
  | cons x l ih =>
    obtain ⟨tid, t⟩ := x
    simp only [selectTid]
    split
    case isTrue hx =>
      obtain ⟨hel, hlt⟩ := Bool.and_eq_true_iff.1 hx
      rcases ih (tick - t.lastruntime) (tick - t.lastruntime + t.runtime) tid with
        ⟨hres, hrest⟩ | ⟨l₁, p, l₂, hl, hres, hp, hpmin, hleast, hfirst⟩
      · -- nothing below it follows
        refine .inr ⟨[], (tid, t), l, rfl, hres, hel, hlt, fun x hm hxel => ?_, by simp⟩
        rcases List.mem_cons.1 hm with rfl | hm
        · exact q.irrefl ..
        · exact hrest x hm hxel
      · have hpm := q.trans hpmin hlt
        refine .inr ⟨(tid, t) :: l₁, p, l₂, by rw [hl]; rfl, hres, hp, hpm, fun x hm hxel => ?_,
          fun x hm hxel hxmin => ?_⟩
        · rcases List.mem_cons.1 hm with rfl | hm
          · exact q.asymm hpmin
          · exact hleast x hm hxel
        · rcases List.mem_cons.1 hm with rfl | hm
          · exact hpmin
          · cases hxt : q.lt (x.2.timeLv q tick) (t.timeLv q tick) with
            | true => exact hfirst x hm hxel hxt
            | false => exact q.of_not hpmin hxt (q.pos hxmin)
    case isFalse hx =>
      have hnot : t.eligible = true → q.lt (t.timeLv q tick) (q.div a b) = false := fun hel => by simpa [hel] using hx
      rcases ih a b tempTid with ⟨hres, hrest⟩ | ⟨l₁, p, l₂, hl, hres, hp, hpmin, hleast, hfirst⟩
      · refine .inl ⟨hres, ?_⟩
        intro x hm hxel
        rcases List.mem_cons.1 hm with rfl | hm
        · exact hnot hxel
        · exact hrest x hm hxel
      · refine .inr ⟨(tid, t) :: l₁, p, l₂, by rw [hl]; rfl, hres, hp, hpmin, fun x hm hxel => ?_,
          fun x hm hxel hxmin => ?_⟩
        · rcases List.mem_cons.1 hm with rfl | hm
          · refine Bool.eq_false_iff.2 ?_
            intro hlt
            exact Bool.eq_false_iff.1 (hnot hxel) (q.trans hlt hpmin)
          · exact hleast x hm hxel
        · rcases List.mem_cons.1 hm with rfl | hm
          · rw [hnot hxel] at hxmin
            cases hxmin
          · exact hfirst x hm hxel hxmin

/-- The minimum is 1 at the start. -/
theorem selectTid_one (tick : UInt32) (l : List (UInt32 × ThreadTask)) :
    (selectTid q tick l q.one (-1) = -1 ∧ ∀ x ∈ l, x.2.eligible = true → q.lt (x.2.timeLv q tick) q.one = false) ∨
    ∃ l₁ p l₂, l = l₁ ++ p :: l₂ ∧ selectTid q tick l q.one (-1) = p.1 ∧ p.2.eligible = true ∧
      q.lt (p.2.timeLv q tick) q.one = true ∧
      (∀ x ∈ l, x.2.eligible = true → q.lt (x.2.timeLv q tick) (p.2.timeLv q tick) = false) ∧
      ∀ x ∈ l₁, x.2.eligible = true → q.lt (x.2.timeLv q tick) q.one = true →
        q.lt (p.2.timeLv q tick) (x.2.timeLv q tick) = true := by
  rw [q.one_eq]
  exact selectTid_first tick 1 1 (-1) l

/-! ## The runs in which no task is removed -/

def NoRemove (_ : State n) : Act n → Prop
  | .remove _ => False
  | _ => True

instance (s : State n) : ∀ a, Decidable (NoRemove s a)
  | .remove _ => .isFalse id
  | .add .. | .close | .run .. => .isTrue trivial

/-- An entry as `AddThreadTask` and the workers leave it. -/
structure Proper (tid : UInt32) (e : ThreadTask) : Prop where
  tid : e.tid = tid
  cb : e.cb ≠ 0
  param : e.param ≠ 0
  runtime : e.runtime ≠ 0

structure Entries (s : State n) : Prop where
  proper : ∀ tid e, s.mapTask.find tid = some e → Proper tid e
  held : ∀ t task, held (s.pc t) = some task → ∃ e, s.mapTask.find task.tid = some e

theorem Proper.dispatch {tid : UInt32} {e : ThreadTask} (h : Proper tid e) : Proper tid e.dispatch :=
  ⟨h.tid, h.cb, h.param, h.runtime⟩

theorem Proper.recordRun {tid : UInt32} {e : ThreadTask} (h : Proper tid e) (tick endtick : UInt32) :
    Proper tid (e.recordRun tick endtick) := by
  refine ⟨h.tid, h.cb, h.param, ?_⟩
  simp only [ThreadTask.recordRun]
  split
  case isTrue hne => exact sub_ne_zero_of_ne hne
  case isFalse => decide

/-- An entry is put in; who holds a task holds it from before, or holds this one. -/
theorem Entries.set (h : Entries s) {tid : UInt32} {e : ThreadTask} (he : Proper tid e)
    (hm : s'.mapTask = s.mapTask.set tid e)
    (hh : ∀ u task, ThreadPool.held (s'.pc u) = some task → task.tid = tid ∨ ThreadPool.held (s.pc u) = some task) :
    Entries s' := by
  refine ⟨?_, ?_⟩
  · intro k f hf
    rw [hm, OrdMap.find_set] at hf
    split at hf
    case isTrue hk =>
      cases hf
      exact hk ▸ he
    case isFalse => exact h.proper k f hf
  · intro u task hu
    rw [hm, OrdMap.find_set]
    split
    case isTrue => exact ⟨e, rfl⟩
    case isFalse hk =>
      rcases hh u task hu with hk' | hu
      · exact absurd hk' hk
      · exact h.held u task hu

theorem Entries.step (h : Entries s) {a : Act n} (hk : NoRemove s a) (he : step q s a = some s') : Entries s' := by
  cases move he with
  | quiet _ hp hm _ => exact ⟨hm ▸ h.proper, fun u task hu => hm ▸ h.held u task (hp u ▸ hu)⟩
  | erase tid e ha =>
    subst ha
    exact hk.elim
  | add task now ha hcb hparam htid hnum hs =>
    subst ha
    simp only [ThreadPool.step, if_neg (not_or.2 ⟨hcb, hparam⟩)] at he
    cases he
    have hone : (1 : UInt32) ≠ 0 := by decide
    exact h.set (e := ⟨s.tid, task.param, task.cb, task.runtimes, task.mulNum, 0, 1, now⟩) ⟨rfl, hcb, hparam, hone⟩ rfl
      fun u task hu => .inr hu
  | start t tick tid e _ ht hf hel hcb hpc hm _ =>
    refine h.set (h.proper tid e hf).dispatch hm ?_
    intro u task hu
    rw [hpc] at hu
    rcases see_update ThreadPool.held hu with ⟨-, hp⟩ | ⟨-, hu⟩
    · cases hp
      exact .inl (h.proper tid e hf).tid
    · exact .inr hu
  | skip tid e _ hf hnull hp hm _ =>
    exact h.set (h.proper tid e hf).dispatch hm fun u task hu => .inr (hp u ▸ hu)
  | record t tick endtick now task junk ha _ ht hpc hm _ =>
    obtain ⟨e, hf⟩ := h.held t task (by rw [ht]; rfl)
    rw [at_, hf] at hm
    refine h.set ((h.proper _ e hf).recordRun tick endtick) hm ?_
    intro u task' hu
    rw [hpc] at hu
    rcases see_update ThreadPool.held hu with ⟨-, hp⟩ | ⟨-, hu⟩
    · cases hp
    · exact .inr hu

theorem entries (h : (sys q n).Reach NoRemove s) : Entries s := by
  refine Sys.Reach.inv ?_ (fun s a s' hi hk he => hi.step hk he) h
  intro s hs
  cases (hs : s = _)
  exact ⟨by simp, by simp [held]⟩

/-! ## What a call returns -/

/-- A task is returned: one the worker will run. -/
def returned (r : ThreadTask × Tasks) : Prop := r.1.cb ≠ 0 ∧ r.1.param ≠ 0

def CanRun (m : Tasks) : Prop := ∃ tid e, m.find tid = some e ∧ e.eligible = true

/-- A task is returned just if there is one to run, it is one, and only its entry changes. -/
structure Finds (q : Ratio) (m : Tasks) (tick : UInt32) (junk : ThreadTask) : Prop where
  returns : returned (getThreadTask q m tick junk) ↔ CanRun m
  entry : returned (getThreadTask q m tick junk) → ∃ tid e, m.find tid = some e ∧ e.eligible = true ∧
    getThreadTask q m tick junk = (e.dispatch, m.set tid e.dispatch)
  unchanged : ¬ returned (getThreadTask q m tick junk) → (getThreadTask q m tick junk).2 = m

/-- The time since the last run and the length of that run do not wrap together. -/
def Counts (tick : UInt32) (e : ThreadTask) : Prop := (tick - e.lastruntime).toNat + e.runtime.toNat < 2 ^ 32

/-- If a task may run, then one that counts, and that does not give way to one with the id that stands for none. -/
def Visible (q : Ratio) (m : Tasks) (tick : UInt32) : Prop := CanRun m →
  ∃ tid e, m.find tid = some e ∧ e.eligible = true ∧ Counts tick e ∧ tid ≠ -1 ∧
    ∀ f, m.find (-1) = some f → f.eligible = true → q.lt (f.timeLv q tick) (e.timeLv q tick) = false

/-- The quotient is below 1. -/
theorem lt_one_iff {tick : UInt32} {e : ThreadTask} (hr : e.runtime ≠ 0) :
    q.lt (e.timeLv q tick) q.one = true ↔ Counts tick e := by
  have hpos : e.runtime.toNat ≠ 0 := fun hz => hr (UInt32.toNat_inj.1 hz)
  have h1 := (tick - e.lastruntime).toNat_lt
  have h2 := e.runtime.toNat_lt
  rw [ThreadTask.timeLv, q.lt_one, UInt32.lt_iff_toNat_lt, UInt32.toNat_add, Counts]
  omega

section
variable {tick : UInt32} {junk : ThreadTask}

/-- Nothing is returned, or the entry of a task that may run. -/
theorem returned_cases (h : Entries s) (tick : UInt32) (junk : ThreadTask) :
    (¬ returned (getThreadTask q s.mapTask tick junk) ∧ getThreadTask q s.mapTask tick junk = (.fresh junk, s.mapTask)) ∨
    returned (getThreadTask q s.mapTask tick junk) ∧ ∃ tid e, s.mapTask.find tid = some e ∧ e.eligible = true ∧
      getThreadTask q s.mapTask tick junk = (e.dispatch, s.mapTask.set tid e.dispatch) := by
  rcases getThreadTask_cases (q := q) s.mapTask tick junk with hg | ⟨tid, e, hf, hel, hg⟩
  · exact .inl ⟨fun hret => by rw [hg] at hret; exact hret.1 rfl, hg⟩
  · refine .inr ⟨?_, tid, e, hf, hel, hg⟩
    rw [hg]
    exact ⟨(h.proper tid e hf).cb, (h.proper tid e hf).param⟩

theorem returned_iff (h : Entries s) :
    returned (getThreadTask q s.mapTask tick junk) ↔ selectTid q tick s.mapTask.entries q.one (-1) ≠ -1 := by
  by_cases hsel : selectTid q tick s.mapTask.entries q.one (-1) = -1
  · simp [getThreadTask, hsel, returned, ThreadTask.fresh]
  · refine iff_of_true ?_ hsel
    rcases selectTid_one tick s.mapTask.entries with ⟨hres, -⟩ | ⟨l₁, p, l₂, hl, hres, -⟩
    · exact absurd hres hsel
    · have hf : s.mapTask.find p.1 = some p.2 := OrdMap.mem_entries.1 (by simp [hl])
      have hp := (h.proper p.1 p.2 hf).dispatch
      rw [hres] at hsel
      simp only [getThreadTask, hres, ne_eq, hsel, not_false_eq_true, if_true, at_, hf, Option.getD_some]
      exact ⟨hp.cb, hp.param⟩

/-- The loop ends with a task, and not with the id that stands for none. -/
theorem selectTid_ne_iff (h : Entries s) : selectTid q tick s.mapTask.entries q.one (-1) ≠ -1 ↔
    ∃ tid e, s.mapTask.find tid = some e ∧ e.eligible = true ∧ Counts tick e ∧ tid ≠ -1 ∧
      ∀ f, s.mapTask.find (-1) = some f → f.eligible = true → q.lt (f.timeLv q tick) (e.timeLv q tick) = false := by
  have hlast : ∀ k : UInt32, ¬ (-1 : UInt32) < k := fun k hlt => by
    have := UInt32.lt_iff_toNat_lt.1 hlt
    have := k.toNat_lt
    simp at *
    omega
  rcases selectTid_one tick s.mapTask.entries with
    ⟨hres, hnone⟩ | ⟨l₁, p, l₂, hl, hres, hel, hmin, hleast, hfirst⟩
  · refine iff_of_false (fun hne => hne hres) ?_
    rintro ⟨tid, e, hf, hel, hcounts, -⟩
    have hlt := (lt_one_iff (q := q) (h.proper tid e hf).runtime).2 hcounts
    rw [hnone (tid, e) (OrdMap.mem_entries.2 hf) hel] at hlt
    cases hlt
  · have hp : s.mapTask.find p.1 = some p.2 := OrdMap.mem_entries.1 (by simp [hl])
    rw [hres]
    constructor
    · intro hne
      refine ⟨p.1, p.2, hp, hel, (lt_one_iff (q := q) (h.proper p.1 p.2 hp).runtime).1 hmin, hne, ?_⟩
      intro f hf hfel
      exact hleast (-1, f) (OrdMap.mem_entries.2 hf) hfel
    · rintro ⟨tid, e, hf, heel, hcounts, htid, hgive⟩ hpid
      -- the entry of `(UINT)-1` is the last one, so `e` is before it and would have been kept
      have hmem : (tid, e) ∈ l₁ ++ p :: l₂ := hl ▸ OrdMap.mem_entries.2 hf
      have hsorted := s.mapTask.sorted
      rw [hl] at hsorted
      have hle := (List.pairwise_cons.1 (List.pairwise_append.1 hsorted).2.1).1
      rcases List.mem_append.1 hmem with hmem | hmem
      · have hbelow := hfirst (tid, e) hmem heel ((lt_one_iff (q := q) (h.proper tid e hf).runtime).2 hcounts)
        rw [hgive p.2 (hpid ▸ hp) hel] at hbelow
        cases hbelow
      · rcases List.mem_cons.1 hmem with heq | hmem
        · exact htid ((congrArg Prod.fst heq).trans hpid)
        · exact hlast tid (hpid ▸ hle _ hmem)

/-- **`GetThreadTask` finds a task** whenever there is one, just where one of those that may run counts. -/
theorem finds_iff (h : (sys q n).Reach NoRemove s) (tick : UInt32) (junk : ThreadTask) :
    Finds q s.mapTask tick junk ↔ Visible q s.mapTask tick := by
  have hen := entries h
  constructor
  · intro hfinds hcan
    exact (selectTid_ne_iff hen).1 ((returned_iff hen).1 (hfinds.returns.2 hcan))
  · intro hvis
    rcases returned_cases hen tick junk with ⟨hnot, hg⟩ | ⟨hret, tid, e, hf, hel, hg⟩
    · refine ⟨iff_of_false hnot fun hcan => hnot ?_, fun hret => absurd hret hnot, fun _ => congrArg Prod.snd hg⟩
      exact (returned_iff hen).2 ((selectTid_ne_iff hen).2 (hvis hcan))
    · exact ⟨iff_of_true hret ⟨tid, e, hf, hel⟩, fun _ => ⟨tid, e, hf, hel, hg⟩, fun hnot => absurd hret hnot⟩

end

/-- Two tasks, of which one has been run; the other one is next. -/
theorem finds_iff_two : ∃ s : State 1, (sys exact 1).Reach NoRemove s ∧ s.added.length = 2 ∧
    (getThreadTask exact s.mapTask 40 .noJunk).1.tid = 1 ∧ (Finds exact s.mapTask 40 .noJunk ↔ Visible exact s.mapTask 40) :=
  have hr : (sys exact 1).Reach NoRemove _ := Sys.Reach.runK ([.add 1 1 MAX_TRHEAD_RUNTIMES 1 10] ++ runs 0 20 4 ++
    [.run 0 30 .noJunk, .add 2 1 1 1 40]) (.init rfl) rfl
  ⟨_, hr, rfl, rfl, finds_iff hr 40 .noJunk⟩

/-- The second worker's tick is 100; before it enters the critical section the first one ends a run at 101. -/
theorem not_finds : ∃ s : State 2, (sys exact 2).Reach NoRemove s ∧ s.pc 1 = .getTask 100 100 ∧
    ¬ Finds exact s.mapTask 100 .noJunk := by
  have hr : (sys exact 2).Reach NoRemove _ := Sys.Reach.runK ([.add 1 1 MAX_TRHEAD_RUNTIMES 1 10] ++ runs 0 100 3 ++
    runs 1 100 2 ++ runs 0 101 2) (.init rfl) rfl
  refine ⟨_, hr, rfl, ?_⟩
  intro h
  exact absurd (h.returns.2 ⟨0, _, rfl, by decide⟩).1 (by decide)

end P1Server.ThreadPool
