import P1Server.ThreadPoolLimits

/-!
# Removed tasks

`RemoveThreadTask` does not wait for the workers that run the task, and the end of a run is recorded with
`tasks[task.tid]` (`ThreadPool.cpp:28`), which puts the key back when the task has been removed meanwhile: an entry
without id, callback and parameter, and with junk in the other fields.

* `staysRemoved` — a removed task stays removed, and every entry is one that was added, in the runs where no worker
  records the end of a run of a removed task;
* `not_staysRemoved` — a task is removed during its run.
-/

namespace P1Server.ThreadPool
open Lib

variable {n : Nat} {q : Ratio} {s s' : State n}

/-- A run whose end is recorded next is of a task that is still there. -/
def recorded (s : State n) : Pc → Bool
  | .record _ _ task => (s.mapTask.find task.tid).isSome
  | _ => true

def Recorded (s : State n) : Act n → Prop
  | .run t _ _ => recorded s (s.pc t) = true
  | _ => True

instance (s : State n) : ∀ a, Decidable (Recorded s a)
  | .run t _ _ => inferInstanceAs (Decidable (recorded s (s.pc t) = true))
  | .add .. | .remove _ | .close => inferInstanceAs (Decidable True)

/-- Nothing that was removed is in the map, and what is there was added, with its id, callback and parameter. -/
structure StaysRemoved (s : State n) : Prop where
  removed : ∀ tid ∈ s.removed, s.mapTask.find tid = none
  created : ∀ tid e, s.mapTask.find tid = some e → ∃ a ∈ s.added, a.tid = tid ∧ e.tid = tid ∧ e.cb = a.cb ∧
    e.param = a.param ∧ e.cb ≠ 0 ∧ e.param ≠ 0

/-- Removed tasks were added, and are gone. -/
def Gone (s : State n) : Prop := ∀ tid ∈ s.removed, s.mapTask.find tid = none ∧ ∃ a ∈ s.added, a.tid = tid

/-- An entry that is there changes. -/
theorem Gone.set (h : Gone s) (hk : Frame s s') {tid : UInt32} {e e' : ThreadTask} (hf : s.mapTask.find tid = some e)
    (hm : s'.mapTask = s.mapTask.set tid e') : Gone s' := by
  intro k hr
  obtain ⟨hn, a, ha, hat⟩ := h k (hk.removed ▸ hr)
  have hkt : k ≠ tid := fun he => by
    rw [he, hf] at hn
    cases hn
  refine ⟨?_, a, hk.added ▸ ha, hat⟩
  rw [hm, OrdMap.find_set_ne hkt]
  exact hn

theorem Gone.step (h : Gone s) (hl : Ledger s) (hle : s'.added.length ≤ 2 ^ 32) {a : Act n} (hrec : Recorded s a)
    (he : step q s a = some s') : Gone s' := by
  cases move he with
  | quiet hk hp hm hs =>
    intro tid hr
    rw [hk.added, hm]
    exact h tid (hk.removed ▸ hr)
  | add task _ _ hcb hparam htid hnum hs =>
    subst hs
    rw [State.addThreadTask, List.length_append] at hle
    intro tid hr
    obtain ⟨hn, b, hb, hbt⟩ := h tid hr
    refine ⟨?_, b, List.mem_append_left _ hb, hbt⟩
    exact (OrdMap.find_set_ne (hbt ▸ hl.tid_new hle hb)).trans hn
  | erase tid e _ hf hs =>
    subst hs
    intro k hr
    rcases List.mem_cons.1 hr with rfl | hr
    · refine ⟨OrdMap.find_erase_self .., ?_⟩
      rcases hl.entries k e hf with ⟨b, hb, hbt, -⟩ | ⟨-, -, hrem⟩
      · exact ⟨b, hb, hbt⟩
      · exact (h k hrem).2
    · refine ⟨?_, (h k hr).2⟩
      rw [OrdMap.find_erase]
      split
      · rfl
      · exact (h k hr).1
  | start t tick tid e hk ht hf hel hcb hpc hm hs => exact h.set hk hf hm
  | skip tid e hk hf hnull hp hm hs => exact h.set hk hf hm
  | record t tick endtick now task junk ha hk ht hpc hm hs =>
    rw [ha, Recorded, ht, recorded] at hrec
    obtain ⟨e, hf⟩ := Option.isSome_iff_exists.1 hrec
    exact h.set hk hf hm

theorem gone (h : (sys q n).Reach Recorded s) (hle : s.added.length ≤ 2 ^ 32) : Gone s := by
  refine Sys.Reach.inv_of (I := fun s => s.added.length ≤ 2 ^ 32 → Gone s) (fun s hs => hs.reachable) ?_
    ?_ h hle
  · intro s hs _
    subst hs
    simp [Gone]
  · intro s a s' hj _ hi hrec he hle
    have hle' := (added_mono he).trans hle
    exact (hi hle').step (ledger hj hle') hle hrec he

/-- **A removed task stays removed** where no worker records the end of a run of a task that is not there. -/
theorem staysRemoved (h : (sys q n).Reach Recorded s) (hle : s.added.length ≤ 2 ^ 32) : StaysRemoved s := by
  have hg := gone h hle
  have hl := ledger h.reachable hle
  refine ⟨fun tid hr => (hg tid hr).1, ?_⟩
  intro tid e hf
  rcases hl.entries tid e hf with ⟨a, ha, hat, ho⟩ | ⟨-, -, hr⟩
  · obtain ⟨hcb, hparam⟩ := hl.nonNull a ha
    exact ⟨a, ha, hat, ho.tid.trans hat, ho.cb, ho.param, ho.cb ▸ hcb, ho.param ▸ hparam⟩
  · rw [(hg tid hr).1] at hf
    cases hf

/-- One task is removed between its runs. -/
theorem staysRemoved_two : ∃ s : State 1, (sys double 1).Reach Recorded s ∧ s.removed = [0] ∧ s.added.length = 2 ∧
    StaysRemoved s :=
  have hr : (sys double 1).Reach Recorded _ := Sys.Reach.runK ([.add 1 1 MAX_TRHEAD_RUNTIMES 1 10, .add 2 2 1 1 10] ++
    runs 0 20 5 ++ [.remove 0]) (.init rfl) rfl
  ⟨_, hr, rfl, rfl, staysRemoved hr (by decide)⟩

/-- A task is removed during its run: the end of the run puts the key back, with an entry nobody added. -/
theorem not_staysRemoved : ¬ ∀ s : State 1, (sys double 1).Reachable s → s.added.length ≤ 2 ^ 32 → StaysRemoved s := by
  intro h
  have hr : (sys double 1).Reachable _ := Sys.Reachable.run ([.add 1 1 MAX_TRHEAD_RUNTIMES 1 10] ++ runs 0 20 4 ++
    [.remove 0] ++ runs 0 30 1) (.init rfl) rfl
  have hn := (h _ hr (by decide)).removed 0 (List.mem_singleton_self _)
  cases hn

end P1Server.ThreadPool
