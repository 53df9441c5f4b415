import P1Server.ThreadPoolGet

/-!
# Whom does `GetThreadTask` prefer?

Of two tasks with runs of one length the one that has waited longer has the larger quotient, and the loop looks for the
least: it prefers the one that has just been run. Quotients that are close are one `double`; then the smaller id is
preferred.

* `selectTid_eq_iff`, `returns_iff` — the entry that is returned, in terms of the table;
* `lt_timeLv_iff` — when one quotient is below another one, in terms of the waits and the lengths of the runs;
* `longer_not_returned` — the longer waiting of two such tasks is not returned while the other one may run, unless their
  quotients are one `double` and it has the smaller id;
* **`prefers_iff`** — when the other one is not returned either: just where a third task goes before it, or the longer
  waiting one does so by its id;
* `bypassed` — one worker, two such tasks: the one is run again and again, the other one never.
-/

namespace P1Server.ThreadPool
open Lib

variable {n : Nat} {s s' : State n} {m : Tasks} {tick : UInt32} {junk : ThreadTask}

/-! ## The entry that is returned -/

/-- `GetThreadTask` returns the entry `e` of `tid`, and nothing else changes. -/
def Returns (m : Tasks) (tick : UInt32) (junk : ThreadTask) (tid : UInt32) (e : ThreadTask) : Prop :=
  getThreadTask double m tick junk = (e.dispatch, m.set tid e.dispatch)

theorem dispatch_ne (e : ThreadTask) : e.dispatch ≠ e := by
  intro h
  have hn : e.runingnum + 1 = e.runingnum := congrArg ThreadTask.runingnum h
  simp at hn

theorem returns_iff {tid : UInt32} {e : ThreadTask} (hf : m.find tid = some e) :
    Returns m tick junk tid e ↔ selectTid double tick m.entries double.one (-1) = tid ∧ tid ≠ -1 := by
  by_cases hsel : selectTid double tick m.entries double.one (-1) = -1
  · refine iff_of_false ?_ fun h => h.2 (h.1 ▸ hsel)
    intro hret
    have hm : m = m.set tid e.dispatch := by
      simpa [getThreadTask, hsel] using congrArg Prod.snd hret
    rw [eq_comm, OrdMap.set_eq_self, hf] at hm
    exact dispatch_ne e (Option.some.inj hm).symm
  · simp only [Returns, getThreadTask, ne_eq, hsel, not_false_eq_true, if_true]
    constructor
    · intro hret
      have hk : selectTid double tick m.entries double.one (-1) = tid := by
        by_contra hk
        have hfind := congrArg (fun r => OrdMap.find r.2 tid) hret
        rw [OrdMap.find_set_ne (Ne.symm hk), OrdMap.find_set_self, hf] at hfind
        exact dispatch_ne e (Option.some.inj hfind).symm
      exact ⟨hk, hk ▸ hsel⟩
    · rintro ⟨rfl, -⟩
      rw [at_, hf]
      rfl

/-- The loop ends with the first of the tasks with the least quotient below 1. -/
theorem selectTid_eq_iff {tid : UInt32} {e : ThreadTask} (hf : m.find tid = some e) (htid : tid ≠ -1) :
    selectTid double tick m.entries double.one (-1) = tid ↔
      e.eligible = true ∧ double.lt (e.timeLv double tick) double.one = true ∧
      ∀ k c, m.find k = some c → c.eligible = true → double.lt (c.timeLv double tick) double.one = true →
        double.lt (c.timeLv double tick) (e.timeLv double tick) = false ∧
          (k < tid → double.lt (e.timeLv double tick) (c.timeLv double tick) = true) := by
  rcases selectTid_one tick m.entries with
    ⟨hres, hnone⟩ | ⟨l₁, p, l₂, hl, hres, hel, hmin, hleast, hfirst⟩
  · rw [hres]
    refine iff_of_false (Ne.symm htid) ?_
    rintro ⟨hel, hlt, -⟩
    rw [hnone (tid, e) (OrdMap.mem_entries.2 hf) hel] at hlt
    cases hlt
  have hp : m.find p.1 = some p.2 := OrdMap.mem_entries.1 (by simp [hl])
  have hsorted := m.sorted
  rw [hl] at hsorted
  have hafter := (List.pairwise_cons.1 (List.pairwise_append.1 hsorted).2.1).1
  -- what has a smaller id than the task that is found stands before it
  have hbefore : ∀ k c, m.find k = some c → k < p.1 → (k, c) ∈ l₁ := by
    intro k c hc hk
    have hmem : (k, c) ∈ l₁ ++ p :: l₂ := hl ▸ OrdMap.mem_entries.2 hc
    rcases List.mem_append.1 hmem with hmem | hmem
    · exact hmem
    rcases List.mem_cons.1 hmem with rfl | hmem
    · exact absurd hk (lt_irrefl _)
    · exact absurd (hk.trans (hafter _ hmem)) (lt_irrefl _)
  rw [hres]
  constructor
  · rintro rfl
    cases hp.symm.trans hf
    refine ⟨hel, hmin, fun k c hc hcel hclt => ⟨hleast (k, c) (OrdMap.mem_entries.2 hc) hcel, ?_⟩⟩
    intro hk
    exact hfirst (k, c) (hbefore k c hc hk) hcel hclt
  · rintro ⟨heel, helt, hall⟩
    obtain ⟨-, hlt⟩ := hall p.1 p.2 hp hel hmin
    have hle := hleast (tid, e) (OrdMap.mem_entries.2 hf) heel
    rcases lt_trichotomy p.1 tid with hk | hk | hk
    · rw [hlt hk] at hle
      cases hle
    · exact hk
    · have hbelow := hfirst (tid, e) (hbefore tid e hf hk) heel helt
      rw [(hall p.1 p.2 hp hel hmin).1] at hbelow
      cases hbelow

/-! ## Two tasks with runs of one length -/

/-- No run has ended after the tick, and no quotient wraps. -/
def NoWrap (m : Tasks) (tick : UInt32) : Prop :=
  ∀ tid e, m.find tid = some e → e.lastruntime ≤ tick ∧ Counts tick e

/-- Both may run, their last runs took as long, and `a` has waited longer. -/
structure Longer (a b : ThreadTask) : Prop where
  left : a.eligible = true
  right : b.eligible = true
  runtime : a.runtime = b.runtime
  earlier : a.lastruntime < b.lastruntime

/-- The wait, and the wait and the last run together. -/
def ThreadTask.share (t : ThreadTask) (tick : UInt32) : Nat × Nat :=
  ((tick - t.lastruntime).toNat, (tick - t.lastruntime).toNat + t.runtime.toNat)

/-- **When a quotient is below another one**: a middle of two `double`s lies between the shares. -/
theorem lt_timeLv_iff {a b : ThreadTask} (ha : Counts tick a) (hb : Counts tick b) :
    double.lt (a.timeLv double tick) (b.timeLv double tick) = true ↔ Separated (a.share tick) (b.share tick) := by
  have ha' : (tick - a.lastruntime + a.runtime).toNat = (tick - a.lastruntime).toNat + a.runtime.toNat := by
    rw [UInt32.toNat_add, Nat.mod_eq_of_lt ha]
  have hb' : (tick - b.lastruntime + b.runtime).toNat = (tick - b.lastruntime).toNat + b.runtime.toNat := by
    rw [UInt32.toNat_add, Nat.mod_eq_of_lt hb]
  rw [ThreadTask.share, ThreadTask.share, ← ha', ← hb']
  exact double_lt

theorem lt_one_iff_runtime {e : ThreadTask} (hc : Counts tick e) :
    double.lt (e.timeLv double tick) double.one = true ↔ e.runtime ≠ 0 := by
  constructor
  · intro hlt hz
    rw [ThreadTask.timeLv, double.lt_one, hz, UInt32.add_zero] at hlt
    exact absurd hlt (lt_irrefl _)
  · intro hr
    exact (lt_one_iff hr).2 hc

/-- Who has waited longer has the larger share. -/
theorem Longer.below {a b : ThreadTask} (h : Longer a b) (hle : b.lastruntime ≤ tick) (hr : b.runtime ≠ 0) :
    Below (b.share tick) (a.share tick) := by
  have hpos : b.runtime.toNat ≠ 0 := fun hz => hr (UInt32.toNat_inj.1 hz)
  have hlt := UInt32.lt_iff_toNat_lt.1 h.earlier
  have hle' := UInt32.le_iff_toNat_le.1 hle
  have hle₂ : a.lastruntime ≤ tick := UInt32.le_iff_toNat_le.2 (by omega)
  rw [Below, ThreadTask.share, ThreadTask.share, UInt32.toNat_sub_of_le _ _ hle, UInt32.toNat_sub_of_le _ _ hle₂,
    h.runtime, Nat.mul_add, Nat.mul_add, Nat.mul_comm, Nat.add_lt_add_iff_left]
  exact Nat.mul_lt_mul_of_pos_right (by omega) (Nat.pos_of_ne_zero hpos)

/-- The longer waiting task is not returned while the other one may run, but where its id decides. -/
theorem longer_not_returned (h : NoWrap m tick) {i j : UInt32} {a b : ThreadTask} (ha : m.find i = some a)
    (hb : m.find j = some b) (hab : Longer a b) (hd : j < i ∨ Separated (b.share tick) (a.share tick)) :
    ¬ Returns m tick junk i a := by
  intro hret
  obtain ⟨hsel, hi⟩ := (returns_iff ha).1 hret
  obtain ⟨-, hlt, hall⟩ := (selectTid_eq_iff ha hi).1 hsel
  have hr : b.runtime ≠ 0 := hab.runtime ▸ (lt_one_iff_runtime (h i a ha).2).1 hlt
  obtain ⟨hno, hfirst⟩ := hall j b hb hab.right ((lt_one_iff_runtime (h j b hb).2).2 hr)
  rcases hd with hlt | hsep
  · have hsep := (lt_timeLv_iff (h i a ha).2 (h j b hb).2).1 (hfirst hlt)
    exact hsep.below.asymm (hab.below (h j b hb).1 hr)
  · rw [(lt_timeLv_iff (h j b hb).2 (h i a ha).2).2 hsep] at hno
    cases hno

/-- Of two tasks with runs of one length, the one that has been run later is not returned. -/
def Prefers (m : Tasks) (tick : UInt32) (junk : ThreadTask) : Prop :=
  ∀ i j a b, m.find i = some a → m.find j = some b → Longer a b → ¬ Returns m tick junk j b

/-- Another task that may run goes before the one that has been run later: its share is smaller by a middle of two
`double`s, or is not larger by one and its id is smaller; or that one's last run took no time, or its id stands for no
task. -/
def Outrun (m : Tasks) (tick : UInt32) : Prop :=
  ∀ i j a b, m.find i = some a → m.find j = some b → Longer a b → b.runtime = 0 ∨ j = -1 ∨
    ∃ k c, m.find k = some c ∧ c.eligible = true ∧ c.runtime ≠ 0 ∧
      (Separated (c.share tick) (b.share tick) ∨ (k < j ∧ ¬ Separated (b.share tick) (c.share tick)))

/-- **The longer waiting task is preferred** just where another one goes before the later one. -/
theorem prefers_iff (h : NoWrap m tick) (junk : ThreadTask) : Prefers m tick junk ↔ Outrun m tick := by
  refine forall_congr' fun i => forall_congr' fun j => forall_congr' fun a => forall_congr' fun b => ?_
  refine imp_congr_right fun ha => imp_congr_right fun hb => imp_congr_right fun hab => ?_
  have hlt : ∀ {k l c d}, m.find k = some c → m.find l = some d →
      (double.lt (c.timeLv double tick) (d.timeLv double tick) = true ↔ Separated (c.share tick) (d.share tick)) :=
    fun hc hd => lt_timeLv_iff (h _ _ hc).2 (h _ _ hd).2
  constructor
  · intro hnot
    by_contra hno
    rw [not_or, not_or] at hno
    obtain ⟨hr, hj, hno⟩ := hno
    refine hnot ((returns_iff hb).2
      ⟨(selectTid_eq_iff hb hj).2 ⟨hab.right, (lt_one_iff_runtime (h j b hb).2).2 hr, ?_⟩, hj⟩)
    intro k c hc hcel hclt
    have hcr := (lt_one_iff_runtime (h k c hc).2).1 hclt
    constructor
    · exact Bool.eq_false_iff.2 fun hs => hno ⟨k, c, hc, hcel, hcr, .inl ((hlt hc hb).1 hs)⟩
    · intro hk
      by_contra hs
      exact hno ⟨k, c, hc, hcel, hcr, .inr ⟨hk, fun hsep => hs ((hlt hb hc).2 hsep)⟩⟩
  · intro hout hret
    obtain ⟨hsel, hj⟩ := (returns_iff hb).1 hret
    obtain ⟨-, hone, hall⟩ := (selectTid_eq_iff hb hj).1 hsel
    rcases hout with hr | hj' | ⟨k, c, hc, hcel, hcr, hbefore⟩
    · exact (lt_one_iff_runtime (h j b hb).2).1 hone hr
    · exact hj hj'
    obtain ⟨hno, hfirst⟩ := hall k c hc hcel ((lt_one_iff_runtime (h k c hc).2).2 hcr)
    rcases hbefore with hsep | ⟨hk, hsep⟩
    · rw [(hlt hc hb).2 hsep] at hno
      cases hno
    · exact hsep ((hlt hb hc).1 (hfirst hk))

/-! ## One worker and two tasks -/

/-- A task that may run once at a time, and has run for 1 ms until `lastruntime`. -/
def looping (tid : UInt32) (lastruntime : UInt32) : ThreadTask :=
  ⟨tid, 1, 1, MAX_TRHEAD_RUNTIMES, 1, 0, 1, lastruntime⟩

def twoTasks (last : UInt32) : Tasks := (OrdMap.empty.set 0 (looping 0 10)).set 1 (looping 1 last)

theorem find_twoTasks {last tid : UInt32} {e : ThreadTask} (h : (twoTasks last).find tid = some e) :
    (tid = 1 ∧ e = looping 1 last) ∨ (tid = 0 ∧ e = looping 0 10) := by
  simp only [twoTasks, OrdMap.find_set, OrdMap.find_empty] at h
  split at h
  case isTrue h1 => exact .inl ⟨h1, (Option.some.inj h).symm⟩
  split at h
  case isTrue h0 => exact .inr ⟨h0, (Option.some.inj h).symm⟩
  case isFalse => cases h

theorem counts_looping {tid last tick : UInt32} (hle : last ≤ tick) (hlt : tick.toNat < 2 ^ 32 - 1) :
    Counts tick (looping tid last) := by
  show (tick - last).toNat + 1 < 2 ^ 32
  rw [UInt32.toNat_sub_of_le _ _ hle]
  omega

theorem noWrap_twoTasks {last tick : UInt32} (h10 : 10 ≤ last) (hle : last ≤ tick) (hlt : tick.toNat < 2 ^ 32 - 1) :
    NoWrap (twoTasks last) tick := by
  intro tid e hf
  rcases find_twoTasks hf with ⟨-, rfl⟩ | ⟨-, rfl⟩
  · exact ⟨hle, counts_looping hle hlt⟩
  · exact ⟨h10.trans hle, counts_looping (h10.trans hle) hlt⟩

theorem prefers_iff_two : Prefers (twoTasks 12) 20 .noJunk ↔ Outrun (twoTasks 12) 20 :=
  prefers_iff (noWrap_twoTasks (by decide) (by decide) (by decide)) .noJunk

/-- With such shares, which are one `double`, the smaller id decides. -/
example : Returns (twoTasks 11) 600000000 .noJunk 0 (looping 0 10) := rfl

/-- The task that was added first is passed over. -/
theorem not_prefers : (∃ s : State 1, (sys double 1).Reachable s ∧ s.mapTask = twoTasks 12) ∧ NoWrap (twoTasks 12) 20 ∧
    ¬ Prefers (twoTasks 12) 20 .noJunk := by
  refine ⟨⟨_, Sys.Reachable.run [.add 1 1 MAX_TRHEAD_RUNTIMES 1 10, .add 1 1 MAX_TRHEAD_RUNTIMES 1 12] (.init rfl) rfl,
    rfl⟩, noWrap_twoTasks (by decide) (by decide) (by decide), ?_⟩
  intro h
  exact h 0 1 _ _ rfl rfl ⟨by decide, by decide, rfl, by decide⟩ rfl

/-- Right after a run of the second task, its share is a half, and that of the first one two thirds or more. -/
theorem separated_looping {last : UInt32} (h10 : 10 < last) (hlt : last.toNat < 2 ^ 32 - 2) :
    Separated ((looping 1 last).share (last + 1)) ((looping 0 10).share (last + 1)) := by
  have h10' : 10 < last.toNat := UInt32.lt_iff_toNat_lt.1 h10
  have htick : (last + 1).toNat = last.toNat + 1 := by
    rw [UInt32.toNat_add]
    exact Nat.mod_eq_of_lt (by simp; omega)
  have h1 : (last + 1 - last).toNat = 1 := by rw [add_sub_cancel_left]; rfl
  have h0 : (last + 1 - 10).toNat = last.toNat - 9 := by
    rw [UInt32.toNat_sub_of_le _ _ (UInt32.le_iff_toNat_le.2 (by rw [htick]; simp; omega)), htick]
    simp
  refine ⟨2 ^ 52, 54, le_refl _, by decide, ?_, ?_⟩
  · show (last + 1 - last).toNat * 2 ^ 54 < (2 * 2 ^ 52 + 1) * ((last + 1 - last).toNat + 1)
    rw [h1]
    decide
  · show (2 * 2 ^ 52 + 1) * ((last + 1 - 10).toNat + 1) < (last + 1 - 10).toNat * 2 ^ 54
    rw [h0]
    omega

theorem twoTasks_returns {last : UInt32} (h10 : 10 < last) (hlt : last.toNat < 2 ^ 32 - 2) (junk : ThreadTask) :
    Returns (twoTasks last) (last + 1) junk 1 (looping 1 last) := by
  have htick : (last + 1).toNat = last.toNat + 1 := by
    rw [UInt32.toNat_add]
    exact Nat.mod_eq_of_lt (by simp; omega)
  have hle : last ≤ last + 1 := UInt32.le_iff_toNat_le.2 (by omega)
  have hw := noWrap_twoTasks h10.le hle (by omega)
  have h0 : (twoTasks last).find 0 = some (looping 0 10) := rfl
  have h1 : (twoTasks last).find 1 = some (looping 1 last) := rfl
  have hone : (looping 1 last).runtime ≠ 0 := (by decide : (1 : UInt32) ≠ 0)
  have hlt := (lt_timeLv_iff (hw 1 _ h1).2 (hw 0 _ h0).2).2 (separated_looping h10 hlt)
  refine (returns_iff h1).2 ⟨(selectTid_eq_iff h1 (by decide)).2 ⟨rfl, (lt_one_iff_runtime (hw 1 _ h1).2).2 hone, ?_⟩,
    by decide⟩
  intro k c hc hcel hclt
  rcases find_twoTasks hc with ⟨rfl, rfl⟩ | ⟨rfl, rfl⟩
  · exact ⟨double.irrefl .., fun hk => absurd hk (lt_irrefl _)⟩
  · exact ⟨double.asymm hlt, fun _ => hlt⟩

/-- The second task has been run `k` times, the last one at `11 + k`. -/
def afterRuns (k : Nat) : State 1 :=
  ⟨fun _ => .loop, true, twoTasks (.ofNat (11 + k)), 2, [looping 0 10, looping 1 11], [],
    fun tid => if tid = 1 then k else 0⟩

theorem recordRun_looping (last tick : UInt32) : (looping 1 last).dispatch.recordRun tick tick = looping 1 tick := by
  simp [ThreadTask.recordRun, ThreadTask.dispatch, looping]

theorem run_afterRuns {k : Nat} (hk : k < 2 ^ 31) :
    (sys double 1).run (afterRuns k) (runs 0 (.ofNat (11 + (k + 1))) 5) = some (afterRuns (k + 1)) := by
  have hlast : (UInt32.ofNat (11 + k)).toNat = 11 + k := UInt32.toNat_ofNat_of_lt' (by show 11 + k < 2 ^ 32; omega)
  have htick : (UInt32.ofNat (11 + (k + 1))).toNat = 11 + (k + 1) :=
    UInt32.toNat_ofNat_of_lt' (by show 11 + (k + 1) < 2 ^ 32; omega)
  have h10 : (10 : UInt32) < .ofNat (11 + k) := UInt32.lt_iff_toNat_lt.2 (by rw [hlast]; show 10 < 11 + k; omega)
  have hnext : UInt32.ofNat (11 + k) + 1 = .ofNat (11 + (k + 1)) := (UInt32.ofNat_add (11 + k) 1).symm
  have hret : getThreadTask double (twoTasks (.ofNat (11 + k))) (.ofNat (11 + (k + 1))) .noJunk =
      ((looping 1 (.ofNat (11 + k))).dispatch,
        (twoTasks (.ofNat (11 + k))).set 1 (looping 1 (.ofNat (11 + k))).dispatch) :=
    hnext ▸ twoTasks_returns h10 (by omega) .noJunk
  have hpc : ∀ (pc : Fin 1 → Pc) (p : Pc), Function.update pc 0 p = fun _ => p := by
    intro pc p
    funext t
    rw [Subsingleton.elim t 0, Function.update_self]
  have hcb : (looping 1 (.ofNat (11 + k))).dispatch.cb ≠ 0 ∧ (looping 1 (.ofNat (11 + k))).dispatch.param ≠ 0 :=
    ⟨Nat.one_ne_zero, Nat.one_ne_zero⟩
  have htid : (looping 1 (.ofNat (11 + k))).dispatch.tid = 1 := rfl
  have hstarts : Function.update (fun tid : UInt32 => if tid = 1 then k else 0) 1 (k + 1) =
      fun tid => if tid = 1 then k + 1 else 0 := by
    funext tid
    simp only [Function.update_apply]
    split <;> rfl
  simp only [Sys.run, sys, runs, List.replicate, step, afterRuns, State.goto, hpc, if_true, Option.bind_some, hret,
    State.start, hcb, htid, hstarts, and_self, not_false_eq_true, ne_eq, at_, OrdMap.find_set_self, Option.getD_some,
    recordRun_looping, OrdMap.set_set]
  rw [twoTasks, OrdMap.set_set, ← twoTasks]

/-- **Passed over again and again**: the one is run `k` times, the other one never, and it may run all the time. -/
theorem bypassed {k : Nat} (hk : k < 2 ^ 31) : ∃ s : State 1, (sys double 1).Reachable s ∧ s.starts 1 = k ∧ s.starts 0 = 0 ∧
    s.mapTask.find 0 = some (looping 0 10) := by
  have hr : (sys double 1).Reachable (afterRuns k) := by
    induction k with
    | zero =>
      refine Sys.Reachable.run [.add 1 1 MAX_TRHEAD_RUNTIMES 1 10, .add 1 1 MAX_TRHEAD_RUNTIMES 1 11] (.init rfl) ?_
      have hz : (fun tid : UInt32 => if tid = 1 then 0 else 0) = fun _ => 0 := by
        funext tid
        split <;> rfl
      rw [afterRuns, hz]
      rfl
    | succ k ih => exact Sys.Reachable.run _ (ih (by omega)) (run_afterRuns (by omega))
  exact ⟨_, hr, rfl, rfl, rfl⟩

end P1Server.ThreadPool
