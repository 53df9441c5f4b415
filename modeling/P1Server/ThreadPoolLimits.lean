import P1Server.ThreadPool

/-!
# Who runs a task, and how often

The entry of a task counts the workers that hold it, and the runs it has left. A worker finds the entry by the
id of its copy: as long as no id is given twice, an entry that is there is the task's own, or one that the end of a
run has made after the task was removed; the latter is without a callback and is never run.

* `Ledger` — the entries, the workers and the counts agree;
* `withinLimits` — no more than `mulNum` workers at a time, no more than `runtimes` runs.
-/

namespace P1Server.ThreadPool
open Lib

variable {n : Nat} {q : Ratio} {s s' : State n}

def holds (tid : UInt32) (p : Pc) : Bool := (held p).any fun task => decide (task.tid = tid)

/-- How many workers are between fetching the task and recording its end. -/
def holders (s : State n) (tid : UInt32) : Nat := atPlaces (holds tid) s.pc

/-- The runs that are left, when the task was added with `runtimes`. -/
def RunsLeft (runtimes left : UInt64) (starts : Nat) : Prop :=
  if runtimes = MAX_TRHEAD_RUNTIMES then left = MAX_TRHEAD_RUNTIMES else left.toNat + starts = runtimes.toNat

/-- `e` is the entry of the task that was added as `a`. -/
structure Own (a e : ThreadTask) (holders starts : Nat) : Prop where
  tid : e.tid = a.tid
  cb : e.cb = a.cb
  param : e.param = a.param
  mulNum : e.mulNum = a.mulNum
  runingnum : e.runingnum.toNat = holders
  runtimes : RunsLeft a.runtimes e.runtimes starts

structure Ledger (s : State n) : Prop where
  next : s.tid = UInt32.ofNat s.added.length
  ids : ∀ i a, s.added[i]? = some a → a.tid = UInt32.ofNat i
  nonNull : ∀ a ∈ s.added, a.cb ≠ 0 ∧ a.param ≠ 0
  entries : ∀ tid e, s.mapTask.find tid = some e →
    (∃ a ∈ s.added, a.tid = tid ∧ Own a e (holders s tid) (s.starts tid)) ∨ e.cb = 0 ∧ e.param = 0 ∧ tid ∈ s.removed
  present : ∀ a ∈ s.added, a.tid ∉ s.removed → ∃ e, s.mapTask.find a.tid = some e
  holding : ∀ t task, held (s.pc t) = some task → ∃ a ∈ s.added, a.tid = task.tid
  started : ∀ tid, (∀ a ∈ s.added, a.tid ≠ tid) → s.starts tid = 0
  limits : ∀ a ∈ s.added, holders s a.tid ≤ a.mulNum.toNat ∧
    (a.runtimes ≠ MAX_TRHEAD_RUNTIMES → s.starts a.tid ≤ a.runtimes.toNat)

/-! ## What the operations do to the counts of an entry -/

theorem eligible_iff {e : ThreadTask} :
    e.eligible = true ↔ e.runingnum.toNat < e.mulNum.toNat ∧ 0 < e.runtimes.toNat := by
  simp [ThreadTask.eligible, UInt32.lt_iff_toNat_lt, UInt64.lt_iff_toNat_lt]

theorem dispatch_runingnum {e : ThreadTask} (h : e.eligible = true) :
    e.dispatch.runingnum.toNat = e.runingnum.toNat + 1 := by
  have hlt := (eligible_iff.1 h).1
  have := e.mulNum.toNat_lt
  simp only [ThreadTask.dispatch, UInt32.toNat_add, UInt32.reduceToNat]
  omega

theorem recordRun_runingnum {e : ThreadTask} {tick endtick : UInt32} {k : Nat} (h : e.runingnum.toNat = k + 1) :
    (e.recordRun tick endtick).runingnum.toNat = k := by
  have hpos : e.runingnum > 0 := UInt32.lt_iff_toNat_lt.2 (by simp; omega)
  have hle : (1 : UInt32) ≤ e.runingnum := UInt32.le_iff_toNat_le.2 (by simp; omega)
  simp only [ThreadTask.recordRun, if_pos hpos, UInt32.toNat_sub_of_le _ _ hle, h]
  rfl

/-- A run is one run less. -/
theorem RunsLeft.dispatch {e : ThreadTask} {runtimes : UInt64} {starts : Nat} (h : RunsLeft runtimes e.runtimes starts)
    (hel : e.eligible = true) : RunsLeft runtimes e.dispatch.runtimes (starts + 1) := by
  have hpos := (eligible_iff.1 hel).2
  have hgt : e.runtimes > 0 := UInt64.lt_iff_toNat_lt.2 (by simpa using hpos)
  have hle : (1 : UInt64) ≤ e.runtimes := UInt64.le_iff_toNat_le.2 (by simp; omega)
  rw [RunsLeft] at h ⊢
  split at h
  case isTrue hm => rw [if_pos hm, ThreadTask.dispatch, if_neg fun hn => hn.1 h, h]
  case isFalse hm =>
    have hne : e.runtimes ≠ MAX_TRHEAD_RUNTIMES := by
      intro he
      rw [he] at h
      have := runtimes.toNat_lt
      have hmax : MAX_TRHEAD_RUNTIMES.toNat = 2 ^ 64 - 1 := rfl
      exact hm (UInt64.toNat_inj.1 (by omega))
    simp only [if_neg hm, ThreadTask.dispatch, if_pos (And.intro hne hgt), UInt64.toNat_sub_of_le _ _ hle]
    simp
    omega

/-! ## Who holds a task -/

theorem holds_eq {p q : Pc} (h : held p = held q) (tid : UInt32) : holds tid p = holds tid q := by
  rw [holds, holds, h]

theorem holders_congr (h : ∀ u, held (s'.pc u) = held (s.pc u)) (tid : UInt32) : holders s' tid = holders s tid := by
  simp only [holders, atPlaces, holds_eq (h _)]

/-- A worker that holds nothing gets a task. -/
theorem holders_fetch {t : Fin n} {p : Pc} {task : ThreadTask} (hpc : s'.pc = Function.update s.pc t p)
    (ht : held (s.pc t) = none) (hp : held p = some task) (tid : UInt32) :
    holders s' tid = holders s tid + if task.tid = tid then 1 else 0 := by
  have hu := atPlaces_update (holds tid) s.pc t p
  rw [holders, holders, hpc]
  simpa [holds, ht, hp] using hu

/-- A worker is through with its task. -/
theorem holders_release {t : Fin n} {p : Pc} {task : ThreadTask} (hpc : s'.pc = Function.update s.pc t p)
    (ht : held (s.pc t) = some task) (hp : held p = none) (tid : UInt32) :
    holders s' tid + (if task.tid = tid then 1 else 0) = holders s tid := by
  have hu := atPlaces_update (holds tid) s.pc t p
  rw [holders, holders, hpc]
  simpa [holds, ht, hp] using hu

/-! ## The steps -/

/-- What is to show where no task is added or removed. -/
theorem Ledger.of_frame (h : Ledger s) (hk : Frame s s')
    (entries : ∀ tid e, s'.mapTask.find tid = some e →
      (∃ a ∈ s.added, a.tid = tid ∧ Own a e (holders s' tid) (s'.starts tid)) ∨
        e.cb = 0 ∧ e.param = 0 ∧ tid ∈ s.removed)
    (present : ∀ a ∈ s.added, a.tid ∉ s.removed → ∃ e, s'.mapTask.find a.tid = some e)
    (holding : ∀ t task, held (s'.pc t) = some task → ∃ a ∈ s.added, a.tid = task.tid)
    (started : ∀ tid, (∀ a ∈ s.added, a.tid ≠ tid) → s'.starts tid = 0)
    (limits : ∀ a ∈ s.added, holders s' a.tid ≤ a.mulNum.toNat ∧
      (a.runtimes ≠ MAX_TRHEAD_RUNTIMES → s'.starts a.tid ≤ a.runtimes.toNat)) : Ledger s' := by
  rw [← hk.added] at entries present holding started limits
  rw [← hk.removed] at entries present
  refine ⟨?_, ?_, ?_, entries, present, holding, started, limits⟩
  · rw [hk.tid, hk.added]
    exact h.next
  · rw [hk.added]
    exact h.ids
  · rw [hk.added]
    exact h.nonNull

theorem Ledger.quiet (h : Ledger s) (hk : Frame s s') (hh : ∀ u, held (s'.pc u) = held (s.pc u))
    (hm : s'.mapTask = s.mapTask) (hs : s'.starts = s.starts) : Ledger s' := by
  have hc := holders_congr hh
  refine h.of_frame hk ?_ ?_ ?_ ?_ ?_
  · intro tid e hf
    rw [hs, hc]
    exact h.entries tid e (hm ▸ hf)
  · rw [hm]
    exact h.present
  · intro t task ht
    exact h.holding t task (hh t ▸ ht)
  · rw [hs]
    exact h.started
  · intro a hmem
    rw [hs, hc]
    exact h.limits a hmem

/-- While ids are not given twice, the next one is new. -/
theorem Ledger.tid_new (h : Ledger s) (hlt : s.added.length < 2 ^ 32) {a : ThreadTask} (ha : a ∈ s.added) :
    a.tid ≠ s.tid := by
  obtain ⟨i, hi, rfl⟩ := List.getElem_of_mem ha
  rw [h.ids i _ (List.getElem?_eq_getElem hi), h.next]
  intro he
  have := congrArg UInt32.toNat he
  rw [UInt32.toNat_ofNat_of_lt' (hi.trans hlt), UInt32.toNat_ofNat_of_lt' hlt] at this
  omega

/-- Two tasks with one id are one task. -/
theorem Ledger.unique (h : Ledger s) (hle : s.added.length ≤ 2 ^ 32) {a b : ThreadTask} (ha : a ∈ s.added)
    (hb : b ∈ s.added) (he : a.tid = b.tid) : a = b := by
  obtain ⟨i, hi, rfl⟩ := List.getElem_of_mem ha
  obtain ⟨j, hj, rfl⟩ := List.getElem_of_mem hb
  rw [h.ids i _ (List.getElem?_eq_getElem hi), h.ids j _ (List.getElem?_eq_getElem hj)] at he
  have hij := congrArg UInt32.toNat he
  rw [UInt32.toNat_ofNat_of_lt' (hi.trans_le hle), UInt32.toNat_ofNat_of_lt' (hj.trans_le hle)] at hij
  simp only [hij]

theorem Ledger.holders_zero (h : Ledger s) {tid : UInt32} (hn : ∀ a ∈ s.added, a.tid ≠ tid) : holders s tid = 0 := by
  refine atPlaces_zero.2 ?_
  intro t
  cases ht : held (s.pc t) with
  | none => simp [holds, ht]
  | some task =>
    obtain ⟨a, ha, he⟩ := h.holding t task ht
    have hne := hn a ha
    simp [holds, ht, ← he, hne]

theorem Ledger.add (h : Ledger s) {task : ThreadTask} (hlt : s.added.length < 2 ^ 32) (hcb : task.cb ≠ 0)
    (hparam : task.param ≠ 0) (htid : task.tid = s.tid) (hnum : task.runingnum = 0) :
    Ledger (s.addThreadTask task) := by
  have hnew : ∀ a ∈ s.added, a.tid ≠ s.tid := fun a ha => h.tid_new hlt ha
  have hz := h.holders_zero hnew
  have hst := h.started s.tid hnew
  have hself : task ∈ s.added ++ [task] := List.mem_append_right _ (List.mem_singleton_self _)
  refine ⟨?_, ?_, ?_, ?_, ?_, ?_, ?_, ?_⟩
  · simp only [State.addThreadTask, h.next, List.length_append, List.length_singleton, UInt32.ofNat_add]
    rfl
  · intro i a hi
    rcases Nat.lt_or_ge i s.added.length with hi' | hi'
    · exact h.ids i a (by rwa [State.addThreadTask, List.getElem?_append_left hi'] at hi)
    · have hil := (List.getElem?_eq_some_iff.1 hi).1
      simp only [State.addThreadTask, List.length_append, List.length_singleton] at hil
      obtain rfl : i = s.added.length := by omega
      simp only [State.addThreadTask, List.getElem?_concat_length, Option.some.injEq] at hi
      rw [← hi, htid, h.next]
  · intro a ha
    rcases List.mem_append.1 ha with ha | ha
    · exact h.nonNull a ha
    · rw [List.mem_singleton.1 ha]
      exact ⟨hcb, hparam⟩
  · intro tid e hf
    simp only [State.addThreadTask, OrdMap.find_set] at hf
    split at hf
    case isTrue he =>
      cases hf
      refine .inl ⟨task, hself, he ▸ htid, rfl, rfl, rfl, rfl, ?_, ?_⟩
      · rw [hnum, he]
        exact hz.symm
      · simp only [RunsLeft, State.addThreadTask, he, hst]
        split <;> simp [*]
    case isFalse he =>
      exact (h.entries tid e hf).imp_left fun ⟨a, ha, ho⟩ => ⟨a, List.mem_append_left _ ha, ho⟩
  · intro a ha hnr
    simp only [State.addThreadTask, OrdMap.find_set]
    split
    case isTrue => exact ⟨_, rfl⟩
    case isFalse hne =>
      rcases List.mem_append.1 ha with ha | ha
      · exact h.present a ha hnr
      · exact absurd (List.mem_singleton.1 ha ▸ htid) hne
  · intro t u ht
    obtain ⟨a, ha, he⟩ := h.holding t u ht
    exact ⟨a, List.mem_append_left _ ha, he⟩
  · intro tid hn
    exact h.started tid fun a ha => hn a (List.mem_append_left _ ha)
  · intro a ha
    rcases List.mem_append.1 ha with ha | ha
    · exact h.limits a ha
    · rw [List.mem_singleton.1 ha, htid]
      exact ⟨hz.trans_le (Nat.zero_le _), fun _ => hst.trans_le (Nat.zero_le _)⟩

theorem Ledger.erase (h : Ledger s) (tid : UInt32) :
    Ledger { s with mapTask := s.mapTask.erase tid, removed := tid :: s.removed } := by
  refine ⟨h.next, h.ids, h.nonNull, ?_, ?_, h.holding, h.started, h.limits⟩
  · intro k e hf
    simp only [OrdMap.find_erase] at hf
    split at hf
    case isTrue => cases hf
    case isFalse => exact (h.entries k e hf).imp_right fun ⟨hcb, hp, hr⟩ => ⟨hcb, hp, List.mem_cons_of_mem _ hr⟩
  · intro a ha hnr
    have hn := not_or.1 (fun ho => hnr (List.mem_cons.2 ho))
    obtain ⟨e, he⟩ := h.present a ha hn.2
    exact ⟨e, (OrdMap.find_erase_ne hn.1).trans he⟩

/-- An entry with a callback is its task's own. -/
theorem Ledger.own (h : Ledger s) {tid : UInt32} {e : ThreadTask} (hf : s.mapTask.find tid = some e)
    (hcb : e.cb ≠ 0 ∨ e.param ≠ 0) : ∃ a ∈ s.added, a.tid = tid ∧ Own a e (holders s tid) (s.starts tid) := by
  rcases h.entries tid e hf with ho | ⟨hz, hp, -⟩
  · exact ho
  · exact hcb.elim (absurd hz) (absurd hp)

theorem Ledger.start (h : Ledger s) (hle : s.added.length ≤ 2 ^ 32) (hk : Frame s s') {t : Fin n} {tick tid : UInt32}
    {e : ThreadTask} (ht : held (s.pc t) = none) (hf : s.mapTask.find tid = some e) (hel : e.eligible = true)
    (hcb : e.cb ≠ 0) (hpc : s'.pc = Function.update s.pc t (.running tick e.dispatch))
    (hm : s'.mapTask = s.mapTask.set tid e.dispatch)
    (hs : s'.starts = Function.update s.starts e.tid (s.starts e.tid + 1)) : Ledger s' := by
  obtain ⟨a, ha, rfl, ho⟩ := h.own hf (.inl hcb)
  have hc : ∀ tid, holders s' tid = holders s tid + if e.dispatch.tid = tid then 1 else 0 := holders_fetch hpc ht rfl
  have htid : e.dispatch.tid = a.tid := ho.tid
  have hruns := ho.runtimes.dispatch hel
  have hlt := (eligible_iff.1 hel).1
  rw [ho.tid] at hs
  simp only [htid] at hc
  refine h.of_frame hk ?_ ?_ ?_ ?_ ?_
  · intro k f hf'
    rw [hm, OrdMap.find_set] at hf'
    rw [hc, hs]
    by_cases hka : k = a.tid
    · subst hka
      rw [if_pos rfl] at hf'
      cases hf'
      rw [if_pos rfl, Function.update_self]
      refine .inl ⟨a, ha, rfl, htid, ho.cb, ho.param, ho.mulNum, ?_, hruns⟩
      rw [dispatch_runingnum hel, ho.runingnum]
    · rw [if_neg hka] at hf'
      rw [if_neg (Ne.symm hka), Function.update_of_ne hka]
      exact h.entries k f hf'
  · intro b hb hnr
    rw [hm, OrdMap.find_set]
    split
    · exact ⟨_, rfl⟩
    · exact h.present b hb hnr
  · intro u task hu
    rw [hpc] at hu
    rcases see_update held hu with ⟨-, hu⟩ | ⟨-, hu⟩
    · cases hu
      exact ⟨a, ha, htid.symm⟩
    · exact h.holding u task hu
  · intro k hn
    rw [hs, Function.update_of_ne (Ne.symm (hn a ha))]
    exact h.started k hn
  · intro b hb
    obtain ⟨hnum, hst⟩ := h.limits b hb
    rw [hc, hs]
    by_cases hba : b.tid = a.tid
    · obtain rfl := h.unique hle hb ha hba
      have hrun := ho.runingnum
      rw [ho.mulNum] at hlt
      rw [Function.update_self, if_pos rfl]
      refine ⟨by omega, ?_⟩
      intro hmax
      rw [RunsLeft, if_neg hmax] at hruns
      omega
    · rw [if_neg (Ne.symm hba), Function.update_of_ne hba]
      exact ⟨hnum, hst⟩

/-- An entry without a callback changes. -/
theorem Ledger.setNull (h : Ledger s) {tid : UInt32} {e : ThreadTask} (hcb : e.cb = 0) (hparam : e.param = 0)
    (hr : tid ∈ s.removed) : Ledger { s with mapTask := s.mapTask.set tid e } := by
  refine ⟨h.next, h.ids, h.nonNull, ?_, ?_, h.holding, h.started, h.limits⟩
  · intro k f hk
    simp only [OrdMap.find_set] at hk
    split at hk
    case isTrue he =>
      cases hk
      exact .inr ⟨hcb, hparam, he ▸ hr⟩
    case isFalse => exact h.entries k f hk
  · intro b hb hnr
    simp only [OrdMap.find_set]
    split
    · exact ⟨_, rfl⟩
    · exact h.present b hb hnr

theorem Ledger.skip (h : Ledger s) (hk : Frame s s') {tid : UInt32} {e : ThreadTask} (hf : s.mapTask.find tid = some e)
    (hnull : e.cb = 0 ∨ e.param = 0) (hp : ∀ u, held (s'.pc u) = held (s.pc u))
    (hm : s'.mapTask = s.mapTask.set tid e.dispatch) (hs : s'.starts = s.starts) : Ledger s' := by
  rcases h.entries tid e hf with ⟨a, ha, -, ho⟩ | ⟨hcb, hparam, hr⟩
  · obtain ⟨hcb, hparam⟩ := h.nonNull a ha
    rw [ho.cb, ho.param] at hnull
    exact (hnull.elim hcb hparam).elim
  · exact (h.setNull (e := e.dispatch) hcb hparam hr).quiet ⟨hk.tid, hk.added, hk.removed⟩ hp hm hs

/-- A worker is through, and its task's entry knows. -/
theorem Ledger.release (h : Ledger s) (hk : Frame s s') {t : Fin n} {task : ThreadTask} (ht : held (s.pc t) = some task)
    (hpc : s'.pc = Function.update s.pc t .loop) (hs : s'.starts = s.starts)
    (hother : ∀ k, k ≠ task.tid → s'.mapTask.find k = s.mapTask.find k)
    (hself : ∀ e, s'.mapTask.find task.tid = some e →
      (∃ a ∈ s.added, a.tid = task.tid ∧ Own a e (holders s' task.tid) (s.starts task.tid)) ∨
        e.cb = 0 ∧ e.param = 0 ∧ task.tid ∈ s.removed)
    (hsome : ∃ e, s'.mapTask.find task.tid = some e) : Ledger s' := by
  have hc := holders_release (p := .loop) hpc ht rfl
  refine h.of_frame hk ?_ ?_ ?_ ?_ ?_
  · intro k f hf
    rw [hs]
    by_cases hkt : k = task.tid
    · subst hkt
      exact hself f hf
    · have hck := hc k
      rw [if_neg (Ne.symm hkt)] at hck
      rw [hother k hkt] at hf
      rw [show holders s' k = holders s k from hck]
      exact h.entries k f hf
  · intro b hb hnr
    by_cases hbt : b.tid = task.tid
    · rw [hbt]
      exact hsome
    · rw [hother _ hbt]
      exact h.present b hb hnr
  · intro u v hu
    rw [hpc] at hu
    rcases see_update held hu with ⟨-, hu⟩ | ⟨-, hu⟩
    · cases hu
    · exact h.holding u v hu
  · rw [hs]
    exact h.started
  · intro b hb
    obtain ⟨hnum, hst⟩ := h.limits b hb
    rw [hs]
    exact ⟨(Nat.le_add_right _ _).trans ((hc b.tid).le.trans hnum), hst⟩

theorem Ledger.record (h : Ledger s) (hk : Frame s s') {t : Fin n} {tick endtick : UInt32} {task junk : ThreadTask}
    (ht : s.pc t = .record tick endtick task) (hpc : s'.pc = Function.update s.pc t .loop)
    (hm : s'.mapTask = s.mapTask.set task.tid ((at_ s.mapTask task.tid junk).recordRun tick endtick))
    (hs : s'.starts = s.starts) : Ledger s' := by
  have hheld : held (s.pc t) = some task := by rw [ht]; rfl
  refine h.release hk hheld hpc hs (fun k hkt => ?_) (fun e he => ?_) ⟨_, by rw [hm]; exact OrdMap.find_set_self ..⟩
  · rw [hm, OrdMap.find_set_ne hkt]
  · rw [hm, OrdMap.find_set_self] at he
    cases he
    rw [at_]
    cases hf : s.mapTask.find task.tid with
    | none =>
      obtain ⟨a, ha, hat⟩ := h.holding t task hheld
      refine .inr ⟨rfl, rfl, ?_⟩
      by_contra hr
      obtain ⟨e, he⟩ := h.present a ha (hat ▸ hr)
      rw [hat, hf] at he
      cases he
    | some e =>
      rcases h.entries _ e hf with ⟨a, ha, hat, ho⟩ | hrem
      · have hc := holders_release (p := .loop) hpc hheld rfl task.tid
        rw [if_pos rfl] at hc
        exact .inl ⟨a, ha, hat, ho.tid, ho.cb, ho.param, ho.mulNum,
          recordRun_runingnum (ho.runingnum.trans hc.symm), ho.runtimes⟩
      · exact .inr hrem

theorem Ledger.step (h : Ledger s) {a : Act n} (hle : s'.added.length ≤ 2 ^ 32) (he : step q s a = some s') :
    Ledger s' := by
  cases move he with
  | quiet hk hp hm hs => exact h.quiet hk hp hm hs
  | add task _ _ hcb hparam htid hnum hs =>
    subst hs
    refine h.add ?_ hcb hparam htid hnum
    rw [State.addThreadTask, List.length_append] at hle
    exact hle
  | erase tid e _ hf hs =>
    subst hs
    exact h.erase tid
  | start t tick tid e hk ht hf hel hcb hpc hm hs => exact h.start (hk.added ▸ hle) hk ht hf hel hcb hpc hm hs
  | skip tid e hk hf hnull hp hm hs => exact h.skip hk hf hnull hp hm hs
  | record t tick endtick _ task junk _ hk ht hpc hm hs => exact h.record hk ht hpc hm hs

theorem added_mono {a : Act n} (he : step q s a = some s') : s.added.length ≤ s'.added.length := by
  cases move he with
  | quiet hk | start _ _ _ _ hk | skip _ _ hk | record _ _ _ _ _ _ _ hk => rw [hk.added]
  | add task _ _ _ _ _ _ hs => simp [hs, State.addThreadTask]
  | erase _ _ _ _ hs => simp [hs]

/-- The ledger holds as long as no id has been given twice. -/
theorem ledger (h : (sys q n).Reachable s) (hle : s.added.length ≤ 2 ^ 32) : Ledger s := by
  refine Sys.Reachable.inv (I := fun s => s.added.length ≤ 2 ^ 32 → Ledger s) ?_
    (fun s a s' hi he hle => (hi ((added_mono he).trans hle)).step hle he) h hle
  intro s hs _
  subst hs
  refine ⟨rfl, ?_, ?_, ?_, ?_, ?_, ?_, ?_⟩ <;> simp [held]

/-- The limits of the task that was added as `a`; until it is removed its entry is in the map and has the count. -/
structure WithinLimits (s : State n) (a : ThreadTask) : Prop where
  atOnce : holders s a.tid ≤ a.mulNum.toNat
  inAll : a.runtimes ≠ MAX_TRHEAD_RUNTIMES → s.starts a.tid ≤ a.runtimes.toNat
  runingnum : a.tid ∉ s.removed → ∃ e, s.mapTask.find a.tid = some e ∧ e.cb = a.cb ∧ e.param = a.param ∧
    e.runingnum.toNat = holders s a.tid

/-- **Dispatch limits.** They hold for every task in every run that adds fewer than 2³² - 1. -/
theorem withinLimits (h : (sys q n).Reachable s) (hlt : s.added.length < 2 ^ 32 - 1) :
    ∀ a ∈ s.added, WithinLimits s a := by
  intro a ha
  have hl := ledger h (by omega)
  obtain ⟨hnum, hruns⟩ := hl.limits a ha
  refine ⟨hnum, hruns, ?_⟩
  intro hr
  obtain ⟨e, hf⟩ := hl.present a ha hr
  rcases hl.entries a.tid e hf with ⟨b, hb, hba, ho⟩ | ⟨-, -, hrem⟩
  · obtain rfl := hl.unique (by omega) hb ha hba
    exact ⟨e, hf, ho.cb, ho.param, ho.runingnum⟩
  · exact absurd hrem hr

/-- A task for two workers at a time and two runs, with a third worker that finds nothing. -/
theorem withinLimits_two : ∃ s : State 3, (sys double 3).Reachable s ∧ holders s 0 = 2 ∧ s.starts 0 = 2 ∧
    s.pc 2 = .loop ∧ ∀ a ∈ s.added, WithinLimits s a := by
  obtain ⟨s, hrun, hh, hst, hpc, hlen⟩ : ∃ s, (sys double 3).run ⟨fun _ => .loop, true, .empty, 0, [], [], fun _ => 0⟩
      ([.add 1 1 2 2 10] ++ runs 0 20 3 ++ runs 1 21 3 ++ runs 2 30 3) = some s ∧ holders s 0 = 2 ∧ s.starts 0 = 2 ∧
        s.pc 2 = .loop ∧ s.added.length = 1 := Sys.exists_run (by decide +kernel)
  have hr := Sys.Reachable.run _ (.init rfl) hrun
  exact ⟨s, hr, hh, hst, hpc, withinLimits hr (by omega)⟩

end P1Server.ThreadPool
