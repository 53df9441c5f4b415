import P1Server.IocpThreadPoolInv

/-!
# Draining a task

* `drains` — a context is in one place; no more contexts of a task than its `concurrency` are executed at a time, and
  are started after `unRegisterThread` has returned `true`; the last one erases the entry;
* `not_drains` — where `unRegisterThread` is called before the entry is there, or the ids come round.
-/

namespace P1Server.IocpTest
open Lib

variable {n : Nat} {s s' : State n} {threadSums : UInt32}

/-! ## What the invariant says -/

theorem Inv.ofTask_le (h : Inv s) {k : Nat} (hk : k < s.calls) :
    (ofTask s (s.call k).taskId).length ≤ (s.call k).concurrency.toNat := by
  rw [← h.pOvs k hk]
  exact (h.most k hk).1

/-- The contexts that are executed are different contexts of the task. -/
theorem Inv.executing_le (h : Inv s) (id : UInt32) : executing s id ≤ (ofTask s id).length := by
  have hheld : ∀ t ∈ Finset.univ.filter fun t => ((held (s.pc t)).any fun c => decide ((s.heap c).taskId = id)) = true,
      ∃ c, held (s.pc t) = some c ∧ (s.heap c).taskId = id := by
    intro t ht
    obtain ⟨c, hc, hid⟩ := (Option.any_eq_true _ _).1 (Finset.mem_filter.1 ht).2
    exact ⟨c, hc, of_decide_eq_true hid⟩
  refine le_trans (b := (ofTask s id).toFinset.card) ?_ (List.toFinset_card_le _)
  rw [executing, atPlaces]
  refine Finset.card_le_card_of_injOn (fun t => (held (s.pc t)).getD 0) ?_ ?_
  · intro t ht
    obtain ⟨c, hc, hid⟩ := hheld t ht
    simpa [hc] using mem_ofTask.2 ⟨h.held_lt hc, hid⟩
  · intro t ht u hu he
    obtain ⟨c, hc, -⟩ := hheld t ht
    obtain ⟨d, hd, -⟩ := hheld u hu
    simp only [hc, hd, Option.getD_some] at he
    exact h.held_inj hc (he ▸ hd)

/-- Each context of the task is started once at most after the return. -/
theorem Inv.since_le (h : Inv s) {r : Return} (hr : r ∈ s.returns) (hres : r.result = true) :
    (since s r).length ≤ (ofTask s r.id).length := by
  refine (List.subperm_of_subset (h.late r hr hres).2.1 ?_).length_le
  intro c hc
  obtain ⟨hmem, hid⟩ := List.mem_filter.1 hc
  exact mem_ofTask.2 ⟨h.log c (List.mem_of_mem_drop hmem), of_decide_eq_true hid⟩

/-- The entry of a task that is registered is there until all its contexts are freed. -/
theorem Inv.find_none_iff (h : Inv s) {id : UInt32} (hd : Done s id) :
    s.threadTasks.find id = none ↔ ∀ c ∈ ofTask s id, c ∈ s.freed := by
  refine ⟨h.gone id hd, ?_⟩
  intro hall
  cases hf : s.threadTasks.find id with
  | none => rfl
  | some v =>
    obtain ⟨-, -, c, hc, hcf⟩ := h.entry id v hf
    exact absurd (hall c hc) hcf

/-- The entry is there when `unRegisterThread` is called for the first time. -/
theorem Inv.find_first (h : Inv s) {k : Nat} (hk : k < s.calls) (hd : (s.call k).done = true)
    (hc : (s.call k).taskId ∉ s.called) : (s.threadTasks.find (s.call k).taskId).isSome := by
  by_contra hn
  have hall := h.gone _ ⟨k, hk, rfl, hd⟩ (by simpa using hn)
  have hpos : 0 < (s.call k).pOvs.length := by
    rw [h.full k hk hd]
    exact (h.most k hk).2
  obtain ⟨c, hmem⟩ := List.exists_mem_of_length_pos hpos
  rw [h.pOvs k hk] at hmem
  have hcf := hall c hmem
  have hz := (h.zero c (h.freed_lt hcf) (h.freed c hcf)).2
  rw [(mem_ofTask.1 hmem).2] at hz
  exact hc hz

/-! ## The contract -/

/-- `unRegisterThread` is called once for an id at most. -/
def AtMostOnce (s : State n) : Act n → Prop
  | .unRegisterThread id => id ∉ s.called
  | _ => True

instance : ∀ (s : State n) (a : Act n), Decidable (AtMostOnce s a)
  | s, .unRegisterThread id => inferInstanceAs (Decidable (id ∉ s.called))
  | _, .registerThread .. | _, .post _ | _, .put _ | _, .mark | _, .get .. | _, .run _ => .isTrue trivial

/-- Since the return no more contexts of the task have been started than its `concurrency`. -/
def Bounded (s : State n) (r : Return) : Prop :=
  ∀ k < s.calls, (s.call k).taskId = r.id → (since s r).length ≤ (s.call k).concurrency.toNat

/-- How a task is drained, for the returns of `unRegisterThread` with `p`. -/
structure Drains (p : Return → Prop) (s : State n) : Prop where
  place : ∀ c < s.next, places s c = 1
  atOnce : ∀ k < s.calls, executing s (s.call k).taskId ≤ (s.call k).concurrency.toNat
  since : ∀ r ∈ s.returns, p r → Bounded s r
  freed : ∀ c, s.freed.count c ≤ 1
  erased : ∀ k < s.calls, (s.call k).done = true →
    (s.threadTasks.find (s.call k).taskId = none ↔ ∀ c ∈ ofTask s (s.call k).taskId, c ∈ s.freed)
  found : ∀ t c, s.pc t = .lock c → (s.threadTasks.find (s.heap c).taskId).isSome

/-- **A task is drained**, while the ids have not come round; the first `unRegisterThread` for an id that
`registerThread` has returned finds it. -/
theorem drains (h : (sys n threadSums).Reachable s) (hlt : s.calls < 2 ^ 32) :
    Drains (fun r => r.result = true) s ∧
      ∀ k < s.calls, (s.call k).done = true → (s.call k).taskId ∉ s.called →
        (s.threadTasks.find (s.call k).taskId).isSome := by
  have hi := inv h hlt
  refine ⟨⟨fun c hc => (hi.place c).trans (if_pos hc), fun k hk => ?_, fun r hr hres k hk hid => ?_, fun c => ?_,
    fun k hk hd => hi.find_none_iff ⟨k, hk, rfl, hd⟩, fun t c ht => by rw [hi.find_lock ht]; rfl⟩,
    fun k hk hd hc => hi.find_first hk hd hc⟩
  · exact (hi.executing_le _).trans (hi.ofTask_le hk)
  · exact (hi.since_le hr hres).trans (hid ▸ hi.ofTask_le hk)
  · have hp := hi.place c
    rw [places] at hp
    split at hp <;> omega

/-- A pool nobody has called. -/
def empty (n : Nat) : State n :=
  ⟨fun _ => .idle, [], fun _ => ⟨0, 0, 0, 0⟩, 0, 0, .empty, fun _ => ⟨0, 0, 0, 0, [], false⟩, 0, none, [], [], [], []⟩

theorem empty_init : (sys n threadSums).init (empty n) := ⟨_, _, rfl⟩

/-- Two contexts, the first of them executed before `registerThread` is through. -/
theorem drains_two : ∃ s : State 2, (sys 2 2).Reachable s ∧ s.freed = [0, 1] ∧ s.threadTasks.find 1 = none ∧
    Drains (fun r => r.result = true) s :=
  have hr : (sys 2 2).Reachable _ := Sys.Reachable.run [.registerThread 7 8 2, .post 0, .get 0 0, .post 0, .put 0,
    .get 1 1, .run 0, .unRegisterThread 1, .mark, .mark, .mark, .run 0, .run 0, .run 0, .run 1, .run 1, .run 1, .run 1]
    (.init empty_init) rfl
  ⟨_, hr, rfl, rfl, (drains hr (by decide)).1⟩

/-! ## The ids come round -/

/-- Another task with one context is registered. -/
def another (s : State n) : State n := ((s.registerThread 1 0 0 1).post s.calls).put s.calls

/-- The context 0 of the task 1 is executed and is to be freed; `m` tasks have been registered. -/
structure Stale (s : State 1) (m : Nat) : Prop where
  run : s.pc 0 = .running 0
  zero : (s.heap 0).taskId = 1 ∧ (s.heap 0).taskState = 0
  marking : s.marking = none
  calls : s.calls = m
  next : s.next = m
  id : s.threadTaskId = UInt32.ofNat m
  entry : s.threadTasks.find s.threadTaskId = some [some (m - 1)]
  queue : 0 ∉ s.queue
  freed : s.freed = []

theorem run_another {s : State 1} (hm : s.marking = none) :
    (sys 1 1).run s [.registerThread 0 0 1, .post s.calls, .put s.calls] = some (another s) := by
  have hreg : s.registerThread 1 0 0 1 = begun s ⟨s.threadTaskId + 1, 0, 0, 1, [], false⟩ := rfl
  simp [Sys.run, sys, step, hreg, another, begun, State.post, hm]

theorem Stale.another {s : State 1} {m : Nat} (h : Stale s m) (hpos : 0 < m) : Stale (another s) (m + 1) := by
  have hreg : s.registerThread 1 0 0 1 = begun s ⟨s.threadTaskId + 1, 0, 0, 1, [], false⟩ := rfl
  have hne : 0 ≠ s.next := by
    rw [h.next]
    omega
  have hheap : (IocpTest.another s).heap 0 = s.heap 0 := Function.update_of_ne hne ..
  refine ⟨h.run, hheap ▸ h.zero, h.marking, congrArg (· + 1) h.calls, congrArg (· + 1) h.next, ?_, ?_, ?_, h.freed⟩
  · show s.threadTaskId + 1 = UInt32.ofNat (m + 1)
    rw [h.id, UInt32.ofNat_add]
    rfl
  · simp [IocpTest.another, hreg, IocpTest.begun, State.post, State.put, h.next, OrdMap.find_set_self]
  · simp [IocpTest.another, hreg, IocpTest.begun, State.post, State.put, h.queue, hne]

theorem Stale.many {s : State 1} {m : Nat} (hr : (sys 1 1).Reach AtMostOnce s) (h : Stale s m) (hpos : 0 < m) (k : Nat) :
    ∃ t, (sys 1 1).Reach AtMostOnce t ∧ Stale t (m + k) := by
  induction k with
  | zero => exact ⟨s, hr, h⟩
  | succ k ih =>
    obtain ⟨t, hr, ht⟩ := ih
    refine ⟨IocpTest.another t, Sys.Reach.run _ hr ?_ (run_another ht.marking), ht.another (by omega)⟩
    simp [AtMostOnce]

/-- The callback finds the entry of another task under its id: the context is neither freed nor posted. -/
theorem Stale.lost {s : State 1} (h : Stale s (2 ^ 32 + 1)) :
    ∃ t, (sys 1 1).run s [.run 0, .run 0, .run 0] = some t ∧ t.next = 2 ^ 32 + 1 ∧ places t 0 = 0 := by
  have hid : s.threadTaskId = 1 := h.id
  have hf : s.threadTasks.find 1 = some [some (2 ^ 32)] := hid ▸ h.entry
  have hidle : atPlaces (has 0) (fun _ : Fin 1 => Pc.idle) = 0 := atPlaces_zero.2 fun _ => rfl
  have hpc : ∀ (pc : Fin 1 → Pc) (p : Pc), Function.update pc 0 p = fun _ => p := fun pc p => by
    funext t
    rw [Subsingleton.elim t 0, Function.update_self]
  have hq : s.queue.count 0 = 0 := List.count_eq_zero.2 h.queue
  simp [Sys.run, sys, step, State.goto, State.free, sweep, h.run, h.zero, h.marking, h.next, h.freed, hf, places, hpc,
    hidle, hq]

/-- `unRegisterThread` that comes too early leaves the task as it is; and when the ids have come round, a context is in
no place. -/
theorem not_drains :
    (¬ ∀ s : State 1, (sys 1 1).Reach AtMostOnce s → s.calls < 2 ^ 32 → Drains (fun _ => True) s) ∧
      ¬ ∀ s : State 1, (sys 1 1).Reach AtMostOnce s → Drains (fun r => r.result = true) s := by
  constructor
  · intro h
    have hr : (sys 1 1).Reach AtMostOnce _ := Sys.Reach.runK [.registerThread 7 8 1, .post 0, .unRegisterThread 1,
      .put 0, .get 0 0, .run 0, .run 0, .run 0, .run 0, .get 0 0, .run 0] (.init empty_init) rfl
    have hb := (h _ hr (by decide)).since ⟨1, false, 0⟩ (List.mem_singleton_self _) trivial 0 (by decide) rfl
    exact absurd hb (by decide)
  · intro h
    have hr : (sys 1 1).Reach AtMostOnce _ := Sys.Reach.runK [.registerThread 7 8 1, .post 0, .put 0, .get 0 0, .run 0,
      .unRegisterThread 1, .mark, .mark] (.init empty_init) rfl
    obtain ⟨s, hs, hst⟩ := Stale.many (m := 1) hr
      ⟨rfl, ⟨rfl, rfl⟩, rfl, rfl, rfl, rfl, rfl, by decide, rfl⟩ (by decide) (2 ^ 32)
    rw [Nat.add_comm] at hst
    obtain ⟨t, hrun, hn, hp⟩ := hst.lost
    have ht := Sys.Reach.run _ hs (by simp [AtMostOnce]) hrun
    have := (h t ht).place 0 (by rw [hn]; decide)
    rw [hp] at this
    cases this

end P1Server.IocpTest
