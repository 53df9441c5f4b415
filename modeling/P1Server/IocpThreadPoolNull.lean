import P1Server.IocpThreadPoolDrain

/-!
# `unRegisterThread` and the freed contexts

`callBackFunction` puts `NULL` where a freed context was and passes over it (`IOCP_Test/ThreadPool.cpp:78`), while the
loop of `unRegisterThread` (`:50-53`) looks through every slot.

* **`never_null`** — where no slot of the entry is `NULL` when `unRegisterThread` is called, the loop meets none;
* `null_reached` — where one is, the loop comes to it;
* `first_call` — the first call for an id finds none.
-/

namespace P1Server.IocpTest
open Lib

variable {n : Nat} {s s' : State n} {threadSums : UInt32}

/-- `unRegisterThread` is about to look through a slot that is `NULL`. -/
def Dereferences (s : State n) : Prop := ∃ id rest, s.marking = some (id, none :: rest)

/-- `unRegisterThread` is called for an id whose entry, where there is one, has lost no context. -/
def Whole (s : State n) : Act n → Prop
  | .unRegisterThread id => ∀ v ∈ s.threadTasks.find id, none ∉ v
  | _ => True

instance decidableWhole : ∀ (s : State n) (a : Act n), Decidable (Whole s a)
  | s, .unRegisterThread id =>
    match h : s.threadTasks.find id with
    | none => .isTrue (by simp [Whole, h])
    | some v => decidable_of_iff (none ∉ v) (by simp [Whole, h])
  | _, .registerThread .. | _, .post _ | _, .put _ | _, .mark | _, .get .. | _, .run _ => .isTrue trivial

/-- What is left for the loop has no `NULL`. -/
def Marks (s : State n) : Prop := ∀ id rest, s.marking = some (id, rest) → none ∉ rest

/-- The callbacks and `registerThread` leave the loop as it is. -/
theorem marking_free (s : State n) (t : Fin n) (c : Nat) : (s.free t c).marking = s.marking := by
  simp only [State.free]
  split
  · rfl
  · split <;> rfl

theorem marking_registerThread (s : State n) (fn param : Nat) (concurrency : UInt32) :
    (s.registerThread threadSums fn param concurrency).marking = s.marking := by
  simp only [State.registerThread]
  generalize (if concurrency = THREAD_CONCURRENCY_MAX then threadSums else concurrency) = c
  split <;> rfl

/-- A turn of the loop goes past a slot that is not `NULL`, and the last one returns. -/
theorem mark_eq {id : UInt32} {slots : List Slot} (he : s.mark id slots = some s') :
    (slots = [] ∧ s'.marking = none) ∨ ∃ c rest, slots = some c :: rest ∧ s'.marking = some (id, rest) := by
  cases slots with
  | nil =>
    cases he
    exact .inl ⟨rfl, rfl⟩
  | cons slot rest =>
    cases slot with
    | none => cases he
    | some c =>
      cases he
      exact .inr ⟨c, rest, rfl, rfl⟩

theorem Marks.step {a : Act n} (h : Marks s) (hw : Whole s a) (he : step threadSums s a = some s') : Marks s' := by
  intro id rest hm
  cases a with
  | registerThread fn param concurrency =>
    cases he
    exact h id rest (marking_registerThread s .. ▸ hm)
  | post k =>
    obtain ⟨-, he⟩ := Option.ite_none_right_eq_some.1 he
    cases he
    exact h id rest hm
  | put k =>
    obtain ⟨-, he⟩ := Option.ite_none_right_eq_some.1 he
    cases he
    exact h id rest hm
  | unRegisterThread i =>
    obtain ⟨hno, he⟩ := Option.ite_none_right_eq_some.1 he
    cases he
    simp only [State.unRegisterThread] at hm
    split at hm
    case h_1 => exact h id rest hm
    case h_2 v hv =>
      cases hm
      exact hw _ hv
  | mark =>
    simp only [IocpTest.step] at he
    split at he
    case h_2 => cases he
    case h_1 i slots hs =>
      rcases mark_eq he with ⟨-, hm'⟩ | ⟨c, rest', rfl, hm'⟩
      · rw [hm'] at hm
        cases hm
      · rw [hm'] at hm
        cases hm
        exact fun hmem => h id _ hs (List.mem_cons_of_mem _ hmem)
  | get t c =>
    obtain ⟨-, he⟩ := Option.ite_none_right_eq_some.1 he
    cases he
    exact h id rest hm
  | run t =>
    simp only [IocpTest.step] at he
    split at he
    case h_1 => cases he
    case h_5 c _ =>
      obtain ⟨-, he⟩ := Option.ite_none_right_eq_some.1 he
      cases he
      exact h id rest (marking_free s t c ▸ hm)
    all_goals
      cases he
      exact h id rest hm

/-- **`unRegisterThread` meets no freed slot**, however often and when it is called, as long as each call finds its
entry whole or finds none. -/
theorem never_null (h : (sys n threadSums).Reach Whole s) : ¬ Dereferences s := by
  have hm : Marks s := by
    refine Sys.Reach.inv ?_ ?_ h
    · rintro s ⟨heap, call, rfl⟩ id rest hm
      cases hm
    · intro s a s' hs hw he
      exact hs.step hw he
  rintro ⟨id, rest, hd⟩
  exact hm id _ hd List.mem_cons_self

/-- Two contexts, both marked, freed one after the other; `unRegisterThread` is called again when the entry is gone. -/
theorem never_null_two : ∃ s : State 2, (sys 2 2).Reach Whole s ∧ s.freed = [0, 1] ∧
    s.returns = [⟨1, true, 0⟩, ⟨1, false, 2⟩] ∧ ¬ Dereferences s :=
  have hr : (sys 2 2).Reach Whole _ := Sys.Reach.runK [.registerThread 7 8 2, .post 0, .post 0, .put 0,
    .unRegisterThread 1, .mark, .mark, .mark, .get 0 0, .get 1 1, .run 0, .run 0, .run 0, .run 0, .run 1, .run 1,
    .run 1, .run 1, .unRegisterThread 1] (.init empty_init) rfl
  ⟨_, hr, rfl, rfl, never_null hr⟩

/-- One of two contexts is freed, the other still posted; `unRegisterThread` is called for the second time. -/
theorem not_never_null : ¬ ∀ (n : Nat) (threadSums : UInt32) (s : State n), (sys n threadSums).Reachable s →
    ¬ Dereferences s := by
  intro h
  have hr : (sys 2 2).Reachable _ := Sys.Reachable.run [.registerThread 7 8 2, .post 0, .post 0, .put 0,
    .unRegisterThread 1, .mark, .mark, .mark, .get 0 0, .run 0, .run 0, .run 0, .run 0, .unRegisterThread 1]
    (.init empty_init) rfl
  exact h 2 2 _ hr ⟨1, [some 1], rfl⟩

/-! ## The condition is the least one -/

theorem marks_to_null (threadSums : UInt32) {id : UInt32} {slots : List Slot} (hm : s.marking = some (id, slots))
    (hn : none ∈ slots) : ∃ as t, (∀ a ∈ as, a = Act.mark) ∧ (sys n threadSums).run s as = some t ∧ Dereferences t := by
  induction slots generalizing s with
  | nil => cases hn
  | cons slot rest ih =>
    cases slot with
    | none => exact ⟨[], s, by simp, rfl, id, rest, hm⟩
    | some c =>
      let s₁ : State n :=
        { s with heap := Function.update s.heap c { s.heap c with taskState := 0 }, marking := some (id, rest) }
      have he : step threadSums s .mark = some s₁ := by simp only [step, hm, State.mark, s₁]
      obtain ⟨as, t, has, hrun, hd⟩ := ih (s := s₁) rfl ((List.mem_cons.1 hn).resolve_left (by simp))
      refine ⟨.mark :: as, t, ?_, ?_, hd⟩
      · simpa using has
      · simp only [Sys.run, sys, he]
        exact hrun

/-- A call that finds a slot `NULL` comes to it. -/
theorem null_reached {id : UInt32} (hm : s.marking = none) (hw : ¬ Whole s (.unRegisterThread id)) :
    ∃ as t, (∀ a ∈ as, a = Act.mark) ∧ (sys n threadSums).run s (.unRegisterThread id :: as) = some t ∧
      Dereferences t := by
  obtain ⟨v, hv, hn⟩ : ∃ v, s.threadTasks.find id = some v ∧ none ∈ v := by simpa [Whole] using hw
  have he : step threadSums s (.unRegisterThread id) = some (s.unRegisterThread id) := if_pos hm
  have hmarking : (s.unRegisterThread id).marking = some (id, v) := by simp [State.unRegisterThread, hv]
  obtain ⟨as, t, has, hrun, hd⟩ := marks_to_null threadSums hmarking hn
  refine ⟨as, t, has, ?_, hd⟩
  simp only [Sys.run, sys, he]
  exact hrun

/-- The first call for an id finds no freed context, while the ids have not come round. -/
theorem first_call (h : (sys n threadSums).Reachable s) (hlt : s.calls < 2 ^ 32) {id : UInt32} (hc : id ∉ s.called) :
    Whole s (.unRegisterThread id) := by
  have hi := inv h hlt
  intro v hv hn
  obtain ⟨-, rfl, -⟩ := hi.entry id v hv
  obtain ⟨c, hmem, hslot⟩ := List.mem_map.1 hn
  obtain ⟨hlt, hid⟩ := mem_ofTask.1 hmem
  have hfreed : c ∈ s.freed := by
    by_contra hf
    simp [slot, hf] at hslot
  exact hc (hid ▸ (hi.zero c hlt (hi.freed c hfreed)).2)

end P1Server.IocpTest
