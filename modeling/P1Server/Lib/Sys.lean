import Mathlib.Logic.Function.Basic

/-!
# Labelled transition systems: runs, guarded runs, invariants

A system is a set of initial states and a partial step function; the label names who moves and
what the environment answers, so `step` is a function. `Reach K` are the states of the runs in
which every step `(s, a)` meets the condition `K s a`; `Reachable` is `Reach` with no condition.

* `Reach.inv` — what holds initially and is kept by the steps that meet `K` holds in every state
  of such a run;
* `Reach.inv_of` — the same, with an invariant already proved available at each step;
* `Reachable.project` — the runs of a component, out of those of a system that has it;
* `Reach.runK`, `Reach.run` — a run computed by `runK` or `run` reaches its last state;
* `drain` — while a measure can be lowered by steps of some kind, a run of these steps reaches the goal;
* `runK_ranked` — where the steps of some kind lower a rank and the others do not raise it, every run with more of them
  than the rank reaches the goal;
* `run_inv` — what every step keeps a run keeps, from wherever it starts;
* `run_countP_le`, `run_length_le` — where the steps, or those of some kind, lower a rank, it bounds their number;
* `Shows` — a run between two states with what is seen of its steps, computed by `shown` (`Shows.run`), and invariants
  that speak of both (`Shows.inv`);
  a system that simulates another one shows nothing else (`Shows.simulate`);
  where `K` leaves one label to take, a run that is over continues every other (`Shows.onward`).
-/

namespace Lib

/-- A labelled transition system with a deterministic partial step per label. -/
structure Sys (σ α : Type*) where
  init : σ → Prop
  step : σ → α → Option σ

namespace Sys

variable {σ α : Type*} {M : Sys σ α} {K L : σ → α → Prop}

/-- States of the runs all of whose steps meet `K` in the state they start from. -/
inductive Reach (M : Sys σ α) (K : σ → α → Prop) : σ → Prop
  | init {s : σ} : M.init s → M.Reach K s
  | step {s s' : σ} {a : α} : M.Reach K s → K s a → M.step s a = some s' → M.Reach K s'

/-- States of all runs. -/
def Reachable (M : Sys σ α) : σ → Prop := M.Reach fun _ _ => True

theorem Reach.inv {I : σ → Prop} (h0 : ∀ s, M.init s → I s)
    (hs : ∀ s a s', I s → K s a → M.step s a = some s' → I s') {s : σ} (h : M.Reach K s) : I s := by
  induction h with
  | init hi => exact h0 _ hi
  | step _ hk he ih => exact hs _ _ _ ih hk he

/-- Invariant rule relative to facts `J` already known of every state of the run. -/
theorem Reach.inv_of {I J : σ → Prop} (hJ : ∀ s, M.Reach K s → J s) (h0 : ∀ s, M.init s → I s)
    (hs : ∀ s a s', J s → J s' → I s → K s a → M.step s a = some s' → I s') {s : σ}
    (h : M.Reach K s) : I s := by
  induction h with
  | init hi => exact h0 _ hi
  | step hr hk he ih => exact hs _ _ _ (hJ _ hr) (hJ _ (.step hr hk he)) ih hk he

theorem Reach.mono (hKL : ∀ s a, K s a → L s a) {s : σ} (h : M.Reach K s) : M.Reach L s := by
  induction h with
  | init hi => exact .init hi
  | step _ hk he ih => exact .step ih (hKL _ _ hk) he

theorem Reach.reachable {s : σ} (h : M.Reach K s) : M.Reachable s :=
  h.mono fun _ _ _ => trivial

theorem Reachable.inv {I : σ → Prop} (h0 : ∀ s, M.init s → I s)
    (hs : ∀ s a s', I s → M.step s a = some s' → I s') {s : σ} (h : M.Reachable s) : I s :=
  Reach.inv h0 (fun s a s' hi _ he => hs s a s' hi he) h

/-- **Projection rule.** Where every step is a step of a component, or does not touch it, what reaches the component's
states are its own runs. -/
theorem Reachable.project {τ β : Type*} {N : Sys τ β} {J : σ → Prop} (π : σ → τ) (hJ : ∀ s, M.Reachable s → J s)
    (h0 : ∀ s, M.init s → N.init (π s))
    (hs : ∀ s a s', J s → M.step s a = some s' → π s' = π s ∨ ∃ b, N.step (π s) b = some (π s')) {s : σ}
    (h : M.Reachable s) : N.Reachable (π s) := by
  induction h with
  | init hi => exact .init (h0 _ hi)
  | step hr _ he ih =>
    rcases hs _ _ _ (hJ _ hr) he with heq | ⟨b, hb⟩
    · rwa [heq]
    · exact .step ih trivial hb

/-! ## Computed runs -/

/-- Run a list of labels; `none` if one of them is not enabled. -/
def run (M : Sys σ α) : σ → List α → Option σ
  | s, [] => some s
  | s, a :: as => (M.step s a).bind fun s' => run M s' as

/-- Run a list of labels, checking `K` before each step. -/
def runK (M : Sys σ α) (K : σ → α → Prop) [∀ s a, Decidable (K s a)] : σ → List α → Option σ
  | s, [] => some s
  | s, a :: as => if K s a then (M.step s a).bind fun s' => runK M K s' as else none

theorem Reach.runK [∀ s a, Decidable (K s a)] :
    ∀ (as : List α) {s s' : σ}, M.Reach K s → M.runK K s as = some s' → M.Reach K s'
  | [], _, _, h, he => by
    cases he
    exact h
  | a :: as, s, s', h, he => by
    simp only [Sys.runK] at he
    split at he
    case isTrue hk =>
      obtain ⟨t, ht, he⟩ := Option.bind_eq_some_iff.1 he
      exact Reach.runK as (.step h hk ht) he
    case isFalse => simp at he

/-- A computed run of labels that meet `K` whatever the state. -/
theorem Reach.run : ∀ (as : List α) {s s' : σ}, M.Reach K s → (∀ a ∈ as, ∀ t, K t a) → M.run s as = some s' →
    M.Reach K s'
  | [], _, _, h, _, he => by
    cases he
    exact h
  | a :: as, s, s', h, hK, he => by
    simp only [Sys.run] at he
    obtain ⟨t, ht, he⟩ := Option.bind_eq_some_iff.1 he
    exact Reach.run as (.step h (hK a List.mem_cons_self s) ht) (fun b hb => hK b (List.mem_cons_of_mem _ hb)) he

theorem Reachable.run (as : List α) {s s' : σ} (h : M.Reachable s) (he : M.run s as = some s') : M.Reachable s' :=
  Reach.run as h (fun _ _ _ => trivial) he

theorem runK_true [∀ s a, Decidable (K s a)] (hK : ∀ s a, K s a) : ∀ (s : σ) (as : List α), M.runK K s as = M.run s as
  | _, [] => rfl
  | s, a :: as => by
    simp only [runK, run, if_pos (hK s a)]
    congr 1
    funext t
    exact runK_true hK t as

theorem run_cons {s s' : σ} {a : α} (h : M.step s a = some s') (as : List α) : M.run s (a :: as) = M.run s' as := by
  rw [run, h]
  rfl

theorem run_append (s : σ) : ∀ as bs : List α, M.run s (as ++ bs) = (M.run s as).bind fun t => M.run t bs
  | [], _ => rfl
  | a :: as, bs => by
    simp only [List.cons_append, run, Option.bind_assoc]
    congr 1
    funext t
    exact run_append t as bs

/-- What is computed of the end of a run. -/
theorem exists_run {P : σ → Prop} [DecidablePred P] {s : σ} {as : List α}
    (h : (M.run s as).any (fun t => decide (P t)) = true) : ∃ t, M.run s as = some t ∧ P t := by
  obtain ⟨t, ht, hP⟩ := (Option.any_eq_true _ _).1 h
  exact ⟨t, ht, of_decide_eq_true hP⟩

/-- What every step keeps a run keeps, from wherever it starts. -/
theorem run_inv {P : σ → Prop} (hs : ∀ s a s', P s → M.step s a = some s' → P s') :
    ∀ (as : List α) {s t : σ}, P s → M.run s as = some t → P t
  | [], _, _, h, he => by
    cases he
    exact h
  | a :: as, _, _, h, he => by
    simp only [run] at he
    obtain ⟨u, hu, he⟩ := Option.bind_eq_some_iff.1 he
    exact run_inv hs as (hs _ a u h hu) he

/-! ## Runs that reach a goal -/

/-- Some run of steps of kind `A` leads from `s` to a state with `Q`. -/
def Leads (M : Sys σ α) (A : α → Prop) (Q : σ → Prop) (s : σ) : Prop :=
  ∃ as s', (∀ a ∈ as, A a) ∧ M.run s as = some s' ∧ Q s'

theorem Leads.trans {A : α → Prop} {P Q : σ → Prop} {s : σ} (h : M.Leads A P s)
    (hQ : ∀ t, P t → M.Leads A Q t) : M.Leads A Q s := by
  obtain ⟨as, t, has, hrun, ht⟩ := h
  obtain ⟨bs, u, hbs, hrun', hu⟩ := hQ t ht
  refine ⟨as ++ bs, u, ?_, ?_, hu⟩
  · intro a ha
    exact (List.mem_append.1 ha).elim (has a) (hbs a)
  · rw [run_append, hrun]
    exact hrun'

/-- **Drain rule.** Where `P` holds and the measure is not yet zero, some step of kind `A` keeps `P` and
lowers the measure: then the measure can be brought to zero. -/
theorem drain {A : α → Prop} {P : σ → Prop} (μ : σ → Nat)
    (hs : ∀ s, P s → μ s ≠ 0 → ∃ a s', A a ∧ M.step s a = some s' ∧ P s' ∧ μ s' < μ s) {s : σ} (h : P s) :
    M.Leads A (fun t => P t ∧ μ t = 0) s := by
  induction hm : μ s using Nat.strongRecOn generalizing s with
  | ind m ih =>
    by_cases hz : μ s = 0
    · exact ⟨[], s, by simp, rfl, h, hz⟩
    · obtain ⟨a, t, ha, ht, hP, hlt⟩ := hs s h hz
      obtain ⟨as, u, has, hrun, hu⟩ := ih (μ t) (hm ▸ hlt) hP rfl
      refine ⟨a :: as, u, ?_, ?_, hu⟩
      · simpa using ⟨ha, has⟩
      · simp [run, ht, hrun]

/-- **Rank rule.** Until the goal holds no step raises the rank and those of kind `A` lower it: a run of more steps of
kind `A` than the rank reaches the goal. -/
theorem runK_ranked [∀ s a, Decidable (K s a)] {A : α → Bool} {P Q : σ → Prop} (rank : σ → Nat)
    (hs : ∀ s a s', P s → K s a → M.step s a = some s' →
      P s' ∧ (Q s' ∨ ¬Q s ∧ (rank s' < rank s ∨ A a = false ∧ rank s' ≤ rank s))) (as : List α) {s t : σ} (h : P s)
    (hlt : rank s < as.countP A) (he : M.runK K s as = some t) : P t ∧ Q t := by
  suffices H : ∀ {s}, P s → Q s ∨ rank s < as.countP A → M.runK K s as = some t → P t ∧ Q t from H h (.inr hlt) he
  clear h hlt he s
  intro s h hrank he
  induction as generalizing s with
  | nil =>
    cases he
    exact ⟨h, hrank.resolve_right (by simp)⟩
  | cons a as ih =>
    simp only [Sys.runK] at he
    split at he
    case isFalse => cases he
    case isTrue hk =>
      obtain ⟨u, hu, he⟩ := Option.bind_eq_some_iff.1 he
      obtain ⟨hP, hQ⟩ := hs s a u h hk hu
      refine ih hP ?_ he
      rcases hQ with hQ | ⟨hQ, hr⟩
      · exact .inl hQ
      · have hlt := hrank.resolve_left hQ
        rw [List.countP_cons] at hlt
        rcases hr with hr | ⟨ha, hr⟩
        · refine .inr ?_
          split at hlt <;> omega
        · rw [ha] at hlt
          exact .inr (Nat.lt_of_le_of_lt hr hlt)

/-- Where no step of kind `B` raises the rank and those of kind `A` lower it, a run of steps of kind `B` has no more
steps of kind `A` than that. -/
theorem run_countP_le {A : α → Bool} {B : α → Prop} {P : σ → Prop} (rank : σ → Nat)
    (hs : ∀ s a s', P s → B a → M.step s a = some s' → P s' ∧ rank s' + (if A a then 1 else 0) ≤ rank s)
    (as : List α) {s t : σ} (h : P s) (hB : ∀ a ∈ as, B a) (he : M.run s as = some t) :
    as.countP A + rank t ≤ rank s := by
  induction as generalizing s with
  | nil =>
    cases he
    simp
  | cons a as ih =>
    simp only [run] at he
    obtain ⟨u, hu, he⟩ := Option.bind_eq_some_iff.1 he
    obtain ⟨hP, hle⟩ := hs s a u h (hB a List.mem_cons_self) hu
    have := ih hP (fun b hb => hB b (List.mem_cons_of_mem _ hb)) he
    rw [List.countP_cons]
    omega

/-- Where every step lowers the rank, a run has no more steps than that. -/
theorem run_length_le {P : σ → Prop} (rank : σ → Nat)
    (hs : ∀ s a s', P s → M.step s a = some s' → P s' ∧ rank s' < rank s) (as : List α) {s t : σ} (h : P s)
    (he : M.run s as = some t) : as.length + rank t ≤ rank s := by
  have := run_countP_le (M := M) (A := fun _ => true) (B := fun _ => True) rank
    (fun s a s' hP _ hu => by simpa [Nat.succ_le_iff] using hs s a s' hP hu) as h (fun _ _ => trivial) he
  simpa using this

/-! ## What is seen of a run -/

/-- A run of steps that meet `K`, from `s` to `u`; `l` is what `f` sees of them. -/
inductive Shows {ο : Type*} (M : Sys σ α) (K : σ → α → Prop) (f : σ → α → List ο) : σ → List ο → σ → Prop
  | refl {s : σ} : M.Shows K f s [] s
  | step {s t u : σ} {a : α} {l : List ο} : K s a → M.step s a = some t → M.Shows K f t l u →
      M.Shows K f s (f s a ++ l) u

section Shows
variable {ο : Type*} {f : σ → α → List ο} {s t u : σ} {l l' : List ο}

theorem Shows.one {a : α} (hk : K s a) (he : M.step s a = some t) : M.Shows K f s (f s a) t := by
  rw [← List.append_nil (f s a)]
  exact .step hk he .refl

theorem Shows.trans (h : M.Shows K f s l t) (h' : M.Shows K f t l' u) : M.Shows K f s (l ++ l') u := by
  induction h with
  | refl => exact h'
  | step hk he _ ih =>
    rw [List.append_assoc]
    exact .step hk he (ih h')

/-- What is seen of a computed run. -/
def shown (M : Sys σ α) (f : σ → α → List ο) : σ → List α → List ο
  | _, [] => []
  | s, a :: as => f s a ++ (M.step s a).elim [] fun s' => shown M f s' as

/-- A computed run of labels that meet `K` whatever the state. -/
theorem Shows.run : ∀ (as : List α) {s : σ}, (∀ a ∈ as, ∀ u, K u a) → M.run s as = some t →
    M.Shows K f s (M.shown f s as) t
  | [], _, _, he => by
    cases he
    exact .refl
  | a :: as, s, hK, he => by
    obtain ⟨u, hu, he⟩ := Option.bind_eq_some_iff.1 he
    rw [shown, hu]
    exact .step (hK a List.mem_cons_self s) hu (Shows.run as (fun b hb => hK b (List.mem_cons_of_mem _ hb)) he)

/-- What every step keeps, with what has been seen before it, a run keeps. -/
theorem Shows.inv {I : List ο → σ → Prop}
    (hs : ∀ l s a s', I l s → K s a → M.step s a = some s' → I (l ++ f s a) s') (h : M.Shows K f s l t)
    (h0 : I [] s) : I l t := by
  suffices H : ∀ l₀, I l₀ s → I (l₀ ++ l) t from H [] h0
  clear h0
  induction h with
  | refl =>
    intro l₀ h₀
    rwa [List.append_nil]
  | step hk he _ ih =>
    intro l₀ h₀
    rw [← List.append_assoc]
    exact ih _ (hs _ _ _ _ h₀ hk he)

/-- **Simulation rule.** Where what is seen of a step is seen of a run that keeps the states related, what is seen of a
run is. -/
theorem Shows.simulate {τ β : Type*} {N : Sys τ β} {L : τ → β → Prop} {g : τ → β → List ο} {R : σ → τ → Prop}
    (hs : ∀ s x a s', R s x → K s a → M.step s a = some s' → ∃ x', N.Shows L g x (f s a) x' ∧ R s' x') {x : τ}
    (h : M.Shows K f s l t) (hR : R s x) : ∃ y, N.Shows L g x l y ∧ R t y := by
  refine Shows.inv (I := fun l s => ∃ y, N.Shows L g x l y ∧ R s y) ?_ h ⟨x, .refl, hR⟩
  rintro l s a s' ⟨y, hy, hR⟩ hk he
  obtain ⟨y', hy', hR'⟩ := hs s y a s' hR hk he
  exact ⟨y', hy.trans hy', hR'⟩

/-- Where `K` leaves one label to take, a run that nothing can follow continues every other. -/
theorem Shows.onward (hK : ∀ s a a', K s a → K s a' → a = a') (hu : ∀ a, ¬K u a) (h : M.Shows K f s l u)
    (h' : M.Shows K f s l' t) : ∃ l₂, l = l' ++ l₂ ∧ M.Shows K f t l₂ u := by
  induction h' generalizing l with
  | refl => exact ⟨l, rfl, h⟩
  | step hk he _ ih =>
    cases h with
    | refl => exact absurd hk (hu _)
    | step hk' he' h =>
      cases hK _ _ _ hk hk'
      cases he.symm.trans he'
      obtain ⟨l₂, hl, h⟩ := ih h
      exact ⟨l₂, by rw [hl, List.append_assoc], h⟩

end Shows

end Sys

end Lib
