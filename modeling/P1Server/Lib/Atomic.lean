import P1Server.Lib.Sys

/-!
# Atomic objects

`f t s c` is what the call `c` of the thread `t` answers on an object in state `s`, and the state it leaves; `none`
where the call has to wait. In the atomic object over `f` a thread begins a call, the call takes place in one step, and
the thread returns with the answer. Its histories have the beginnings and the returns, but not the steps between.

An implementation all of whose histories are such histories (`Sys.Shows.simulate`) is linearizable.

* `History.call`, `.take`, `.ret` — the steps of the atomic object;
* `History.next`, `.answer` — a return and the next call; a call that takes place where it returns.
-/

namespace Lib

variable {θ σ ι ο : Type*} [DecidableEq θ]

/-- What is seen of a thread. -/
inductive Event (θ ι ο : Type*)
  | call (t : θ) (c : ι)
  | ret (t : θ) (a : ο)

namespace Atomic

/-- Where a thread is with its call. -/
inductive Status (ι ο : Type*)
  | idle
  | called (c : ι)
  | done (a : ο)

structure State (θ σ ι ο : Type*) where
  obj : σ
  thread : θ → Status ι ο

inductive Act (θ ι : Type*)
  | call (t : θ) (c : ι)
  | take (t : θ)
  | ret (t : θ)

def step (f : θ → σ → ι → Option (ο × σ)) (s : State θ σ ι ο) : Act θ ι → Option (State θ σ ι ο)
  | .call t c =>
    match s.thread t with
    | .idle => some { s with thread := Function.update s.thread t (.called c) }
    | _ => none
  | .take t =>
    match s.thread t with
    | .called c => (f t s.obj c).map fun r => ⟨r.2, Function.update s.thread t (.done r.1)⟩
    | _ => none
  | .ret t =>
    match s.thread t with
    | .done _ => some { s with thread := Function.update s.thread t .idle }
    | _ => none

def seen (s : State θ σ ι ο) : Act θ ι → List (Event θ ι ο)
  | .call t c => [.call t c]
  | .take _ => []
  | .ret t =>
    match s.thread t with
    | .done a => [.ret t a]
    | _ => []

/-- No thread is in a call. -/
def start (x : σ) : State θ σ ι ο := ⟨x, fun _ => .idle⟩

def sys (f : θ → σ → ι → Option (ο × σ)) : Sys (State θ σ ι ο) (Act θ ι) where
  init s := ∃ x, s = start x
  step := step f

/-- The beginnings and returns `l` of calls, between two states of the atomic object. -/
def History (f : θ → σ → ι → Option (ο × σ)) (s : State θ σ ι ο) (l : List (Event θ ι ο)) (s' : State θ σ ι ο) : Prop :=
  (sys f).Shows (fun _ _ => True) seen s l s'

variable {f : θ → σ → ι → Option (ο × σ)} {y : σ} {s : State θ σ ι ο} {t : θ} {c : ι} {a : ο}

theorem History.call (h : s.thread t = .idle) (c : ι) :
    History f s [.call t c] { s with thread := Function.update s.thread t (.called c) } := by
  refine Sys.Shows.one (f := seen) (a := Act.call t c) trivial ?_
  simp only [sys, step, h]

theorem History.take (h : s.thread t = .called c) (hf : f t s.obj c = some (a, y)) :
    History f s [] ⟨y, Function.update s.thread t (.done a)⟩ := by
  refine Sys.Shows.one (f := seen) (a := Act.take t) trivial ?_
  simp only [sys, step, h, hf]
  rfl

theorem History.ret (h : s.thread t = .done a) :
    History f s [.ret t a] { s with thread := Function.update s.thread t .idle } := by
  have hr := Sys.Shows.one (M := sys f) (K := fun _ _ => True) (f := seen) (s := s) (a := Act.ret t) trivial
    (t := { s with thread := Function.update s.thread t .idle }) (by simp only [sys, step, h])
  rwa [seen, h] at hr

/-- A thread returns and begins its next call. -/
theorem History.next (h : s.thread t = .done a) (c : ι) :
    History f s [.ret t a, .call t c] { s with thread := Function.update s.thread t (.called c) } := by
  have hr := (History.ret (f := f) h).trans (History.call (Function.update_self ..) c)
  rwa [Function.update_idem] at hr

/-- The call takes place where it returns. -/
theorem History.answer (h : s.thread t = .called c) (hf : f t s.obj c = some (a, y)) :
    History f s [.ret t a] ⟨y, Function.update s.thread t .idle⟩ := by
  have hr := (History.take h hf).trans (History.ret (Function.update_self ..))
  rwa [Function.update_idem] at hr

end Atomic

end Lib
