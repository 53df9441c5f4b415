import P1Server.ConnRegistry

/-!
# Contexts and their callbacks

`RemoveClient` and `RemoveAllClient` delete a context under the lock; the completion port and `RecvReq`
use it without. `pNetServer = NULL` is written into the object that is deleted on the next line
(`TCPServer.cpp:272-273`), so `IocpCallBack` reads it from freed memory.

* `no_stale` — no deleted context is ever used, in the runs that delete none in use;
* `not_no_stale` — a queued completion is dispatched for a deleted context, whose memory a new client has.
-/

namespace P1Server.Conn
open Lib

variable {n : Nat} {s s' : State n}

/-- The context a thread works with. -/
def uses : Pc → Option Ref
  | .regIocp r | .recvReq r _ | .wsaRecv r _ | .recvFailed r | .dispatch r _ | .callBack r _ | .parse r _ _ _ => some r
  | _ => none

/-- A thread works with `r`, or a packet that will be dispatched carries it. -/
def InUse (s : State n) (r : Ref) : Prop :=
  (∃ t, uses (s.pc t) = some r) ∨ ∃ p ∈ s.port, p.ok = true ∧ p.ctx = r

/-- The context that the next step of a thread deletes. -/
def deletes (s : State n) : Pc → Option Ref
  | .remove (k :: _) => s.clientsContext.find k
  | .raCtx (e :: _) => some e.2
  | _ => none

/-- No context is deleted while in use, and no operation of a deleted one succeeds any more. -/
def Settled (s : State n) : Act n → Prop
  | .run t _ => ∀ r ∈ deletes s (s.pc t), ¬ InUse s r
  | .complete o ok _ => ok = true → s.live o.ctx
  | _ => True

instance (s : State n) (r : Ref) : Decidable (InUse s r) := inferInstanceAs (Decidable (_ ∨ _))

instance (s : State n) : ∀ a, Decidable (Settled s a)
  | .run t _ => inferInstanceAs (Decidable (∀ r ∈ deletes s (s.pc t), ¬ InUse s r))
  | .complete o ok _ => inferInstanceAs (Decidable (ok = true → s.live o.ctx))
  | .accept .. | .construct .. | .sendReq .. | .dequeue .. | .removeClients .. | .removeAll .. | .tick .. =>
    inferInstanceAs (Decidable True)

/-- What is in use is live, and nothing has been used that was not. -/
structure Life (s : State n) : Prop where
  threads : ∀ t r, uses (s.pc t) = some r → s.live r
  packets : ∀ p ∈ s.port, p.ok = true → s.live p.ctx
  fresh : s.stale = []

theorem Life.inUse (h : Life s) {r : Ref} (hr : InUse s r) : s.live r := by
  rcases hr with ⟨t, ht⟩ | ⟨p, hp, ho, rfl⟩
  · exact h.threads t r ht
  · exact h.packets p hp ho

/-- A step keeps `Life` if what it leaves in use was in use or is live, and it uses nothing dead. -/
theorem Life.keep (h : Life s) (hu : ∀ r, InUse s' r → s'.live r ∨ InUse s r)
    (hl : ∀ r, InUse s r → s.live r → s'.live r) (hs : s'.stale = s.stale) : Life s' := by
  have hlive : ∀ r, InUse s' r → s'.live r := by
    intro r hr
    rcases hu r hr with hr | hr
    · exact hr
    · exact hl r hr (h.inUse hr)
  exact ⟨fun t r ht => hlive r (.inl ⟨t, ht⟩), fun p hp ho => hlive p.ctx (.inr ⟨p, hp, ho, rfl⟩), hs ▸ h.fresh⟩

theorem touch_stale {r : Ref} (h : s.live r) : (s.touch r).stale = s.stale := if_pos h

/-- No new packet, and the thread goes on with the context it has, or with none. -/
theorem inUse_goto {t : Fin n} {p : Pc} (hpc : s'.pc = Function.update s.pc t p)
    (hport : ∀ q ∈ s'.port, q.ok = true → q ∈ s.port) (hp : uses p = none ∨ uses p = uses (s.pc t)) {r : Ref}
    (h : InUse s' r) : InUse s r := by
  rcases h with ⟨u, hu⟩ | ⟨q, hq, ho, he⟩
  · rw [hpc] at hu
    rcases see_update uses hu with ⟨-, hu⟩ | ⟨-, hu⟩
    · rcases hp with hp | hp
      · rw [hp] at hu
        cases hu
      · exact .inl ⟨t, hp ▸ hu⟩
    · exact .inl ⟨u, hu⟩
  · exact .inr ⟨q, hport q hq ho, ho, he⟩

/-- A step that leaves the objects alone, of a thread that goes on with what it has or with nothing. -/
theorem Life.goto (h : Life s) {t : Fin n} {p : Pc} (hl : ∀ r, s.live r → s'.live r)
    (hpc : s'.pc = Function.update s.pc t p) (hport : ∀ q ∈ s'.port, q.ok = true → q ∈ s.port)
    (hp : uses p = none ∨ uses p = uses (s.pc t)) (hs : s'.stale = s.stale) : Life s' :=
  h.keep (fun _ hr => .inr (inUse_goto hpc hport hp hr)) (fun r _ hr => hl r hr) hs

/-- A step of a thread that works with `r` and leaves the registry alone. -/
theorem Life.use (h : Life s) {t : Fin n} {p : Pc} {r : Ref} (ht : uses (s.pc t) = some r) (q : Quiet s s')
    (hpc : s'.pc = Function.update s.pc t p) (hport : s'.port = s.port)
    (hp : uses p = none ∨ uses p = some r) (hs : s'.stale = (s.touch r).stale) : Life s' := by
  refine h.goto (fun _ hl => q.live.2 hl) hpc (fun q hq _ => hport ▸ hq) ?_ ?_
  · exact hp.imp_right fun hp => hp.trans ht.symm
  · rw [hs, touch_stale (h.threads t r ht)]

/-- Deleting a context that is not in use keeps the others. -/
theorem Life.delete (h : Life s) {r : Ref} (hr : s.live r) (hn : ¬ InUse s r)
    (hctx : ∀ a, a ≠ r.addr → s'.ctx a = s.ctx a) (hu : ∀ q, InUse s' q → InUse s q) (hs : s'.stale = s.stale) :
    Life s' := by
  refine h.keep (fun q hq => .inr (hu q hq)) ?_ hs
  intro q hq hl
  have hne : q.addr ≠ r.addr := by
    intro he
    have hi : q.inst = r.inst := hl.2.symm.trans (he ▸ hr.2)
    have hqr : q = r := by
      cases q
      cases r
      simp_all
    exact hn (hqr ▸ hq)
  rw [State.live, hctx _ hne]
  exact hl

/-- Closing a client's socket deletes no context, and the packets it makes are never dispatched. -/
theorem Life.closeCmd (h : Life s) (t : Fin n) (k : Socket) (b : Cref) {p : Pc} (hp : uses p = none) :
    Life ((s.closeCmd k b).goto t p) := by
  unfold State.closeCmd State.closeSocket
  split
  · exact h.goto (fun _ hl => hl) rfl (fun _ hq _ => hq) (.inl hp) rfl
  · refine h.goto (fun _ hl => hl) rfl ?_ (.inl hp) rfl
    intro q hq ho
    rcases List.mem_append.1 hq with hq | hq
    · exact hq
    · obtain ⟨o, -, rfl⟩ := List.mem_map.1 hq
      cases ho

theorem Life.complete (h : Life s) {o : Overlapped} {ok : Bool} {data : List UInt8}
    (hk : ok = true → s.live o.ctx) : Life (s.complete o ok data) := by
  have q : Quiet s (s.complete o ok data) := quiet_complete ..
  refine h.keep ?_ (fun _ _ hl => q.live.2 hl) rfl
  intro r hr
  rcases hr with hr | ⟨p, hp, ho, he⟩
  · exact .inr (.inl hr)
  · rcases List.mem_append.1 hp with hp | hp
    · exact .inr (.inr ⟨p, hp, ho, he⟩)
    · rw [List.mem_singleton.1 hp] at ho he
      exact .inl (q.live.2 (he ▸ hk ho))

theorem Life.dequeue (h : Life s) {t : Fin n} {p : Packet} (hp : p ∈ s.port) : Life (s.dequeue t p) := by
  refine h.keep (fun r hr => .inr ?_) (fun _ _ hl => hl) rfl
  rcases hr with ⟨u, hu⟩ | ⟨q, hq, ho, he⟩
  · rcases see_update uses hu with ⟨-, hu⟩ | ⟨-, hu⟩
    · split at hu
      case isTrue ho => exact .inr ⟨p, hp, ho, Option.some.inj hu⟩
      case isFalse => cases hu
    · exact .inl ⟨u, hu⟩
  · exact .inr ⟨q, List.mem_of_mem_erase hq, ho, he⟩

theorem Life.removeContext (hi : RegInv s) (h : Life s) {t : Fin n} {k : Socket} {ks : List Socket}
    (hl : s.lock = none) (hn : ∀ r ∈ s.clientsContext.find k, ¬ InUse s r) : Life (s.removeContext t k ks) := by
  have hu : ∀ q, InUse (s.removeContext t k ks) q → InUse s q := by
    intro q hq
    refine inUse_goto (t := t) (p := .rmHeld k ks) ?_ ?_ (.inl rfl) hq
    · rfl
    · exact fun _ hp _ => hp
  cases hf : s.clientsContext.find k with
  | none =>
    refine h.keep (fun q hq => .inr (hu q hq)) ?_ rfl
    intro q _ hq
    simpa only [State.live, State.removeContext, State.goto, hf] using hq
  | some r =>
    refine h.delete ((hi.phase_none hl).1.ctxs k r trivial hf).live (hn r hf) ?_ hu rfl
    intro a ha
    simp only [State.removeContext, State.goto, hf, Function.update_of_ne ha]

theorem Life.move (hi : RegInv s) (h : Life s) {a : Act n} (hk : Settled s a) (m : Move s a s') : Life s' := by
  have same : ∀ r, s.live r → s.live r := fun _ hr => hr
  have stay : ∀ p ∈ s.port, p.ok = true → p ∈ s.port := fun _ hp _ => hp
  cases m with
  | @construct t k c a b behind ht _ _ hx _ =>
    refine h.goto ?_ rfl stay (.inl rfl) rfl
    intro r hr
    have hne : r.addr ≠ a := by
      rintro rfl
      rw [hr.1] at hx
      cases hx
    simpa only [State.live, State.construct, State.goto, Function.update_of_ne hne] using hr
  | @register t _ k c r b ht hl =>
    refine h.keep ?_ (fun _ _ hl => hl) rfl
    intro q hq
    rcases hq with ⟨u, hu⟩ | hq
    · rcases see_update uses hu with ⟨-, hu⟩ | ⟨-, hu⟩
      · cases hu
        exact .inl (hi.built t k c r b ht).1.live
      · exact .inr (.inl ⟨u, hu⟩)
    · exact .inr (.inr hq)
  | @regIocp _ ok _ ht =>
    refine h.use (by rw [ht]; rfl) (quiet_regIocp ..) rfl rfl ?_ rfl
    cases ok
    · exact .inl rfl
    · exact .inr rfl
  | recvReq ht => exact h.use (by rw [ht]; rfl) (quiet_recvReq ..) rfl rfl (.inr rfl) rfl
  | @wsaRecv t ok r cause ht =>
    have q : Quiet s (s.wsaRecv t r ok) := quiet_wsaRecv ..
    unfold State.wsaRecv at q ⊢
    split at q
    · rw [if_pos ‹_›]
      exact h.use (by rw [ht]; rfl) q rfl rfl (.inl rfl) rfl
    · rw [if_neg ‹_›]
      exact h.use (by rw [ht]; rfl) q rfl rfl (.inr rfl) rfl
  | recvFailed ht => exact h.use (by rw [ht]; rfl) (quiet_recvFailed ..) rfl rfl (.inl rfl) rfl
  | @sendReq t k ok ht hl =>
    unfold State.sendReq
    split
    · exact h
    case h_2 r hf =>
      have hr := touch_stale ((hi.phase_none hl).1.ctxs k r trivial hf).live
      split
      · exact h.goto (t := t) (p := .idle) same (by rw [← ht, Function.update_eq_self]; rfl) stay (.inl rfl) hr
      · exact h.goto same rfl stay (.inl rfl) hr
  | complete _ _ => exact h.complete hk
  | dequeue _ hp => exact h.dequeue hp
  | @dispatch t _ r kind ht =>
    refine h.use (by rw [ht]; rfl) (quiet_dispatch ..) rfl rfl ?_ rfl
    split
    · exact .inr rfl
    · exact .inl rfl
  | @callBack t _ r kind ht =>
    refine h.use (by rw [ht]; rfl) (quiet_callBack ..) rfl rfl ?_ rfl
    split
    · exact .inr rfl
    · exact .inl rfl
  | @parse t _ r kind tick offset ht =>
    unfold State.parse
    split
    · split <;> exact h.use (by rw [ht]; rfl) (by constructor <;> intros <;> trivial) rfl rfl (.inr rfl) rfl
    · exact h.goto same rfl stay (.inr (by rw [ht]; rfl)) rfl
  | @removeContext t _ k ks ht hl => exact Life.removeContext hi h hl fun r hr => hk r (by rw [ht]; exact hr)
  | @removeCmd t _ k ks _ =>
    unfold State.removeCmd
    split
    · exact h.closeCmd t k _ rfl
    · exact h.goto same rfl stay (.inl rfl) rfl
  | @removeAllContext t _ k r todo ht =>
    have hr := (hi.phase_holds ht rfl).1 _ List.mem_cons_self
    refine h.delete hr.1.live (hk r (by rw [ht]; rfl)) (fun a ha => Function.update_of_ne ha ..) ?_ rfl
    intro q hq
    refine inUse_goto (t := t) (p := .raCtx todo) ?_ ?_ (.inl rfl) hq
    · rfl
    · exact stay
  | @removeAllCmd t _ k b _ _ => exact h.closeCmd t k b rfl
  | tick => exact h.keep (fun _ hr => .inr hr) (fun _ _ hl => hl) rfl
  -- the thread goes to a place where it works with no context
  | _ => exact h.goto same rfl stay (.inl rfl) rfl

theorem life_start : Life (start n) := ⟨nofun, nofun, rfl⟩

/-- **No callback on a removed client**, in the runs that delete no context in use. -/
theorem no_stale (h : (sys n).Reach Settled s) : s.stale = [] := by
  have hl : Life s := h.inv_of (J := RegInv) (fun _ hr => regInv hr.reachable) (fun _ hi => hi ▸ life_start)
    fun _ _ _ hj _ hl hk he => Life.move hj hl hk (step_move he)
  exact hl.fresh

/-- One client is served and removed again: its receive has been failed by `closesocket`. -/
theorem no_stale_removed : ∃ s : State 2, (sys 2).Reach Settled s ∧ s.closed = [(0, 2)] ∧
    s.port = [⟨⟨1, 1⟩, .recv, false⟩] ∧ s.stale = [] :=
  have hr : (sys 2).Reach Settled _ := Sys.Reach.runK (acceptRun 0 5 1 1 ++
    .removeClients 0 [5] :: [.run 0 true, .run 0 true, .run 0 true, .run 0 true]) (.init rfl) rfl
  ⟨_, hr, rfl, rfl, no_stale hr⟩

/-- The heartbeat removes a client whose receive has just completed, and the next client's context gets
the same memory: `pNetServer` is set there, so the packet of the first runs the callback on it. -/
theorem not_no_stale : ¬ ∀ s : State 2, (sys 2).Reachable s → s.stale = [] := by
  intro h
  have hr : (sys 2).Reachable _ := Sys.Reachable.run (acceptRun 0 5 1 1 ++
    .complete ⟨⟨1, 1⟩, .recv, 5⟩ true [] :: .removeClients 0 [5] ::
    [.run 0 true, .run 0 true, .run 0 true, .run 0 true] ++ acceptRun 0 6 1 1 ++
    [.dequeue 1 ⟨⟨1, 1⟩, .recv, true⟩, .run 1 true]) (.init rfl) rfl
  have hs := h _ hr
  cases hs

end P1Server.Conn
