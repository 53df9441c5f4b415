import P1Server.ConnLife

/-!
# One receive per client

Receive and send share one context and one `OVERLAPPED`; the callback tells them apart by `op`, which
`RecvReq` sets and nothing else ever does (`TCPServer.cpp:213`; `SendReq` does not write
`NET_OP_WRITE`). The right to start the next `WSARecv` on a context is passed along: from `AddNewClient`
to the operation, to its packet, to the thread that handles it, and back to `RecvReq`.

* `oneReceive` — in the runs where no send completion meets `NET_OP_READ` and no deleted context is
  re-armed;
* `not_oneReceive` — an echo is enough: the send's completion is parsed, and a second `WSARecv` starts.
-/

namespace P1Server.Conn
open Lib

variable {n : Nat} {s s' : State n}

/-- A `WSARecv` on the buffer of the context `r`. -/
def Overlapped.recvOn (r : Ref) (o : Overlapped) : Bool := o.ctx = r ∧ o.kind = .recv

/-- Receives outstanding on the buffer of the context `r`. -/
def outstanding (s : State n) (r : Ref) : Nat := s.io.countP (·.recvOn r)

/-- The completion of a send is at work in `RecvNetCmdData` or `RecvReq`. -/
def sendHandled : Pc → Prop
  | .parse _ .send _ _ | .recvReq _ (some .send) | .wsaRecv _ (some .send) => True
  | _ => False

/-- No send completion is handled as received data, and every registered client has at most one receive
outstanding. -/
structure OneReceive (s : State n) : Prop where
  apart : ∀ t, ¬ sendHandled (s.pc t)
  once : ∀ k r, s.clientsContext.find k = some r → outstanding s r ≤ 1

/-- The context with which the completion of a send is at the `switch`. -/
def sendAtSwitch : Pc → Option Ref
  | .callBack r .send => some r
  | _ => none

/-- The context on which `RecvReq` is about to call `WSARecv`. -/
def rearms : Pc → Option Ref
  | .wsaRecv r _ => some r
  | _ => none

/-- No send completion finds `NET_OP_READ` at the switch, and `RecvReq` re-arms no deleted context. -/
def Told (s : State n) : Act n → Prop
  | .run t _ => (∀ r ∈ sendAtSwitch (s.pc t), (s.ctx r.addr).op ≠ .read) ∧ ∀ r ∈ rearms (s.pc t), s.live r
  | _ => True

instance (s : State n) : ∀ a, Decidable (Told s a)
  | .run t _ => inferInstanceAs (Decidable ((∀ r ∈ sendAtSwitch (s.pc t), _) ∧ ∀ r ∈ rearms (s.pc t), s.live r))
  | .accept .. | .construct .. | .sendReq .. | .complete .. | .dequeue .. | .removeClients .. | .removeAll ..
  | .tick .. => inferInstanceAs (Decidable True)

/-! ## The right to receive -/

/-- The context on which a thread may start the next receive. -/
def token : Pc → Option Ref
  | .built _ _ r _ | .regIocp r | .recvReq r _ | .wsaRecv r _ | .dispatch r .recv | .callBack r .recv
  | .parse r _ _ _ => some r
  | _ => none

/-- The packet of a receive on `r`, to be handled. -/
def Packet.recvOn (r : Ref) (p : Packet) : Bool := p.ctx = r ∧ p.kind = .recv ∧ p.ok = true

/-- Receives on `r` that are outstanding, or completed and not handled yet. -/
def recvsIn (io : List Overlapped) (port : List Packet) (r : Ref) : Nat :=
  io.countP (·.recvOn r) + port.countP (·.recvOn r)

def recvs (s : State n) (r : Ref) : Nat := recvsIn s.io s.port r

theorem countP_erase {α : Type} [BEq α] [LawfulBEq α] {l : List α} {a : α} (h : a ∈ l) (p : α → Bool) :
    (l.erase a).countP p + (if p a then 1 else 0) = l.countP p := by
  rw [(List.perm_cons_erase h).countP_eq, List.countP_cons]

theorem recvsIn_arm (io : List Overlapped) (port : List Packet) (r q : Ref) (k : Socket) :
    recvsIn (io ++ [⟨r, .recv, k⟩]) port q = recvsIn io port q + if r = q then 1 else 0 := by
  have : [(⟨r, .recv, k⟩ : Overlapped)].countP (·.recvOn q) = if r = q then 1 else 0 := by
    simp [List.countP_cons, Overlapped.recvOn]
  rw [recvsIn, recvsIn, List.countP_append, this]
  omega

theorem recvsIn_send (io : List Overlapped) (port : List Packet) (r q : Ref) (k : Socket) :
    recvsIn (io ++ [⟨r, .send, k⟩]) port q = recvsIn io port q := by
  simp [recvsIn, Overlapped.recvOn]

/-- An operation that ends becomes a packet, or nothing that will be handled. -/
theorem recvsIn_complete {io : List Overlapped} (port : List Packet) {o : Overlapped} (ho : o ∈ io) (ok : Bool)
    (r : Ref) : recvsIn (io.erase o) (port ++ [⟨o.ctx, o.kind, ok⟩]) r ≤ recvsIn io port r := by
  have hio := countP_erase ho (·.recvOn r)
  have hp : [(⟨o.ctx, o.kind, ok⟩ : Packet)].countP (·.recvOn r) ≤ if o.recvOn r then 1 else 0 := by
    cases ho : o.recvOn r with
    | true => exact List.countP_le_length
    | false =>
      simp only [Overlapped.recvOn, decide_eq_false_iff_not] at ho
      simp only [List.countP_cons, Packet.recvOn, List.countP_nil, decide_eq_true_eq]
      rw [if_neg fun hq => ho ⟨hq.1, hq.2.1⟩]
      exact Nat.le_refl _
  rw [recvsIn, recvsIn, List.countP_append]
  omega

/-- What is in flight on a closed socket ends with a failure, which nobody handles. -/
theorem recvsIn_close (io : List Overlapped) (port : List Packet) (k : Socket) (r : Ref) :
    recvsIn (io.filter fun o => o.sock ≠ k)
      (port ++ (io.filter fun o => o.sock = k).map fun o => ⟨o.ctx, o.kind, false⟩) r ≤ recvsIn io port r := by
  have h1 : (io.filter fun o => o.sock ≠ k).countP (·.recvOn r) ≤ io.countP (·.recvOn r) :=
    List.filter_sublist.countP_le
  have h2 : ((io.filter fun o => o.sock = k).map fun o => (⟨o.ctx, o.kind, false⟩ : Packet)).countP
      (·.recvOn r) = 0 := by
    rw [List.countP_eq_zero]
    intro p hp
    obtain ⟨o, -, rfl⟩ := List.mem_map.1 hp
    simp [Packet.recvOn]
  rw [recvsIn, recvsIn, List.countP_append]
  omega

theorem recvsIn_take (io : List Overlapped) {port : List Packet} {p : Packet} (hp : p ∈ port) (r : Ref) :
    recvsIn io (port.erase p) r + (if p.recvOn r then 1 else 0) = recvsIn io port r := by
  have := countP_erase hp (·.recvOn r)
  rw [recvsIn, recvsIn]
  omega

/-- **One token per context.** -/
structure Tokens (s : State n) : Prop where
  apart : ∀ t, ¬ sendHandled (s.pc t)
  once : ∀ r, recvs s r ≤ 1
  held : ∀ t r, token (s.pc t) = some r → recvs s r = 0
  unique : ∀ t u r, token (s.pc t) = some r → token (s.pc u) = some r → t = u
  oldRecv : ∀ r, 0 < recvs s r → r.inst < s.nextInst
  oldHeld : ∀ t r, token (s.pc t) = some r → r.inst < s.nextInst

/-- A step that adds no receive, of a thread that passes on the token it has, or none. -/
theorem Tokens.keep (h : Tokens s) (hr : ∀ r, recvs s' r ≤ recvs s r) (hn : s.nextInst ≤ s'.nextInst)
    (hp : ∀ u, ¬ sendHandled (s'.pc u) ∧ (token (s'.pc u) = none ∨ token (s'.pc u) = token (s.pc u))) :
    Tokens s' := by
  have ht : ∀ {u r}, token (s'.pc u) = some r → token (s.pc u) = some r := by
    intro u r hu
    rcases (hp u).2 with he | he
    · rw [he] at hu
      cases hu
    · rwa [← he]
  refine ⟨fun t => (hp t).1, fun r => (hr r).trans (h.once r), ?_, ?_, ?_, ?_⟩
  · intro t r hu
    have := hr r
    rw [h.held t r (ht hu)] at this
    omega
  · exact fun t u r h1 h2 => h.unique t u r (ht h1) (ht h2)
  · intro r hr'
    exact (h.oldRecv r (Nat.lt_of_lt_of_le hr' (hr r))).trans_le hn
  · exact fun t r hu => (h.oldHeld t r (ht hu)).trans_le hn

/-- The same, for a step that only moves thread `t` to `p`. -/
theorem Tokens.goto (h : Tokens s) {t : Fin n} {p : Pc} (hpc : s'.pc = Function.update s.pc t p)
    (hr : ∀ r, recvs s' r ≤ recvs s r) (hn : s.nextInst ≤ s'.nextInst) (hs : ¬ sendHandled p)
    (hp : token p = none ∨ token p = token (s.pc t)) : Tokens s' := by
  refine h.keep hr hn ?_
  intro u
  rw [hpc]
  by_cases hu : u = t
  · subst hu
    rw [Function.update_self]
    exact ⟨hs, hp⟩
  · rw [Function.update_of_ne hu]
    exact ⟨h.apart u, .inr rfl⟩

theorem recvs_of_eq (hio : s'.io = s.io) (hport : s'.port = s.port) (r : Ref) : recvs s' r ≤ recvs s r := by
  rw [recvs, recvs, hio, hport]

theorem Tokens.construct (h : Tokens s) {t : Fin n} {k : Socket} {c a b : Nat} {behind : Mem} :
    Tokens (s.construct t k c a b behind) := by
  have hr : ∀ r, recvs (s.construct t k c a b behind) r = recvs s r := fun _ => rfl
  have hpc : ∀ u r, token ((s.construct t k c a b behind).pc u) = some r →
      u = t ∧ r = ⟨a, s.nextInst⟩ ∨ token (s.pc u) = some r := by
    intro u r hu
    exact (see_update token hu).imp (And.imp_right fun hr => (Option.some.inj hr).symm) And.right
  have hnew : ∀ u, ¬ token (s.pc u) = some ⟨a, s.nextInst⟩ :=
    fun u hu => Nat.lt_irrefl _ (h.oldHeld u _ hu)
  refine ⟨?_, h.once, ?_, ?_, ?_, ?_⟩
  · intro u
    by_cases hut : u = t
    · subst hut
      simp only [State.construct, State.goto, Function.update_self, sendHandled, not_false_eq_true]
    · simp only [State.construct, State.goto, Function.update_of_ne hut]
      exact h.apart u
  · intro u r hu
    rcases hpc u r hu with ⟨-, rfl⟩ | hu
    · rw [hr]
      refine Nat.eq_zero_of_not_pos fun hp => Nat.lt_irrefl _ (h.oldRecv _ hp)
    · exact h.held u r hu
  · intro u v r hu hv
    rcases hpc u r hu with ⟨hut, he⟩ | hu <;> rcases hpc v r hv with ⟨hvt, he'⟩ | hv
    · rw [hut, hvt]
    · exact absurd (he ▸ hv) (hnew v)
    · exact absurd (he' ▸ hu) (hnew u)
    · exact h.unique u v r hu hv
  · intro r hr
    exact Nat.lt_succ_of_lt (h.oldRecv r hr)
  · intro u r hu
    rcases hpc u r hu with ⟨-, rfl⟩ | hu
    · exact Nat.lt_succ_self _
    · exact Nat.lt_succ_of_lt (h.oldHeld u r hu)

/-- The token becomes an outstanding receive. -/
theorem Tokens.wsaRecv (h : Tokens s) {t : Fin n} {ok : Bool} {r : Ref} {cause : Option Kind}
    (ht : s.pc t = .wsaRecv r cause) (hl : s.live r) : Tokens (s.wsaRecv t r ok) := by
  have htok : token (s.pc t) = some r := by rw [ht]; rfl
  unfold State.wsaRecv
  split
  · have ha : s.actual r = r := by
      cases r
      simp only [State.actual, Ref.mk.injEq, true_and]
      exact hl.2
    rw [ha]
    have hpc : ∀ {u q}, token (Function.update s.pc t .idle u) = some q → u ≠ t ∧ token (s.pc u) = some q := by
      intro u q hu
      rcases see_update token hu with ⟨-, hu⟩ | hu
      · cases hu
      · exact hu
    have hadd : ∀ q, recvs (State.goto { s.touch r with io := s.io ++ [⟨r, .recv, (s.ctx r.addr).s⟩] } t .idle) q =
        recvs s q + if r = q then 1 else 0 := fun q => recvsIn_arm s.io s.port r q _
    refine ⟨?_, ?_, ?_, ?_, ?_, ?_⟩
    · intro u
      show ¬ sendHandled (Function.update s.pc t .idle u)
      by_cases hut : u = t
      · subst hut
        rw [Function.update_self]
        exact id
      · rw [Function.update_of_ne hut]
        exact h.apart u
    · intro q
      rw [hadd]
      split
      case isTrue he => rw [← he, h.held t r htok]
      case isFalse => exact h.once q
    · intro u q hu
      obtain ⟨hut, hu⟩ := hpc hu
      rw [hadd, if_neg, h.held u q hu]
      rintro rfl
      exact hut (h.unique u t r hu htok)
    · intro u v q hu hv
      exact h.unique u v q (hpc hu).2 (hpc hv).2
    · intro q hq
      rw [hadd] at hq
      split at hq
      case isTrue he => exact he ▸ h.oldHeld t r htok
      case isFalse => exact h.oldRecv q hq
    · intro u q hu
      exact h.oldHeld u q (hpc hu).2
  · exact h.goto rfl (recvs_of_eq rfl rfl) (Nat.le_refl _) id (.inl rfl)

theorem recvs_closeCmd (k : Socket) (b : Cref) (r : Ref) : recvs (s.closeCmd k b) r ≤ recvs s r := by
  unfold State.closeCmd State.closeSocket
  split
  · exact Nat.le_refl _
  · exact recvsIn_close s.io s.port k r

theorem Tokens.closed (h : Tokens s) {t : Fin n} (k : Socket) (b : Cref) {p : Pc} (hs : ¬ sendHandled p)
    (hp : token p = none) : Tokens ((s.closeCmd k b).goto t p) := by
  refine h.goto (t := t) (p := p) ?_ (recvs_closeCmd k b) ?_ hs (.inl hp)
  all_goals
    unfold State.closeCmd State.closeSocket
    split <;> rfl

/-- The packet of a receive hands its token to the thread that takes it. -/
theorem Tokens.dequeue (h : Tokens s) {t : Fin n} {p : Packet} (hp : p ∈ s.port) : Tokens (s.dequeue t p) := by
  have hsum : ∀ r, recvs (s.dequeue t p) r + (if p.recvOn r then 1 else 0) = recvs s r :=
    fun r => recvsIn_take s.io hp r
  have hle : ∀ r, recvs (s.dequeue t p) r ≤ recvs s r := fun r => (hsum r) ▸ Nat.le_add_right _ _
  by_cases hk : p.kind = .recv ∧ p.ok = true
  · have hpr : p.recvOn p.ctx = true := decide_eq_true ⟨rfl, hk⟩
    have hone : recvs s p.ctx = 1 := by
      have h1 := hsum p.ctx
      have h2 := h.once p.ctx
      rw [if_pos hpr] at h1
      omega
    have hnone : ∀ u, token (s.pc u) ≠ some p.ctx := by
      intro u hu
      rw [h.held u p.ctx hu] at hone
      cases hone
    have hpc : ∀ {u r}, token ((s.dequeue t p).pc u) = some r → u = t ∧ r = p.ctx ∨ token (s.pc u) = some r := by
      intro u r hu
      by_cases hut : u = t
      · subst hut
        simp only [State.dequeue, State.goto, Function.update_self, hk.2, if_true, hk.1, token,
          Option.some.injEq] at hu
        exact .inl ⟨rfl, hu.symm⟩
      · simp only [State.dequeue, State.goto, Function.update_of_ne hut] at hu
        exact .inr hu
    refine ⟨?_, fun r => (hle r).trans (h.once r), ?_, ?_,
      fun r hr => h.oldRecv r (Nat.lt_of_lt_of_le hr (hle r)), ?_⟩
    · intro u
      by_cases hut : u = t
      · subst hut
        simp only [State.dequeue, State.goto, Function.update_self, hk.2, if_true, sendHandled, not_false_eq_true]
      · simp only [State.dequeue, State.goto, Function.update_of_ne hut]
        exact h.apart u
    · intro u r hu
      rcases hpc hu with ⟨-, rfl⟩ | hu
      · have := hsum p.ctx
        rw [if_pos hpr] at this
        omega
      · exact Nat.le_zero.1 (h.held u r hu ▸ hle r)
    · intro u v r hu hv
      rcases hpc hu with ⟨hut, he⟩ | hu <;> rcases hpc hv with ⟨hvt, he'⟩ | hv
      · rw [hut, hvt]
      · exact absurd (he ▸ hv) (hnone v)
      · exact absurd (he' ▸ hu) (hnone u)
      · exact h.unique u v r hu hv
    · intro u r hu
      rcases hpc hu with ⟨-, rfl⟩ | hu
      · exact h.oldRecv p.ctx (by omega)
      · exact h.oldHeld u r hu
  · refine h.goto rfl hle (Nat.le_refl _) ?_ (.inl ?_)
    · split <;> exact id
    · split
      case isTrue ho =>
        cases hpk : p.kind
        · exact absurd ⟨hpk, ho⟩ hk
        · rfl
      case isFalse => rfl

theorem Tokens.move (h : Tokens s) {a : Act n} (hk : Told s a) (m : Move s a s') : Tokens s' := by
  have le : s.nextInst ≤ s.nextInst := Nat.le_refl _
  cases m with
  | construct _ _ _ _ _ => exact h.construct
  | register ht _ => exact h.goto rfl (recvs_of_eq rfl rfl) le id (.inr (by rw [ht]; rfl))
  | @regIocp t ok r ht =>
    cases ok
    · exact h.goto rfl (recvs_of_eq rfl rfl) le id (.inl rfl)
    · exact h.goto rfl (recvs_of_eq rfl rfl) le id (.inr (by rw [ht]; rfl))
  | @recvReq t _ r cause ht =>
    refine h.goto rfl (recvs_of_eq rfl rfl) le ?_ (.inr (by rw [ht]; rfl))
    have ha := h.apart t
    rw [ht] at ha
    cases cause with
    | none => exact id
    | some kind => cases kind <;> exact ha
  | wsaRecv ht => exact h.wsaRecv ht (hk.2 _ (by rw [ht]; rfl))
  | @sendReq t k ok ht _ =>
    unfold State.sendReq
    split
    · exact h
    case h_2 r _ =>
      split
      · refine h.keep (fun q => Nat.le_of_eq (recvsIn_send s.io s.port _ q k)) le fun u => ⟨h.apart u, .inr rfl⟩
      · exact h.goto rfl (recvs_of_eq rfl rfl) le id (.inl rfl)
  | complete ho _ => exact h.keep (recvsIn_complete s.port ho _) le fun u => ⟨h.apart u, .inr rfl⟩
  | dequeue _ hp => exact h.dequeue hp
  | @dispatch t _ r kind ht =>
    refine h.goto rfl (recvs_of_eq rfl rfl) le ?_ ?_
    · split <;> exact id
    · split
      · refine .inr ?_
        rw [ht]
        cases kind <;> rfl
      · exact .inl rfl
  | @callBack t _ r kind ht =>
    cases kind with
    | recv =>
      refine h.goto rfl (recvs_of_eq rfl rfl) le ?_ ?_
      · split <;> exact id
      · split
        · exact .inr (by rw [ht]; rfl)
        · exact .inl rfl
    | send =>
      -- the switch: `op` is not `NET_OP_READ`, nothing is done
      have hop := hk.1 r (by rw [ht]; rfl)
      refine h.goto (t := t) (p := .idle) ?_ (recvs_of_eq rfl rfl) le id (.inl rfl)
      simp only [State.callBack, State.goto, if_neg hop]
      rfl
  | @parse t _ r kind tick offset ht =>
    have ha := h.apart t
    have htok : token (s.pc t) = some r := by rw [ht]; rfl
    rw [ht] at ha
    cases kind with
    | send => exact absurd trivial ha
    | recv =>
      unfold State.parse
      split
      · split <;> exact h.goto rfl (recvs_of_eq rfl rfl) le id (.inr htok.symm)
      · exact h.goto rfl (recvs_of_eq rfl rfl) le id (.inr htok.symm)
  | @removeCmd t _ k ks _ =>
    unfold State.removeCmd
    split
    · exact Tokens.closed h k _ id rfl
    · exact h.goto rfl (recvs_of_eq rfl rfl) le id (.inl rfl)
  | @removeAllCmd t _ k b _ _ => exact Tokens.closed h k b id rfl
  | tick => exact h.keep (recvs_of_eq rfl rfl) le fun u => ⟨h.apart u, .inr rfl⟩
  -- the thread goes to a place without a token
  | _ => exact h.goto rfl (recvs_of_eq rfl rfl) le id (.inl rfl)

theorem tokens_start : Tokens (start n) :=
  ⟨fun _ => id, fun _ => Nat.zero_le _, nofun, nofun, fun _ hr => absurd hr (Nat.lt_irrefl _), nofun⟩

/-- **One receive per client.** -/
theorem oneReceive (h : (sys n).Reach Told s) : OneReceive s := by
  have ht : Tokens s := h.inv (fun _ hi => hi ▸ tokens_start) fun _ _ _ ht hk he => ht.move hk (step_move he)
  exact ⟨ht.apart, fun k r _ => (Nat.le_add_right _ _).trans (ht.once r)⟩

/-- One receive is handled and the next one started; a send has failed meanwhile. -/
theorem oneReceive_rearmed : ∃ s : State 2, (sys 2).Reach Told s ∧ s.clientsContext.find 5 = some ⟨1, 1⟩ ∧
    outstanding s ⟨1, 1⟩ = 1 ∧ s.port = [⟨⟨1, 1⟩, .send, false⟩] ∧ OneReceive s :=
  have hr : (sys 2).Reach Told _ := Sys.Reach.runK (acceptRun 0 5 1 1 ++
    [.sendReq 0 5 true, .complete ⟨⟨1, 1⟩, .recv, 5⟩ true [], .complete ⟨⟨1, 1⟩, .send, 5⟩ false [],
      .dequeue 1 ⟨⟨1, 1⟩, .recv, true⟩, .run 1 true, .run 1 true, .run 1 true, .run 1 true, .run 1 true])
    (.init rfl) rfl
  ⟨_, hr, rfl, rfl, rfl, oneReceive hr⟩

/-- The echo of one command: its completion meets `NET_OP_READ`, is parsed, and re-arms the context. -/
theorem not_oneReceive : (¬ ∀ s : State 2, (sys 2).Reachable s → ∀ t, ¬ sendHandled (s.pc t)) ∧
    ¬ ∀ s : State 2, (sys 2).Reachable s →
      ∀ k r, s.clientsContext.find k = some r → outstanding s r ≤ 1 := by
  constructor
  · intro h
    have hr : (sys 2).Reachable _ := Sys.Reachable.run (acceptRun 0 5 1 1 ++
      [.sendReq 0 5 true, .complete ⟨⟨1, 1⟩, .send, 5⟩ true [], .dequeue 1 ⟨⟨1, 1⟩, .send, true⟩,
        .run 1 true, .run 1 true]) (.init rfl) rfl
    exact h _ hr 1 trivial
  · intro h
    have hr : (sys 2).Reachable _ := Sys.Reachable.run (acceptRun 0 5 1 1 ++
      [.sendReq 0 5 true, .complete ⟨⟨1, 1⟩, .send, 5⟩ true [], .dequeue 1 ⟨⟨1, 1⟩, .send, true⟩,
        .run 1 true, .run 1 true, .run 1 true, .run 1 true, .run 1 true]) (.init rfl) rfl
    have ho := h _ hr 5 ⟨1, 1⟩ rfl
    exact absurd ho (Nat.not_le_of_lt (Nat.le_of_ble_eq_true rfl))

end P1Server.Conn
