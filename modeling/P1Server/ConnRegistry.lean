import P1Server.Conn
import P1Server.Lib.Threads

/-!
# The client registry (`TCPServer.cpp:266-332`)

Two maps, the objects they own and the handle table of the OS, under one lock.

* `RegInv` — what holds in every state, by the place of the thread that holds the lock;
* `registry` — what is left of it when nobody does.

Most steps leave the registry alone (`Quiet`). The others are followed one by one: a handle comes into
being (`accept`), its objects (`construct`), its entries (`register`), and `RemoveClient` and
`RemoveAllClient` take the three down in the same order.
-/

namespace P1Server.Conn
open Lib

variable {n : Nat} {s s' : State n}

/-- `r` is the live context made for the handle `k`. -/
structure CtxAt (s : State n) (k : Socket) (r : Ref) : Prop where
  nonnull : r.addr ≠ 0
  live : s.live r
  sock : (s.ctx r.addr).s = k

/-- `b` are the live command queues of the connection that is open under `k`. -/
structure CmdAt (s : State n) (k : Socket) (b : Cref) : Prop where
  nonnull : b.addr ≠ 0
  live : s.cmd b.addr = ⟨b.conn, true⟩
  opened : s.os k = some b.conn

/-- The maps agree and hold live objects, at the keys in `P`. -/
structure MapsOk (s : State n) (P : Socket → Prop) : Prop where
  keys : ∀ k, P k → ((s.clientsContext.find k).isSome ↔ (s.clientCmd.find k).isSome)
  ctxs : ∀ k r, P k → s.clientsContext.find k = some r → CtxAt s k r
  cmds : ∀ k b, P k → s.clientCmd.find k = some b → CmdAt s k b

theorem mapsOk_empty {P : Socket → Prop} (hx : s.clientsContext = .empty) (hd : s.clientCmd = .empty) :
    MapsOk s P := by
  refine ⟨?_, ?_, ?_⟩
  · intro k _
    simp [hx, hd]
  · intro k r _ hf
    simp [hx] at hf
  · intro k b _ hf
    simp [hd] at hf

/-- Places inside an exclusive section. -/
def holding : Pc → Bool
  | .rmHeld _ _ | .rmClosed _ _ | .raCtx _ | .raCmd _ => true
  | _ => false

/-- Handle and connection that a thread has accepted and not registered. -/
def pending : Pc → Option (Socket × Nat)
  | .accepted k c | .built k c _ _ => some (k, c)
  | _ => none

def plain (p : Pc) : Prop := holding p = false ∧ pending p = none

/-- The registry while the lock is held at the place. -/
def Holds (s : State n) : Pc → Prop
  | .rmHeld k _ => s.clientsContext.find k = none ∧ MapsOk s (· ≠ k) ∧
      (∀ b, s.clientCmd.find k = some b → CmdAt s k b) ∧ s.closed = s.unreg
  | .rmClosed k _ => s.clientsContext.find k = none ∧ MapsOk s (· ≠ k) ∧
      s.closed = s.unreg ++ ((s.clientCmd.find k).map fun b : Cref => (b.conn, s.sect)).toList
  | .raCtx todo => (∀ e ∈ todo, CtxAt s e.1 e.2 ∧ ∃ b, s.clientCmd.find e.1 = some b) ∧
      (todo.map Prod.fst).Nodup ∧ (∀ k b, s.clientCmd.find k = some b → CmdAt s k b) ∧ s.closed = s.unreg
  | .raCmd todo => (∀ e ∈ todo, CmdAt s e.1 e.2) ∧ (todo.map Prod.fst).Nodup ∧
      ∃ done, s.clientCmd.entries = done ++ todo ∧
        s.closed = s.unreg ++ done.map fun e : Socket × Cref => (e.2.conn, s.sect)
  | _ => False

/-- The registry, by who holds the lock. -/
def Phase (s : State n) : Prop :=
  match s.lock with
  | none => MapsOk s (fun _ => True) ∧ s.closed = s.unreg
  | some t => Holds s (s.pc t)

/-- **The registry invariant.** -/
structure RegInv (s : State n) : Prop where
  lockPc : ∀ t, holding (s.pc t) = true ↔ s.lock = some t
  osLt : ∀ k c, s.os k = some c → c < s.nextConn
  osInj : ∀ j k c, s.os j = some c → s.os k = some c → j = k
  connLt : ∀ k b, s.clientCmd.find k = some b → b.conn < s.nextConn
  closedLt : ∀ c ∈ s.closed.map Prod.fst, c < s.nextConn
  openNot : ∀ k c, s.os k = some c → c ∉ s.closed.map Prod.fst
  closedOnce : (s.closed.map Prod.fst).Nodup
  pendOpen : ∀ t k c, pending (s.pc t) = some (k, c) → s.os k = some c
  pendFree : ∀ t k c, pending (s.pc t) = some (k, c) → ∀ j b, s.clientCmd.find j = some b → b.conn ≠ c
  pendOne : ∀ t u j k c, pending (s.pc t) = some (j, c) → pending (s.pc u) = some (k, c) → t = u
  built : ∀ t k c r b, s.pc t = .built k c r b → CtxAt s k r ∧ CmdAt s k b ∧ b.conn = c
  noOverwrite : s.overwrites = 0
  phase : Phase s

/-! ## Objects under updates -/

theorem CtxAt.ne {j k : Socket} {r q : Ref} (h : CtxAt s j r) (h' : CtxAt s k q) (hjk : j ≠ k) :
    r.addr ≠ q.addr := by
  intro he
  have := h.sock
  rw [he, h'.sock] at this
  exact hjk this.symm

theorem CtxAt.update {k : Socket} {r : Ref} {a : Nat} {x : NetContext} (h : CtxAt s k r)
    (hc : s'.ctx = Function.update s.ctx a x) (ha : r.addr ≠ a) : CtxAt s' k r := by
  have he : s'.ctx r.addr = s.ctx r.addr := by rw [hc, Function.update_of_ne ha]
  refine ⟨h.nonnull, ?_, he ▸ h.sock⟩
  have := h.live
  simpa only [State.live, he] using this

theorem CmdAt.update {k : Socket} {b : Cref} {a : Nat} {x : ClientCmd} (h : CmdAt s k b)
    (hc : s'.cmd = Function.update s.cmd a x) (ha : b.addr ≠ a) (ho : s'.os k = s.os k) : CmdAt s' k b :=
  ⟨h.nonnull, by rw [hc, Function.update_of_ne ha, h.live], ho ▸ h.opened⟩

theorem RegInv.cmd_ne (h : RegInv s) {j k : Socket} {b d : Cref} (hb : CmdAt s j b) (hd : CmdAt s k d)
    (hjk : j ≠ k) : b.addr ≠ d.addr := by
  intro he
  have hl := hb.live
  rw [he, hd.live] at hl
  have hc : d.conn = b.conn := congrArg ClientCmd.conn hl
  exact hjk (h.osInj j k b.conn hb.opened (hc ▸ hd.opened))

/-- A registered handle is not one that waits to be registered. -/
theorem RegInv.pending_ne (h : RegInv s) {t : Fin n} {j k : Socket} {c : Nat} {b : Cref}
    (hp : pending (s.pc t) = some (j, c)) (hf : s.clientCmd.find k = some b) (hb : CmdAt s k b) : j ≠ k := by
  intro he
  subst he
  have := h.pendOpen t j c hp
  rw [hb.opened] at this
  exact h.pendFree t j c hp j b hf (Option.some.inj this)

/-! ## Steps that keep what is registered -/

/-- The step keeps the maps and the objects in them. -/
structure Keeps (s s' : State n) : Prop where
  lock : s'.lock = s.lock
  clientsContext : s'.clientsContext = s.clientsContext
  clientCmd : s'.clientCmd = s.clientCmd
  sect : s'.sect = s.sect
  closed : s'.closed = s.closed
  unreg : s'.unreg = s.unreg
  ctxAt : ∀ k r, CtxAt s k r → CtxAt s' k r
  cmdAt : ∀ k b, CmdAt s k b → CmdAt s' k b

theorem Keeps.mapsOk (q : Keeps s s') {P : Socket → Prop} (h : MapsOk s P) : MapsOk s' P := by
  refine ⟨?_, ?_, ?_⟩
  · rw [q.clientsContext, q.clientCmd]
    exact h.keys
  · rw [q.clientsContext]
    exact fun k r hk hf => q.ctxAt k r (h.ctxs k r hk hf)
  · rw [q.clientCmd]
    exact fun k b hk hf => q.cmdAt k b (h.cmds k b hk hf)

theorem Keeps.holds (q : Keeps s s') {p : Pc} (h : Holds s p) : Holds s' p := by
  cases p with
  | rmHeld k ks =>
    obtain ⟨hk, hm, hb, he⟩ := h
    simp only [Holds, q.clientsContext, q.clientCmd, q.closed, q.unreg]
    exact ⟨hk, q.mapsOk hm, fun b hf => q.cmdAt k b (hb b hf), he⟩
  | rmClosed k ks =>
    obtain ⟨hk, hm, he⟩ := h
    simp only [Holds, q.clientsContext, q.clientCmd, q.closed, q.unreg, q.sect]
    exact ⟨hk, q.mapsOk hm, he⟩
  | raCtx todo =>
    obtain ⟨ht, hn, hb, he⟩ := h
    simp only [Holds, q.clientCmd, q.closed, q.unreg]
    exact ⟨fun e hm => (ht e hm).imp_left (q.ctxAt _ _), hn, fun k b hf => q.cmdAt k b (hb k b hf), he⟩
  | raCmd todo =>
    obtain ⟨ht, hn, hd⟩ := h
    simp only [Holds, q.clientCmd, q.closed, q.unreg, q.sect]
    exact ⟨fun e hm => q.cmdAt _ _ (ht e hm), hn, hd⟩
  | _ => exact h.elim

theorem phase_free (hl : s.lock = none) (h : MapsOk s (fun _ => True) ∧ s.closed = s.unreg) : Phase s := by
  rwa [Phase, hl]

theorem phase_locked {t : Fin n} (hl : s.lock = some t) (h : Holds s (s.pc t)) : Phase s := by
  rwa [Phase, hl]

theorem holding_of_holds {p : Pc} (h : Holds s p) : holding p = true := by
  cases p <;> first | rfl | exact h.elim

theorem Keeps.phase (q : Keeps s s') (h : Phase s)
    (hpc : ∀ u, holding (s.pc u) = true → s'.pc u = s.pc u) : Phase s' := by
  simp only [Phase, q.lock] at h ⊢
  split at h
  · rw [q.closed, q.unreg]
    exact h.imp_left q.mapsOk
  case h_2 t hl =>
    rw [hpc t (holding_of_holds h)]
    exact q.holds h

/-- The step leaves the registry, its objects and the handle table alone. -/
structure Quiet (s s' : State n) : Prop where
  lock : s'.lock = s.lock
  clientsContext : s'.clientsContext = s.clientsContext
  clientCmd : s'.clientCmd = s.clientCmd
  cmd : s'.cmd = s.cmd
  os : s'.os = s.os
  nextConn : s'.nextConn = s.nextConn
  sect : s'.sect = s.sect
  overwrites : s'.overwrites = s.overwrites
  closed : s'.closed = s.closed
  unreg : s'.unreg = s.unreg
  ctx : ∀ a, (s'.ctx a).s = (s.ctx a).s ∧ (s'.ctx a).live = (s.ctx a).live ∧ (s'.ctx a).inst = (s.ctx a).inst

theorem Quiet.live (q : Quiet s s') {r : Ref} : s'.live r ↔ s.live r := by
  obtain ⟨-, hl, hi⟩ := q.ctx r.addr
  rw [State.live, State.live, hl, hi]

theorem Quiet.keeps (q : Quiet s s') : Keeps s s' where
  lock := q.lock
  clientsContext := q.clientsContext
  clientCmd := q.clientCmd
  sect := q.sect
  closed := q.closed
  unreg := q.unreg
  ctxAt _ r h := ⟨h.nonnull, q.live.2 h.live, (q.ctx r.addr).1.trans h.sock⟩
  cmdAt _ _ h := ⟨h.nonnull, q.cmd ▸ h.live, q.os ▸ h.opened⟩

theorem RegInv.quiet (h : RegInv s) (q : Quiet s s')
    (hpc : ∀ u, s'.pc u = s.pc u ∨ plain (s.pc u) ∧ plain (s'.pc u)) : RegInv s' := by
  have hhold : ∀ u, holding (s'.pc u) = holding (s.pc u) := by
    intro u
    rcases hpc u with he | ⟨h1, h2⟩
    · rw [he]
    · rw [h1.1, h2.1]
  have hpend : ∀ u, pending (s'.pc u) = pending (s.pc u) := by
    intro u
    rcases hpc u with he | ⟨h1, h2⟩
    · rw [he]
    · rw [h1.2, h2.2]
  constructor
  case lockPc => intro t; rw [hhold, q.lock]; exact h.lockPc t
  case osLt => rw [q.os, q.nextConn]; exact h.osLt
  case osInj => rw [q.os]; exact h.osInj
  case connLt => rw [q.clientCmd, q.nextConn]; exact h.connLt
  case closedLt => rw [q.closed, q.nextConn]; exact h.closedLt
  case openNot => rw [q.os, q.closed]; exact h.openNot
  case closedOnce => rw [q.closed]; exact h.closedOnce
  case pendOpen => intro t; rw [hpend, q.os]; exact h.pendOpen t
  case pendFree => intro t; rw [hpend, q.clientCmd]; exact h.pendFree t
  case pendOne => intro t u; rw [hpend, hpend]; exact h.pendOne t u
  case built =>
    intro t k c r b ht
    rcases hpc t with he | ⟨-, h2⟩
    · obtain ⟨hr, hb, hc⟩ := h.built t k c r b (he ▸ ht)
      exact ⟨q.keeps.ctxAt k r hr, q.keeps.cmdAt k b hb, hc⟩
    · rw [ht] at h2
      cases h2.2
  case noOverwrite => rw [q.overwrites]; exact h.noOverwrite
  case phase =>
    refine q.keeps.phase h.phase ?_
    intro u hu
    rcases hpc u with he | ⟨h1, -⟩
    · exact he
    · rw [h1.1] at hu
      cases hu

/-- Only the thread that moves changes its place. -/
theorem moved {t : Fin n} {p q : Pc} (hp : s.pc t = p) (h : s'.pc = Function.update s.pc t q) (h1 : plain p)
    (h2 : plain q) (u : Fin n) : s'.pc u = s.pc u ∨ plain (s.pc u) ∧ plain (s'.pc u) := by
  rw [h]
  by_cases hu : u = t
  · subst hu
    rw [Function.update_self, hp]
    exact .inr ⟨h1, h2⟩
  · rw [Function.update_of_ne hu]
    exact .inl rfl

/-! ### Which steps these are -/

theorem quiet_regIocp (t : Fin n) (r : Ref) (ok : Bool) : Quiet s (s.regIocp t r ok) := by
  constructor <;> intros <;> trivial

theorem quiet_recvReq (t : Fin n) (r : Ref) (cause : Option Kind) : Quiet s (s.recvReq t r cause) := by
  constructor
  case ctx =>
    intro a
    show (Function.update s.ctx r.addr _ a).s = _ ∧ (Function.update s.ctx r.addr _ a).live = _ ∧
      (Function.update s.ctx r.addr _ a).inst = _
    by_cases ha : a = r.addr
    · subst ha
      rw [Function.update_self]
      exact ⟨rfl, rfl, rfl⟩
    · rw [Function.update_of_ne ha]
      exact ⟨rfl, rfl, rfl⟩
  all_goals rfl

theorem quiet_wsaRecv (t : Fin n) (r : Ref) (ok : Bool) : Quiet s (s.wsaRecv t r ok) := by
  unfold State.wsaRecv
  split <;> constructor <;> intros <;> trivial

theorem quiet_recvFailed (t : Fin n) (r : Ref) : Quiet s (s.recvFailed t r) := by
  constructor <;> intros <;> trivial

theorem quiet_sendReq (t : Fin n) (k : Socket) (ok : Bool) : Quiet s (s.sendReq t k ok) := by
  unfold State.sendReq
  split
  · constructor <;> intros <;> trivial
  · split <;> constructor <;> intros <;> trivial

theorem quiet_complete (o : Overlapped) (ok : Bool) (data : List UInt8) : Quiet s (s.complete o ok data) := by
  constructor
  case ctx =>
    intro a
    simp only [State.complete]
    split
    · by_cases ha : a = o.ctx.addr
      · subst ha
        rw [Function.update_self]
        exact ⟨rfl, rfl, rfl⟩
      · rw [Function.update_of_ne ha]
        exact ⟨rfl, rfl, rfl⟩
    · exact ⟨rfl, rfl, rfl⟩
  all_goals rfl

theorem quiet_dequeue (t : Fin n) (p : Packet) : Quiet s (s.dequeue t p) := by
  constructor <;> intros <;> trivial

theorem quiet_dispatch (t : Fin n) (r : Ref) (kind : Kind) : Quiet s (s.dispatch t r kind) := by
  constructor <;> intros <;> trivial

theorem quiet_callBack (t : Fin n) (r : Ref) (kind : Kind) : Quiet s (s.callBack t r kind) := by
  constructor <;> intros <;> trivial

theorem quiet_parse (t : Fin n) (r : Ref) (kind : Kind) (tick : UInt32) (offset : Nat) :
    Quiet s (s.parse t r kind tick offset) := by
  unfold State.parse
  split
  · split <;> constructor <;> intros <;> trivial
  · constructor <;> intros <;> trivial

theorem quiet_goto (t : Fin n) (p : Pc) : Quiet s (s.goto t p) := by
  constructor <;> intros <;> trivial

/-! ## Steps that change the registry -/

theorem holding_goto {t : Fin n} {p : Pc} (h : ∀ u, holding (s.pc u) = true ↔ s.lock = some u)
    (hp : holding p = holding (s.pc t)) (u : Fin n) :
    holding (Function.update s.pc t p u) = true ↔ s.lock = some u := by
  by_cases hu : u = t
  · subst hu
    rw [Function.update_self, hp, h u]
  · rw [Function.update_of_ne hu, h u]

theorem holding_lock {t : Fin n} {p : Pc} (h : ∀ u, holding (s.pc u) = true ↔ s.lock = some u)
    (hl : s.lock = none) (hp : holding p = true) (u : Fin n) :
    holding (Function.update s.pc t p u) = true ↔ some t = some u := by
  by_cases hu : u = t
  · subst hu
    rw [Function.update_self]
    exact ⟨fun _ => rfl, fun _ => hp⟩
  · rw [Function.update_of_ne hu, h u, hl]
    exact ⟨nofun, fun he => absurd (Option.some.inj he).symm hu⟩

theorem holding_unlock {t : Fin n} {p : Pc} (h : ∀ u, holding (s.pc u) = true ↔ s.lock = some u)
    (ht : holding (s.pc t) = true) (hp : holding p = false) (u : Fin n) :
    holding (Function.update s.pc t p u) = true ↔ none = some u := by
  by_cases hu : u = t
  · subst hu
    rw [Function.update_self, hp]
    exact ⟨nofun, nofun⟩
  · rw [Function.update_of_ne hu, h u, (h t).1 ht]
    exact ⟨fun he => absurd (Option.some.inj he).symm hu, nofun⟩

/-- A step to a place without a handle of its own leaves no new pending handle. -/
theorem pending_goto {t : Fin n} {p : Pc} (hp : pending p = none) {u : Fin n} {x : Socket × Nat}
    (h : pending (Function.update s.pc t p u) = some x) : pending (s.pc u) = some x := by
  rcases see_update pending h with ⟨-, h⟩ | ⟨-, h⟩
  · rw [hp] at h
    cases h
  · exact h

theorem built_goto {t : Fin n} {p : Pc} (hp : pending p = none) {u : Fin n} {k : Socket} {c : Nat} {r : Ref}
    {b : Cref} (h : Function.update s.pc t p u = .built k c r b) : s.pc u = .built k c r b := by
  rcases at_update h with ⟨-, h⟩ | ⟨-, h⟩
  · rw [h] at hp
    cases hp
  · exact h

theorem RegInv.phase_none (h : RegInv s) (hl : s.lock = none) : MapsOk s (fun _ => True) ∧ s.closed = s.unreg := by
  have := h.phase
  rwa [Phase, hl] at this

theorem RegInv.phase_holds (h : RegInv s) {t : Fin n} {p : Pc} (hp : s.pc t = p) (ht : holding p = true) :
    Holds s p := by
  subst hp
  have := h.phase
  rwa [Phase, (h.lockPc t).1 ht] at this

theorem RegInv.accept (h : RegInv s) {t : Fin n} {k : Socket} (ht : s.pc t = .idle) (hk : s.os k = none) :
    RegInv (s.accept t k) := by
  have hos : ∀ j c, s.os j = some c → Function.update s.os k (some s.nextConn) j = some c := by
    intro j c hj
    rwa [Function.update_of_ne (by rintro rfl; rw [hk] at hj; cases hj)]
  have hos' : ∀ j c, Function.update s.os k (some s.nextConn) j = some c →
      j = k ∧ c = s.nextConn ∨ s.os j = some c := by
    intro j c hj
    exact (at_update hj).imp (And.imp_right fun hc => (Option.some.inj hc).symm) And.right
  have hq : Keeps s (s.accept t k) := by
    refine ⟨rfl, rfl, rfl, rfl, rfl, rfl, fun j r hr => ⟨hr.nonnull, hr.live, hr.sock⟩, ?_⟩
    intro j b hb
    exact ⟨hb.nonnull, hb.live, hos j _ hb.opened⟩
  have hpc : ∀ u x, pending ((s.accept t k).pc u) = some x →
      u = t ∧ x = (k, s.nextConn) ∨ u ≠ t ∧ pending (s.pc u) = some x := by
    intro u x hx
    exact (see_update pending hx).imp_left (And.imp_right fun hx => (Option.some.inj hx).symm)
  constructor
  case lockPc => exact holding_goto h.lockPc (by rw [ht]; rfl)
  case osLt =>
    intro j c hj
    show c < s.nextConn + 1
    rcases hos' j c hj with ⟨-, rfl⟩ | hj
    · omega
    · have := h.osLt j c hj
      omega
  case osInj =>
    intro i j c hi hj
    rcases hos' i c hi with ⟨hi, hc⟩ | hi' <;> rcases hos' j c hj with ⟨hj, hd⟩ | hj'
    · rw [hi, hj]
    · exact absurd (hc ▸ h.osLt _ _ hj') (Nat.lt_irrefl _)
    · exact absurd (hd ▸ h.osLt _ _ hi') (Nat.lt_irrefl _)
    · exact h.osInj i j c hi' hj'
  case connLt => exact fun j b hf => Nat.lt_succ_of_lt (h.connLt j b hf)
  case closedLt => exact fun c hc => Nat.lt_succ_of_lt (h.closedLt c hc)
  case openNot =>
    intro j c hj hc
    rcases hos' j c hj with ⟨-, rfl⟩ | hj
    · exact Nat.lt_irrefl _ (h.closedLt _ hc)
    · exact h.openNot j c hj hc
  case closedOnce => exact h.closedOnce
  case pendOpen =>
    intro u j c hu
    rcases hpc u _ hu with ⟨-, he⟩ | ⟨-, hu⟩
    · cases he
      exact Function.update_self ..
    · exact hos j c (h.pendOpen u j c hu)
  case pendFree =>
    intro u j c hu i b hf
    rcases hpc u _ hu with ⟨-, he⟩ | ⟨-, hu⟩
    · cases he
      exact Nat.ne_of_lt (h.connLt i b hf)
    · exact h.pendFree u j c hu i b hf
  case pendOne =>
    intro u v i j c hu hv
    rcases hpc u _ hu with ⟨hut, he⟩ | ⟨-, hu'⟩ <;> rcases hpc v _ hv with ⟨hvt, he'⟩ | ⟨-, hv'⟩
    · rw [hut, hvt]
    · cases he
      exact absurd (h.osLt _ _ (h.pendOpen v j _ hv')) (Nat.lt_irrefl _)
    · cases he'
      exact absurd (h.osLt _ _ (h.pendOpen u i _ hu')) (Nat.lt_irrefl _)
    · exact h.pendOne u v i j c hu' hv'
  case built =>
    intro u j c r b hu
    have hu' : s.pc u = .built j c r b := by
      rcases at_update hu with ⟨-, hu⟩ | ⟨-, hu⟩
      · cases hu
      · exact hu
    obtain ⟨hr, hb, hc⟩ := h.built u j c r b hu'
    exact ⟨hq.ctxAt j r hr, hq.cmdAt j b hb, hc⟩
  case noOverwrite => exact h.noOverwrite
  case phase =>
    refine hq.phase h.phase fun u hu => Function.update_of_ne ?_ _ _
    rintro rfl
    rw [ht] at hu
    cases hu

theorem RegInv.construct (h : RegInv s) {t : Fin n} {k : Socket} {c a b : Nat} {behind : Mem}
    (ht : s.pc t = .accepted k c) (ha : a ≠ 0) (hb : b ≠ 0) (hx : (s.ctx a).live = false)
    (hy : (s.cmd b).live = false) : RegInv (s.construct t k c a b behind) := by
  have hpt : pending (s.pc t) = some (k, c) := by rw [ht]; rfl
  have hq : Keeps s (s.construct t k c a b behind) := by
    refine ⟨rfl, rfl, rfl, rfl, rfl, rfl, fun j r hr => hr.update rfl ?_, fun j d hd => hd.update rfl ?_ rfl⟩
    · rintro rfl
      rw [hr.live.1] at hx
      cases hx
    · rintro rfl
      rw [hd.live] at hy
      cases hy
  have hpend : ∀ u, pending ((s.construct t k c a b behind).pc u) = pending (s.pc u) := by
    intro u
    by_cases hu : u = t
    · subst hu
      rw [hpt]
      simp only [State.construct, State.goto, Function.update_self, pending]
    · simp only [State.construct, State.goto, Function.update_of_ne hu]
  constructor
  case lockPc => exact holding_goto h.lockPc (by rw [ht]; rfl)
  case osLt => exact h.osLt
  case osInj => exact h.osInj
  case connLt => exact h.connLt
  case closedLt => exact h.closedLt
  case openNot => exact h.openNot
  case closedOnce => exact h.closedOnce
  case pendOpen => intro u; rw [hpend]; exact h.pendOpen u
  case pendFree => intro u; rw [hpend]; exact h.pendFree u
  case pendOne => intro u v; rw [hpend, hpend]; exact h.pendOne u v
  case built =>
    intro u j d r q hu
    by_cases he : u = t
    · subst he
      simp only [State.construct, State.goto, Function.update_self, Pc.built.injEq] at hu
      obtain ⟨rfl, rfl, rfl, rfl⟩ := hu
      refine ⟨⟨ha, ⟨?_, ?_⟩, ?_⟩, ⟨hb, ?_, h.pendOpen u k c hpt⟩, rfl⟩
      · simp only [State.construct, State.goto, Function.update_self]
      · simp only [State.construct, State.goto, Function.update_self]
      · simp only [State.construct, State.goto, Function.update_self]
      · simp only [State.construct, State.goto, Function.update_self]
    · simp only [State.construct, State.goto, Function.update_of_ne he] at hu
      obtain ⟨hr, hd, hc⟩ := h.built u j d r q hu
      exact ⟨hq.ctxAt j r hr, hq.cmdAt j q hd, hc⟩
  case noOverwrite => exact h.noOverwrite
  case phase =>
    refine hq.phase h.phase fun u hu => Function.update_of_ne ?_ _ _
    rintro rfl
    rw [ht] at hu
    cases hu

/-- Nothing is registered yet under a handle that a thread is about to register. -/
theorem RegInv.unregistered (h : RegInv s) (hl : s.lock = none) {t : Fin n} {k : Socket} {c : Nat}
    (hp : pending (s.pc t) = some (k, c)) : s.clientsContext.find k = none ∧ s.clientCmd.find k = none := by
  have hm := (h.phase_none hl).1
  have hb : s.clientCmd.find k = none := by
    cases hf : s.clientCmd.find k with
    | none => rfl
    | some b => exact absurd rfl (h.pending_ne hp hf (hm.cmds k b trivial hf))
  have := hm.keys k trivial
  rw [hb] at this
  exact ⟨by simpa using this, hb⟩

theorem RegInv.register (h : RegInv s) {t : Fin n} {k : Socket} {c : Nat} {r : Ref} {b : Cref}
    (ht : s.pc t = .built k c r b) (hl : s.lock = none) : RegInv (s.register t k r b) := by
  have hpt : pending (s.pc t) = some (k, c) := by rw [ht]; rfl
  obtain ⟨hr, hb, rfl⟩ := h.built t k c r b ht
  obtain ⟨hx, hd⟩ := h.unregistered hl hpt
  obtain ⟨hm, he⟩ := h.phase_none hl
  have hpend : ∀ {u x}, pending ((s.register t k r b).pc u) = some x → u ≠ t ∧ pending (s.pc u) = some x := by
    intro u x hu
    refine ⟨?_, pending_goto rfl hu⟩
    rintro rfl
    simp only [State.register, State.goto, Function.update_self, pending, reduceCtorEq] at hu
  constructor
  case lockPc => exact holding_goto h.lockPc (by rw [ht]; rfl)
  case osLt => exact h.osLt
  case osInj => exact h.osInj
  case connLt =>
    intro j d hf
    rw [show (s.register t k r b).clientCmd = s.clientCmd.set k b from rfl, OrdMap.find_set] at hf
    split at hf
    · cases hf
      exact h.osLt k b.conn hb.opened
    · exact h.connLt j d hf
  case closedLt => exact h.closedLt
  case openNot => exact h.openNot
  case closedOnce => exact h.closedOnce
  case pendOpen => exact fun u j d hu => h.pendOpen u j d (hpend hu).2
  case pendFree =>
    intro u j d hu i q hf hc
    obtain ⟨hut, hu⟩ := hpend hu
    rw [show (s.register t k r b).clientCmd = s.clientCmd.set k b from rfl, OrdMap.find_set] at hf
    split at hf
    · cases hf
      exact hut (h.pendOne u t j k d hu (hc ▸ hpt))
    · exact h.pendFree u j d hu i q hf hc
  case pendOne => exact fun u v i j d hu hv => h.pendOne u v i j d (hpend hu).2 (hpend hv).2
  case built =>
    intro u j d q e hu
    obtain ⟨hq, hd, hc⟩ := h.built u j d q e (built_goto rfl hu)
    exact ⟨⟨hq.nonnull, hq.live, hq.sock⟩, ⟨hd.nonnull, hd.live, hd.opened⟩, hc⟩
  case noOverwrite =>
    show s.overwrites + (s.clientsContext.find k).toList.length + (s.clientCmd.find k).toList.length = 0
    rw [hx, hd, h.noOverwrite]
    rfl
  case phase =>
    refine phase_free hl ⟨⟨?_, ?_, ?_⟩, he⟩
    · intro j _
      show ((s.clientsContext.set k r).find j).isSome ↔ ((s.clientCmd.set k b).find j).isSome
      rw [OrdMap.find_set, OrdMap.find_set]
      split
      · exact Iff.rfl
      · exact hm.keys j trivial
    · intro j q _ hf
      rw [show (s.register t k r b).clientsContext = s.clientsContext.set k r from rfl, OrdMap.find_set] at hf
      split at hf
      case isTrue hj =>
        cases hf
        exact ⟨hr.nonnull, hr.live, hr.sock.trans hj.symm⟩
      case isFalse =>
        have hq := hm.ctxs j q trivial hf
        exact ⟨hq.nonnull, hq.live, hq.sock⟩
    · intro j d _ hf
      rw [show (s.register t k r b).clientCmd = s.clientCmd.set k b from rfl, OrdMap.find_set] at hf
      split at hf
      case isTrue hj =>
        cases hf
        exact ⟨hb.nonnull, hb.live, hj ▸ hb.opened⟩
      case isFalse =>
        have hq := hm.cmds j d trivial hf
        exact ⟨hq.nonnull, hq.live, hq.opened⟩

/-- A holder's step that only erases entries or objects nobody else can reach. -/
theorem RegInv.of_holder (h : RegInv s) {t : Fin n} {p : Pc} (hpc : s'.pc = Function.update s.pc t p)
    (hp : pending p = none) (hlock : ∀ u, holding (s'.pc u) = true ↔ s'.lock = some u) (ho : s'.os = s.os)
    (hn : s'.nextConn = s.nextConn) (hv : s'.overwrites = s.overwrites) (hc : s'.closed = s.closed)
    (hd : ∀ k b, s'.clientCmd.find k = some b → s.clientCmd.find k = some b)
    (hb : ∀ u k c r b, s.pc u = .built k c r b → CtxAt s k r → CmdAt s k b → CtxAt s' k r ∧ CmdAt s' k b)
    (hph : Phase s') : RegInv s' := by
  constructor
  case lockPc => exact hlock
  case osLt => rw [ho, hn]; exact h.osLt
  case osInj => rw [ho]; exact h.osInj
  case connLt => rw [hn]; exact fun k b hf => h.connLt k b (hd k b hf)
  case closedLt => rw [hc, hn]; exact h.closedLt
  case openNot => rw [ho, hc]; exact h.openNot
  case closedOnce => rw [hc]; exact h.closedOnce
  case pendOpen => rw [hpc, ho]; exact fun u k c hu => h.pendOpen u k c (pending_goto hp hu)
  case pendFree => rw [hpc]; exact fun u k c hu j b hf => h.pendFree u k c (pending_goto hp hu) j b (hd j b hf)
  case pendOne =>
    rw [hpc]
    exact fun u v j k c hu hv => h.pendOne u v j k c (pending_goto hp hu) (pending_goto hp hv)
  case built =>
    rw [hpc]
    intro u k c r b hu
    obtain ⟨hr, hq, he⟩ := h.built u k c r b (built_goto hp hu)
    obtain ⟨hr', hq'⟩ := hb u k c r b (built_goto hp hu) hr hq
    exact ⟨hr', hq', he⟩
  case noOverwrite => rw [hv]; exact h.noOverwrite
  case phase => exact hph

theorem ctxAt_removeContext (hm : MapsOk s fun _ => True) (t : Fin n) {k : Socket} (ks : List Socket)
    {j : Socket} {r : Ref} (hr : CtxAt s j r) (hjk : (s.clientsContext.find k).isSome → j ≠ k) :
    CtxAt (s.removeContext t k ks) j r := by
  cases hf : s.clientsContext.find k with
  | none =>
    have : (s.removeContext t k ks).ctx = s.ctx := by
      simp only [State.removeContext, State.goto, hf]
    refine ⟨hr.nonnull, ?_, this ▸ hr.sock⟩
    rw [State.live, this]
    exact hr.live
  | some q =>
    refine hr.update (a := q.addr) (by simp only [State.removeContext, State.goto, hf]; rfl) ?_
    exact hr.ne (hm.ctxs k q trivial hf) (hjk (by rw [hf]; rfl))

theorem RegInv.removeContext (h : RegInv s) (hl : s.lock = none) (t : Fin n) (k : Socket) (ks : List Socket) :
    RegInv (s.removeContext t k ks) := by
  obtain ⟨hm, he⟩ := h.phase_none hl
  refine h.of_holder (t := t) rfl rfl (holding_lock (s := s) h.lockPc hl rfl) rfl rfl rfl rfl (fun _ _ hf => hf) ?_ ?_
  · intro u j c r b hu hr hb
    refine ⟨ctxAt_removeContext hm t ks hr ?_, hb.nonnull, hb.live, hb.opened⟩
    intro hk
    obtain ⟨d, hd⟩ := Option.isSome_iff_exists.1 ((hm.keys k trivial).1 hk)
    exact h.pending_ne (t := u) (by rw [hu]; rfl) hd (hm.cmds k d trivial hd)
  · refine phase_locked (t := t) rfl ?_
    show Holds _ (Function.update s.pc t (.rmHeld k ks) t)
    rw [Function.update_self]
    refine ⟨OrdMap.find_erase_self .., ⟨?_, ?_, ?_⟩, ?_, he⟩
    · intro j hj
      show ((s.clientsContext.erase k).find j).isSome ↔ _
      rw [OrdMap.find_erase_ne hj]
      exact hm.keys j trivial
    · intro j r hj hf
      have hf' : (s.clientsContext.erase k).find j = some r := hf
      rw [OrdMap.find_erase_ne hj] at hf'
      exact ctxAt_removeContext hm t ks (hm.ctxs j r trivial hf') fun _ => hj
    · intro j b _ hf
      have hb := hm.cmds j b trivial hf
      exact ⟨hb.nonnull, hb.live, hb.opened⟩
    · intro b hf
      have hb := hm.cmds k b trivial hf
      exact ⟨hb.nonnull, hb.live, hb.opened⟩

theorem RegInv.removeErase (h : RegInv s) {t : Fin n} {k : Socket} {ks : List Socket}
    (ht : s.pc t = .rmClosed k ks) : RegInv (s.removeErase t k ks) := by
  obtain ⟨hk, hm, he⟩ := h.phase_holds ht rfl
  refine h.of_holder (t := t) rfl rfl (holding_unlock (s := s) h.lockPc (by rw [ht]; rfl) rfl) rfl rfl rfl rfl ?_ ?_ ?_
  · intro j b hf
    have hf' : (s.clientCmd.erase k).find j = some b := hf
    rw [OrdMap.find_erase] at hf'
    split at hf'
    · cases hf'
    · exact hf'
  · exact fun u j c r b _ hr hb => ⟨⟨hr.nonnull, hr.live, hr.sock⟩, hb.nonnull, hb.live, hb.opened⟩
  · refine phase_free rfl ⟨⟨?_, ?_, ?_⟩, he⟩
    · intro j _
      show (s.clientsContext.find j).isSome ↔ ((s.clientCmd.erase k).find j).isSome
      by_cases hj : j = k
      · simp [hj, hk]
      · rw [OrdMap.find_erase_ne hj]
        exact hm.keys j hj
    · intro j r _ hf
      have hj : j ≠ k := by
        rintro rfl
        rw [show (s.removeErase t j ks).clientsContext = s.clientsContext from rfl, hk] at hf
        cases hf
      have hr := hm.ctxs j r hj hf
      exact ⟨hr.nonnull, hr.live, hr.sock⟩
    · intro j b _ hf
      have hf' : (s.clientCmd.erase k).find j = some b := hf
      rw [OrdMap.find_erase] at hf'
      split at hf'
      · cases hf'
      case isFalse hj =>
        have hb := hm.cmds j b hj hf'
        exact ⟨hb.nonnull, hb.live, hb.opened⟩

/-! ### Closing a client's socket -/

theorem closeCmd_eq {k : Socket} {b : Cref} (hb : CmdAt s k b) : s.closeCmd k b =
    { s with
      cmd := Function.update s.cmd b.addr { s.cmd b.addr with live := false }
      os := Function.update s.os k none
      closed := s.closed ++ [(b.conn, s.sect)]
      io := s.io.filter fun o => o.sock ≠ k
      port := s.port ++ (s.io.filter fun o => o.sock = k).map fun o => ⟨o.ctx, o.kind, false⟩ } := by
  simp only [State.closeCmd, State.closeSocket, hb.opened]

theorem cmdAt_closeCmd (h : RegInv s) {j k : Socket} {b d : Cref} (hb : CmdAt s k b) (hd : CmdAt s j d)
    (hjk : j ≠ k) (t : Fin n) (p : Pc) : CmdAt ((s.closeCmd k b).goto t p) j d := by
  rw [closeCmd_eq hb]
  exact hd.update rfl (h.cmd_ne hd hb hjk) (Function.update_of_ne hjk ..)

theorem RegInv.closeCmd (h : RegInv s) {t : Fin n} {k : Socket} {b : Cref} {p : Pc}
    (ht : holding (s.pc t) = true) (hf : s.clientCmd.find k = some b) (hb : CmdAt s k b) (hp : holding p = true)
    (hph : Holds ((s.closeCmd k b).goto t p) p) : RegInv ((s.closeCmd k b).goto t p) := by
  have hpend : pending p = none := by cases p <;> first | rfl | cases hp
  have hcmd := fun {j d} (hd : CmdAt s j d) (hjk : j ≠ k) => cmdAt_closeCmd h hb hd hjk t p
  rw [closeCmd_eq hb] at hph hcmd ⊢
  have hos : ∀ {j c}, Function.update s.os k none j = some c → j ≠ k ∧ s.os j = some c := by
    intro j c hj
    rcases at_update hj with ⟨-, hj⟩ | hj
    · cases hj
    · exact hj
  have hne : ∀ {u j c}, pending (s.pc u) = some (j, c) → j ≠ k := fun hu => h.pending_ne hu hf hb
  constructor
  case lockPc => exact holding_goto h.lockPc (by rw [hp, ht])
  case osLt => exact fun j c hj => h.osLt j c (hos hj).2
  case osInj => exact fun i j c hi hj => h.osInj i j c (hos hi).2 (hos hj).2
  case connLt => exact h.connLt
  case closedLt =>
    intro c hc
    have hc' : c ∈ (s.closed ++ [(b.conn, s.sect)]).map Prod.fst := hc
    rw [List.map_append, List.mem_append] at hc'
    rcases hc' with hc' | hc'
    · exact h.closedLt c hc'
    · rw [List.mem_singleton.1 hc']
      exact h.connLt k b hf
  case openNot =>
    intro j c hj hc
    obtain ⟨hjk, hj⟩ := hos hj
    have hc' : c ∈ (s.closed ++ [(b.conn, s.sect)]).map Prod.fst := hc
    rw [List.map_append, List.mem_append] at hc'
    rcases hc' with hc' | hc'
    · exact h.openNot j c hj hc'
    · rw [List.mem_singleton.1 hc'] at hj
      exact hjk (h.osInj j k b.conn hj hb.opened)
  case closedOnce =>
    show ((s.closed ++ [(b.conn, s.sect)]).map Prod.fst).Nodup
    rw [List.map_append]
    refine List.nodup_append.2 ⟨h.closedOnce, List.pairwise_singleton _ _, ?_⟩
    intro c hc d hd
    rw [List.mem_singleton.1 hd]
    rintro rfl
    exact h.openNot k b.conn hb.opened hc
  case pendOpen =>
    intro u j c hu
    have hu' := pending_goto hpend hu
    exact (Function.update_of_ne (hne hu') ..).trans (h.pendOpen u j c hu')
  case pendFree => exact fun u j c hu => h.pendFree u j c (pending_goto hpend hu)
  case pendOne => exact fun u v i j c hu hv => h.pendOne u v i j c (pending_goto hpend hu) (pending_goto hpend hv)
  case built =>
    intro u j c r d hu
    have hu' := built_goto hpend hu
    obtain ⟨hr, hd, hc⟩ := h.built u j c r d hu'
    exact ⟨⟨hr.nonnull, hr.live, hr.sock⟩, hcmd hd (hne (u := u) (by rw [hu']; rfl)), hc⟩
  case noOverwrite => exact h.noOverwrite
  case phase =>
    refine phase_locked (t := t) ((h.lockPc t).1 ht) ?_
    show Holds _ (Function.update s.pc t p t)
    rwa [Function.update_self]

theorem RegInv.removeCmd (h : RegInv s) {t : Fin n} {k : Socket} {ks : List Socket}
    (ht : s.pc t = .rmHeld k ks) : RegInv (s.removeCmd t k ks) := by
  obtain ⟨hk, hm, hb, he⟩ := h.phase_holds ht rfl
  have hold : holding (s.pc t) = true := by rw [ht]; rfl
  unfold State.removeCmd
  cases hf : s.clientCmd.find k with
  | none =>
    refine h.of_holder (t := t) rfl rfl (holding_goto h.lockPc hold.symm) rfl rfl rfl rfl (fun _ _ hd => hd) ?_ ?_
    · exact fun u j c r b _ hr hd => ⟨⟨hr.nonnull, hr.live, hr.sock⟩, hd.nonnull, hd.live, hd.opened⟩
    · refine phase_locked (t := t) ((h.lockPc t).1 hold) ?_
      show Holds _ (Function.update s.pc t (.rmClosed k ks) t)
      rw [Function.update_self]
      refine ⟨hk, (Quiet.keeps (quiet_goto t _)).mapsOk hm, ?_⟩
      show s.closed = s.unreg ++ ((s.clientCmd.find k).map _).toList
      rw [hf, he]
      exact (List.append_nil _).symm
  | some b =>
    have hkb := hb b hf
    refine h.closeCmd hold hf hkb rfl ?_
    have hcmd := fun {j d} (hd : CmdAt s j d) (hjk : j ≠ k) => cmdAt_closeCmd h hkb hd hjk t (.rmClosed k ks)
    simp only [closeCmd_eq hkb] at hcmd ⊢
    refine ⟨hk, ⟨hm.keys, ?_, fun j d hj hd => hcmd (hm.cmds j d hj hd) hj⟩, ?_⟩
    · intro j r hj hr
      have hq := hm.ctxs j r hj hr
      exact ⟨hq.nonnull, hq.live, hq.sock⟩
    · show s.closed ++ [(b.conn, s.sect)] = s.unreg ++ ((s.clientCmd.find k).map _).toList
      rw [hf, he]
      rfl

theorem RegInv.removeAllLock (h : RegInv s) (hl : s.lock = none) (t : Fin n) : RegInv (s.removeAllLock t) := by
  obtain ⟨hm, he⟩ := h.phase_none hl
  refine h.of_holder (t := t) rfl rfl (holding_lock (s := s) h.lockPc hl rfl) rfl rfl rfl rfl (fun _ _ hf => hf)
    ?_ ?_
  · exact fun u j c r b _ hr hb => ⟨⟨hr.nonnull, hr.live, hr.sock⟩, hb.nonnull, hb.live, hb.opened⟩
  · refine phase_locked (t := t) rfl ?_
    show Holds _ (Function.update s.pc t (.raCtx s.clientsContext.entries) t)
    rw [Function.update_self]
    refine ⟨?_, s.clientsContext.keys_nodup, ?_, he⟩
    · intro e hme
      have hf := OrdMap.mem_entries.1 hme
      have hr := hm.ctxs e.1 e.2 trivial hf
      refine ⟨⟨hr.nonnull, hr.live, hr.sock⟩, ?_⟩
      exact Option.isSome_iff_exists.1 ((hm.keys e.1 trivial).1 (by rw [hf]; rfl))
    · intro k b hf
      have hb := hm.cmds k b trivial hf
      exact ⟨hb.nonnull, hb.live, hb.opened⟩

theorem RegInv.removeAllContext (h : RegInv s) {t : Fin n} {k : Socket} {r : Ref} {todo : List (Socket × Ref)}
    (ht : s.pc t = .raCtx ((k, r) :: todo)) : RegInv (s.removeAllContext t r todo) := by
  obtain ⟨hx, hn, hb, he⟩ := h.phase_holds ht rfl
  have hold : holding (s.pc t) = true := by rw [ht]; rfl
  obtain ⟨hr, d, hd⟩ := hx _ List.mem_cons_self
  obtain ⟨hnk, hn⟩ := List.nodup_cons.1 hn
  have hctx : ∀ {j q}, CtxAt s j q → j ≠ k → CtxAt (s.removeAllContext t r todo) j q :=
    fun hq hjk => hq.update rfl (hq.ne hr hjk)
  refine h.of_holder (t := t) rfl rfl (holding_goto h.lockPc hold.symm) rfl rfl rfl rfl (fun _ _ hf => hf) ?_ ?_
  · intro u j c q b hu hq hb'
    have hne : j ≠ k := h.pending_ne (t := u) (by rw [hu]; rfl) hd (hb k d hd)
    exact ⟨hctx hq hne, hb'.nonnull, hb'.live, hb'.opened⟩
  · refine phase_locked (t := t) ((h.lockPc t).1 hold) ?_
    show Holds _ (Function.update s.pc t (.raCtx todo) t)
    rw [Function.update_self]
    refine ⟨?_, hn, ?_, he⟩
    · intro e hme
      obtain ⟨hq, hf⟩ := hx e (List.mem_cons_of_mem _ hme)
      refine ⟨hctx hq ?_, hf⟩
      intro hj
      exact hnk (List.mem_map.2 ⟨e, hme, hj⟩)
    · intro j b hf
      have hq := hb j b hf
      exact ⟨hq.nonnull, hq.live, hq.opened⟩

theorem RegInv.removeAllTurn (h : RegInv s) {t : Fin n} (ht : s.pc t = .raCtx []) :
    RegInv (s.goto t (.raCmd s.clientCmd.entries)) := by
  obtain ⟨-, -, hb, he⟩ := h.phase_holds ht rfl
  have hold : holding (s.pc t) = true := by rw [ht]; rfl
  have hq : Quiet s (s.goto t (.raCmd s.clientCmd.entries)) := quiet_goto t _
  refine h.of_holder (t := t) rfl rfl (holding_goto h.lockPc hold.symm) rfl rfl rfl rfl (fun _ _ hf => hf) ?_ ?_
  · exact fun u j c r b _ hr hb => ⟨hq.keeps.ctxAt j r hr, hq.keeps.cmdAt j b hb⟩
  · refine phase_locked (t := t) ((h.lockPc t).1 hold) ?_
    show Holds _ (Function.update s.pc t (.raCmd s.clientCmd.entries) t)
    rw [Function.update_self]
    refine ⟨?_, s.clientCmd.keys_nodup, [], rfl, ?_⟩
    · intro e hme
      exact hq.keeps.cmdAt _ _ (hb e.1 e.2 (OrdMap.mem_entries.1 hme))
    · exact he.trans (List.append_nil _).symm

theorem RegInv.removeAllCmd (h : RegInv s) {t : Fin n} {k : Socket} {b : Cref} {todo : List (Socket × Cref)}
    (ht : s.pc t = .raCmd ((k, b) :: todo)) : RegInv (s.removeAllCmd t k b todo) := by
  obtain ⟨hx, hn, done, hd, he⟩ := h.phase_holds ht rfl
  have hold : holding (s.pc t) = true := by rw [ht]; rfl
  have hkb := hx _ List.mem_cons_self
  obtain ⟨hnk, hn⟩ := List.nodup_cons.1 hn
  have hf : s.clientCmd.find k = some b := by
    refine OrdMap.mem_entries.1 ?_
    rw [hd]
    exact List.mem_append_right _ List.mem_cons_self
  refine h.closeCmd hold hf hkb rfl ?_
  have hcmd := fun {j d} (hd : CmdAt s j d) (hjk : j ≠ k) => cmdAt_closeCmd h hkb hd hjk t (.raCmd todo)
  simp only [closeCmd_eq hkb] at hcmd ⊢
  refine ⟨fun e hme => hcmd (hx e (List.mem_cons_of_mem _ hme)) ?_, hn, done ++ [(k, b)], ?_, ?_⟩
  · intro hj
    exact hnk (List.mem_map.2 ⟨e, hme, hj⟩)
  · show s.clientCmd.entries = _
    rw [hd, List.append_assoc]
    rfl
  · show s.closed ++ [(b.conn, s.sect)] = s.unreg ++ _
    rw [he, List.map_append, List.append_assoc]
    rfl

theorem RegInv.removeAllClear (h : RegInv s) {t : Fin n} (ht : s.pc t = .raCmd []) :
    RegInv (s.removeAllClear t) := by
  obtain ⟨-, -, done, hd, he⟩ := h.phase_holds ht rfl
  have hold : holding (s.pc t) = true := by rw [ht]; rfl
  refine h.of_holder (t := t) rfl rfl (holding_unlock (s := s) h.lockPc hold rfl) rfl rfl rfl rfl ?_ ?_ ?_
  · exact fun k b hf => nomatch hf
  · exact fun u j c r b _ hr hb => ⟨⟨hr.nonnull, hr.live, hr.sock⟩, hb.nonnull, hb.live, hb.opened⟩
  · refine phase_free rfl ⟨mapsOk_empty rfl rfl, ?_⟩
    show s.closed = s.unreg ++ s.clientCmd.entries.map _
    rw [he, hd, List.append_nil]

/-! ## All runs -/

theorem regInv_start : RegInv (start n) := by
  constructor
  case phase => exact phase_free rfl ⟨mapsOk_empty rfl rfl, rfl⟩
  case lockPc => exact fun t => ⟨nofun, nofun⟩
  case noOverwrite => rfl
  case closedOnce => exact List.nodup_nil
  case closedLt => exact nofun
  all_goals intros; contradiction

theorem RegInv.move (h : RegInv s) {a : Act n} (m : Move s a s') : RegInv s' := by
  have hp : plain .idle := ⟨rfl, rfl⟩
  cases m with
  | accept ht hk => exact h.accept ht hk
  | construct ht ha hb hx hy => exact h.construct ht ha hb hx hy
  | register ht hl => exact h.register ht hl
  | regIocp ht =>
    refine h.quiet (quiet_regIocp ..) (moved ht rfl ⟨rfl, rfl⟩ ?_)
    split <;> exact ⟨rfl, rfl⟩
  | recvReq ht => exact h.quiet (quiet_recvReq ..) (moved ht rfl ⟨rfl, rfl⟩ ⟨rfl, rfl⟩)
  | wsaRecv ht =>
    refine h.quiet (quiet_wsaRecv ..) ?_
    unfold State.wsaRecv
    split <;> exact moved ht rfl ⟨rfl, rfl⟩ ⟨rfl, rfl⟩
  | recvFailed ht => exact h.quiet (quiet_recvFailed ..) (moved ht rfl ⟨rfl, rfl⟩ ⟨rfl, rfl⟩)
  | @sendReq t k ok ht hl =>
    refine h.quiet (quiet_sendReq ..) ?_
    unfold State.sendReq
    split
    · exact fun u => .inl rfl
    split
    · exact fun u => .inl rfl
    · exact moved ht rfl hp ⟨rfl, rfl⟩
  | complete ho hd => exact h.quiet (quiet_complete ..) fun u => .inl rfl
  | dequeue ht hm =>
    refine h.quiet (quiet_dequeue ..) (moved ht rfl hp ?_)
    split <;> exact ⟨rfl, rfl⟩
  | dispatch ht =>
    refine h.quiet (quiet_dispatch ..) (moved ht rfl ⟨rfl, rfl⟩ ?_)
    split <;> exact ⟨rfl, rfl⟩
  | callBack ht =>
    refine h.quiet (quiet_callBack ..) (moved ht rfl ⟨rfl, rfl⟩ ?_)
    split <;> exact ⟨rfl, rfl⟩
  | parse ht =>
    refine h.quiet (quiet_parse ..) ?_
    unfold State.parse
    split
    · split <;> exact moved ht rfl ⟨rfl, rfl⟩ ⟨rfl, rfl⟩
    · exact moved ht rfl ⟨rfl, rfl⟩ ⟨rfl, rfl⟩
  | removeClients ht => exact h.quiet (quiet_goto ..) (moved ht rfl hp ⟨rfl, rfl⟩)
  | removeDone ht => exact h.quiet (quiet_goto ..) (moved ht rfl ⟨rfl, rfl⟩ hp)
  | removeContext ht hl => exact h.removeContext hl ..
  | removeCmd ht => exact h.removeCmd ht
  | removeErase ht => exact h.removeErase ht
  | removeAllLock ht hl => exact h.removeAllLock hl _
  | removeAllContext ht => exact h.removeAllContext ht
  | removeAllTurn ht => exact h.removeAllTurn ht
  | removeAllCmd ht => exact h.removeAllCmd ht
  | removeAllClear ht => exact h.removeAllClear ht
  | tick => exact h.quiet (by constructor <;> intros <;> trivial) fun u => .inl rfl

theorem regInv (h : (sys n).Reachable s) : RegInv s :=
  h.inv (fun _ hi => hi ▸ regInv_start) fun _ _ _ hi he => hi.move (step_move he)

/-- Every key maps to live objects that no other key shares, and its handle is open. -/
structure Registered (s : State n) (k : Socket) : Prop where
  entries : ∃ r b, s.clientsContext.find k = some r ∧ s.clientCmd.find k = some b ∧ r.addr ≠ 0 ∧ b.addr ≠ 0 ∧
    (s.ctx r.addr).live = true ∧ (s.cmd b.addr).live = true ∧ s.os k = some b.conn
  contextAlone : ∀ j r q, j ≠ k → s.clientsContext.find k = some r → s.clientsContext.find j = some q →
    r.addr ≠ q.addr
  cmdAlone : ∀ j b d, j ≠ k → s.clientCmd.find k = some b → s.clientCmd.find j = some d → b.addr ≠ d.addr

/-- **The registry, whenever the lock is free.** The maps have the same keys; each of them is registered
as it should be; no insertion has found an entry; every connection is closed at most once, in the
section that unregisters it. -/
theorem registry (h : (sys n).Reachable s) :
    s.overwrites = 0 ∧ (s.closed.map Prod.fst).Nodup ∧
    (s.lock = none → s.clientsContext.keys = s.clientCmd.keys ∧ (∀ k ∈ s.clientCmd.keys, Registered s k) ∧
      s.closed = s.unreg) := by
  have hi := regInv h
  refine ⟨hi.noOverwrite, hi.closedOnce, ?_⟩
  intro hl
  obtain ⟨hm, he⟩ := hi.phase_none hl
  refine ⟨?_, ?_, he⟩
  · exact OrdMap.keys_eq fun k => hm.keys k trivial
  · intro k hk
    obtain ⟨b, hb⟩ := OrdMap.mem_keys.1 hk
    obtain ⟨r, hr⟩ := Option.isSome_iff_exists.1 ((hm.keys k trivial).2 (by rw [hb]; rfl))
    have hrk := hm.ctxs k r trivial hr
    have hbk := hm.cmds k b trivial hb
    refine ⟨⟨r, b, hr, hb, hrk.nonnull, hbk.nonnull, hrk.live.1, by rw [hbk.live], hbk.opened⟩, ?_, ?_⟩
    · exact fun j q p hjk hq hp => (hm.ctxs k q trivial hq).ne (hm.ctxs j p trivial hp) hjk.symm
    · exact fun j d e hjk hd he => hi.cmd_ne (hm.cmds k d trivial hd) (hm.cmds j e trivial he) hjk.symm

/-- Two clients accepted by two threads, the first removed and its handle accepted again. -/
theorem registry_reused : ∃ s : State 2, (sys 2).Reachable s ∧ s.clientCmd.keys = [5, 6] ∧
    s.closed = [(0, 3)] ∧ s.lock = none ∧ (s.closed.map Prod.fst).Nodup ∧ s.closed = s.unreg :=
  have hr : (sys 2).Reachable _ := Sys.Reachable.run (acceptRun 0 5 1 1 ++ acceptRun 1 6 2 2 ++
    .removeClients 0 [5] :: [.run 0 true, .run 0 true, .run 0 true, .run 0 true] ++ acceptRun 0 5 1 1) (.init rfl) rfl
  ⟨_, hr, rfl, rfl, rfl, (registry hr).2.1, ((registry hr).2.2 rfl).2.2⟩

end P1Server.Conn
