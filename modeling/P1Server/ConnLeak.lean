import P1Server.HeartCheck

/-!
# What the server owns (`TCPServer.cpp:266-332`)

A thread gets a handle from `accept`, makes a context and command queues for it and registers them; from then on
they belong to the maps, until `RemoveClient` or `RemoveAllClient` takes them down.

* `accounted` — in every state, what is there is in the hands of a thread that adds a client, or in the maps and
  not yet taken down by the thread that holds the lock;
* **`nothing_leaks`** — with the lock free, what is there and in no thread's hands is registered, and where
  `RemoveAllClient` comes to its end, nothing else is there.
-/

namespace P1Server.Conn
open Lib

variable {n : Nat} {s s' : State n}

/-! ## In whose hands -/

/-- A thread that adds a client has made the context at `a`. -/
def HasContext (s : State n) (a : Nat) : Prop := ∃ t k c r b, s.pc t = .built k c r b ∧ r.addr = a

/-- It has made the command queues at `a`. -/
def HasCmd (s : State n) (a : Nat) : Prop := ∃ t k c r b, s.pc t = .built k c r b ∧ b.addr = a

/-- It has accepted the connection `c` under `k`. -/
def HasSocket (s : State n) (k : Socket) (c : Nat) : Prop := ∃ t, pending (s.pc t) = some (k, c)

/-- Where the thread that holds the lock is. -/
def place (s : State n) : Pc := s.lock.elim .idle s.pc

/-- The context is in the map and has not been taken down. -/
def ContextAt (s : State n) (k : Socket) (r : Ref) : Prop :=
  match place s with
  | .raCtx todo => (k, r) ∈ todo
  | .raCmd _ => False
  | _ => s.clientsContext.find k = some r

/-- The command queues are in the map and have not been taken down. -/
def QueuesAt (s : State n) (k : Socket) (b : Cref) : Prop :=
  match place s with
  | .rmClosed j _ => k ≠ j ∧ s.clientCmd.find k = some b
  | .raCmd todo => (k, b) ∈ todo
  | _ => s.clientCmd.find k = some b

structure Accounted (s : State n) : Prop where
  ctx : ∀ a, (s.ctx a).live = true → HasContext s a ∨ ∃ k r, ContextAt s k r ∧ r.addr = a
  cmd : ∀ a, (s.cmd a).live = true → HasCmd s a ∨ ∃ k b, QueuesAt s k b ∧ b.addr = a
  os : ∀ k c, s.os k = some c → HasSocket s k c ∨ ∃ b, QueuesAt s k b ∧ b.conn = c

/-! ## Where the holder is -/

theorem place_free (hl : s.lock = none) : place s = .idle := by rw [place, hl]; rfl

theorem RegInv.place (h : RegInv s) {t : Fin n} {p : Pc} (ht : s.pc t = p) (hp : holding p = true) :
    Conn.place s = p := by
  rw [Conn.place, (h.lockPc t).1 (ht ▸ hp)]
  exact ht

theorem RegInv.place_eq (h : RegInv s) (hl : s'.lock = s.lock)
    (hpc : ∀ u, holding (s.pc u) = true → s'.pc u = s.pc u) : Conn.place s' = Conn.place s := by
  rw [Conn.place, Conn.place, hl]
  cases ho : s.lock with
  | none => rfl
  | some u => exact hpc u ((h.lockPc u).2 ho)

theorem pc_update {t : Fin n} {p : Pc} (ht : pending (s.pc t) = none) {u : Fin n} (hu : pending (s.pc u) ≠ none) :
    Function.update s.pc t p u = s.pc u :=
  Function.update_of_ne (by rintro rfl; exact hu ht) ..

/-! ## The steps that make nothing -/

/-- What is taken down is no longer there. -/
theorem Accounted.of (h : Accounted s) (hpc : ∀ u, pending (s.pc u) ≠ none → s'.pc u = s.pc u)
    (hx : ∀ a, (s'.ctx a).live = true → (s.ctx a).live = true ∧
      ∀ k r, r.addr = a → ContextAt s k r → ContextAt s' k r)
    (hc : ∀ a, (s'.cmd a).live = true → (s.cmd a).live = true ∧ ∀ k b, b.addr = a → QueuesAt s k b → QueuesAt s' k b)
    (ho : ∀ k c, s'.os k = some c → s.os k = some c ∧ ∀ b, QueuesAt s k b → QueuesAt s' k b) : Accounted s' := by
  have hbuilt : ∀ {u k c r b}, s.pc u = .built k c r b → s'.pc u = .built k c r b := by
    intro u k c r b hu
    rw [hpc u (by rw [hu]; exact Option.some_ne_none _), hu]
  refine ⟨?_, ?_, ?_⟩
  · intro a ha
    obtain ⟨hlive, hkept⟩ := hx a ha
    rcases h.ctx a hlive with ⟨u, k, c, r, b, hu, hr⟩ | ⟨k, r, hk, hr⟩
    · exact .inl ⟨u, k, c, r, b, hbuilt hu, hr⟩
    · exact .inr ⟨k, r, hkept k r hr hk, hr⟩
  · intro a ha
    obtain ⟨hlive, hkept⟩ := hc a ha
    rcases h.cmd a hlive with ⟨u, k, c, r, b, hu, hb⟩ | ⟨k, b, hk, hb⟩
    · exact .inl ⟨u, k, c, r, b, hbuilt hu, hb⟩
    · exact .inr ⟨k, b, hkept k b hb hk, hb⟩
  · intro k c hk
    obtain ⟨hopen, hkept⟩ := ho k c hk
    rcases h.os k c hopen with ⟨u, hu⟩ | ⟨b, hb, hconn⟩
    · exact .inl ⟨u, by rw [hpc u (by rw [hu]; exact Option.some_ne_none _), hu]⟩
    · exact .inr ⟨b, hkept b hb, hconn⟩

theorem Accounted.quiet (h : Accounted s) (hr : RegInv s) (q : Quiet s s')
    (hpc : ∀ u, s'.pc u = s.pc u ∨ plain (s.pc u) ∧ plain (s'.pc u)) : Accounted s' := by
  have hp : place s' = place s := hr.place_eq q.lock fun u hu =>
    (hpc u).resolve_right fun hu' => by rw [hu'.1.1] at hu; cases hu
  have hxs : ∀ k r, ContextAt s k r → ContextAt s' k r := by
    intro k r hk
    rwa [ContextAt, hp, q.clientsContext]
  have hcs : ∀ k b, QueuesAt s k b → QueuesAt s' k b := by
    intro k b hk
    rwa [QueuesAt, hp, q.clientCmd]
  refine h.of (fun u hu => (hpc u).resolve_right fun hu' => hu hu'.1.2) ?_ ?_ ?_
  · exact fun a ha => ⟨(q.ctx a).2.1 ▸ ha, fun k r _ => hxs k r⟩
  · exact fun a ha => ⟨q.cmd ▸ ha, fun k b _ => hcs k b⟩
  · exact fun k c hk => ⟨q.os ▸ hk, hcs k⟩

/-! ### `RemoveClient` -/

theorem Accounted.removeContext (h : Accounted s) (hl : s.lock = none) {t : Fin n} {k : Socket} {ks : List Socket}
    (ht : s.pc t = .remove (k :: ks)) : Accounted (s.removeContext t k ks) := by
  have hp : place (s.removeContext t k ks) = .rmHeld k ks := Function.update_self ..
  refine h.of ?_ ?_ ?_ ?_
  · exact fun u hu => pc_update (by rw [ht]; rfl) hu
  · intro a ha
    -- the object at `a` is not the one that is deleted
    have hne : (s.ctx a).live = true ∧ ∀ r, s.clientsContext.find k = some r → r.addr ≠ a := by
      cases hf : s.clientsContext.find k with
      | none =>
        simp only [State.removeContext, State.goto, hf] at ha
        exact ⟨ha, fun r hr => absurd hr (Option.some_ne_none r).symm⟩
      | some r =>
        simp only [State.removeContext, State.goto, hf] at ha
        rcases eq_or_ne a r.addr with rfl | hne
        · rw [Function.update_self] at ha
          cases ha
        · rw [Function.update_of_ne hne] at ha
          refine ⟨ha, fun q hq => ?_⟩
          cases hq
          exact hne.symm
    refine ⟨hne.1, fun j r hr hj => ?_⟩
    rw [ContextAt, place_free hl] at hj
    rw [ContextAt, hp]
    show (s.clientsContext.erase k).find j = some r
    rwa [OrdMap.find_erase_ne]
    rintro rfl
    exact hne.2 r hj hr
  · refine fun a ha => ⟨ha, fun j b _ hj => ?_⟩
    rw [QueuesAt, place_free hl] at hj
    rwa [QueuesAt, hp]
  · refine fun j c hj => ⟨hj, fun b hb => ?_⟩
    rw [QueuesAt, place_free hl] at hb
    rwa [QueuesAt, hp]

/-- Behind `closesocket(k)` the handle is closed, and nothing else has been opened. -/
theorem os_closeCmd {j k : Socket} {b : Cref} {c : Nat} (h : (s.closeCmd k b).os j = some c) :
    s.os j = some c ∧ j ≠ k := by
  unfold State.closeCmd State.closeSocket at h
  split at h
  case h_1 hk => exact ⟨h, by rintro rfl; exact absurd (hk.symm.trans h) (by simp)⟩
  case h_2 =>
    rcases at_update h with ⟨-, hn⟩ | ⟨hne, hj⟩
    · cases hn
    · exact ⟨hj, hne⟩

theorem cmd_closeCmd {k : Socket} {b : Cref} {a : Nat} (h : ((s.closeCmd k b).cmd a).live = true) :
    (s.cmd a).live = true ∧ a ≠ b.addr := by
  have he : (s.closeCmd k b).cmd = Function.update s.cmd b.addr { s.cmd b.addr with live := false } := by
    unfold State.closeCmd State.closeSocket
    split <;> rfl
  rw [he] at h
  rcases eq_or_ne a b.addr with rfl | hne
  · rw [Function.update_self] at h
    cases h
  · exact ⟨by rwa [Function.update_of_ne hne] at h, hne⟩

theorem closeCmd_keeps (k : Socket) (b : Cref) : (s.closeCmd k b).lock = s.lock ∧ (s.closeCmd k b).ctx = s.ctx ∧
    (s.closeCmd k b).clientsContext = s.clientsContext := by
  unfold State.closeCmd State.closeSocket
  split <;> exact ⟨rfl, rfl, rfl⟩

theorem Accounted.removeCmd (h : Accounted s) (hr : RegInv s) {t : Fin n} {k : Socket} {ks : List Socket}
    (ht : s.pc t = .rmHeld k ks) : Accounted (s.removeCmd t k ks) := by
  have hp : place s = .rmHeld k ks := hr.place ht rfl
  -- what `closeCmd` has taken down, if there was an entry
  obtain ⟨s₁, he, hl, hpc, hctx, hx, hq, hcmd, hos⟩ : ∃ s₁ : State n, s.removeCmd t k ks = s₁.goto t (.rmClosed k ks) ∧
      s₁.lock = s.lock ∧ s₁.pc = s.pc ∧ s₁.ctx = s.ctx ∧ s₁.clientsContext = s.clientsContext ∧
      s₁.clientCmd = s.clientCmd ∧
      (∀ a, (s₁.cmd a).live = true → (s.cmd a).live = true ∧ ∀ b, s.clientCmd.find k = some b → a ≠ b.addr) ∧
      ∀ j c, s₁.os j = some c → s.os j = some c ∧ ∀ b, s.clientCmd.find k = some b → j ≠ k := by
    cases hf : s.clientCmd.find k with
    | none =>
      refine ⟨s, by rw [State.removeCmd, hf], rfl, rfl, rfl, rfl, rfl, ?_, ?_⟩
      · exact fun a ha => ⟨ha, fun b hb => absurd hb (Option.some_ne_none b).symm⟩
      · exact fun j c hj => ⟨hj, fun b hb => absurd hb (Option.some_ne_none b).symm⟩
    | some b =>
      obtain ⟨hl, hctx, hx⟩ := closeCmd_keeps (s := s) k b
      refine ⟨s.closeCmd k b, by rw [State.removeCmd, hf], hl, pc_closeCmd .., hctx, hx, clientCmd_closeCmd .., ?_, ?_⟩
      · exact fun a ha => (cmd_closeCmd ha).imp_right fun hne d hd => Option.some.inj hd ▸ hne
      · exact fun j c hj => (os_closeCmd hj).imp_right fun hne _ _ => hne
  rw [he]
  have hp' : place (s₁.goto t (.rmClosed k ks)) = .rmClosed k ks := by
    rw [place, State.goto, hl, (hr.lockPc t).1 (by rw [ht]; rfl)]
    exact Function.update_self ..
  refine h.of ?_ ?_ ?_ ?_
  · intro u hu
    rw [State.goto, hpc]
    exact pc_update (by rw [ht]; rfl) hu
  · refine fun a ha => ⟨hctx ▸ ha, fun j r _ hj => ?_⟩
    rw [ContextAt, hp] at hj
    rw [ContextAt, hp']
    exact hx ▸ hj
  · intro a ha
    obtain ⟨hlive, hne⟩ := hcmd a ha
    refine ⟨hlive, fun j d hd hj => ?_⟩
    rw [QueuesAt, hp] at hj
    rw [QueuesAt, hp']
    exact ⟨by rintro rfl; exact hne d hj hd.symm, hq ▸ hj⟩
  · intro j c ho
    obtain ⟨hopen, hne⟩ := hos j c ho
    refine ⟨hopen, fun d hj => ?_⟩
    rw [QueuesAt, hp] at hj
    rw [QueuesAt, hp']
    exact ⟨by rintro rfl; exact hne d hj rfl, hq ▸ hj⟩

theorem Accounted.removeErase (h : Accounted s) (hr : RegInv s) {t : Fin n} {k : Socket} {ks : List Socket}
    (ht : s.pc t = .rmClosed k ks) : Accounted (s.removeErase t k ks) := by
  have hp : place s = .rmClosed k ks := hr.place ht rfl
  have hp' : place (s.removeErase t k ks) = .idle := place_free rfl
  have hqs : ∀ j b, QueuesAt s j b → QueuesAt (s.removeErase t k ks) j b := by
    intro j b hj
    rw [QueuesAt, hp] at hj
    rw [QueuesAt, hp']
    show (s.clientCmd.erase k).find j = some b
    rw [OrdMap.find_erase_ne hj.1]
    exact hj.2
  refine h.of ?_ ?_ ?_ ?_
  · exact fun u hu => pc_update (by rw [ht]; rfl) hu
  · refine fun a ha => ⟨ha, fun j r _ hj => ?_⟩
    rw [ContextAt, hp] at hj
    rwa [ContextAt, hp']
  · exact fun a ha => ⟨ha, fun j b _ => hqs j b⟩
  · exact fun j c hj => ⟨hj, hqs j⟩

/-! ### `RemoveAllClient` -/

theorem Accounted.removeAllLock (h : Accounted s) (hl : s.lock = none) {t : Fin n} (ht : s.pc t = .idle) :
    Accounted (s.removeAllLock t) := by
  have hp : place (s.removeAllLock t) = .raCtx s.clientsContext.entries := Function.update_self ..
  have hqs : ∀ j b, QueuesAt s j b → QueuesAt (s.removeAllLock t) j b := by
    intro j b hj
    rw [QueuesAt, place_free hl] at hj
    rwa [QueuesAt, hp]
  refine h.of (fun u hu => pc_update (by rw [ht]; rfl) hu) ?_ ?_ ?_
  · refine fun a ha => ⟨ha, fun j r _ hj => ?_⟩
    rw [ContextAt, place_free hl] at hj
    rw [ContextAt, hp]
    exact OrdMap.mem_entries.2 hj
  · exact fun a ha => ⟨ha, fun j b _ => hqs j b⟩
  · exact fun j c hj => ⟨hj, hqs j⟩

theorem Accounted.removeAllContext (h : Accounted s) (hr : RegInv s) {t : Fin n} {e : Socket × Ref}
    {todo : List (Socket × Ref)} (ht : s.pc t = .raCtx (e :: todo)) :
    Accounted (s.removeAllContext t e.2 todo) := by
  have hp : place s = .raCtx (e :: todo) := hr.place ht rfl
  have hp' : place (s.removeAllContext t e.2 todo) = .raCtx todo :=
    (congrArg (Option.elim · _ _) ((hr.lockPc t).1 (by rw [ht]; rfl))).trans (Function.update_self ..)
  have hqs : ∀ j b, QueuesAt s j b → QueuesAt (s.removeAllContext t e.2 todo) j b := by
    intro j b hj
    rw [QueuesAt, hp] at hj
    rwa [QueuesAt, hp']
  refine h.of (fun u hu => pc_update (s := s) (by rw [ht]; rfl) hu) ?_ ?_ ?_
  · intro a ha
    have hne : a ≠ e.2.addr := by
      rintro rfl
      simp only [State.removeAllContext, State.setCtx, State.goto, Function.update_self] at ha
      cases ha
    simp only [State.removeAllContext, State.setCtx, State.goto, Function.update_of_ne hne] at ha
    refine ⟨ha, fun j r hjr hj => ?_⟩
    rw [ContextAt, hp] at hj
    rw [ContextAt, hp']
    refine (List.mem_cons.1 hj).resolve_left ?_
    rintro rfl
    exact hne hjr.symm
  · exact fun a ha => ⟨ha, fun j b _ => hqs j b⟩
  · exact fun j c hj => ⟨hj, hqs j⟩

/-- The contexts are all taken down. -/
theorem Accounted.removeAllTurn (h : Accounted s) (hr : RegInv s) {t : Fin n} (ht : s.pc t = .raCtx []) :
    Accounted (s.goto t (.raCmd s.clientCmd.entries)) := by
  have hp : place s = .raCtx [] := hr.place ht rfl
  have hp' : place (s.goto t (.raCmd s.clientCmd.entries)) = .raCmd s.clientCmd.entries :=
    (congrArg (Option.elim · _ _) ((hr.lockPc t).1 (by rw [ht]; rfl))).trans (Function.update_self ..)
  have hqs : ∀ j b, QueuesAt s j b → QueuesAt (s.goto t (.raCmd s.clientCmd.entries)) j b := by
    intro j b hj
    rw [QueuesAt, hp] at hj
    rw [QueuesAt, hp']
    exact OrdMap.mem_entries.2 hj
  refine h.of (fun u hu => pc_update (by rw [ht]; rfl) hu) ?_ ?_ ?_
  · refine fun a ha => ⟨ha, fun j r _ hj => ?_⟩
    rw [ContextAt, hp] at hj
    cases hj
  · exact fun a ha => ⟨ha, fun j b _ => hqs j b⟩
  · exact fun j c hj => ⟨hj, hqs j⟩

theorem Accounted.removeAllCmd (h : Accounted s) (hr : RegInv s) {t : Fin n} {k : Socket} {b : Cref}
    {todo : List (Socket × Cref)} (ht : s.pc t = .raCmd ((k, b) :: todo)) : Accounted (s.removeAllCmd t k b todo) := by
  obtain ⟨hl, hctx, -⟩ := closeCmd_keeps (s := s) k b
  have hp : place s = .raCmd ((k, b) :: todo) := hr.place ht rfl
  have hp' : place (s.removeAllCmd t k b todo) = .raCmd todo := by
    rw [place, State.removeAllCmd, State.goto, hl, (hr.lockPc t).1 (by rw [ht]; rfl)]
    exact Function.update_self ..
  refine h.of ?_ ?_ ?_ ?_
  · intro u hu
    rw [pc_removeAllCmd]
    exact pc_update (by rw [ht]; rfl) hu
  · refine fun a ha => ⟨hctx ▸ ha, fun j r _ hj => ?_⟩
    rw [ContextAt, hp] at hj
    exact hj.elim
  · intro a ha
    obtain ⟨hlive, hne⟩ := cmd_closeCmd ha
    refine ⟨hlive, fun j d hd hj => ?_⟩
    rw [QueuesAt, hp] at hj
    rw [QueuesAt, hp']
    refine (List.mem_cons.1 hj).resolve_left ?_
    rintro ⟨⟩
    exact hne hd.symm
  · intro j c ho
    obtain ⟨hopen, hne⟩ := os_closeCmd ho
    refine ⟨hopen, fun d hj => ?_⟩
    rw [QueuesAt, hp] at hj
    rw [QueuesAt, hp']
    refine (List.mem_cons.1 hj).resolve_left ?_
    rintro ⟨⟩
    exact hne rfl

theorem Accounted.removeAllClear (h : Accounted s) (hr : RegInv s) {t : Fin n} (ht : s.pc t = .raCmd []) :
    Accounted (s.removeAllClear t) := by
  have hp : place s = .raCmd [] := hr.place ht rfl
  have hq : ∀ j b, ¬ QueuesAt s j b := by
    intro j b hj
    rw [QueuesAt, hp] at hj
    cases hj
  refine h.of (fun u hu => pc_update (by rw [ht]; rfl) hu) ?_ ?_ ?_
  · refine fun a ha => ⟨ha, fun j r _ hj => ?_⟩
    rw [ContextAt, hp] at hj
    exact hj.elim
  · exact fun a ha => ⟨ha, fun j b _ hj => absurd hj (hq j b)⟩
  · exact fun j c hj => ⟨hj, fun b hb => absurd hb (hq j b)⟩

/-! ## The steps that make something -/

theorem Accounted.accept (h : Accounted s) (hr : RegInv s) {t : Fin n} {k : Socket} (ht : s.pc t = .idle) :
    Accounted (s.accept t k) := by
  have hp : place (s.accept t k) = place s := hr.place_eq rfl fun u hu =>
    Function.update_of_ne (by rintro rfl; rw [ht] at hu; cases hu) ..
  have hpc : ∀ u, pending (s.pc u) ≠ none → (s.accept t k).pc u = s.pc u := fun u hu =>
    pc_update (by rw [ht]; rfl) hu
  refine ⟨?_, ?_, ?_⟩
  · intro a ha
    rcases h.ctx a ha with ⟨u, j, c, r, b, hu, hra⟩ | ⟨j, r, hj, hra⟩
    · exact .inl ⟨u, j, c, r, b, by rw [hpc u (by rw [hu]; exact Option.some_ne_none _), hu], hra⟩
    · exact .inr ⟨j, r, by rwa [ContextAt, hp], hra⟩
  · intro a ha
    rcases h.cmd a ha with ⟨u, j, c, r, b, hu, hba⟩ | ⟨j, b, hj, hba⟩
    · exact .inl ⟨u, j, c, r, b, by rw [hpc u (by rw [hu]; exact Option.some_ne_none _), hu], hba⟩
    · exact .inr ⟨j, b, by rwa [QueuesAt, hp], hba⟩
  · intro j c hj
    rcases at_update hj with ⟨rfl, hc⟩ | ⟨-, hj⟩
    · refine .inl ⟨t, ?_⟩
      show pending (Function.update s.pc t _ t) = _
      rw [Function.update_self, pending, Option.some.inj hc]
    · rcases h.os j c hj with ⟨u, hu⟩ | ⟨b, hb, hconn⟩
      · exact .inl ⟨u, by rw [hpc u (by rw [hu]; exact Option.some_ne_none _), hu]⟩
      · exact .inr ⟨b, by rwa [QueuesAt, hp], hconn⟩

theorem Accounted.construct (h : Accounted s) (hr : RegInv s) {t : Fin n} {k : Socket} {c a b : Nat} {behind : Mem}
    (ht : s.pc t = .accepted k c) : Accounted (s.construct t k c a b behind) := by
  have hp : place (s.construct t k c a b behind) = place s := hr.place_eq rfl fun u hu =>
    Function.update_of_ne (by rintro rfl; rw [ht] at hu; cases hu) ..
  have hat : (s.construct t k c a b behind).pc t = .built k c ⟨a, s.nextInst⟩ ⟨b, c⟩ := Function.update_self ..
  have hpc : ∀ u, u ≠ t → (s.construct t k c a b behind).pc u = s.pc u := fun u hu => Function.update_of_ne hu ..
  have hbuilt : ∀ {u j c' r d}, s.pc u = .built j c' r d → (s.construct t k c a b behind).pc u = .built j c' r d := by
    intro u j c' r d hu
    rw [hpc u (by rintro rfl; rw [ht] at hu; cases hu), hu]
  refine ⟨?_, ?_, ?_⟩
  · intro x hx
    rcases eq_or_ne x a with rfl | hne
    · exact .inl ⟨t, k, c, _, _, hat, rfl⟩
    · simp only [State.construct, State.goto, Function.update_of_ne hne] at hx
      rcases h.ctx x hx with ⟨u, j, c', r, d, hu, hra⟩ | ⟨j, r, hj, hra⟩
      · exact .inl ⟨u, j, c', r, d, hbuilt hu, hra⟩
      · exact .inr ⟨j, r, by rwa [ContextAt, hp], hra⟩
  · intro x hx
    rcases eq_or_ne x b with rfl | hne
    · exact .inl ⟨t, k, c, _, _, hat, rfl⟩
    · simp only [State.construct, State.goto, Function.update_of_ne hne] at hx
      rcases h.cmd x hx with ⟨u, j, c', r, d, hu, hba⟩ | ⟨j, d, hj, hba⟩
      · exact .inl ⟨u, j, c', r, d, hbuilt hu, hba⟩
      · exact .inr ⟨j, d, by rwa [QueuesAt, hp], hba⟩
  · intro j c' hj
    rcases h.os j c' hj with ⟨u, hu⟩ | ⟨d, hd, hconn⟩
    · rcases eq_or_ne u t with rfl | hne
      · rw [ht] at hu
        cases hu
        exact .inl ⟨u, by rw [hat]; rfl⟩
      · exact .inl ⟨u, by rw [hpc u hne, hu]⟩
    · exact .inr ⟨d, by rwa [QueuesAt, hp], hconn⟩

/-- What was in the thread's hands is in the maps. -/
theorem Accounted.register (h : Accounted s) (hr : RegInv s) {t : Fin n} {k : Socket} {c : Nat} {r : Ref} {b : Cref}
    (ht : s.pc t = .built k c r b) (hl : s.lock = none) : Accounted (s.register t k r b) := by
  have hp' : place (s.register t k r b) = .idle := place_free hl
  obtain ⟨hx, hq⟩ := hr.unregistered hl (t := t) (k := k) (c := c) (by rw [ht]; rfl)
  have hpc : ∀ u, u ≠ t → (s.register t k r b).pc u = s.pc u := fun u hu => Function.update_of_ne hu ..
  have hctx : ∀ j q, (s.clientsContext.set k r).find j = some q → ContextAt (s.register t k r b) j q := by
    intro j q hj
    rwa [ContextAt, hp']
  have hqs : ∀ j d, (s.clientCmd.set k b).find j = some d → QueuesAt (s.register t k r b) j d := by
    intro j d hj
    rwa [QueuesAt, hp']
  have hold : ∀ j q, ContextAt s j q → ContextAt (s.register t k r b) j q := by
    intro j q hj
    rw [ContextAt, place_free hl] at hj
    exact hctx j q ((OrdMap.find_set_ne (by rintro rfl; exact absurd (hx.symm.trans hj) (by simp))).trans hj)
  have holdq : ∀ j d, QueuesAt s j d → QueuesAt (s.register t k r b) j d := by
    intro j d hj
    rw [QueuesAt, place_free hl] at hj
    exact hqs j d ((OrdMap.find_set_ne (by rintro rfl; exact absurd (hq.symm.trans hj) (by simp))).trans hj)
  refine ⟨?_, ?_, ?_⟩
  · intro a ha
    rcases h.ctx a ha with ⟨u, j, c', q, d, hu, hra⟩ | ⟨j, q, hj, hra⟩
    · rcases eq_or_ne u t with rfl | hne
      · rw [ht] at hu
        cases hu
        exact .inr ⟨k, r, hctx k r (OrdMap.find_set_self ..), hra⟩
      · exact .inl ⟨u, j, c', q, d, by rw [hpc u hne, hu], hra⟩
    · exact .inr ⟨j, q, hold j q hj, hra⟩
  · intro a ha
    rcases h.cmd a ha with ⟨u, j, c', q, d, hu, hba⟩ | ⟨j, d, hj, hba⟩
    · rcases eq_or_ne u t with rfl | hne
      · rw [ht] at hu
        cases hu
        exact .inr ⟨k, b, hqs k b (OrdMap.find_set_self ..), hba⟩
      · exact .inl ⟨u, j, c', q, d, by rw [hpc u hne, hu], hba⟩
    · exact .inr ⟨j, d, holdq j d hj, hba⟩
  · intro j c' hj
    rcases h.os j c' hj with ⟨u, hu⟩ | ⟨d, hd, hconn⟩
    · rcases eq_or_ne u t with rfl | hne
      · rw [ht] at hu
        cases hu
        exact .inr ⟨b, hqs k b (OrdMap.find_set_self ..), (hr.built u k c r b ht).2.2⟩
      · exact .inl ⟨u, by rw [hpc u hne, hu]⟩
    · exact .inr ⟨d, holdq j d hd, hconn⟩

/-! ## All runs -/

theorem Accounted.move (h : Accounted s) (hr : RegInv s) {a : Act n} (m : Move s a s') : Accounted s' := by
  have hp : plain .idle := ⟨rfl, rfl⟩
  cases m with
  | accept ht _ => exact h.accept hr ht
  | construct ht => exact h.construct hr ht
  | register ht hl => exact h.register hr ht hl
  | regIocp ht =>
    refine h.quiet hr (quiet_regIocp ..) (moved ht rfl ⟨rfl, rfl⟩ ?_)
    split <;> exact ⟨rfl, rfl⟩
  | recvReq ht => exact h.quiet hr (quiet_recvReq ..) (moved ht rfl ⟨rfl, rfl⟩ ⟨rfl, rfl⟩)
  | wsaRecv ht =>
    refine h.quiet hr (quiet_wsaRecv ..) ?_
    unfold State.wsaRecv
    split <;> exact moved ht rfl ⟨rfl, rfl⟩ ⟨rfl, rfl⟩
  | recvFailed ht => exact h.quiet hr (quiet_recvFailed ..) (moved ht rfl ⟨rfl, rfl⟩ ⟨rfl, rfl⟩)
  | sendReq ht _ =>
    refine h.quiet hr (quiet_sendReq ..) ?_
    unfold State.sendReq
    split
    · exact fun u => .inl rfl
    split
    · exact fun u => .inl rfl
    · exact moved ht rfl hp ⟨rfl, rfl⟩
  | complete _ _ => exact h.quiet hr (quiet_complete ..) fun u => .inl rfl
  | dequeue ht _ =>
    refine h.quiet hr (quiet_dequeue ..) (moved ht rfl hp ?_)
    split <;> exact ⟨rfl, rfl⟩
  | dispatch ht =>
    refine h.quiet hr (quiet_dispatch ..) (moved ht rfl ⟨rfl, rfl⟩ ?_)
    split <;> exact ⟨rfl, rfl⟩
  | callBack ht =>
    refine h.quiet hr (quiet_callBack ..) (moved ht rfl ⟨rfl, rfl⟩ ?_)
    split <;> exact ⟨rfl, rfl⟩
  | parse ht =>
    refine h.quiet hr (quiet_parse ..) ?_
    unfold State.parse
    split
    · split <;> exact moved ht rfl ⟨rfl, rfl⟩ ⟨rfl, rfl⟩
    · exact moved ht rfl ⟨rfl, rfl⟩ ⟨rfl, rfl⟩
  | removeClients ht => exact h.quiet hr (quiet_goto ..) (moved ht rfl hp ⟨rfl, rfl⟩)
  | removeDone ht => exact h.quiet hr (quiet_goto ..) (moved ht rfl ⟨rfl, rfl⟩ hp)
  | removeContext ht hl => exact h.removeContext hl ht
  | removeCmd ht => exact h.removeCmd hr ht
  | removeErase ht => exact h.removeErase hr ht
  | removeAllLock ht hl => exact h.removeAllLock hl ht
  | removeAllContext ht => exact h.removeAllContext hr ht
  | removeAllTurn ht => exact h.removeAllTurn hr ht
  | removeAllCmd ht => exact h.removeAllCmd hr ht
  | removeAllClear ht => exact h.removeAllClear hr ht
  | tick => exact h.quiet hr (by constructor <;> intros <;> trivial) fun u => .inl rfl

theorem accounted (h : (sys n).Reachable s) : Accounted s := by
  refine Sys.Reach.inv_of (fun s hs => regInv hs) ?_ (fun s a s' hr _ hi _ he => hi.move hr (step_move he)) h
  rintro s rfl
  exact ⟨nofun, nofun, nofun⟩

/-- **Nothing leaks.** While nobody holds the lock, every context, all command queues and every open handle are in the
hands of a thread that adds a client, or registered; and when `RemoveAllClient` has come to its end, only the first of
the two is left. -/
theorem nothing_leaks (h : (sys n).Reachable s) :
    (s.lock = none →
      (∀ a, (s.ctx a).live = true → HasContext s a ∨ ∃ k r, s.clientsContext.find k = some r ∧ r.addr = a) ∧
      (∀ a, (s.cmd a).live = true → HasCmd s a ∨ ∃ k b, s.clientCmd.find k = some b ∧ b.addr = a) ∧
      ∀ k c, s.os k = some c → HasSocket s k c ∨ ∃ b, s.clientCmd.find k = some b ∧ b.conn = c) ∧
    ∀ t, s.pc t = .raCmd [] →
      (∀ a, (s.ctx a).live = true → HasContext s a) ∧ (∀ a, (s.cmd a).live = true → HasCmd s a) ∧
      ∀ k c, s.os k = some c → HasSocket s k c := by
  have hi := accounted h
  refine ⟨?_, ?_⟩
  · intro hl
    have hp := place_free hl
    refine ⟨fun a ha => ?_, fun a ha => ?_, fun k c hk => ?_⟩
    · simpa only [ContextAt, hp] using hi.ctx a ha
    · simpa only [QueuesAt, hp] using hi.cmd a ha
    · simpa only [QueuesAt, hp] using hi.os k c hk
  · intro t ht
    have hp : place s = .raCmd [] := (regInv h).place ht rfl
    refine ⟨fun a ha => ?_, fun a ha => ?_, fun k c hk => ?_⟩
    · simpa [ContextAt, hp] using hi.ctx a ha
    · simpa [QueuesAt, hp] using hi.cmd a ha
    · simpa [QueuesAt, hp] using hi.os k c hk

/-- Two clients are removed while a third one is being added: its handle is still open. -/
theorem nothing_leaks_two : ∃ s : State 2, (sys 2).Reachable s ∧ s.pc 0 = .raCmd [] ∧ s.clientCmd.keys = [5, 6] ∧
    s.os 7 = some 2 ∧ s.os 5 = none ∧ ∀ k c, s.os k = some c → HasSocket s k c :=
  have hr : (sys 2).Reachable _ := Sys.Reachable.run (acceptRun 0 5 1 1 ++ acceptRun 1 6 2 2 ++
    [.accept 1 7, .removeAll 0, .run 0 true, .run 0 true, .run 0 true, .run 0 true, .run 0 true]) (.init rfl) rfl
  ⟨_, hr, rfl, rfl, rfl, rfl, ((nothing_leaks hr).2 0 rfl).2.2⟩

end P1Server.Conn
