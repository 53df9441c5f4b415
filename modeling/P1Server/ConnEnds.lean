import Mathlib.Data.Set.Finite.Lattice
import P1Server.ConnLeak

/-!
# The calls of `TCPServer` come to an end

A call is a thread's way from one `idle` to the next: `AcceptThread` and `AddNewClient`, a completion and its
`RecvReq`, a failed `SendReq`, the calls of `RemoveClient`, `RemoveAllClient`.

* `RegInv.work` — a step of a thread leaves it less to do, and the steps of the others do not change that;
* **`calls_end`** — a thread takes no more steps than it has to do, and while it is in a call, it can go on, or the one
  that holds the lock can.
-/

namespace P1Server.Conn
open Lib

variable {n : Nat} {s s' : State n}

/-- The thread begins a call. -/
def begins (t : Fin n) : Act n → Bool
  | .accept u _ | .sendReq u _ _ | .dequeue u _ | .removeClients u _ | .removeAll u => u = t
  | _ => false

/-- The thread takes a step in a call. -/
def goesOn (t : Fin n) : Act n → Bool
  | .construct u _ _ _ | .run u _ => u = t
  | _ => false

/-- The steps a thread has still to take at each place, at most: a frame is one byte or more. -/
def work (s : State n) : Pc → Nat
  | .idle => 0
  | .remove ks => 3 * ks.length + 1
  | .rmClosed _ ks => 3 * ks.length + 2
  | .rmHeld _ ks => 3 * ks.length + 3
  | .recvFailed _ => 5
  | .wsaRecv _ _ => 6
  | .recvReq _ _ => 7
  | .regIocp _ => 8
  | .built _ _ _ _ => 9
  | .accepted _ _ => 10
  | .parse _ _ _ offset => SOCKET_BUFFER_SIZE - offset + 8
  | .callBack _ _ => SOCKET_BUFFER_SIZE + 9
  | .dispatch _ _ => SOCKET_BUFFER_SIZE + 10
  | .raCmd todo => todo.length + 1
  | .raCtx todo => todo.length + s.clientCmd.entries.length + 2

/-! ## What a step leaves to do -/

theorem recvRound_pos {buf : Mem} {tick : UInt32} {offset o len : Nat} {mainCmd subCmd : UInt16}
    {made : Option (Nat × TestNetCmd)} (h : recvRound buf tick offset = .frame o len mainCmd subCmd made) : 0 < len := by
  unfold recvRound at h
  split at h
  case isTrue => cases h
  case isFalse hz =>
    cases h
    exact le16_pos hz

/-- While `RemoveAllClient` deletes contexts, no client comes or goes. -/
theorem RegInv.clients (h : RegInv s) {a : Act n} (m : Move s a s') {t : Fin n} {todo : List (Socket × Ref)}
    (ht : s.pc t = .raCtx todo) : s'.clientCmd = s.clientCmd := by
  have hlock : s.lock = some t := (h.lockPc t).1 (by rw [ht]; rfl)
  -- another thread does not hold the lock
  have hother : ∀ {u : Fin n} {p : Pc}, s.pc u = p → holding p = true → s.pc t = p := by
    intro u p hu hp
    have hul := (h.lockPc u).1 (hu ▸ hp)
    rw [Option.some.inj (hlock.symm.trans hul), hu]
  cases m with
  | register hu hl => exact absurd (hl.symm.trans hlock) (by simp)
  | removeErase hu => exact absurd (ht.symm.trans (hother hu rfl)) (by simp)
  | removeAllClear hu => exact absurd (ht.symm.trans (hother hu rfl)) (by simp)
  | wsaRecv =>
    unfold State.wsaRecv
    split <;> rfl
  | sendReq =>
    unfold State.sendReq
    split
    · rfl
    · split <;> rfl
  | parse =>
    unfold State.parse
    split
    · split <;> rfl
    · rfl
  | removeCmd =>
    simp only [State.removeCmd, State.goto]
    split
    · exact clientCmd_closeCmd ..
    · rfl
  | removeAllCmd => exact clientCmd_closeCmd ..
  | _ => rfl

/-- A thread that stays where it is has no more to do for it. -/
theorem RegInv.work_stays (h : RegInv s) {a : Act n} (m : Move s a s') {t : Fin n} (ht : s'.pc t = s.pc t) :
    work s' (s'.pc t) = work s (s.pc t) := by
  rw [ht]
  cases hp : s.pc t with
  | raCtx todo => simp only [work, h.clients m hp]
  | _ => rfl

theorem RegInv.work_update (h : RegInv s) {a : Act n} (m : Move s a s') {u : Fin n} {p q : Pc} (hp : s.pc u = p)
    (hpc : s'.pc = Function.update s.pc u q) (hlt : work s' q < work s p) (t : Fin n) :
    work s' (s'.pc t) + (if decide (u = t) = true then 1 else 0) ≤ work s (s.pc t) := by
  rcases eq_or_ne t u with rfl | hne
  · rw [hpc, Function.update_self, hp]
    simpa using Nat.succ_le_of_lt hlt
  · rw [h.work_stays m (by rw [hpc, Function.update_of_ne hne])]
    simp [hne.symm]

/-- **A step of a thread leaves it less to do**, and the steps of the others no more. -/
theorem RegInv.work (h : RegInv s) {a : Act n} (m : Move s a s') {t : Fin n} (hb : begins t a = false) :
    Conn.work s' (s'.pc t) + (if goesOn t a = true then 1 else 0) ≤ Conn.work s (s.pc t) := by
  have hother : ∀ {u : Fin n} {q : Pc}, s'.pc = Function.update s.pc u q → decide (u = t) = false →
      Conn.work s' (s'.pc t) ≤ Conn.work s (s.pc t) := by
    intro u q hpc hne
    exact (h.work_stays m (by rw [hpc, Function.update_of_ne (by rintro rfl; simp at hne)])).le
  have hupdate := fun {u p q} (hp : s.pc u = p) hpc hlt => h.work_update m (u := u) (q := q) hp hpc hlt t
  cases m with
  | accept | dequeue | removeClients | removeAllLock => exact hother rfl hb
  | sendReq =>
    revert hother
    unfold State.sendReq
    split
    · exact fun _ => le_rfl
    split
    · exact fun _ => le_rfl
    · exact fun hother => hother rfl hb
  | complete | tick => exact le_rfl
  | construct ht | register ht | recvReq ht | recvFailed ht | removeDone ht | removeErase ht | removeAllTurn ht
  | removeAllClear ht => exact hupdate ht rfl (by simp [Conn.work])
  | regIocp ht | dispatch ht | callBack ht => exact hupdate ht rfl (by split <;> simp [Conn.work])
  | wsaRecv ht =>
    revert hupdate
    unfold State.wsaRecv
    split <;> exact fun hupdate => hupdate ht rfl (by simp [Conn.work])
  | parse ht =>
    revert hupdate
    unfold State.parse
    split
    case isTrue hlt =>
      split
      case h_1 => exact fun hupdate => hupdate ht rfl (by simp [Conn.work])
      case h_2 hround =>
        have hpos := recvRound_pos hround
        exact fun hupdate => hupdate ht rfl (by simp only [Conn.work]; omega)
    case isFalse => exact fun hupdate => hupdate ht rfl (by simp [Conn.work])
  | removeContext ht => exact hupdate ht rfl (by simp [Conn.work]; omega)
  | removeAllContext ht => exact hupdate ht rfl (by simp [Conn.work, State.removeAllContext, State.setCtx, State.goto])
  | removeCmd ht => exact hupdate ht (pc_removeCmd ..) (by simp [Conn.work])
  | removeAllCmd ht => exact hupdate ht (pc_removeAllCmd ..) (by simp [Conn.work])

/-! ## Who can go on -/

theorem contexts_finite (s : State n) : {e : Socket × Ref | ContextAt s e.1 e.2}.Finite := by
  unfold ContextAt
  split
  · exact List.finite_toSet _
  · simp
  · exact (List.finite_toSet s.clientsContext.entries).subset fun e he => OrdMap.mem_entries.2 he

theorem cmds_finite (s : State n) : {e : Socket × Cref | QueuesAt s e.1 e.2}.Finite := by
  unfold QueuesAt
  split
  · exact (List.finite_toSet s.clientCmd.entries).subset fun e he => OrdMap.mem_entries.2 he.2
  · exact List.finite_toSet _
  · exact (List.finite_toSet s.clientCmd.entries).subset fun e he => OrdMap.mem_entries.2 he

/-- The objects a thread has in its hands. -/
def inHands : Pc → Nat × Nat
  | .built _ _ r b => (r.addr, b.addr)
  | _ => (0, 0)

/-- There is room for another object. -/
theorem Accounted.room (h : Accounted s) :
    (∃ a, a ≠ 0 ∧ (s.ctx a).live = false) ∧ ∃ b, b ≠ 0 ∧ (s.cmd b).live = false := by
  have hfin : ∀ l : Nat → Bool, {a | l a = true}.Finite → ∃ a, a ≠ 0 ∧ l a = false := by
    intro l hl
    obtain ⟨a, -, ha⟩ := Set.infinite_univ.exists_notMem_finite (hl.insert 0)
    simp only [Set.mem_insert_iff, Set.mem_ofPred_eq, not_or, Bool.not_eq_true] at ha
    exact ⟨a, ha⟩
  refine ⟨hfin (fun a => (s.ctx a).live) ?_, hfin (fun a => (s.cmd a).live) ?_⟩
  · refine ((Set.finite_range fun t => (inHands (s.pc t)).1).union
      ((contexts_finite s).image fun e => e.2.addr)).subset ?_
    intro a ha
    rcases h.ctx a ha with ⟨t, k, c, r, b, ht, rfl⟩ | ⟨k, r, hk, rfl⟩
    · exact .inl ⟨t, by simp [ht, inHands]⟩
    · exact .inr ⟨(k, r), hk, rfl⟩
  · refine ((Set.finite_range fun t => (inHands (s.pc t)).2).union ((cmds_finite s).image fun e => e.2.addr)).subset ?_
    intro a ha
    rcases h.cmd a ha with ⟨t, k, c, r, b, ht, rfl⟩ | ⟨k, b, hk, rfl⟩
    · exact .inl ⟨t, by simp [ht, inHands]⟩
    · exact .inr ⟨(k, b), hk, rfl⟩

/-- A thread can go on, unless it waits for the lock. -/
theorem Accounted.enabled (h : Accounted s) {t : Fin n} (ht : s.pc t ≠ .idle)
    (hl : s.lock = none ∨ holding (s.pc t) = true) : ∃ a s', goesOn t a = true ∧ step s a = some s' := by
  have hrun : ∀ s', s.next t true (s.pc t) = some s' → ∃ a s', goesOn t a = true ∧ step s a = some s' :=
    fun s' hs => ⟨.run t true, s', decide_eq_true rfl, hs⟩
  cases hp : s.pc t with
  | idle => exact absurd hp ht
  | accepted k c =>
    obtain ⟨⟨a, ha, hx⟩, b, hb, hy⟩ := h.room
    refine ⟨.construct t a b fun _ => 0, s.construct t k c a b fun _ => 0, decide_eq_true rfl, ?_⟩
    simp only [step, hp]
    exact if_pos ⟨ha, hb, hx, hy⟩
  | built k c r b =>
    rw [hp] at hl
    exact hrun _ (by rw [hp]; exact if_pos (hl.resolve_right (by simp [holding])))
  | remove ks =>
    rw [hp] at hl
    cases ks with
    | nil => exact hrun _ (by rw [hp]; rfl)
    | cons k ks => exact hrun _ (by rw [hp]; exact if_pos (hl.resolve_right (by simp [holding])))
  | raCtx todo => cases todo <;> exact hrun _ (by rw [hp]; rfl)
  | raCmd todo => cases todo <;> exact hrun _ (by rw [hp]; rfl)
  | _ => exact hrun _ (by rw [hp]; rfl)

/-- **Every call comes to an end.** Whatever the others do, a thread takes no more steps than it had to do before it
begins another call; and a thread in a call can go on, or the one that holds the lock can. -/
theorem calls_end (h : (sys n).Reachable s) (t : Fin n) :
    (∀ as s', (sys n).run s as = some s' → (∀ a ∈ as, begins t a = false) →
      as.countP (goesOn t) + work s' (s'.pc t) ≤ work s (s.pc t)) ∧
    (s.pc t ≠ .idle → ∃ u a s', (u = t ∨ s.lock = some u) ∧ goesOn u a = true ∧ step s a = some s') := by
  refine ⟨?_, ?_⟩
  · intro as s' hrun hb
    refine Sys.run_countP_le (M := sys n) (P := RegInv) (fun s => work s (s.pc t)) ?_ as (regInv h) hb hrun
    intro s a s' hi hb he
    exact ⟨hi.move (step_move he), hi.work (step_move he) hb⟩
  · intro ht
    have hi := accounted h
    cases hl : s.lock with
    | none =>
      obtain ⟨a, s', ha, he⟩ := hi.enabled ht (.inl hl)
      exact ⟨t, a, s', .inl rfl, ha, he⟩
    | some u =>
      have hu := ((regInv h).lockPc u).2 hl
      obtain ⟨a, s', ha, he⟩ := hi.enabled (t := u) (by rintro hp; rw [hp] at hu; cases hu) (.inr hu)
      exact ⟨u, a, s', .inr rfl, ha, he⟩

/-- One thread is inside `RemoveClient`, the other one waits for the lock. -/
theorem calls_end_two : ∃ s : State 2, (sys 2).Reachable s ∧ s.pc 1 = .remove [5] ∧ s.lock = some 0 ∧
    work s (s.pc 1) = 4 ∧
    (∀ as s', (sys 2).run s as = some s' → (∀ a ∈ as, begins 1 a = false) →
      as.countP (goesOn 1) + work s' (s'.pc 1) ≤ work s (s.pc 1)) ∧
    ∃ u a s', (u = 1 ∨ s.lock = some u) ∧ goesOn u a = true ∧ step s a = some s' :=
  have hr : (sys 2).Reachable _ := Sys.Reachable.run (acceptRun 0 5 1 1 ++
    [.removeClients 0 [5], .removeClients 1 [5], .run 0 true]) (.init rfl) rfl
  ⟨_, hr, rfl, rfl, rfl, (calls_end hr 1).1, (calls_end hr 1).2 nofun⟩

end P1Server.Conn
