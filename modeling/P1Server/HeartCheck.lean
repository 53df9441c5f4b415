import P1Server.ConnRegistry

/-!
# `HeartCheckTimer`

| here | there |
| --- | --- |
| `BeatAct.heartCheck`  | the shared section of `HeartCheckTimer` (`TCPServer.cpp:179-188`): `available` is what `CheckSocketAvailable` answers |
| `Act.run`             | its calls of `RemoveClient` (`:189-193`), as for every other thread |
| `Beats.failed`        | (the connections whose check has failed, for a thread that is in `HeartCheckTimer`) |
| `Removal`             | (a connection `HeartCheckTimer` has removed, with those whose check had failed) |

The list of `HeartCheckTimer` has handles, and a handle may be given out again before the loop comes to it.

* `BeatInv` — the clients registered under the handles of the list are those that were checked;
* **`removes_dead`** — as long as no handle of the list is registered again, only these are removed;
* `not_removes_dead` — where one is.
-/

namespace P1Server.Conn
open Lib

structure Removal where
  failed : List Nat
  conn : Nat
  deriving DecidableEq

structure Beats (n : Nat) where
  base : State n
  failed : Fin n → Option (List Nat)
  removals : List Removal

inductive BeatAct (n : Nat)
  | server (a : Act n)
  | heartCheck (t : Fin n) (available : Socket → Bool)

variable {n : Nat} {s s' : State n}

/-- The connection of the entry that the next step of `RemoveClient` takes: its context, or its queues and its socket. -/
def removing (s : State n) (t : Fin n) : List Nat :=
  match s.pc t with
  | .remove (k :: _) => if (s.clientsContext.find k).isSome then (s.os k).toList else []
  | .rmHeld k _ => if (s.clientCmd.find k).isSome then (s.os k).toList else []
  | _ => []

namespace Beats

/-- What a step of the server removes for `HeartCheckTimer`. -/
def removes (s : Beats n) : Act n → List Removal
  | .run t _ =>
    match s.failed t with
    | some failed => (removing s.base t).map fun c => ⟨failed, c⟩
    | none => []
  | _ => []

def heartCheck (s : Beats n) (t : Fin n) (available : Socket → Bool) : Beats n :=
  let invalidSocket := s.base.clientsContext.keys.filter fun k => !available k
  { s with
    base := s.base.goto t (.remove invalidSocket)
    failed := Function.update s.failed t (some (invalidSocket.filterMap s.base.os)) }

def step (s : Beats n) : BeatAct n → Option (Beats n)
  | .server a => (Conn.step s.base a).map fun base =>
    ⟨base, fun t => if base.pc t = .idle then none else s.failed t, s.removals ++ s.removes a⟩
  | .heartCheck t available =>
    if s.base.pc t = .idle ∧ s.base.lock = none then some (s.heartCheck t available) else none

/-- A server whose timer is running. -/
def sys (n : Nat) : Sys (Beats n) (BeatAct n) where
  init s := s = ⟨start n, fun _ => none, []⟩
  step := step

end Beats

/-! ## The runs in which no handle comes back -/

/-- The handles a thread has still to remove. -/
def handles : Pc → List Socket
  | .remove ks | .rmClosed _ ks => ks
  | .rmHeld k ks => k :: ks
  | _ => []

/-- The handle that `AddNewClient` is about to register. -/
def registering : Pc → Option Socket
  | .built k _ _ _ => some k
  | _ => none

/-- `AddNewClient` registers no handle that `HeartCheckTimer` has in its list. -/
def NotReused (s : Beats n) : BeatAct n → Prop
  | .server (.run t _) => ∀ k ∈ registering (s.base.pc t), ∀ u, (s.failed u).isSome → k ∉ handles (s.base.pc u)
  | _ => True

instance decidableNotReused (s : Beats n) : ∀ a, Decidable (NotReused s a)
  | .server (.run t _) => inferInstanceAs
      (Decidable (∀ k ∈ registering (s.base.pc t), ∀ u, (s.failed u).isSome → k ∉ handles (s.base.pc u)))
  | .server (.accept ..) | .server (.construct ..) | .server (.sendReq ..) | .server (.complete ..)
  | .server (.dequeue ..) | .server (.removeClients ..) | .server (.removeAll _) | .server (.tick _)
  | .heartCheck .. => .isTrue trivial

/-! ## What a step does to the list and to the entries -/

/-- In the loop of `RemoveClient`s. -/
def inLoop : Pc → Bool
  | .remove _ | .rmHeld _ _ | .rmClosed _ _ => true
  | _ => false

/-- A thread in the loop stays there, with no more handles, or is through. -/
structure Goes (p q : Pc) : Prop where
  place : q = .idle ∨ inLoop q = true
  handles : ∀ k ∈ handles q, k ∈ handles p

theorem goes_update {t : Fin n} {p : Pc} (q : Pc) (hp : s.pc t = p) (hpc : s'.pc = Function.update s.pc t q)
    (h : Goes p q) (u : Fin n) (hu : inLoop (s.pc u) = true) : Goes (s.pc u) (s'.pc u) := by
  rw [hpc]
  by_cases hut : u = t
  · rw [hut, Function.update_self, hp]
    exact h
  · rw [Function.update_of_ne hut]
    exact ⟨.inr hu, fun k hk => hk⟩

/-- A thread that is not in the loop moves. -/
theorem goes_other {t : Fin n} {p : Pc} (q : Pc) (hp : s.pc t = p) (hout : inLoop p = false)
    (hpc : s'.pc = Function.update s.pc t q) (u : Fin n) (hu : inLoop (s.pc u) = true) : Goes (s.pc u) (s'.pc u) := by
  have hut : u ≠ t := by
    rintro rfl
    rw [hp, hout] at hu
    cases hu
  rw [hpc, Function.update_of_ne hut]
  exact ⟨.inr hu, fun k hk => hk⟩

theorem pc_closeCmd (k : Socket) (b : Cref) : (s.closeCmd k b).pc = s.pc := by
  unfold State.closeCmd State.closeSocket
  split <;> rfl

theorem pc_removeCmd (t : Fin n) (k : Socket) (ks : List Socket) :
    (s.removeCmd t k ks).pc = Function.update s.pc t (.rmClosed k ks) := by
  simp only [State.removeCmd, State.goto]
  split
  · rw [pc_closeCmd]
  · rfl

theorem pc_removeAllCmd (t : Fin n) (k : Socket) (b : Cref) (todo : List (Socket × Cref)) :
    (s.removeAllCmd t k b todo).pc = Function.update s.pc t (.raCmd todo) := by
  simp only [State.removeAllCmd, State.goto, pc_closeCmd]

theorem goes {a : Act n} (m : Move s a s') (u : Fin n) (hu : inLoop (s.pc u) = true) : Goes (s.pc u) (s'.pc u) := by
  have hsame : Goes (s.pc u) (s.pc u) := ⟨.inr hu, fun k hk => hk⟩
  cases m with
  | accept ht | construct ht | register ht | regIocp ht | recvReq ht | recvFailed ht | dequeue ht | dispatch ht
  | callBack ht | removeClients ht | removeAllLock ht | removeAllContext ht | removeAllTurn ht | removeAllClear ht =>
    exact goes_other _ ht rfl rfl u hu
  | wsaRecv ht =>
    unfold State.wsaRecv
    split <;> exact goes_other _ ht rfl rfl u hu
  | sendReq ht =>
    unfold State.sendReq
    split
    · exact hsame
    split
    · exact hsame
    · exact goes_other _ ht rfl rfl u hu
  | parse ht =>
    unfold State.parse
    split
    · split <;> exact goes_other _ ht rfl rfl u hu
    · exact goes_other _ ht rfl rfl u hu
  | removeAllCmd ht => exact goes_other _ ht rfl (pc_removeAllCmd ..) u hu
  | complete | tick => exact hsame
  | removeDone ht => exact goes_update .idle ht rfl ⟨.inl rfl, fun k hk => by cases hk⟩ u hu
  | @removeContext t ok k ks ht hl => exact goes_update (.rmHeld k ks) ht rfl ⟨.inr rfl, fun j hj => hj⟩ u hu
  | @removeCmd t ok k ks ht =>
    exact goes_update (.rmClosed k ks) ht (pc_removeCmd ..) ⟨.inr rfl, fun j hj => List.mem_cons_of_mem _ hj⟩ u hu
  | @removeErase t ok k ks ht => exact goes_update (.remove ks) ht rfl ⟨.inr rfl, fun j hj => hj⟩ u hu

theorem clientCmd_closeCmd (k : Socket) (b : Cref) : (s.closeCmd k b).clientCmd = s.clientCmd := by
  unfold State.closeCmd State.closeSocket
  split <;> rfl

/-- Only `AddNewClient` makes an entry. -/
theorem entry_before {a : Act n} (m : Move s a s') {k : Socket} {b : Cref} (hf : s'.clientCmd.find k = some b) :
    s.clientCmd.find k = some b ∨ ∃ t ok, a = .run t ok ∧ registering (s.pc t) = some k := by
  cases m with
  | @register t ok j c r d ht hl =>
    by_cases hk : k = j
    · exact .inr ⟨t, ok, rfl, by rw [ht, hk]; rfl⟩
    · exact .inl ((OrdMap.find_set_ne hk).symm.trans hf)
  | accept | construct | regIocp | recvReq | recvFailed | dequeue | dispatch | callBack | removeClients | removeAllLock
  | removeAllContext | removeAllTurn | complete | tick | removeDone | removeContext => exact .inl hf
  | wsaRecv =>
    unfold State.wsaRecv at hf
    split at hf <;> exact .inl hf
  | sendReq =>
    unfold State.sendReq at hf
    split at hf
    · exact .inl hf
    split at hf <;> exact .inl hf
  | parse =>
    unfold State.parse at hf
    split at hf
    · split at hf <;> exact .inl hf
    · exact .inl hf
  | removeCmd =>
    simp only [State.removeCmd, State.goto] at hf
    split at hf
    · rw [clientCmd_closeCmd] at hf
      exact .inl hf
    · exact .inl hf
  | removeAllCmd =>
    simp only [State.removeAllCmd, State.goto, clientCmd_closeCmd] at hf
    exact .inl hf
  | @removeErase t ok j ks ht =>
    have he := (OrdMap.find_erase s.clientCmd j k).symm.trans hf
    split at he
    · cases he
    · exact .inl he
  | removeAllClear => cases hf

/-! ## The clients of the list -/

/-- The clients registered under the handles of the list are those whose check has failed. -/
structure BeatInv (s : Beats n) : Prop where
  base : (sys n).Reachable s.base
  loop : ∀ t failed, s.failed t = some failed → inLoop (s.base.pc t) = true ∧
    ∀ k ∈ handles (s.base.pc t), ∀ b, s.base.clientCmd.find k = some b → b.conn ∈ failed
  clean : ∀ r ∈ s.removals, r.conn ∈ r.failed

/-- What the next step removes is registered under a handle of the list. -/
theorem removing_entry (h : RegInv s) {t : Fin n} {ok : Bool} (he : step s (.run t ok) = some s') {c : Nat}
    (hc : c ∈ removing s t) : ∃ k ∈ handles (s.pc t), ∃ b, s.clientCmd.find k = some b ∧ b.conn = c := by
  unfold removing at hc
  split at hc
  case h_1 k ks hp =>
    obtain ⟨hx, hos⟩ := List.mem_ite_nil_right.1 hc
    have hl : s.lock = none := by
      rw [step, hp] at he
      exact (Option.ite_none_right_eq_some.1 he).1
    have hm := (h.phase_none hl).1
    obtain ⟨b, hb⟩ := Option.isSome_iff_exists.1 ((hm.keys k trivial).1 hx)
    refine ⟨k, by rw [hp]; exact List.mem_cons_self, b, hb, ?_⟩
    have hopen := (hm.cmds k b trivial hb).opened
    rw [hopen] at hos
    exact (List.mem_singleton.1 hos).symm
  case h_2 k ks hp =>
    obtain ⟨hx, hos⟩ := List.mem_ite_nil_right.1 hc
    obtain ⟨b, hb⟩ := Option.isSome_iff_exists.1 hx
    obtain ⟨-, -, hcmd, -⟩ := h.phase_holds hp rfl
    refine ⟨k, by rw [hp]; exact List.mem_cons_self, b, hb, ?_⟩
    rw [(hcmd b hb).opened] at hos
    exact (List.mem_singleton.1 hos).symm
  case h_3 => cases hc

theorem BeatInv.server {s s' : Beats n} (h : BeatInv s) {a : Act n} (hk : NotReused s (.server a))
    (he : s.step (.server a) = some s') : BeatInv s' := by
  obtain ⟨base, hb, rfl⟩ := Option.map_eq_some_iff.1 he
  have hm := step_move hb
  refine ⟨.step h.base trivial hb, ?_, ?_⟩
  · intro t failed hf
    obtain ⟨hne, hold⟩ : base.pc t ≠ .idle ∧ s.failed t = some failed := by simpa using hf
    obtain ⟨hl, hin⟩ := h.loop t failed hold
    have hg := goes hm t hl
    refine ⟨hg.place.resolve_left hne, ?_⟩
    intro k hmem b hfind
    rcases entry_before hm hfind with hfind | ⟨u, ok, rfl, hreg⟩
    · exact hin k (hg.handles k hmem) b hfind
    · exact absurd (hg.handles k hmem) (hk k hreg t (by rw [hold]; rfl))
  · intro r hr
    rcases List.mem_append.1 hr with hr | hr
    · exact h.clean r hr
    cases a with
    | run t ok =>
      simp only [Beats.removes] at hr
      split at hr
      case h_2 => cases hr
      case h_1 failed hf =>
        obtain ⟨c, hc, rfl⟩ := List.mem_map.1 hr
        obtain ⟨k, hmem, b, hfind, rfl⟩ := removing_entry (regInv h.base) hb hc
        exact (h.loop t failed hf).2 k hmem b hfind
    | _ => cases hr

theorem BeatInv.heartCheck {s s' : Beats n} (h : BeatInv s) {t : Fin n} {available : Socket → Bool}
    (he : s.step (.heartCheck t available) = some s') : BeatInv s' := by
  obtain ⟨⟨hp, hl⟩, he⟩ := Option.ite_none_right_eq_some.1 he
  cases he
  refine ⟨.step h.base (a := .removeClients t _) trivial (if_pos hp), ?_, h.clean⟩
  intro u failed hf
  show inLoop (Function.update s.base.pc t _ u) = true ∧ ∀ k ∈ handles (Function.update s.base.pc t _ u), _
  have hf : Function.update s.failed t _ u = some failed := hf
  by_cases hut : u = t
  · subst hut
    rw [Function.update_self] at hf ⊢
    cases hf
    refine ⟨rfl, ?_⟩
    intro k hmem b hfind
    have hopen := ((regInv h.base).phase_none hl).1.cmds k b trivial hfind
    exact List.mem_filterMap.2 ⟨k, hmem, hopen.opened⟩
  · rw [Function.update_of_ne hut] at hf ⊢
    exact h.loop u failed hf

theorem beatInv {s : Beats n} (h : (Beats.sys n).Reach NotReused s) : BeatInv s := by
  refine Sys.Reach.inv ?_ ?_ h
  · intro s hs
    cases (hs : s = _)
    exact ⟨.init rfl, fun t failed hf => (by cases hf), List.forall_mem_nil _⟩
  · intro s a s' hi hk he
    cases a with
    | server a => exact hi.server hk he
    | heartCheck t available => exact hi.heartCheck he

/-- **`HeartCheckTimer` removes the dead connections only**, as long as no handle of its list is registered again. -/
theorem removes_dead {s : Beats n} (h : (Beats.sys n).Reach NotReused s) : ∀ r ∈ s.removals, r.conn ∈ r.failed :=
  (beatInv h).clean

/-- Two clients, of which the check of one fails. -/
def twoClients : List (BeatAct 2) := (acceptRun 0 5 1 1 ++ acceptRun 0 6 2 2).map .server

theorem removes_dead_two : ∃ s : Beats 2, (Beats.sys 2).Reach NotReused s ∧
    s.removals = [⟨[1], 1⟩, ⟨[1], 1⟩] ∧ ∀ r ∈ s.removals, r.conn ∈ r.failed :=
  have hr : (Beats.sys 2).Reach NotReused _ := Sys.Reach.runK (twoClients ++ .heartCheck 1 (fun k => k ≠ 6) ::
    .replicate 4 (.server (.run 1 true))) (.init rfl) rfl
  ⟨_, hr, rfl, removes_dead hr⟩

/-- Between the check and the loop the client is removed by another thread, and its handle is given to a new one. -/
theorem not_removes_dead :
    ¬ ∀ (n : Nat) (s : Beats n), (Beats.sys n).Reachable s → ∀ r ∈ s.removals, r.conn ∈ r.failed := by
  intro h
  have hr : (Beats.sys 2).Reachable _ := Sys.Reachable.run ((acceptRun 0 5 1 1).map .server ++
    .heartCheck 1 (fun _ => false) :: (.removeClients 0 [5] :: .replicate 4 (.run 0 true)).map .server ++
    (acceptRun 0 5 1 1).map .server ++ .replicate 2 (.server (.run 1 true))) (.init rfl) rfl
  exact absurd (h 2 _ hr ⟨[0], 1⟩ List.mem_cons_self) (by decide)

end P1Server.Conn
