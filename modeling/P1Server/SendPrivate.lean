import P1Server.SendBytes
import P1Server.SendLine

/-!
# Whose commands a connection is sent

`SendThread` empties the queues under the lock and looks the clients up again by their handles later.
Between the two a client may go and another one come under its handle.

* `onOwnConnection` — no command is transmitted on another connection than the one whose queue accepted it,
  in the runs of `Steady` in which no client is registered under a handle that a pass still has commands for;
* `not_onOwnConnection` — the handle is accepted again while a pass has the last client's command.
-/

namespace P1Server.Send
open Lib

variable {n : Nat} {s s' : State n}

/-- No pass has unsent commands for the handle under which a client is registered. -/
def Vacant (s : State n) : Act n → Prop
  | .addNewClient k => ∀ t, ¬ Unsent (s.pc t) k
  | _ => True

instance (s : State n) : ∀ a, Decidable (Vacant s a)
  | .addNewClient k => inferInstanceAs (Decidable (∀ t, ¬ Unsent (s.pc t) k))
  | .removeClient _ | .removeAllClient | .call .. | .free _ | .sendThread _ | .newBuff .. | .run .. | .transmit ..
  | .complete .. => inferInstanceAs (Decidable True)

/-- Every transmitted byte of a command goes over the connection whose queue accepted the command. -/
def OnOwnConnection (s : State n) : Prop :=
  ∀ w ∈ s.sends, ∀ cell ∈ w.sent, ∀ st, cell.stamp = some st → st.conn = w.conn

/-! ## Commands and the clients they are for -/

/-- The commands in a client's queue, and those in line for its handle, are of its connection. -/
structure Tags (s : State n) : Prop where
  queue : ∀ k c, s.clientCmd.find k = some c → ∀ x ∈ c.sendQueue, x.stamp.conn = c.conn
  line : ∀ u, ∀ e ∈ line s (s.pc u), ∀ c, s.clientCmd.find e.1 = some c → e.2.conn = c.conn

/-- A queue changes and the new commands in it are of its connection; so are the new ones in line. -/
theorem Tags.setQueue (h : Tags s) {k : Socket} {c : Client} {q : List Entry} (hf : s.clientCmd.find k = some c)
    (hs : s'.clientCmd = s.clientCmd.set k { c with sendQueue := q }) (hq : ∀ x ∈ q, x.stamp.conn = c.conn)
    (hl : ∀ u, ∀ e ∈ Send.line s' (s'.pc u), e ∈ Send.line s (s.pc u) ∨ e.1 = k ∧ e.2.conn = c.conn) :
    Tags s' := by
  refine ⟨?_, ?_⟩
  · intro j d hd x hx
    rw [hs] at hd
    obtain ⟨b, hb, hc, ⟨-, rfl⟩ | ⟨rfl, rfl⟩⟩ := find_queue hf hd
    · exact h.queue j d hb x hx
    · rw [hf] at hb
      cases hb
      exact (hq x hx).trans hc
  · intro u e he d hd
    rw [hs] at hd
    obtain ⟨b, hb, hc, -⟩ := find_queue hf hd
    rcases hl u e he with he | ⟨rfl, he⟩
    · exact (h.line u e he b hb).trans hc
    · rw [hf] at hb
      cases hb
      exact he.trans hc

theorem Tags.flow (h : Tags s) {a : Act n} (hv : Vacant s a) (f : Flow s a s') : Tags s' := by
  cases f with
  | less hc _ _ ht =>
    exact ⟨fun k c hf => h.queue k c (hc k c hf), fun u e he c hf => h.line u e ((ht u).mem he) c (hc _ c hf)⟩
  | @add _ k hc _ _ ht =>
    refine ⟨?_, ?_⟩
    · intro j c hf x hx
      rw [hc, OrdMap.find_set] at hf
      split at hf
      · cases hf
        cases hx
      · exact h.queue j c hf x hx
    · intro u e he c hf
      have he' := (ht u).mem he
      have hne : e.1 ≠ k := fun hk => hv u (hk ▸ unsent_of_line he')
      rw [hc, OrdMap.find_set_ne hne] at hf
      exact h.line u e he' c hf
  | @push _ _ k c x hf hx hc _ _ ht =>
    refine h.setQueue hf hc ?_ fun u e he => .inl ((ht u).mem he)
    intro y hy
    rcases List.mem_append.1 hy with hy | hy
    · exact h.queue k c hf y hy
    · rw [List.mem_singleton.1 hy, hx]
  | @pop t ok _ k c x queue _ hf hq hc _ _ hl ht =>
    have hx : ∀ y ∈ x :: queue, y.stamp.conn = c.conn := fun y hy => h.queue k c hf y (hq ▸ hy)
    refine h.setQueue hf hc (fun y hy => hx y (List.mem_cons_of_mem _ hy)) (mem_of_but ht ?_)
    intro e he
    rw [hl] at he
    rcases List.mem_append.1 he with he | he
    · exact .inl he
    · rw [List.mem_singleton.1 he]
      exact .inr ⟨rfl, hx x List.mem_cons_self⟩
  | @putBack t ok _ k c x _ hf _ hc _ _ hl ht =>
    refine h.setQueue hf hc ?_ (mem_of_but ht ?_)
    · intro y hy
      rcases List.mem_append.1 hy with hy | hy
      · exact h.queue k c hf y hy
      · rw [List.mem_singleton.1 hy]
        exact h.line t (k, x.stamp) (by rw [hl]; exact List.mem_append_right _ List.mem_cons_self) c hf
    · intro e he
      rw [hl]
      exact .inl (List.mem_append_left _ he)
  | @give t ok _ j c _ _ hc _ _ hl ht =>
    refine ⟨hc ▸ h.queue, fun u e he d hd => h.line u e ?_ d (hc ▸ hd)⟩
    refine mem_of_but_sub ht ?_ u e he
    intro e he
    rw [hl]
    exact List.mem_append_right _ he

/-! ## Contexts and queues of one connection -/

/-- Under every handle the context is of the connection of the queues. -/
def Paired (s : State n) : Prop :=
  ∀ k d, s.clientsContext.find k = some d → ∃ c, s.clientCmd.find k = some c ∧ c.conn = d.conn

theorem Paired.queue (h : Paired s) {k : Socket} {c : Client} {q : List Entry} (hf : s.clientCmd.find k = some c)
    (hx : s'.clientsContext = s.clientsContext)
    (hs : s'.clientCmd = s.clientCmd.set k { c with sendQueue := q }) : Paired s' := by
  intro j d hd
  rw [hx] at hd
  obtain ⟨b, hb, hc⟩ := h j d hd
  rw [hs, OrdMap.find_set]
  split
  case isTrue hj =>
    subst hj
    rw [hf] at hb
    cases hb
    exact ⟨_, rfl, hc⟩
  case isFalse => exact ⟨b, hb, hc⟩

theorem Paired.context (h : Paired s) {k : Socket} {c d : Context} (hf : s.clientsContext.find k = some c)
    (hx : s'.clientsContext = s.clientsContext.set k d) (hc : d.conn = c.conn) (hs : s'.clientCmd = s.clientCmd) :
    Paired s' := by
  intro j e he
  rw [hx, OrdMap.find_set] at he
  rw [hs]
  split at he
  case isTrue hj =>
    cases he
    rw [hj, hc]
    exact h k c hf
  case isFalse => exact h j e he

theorem Paired.erase (h : Paired s) {k : Socket} (hx : s'.clientsContext = s.clientsContext.erase k)
    (hs : s'.clientCmd = s.clientCmd.erase k) : Paired s' := by
  intro j d hd
  rw [hx, OrdMap.find_erase] at hd
  rw [hs, OrdMap.find_erase]
  split at hd
  · cases hd
  case isFalse hj =>
    rw [if_neg hj]
    exact h j d hd

theorem Paired.move (h : Paired s) {a : Act n} (m : Move s a s') : Paired s' := by
  cases m with
  | @addNewClient k _ _ =>
    intro j d hd
    simp only [State.addNewClient, OrdMap.find_set] at hd ⊢
    split at hd
    case isTrue hj =>
      cases hd
      exact ⟨_, if_pos hj, rfl⟩
    case isFalse hj =>
      rw [if_neg hj]
      exact h j d hd
  | removeClient _ => exact h.erase rfl rfl
  | removeAllClient _ => exact fun _ _ hd => nomatch hd
  | taken _ _ _ hf => exact h.queue hf rfl rfl
  | pop _ _ hf _ _ => exact h.queue hf rfl rfl
  | popFull _ _ hf _ => exact h.queue hf rfl rfl
  | putBack _ hf _ => exact h.queue hf rfl rfl
  | sendReq _ hf => exact h.context hf rfl rfl rfl
  | @setLen _ _ j _ =>
    unfold State.setLen
    cases hf : s.clientsContext.find j.k with
    | none => exact h
    | some c => exact h.context hf rfl rfl rfl
  | wsaSend _ =>
    unfold State.wsaSend
    split <;> exact h
  | sendFailed _ _ => exact h.erase rfl rfl
  | _ => exact h

/-! ## What `WSASend` is called with -/

/-- The bytes that `SendReq` was called with are of commands of the connection. -/
def Wanted (w : Wsa) : Prop := ∀ cell ∈ w.want, ∀ st, cell.stamp = some st → st.conn = w.conn

theorem wanted_map (h : ∀ w ∈ s.sends, Wanted w) (p : ConnId → Bool) :
    ∀ w ∈ s.sends.map fun w => w.abort p, Wanted w := by
  intro w hw
  obtain ⟨v, hv, rfl⟩ := List.mem_map.1 hw
  unfold Wsa.abort
  split <;> exact h v hv

theorem wanted_set (h : ∀ w ∈ s.sends, Wanted w) {i : Nat} {w : Wsa} (hw : Wanted w) :
    ∀ v ∈ s.sends.set i w, Wanted v := by
  intro v hv
  exact (List.mem_or_eq_of_mem_set hv).elim (h v) fun he => he ▸ hw

theorem wanted_move (ht : Tags s) (hp : Paired s) (h : ∀ w ∈ s.sends, Wanted w) {a : Act n} (m : Move s a s') :
    ∀ w ∈ s'.sends, Wanted w := by
  cases m with
  | removeClient _ => exact wanted_map h _
  | removeAllClient _ => exact wanted_map h _
  | sendFailed _ _ => exact wanted_map h _
  | @transmit _ _ w hw _ _ =>
    have hv : Wanted w := h w (List.mem_of_getElem? hw)
    exact wanted_set h hv
  | @complete _ _ w hw _ _ =>
    have hv : Wanted w := h w (List.mem_of_getElem? hw)
    exact wanted_set h hv
  | setLen _ =>
    unfold State.setLen
    split <;> exact h
  | @wsaSend t ok j hpc =>
    unfold State.wsaSend
    cases hf : s.clientsContext.find j.k with
    | none => exact h
    | some d =>
      cases ok with
      | false => exact h
      | true =>
        intro w hw
        rcases List.mem_append.1 hw with hw | hw
        · exact h w hw
        · rw [List.mem_singleton.1 hw]
          intro cell hcell st hst
          obtain ⟨c, hc, he⟩ := hp j.k d hf
          have hmem : (j.k, st) ∈ packedLine s j :=
            List.mem_map.2 ⟨st, List.mem_filterMap.2 ⟨cell, hcell, hst⟩, rfl⟩
          have hline : (j.k, st) ∈ Send.line s (s.pc t) := by
            rw [hpc, line_job (j := j) rfl rfl]
            exact List.mem_append_left _ hmem
          exact (ht.line t _ hline c hc).trans he
  | _ => exact h

theorem tags (h : (sys n).Reach (fun s a => Steady s a ∧ Vacant s a) s) : Tags s := by
  refine h.inv_of (J := Owners) (fun _ hr => owners hr.reachable) (fun _ hi => hi ▸ ⟨nofun, nofun⟩) ?_
  exact fun _ _ _ ho _ ht hk he => ht.flow hk.2 (flow ho (step_move he))

theorem paired (h : (sys n).Reachable s) : Paired s :=
  h.inv (I := Paired) (fun _ hi => hi ▸ fun _ _ hd => nomatch hd) fun _ _ _ hp he => hp.move (step_move he)

/-- **No cross-talk between connections.** -/
theorem onOwnConnection (h : (sys n).Reach (fun s a => Steady s a ∧ Vacant s a) s) : OnOwnConnection s := by
  have hw : ∀ w ∈ s.sends, Wanted w :=
    h.inv_of (J := fun s => Tags s ∧ Paired s) (I := fun s => ∀ w ∈ s.sends, Wanted w)
      (fun _ hr => ⟨tags hr, paired hr.reachable⟩) (fun _ hi => hi ▸ nofun)
      fun _ _ _ hj _ hw _ he => wanted_move hj.1 hj.2 hw (step_move he)
  intro w hm cell hcell
  have hf := faithful (h.mono fun _ _ hk => hk.1) w hm
  exact hw w hm cell (hf.sent.subset hcell)

/-- A client goes while a pass has its command, which is dropped; its handle is accepted again when the pass is
over, and the second connection is sent its own. -/
theorem onOwnConnection_reused : ∃ s : State 1, (sys 1).Reach (fun s a => Steady s a ∧ Vacant s a) s ∧
    s.sends.map (fun w => (w.conn, w.sent.map Cell.val)) = [(⟨1, 1⟩, [6, 0, 0, 0, 8, 0])] ∧ OnOwnConnection s :=
  have hr : (sys 1).Reach (fun s a => Steady s a ∧ Vacant s a) _ := Sys.Reach.runK ([.addNewClient 1] ++
    callRun 0 1 (headerCmd 7) ++ [.sendThread 0] ++ runs 0 4 ++ [.removeClient 1, .newBuff 0 9 fun _ => ⟨0, none⟩] ++
    runs 0 6 ++ [.addNewClient 1] ++ callRun 0 1 (headerCmd 8) ++ [.sendThread 0] ++ runs 0 4 ++
    [.newBuff 0 9 fun _ => ⟨0, none⟩] ++ runs 0 6 ++ List.replicate 6 (.transmit 0 ⟨0, none⟩)) (.init rfl) rfl
  ⟨_, hr, rfl, onOwnConnection hr⟩

/-- The handle is accepted again between the drain and `SendReq`: the second connection is sent a command of
the first. -/
theorem not_onOwnConnection : ¬ ∀ s : State 4, (sys 4).Reachable s → OnOwnConnection s := by
  intro h
  have hr : (sys 4).Reachable _ := Sys.Reachable.run ([.addNewClient 1] ++ callRun 0 1 (headerCmd 7) ++
    [.sendThread 0] ++ runs 0 4 ++ [.removeClient 1, .addNewClient 1, .newBuff 0 9 fun _ => ⟨0, none⟩] ++ runs 0 6 ++
    [.transmit 0 ⟨0, none⟩]) (.init rfl) rfl
  have hc := h _ hr _ List.mem_cons_self _ List.mem_cons_self ⟨⟨1, 0⟩, 0⟩ rfl
  exact absurd hc (by decide)

end P1Server.Send
