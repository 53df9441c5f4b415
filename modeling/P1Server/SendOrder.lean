import P1Server.SendLine

/-!
# The order of the commands to a client

Every queue is first in, first out, and so is every pass. Between queues and `WSASend` there are two ways
to overtake: two passes that have commands for one client at a time, and the command that does not
fit and is put back behind those that have come since (`TCPServer.cpp:126-127`).

* `inOrder` — in the runs with neither, what `WSASend` is given for a connection is in the order of acceptance;
* `not_inOrder` — two passes, and the second one sends first.
-/

namespace P1Server.Send
open Lib

variable {n : Nat} {s s' : State n}

/-- A pass pops from a client's queue when no other pass has unsent commands for the client, and puts back
into an empty queue. -/
def InTurn (s : State n) : Act n → Prop
  | .run t _ =>
    (∀ k ∈ pops (s.pc t), ∀ c ∈ s.clientCmd.find k, c.sendQueue ≠ [] → ∀ u, u ≠ t → ¬ Unsent (s.pc u) k) ∧
    ∀ k ∈ putsBack (s.pc t), ∀ c ∈ s.clientCmd.find k, c.sendQueue.length < QUEUE_SIZE → c.sendQueue = []
  | _ => True

instance (s : State n) : ∀ a, Decidable (InTurn s a)
  | .run t _ => inferInstanceAs (Decidable (
      (∀ k ∈ pops (s.pc t), ∀ c ∈ s.clientCmd.find k, c.sendQueue ≠ [] → ∀ u, u ≠ t → ¬ Unsent (s.pc u) k) ∧
      ∀ k ∈ putsBack (s.pc t), ∀ c ∈ s.clientCmd.find k, c.sendQueue.length < QUEUE_SIZE → c.sendQueue = []))
  | .addNewClient _ | .removeClient _ | .removeAllClient | .call .. | .free _ | .sendThread _ | .newBuff .. | .transmit ..
  | .complete .. => inferInstanceAs (Decidable True)

/-- Of two commands of a connection, `y` was not accepted before `x`. -/
def Before (x y : Stamp) : Prop := x.conn = y.conn → x.seq ≤ y.seq

theorem before_refl (x : Stamp) : Before x x := fun _ => Nat.le_refl _

/-! ## What is packed is a command -/

/-- The pass that has called `SendReq`, up to `WSASend`. -/
def calling : Pc → Option Job
  | .sendReq j | .setLen j | .wsaSend j => some j
  | _ => none

/-- Every byte that a pass has packed is of a command, and it calls `SendReq` with a packed buffer. -/
structure Stamped (s : State n) : Prop where
  cells : ∀ t j, packing (s.pc t) = some j → ∀ i < j.offset, ((s.buffs j.b).cells i).stamp.isSome
  calls : ∀ t j, calling (s.pc t) = some j → j.offset ≠ 0

theorem Stamped.same (h : Stamped s) (hpc : s'.pc = s.pc) (hb : s'.buffs = s.buffs) : Stamped s' := by
  refine ⟨?_, ?_⟩
  · rw [hpc, hb]
    exact h.cells
  · rw [hpc]
    exact h.calls

/-- Thread `t` goes to `p`; the other passes' buffers stay, and its own is as it should be at `p`. -/
theorem Stamped.gotoBuff (h : Stamped s) {t : Fin n} {p : Pc} (hpc : s'.pc = Function.update s.pc t p)
    (hb : ∀ u j, u ≠ t → packing (s.pc u) = some j → ∀ i, (s'.buffs j.b).cells i = (s.buffs j.b).cells i)
    (hp : ∀ j, packing p = some j → ∀ i < j.offset, ((s'.buffs j.b).cells i).stamp.isSome)
    (hz : ∀ j, calling p = some j → j.offset ≠ 0) : Stamped s' := by
  refine ⟨?_, ?_⟩
  · intro u j hu i hi
    rw [hpc] at hu
    rcases see_update packing hu with ⟨-, hu⟩ | ⟨hut, hu⟩
    · exact hp j hu i hi
    · rw [hb u j hut hu]
      exact h.cells u j hu i hi
  · intro u j hu
    rw [hpc] at hu
    rcases see_update calling hu with ⟨-, hu⟩ | ⟨-, hu⟩
    · exact hz j hu
    · exact h.calls u j hu

/-- The same, where `p` packs nothing. -/
theorem Stamped.gotoOut (h : Stamped s) {t : Fin n} {p : Pc} (hpc : s'.pc = Function.update s.pc t p)
    (hb : ∀ u j, u ≠ t → packing (s.pc u) = some j → ∀ i, (s'.buffs j.b).cells i = (s.buffs j.b).cells i)
    (hp : packing p = none) (hc : calling p = none) : Stamped s' := by
  refine h.gotoBuff hpc hb ?_ ?_
  · intro j hj
    rw [hp] at hj
    cases hj
  · intro j hj
    rw [hc] at hj
    cases hj

theorem Stamped.goto (h : Stamped s) {t : Fin n} {p : Pc} (hpc : s'.pc = Function.update s.pc t p)
    (hb : s'.buffs = s.buffs) (hp : ∀ j, packing p = some j → j.offset = 0 ∨ packing (s.pc t) = some j)
    (hz : ∀ j, calling p = some j → j.offset ≠ 0) : Stamped s' := by
  refine h.gotoBuff hpc (fun _ _ _ _ _ => by rw [hb]) (fun j hj i hi => ?_) hz
  rw [hb]
  rcases hp j hj with ho | ho
  · omega
  · exact h.cells t j ho i hi

theorem Stamped.packOne (h : Stamped s) (ho : Owners s) {t : Fin n} {j : Job} {x : Entry} {vec : List Entry}
    (ht : s.pc t = .pack j) : Stamped (s.packOne t j x vec) := by
  refine h.gotoBuff (t := t) rfl ?_ ?_ nofun
  · intro u i hu hi m
    have hne : i.b ≠ j.b := fun he => hu (ho.alone u t i.b (owns_of_packing hi) (by rw [ht, he]; rfl))
    simp only [State.packOne, State.goto, Function.update_of_ne hne]
  · intro i hi m hm
    cases hi
    have hm' : m < j.offset + x.cmd.length := hm
    simp only [State.packOne, State.goto, Function.update_self]
    by_cases hlt : m < j.offset
    · rw [write_cells_lt _ _ hlt]
      exact h.cells t j (by rw [ht]; rfl) m hlt
    · obtain ⟨i, rfl⟩ := Nat.exists_eq_add_of_le (Nat.le_of_not_lt hlt)
      have hi : i < x.cells.length := by
        rw [cells_length]
        omega
      rw [write_cells _ j.offset hi]
      simp only [Entry.cells, List.getElem_map, Option.isSome_some]

theorem Stamped.move (h : Stamped s) (ho : Owners s) {a : Act n} (m : Move s a s') : Stamped s' := by
  -- a call goes on with the job it has; one that is over leaves a job with nothing packed
  have on : ∀ {s' : State n} {t : Fin n} {p : Pc} {j : Job}, packing (s.pc t) = some j → j.offset ≠ 0 →
      packing p = some j → calling p = some j → s'.pc = Function.update s.pc t p → s'.buffs = s.buffs →
      Stamped s' := by
    intro s' t p j ht hz hp hc hpc hb
    refine h.goto hpc hb (fun i hi => .inr ?_) ?_
    · rw [ht, ← hp, hi]
    · intro i hi
      rw [hc] at hi
      cases hi
      exact hz
  have ends : ∀ {s' : State n} {t : Fin n} {p : Pc}, s'.pc = Function.update s.pc t p → s'.buffs = s.buffs →
      (packing p).all (·.offset = 0) = true → calling p = none → Stamped s' := by
    intro s' t p hpc hb hp hc
    refine h.goto hpc hb (fun i hi => .inl ?_) ?_
    · rw [hi] at hp
      exact of_decide_eq_true hp
    · intro i hi
      rw [hc] at hi
      cases hi
  cases m with
  | addNewClient _ _ => exact h.same rfl rfl
  | removeClient _ => exact h.same rfl rfl
  | removeAllClient _ => exact h.same rfl rfl
  | transmit _ _ _ => exact h.same rfl rfl
  | complete _ _ _ => exact h.same rfl rfl
  | @newBuff t b cells temp ht hb =>
    refine h.gotoOut (t := t) rfl ?_ rfl rfl
    intro u j _ hj i
    have hne : j.b ≠ b := by
      rintro rfl
      rw [ho.own u j.b (owns_of_packing hj)] at hb
      cases hb
    simp only [State.newBuff, State.goto, Function.update_of_ne hne]
  | @deleteBuff t _ b ht =>
    refine h.gotoOut (t := t) (p := .idle) rfl ?_ rfl rfl
    intro u j _ hj i
    by_cases hb : j.b = b
    · subst hb
      simp only [State.deleteBuff, State.goto, Function.update_self]
    · simp only [State.deleteBuff, State.goto, Function.update_of_ne hb]
  | turn _ => exact ends rfl rfl rfl rfl
  | packOne ht _ _ => exact h.packOne ho ht
  | packed ht hz => exact on (by rw [ht]; rfl) hz rfl rfl rfl rfl
  | @sendReq t _ j c ht _ => exact on (by rw [ht]; rfl) (h.calls t j (by rw [ht]; rfl)) rfl rfl rfl rfl
  | noContext _ _ => exact ends rfl rfl rfl rfl
  | @setLen t _ j ht =>
    have hz : j.offset ≠ 0 := h.calls t j (by rw [ht]; rfl)
    unfold State.setLen
    split <;> exact on (by rw [ht]; rfl) hz rfl rfl rfl rfl
  | @wsaSend t ok j _ =>
    unfold State.wsaSend
    split
    · exact ends rfl rfl rfl rfl
    · cases ok
      · exact ends rfl rfl rfl rfl
      · exact ends rfl rfl rfl rfl
  | sendFailed _ _ => exact ends rfl rfl rfl rfl
  | _ => exact ends rfl rfl rfl rfl

theorem stamped (h : (sys n).Reachable s) : Stamped s :=
  Sys.Reach.inv_of (J := Owners) (I := Stamped) (fun _ hr => owners hr.reachable) (fun _ hi => hi ▸ ⟨nofun, nofun⟩)
    (fun _ _ _ ho _ hs _ he => hs.move ho (step_move he)) h

/-- A pass that has called `SendReq` has commands of the client in line. -/
theorem Stamped.in_line (h : Stamped s) {t : Fin n} {j : Job} (hc : calling (s.pc t) = some j) :
    ∃ st, (j.k, st) ∈ line s (s.pc t) := by
  have hp : packing (s.pc t) = some j := by
    cases hpc : s.pc t <;> rw [hpc] at hc <;> first | exact hc | cases hc
  have hz : 0 < j.offset := Nat.pos_of_ne_zero (h.calls t j hc)
  obtain ⟨st, hst⟩ := Option.isSome_iff_exists.1 (h.cells t j hp 0 hz)
  refine ⟨st, List.mem_append_left _ ?_⟩
  rw [hp]
  refine List.mem_map.2 ⟨st, List.mem_filterMap.2 ⟨_, ?_, hst⟩, rfl⟩
  exact List.mem_map.2 ⟨0, List.mem_range.2 hz, rfl⟩

/-! ## Where commands are -/

/-- The commands under a handle are of connections of that handle. -/
structure Home (s : State n) : Prop where
  line : ∀ u, ∀ e ∈ line s (s.pc u), e.2.conn.sock = e.1
  conn : ∀ k c, s.clientCmd.find k = some c → c.conn.sock = k
  queue : ∀ k c, s.clientCmd.find k = some c → ∀ y ∈ c.sendQueue, y.stamp.conn.sock = k

/-- A queue changes, and so may the line of one pass. -/
theorem Home.setQueue (h : Home s) {k : Socket} {c : Client} {q : List Entry} (hf : s.clientCmd.find k = some c)
    (hc : s'.clientCmd = s.clientCmd.set k { c with sendQueue := q }) (hq : ∀ y ∈ q, y.stamp.conn.sock = k)
    (hl : ∀ u, ∀ e ∈ Send.line s' (s'.pc u), e ∈ Send.line s (s.pc u) ∨ e.2.conn.sock = e.1) : Home s' := by
  refine ⟨fun u e he => (hl u e he).elim (h.line u e) id, ?_, ?_⟩
  · intro j d hd
    rw [hc] at hd
    obtain ⟨b, hb, he, -⟩ := find_queue hf hd
    rw [← he]
    exact h.conn j b hb
  · intro j d hd y hy
    rw [hc] at hd
    obtain ⟨b, hb, -, ⟨-, rfl⟩ | ⟨rfl, rfl⟩⟩ := find_queue hf hd
    · exact h.queue j d hb y hy
    · exact hq y hy

theorem Home.flow (h : Home s) {a : Act n} (f : Flow s a s') : Home s' := by
  cases f with
  | less hc _ _ ht =>
    exact ⟨fun u e he => h.line u e ((ht u).mem he), fun k c hf => h.conn k c (hc k c hf),
      fun k c hf => h.queue k c (hc k c hf)⟩
  | @add _ k hc _ _ ht =>
    refine ⟨fun u e he => h.line u e ((ht u).mem he), fun j c hf => ?_, fun j c hf y hy => ?_⟩
    all_goals
      rw [hc, OrdMap.find_set] at hf
      split at hf
    · cases hf
      exact Eq.symm ‹_›
    · exact h.conn j c hf
    · cases hf
      cases hy
    · exact h.queue j c hf y hy
  | @push _ _ k c x hf hx hc _ _ ht =>
    refine h.setQueue hf hc ?_ fun u e he => .inl ((ht u).mem he)
    intro y hy
    rcases List.mem_append.1 hy with hy | hy
    · exact h.queue k c hf y hy
    · rw [List.mem_singleton.1 hy, hx]
      exact h.conn k c hf
  | @pop t ok _ k c x queue _ hf hq hc _ _ hl ht =>
    have hx : ∀ y ∈ x :: queue, y.stamp.conn.sock = k := fun y hy => h.queue k c hf y (hq ▸ hy)
    refine h.setQueue hf hc (fun y hy => hx y (List.mem_cons_of_mem _ hy)) (mem_of_but ht ?_)
    intro e he
    rw [hl] at he
    rcases List.mem_append.1 he with he | he
    · exact .inl he
    · rw [List.mem_singleton.1 he]
      exact .inr (hx x List.mem_cons_self)
  | @putBack t ok _ k c x _ hf _ hc _ _ hl ht =>
    refine h.setQueue hf hc ?_ (mem_of_but ht ?_)
    · intro y hy
      rcases List.mem_append.1 hy with hy | hy
      · exact h.queue k c hf y hy
      · rw [List.mem_singleton.1 hy]
        exact h.line t (k, x.stamp) (by rw [hl]; exact List.mem_append_right _ List.mem_cons_self)
    · intro e he
      rw [hl]
      exact .inl (List.mem_append_left _ he)
  | @give t ok _ j c _ _ hc _ _ hl ht =>
    refine ⟨fun u e he => h.line u e ?_, hc ▸ h.conn, hc ▸ h.queue⟩
    refine mem_of_but_sub ht ?_ u e he
    intro e he
    rw [hl]
    exact List.mem_append_right _ he

theorem home (h : (sys n).Reachable s) : Home s :=
  Sys.Reach.inv_of (J := Owners) (I := Home) (fun _ hr => owners hr.reachable)
    (fun _ hi => hi ▸ ⟨nofun, nofun, nofun⟩) (fun _ _ _ ho _ hs _ he => hs.flow (flow ho (step_move he))) h

/-- No two passes have commands for one client. -/
def Apart (s : State n) : Prop :=
  ∀ u v, u ≠ v → ∀ e ∈ line s (s.pc u), ∀ f ∈ line s (s.pc v), e.1 ≠ f.1

/-- Only a pass that pops gets new commands, and then no other pass has any for the client. -/
theorem Apart.flow (h : Apart s) {a : Act n} (hk : InTurn s a) (f : Flow s a s') : Apart s' := by
  have thin : (∀ u, ∀ e ∈ line s' (s'.pc u), e ∈ line s (s.pc u)) → Apart s' :=
    fun hm u v huv e he f hf => h u v huv e (hm u e he) f (hm v f hf)
  cases f with
  | less _ _ _ ht => exact thin fun u e => (ht u).mem
  | add _ _ _ ht => exact thin fun u e => (ht u).mem
  | push _ _ _ _ _ ht => exact thin fun u e => (ht u).mem
  | @pop t ok _ k c x queue hp hf hq _ _ _ hl ht =>
    have hnone : ∀ v, v ≠ t → ∀ f ∈ line s (s.pc v), f.1 ≠ k := by
      intro v hv f hf' he
      exact hk.1 k hp c hf (by rw [hq]; exact List.cons_ne_nil _ _) v hv (he ▸ unsent_of_line hf')
    have hm := mem_of_but (P := fun e => e.1 = k) ht (fun e he => by
      rw [hl] at he
      rcases List.mem_append.1 he with he | he
      · exact .inl he
      · rw [List.mem_singleton.1 he]
        exact .inr rfl)
    have hback : ∀ v, v ≠ t → ∀ f ∈ line s' (s'.pc v), f ∈ line s (s.pc v) := fun v hv f => (ht v hv).mem
    intro u v huv e he f hf'
    rcases hm u e he with he' | he' <;> rcases hm v f hf' with hf'' | hf''
    · exact h u v huv e he' f hf''
    · intro heq
      by_cases hu : u = t
      · exact hnone v (fun hv => huv (hu.trans hv.symm)) f (hback v (fun hv => huv (hu.trans hv.symm)) f hf') hf''
      · exact hnone u hu e he' (heq.trans hf'')
    · intro heq
      by_cases hv : v = t
      · exact hnone u (fun hu => huv (hu.trans hv.symm)) e (hback u (fun hu => huv (hu.trans hv.symm)) e he) he'
      · exact hnone v hv f hf'' (heq.symm.trans he')
    · by_cases hu : u = t
      · have hv : v ≠ t := fun hv => huv (hu.trans hv.symm)
        exact absurd hf'' (hnone v hv f (hback v hv f hf'))
      · exact absurd he' (hnone u hu e (hback u hu e he))
  | @putBack t ok _ k c x _ _ _ _ _ _ hl ht =>
    refine thin fun u => mem_of_but_sub ht ?_ u
    intro e he
    rw [hl]
    exact List.mem_append_left _ he
  | @give t ok _ j c _ _ _ _ _ hl ht =>
    refine thin fun u => mem_of_but_sub ht ?_ u
    intro e he
    rw [hl]
    exact List.mem_append_right _ he

/-! ## The channel of a client -/

/-- Commands for the handle `k` that passes have. -/
def inFlight (s : State n) (k : Socket) : List Stamp :=
  (List.finRange n).flatMap fun u => ((line s (s.pc u)).filter (·.1 = k)).map Prod.snd

def queued (s : State n) (k : Socket) : List Stamp := ((s.clientCmd.find k).elim [] (·.sendQueue)).map Entry.stamp

/-- From what has been given for the handle to what its queue accepted last. -/
def channel (s : State n) (k : Socket) : List Stamp :=
  s.given.filter (·.conn.sock = k) ++ (inFlight s k ++ queued s k)

theorem flatMap_single {α β : Type} (f : α → List β) (a : α) :
    ∀ l : List α, l.Nodup → a ∈ l → (∀ b ∈ l, b ≠ a → f b = []) → l.flatMap f = f a
  | [], _, ha, _ => nomatch ha
  | b :: l, hn, ha, h => by
    obtain ⟨hb, hn⟩ := List.nodup_cons.1 hn
    rw [List.flatMap_cons]
    by_cases hba : b = a
    · subst hba
      have hnil : l.flatMap f = [] := List.flatMap_eq_nil_iff.2 fun c hc =>
        h c (List.mem_cons_of_mem _ hc) fun he => hb (he ▸ hc)
      rw [hnil, List.append_nil]
    · rw [h b List.mem_cons_self hba, List.nil_append]
      refine flatMap_single f a l hn ?_ fun c hc => h c (List.mem_cons_of_mem _ hc)
      exact (List.mem_cons.1 ha).resolve_left fun he => hba he.symm

/-- Where only one pass has commands for a client, they are what is in flight. -/
theorem inFlight_alone {t : Fin n} {k : Socket} (h : ∀ v, v ≠ t → ∀ e ∈ line s (s.pc v), e.1 ≠ k) :
    inFlight s k = ((line s (s.pc t)).filter (·.1 = k)).map Prod.snd := by
  refine flatMap_single _ t _ (List.nodup_finRange n) (List.mem_finRange t) ?_
  intro v _ hv
  rw [List.filter_eq_nil_iff.2 fun e he => by simpa using h v hv e he]
  rfl

theorem inFlight_thins (h : ∀ u, Echo ((line s (s.pc u)).filter (·.1 = k)) ((line s' (s'.pc u)).filter (·.1 = k))) :
    Echo (inFlight s k) (inFlight s' k) := Echo.flatMap (fun u => (h u).map Prod.snd) _

theorem queued_congr {k : Socket} (h : s'.clientCmd.find k = s.clientCmd.find k) : queued s' k = queued s k := by
  rw [queued, queued, h]

theorem queued_set {k : Socket} {c : Client} (h : s'.clientCmd = s.clientCmd.set k c) :
    queued s' k = c.sendQueue.map Entry.stamp := by
  rw [queued, h, OrdMap.find_set_self]
  rfl

theorem queued_some {k : Socket} {c : Client} (h : s.clientCmd.find k = some c) :
    queued s k = c.sendQueue.map Entry.stamp := by
  rw [queued, h]
  rfl

/-- Nothing new, for a client whose queue is as it was, or empty. -/
theorem channel_thins {k : Socket} (hg : s'.given = s.given)
    (hl : ∀ u, Echo ((line s (s.pc u)).filter (·.1 = k)) ((line s' (s'.pc u)).filter (·.1 = k)))
    (hq : queued s' k = queued s k ∨ queued s' k = []) : Echo (channel s k) (channel s' k) := by
  rw [channel, channel, hg]
  refine (Echo.refl _).append ((inFlight_thins hl).append ?_)
  rcases hq with hq | hq
  · rw [hq]
  · rw [hq]
    exact .toNil _

/-- A pass's step about another client does not touch this one's channel. -/
theorem channel_other {t : Fin n} {k : Socket} (hg : s'.given = s.given) (ht : ThinsBut t s s')
    (hl : (line s' (s'.pc t)).filter (·.1 = k) = (line s (s.pc t)).filter (·.1 = k))
    (hq : s'.clientCmd.find k = s.clientCmd.find k) : Echo (channel s k) (channel s' k) := by
  refine channel_thins hg ?_ (.inl (queued_congr hq))
  intro u
  by_cases hu : u = t
  · subst hu
    rw [hl]
  · exact (ht u hu).filter _

/-- The queue of one client changes, and the line of one pass, which alone has commands for it. -/
theorem channel_eq {t : Fin n} {k : Socket} (ha : ∀ v, v ≠ t → ∀ e ∈ line s (s.pc v), e.1 ≠ k)
    (hg : s'.given = s.given) (ht : ThinsBut t s s')
    (he : ((line s' (s'.pc t)).filter (·.1 = k)).map Prod.snd ++ queued s' k =
      ((line s (s.pc t)).filter (·.1 = k)).map Prod.snd ++ queued s k) : channel s' k = channel s k := by
  have ha' : ∀ v, v ≠ t → ∀ e ∈ line s' (s'.pc v), e.1 ≠ k := fun v hv e he => ha v hv e ((ht v hv).mem he)
  rw [channel, channel, hg, inFlight_alone ha, inFlight_alone ha', he]

theorem filter_snoc_self (l : List (Socket × Stamp)) (k : Socket) (st : Stamp) :
    (l ++ [(k, st)]).filter (·.1 = k) = l.filter (·.1 = k) ++ [(k, st)] := by
  rw [List.filter_append, List.filter_cons_of_pos (by simp)]
  rfl

theorem filter_snoc_ne (l : List (Socket × Stamp)) {j k : Socket} (st : Stamp) (h : j ≠ k) :
    (l ++ [(k, st)]).filter (·.1 = j) = l.filter (·.1 = j) := by
  rw [List.filter_append, List.filter_cons_of_neg (by simpa using h.symm), List.filter_nil, List.append_nil]

theorem filter_packed (s : State n) (i : Job) (k : Socket) :
    (packedLine s i).filter (·.1 = k) = if i.k = k then packedLine s i else [] := by
  split
  case isTrue hk =>
    refine List.filter_eq_self.2 ?_
    intro e he
    obtain ⟨st, -, rfl⟩ := List.mem_map.1 he
    simpa using hk
  case isFalse hk =>
    refine List.filter_eq_nil_iff.2 ?_
    intro e he
    obtain ⟨st, -, rfl⟩ := List.mem_map.1 he
    simpa using hk

/-- What the step at `WSASend` gives is the head of the client's channel. -/
theorem channel_give (hh : Home s) (ha : Apart s) (hs : Stamped s) (hc : Calls s) {t : Fin n} {j : Job} {c : Context}
    (ht : s.pc t = .wsaSend j) (hf : s.clientsContext.find j.k = some c)
    (hg : s'.given = s.given ++ (s.buffs c.buf).stamps c.len) (hq : s'.clientCmd = s.clientCmd)
    (hl : line s (s.pc t) = packedLine s j ++ line s' (s'.pc t)) (hbut : ThinsBut t s s') (k : Socket) :
    Echo (channel s k) (channel s' k) := by
  obtain ⟨d, hd, hbuf, hlen⟩ := hc.len t j ht
  cases hf.symm.trans hd
  have hst : (packedLine s j).map Prod.snd = (s.buffs c.buf).stamps c.len := by
    rw [hbuf, hlen, packedLine, List.map_map]
    exact List.map_id _
  have hsock : ∀ st ∈ (s.buffs c.buf).stamps c.len, st.conn.sock = j.k := by
    intro st hm
    rw [← hst] at hm
    obtain ⟨e, he, rfl⟩ := List.mem_map.1 hm
    have hline := hh.line t e (by rw [hl]; exact List.mem_append_left _ he)
    obtain ⟨st, -, rfl⟩ := List.mem_map.1 he
    exact hline
  have hqk : queued s' k = queued s k := queued_congr (by rw [hq])
  by_cases hk : j.k = k
  · -- the client's own channel: the packed commands go from the line to what has been given
    subst hk
    obtain ⟨st, hst'⟩ := hs.in_line (t := t) (j := j) (by rw [ht]; rfl)
    have hone : ∀ v, v ≠ t → ∀ e ∈ line s (s.pc v), e.1 ≠ j.k := fun v hv e he => ha v t hv e he _ hst'
    have hone' : ∀ v, v ≠ t → ∀ e ∈ line s' (s'.pc v), e.1 ≠ j.k := fun v hv e he => hone v hv e ((hbut v hv).mem he)
    have hfull : ((s.buffs c.buf).stamps c.len).filter (·.conn.sock = j.k) = (s.buffs c.buf).stamps c.len :=
      List.filter_eq_self.2 fun st hm => by simpa using hsock st hm
    rw [channel, channel, inFlight_alone hone, inFlight_alone hone', hqk, hl, hg, List.filter_append, List.filter_append,
      hfull, List.map_append, filter_packed, if_pos rfl, hst, List.append_assoc, List.append_assoc]
  · have hnil : ((s.buffs c.buf).stamps c.len).filter (·.conn.sock = k) = [] :=
      List.filter_eq_nil_iff.2 fun st hm => by simpa using fun he => hk ((hsock st hm).symm.trans he)
    rw [channel, channel, hg, List.filter_append, hnil, List.append_nil, hqk]
    refine (Echo.refl _).append ((inFlight_thins ?_).append (.refl _))
    intro u
    by_cases hu : u = t
    · subst hu
      rw [hl, List.filter_append, filter_packed, if_neg hk, List.nil_append]
    · exact (hbut u hu).filter _

/-! ## The order -/

/-- The channels are in the order of acceptance, and what a queue will accept comes behind them. -/
structure Ordered (s : State n) : Prop where
  order : ∀ k, (channel s k).Pairwise Before
  old : ∀ k, ∀ st ∈ channel s k, st.seq < s.nextSeq

/-- A channel loses, repeats, or gets the command accepted last. -/
theorem Ordered.echo (h : Ordered s) (hn : s.nextSeq ≤ s'.nextSeq)
    (he : ∀ k, Echo (channel s k) (channel s' k) ∨
      ∃ st, st.seq = s.nextSeq ∧ s.nextSeq < s'.nextSeq ∧ Echo (channel s k ++ [st]) (channel s' k)) : Ordered s' := by
  refine ⟨?_, ?_⟩
  · intro k
    rcases he k with he | ⟨st, hs, -, he⟩
    · exact he.pairwise before_refl (h.order k)
    · refine he.pairwise before_refl (List.pairwise_append.2 ⟨h.order k, List.pairwise_singleton _ _, ?_⟩)
      intro x hx y hy _
      rw [List.mem_singleton.1 hy, hs]
      exact Nat.le_of_lt (h.old k x hx)
  · intro k st hst
    rcases he k with he | ⟨y, hs, hlt, he⟩
    · exact Nat.lt_of_lt_of_le (h.old k st (he.mem hst)) hn
    · rcases List.mem_append.1 (he.mem hst) with hst | hst
      · exact Nat.lt_of_lt_of_le (h.old k st hst) hn
      · rw [List.mem_singleton.1 hst, hs]
        exact hlt

/-- What the step of a pass does to a channel when the pass alone has commands for the client `j`. -/
theorem channel_step {t : Fin n} {j : Socket} {c : Client} {q : List Entry}
    (ha : ∀ v, v ≠ t → ∀ e ∈ line s (s.pc v), e.1 ≠ j) (hg : s'.given = s.given) (ht : ThinsBut t s s')
    (hc : s'.clientCmd = s.clientCmd.set j { c with sendQueue := q })
    (hl : ∀ k, k ≠ j → (line s' (s'.pc t)).filter (·.1 = k) = (line s (s.pc t)).filter (·.1 = k))
    (he : ((line s' (s'.pc t)).filter (·.1 = j)).map Prod.snd ++ q.map Entry.stamp =
      ((line s (s.pc t)).filter (·.1 = j)).map Prod.snd ++ queued s j) (k : Socket) :
    Echo (channel s k) (channel s' k) := by
  by_cases hk : k = j
  · subst hk
    rw [channel_eq ha hg ht (by rw [queued_set hc, he])]
  · exact channel_other hg ht (hl k hk) (by rw [hc, OrdMap.find_set_ne hk])

theorem Ordered.flow (h : Ordered s) (hh : Home s) (hs : Stamped s) (ha : Apart s) (hc : Calls s) {a : Act n}
    (hk : InTurn s a) (f : Flow s a s') : Ordered s' := by
  cases f with
  | less hcl hg hn ht =>
    refine h.echo hn.ge fun k => .inl (channel_thins hg (fun u => (ht u).filter _) ?_)
    cases hf : s'.clientCmd.find k with
    | none => exact .inr (by rw [queued, hf]; rfl)
    | some c => exact .inl (by rw [queued_some hf, queued_some (hcl k c hf)])
  | @add _ j hcl hg hn ht =>
    refine h.echo hn.ge fun k => .inl (channel_thins hg (fun u => (ht u).filter _) ?_)
    by_cases hkj : k = j
    · subst hkj
      exact .inr (queued_set hcl)
    · exact .inl (queued_congr (by rw [hcl, OrdMap.find_set_ne hkj]))
  | @push _ _ j c x hf hx hcl hg hn ht =>
    refine h.echo (by omega) ?_
    intro k
    by_cases hkj : k = j
    · subst hkj
      refine .inr ⟨x.stamp, by rw [hx], by omega, ?_⟩
      have hq : queued s' k = queued s k ++ [x.stamp] := by
        rw [queued_set hcl, queued_some hf, List.map_append]
        rfl
      rw [channel, channel, hg, hq, List.append_assoc, List.append_assoc]
      exact (Echo.refl _).append ((inFlight_thins fun u => (ht u).filter _).append (.refl _))
    · refine .inl (channel_thins hg (fun u => (ht u).filter _) (.inl (queued_congr ?_)))
      rw [hcl, OrdMap.find_set_ne hkj]
  | @pop t ok _ j c x queue hp hf hq hcl hg hn hl ht =>
    have hone : ∀ v, v ≠ t → ∀ e ∈ line s (s.pc v), e.1 ≠ j := by
      intro v hv e he hej
      exact hk.1 j hp c hf (by rw [hq]; exact List.cons_ne_nil _ _) v hv (hej ▸ unsent_of_line he)
    refine h.echo hn.ge fun k => .inl (channel_step hone hg ht hcl ?_ ?_ k)
    · intro k hkj
      rw [hl, filter_snoc_ne _ _ hkj]
    · rw [hl, filter_snoc_self, List.map_append, queued_some hf, hq, List.append_assoc]
      rfl
  | @putBack t ok _ j c x hp hf hlen hcl hg hn hl ht =>
    have hmem : (j, x.stamp) ∈ line s (s.pc t) := by
      rw [hl]
      exact List.mem_append_right _ List.mem_cons_self
    have hnil : c.sendQueue = [] := hk.2 j hp c hf hlen
    refine h.echo hn.ge fun k => .inl (channel_step (fun v hv e he => ha v t hv e he _ hmem) hg ht hcl ?_ ?_ k)
    · intro k hkj
      rw [hl, filter_snoc_ne _ _ hkj]
    · rw [hl, filter_snoc_self, queued_some hf, hnil, List.nil_append, List.map_append, List.map_nil, List.append_nil]
      rfl
  | give ht hf hq hg hn hl hbut =>
    exact h.echo hn.ge fun k => .inl (channel_give hh ha hs hc ht hf hg hq hl hbut k)

theorem calling_of_setsBuf {p : Pc} {k : Socket} (h : setsBuf p = some k) :
    between p = none ∧ ∃ j, calling p = some j ∧ j.k = k := by
  cases p <;> cases h
  exact ⟨rfl, _, rfl, rfl⟩

theorem calling_of_between {p : Pc} {k : Socket} (h : between p = some k) : ∃ j, calling p = some j ∧ j.k = k := by
  cases p <;> cases h <;> exact ⟨_, rfl, rfl⟩

/-- Two passes in `SendReq` for one client both have its commands. -/
theorem Calls.apart (hc : Calls s) (hs : Stamped s) (ha : Apart s) {a : Act n} (m : Move s a s') : Calls s' := by
  refine hc.move m ?_
  rintro t ok rfl k hk u hu
  obtain ⟨hnone, j, hj, hjk⟩ := calling_of_setsBuf hk
  obtain ⟨i, hi, hik⟩ := calling_of_between hu
  have hne : u ≠ t := by
    rintro rfl
    rw [hnone] at hu
    cases hu
  obtain ⟨st, hst⟩ := hs.in_line hj
  obtain ⟨st', hst'⟩ := hs.in_line hi
  exact ha u t hne _ hst' _ hst (hik.trans hjk.symm)

theorem ordered (h : (sys n).Reach InTurn s) : Calls s ∧ Apart s ∧ Ordered s := by
  refine h.inv_of (J := fun s => Owners s ∧ Stamped s ∧ Home s) (I := fun s => Calls s ∧ Apart s ∧ Ordered s)
    (fun _ hr => ⟨owners hr.reachable, stamped hr.reachable, home hr.reachable⟩) ?_ ?_
  · rintro _ rfl
    have hnil : ∀ k, channel (start n) k = [] := fun k => by
      simp [channel, inFlight, queued, start, line, packing, load]
    refine ⟨.unshared fun _ => rfl, fun _ _ _ e he => absurd he List.not_mem_nil, ?_, ?_⟩
    · intro k
      rw [hnil]
      exact .nil
    · intro k st hst
      rw [hnil] at hst
      cases hst
  · rintro s a s' ⟨ho, hs, hh⟩ - ⟨hc, ha, hord⟩ hk he
    have f := Send.flow ho (step_move he)
    exact ⟨hc.apart hs ha (step_move he), ha.flow hk f, hord.flow hh hs ha hc hk f⟩

/-- Commands of one connection are of one handle. -/
theorem pairwise_sock : ∀ l : List Stamp, (∀ k, (l.filter (·.conn.sock = k)).Pairwise Before) → l.Pairwise Before
  | [], _ => .nil
  | x :: l, h => by
    refine List.pairwise_cons.2 ⟨?_, pairwise_sock l ?_⟩
    · intro y hy hxy
      have hx := h x.conn.sock
      rw [List.filter_cons_of_pos (by simp)] at hx
      exact (List.pairwise_cons.1 hx).1 y (List.mem_filter.2 ⟨hy, by simp [hxy]⟩) hxy
    · intro k
      exact (h k).sublist ((List.sublist_cons_self x l).filter _)

/-- **Commands to a client keep their order.** -/
theorem inOrder (h : (sys n).Reach InTurn s) : s.given.Pairwise Before := by
  refine pairwise_sock _ ?_
  intro k
  exact ((ordered h).2.2.order k).sublist (List.sublist_append_left _ _)

/-- Two passes one after the other, each with a command of the one client. -/
theorem inOrder_two : ∃ s : State 3, (sys 3).Reach InTurn s ∧
    s.given.map Stamp.seq = [0, 0, 0, 0, 0, 0, 1, 1, 1, 1, 1, 1] ∧ s.given.Pairwise Before :=
  have hr : (sys 3).Reach InTurn _ := Sys.Reach.runK ([.addNewClient 1] ++ callRun 2 1 (headerCmd 7) ++
    [.sendThread 0] ++ runs 0 4 ++ [.newBuff 0 9 fun _ => ⟨0, none⟩] ++ runs 0 6 ++ callRun 2 1 (headerCmd 8) ++
    [.sendThread 1] ++ runs 1 4 ++ [.newBuff 1 10 fun _ => ⟨0, none⟩] ++ runs 1 6) (.init rfl) rfl
  ⟨_, hr, rfl, inOrder hr⟩

/-- The second pass takes the second command and is through `SendReq` before the first one gets there. -/
theorem not_inOrder : ¬ ∀ s : State 4, (sys 4).Reachable s → s.given.Pairwise Before := by
  intro h
  have hr : (sys 4).Reachable _ := Sys.Reachable.run ([.addNewClient 1] ++ callRun 2 1 (headerCmd 7) ++
    [.sendThread 0] ++ runs 0 4 ++ callRun 2 1 (headerCmd 8) ++ [.sendThread 1] ++ runs 1 4 ++
    [.newBuff 1 10 fun _ => ⟨0, none⟩] ++ runs 1 6 ++ [.newBuff 0 9 fun _ => ⟨0, none⟩] ++ runs 0 6) (.init rfl) rfl
  have hp := (List.pairwise_cons.1 (h _ hr)).1 ⟨⟨1, 0⟩, 0⟩ (List.mem_of_getElem? (i := 6) rfl) rfl
  exact absurd hp (by decide)

end P1Server.Send
