import P1Server.Lib.Batch
import P1Server.SendLine

/-!
# One pass of `SendThread`

A pass that no other thread interferes with: from its call until it returns, only its own steps.

| here | there |
| --- | --- |
| `own`, `answer` | the next step of the pass; the address and the content of the new `sendBuff` (`TCPServer.cpp:141`) and the clients that `WSASend` fails for (`:242`) are given |
| `Event`, `seen` | `memcpy_s` (`:153`), the flush (`:159-161`), `SendReq(clientSocket, sendBuff, offset)` (`:160`, `:168`) |
| `packet`        | the longest prefix of a queue that a pass may send at once |
| `takeAll`       | the loop over one client's queue (`:107-131`): what is taken, what the queue has then |

* `takeAll_spec` — the loop takes the packet, and the rest of the queue stays in it;
* `draining` — the loop over the clients, from `takeAll`;
* `packAll` — the packing loop never flushes what the drain has counted, and fills the buffer in order;
* `sendingAll` — one `SendReq` for each client with commands;
* `pass` — a pass that runs alone returns, and `Sends` says what it has done.
-/

namespace P1Server.Send
open Lib

variable {n : Nat} {s : State n} {t : Fin n} {b : Nat} {cells : Nat → Cell} {fails : Socket → Bool}

/-! ## A pass alone -/

/-- What `WSASend` answers; no other step has an answer. -/
def answer (fails : Socket → Bool) : Pc → Bool
  | .wsaSend j => !fails j.k
  | _ => true

def own (t : Fin n) (b : Nat) (cells : Nat → Cell) (fails : Socket → Bool) (s : State n) : Act n :=
  match s.pc t with
  | .drained (_ :: _) => .newBuff t b cells
  | p => .run t (answer fails p)

/-- The pass has not returned and takes its next step. -/
def Own (t : Fin n) (b : Nat) (cells : Nat → Cell) (fails : Socket → Bool) (s : State n) (a : Act n) : Prop :=
  s.pc t ≠ .idle ∧ a = own t b cells fails s

inductive Event where
  | memcpy (b offset length : Nat)
  | flush
  | sendReq (k : Socket) (bytes : List Cell)

/-- What the next step of thread `t` does to `sendBuff` or sends. -/
def seen (t : Fin n) (s : State n) (_ : Act n) : List Event :=
  match s.pc t with
  | .pack j =>
    match j.vec with
    | x :: _ => if j.offset + x.cmd.length < SOCKET_BUFFER_SIZE then [.memcpy j.b j.offset x.cmd.length] else [.flush]
    | [] => []
  | .sendReq j => [.sendReq j.k ((s.buffs j.b).read j.offset)]
  | _ => []

/-- Steps of a pass that runs alone. -/
def Steps (t : Fin n) (b : Nat) (cells : Nat → Cell) (fails : Socket → Bool) : State n → List Event → State n → Prop :=
  (sys n).Shows (Own t b cells fails) (seen t)

theorem Steps.trans {s' s'' : State n} {l l' : List Event} (h : Steps t b cells fails s l s')
    (h' : Steps t b cells fails s' l' s'') : Steps t b cells fails s (l ++ l') s'' := Sys.Shows.trans h h'

/-- A pass from its call on. -/
def Begun (t : Fin n) (b : Nat) (cells : Nat → Cell) (fails : Socket → Bool) (s : State n) (l : List Event)
    (s' : State n) : Prop :=
  ∃ s₁, step s (.sendThread t) = some s₁ ∧ Steps t b cells fails s₁ l s'

/-- A pass from its call to its return. -/
def Pass (t : Fin n) (b : Nat) (cells : Nat → Cell) (fails : Socket → Bool) (s : State n) (l : List Event)
    (s' : State n) : Prop :=
  Begun t b cells fails s l s' ∧ s'.pc t = .idle

/-- The calls of `SendReq`: for whom, with which bytes. -/
def reqs (l : List Event) : List (Socket × List Cell) :=
  l.filterMap fun e => match e with
    | .sendReq k bytes => some (k, bytes)
    | _ => none

/-- Written only inside the buffer at `b`, and not sent in the middle. -/
def Event.Tidy (b : Nat) : Event → Prop
  | .memcpy b' offset length => b' = b ∧ offset + length ≤ SOCKET_BUFFER_SIZE
  | .flush => False
  | .sendReq _ _ => True

@[simp] theorem reqs_append (l l' : List Event) : reqs (l ++ l') = reqs l ++ reqs l' := List.filterMap_append

/-- **A pass that has returned continues every other run of its steps**: what one pass does, all do. -/
theorem Begun.onward {l l' : List Event} {u u' : State n} (h : Pass t b cells fails s l u)
    (h' : Begun t b cells fails s l' u') : ∃ l₂, l = l' ++ l₂ ∧ Steps t b cells fails u' l₂ u := by
  obtain ⟨⟨s₁, h₁, h⟩, hu⟩ := h
  obtain ⟨s₂, h₂, h'⟩ := h'
  cases h₁.symm.trans h₂
  exact Sys.Shows.onward (fun _ _ _ ha ha' => ha.2.trans ha'.2.symm) (fun _ ha => ha.1 hu) h h'

/-- A step from place `p`. -/
theorem goes {s' : State n} {p : Pc} {l : List Event} (hp : s.pc t = p) (hi : p ≠ .idle)
    (he : s.next t (answer fails p) p = some s') (hl : seen t s (own t b cells fails s) = l) :
    Steps t b cells fails s l s' := by
  have hown : own t b cells fails s = .run t (answer fails p) := by
    subst hp
    unfold own
    split
    case h_1 hp =>
      rw [hp] at he
      cases he
    case h_2 => rfl
  subst hp hl
  refine Sys.Shows.one ⟨hi, rfl⟩ ?_
  rw [hown]
  exact he

/-- Nothing is to be seen of the step from such a place. -/
def silent : Pc → Bool
  | .idle | .pack _ | .sendReq _ => false
  | _ => true

theorem silently {s' : State n} {p : Pc} (hp : s.pc t = p) (hq : silent p = true)
    (he : s.next t (answer fails p) p = some s') : Steps t b cells fails s [] s' := by
  refine goes hp ?_ he ?_
  · rintro rfl
    cases hq
  · rw [seen, hp]
    cases p with
    | idle | pack _ | sendReq _ => cases hq
    | _ => rfl

/-! ## What a pass may send at once -/

/-- The longest prefix of at most `FRAME_NUMBER_SEND_DATA` commands that is shorter than the buffer. -/
def packet (q : List Entry) : List Entry :=
  batch (fun x => x.cmd.length) FRAME_NUMBER_SEND_DATA SOCKET_BUFFER_SIZE q

/-- The loop over a queue `q` when `vec` has been taken. -/
def takeAll (vec : List Entry) : List Entry → List Entry × List Entry
  | [] => (vec, [])
  | x :: q =>
    if vec.length < FRAME_NUMBER_SEND_DATA then
      if cmdLength vec + x.cmd.length < SOCKET_BUFFER_SIZE then takeAll (vec ++ [x]) q else (vec, q ++ [x])
    else (vec, x :: q)

theorem cmdLength_concat (vec : List Entry) (x : Entry) : cmdLength (vec ++ [x]) = cmdLength vec + x.cmd.length := by
  simp [cmdLength]

theorem cmdLength_packet (q : List Entry) : cmdLength (packet q) < SOCKET_BUFFER_SIZE := batch_weight_lt (by decide)

/-- **The loop takes the longest prefix that fits, and the queue has the other commands.** -/
theorem takeAll_spec (q : List Entry) {vec : List Entry} (hv : vec.length ≤ FRAME_NUMBER_SEND_DATA)
    (hl : cmdLength vec < SOCKET_BUFFER_SIZE) :
    (takeAll vec q).1 = packet (vec ++ q) ∧ ((takeAll vec q).1 ++ (takeAll vec q).2).Perm (vec ++ q) := by
  induction q generalizing vec with
  | nil =>
    rw [List.append_nil]
    exact ⟨(batch_of_within hv hl).symm, by simp [takeAll]⟩
  | cons x q ih =>
    simp only [takeAll]
    split
    case isTrue hn =>
      split
      case isTrue hx =>
        have h := @ih (vec ++ [x]) (by rw [List.length_append]; exact hn) (by rwa [cmdLength_concat])
        rwa [List.append_assoc, List.singleton_append] at h
      case isFalse hx =>
        exact ⟨(batch_of_stop hv hl (.inr (Nat.le_of_not_lt hx))).symm,
          (List.perm_append_singleton x q).append_left vec⟩
    case isFalse hn =>
      exact ⟨(batch_of_stop hv hl (.inl (by omega))).symm, .refl _⟩

/-- The queue behind a pass. -/
def settle (q : List Entry) : List Entry := (takeAll [] q).2

theorem takeAll_packet (q : List Entry) : takeAll [] q = (packet q, settle q) :=
  Prod.ext (takeAll_spec q (Nat.zero_le _) (by decide)).1 rfl

theorem settle_perm (q : List Entry) : (packet q ++ settle q).Perm q := by
  have h := (@takeAll_spec q [] (Nat.zero_le _) (by decide)).2
  rwa [takeAll_packet] at h

/-! ## The loop over the clients -/

/-- `s` with the clients `m` and thread `t` at `p`. -/
def State.has (s : State n) (t : Fin n) (m : OrdMap Socket Client) (p : Pc) : State n :=
  ({ s with clientCmd := m }).goto t p

@[simp] theorem has_pc (m : OrdMap Socket Client) (p : Pc) : (s.has t m p).pc t = p := Function.update_self ..

theorem has_pc_ne {m : OrdMap Socket Client} {p : Pc} {u : Fin n} (hu : u ≠ t) : (s.has t m p).pc u = s.pc u :=
  Function.update_of_ne hu ..

@[simp] theorem has_goto (m : OrdMap Socket Client) (p q : Pc) : (s.has t m p).goto t q = s.has t m q := by
  simp only [State.has, State.goto, Function.update_idem]

theorem pop_goes {m : OrdMap Socket Client} {k : Socket} {todo : List Socket} {vec : List Entry} {temp : TempCmds}
    {s' : State n} (h : (s.has t m (.popping k todo vec temp)).pop t k todo vec temp = s') :
    Steps t b cells fails (s.has t m (.popping k todo vec temp)) [] s' :=
  silently (has_pc _ _) rfl (congrArg some h)

theorem find_keep {m : OrdMap Socket Client} {k : Socket} {c : Client} (hf : m.find k = some c) (j : Socket) :
    m.find j = if j = k then some c else m.find j := by
  split
  case isTrue hj => rw [hj, hf]
  case isFalse => rfl

/-- One client: its queue is as `takeAll` leaves it. -/
theorem popping {k : Socket} {todo : List Socket} {temp : TempCmds} (q : List Entry) {m : OrdMap Socket Client}
    {c : Client} {vec : List Entry} (hf : m.find k = some c) (hq : c.sendQueue = q) (hl : q.length ≤ QUEUE_SIZE) :
    ∃ m' : OrdMap Socket Client,
      Steps t b cells fails (s.has t m (.popping k todo vec temp)) []
        (s.has t m' (.drain todo (temp ++ [(k, (takeAll vec q).1)]))) ∧
      ∀ j, m'.find j = if j = k then some { c with sendQueue := (takeAll vec q).2 } else m.find j := by
  induction q generalizing m c vec with
  | nil =>
    refine ⟨m, pop_goes ?_, ?_⟩
    · simp [State.pop, State.has, State.goto, hf, hq, takeAll]
    · intro j
      simp only [takeAll, ← hq]
      exact find_keep hf j
  | cons x q ih =>
    simp only [List.length_cons] at hl
    simp only [takeAll]
    split
    case isTrue hn =>
      split
      case isTrue hx =>
        have hpop : (s.has t m (.popping k todo vec temp)).pop t k todo vec temp =
            s.has t (m.set k { c with sendQueue := q }) (.popping k todo (vec ++ [x]) temp) := by
          simp [State.pop, State.has, State.goto, hf, hq, hn, hx]
        obtain ⟨m', hs, hm'⟩ := @ih _ _ (vec ++ [x]) (OrdMap.find_set_self m k { c with sendQueue := q }) rfl (by omega)
        refine ⟨m', (pop_goes hpop).trans hs, fun j => (hm' j).trans ?_⟩
        split
        case isTrue => rfl
        case isFalse hj => exact OrdMap.find_set_ne hj
      case isFalse hx =>
        have hpop : (s.has t m (.popping k todo vec temp)).pop t k todo vec temp =
            s.has t (m.set k { c with sendQueue := q }) (.full k todo vec x temp) := by
          simp [State.pop, State.has, State.goto, hf, hq, hn, hx]
        -- the popped command left room for itself
        have hput : (s.has t (m.set k { c with sendQueue := q }) (.full k todo vec x temp)).putBack t k todo vec x
            temp = s.has t ((m.set k { c with sendQueue := q }).set k { c with sendQueue := q ++ [x] })
              (.drain todo (temp ++ [(k, vec)])) := by
          simp [State.putBack, State.has, State.goto, Nat.lt_of_succ_le hl]
        refine ⟨_, (pop_goes hpop).trans (silently (has_pc _ _) rfl (congrArg some hput)), ?_⟩
        intro j
        rw [OrdMap.find_set, OrdMap.find_set]
        split <;> rfl
    case isFalse hn =>
      refine ⟨m, pop_goes ?_, ?_⟩
      · simp [State.pop, State.has, State.goto, hn]
      · intro j
        simp only [← hq]
        exact find_keep hf j

/-- What the loop over the clients takes. -/
def temps (todo : List (Socket × Client)) : TempCmds := todo.map fun e => (e.1, packet e.2.sendQueue)

def Client.settle (c : Client) : Client := { c with sendQueue := Send.settle c.sendQueue }

/-- The clients behind the loop: those of `todo` have been settled. -/
theorem draining (todo : List (Socket × Client)) {m : OrdMap Socket Client} {temp : TempCmds}
    (hm : ∀ e ∈ todo, m.find e.1 = some e.2 ∧ e.2.sendQueue.length ≤ QUEUE_SIZE)
    (hk : (todo.map Prod.fst).Nodup) :
    ∃ m' : OrdMap Socket Client,
      Steps t b cells fails (s.has t m (.drain (todo.map Prod.fst) temp)) []
        (s.has t m' (.drained (temp ++ temps todo))) ∧
      ∀ j, m'.find j = if j ∈ todo.map Prod.fst then (m.find j).map Client.settle else m.find j := by
  induction todo generalizing m temp with
  | nil =>
    refine ⟨m, silently (has_pc _ _) rfl ?_, fun j => by simp⟩
    simp [State.next, temps]
  | cons e todo ih =>
    obtain ⟨k, c⟩ := e
    obtain ⟨hf, hl⟩ : m.find k = some c ∧ c.sendQueue.length ≤ QUEUE_SIZE := hm _ List.mem_cons_self
    rw [List.map_cons, List.nodup_cons] at hk
    obtain ⟨m₁, h₁, hm₁⟩ := @popping n s t b cells fails k (todo.map Prod.fst) temp c.sendQueue m c [] hf rfl hl
    rw [takeAll_packet] at h₁ hm₁
    have hne : ∀ e ∈ todo, e.1 ≠ k := fun e he hek => hk.1 (List.mem_map.2 ⟨e, he, hek⟩)
    obtain ⟨m', h', hm'⟩ := @ih m₁ (temp ++ [(k, packet c.sendQueue)]) (fun e he => by
      rw [hm₁, if_neg (hne e he)]
      exact hm e (List.mem_cons_of_mem _ he)) hk.2
    have h₀ : Steps t b cells fails (s.has t m (.drain (k :: todo.map Prod.fst) temp)) []
        (s.has t m (.popping k (todo.map Prod.fst) [] temp)) :=
      silently (has_pc _ _) rfl (by simp [State.next])
    have htemp : temp ++ temps ((k, c) :: todo) = temp ++ [(k, packet c.sendQueue)] ++ temps todo := by simp [temps]
    refine ⟨m', ?_, ?_⟩
    · rw [htemp]
      exact h₀.trans (h₁.trans h')
    · intro j
      rw [hm' j, hm₁ j, List.map_cons]
      by_cases hj : j = k
      · have hnot : j ∉ todo.map Prod.fst := hj ▸ hk.1
        rw [if_neg hnot, if_pos hj, if_pos (hj ▸ List.mem_cons_self), hj, hf]
        rfl
      · simp only [if_false, List.mem_cons, hj, false_or]

/-! ## Packing and sending -/

/-- What the rest of a pass leaves alone: the other threads, and the clients that no send fails for. -/
structure Framed (t : Fin n) (fails : Socket → Bool) (s s' : State n) : Prop where
  pc : ∀ u, u ≠ t → s'.pc u = s.pc u
  sub : ∀ k c, s'.clientCmd.find k = some c → s.clientCmd.find k = some c
  keeps : ∀ k, fails k = false → s'.clientCmd.find k = s.clientCmd.find k

variable {s' s'' : State n}

theorem Framed.refl : Framed t fails s s := ⟨fun _ _ => rfl, fun _ _ h => h, fun _ _ => rfl⟩

theorem Framed.trans (h : Framed t fails s s') (h' : Framed t fails s' s'') : Framed t fails s s'' :=
  ⟨fun u hu => (h'.pc u hu).trans (h.pc u hu), fun k c hc => h.sub k c (h'.sub k c hc),
    fun k hk => (h'.keeps k hk).trans (h.keeps k hk)⟩

/-- A step that only moves thread `t`, as far as this goes. -/
theorem Framed.same {p : Pc} (hp : s'.pc = Function.update s.pc t p) (hc : s'.clientCmd = s.clientCmd) :
    Framed t fails s s' :=
  ⟨fun u hu => by rw [hp, Function.update_of_ne hu], fun _ _ h => hc ▸ h, fun _ _ => by rw [hc]⟩

/-- No thread but `t` is in a shared section. -/
def Alone (t : Fin n) (s : State n) : Prop := ∀ u, u ≠ t → shares (s.pc u) = false

theorem Framed.alone (h : Framed t fails s s') (ha : Alone t s) : Alone t s' := fun u hu => by
  rw [h.pc u hu]
  exact ha u hu

def Tidy (b : Nat) (l : List Event) : Prop := ∀ e ∈ l, e.Tidy b

theorem Tidy.nil : Tidy b [] := List.forall_mem_nil _

theorem Tidy.append {l l' : List Event} (h : Tidy b l) (h' : Tidy b l') : Tidy b (l ++ l') :=
  fun e he => (List.mem_append.1 he).elim (h e) (h' e)

/-- **The packing loop.** What the drain has counted fits; the buffer gets the commands in order. -/
theorem packAll (vec : List Entry) {s : State n} {j : Job} (hp : s.pc t = .pack { j with vec := vec })
    (hl : j.offset + cmdLength vec < SOCKET_BUFFER_SIZE) :
    ∃ l s', Steps t b cells fails s l s' ∧
      s'.pc t = .pack { j with vec := [], offset := j.offset + cmdLength vec } ∧
      (s'.buffs j.b).read (j.offset + cmdLength vec) = (s.buffs j.b).read j.offset ++ vec.flatMap Entry.cells ∧
      Framed t fails s s' ∧ reqs l = [] ∧ Tidy j.b l := by
  induction vec generalizing s j with
  | nil => exact ⟨[], s, .refl, by simpa [cmdLength] using hp, by simp [cmdLength], .refl, rfl, .nil⟩
  | cons x vec ih =>
    have hlen : cmdLength (x :: vec) = x.cmd.length + cmdLength vec := by simp [cmdLength]
    have hfit : j.offset + x.cmd.length < SOCKET_BUFFER_SIZE := by omega
    have hgo : Steps t b cells fails s [.memcpy j.b j.offset x.cmd.length]
        (s.packOne t { j with vec := x :: vec } x vec) := by
      refine goes hp (by simp) ?_ ?_
      · simp [State.next, State.pack, hfit]
      · rw [seen, hp]
        exact if_pos hfit
    have hread : ((s.packOne t { j with vec := x :: vec } x vec).buffs j.b).read (j.offset + x.cmd.length) =
        (s.buffs j.b).read j.offset ++ x.cells := by
      simp only [State.packOne, State.goto, Function.update_self]
      rw [← cells_length, read_write]
    obtain ⟨l, s', hs, hpc, hb, hkept, hreq, htidy⟩ := @ih (s.packOne t { j with vec := x :: vec } x vec)
      { j with offset := j.offset + x.cmd.length } (by simp [State.packOne, State.goto]) (by
        rw [hlen] at hl
        show j.offset + x.cmd.length + _ < _
        omega)
    have hsame : Framed t fails s (s.packOne t { j with vec := x :: vec } x vec) := .same rfl rfl
    refine ⟨_, s', hgo.trans hs, ?_, ?_, hsame.trans hkept, ?_, ?_⟩
    · rw [hpc, hlen, Nat.add_assoc]
    · rw [hlen, ← Nat.add_assoc, hb, hread, List.append_assoc, List.flatMap_cons]
    · rw [reqs_append, hreq]
      rfl
    · refine Tidy.append ?_ htidy
      intro e he
      cases List.mem_singleton.1 he
      exact ⟨rfl, Nat.le_of_lt hfit⟩

theorem Framed.removeClient {j : Job} (hf : fails j.k = true) :
    Framed t fails s ((s.removeClient j.k).goto t (.pack j.sent)) := by
  refine ⟨fun u hu => Function.update_of_ne hu _ _, ?_, fun k hk => OrdMap.find_erase_ne ?_⟩
  · intro k c hc
    simp only [State.goto, State.removeClient, OrdMap.find_erase] at hc
    split at hc
    · cases hc
    · exact hc
  · rintro rfl
    rw [hf] at hk
    cases hk

/-- `WSASend` and what follows a failure. -/
theorem answering {j : Job} (hp : s.pc t = .wsaSend j) (ha : Alone t s) :
    ∃ s', Steps t b cells fails s [] s' ∧ s'.pc t = .pack j.sent ∧ Framed t fails s s' := by
  have hgo : ∀ s₁, s.wsaSend t j (!fails j.k) = s₁ → Steps t b cells fails s [] s₁ := fun s₁ h =>
    silently hp rfl (congrArg some h)
  cases hf : s.clientsContext.find j.k with
  | none =>
    refine ⟨_, hgo (s.goto t (.pack j.sent)) ?_, Function.update_self .., .same rfl rfl⟩
    simp [State.wsaSend, hf]
  | some c =>
    cases hfail : fails j.k with
    | false =>
      refine ⟨_, hgo _ rfl, ?_, ?_⟩
      · simp [State.wsaSend, State.goto, hf, hfail]
      · exact .same (p := .pack j.sent) (by simp [State.wsaSend, State.goto, hf, hfail])
          (by simp [State.wsaSend, State.goto, hf])
    | true =>
      have hpc : (s.wsaSend t j (!fails j.k)).pc = Function.update s.pc t (.sendFailed j) := by
        simp [State.wsaSend, State.goto, hf, hfail]
      have hkept : Framed t fails s (s.wsaSend t j (!fails j.k)) :=
        .same hpc (by simp [State.wsaSend, State.goto, hf])
      have hat : (s.wsaSend t j (!fails j.k)).pc t = .sendFailed j := by rw [hpc, Function.update_self]
      have hun : (s.wsaSend t j (!fails j.k)).unshared := by
        intro u
        by_cases hu : u = t
        · rw [hu, hat]
          rfl
        · exact hkept.alone ha u hu
      refine ⟨_, (hgo _ rfl).trans (silently hat rfl (if_pos hun)), ?_,
        hkept.trans (.removeClient hfail)⟩
      simp [State.goto]

/-- **`SendReq` is called once**, and returns with whatever result. -/
theorem sending {j : Job} (hp : s.pc t = .sendReq j) (ha : Alone t s) :
    ∃ s', Steps t b cells fails s [.sendReq j.k ((s.buffs j.b).read j.offset)] s' ∧ s'.pc t = .pack j.sent ∧
      Framed t fails s s' := by
  have hgo : ∀ s₁, s.sendReq t j = s₁ →
      Steps t b cells fails s [.sendReq j.k ((s.buffs j.b).read j.offset)] s₁ := fun s₁ h =>
    goes hp (by simp) (congrArg some h) (by rw [seen, hp])
  cases hf : s.clientsContext.find j.k with
  | none =>
    refine ⟨_, hgo (s.goto t (.pack j.sent)) ?_, Function.update_self .., .same rfl rfl⟩
    simp [State.sendReq, hf]
  | some c =>
    have h₁ : s.sendReq t j =
        { s with clientsContext := s.clientsContext.set j.k { c with buf := j.b } }.goto t (.setLen j) := by
      simp [State.sendReq, hf]
    have hat : (s.sendReq t j).pc t = .setLen j := by simp [h₁, State.goto]
    have hk₁ : Framed t fails s (s.sendReq t j) := .same (p := .setLen j) (by rw [h₁]; rfl) (by rw [h₁]; rfl)
    have hpc : ((s.sendReq t j).setLen t j).pc = Function.update (s.sendReq t j).pc t (.wsaSend j) := by
      simp [State.setLen, h₁, State.goto]
    have hk₂ : Framed t fails (s.sendReq t j) ((s.sendReq t j).setLen t j) :=
      .same hpc (by simp [State.setLen, h₁, State.goto])
    have hset : Steps t b cells fails (s.sendReq t j) [] ((s.sendReq t j).setLen t j) :=
      silently hat rfl rfl
    have hat₂ : ((s.sendReq t j).setLen t j).pc t = .wsaSend j := by rw [hpc, Function.update_self]
    obtain ⟨s', hs, hpack, hk⟩ := @answering n _ t b cells fails j hat₂ (hk₂.alone (hk₁.alone ha))
    exact ⟨s', (hgo _ rfl).trans (hset.trans hs), hpack, hk₁.trans (hk₂.trans hk)⟩

/-- What a pass sends for the clients it has taken commands of. -/
def parcels (temp : TempCmds) : List (Socket × List Cell) :=
  (temp.filter fun e => e.2 ≠ []).map fun e => (e.1, e.2.flatMap Entry.cells)

theorem cmdLength_pos {vec : List Entry} (hv : vec ≠ []) (hpos : ∀ x ∈ vec, 0 < x.cmd.length) :
    cmdLength vec ≠ 0 := by
  obtain ⟨x, vec, rfl⟩ := List.exists_cons_of_ne_nil hv
  have := hpos x List.mem_cons_self
  simp only [cmdLength, List.map_cons, List.sum_cons]
  omega

/-- One client of `tempCmds`. -/
theorem sendingOne {k : Socket} {vec : List Entry} {temp : TempCmds} (hp : s.pc t = .turn b ((k, vec) :: temp))
    (ha : Alone t s) (hl : cmdLength vec < SOCKET_BUFFER_SIZE) (hpos : ∀ x ∈ vec, 0 < x.cmd.length) :
    ∃ l s', Steps t b cells fails s l s' ∧ s'.pc t = .turn b temp ∧ Framed t fails s s' ∧
      reqs l = parcels [(k, vec)] ∧ Tidy b l := by
  have hturn : Steps t b cells fails s [] (s.goto t (.pack ⟨b, k, vec, 0, temp⟩)) :=
    silently hp rfl rfl
  have hk₀ : Framed t fails s (s.goto t (.pack ⟨b, k, vec, 0, temp⟩)) := .same rfl rfl
  obtain ⟨l, s₁, h₁, hp₁, hb₁, hk₁, hreq, htidy⟩ := @packAll n t b cells fails vec
    (s.goto t (.pack ⟨b, k, vec, 0, temp⟩)) ⟨b, k, vec, 0, temp⟩ (Function.update_self ..) (by simpa using hl)
  -- behind the last client's commands, with nothing in the buffer
  have hend : ∀ {s₂ : State n}, s₂.pc t = .pack ⟨b, k, [], 0, temp⟩ →
      Steps t b cells fails s₂ [] (s₂.goto t (.turn b temp)) := fun hp₂ =>
    goes hp₂ (by simp) rfl (by rw [seen, hp₂])
  by_cases hv : vec = []
  · subst hv
    refine ⟨_, _, hturn.trans (h₁.trans (hend hp₁)), Function.update_self ..,
      hk₀.trans (hk₁.trans (.same rfl rfl)), ?_, ?_⟩
    · simp [hreq, parcels]
    · simpa using htidy
  · have hne : 0 + cmdLength vec ≠ 0 := by
      rw [Nat.zero_add]
      exact cmdLength_pos hv hpos
    have hsend : Steps t b cells fails s₁ [] (s₁.goto t (.sendReq ⟨b, k, [], 0 + cmdLength vec, temp⟩)) :=
      goes hp₁ (by simp) (congrArg some (if_pos hne)) (by rw [seen, hp₁])
    have hk₂ : Framed t fails s₁ (s₁.goto t (.sendReq ⟨b, k, [], 0 + cmdLength vec, temp⟩)) := .same rfl rfl
    have hk' := hk₀.trans (hk₁.trans hk₂)
    obtain ⟨s₃, h₃, hp₃, hk₃⟩ := @sending n _ t b cells fails ⟨b, k, [], 0 + cmdLength vec, temp⟩
      (Function.update_self ..) (hk'.alone ha)
    refine ⟨_, _, hturn.trans (h₁.trans (hsend.trans (h₃.trans (hend hp₃)))), Function.update_self ..,
      hk'.trans (hk₃.trans (.same rfl rfl)), ?_, ?_⟩
    · have hbytes : (s₁.buffs b).read (0 + cmdLength vec) = vec.flatMap Entry.cells := hb₁
      rw [Nat.zero_add] at hbytes
      simp only [reqs_append, hreq]
      simp [reqs, parcels, hv, State.goto, hbytes]
    · refine Tidy.nil.append (htidy.append (Tidy.nil.append (Tidy.append ?_ .nil)))
      intro e he
      cases List.mem_singleton.1 he
      trivial

/-- **The loop over `tempCmds`**, up to `delete[] sendBuff`. -/
theorem sendingAll (temp : TempCmds) {s : State n} (hp : s.pc t = .turn b temp) (ha : Alone t s)
    (hl : ∀ e ∈ temp, cmdLength e.2 < SOCKET_BUFFER_SIZE ∧ ∀ x ∈ e.2, 0 < x.cmd.length) :
    ∃ l s', Steps t b cells fails s l s' ∧ s'.pc t = .idle ∧ (s'.buffs b).live = false ∧ Framed t fails s s' ∧
      reqs l = parcels temp ∧ Tidy b l := by
  induction temp generalizing s with
  | nil =>
    refine ⟨[], s.deleteBuff t b, silently hp rfl rfl, Function.update_self .., ?_, .same rfl rfl, rfl, .nil⟩
    simp [State.deleteBuff, State.goto]
  | cons e temp ih =>
    obtain ⟨hle, hpos⟩ := hl e List.mem_cons_self
    obtain ⟨l, s₁, h₁, hp₁, hk₁, hr₁, ht₁⟩ := @sendingOne n s t b cells fails e.1 e.2 temp hp ha hle hpos
    obtain ⟨l', s₂, h₂, hi, hb, hk₂, hr₂, ht₂⟩ := ih hp₁ (hk₁.alone ha) fun e he => hl e (List.mem_cons_of_mem _ he)
    refine ⟨l ++ l', s₂, h₁.trans h₂, hi, hb, hk₁.trans hk₂, ?_, ht₁.append ht₂⟩
    rw [reqs_append, hr₁, hr₂, parcels, parcels, ← List.map_append, ← List.filter_append, List.singleton_append]
    rfl

/-! ## The pass -/

/-- A state in which a pass runs alone: no other thread is in a shared section, and the queues are what
`SendCmdData` has filled. -/
structure Ready (t : Fin n) (s : State n) : Prop where
  idle : s.pc t = .idle
  alone : Alone t s
  room : ∀ k c, s.clientCmd.find k = some c → c.sendQueue.length ≤ QUEUE_SIZE
  pos : ∀ k c, s.clientCmd.find k = some c → ∀ x ∈ c.sendQueue, 0 < x.cmd.length

/-- What a pass has sent of a client's queue is not in it any more, and the rest is. -/
def Leaves (c c' : Client) : Prop :=
  c' = { c with sendQueue := c'.sendQueue } ∧ (packet c.sendQueue ++ c'.sendQueue).Perm c.sendQueue

/-- What a pass does, from `s` to `s'`. -/
structure Sends (b : Nat) (fails : Socket → Bool) (s : State n) (l : List Event) (s' : State n) : Prop where
  /-- One `SendReq` for each client with a queue that is not empty. -/
  reqs : reqs l = (s.clientCmd.entries.filter fun e => e.2.sendQueue ≠ []).map fun e =>
    (e.1, (packet e.2.sendQueue).flatMap Entry.cells)
  short : ∀ r ∈ Send.reqs l, r.2.length < SOCKET_BUFFER_SIZE
  tidy : Tidy b l
  left : ∀ k c', s'.clientCmd.find k = some c' → ∃ c, s.clientCmd.find k = some c ∧ Leaves c c'
  keeps : ∀ k c, s.clientCmd.find k = some c → fails k = false → ∃ c', s'.clientCmd.find k = some c' ∧ Leaves c c'

theorem Leaves.settle (c : Client) : Leaves c c.settle := ⟨rfl, settle_perm c.sendQueue⟩

theorem Leaves.length {c c' : Client} (h : Leaves c c') :
    (packet c.sendQueue).length + c'.sendQueue.length = c.sendQueue.length := by
  rw [← List.length_append]
  exact h.2.length_eq

theorem packet_eq_nil {q : List Entry} : packet q = [] ↔ q = [] := by
  refine ⟨fun h => ?_, fun h => by rw [h]; rfl⟩
  cases q with
  | nil => rfl
  | cons x q => exact absurd h (batch_ne_nil (by decide) x.short)

theorem parcels_temps (l : List (Socket × Client)) :
    parcels (temps l) = (l.filter fun e => e.2.sendQueue ≠ []).map fun e =>
      (e.1, (packet e.2.sendQueue).flatMap Entry.cells) := by
  simp only [parcels, temps, List.filter_map, List.map_map]
  congr 2
  funext e
  simp [packet_eq_nil]

theorem length_cells (vec : List Entry) : (vec.flatMap Entry.cells).length = cmdLength vec := by
  simp [List.length_flatMap, cells_length, cmdLength]

/-- The drain of a pass, from `SendThread`'s call to the released lock. -/
theorem drainAll (h : Ready t s) :
    ∃ m : OrdMap Socket Client,
      Steps t b cells fails (s.has t s.clientCmd (.drain s.clientCmd.keys [])) []
        (s.has t m (.drained (temps s.clientCmd.entries))) ∧
      ∀ k, m.find k = (s.clientCmd.find k).map Client.settle := by
  have hentry : ∀ e ∈ s.clientCmd.entries, s.clientCmd.find e.1 = some e.2 := fun _ he => OrdMap.mem_entries.1 he
  obtain ⟨m, hm, hfind⟩ := @draining n s t b cells fails s.clientCmd.entries s.clientCmd []
    (fun e he => ⟨hentry e he, h.room _ _ (hentry e he)⟩) s.clientCmd.keys_nodup
  refine ⟨m, hm, ?_⟩
  intro k
  rw [hfind k]
  split
  case isTrue => rfl
  case isFalse hk =>
    cases hf : s.clientCmd.find k with
    | none => rfl
    | some c => exact absurd (OrdMap.mem_keys.2 ⟨c, hf⟩) hk

/-- Where `Framed` leads to from the drained state. -/
theorem left_of_framed {m : OrdMap Socket Client} {p : Pc} (hm : ∀ k, m.find k = (s.clientCmd.find k).map Client.settle)
    (hk : Framed t fails (s.has t m p) s') {k : Socket} {c' : Client} (hc' : s'.clientCmd.find k = some c') :
    ∃ c, s.clientCmd.find k = some c ∧ Leaves c c' := by
  obtain ⟨c, hc, rfl⟩ := Option.map_eq_some_iff.1 ((hm k).symm.trans (hk.sub k c' hc'))
  exact ⟨c, hc, .settle c⟩

theorem keeps_of_framed {m : OrdMap Socket Client} {p : Pc}
    (hm : ∀ k, m.find k = (s.clientCmd.find k).map Client.settle) (hk : Framed t fails (s.has t m p) s')
    {k : Socket} {c : Client} (hc : s.clientCmd.find k = some c) (hf : fails k = false) :
    ∃ c', s'.clientCmd.find k = some c' ∧ Leaves c c' := by
  refine ⟨c.settle, ?_, .settle c⟩
  rw [hk.keeps k hf]
  exact (hm k).trans (by rw [hc]; rfl)

theorem Ready.next (h : Ready t s) (hi : s'.pc t = .idle) (ha : ∀ u, u ≠ t → s'.pc u = s.pc u)
    (hl : ∀ k c', s'.clientCmd.find k = some c' → ∃ c, s.clientCmd.find k = some c ∧ Leaves c c') : Ready t s' := by
  refine ⟨hi, ?_, ?_, ?_⟩
  · intro u hu
    rw [ha u hu]
    exact h.alone u hu
  · intro k c' hc'
    obtain ⟨c, hc, hl⟩ := hl k c' hc'
    have := h.room k c hc
    have := hl.length
    omega
  · intro k c' hc' x hx
    obtain ⟨c, hc, hl⟩ := hl k c' hc'
    exact h.pos k c hc x (hl.2.subset (List.mem_append_right _ hx))

theorem temps_fit (h : Ready t s) : ∀ e ∈ temps s.clientCmd.entries,
    cmdLength e.2 < SOCKET_BUFFER_SIZE ∧ ∀ x ∈ e.2, 0 < x.cmd.length := by
  intro e he
  obtain ⟨f, hf, rfl⟩ := List.mem_map.1 he
  exact ⟨cmdLength_packet _, fun x hx => h.pos f.1 f.2 (OrdMap.mem_entries.1 hf) x (batch_starts.subset hx)⟩

/-- The part of a pass behind the drain. -/
theorem sendAll {m : OrdMap Socket Client} {temp : TempCmds} (ha : Alone t s) (hb : (s.buffs b).live = false)
    (hl : ∀ e ∈ temp, cmdLength e.2 < SOCKET_BUFFER_SIZE ∧ ∀ x ∈ e.2, 0 < x.cmd.length) :
    ∃ l s', Steps t b cells fails (s.has t m (.drained temp)) l s' ∧ s'.pc t = .idle ∧ (s'.buffs b).live = false ∧
      Framed t fails (s.has t m (.drained temp)) s' ∧ reqs l = parcels temp ∧ Tidy b l := by
  cases temp with
  | nil =>
    exact ⟨[], _, silently (has_pc _ _) rfl rfl, Function.update_self .., hb, .same rfl rfl, rfl, .nil⟩
  | cons e temp =>
    have hown : own t b cells fails (s.has t m (.drained (e :: temp))) = .newBuff t b cells := by
      rw [own, has_pc]
    have hnew : step (s.has t m (.drained (e :: temp))) (.newBuff t b cells) =
        some ((s.has t m (.drained (e :: temp))).newBuff t b cells (e :: temp)) := by
      simp only [step, has_pc]
      exact if_pos hb
    have hgo : Steps t b cells fails (s.has t m (.drained (e :: temp))) []
        ((s.has t m (.drained (e :: temp))).newBuff t b cells (e :: temp)) := by
      have := Sys.Shows.one (M := sys n) (K := Own t b cells fails) (f := seen t)
        (a := .newBuff t b cells) ⟨by rw [has_pc]; simp, hown.symm⟩ hnew
      rwa [seen, has_pc] at this
    have hk : Framed t fails (s.has t m (.drained (e :: temp)))
        ((s.has t m (.drained (e :: temp))).newBuff t b cells (e :: temp)) := .same rfl rfl
    have ha' : Alone t (s.has t m (.drained (e :: temp))) := fun u hu => by
      rw [has_pc_ne hu]
      exact ha u hu
    obtain ⟨l, s', hs, hi, hd, hk', hr, ht⟩ := @sendingAll n t b cells fails (e :: temp) _
      (Function.update_self ..) (hk.alone ha') hl
    exact ⟨l, s', hgo.trans hs, hi, hd, hk.trans hk', hr, ht⟩

/-- **A pass that runs alone returns**, and has sent a packet of every queue. -/
theorem pass (b : Nat) (cells : Nat → Cell) (fails : Socket → Bool) (h : Ready t s) (hb : (s.buffs b).live = false) :
    ∃ l s', Pass t b cells fails s l s' ∧ Sends b fails s l s' ∧ Ready t s' ∧ (s'.buffs b).live = false := by
  have hcall : step s (.sendThread t) = some (s.has t s.clientCmd (.drain s.clientCmd.keys [])) := if_pos h.idle
  obtain ⟨m, hdrain, hm⟩ := @drainAll n s t b cells fails h
  obtain ⟨l, s', hs, hi, hd, hk, hr, ht⟩ := @sendAll n s t b cells fails m _ h.alone hb (temps_fit h)
  have hleft : ∀ k c', s'.clientCmd.find k = some c' → ∃ c, s.clientCmd.find k = some c ∧ Leaves c c' :=
    fun _ _ => left_of_framed hm hk
  refine ⟨l, s', ⟨⟨_, hcall, hdrain.trans hs⟩, hi⟩, ⟨hr.trans (parcels_temps _), ?_, ht, hleft,
    fun _ _ => keeps_of_framed hm hk⟩, h.next hi (fun u hu => (hk.pc u hu).trans (has_pc_ne hu)) hleft, hd⟩
  intro r hmem
  rw [hr, parcels_temps] at hmem
  obtain ⟨e, -, rfl⟩ := List.mem_map.1 hmem
  rw [length_cells]
  exact cmdLength_packet _

end P1Server.Send
