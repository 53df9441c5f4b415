import P1Server.Lib.Echo
import P1Server.SendBuff

/-!
# The commands of a pass, in line

What a pass has taken from the queues and not given to `WSASend` yet, as the stamps in the order in which it
will: first the bytes in its `sendBuff`, then the commands to be packed, client by client.

* `Flow` — what a step does to the lines, the queues and what has been given;
* `flow` — every step does one of these.
-/

namespace P1Server.Send
open Lib

variable {n : Nat} {s s' : State n}

/-- Commands taken from the queues and not packed yet, by client. -/
def load : Pc → TempCmds
  | .drain _ temp | .drained temp | .turn _ temp => temp
  | .popping k _ vec temp => temp ++ [(k, vec)]
  | .full k _ vec x temp => temp ++ [(k, vec ++ [x])]
  | .pack j | .sendReq j | .setLen j | .wsaSend j | .sendFailed j => (j.k, j.vec) :: j.temp
  | _ => []

/-- The pass whose buffer holds commands that `WSASend` has not been given. -/
def packing : Pc → Option Job
  | .pack j | .sendReq j | .setLen j | .wsaSend j => some j
  | _ => none

/-- A pass holds unsent commands of the client `k`. -/
def Unsent (p : Pc) (k : Socket) : Prop :=
  (∃ e ∈ load p, e.1 = k ∧ e.2 ≠ []) ∨ ∃ j ∈ packing p, j.k = k ∧ j.offset ≠ 0

instance (p : Pc) (k : Socket) : Decidable (Unsent p k) := inferInstanceAs (Decidable (_ ∨ _))

/-- Whose commands the first `offset` bytes of a buffer are. -/
def Buff.stamps (b : Buff) (offset : Nat) : List Stamp := (b.read offset).filterMap Cell.stamp

def stampsOf (l : TempCmds) : List (Socket × Stamp) := l.flatMap fun e => e.2.map fun x => (e.1, x.stamp)

def packedLine (s : State n) (j : Job) : List (Socket × Stamp) := ((s.buffs j.b).stamps j.offset).map fun st => (j.k, st)

/-- The line of a pass. -/
def line (s : State n) (p : Pc) : List (Socket × Stamp) :=
  (packing p).elim [] (packedLine s) ++ stampsOf (load p)

theorem owns_of_packing {p : Pc} {j : Job} (h : packing p = some j) : owns p = some j.b := by
  cases p <;> cases h <;> rfl

@[simp] theorem stamps_zero (b : Buff) : b.stamps 0 = [] := rfl

@[simp] theorem stampsOf_append (l l' : TempCmds) : stampsOf (l ++ l') = stampsOf l ++ stampsOf l' :=
  List.flatMap_append

theorem stampsOf_cons (k : Socket) (vec : List Entry) (l : TempCmds) :
    stampsOf ((k, vec) :: l) = (vec.map fun x => (k, x.stamp)) ++ stampsOf l := rfl

@[simp] theorem stampsOf_nil : stampsOf [] = [] := rfl

theorem unsent_of_line {p : Pc} {e : Socket × Stamp} (h : e ∈ line s p) : Unsent p e.1 := by
  rcases List.mem_append.1 h with h | h
  · cases hp : packing p with
    | none =>
      rw [hp] at h
      cases h
    | some j =>
      rw [hp] at h
      obtain ⟨st, hst, rfl⟩ := List.mem_map.1 h
      refine .inr ⟨j, hp, rfl, ?_⟩
      intro ho
      rw [ho, stamps_zero] at hst
      cases hst
  · obtain ⟨f, hf, he⟩ := List.mem_flatMap.1 h
    obtain ⟨x, hx, rfl⟩ := List.mem_map.1 he
    exact .inl ⟨f, hf, rfl, List.ne_nil_of_mem hx⟩

/-! ## Packing a command -/

theorem cells_length (x : Entry) : x.cells.length = x.cmd.length := by
  simp [Entry.cells]

theorem write_cells_lt (b : Buff) (l : List Cell) {offset i : Nat} (h : i < offset) :
    (b.write offset l).cells i = b.cells i := if_pos h

theorem write_cells (b : Buff) {l : List Cell} {i : Nat} (offset : Nat) (h : i < l.length) :
    (b.write offset l).cells (offset + i) = l[i] := by
  simp only [Buff.write, Nat.not_lt.2 (Nat.le_add_right offset i), if_false, Nat.add_sub_cancel_left,
    List.getElem?_eq_getElem h, Option.getD_some]

theorem read_write (b : Buff) (offset : Nat) (l : List Cell) :
    (b.write offset l).read (offset + l.length) = b.read offset ++ l := by
  refine List.ext_getElem (by simp [Buff.read]) ?_
  intro i h1 h2
  simp only [Buff.read, List.length_map, List.length_range] at h1
  simp only [Buff.read, List.getElem_map, List.getElem_range]
  by_cases hi : i < offset
  · rw [write_cells_lt b l hi, List.getElem_append_left (by simpa using hi)]
    simp
  · obtain ⟨m, rfl⟩ := Nat.exists_eq_add_of_le (Nat.le_of_not_lt hi)
    rw [write_cells b offset (by omega), List.getElem_append_right (by simp)]
    simp

theorem stamps_cells (x : Entry) : x.cells.filterMap Cell.stamp = List.replicate x.cmd.length x.stamp := by
  rw [Entry.cells, List.filterMap_map, ← NetCmd.image_length, ← List.map_const']
  exact congrFun List.filterMap_eq_map _

theorem stamps_write (b : Buff) (offset : Nat) (x : Entry) :
    (b.write offset x.cells).stamps (offset + x.cmd.length) =
      b.stamps offset ++ List.replicate x.cmd.length x.stamp := by
  rw [← cells_length, Buff.stamps, read_write, List.filterMap_append, stamps_cells, Buff.stamps, cells_length]

/-! ## What a step does to lines and queues -/

/-- The client whose queue a pass pops from, if it has room for another command. -/
def pops : Pc → Option Socket
  | .popping k _ vec _ => if vec.length < FRAME_NUMBER_SEND_DATA then some k else none
  | _ => none

/-- The client whose queue a pass puts a command back into. -/
def putsBack : Pc → Option Socket
  | .full k _ _ _ _ => some k
  | _ => none

/-- No line gets longer. -/
def Thins (s s' : State n) : Prop := ∀ u, Echo (line s (s.pc u)) (line s' (s'.pc u))

/-- No line but that of `t` gets longer. -/
def ThinsBut (t : Fin n) (s s' : State n) : Prop := ∀ u, u ≠ t → Echo (line s (s.pc u)) (line s' (s'.pc u))

inductive Flow (s : State n) : Act n → State n → Prop
  /-- Nothing moves on; clients and commands may go. -/
  | less {a : Act n} {s' : State n} : (∀ k c, s'.clientCmd.find k = some c → s.clientCmd.find k = some c) →
      s'.given = s.given → s'.nextSeq = s.nextSeq → Thins s s' → Flow s a s'
  /-- A client comes. -/
  | add {s' : State n} {k : Socket} : s'.clientCmd = s.clientCmd.set k ⟨⟨k, s.nextConn⟩, [], []⟩ →
      s'.given = s.given → s'.nextSeq = s.nextSeq → Thins s s' → Flow s (.addNewClient k) s'
  /-- A queue accepts a command. -/
  | push {a : Act n} {s' : State n} {k : Socket} {c : Client} {x : Entry} : s.clientCmd.find k = some c →
      x.stamp = ⟨c.conn, s.nextSeq⟩ →
      s'.clientCmd = s.clientCmd.set k { c with sendQueue := c.sendQueue ++ [x] } →
      s'.given = s.given → s'.nextSeq = s.nextSeq + 1 → Thins s s' → Flow s a s'
  /-- The head of a queue joins the line of a pass. -/
  | pop {t : Fin n} {ok : Bool} {s' : State n} {k : Socket} {c : Client} {x : Entry} {queue : List Entry} :
      pops (s.pc t) = some k → s.clientCmd.find k = some c → c.sendQueue = x :: queue →
      s'.clientCmd = s.clientCmd.set k { c with sendQueue := queue } →
      s'.given = s.given → s'.nextSeq = s.nextSeq →
      line s' (s'.pc t) = line s (s.pc t) ++ [(k, x.stamp)] → ThinsBut t s s' → Flow s (.run t ok) s'
  /-- The last of a line goes back to its queue. -/
  | putBack {t : Fin n} {ok : Bool} {s' : State n} {k : Socket} {c : Client} {x : Entry} :
      putsBack (s.pc t) = some k → s.clientCmd.find k = some c → c.sendQueue.length < QUEUE_SIZE →
      s'.clientCmd = s.clientCmd.set k { c with sendQueue := c.sendQueue ++ [x] } →
      s'.given = s.given → s'.nextSeq = s.nextSeq →
      line s (s.pc t) = line s' (s'.pc t) ++ [(k, x.stamp)] → ThinsBut t s s' → Flow s (.run t ok) s'
  /-- The head of a line is given to `WSASend`. -/
  | give {t : Fin n} {ok : Bool} {s' : State n} {j : Job} {c : Context} : s.pc t = .wsaSend j →
      s.clientsContext.find j.k = some c → s'.clientCmd = s.clientCmd →
      s'.given = s.given ++ (s.buffs c.buf).stamps c.len → s'.nextSeq = s.nextSeq →
      line s (s.pc t) = packedLine s j ++ line s' (s'.pc t) → ThinsBut t s s' → Flow s (.run t ok) s'

/-- Changing a client's queue changes no connection. -/
theorem find_queue {m : OrdMap Socket Client} {k j : Socket} {c d : Client} {q : List Entry}
    (hf : m.find k = some c) (hd : (m.set k { c with sendQueue := q }).find j = some d) :
    ∃ b, m.find j = some b ∧ b.conn = d.conn ∧ (j ≠ k ∧ d = b ∨ j = k ∧ d.sendQueue = q) := by
  rw [OrdMap.find_set] at hd
  split at hd
  case isTrue hj =>
    cases hd
    exact ⟨c, hj ▸ hf, rfl, .inr ⟨hj, rfl⟩⟩
  case isFalse hj => exact ⟨d, hd, rfl, .inl ⟨hj, rfl⟩⟩

theorem line_buffs (hb : s'.buffs = s.buffs) (p : Pc) : line s' p = line s p := by
  unfold line packedLine
  rw [hb]

/-- A line looks at no buffer but its own. -/
theorem line_update {b : Nat} {x : Buff} {p : Pc} (hb : s'.buffs = Function.update s.buffs b x)
    (hp : owns p ≠ some b) : line s' p = line s p := by
  unfold line
  cases hj : packing p with
  | none => rfl
  | some j =>
    have hne : j.b ≠ b := fun he => hp (he ▸ owns_of_packing hj)
    rw [Option.elim_some, Option.elim_some, packedLine, packedLine, hb, Function.update_of_ne hne]

theorem thins_same (hpc : s'.pc = s.pc) (hb : s'.buffs = s.buffs) : Thins s s' := by
  intro u
  rw [hpc, line_buffs hb]

/-- One thread moves; the others' lines stay when its buffer is its own. -/
theorem thinsBut_update (ho : Owners s) {t : Fin n} {p : Pc} {b : Nat} {x : Buff}
    (hpc : s'.pc = Function.update s.pc t p) (hb : s'.buffs = Function.update s.buffs b x)
    (ht : owns (s.pc t) = some b ∨ (s.buffs b).live = false) : ThinsBut t s s' := by
  intro u hu
  rw [hpc, Function.update_of_ne hu, line_update hb]
  intro hown
  rcases ht with ht | ht
  · exact hu (ho.alone u t b hown ht)
  · rw [ho.own u b hown] at ht
    cases ht

theorem thinsBut_goto {t : Fin n} {p : Pc} (hpc : s'.pc = Function.update s.pc t p) (hb : s'.buffs = s.buffs) :
    ThinsBut t s s' := by
  intro u hu
  rw [hpc, Function.update_of_ne hu, line_buffs hb]

theorem thins_of_but {t : Fin n} {p : Pc} (hpc : s'.pc = Function.update s.pc t p) (hbut : ThinsBut t s s')
    (ht : Echo (line s (s.pc t)) (line s' p)) : Thins s s' := by
  intro u
  by_cases hu : u = t
  · subst hu
    rwa [hpc, Function.update_self]
  · exact hbut u hu

theorem thins_goto {t : Fin n} {p : Pc} (hpc : s'.pc = Function.update s.pc t p) (hb : s'.buffs = s.buffs)
    (ht : Echo (line s (s.pc t)) (line s p)) : Thins s s' :=
  thins_of_but hpc (thinsBut_goto hpc hb) (line_buffs hb p ▸ ht)

/-- What is new in the lines is new in that of `t`. -/
theorem mem_of_but {t : Fin n} (ht : ThinsBut t s s') {P : Socket × Stamp → Prop}
    (hl : ∀ e ∈ line s' (s'.pc t), e ∈ line s (s.pc t) ∨ P e) (u : Fin n) :
    ∀ e ∈ line s' (s'.pc u), e ∈ line s (s.pc u) ∨ P e := by
  intro e he
  by_cases hu : u = t
  · subst hu
    exact hl e he
  · exact .inl ((ht u hu).mem he)

theorem mem_of_but_sub {t : Fin n} (ht : ThinsBut t s s') (hl : ∀ e ∈ line s' (s'.pc t), e ∈ line s (s.pc t))
    (u : Fin n) : ∀ e ∈ line s' (s'.pc u), e ∈ line s (s.pc u) := by
  intro e he
  have hnone := mem_of_but (P := fun _ => False) ht (fun e he => .inl (hl e he)) u e he
  rwa [or_false] at hnone

theorem line_popping (k : Socket) (todo : List Socket) (vec : List Entry) (temp : TempCmds) :
    line s (.popping k todo vec temp) = stampsOf temp ++ vec.map fun x => (k, x.stamp) := by
  simp [line, packing, load, stampsOf]

theorem line_drain (todo : List Socket) (temp : TempCmds) : line s (.drain todo temp) = stampsOf temp := rfl

theorem line_full (k : Socket) (todo : List Socket) (vec : List Entry) (x : Entry) (temp : TempCmds) :
    line s (.full k todo vec x temp) = (stampsOf temp ++ vec.map fun x => (k, x.stamp)) ++ [(k, x.stamp)] := by
  simp [line, packing, load, stampsOf]

/-- A line with a packed part, and what is left when that part has gone. -/
theorem line_job {p : Pc} {j : Job} (hp : packing p = some j) (hl : load p = (j.k, j.vec) :: j.temp) :
    line s p = packedLine s j ++ (stampsOf ((j.k, j.vec) :: j.temp)) := by
  rw [line, hp, hl]
  rfl

theorem line_sent (j : Job) : line s (.pack j.sent) = stampsOf ((j.k, j.vec) :: j.temp) := rfl

theorem flow_packOne (ho : Owners s) {t : Fin n} {ok : Bool} {j : Job} {x : Entry} {vec : List Entry}
    (ht : s.pc t = .pack j) (hv : j.vec = x :: vec) : Flow s (.run t ok) (s.packOne t j x vec) := by
  refine .less (fun _ _ hf => hf) rfl rfl (thins_of_but (t := t) rfl (thinsBut_update ho rfl rfl ?_) ?_)
  · exact .inl (by rw [ht]; rfl)
  · have hpacked : packedLine (s.packOne t j x vec) { j with vec := vec, offset := j.offset + x.cmd.length } =
        packedLine s j ++ List.replicate x.cmd.length (j.k, x.stamp) := by
      simp only [packedLine, State.packOne, State.goto, Function.update_self, stamps_write, List.map_append,
        List.map_replicate]
    rw [ht, line_job (j := j) rfl rfl, line_job (j := { j with vec := vec, offset := j.offset + x.cmd.length }) rfl rfl,
      hpacked, List.append_assoc, hv]
    refine (Echo.refl _).append ?_
    rw [stampsOf_cons, stampsOf_cons, List.map_cons]
    exact (Echo.replicate (j.k, x.stamp) x.cmd.length).append (Echo.refl _)

theorem flow_wsaSend {t : Fin n} {ok : Bool} {j : Job} (ht : s.pc t = .wsaSend j) :
    Flow s (.run t ok) (s.wsaSend t j ok) := by
  have hline : line s (s.pc t) = packedLine s j ++ stampsOf ((j.k, j.vec) :: j.temp) := by
    rw [ht]
    exact line_job rfl rfl
  unfold State.wsaSend
  cases hf : s.clientsContext.find j.k with
  | none =>
    refine .less (fun _ _ hd => hd) rfl rfl (thins_goto (t := t) rfl rfl ?_)
    rw [hline, line_sent]
    exact .right _ _
  | some c =>
    refine .give ht hf rfl rfl rfl ?_ (thinsBut_goto rfl rfl)
    rw [hline]
    cases ok <;> simp only [State.goto, Function.update_self] <;> rfl

/-- **Every step does one of these.** -/
theorem flow (ho : Owners s) {a : Act n} (m : Move s a s') : Flow s a s' := by
  have stay : ∀ k c, s.clientCmd.find k = some c → s.clientCmd.find k = some c := fun _ _ hf => hf
  cases m with
  | addNewClient _ _ => exact .add rfl rfl rfl (thins_same rfl rfl)
  | @removeClient k _ =>
    refine .less ?_ rfl rfl (thins_same rfl rfl)
    intro j c hf
    have hf' : (s.clientCmd.erase k).find j = some c := hf
    rw [OrdMap.find_erase] at hf'
    split at hf'
    · cases hf'
    · exact hf'
  | removeAllClient _ => exact .less (fun _ _ hf => nomatch hf) rfl rfl (thins_same rfl rfl)
  | call ht => exact .less stay rfl rfl (thins_goto rfl rfl (by rw [ht]; exact .toNil _))
  | taken _ ht _ hf => exact .push hf rfl rfl rfl rfl (thins_goto rfl rfl (by rw [ht]; exact .toNil _))
  | dropped ht _ => exact .less stay rfl rfl (thins_goto rfl rfl (by rw [ht]; exact .toNil _))
  | kept ht _ => exact .less stay rfl rfl (thins_goto rfl rfl (by rw [ht]; exact .toNil _))
  | free ht => exact .less stay rfl rfl (thins_goto rfl rfl (by rw [ht]; exact .toNil _))
  | sendThread ht => exact .less stay rfl rfl (thins_goto rfl rfl (by rw [ht]; exact .toNil _))
  | drainEnd ht => exact .less stay rfl rfl (thins_goto rfl rfl (by rw [ht]; exact .refl _))
  | drainNext ht =>
    refine .less stay rfl rfl (thins_goto rfl rfl ?_)
    rw [ht, line_popping, line_drain, List.map_nil, List.append_nil]
  | popEnd ht =>
    refine .less stay rfl rfl (thins_goto rfl rfl ?_)
    rw [ht, line_popping, line_drain, stampsOf_append, stampsOf_cons, stampsOf_nil, List.append_nil]
  | @pop t _ k todo vec temp c x queue ht hv hf hq _ =>
    refine .pop (by rw [ht]; exact if_pos hv) hf hq rfl rfl rfl ?_ (thinsBut_goto rfl rfl)
    rw [ht, line_popping]
    simp only [State.goto, Function.update_self]
    rw [line_popping, List.map_append, List.append_assoc]
    rfl
  | @popFull t _ k todo vec temp c x queue ht hv hf hq =>
    refine .pop (by rw [ht]; exact if_pos hv) hf hq rfl rfl rfl ?_ (thinsBut_goto rfl rfl)
    rw [ht, line_popping]
    simp only [State.goto, Function.update_self]
    rw [line_full]
  | @putBack t _ k todo vec x temp c ht hf hl =>
    refine .putBack (by rw [ht]; rfl) hf hl rfl rfl rfl ?_ (thinsBut_goto rfl rfl)
    rw [ht, line_full]
    simp only [State.goto, Function.update_self]
    rw [line_drain, stampsOf_append, stampsOf_cons, stampsOf_nil, List.append_nil]
  | putLost ht _ =>
    refine .less stay rfl rfl (thins_goto rfl rfl ?_)
    rw [ht, line_full, line_drain, stampsOf_append, stampsOf_cons, stampsOf_nil, List.append_nil]
    exact .left _ _
  | noClients ht => exact .less stay rfl rfl (thins_goto rfl rfl (by rw [ht]; exact .toNil _))
  | @newBuff t b cells temp ht hb =>
    refine .less stay rfl rfl (thins_of_but (t := t) rfl (thinsBut_update ho rfl rfl (.inr hb)) ?_)
    rw [ht]
    exact .refl _
  | @deleteBuff t _ b ht =>
    refine .less stay rfl rfl (thins_of_but (t := t) rfl (thinsBut_update ho rfl rfl (.inl ?_)) (.toNil _))
    rw [ht]
    rfl
  | @turn t _ b k vec temp ht => exact .less stay rfl rfl (thins_goto rfl rfl (by rw [ht]; exact .refl _))
  | packOne ht hv _ => exact flow_packOne ho ht hv
  | packed ht _ => exact .less stay rfl rfl (thins_goto rfl rfl (by rw [ht]; exact .refl _))
  | @packEnd t _ j ht hv hz =>
    refine .less stay rfl rfl (thins_goto rfl rfl ?_)
    rw [ht, line_job (j := j) rfl rfl, hv]
    exact .right _ (stampsOf j.temp)
  | sendReq ht _ => exact .less stay rfl rfl (thins_goto rfl rfl (by rw [ht]; exact .refl _))
  | @noContext t _ j ht _ =>
    refine .less stay rfl rfl (thins_goto rfl rfl ?_)
    rw [ht, line_job (j := j) rfl rfl, line_sent]
    exact .right _ _
  | setLen ht =>
    unfold State.setLen
    split <;> exact .less stay rfl rfl (thins_goto rfl rfl (by rw [ht]; exact .refl _))
  | wsaSend ht => exact flow_wsaSend ht
  | @sendFailed t _ j ht _ =>
    refine .less ?_ rfl rfl (thins_goto (t := t) rfl rfl (by rw [ht]; exact .refl _))
    intro i c hf
    have hf' : (s.clientCmd.erase j.k).find i = some c := hf
    rw [OrdMap.find_erase] at hf'
    split at hf'
    · cases hf'
    · exact hf'
  | transmit _ _ _ => exact .less stay rfl rfl (thins_same rfl rfl)
  | complete _ _ _ => exact .less stay rfl rfl (thins_same rfl rfl)

end P1Server.Send
