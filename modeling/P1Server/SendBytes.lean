import P1Server.SendBuff

/-!
# What is transmitted

An overlapped `WSASend` reads its buffer until it completes. `SendThread` has one buffer for all clients of
a pass, packs the next client's commands into it as soon as `SendReq` has returned, and frees it at the end.

* `transmitted` — every call of `SendReq` transmits the bytes it was called with, in the runs where no
  pass writes to or frees a buffer of a pending send and no two passes meet in `SendReq` for one client;
* `not_transmitted` — two clients and one pass: the first client is sent the second one's command.
-/

namespace P1Server.Send
open Lib

variable {n : Nat} {s s' : State n}

/-- The buffer that the next step of a thread writes to or frees. -/
def clobbers : Pc → Option Nat
  | .turn b [] => some b
  | .pack ⟨b, _, x :: _, offset, _⟩ => if offset + x.cmd.length < SOCKET_BUFFER_SIZE then some b else none
  | _ => none

/-- No buffer of a pending send is written to or freed, and no pass enters `SendReq` for a client while
another is between the first write to the client's `wsaSendBuf` and `WSASend`. -/
def Steady (s : State n) : Act n → Prop
  | .run t _ => (∀ b ∈ clobbers (s.pc t), ∀ w ∈ s.sends, w.buf = b → w.status ≠ .pending) ∧
      ∀ k ∈ setsBuf (s.pc t), ∀ u, between (s.pc u) ≠ some k
  | _ => True

instance (s : State n) : ∀ a, Decidable (Steady s a)
  | .run t _ => inferInstanceAs (Decidable ((∀ b ∈ clobbers (s.pc t), ∀ w ∈ s.sends, w.buf = b → w.status ≠ .pending) ∧
      ∀ k ∈ setsBuf (s.pc t), ∀ u, between (s.pc u) ≠ some k))
  | .addNewClient _ | .removeClient _ | .removeAllClient | .call .. | .free _ | .sendThread _ | .newBuff .. | .transmit ..
  | .complete .. => inferInstanceAs (Decidable True)

/-- The bytes transmitted for a call of `SendReq` are those it was called with, from the first on, and all of
them when the send is done; until then its buffer holds them. -/
structure Faithful (s : State n) (w : Wsa) : Prop where
  sent : w.sent <+: w.want
  done : w.status = .done → w.sent = w.want
  kept : w.status = .pending → (s.buffs w.buf).live = true ∧ (s.buffs w.buf).read w.len = w.want

/-! ## Reading a buffer -/

theorem read_length (b : Buff) (len : Nat) : (b.read len).length = len := by
  simp [Buff.read]

theorem read_succ (b : Buff) (m : Nat) : b.read (m + 1) = b.read m ++ [b.cells m] := by
  simp [Buff.read, List.range_succ]

theorem prefix_read (b : Buff) {m len : Nat} (h : m ≤ len) : b.read m <+: b.read len := by
  induction h with
  | refl => exact List.prefix_refl _
  | step _ ih =>
    rw [read_succ]
    exact ih.trans (List.prefix_append _ _)

/-- What is a beginning of the buffer is its own length read. -/
theorem eq_read {b : Buff} {l : List Cell} {len : Nat} (h : l <+: b.read len) : l = b.read l.length := by
  have hl : l.length ≤ len := read_length b len ▸ h.length_le
  have hp : l <+: b.read l.length :=
    List.prefix_of_prefix_length_le h (prefix_read b hl) (by rw [read_length])
  exact hp.eq_of_length (by rw [read_length])

theorem prefix_next {b : Buff} {l : List Cell} {len : Nat} (h : l <+: b.read len) (hl : l.length < len) :
    l ++ [b.cells l.length] <+: b.read len := by
  rw [show l ++ [b.cells l.length] = b.read (l.length + 1) by rw [read_succ, ← eq_read h]]
  exact prefix_read b hl

/-! ## Steps -/

theorem faithful_abort {w : Wsa} (p : ConnId → Bool) (h : Faithful s w) (hb : s'.buffs = s.buffs) :
    Faithful s' (w.abort p) := by
  unfold Wsa.abort
  split
  · exact ⟨h.sent, nofun, nofun⟩
  · exact ⟨h.sent, h.done, hb ▸ h.kept⟩

/-- The sends stay, and so do the buffers of those that are pending. -/
theorem faithful_same (h : ∀ w ∈ s.sends, Faithful s w) (hs : s'.sends = s.sends)
    (hb : ∀ w ∈ s.sends, w.status = .pending → s'.buffs w.buf = s.buffs w.buf) : ∀ w ∈ s'.sends, Faithful s' w := by
  intro w hw
  rw [hs] at hw
  have hf := h w hw
  refine ⟨hf.sent, hf.done, ?_⟩
  intro hp
  rw [hb w hw hp]
  exact hf.kept hp

theorem faithful_aborts (h : ∀ w ∈ s.sends, Faithful s w) (p : ConnId → Bool)
    (hs : s'.sends = s.sends.map fun w => w.abort p) (hb : s'.buffs = s.buffs) :
    ∀ w ∈ s'.sends, Faithful s' w := by
  intro w hw
  rw [hs] at hw
  obtain ⟨v, hv, rfl⟩ := List.mem_map.1 hw
  exact faithful_abort p (h v hv) hb

/-- One send of the list changes. -/
theorem faithful_set (h : ∀ w ∈ s.sends, Faithful s w) {i : Nat} {w : Wsa} (hs : s'.sends = s.sends.set i w)
    (hb : s'.buffs = s.buffs) (hw : Faithful s w) : ∀ w ∈ s'.sends, Faithful s' w := by
  intro v hv
  rw [hs] at hv
  have hf : Faithful s v := (List.mem_or_eq_of_mem_set hv).elim (h v) (fun he => he ▸ hw)
  exact ⟨hf.sent, hf.done, hb ▸ hf.kept⟩

theorem faithful_wsaSend (ho : Owners s) (hc : Calls s) (h : ∀ w ∈ s.sends, Faithful s w) {t : Fin n} {j : Job}
    {ok : Bool} (ht : s.pc t = .wsaSend j) : ∀ w ∈ (s.wsaSend t j ok).sends, Faithful (s.wsaSend t j ok) w := by
  obtain ⟨c, hf, hbuf, hlen⟩ := hc.len t j ht
  unfold State.wsaSend
  rw [hf]
  intro w hw
  cases ok with
  | false =>
    have hw' := h w hw
    exact ⟨hw'.sent, hw'.done, hw'.kept⟩
  | true =>
    rcases List.mem_append.1 hw with hw | hw
    · have hw' := h w hw
      exact ⟨hw'.sent, hw'.done, hw'.kept⟩
    · -- the send that starts: what the context says is what the pass has set
      rw [List.mem_singleton.1 hw]
      refine ⟨List.nil_prefix, nofun, fun _ => ⟨?_, ?_⟩⟩
      · exact ho.own t c.buf (by rw [ht, hbuf]; rfl)
      · show (s.buffs c.buf).read c.len = (s.buffs j.b).read j.offset
        rw [hbuf, hlen]

theorem faithful_transmit (h : ∀ w ∈ s.sends, Faithful s w) {i : Nat} {w : Wsa} {junk : Cell}
    (hw : s.sends[i]? = some w) (hp : w.status = .pending) (hl : w.sent.length < w.len) :
    ∀ v ∈ (s.transmit i w junk).sends, Faithful (s.transmit i w junk) v := by
  have hf := h w (List.mem_of_getElem? hw)
  obtain ⟨hlive, hread⟩ := hf.kept hp
  refine faithful_set h rfl rfl ⟨?_, ?_, fun _ => ⟨hlive, hread⟩⟩
  · show w.sent ++ [if (s.buffs w.buf).live then _ else _] <+: w.want
    have hs := hf.sent
    rw [← hread] at hs
    rw [if_pos hlive, ← hread]
    exact prefix_next hs hl
  · intro hd
    have hd' : w.status = .done := hd
    rw [hp] at hd'
    cases hd'

theorem faithful_complete (h : ∀ w ∈ s.sends, Faithful s w) {i : Nat} {w : Wsa} {ok : Bool}
    (hw : s.sends[i]? = some w) (hp : w.status = .pending) (hl : ok = true → w.sent.length = w.len) :
    ∀ v ∈ (s.complete i w ok).sends, Faithful (s.complete i w ok) v := by
  have hf := h w (List.mem_of_getElem? hw)
  obtain ⟨-, hread⟩ := hf.kept hp
  refine faithful_set h rfl rfl ⟨hf.sent, ?_, ?_⟩
  · intro hd
    cases ok with
    | false => cases hd
    | true =>
      refine hf.sent.eq_of_length ?_
      rw [hl rfl, ← hread, read_length]
  · intro hd
    cases ok <;> cases hd

theorem faithful_move (ho : Owners s) (hc : Calls s) (h : ∀ w ∈ s.sends, Faithful s w) {a : Act n} (hk : Steady s a)
    (m : Move s a s') : ∀ w ∈ s'.sends, Faithful s' w := by
  have stay : ∀ w ∈ s.sends, w.status = .pending → s.buffs w.buf = s.buffs w.buf := fun _ _ _ => rfl
  cases m with
  | removeClient _ => exact faithful_aborts h _ rfl rfl
  | removeAllClient _ => exact faithful_aborts h _ rfl rfl
  | @newBuff t b _ _ _ hb =>
    -- a pending send's buffer is live, so it is another one
    refine faithful_same h rfl fun w hw hp => Function.update_of_ne ?_ _ _
    intro he
    have := ((h w hw).kept hp).1
    rw [he, hb] at this
    cases this
  | @deleteBuff t _ b ht =>
    refine faithful_same h rfl fun w hw hp => Function.update_of_ne ?_ _ _
    exact fun he => hk.1 b (by rw [ht]; rfl) w hw he hp
  | @packOne t _ j x vec ht hv hl =>
    refine faithful_same h rfl fun w hw hp => Function.update_of_ne ?_ _ _
    refine fun he => hk.1 j.b ?_ w hw he hp
    obtain ⟨b, k, vec', offset, temp⟩ := j
    cases hv
    rw [ht]
    exact if_pos hl
  | setLen _ =>
    unfold State.setLen
    split <;> exact faithful_same h rfl (fun _ _ _ => rfl)
  | wsaSend ht => exact faithful_wsaSend ho hc h ht
  | sendFailed _ _ => exact faithful_aborts h _ rfl rfl
  | transmit hw hp hl => exact faithful_transmit h hw hp hl
  | complete hw hp hl => exact faithful_complete h hw hp hl
  | _ => exact faithful_same h rfl stay

/-- In these runs nobody writes to a `wsaSendBuf` that another pass has set. -/
theorem calls (h : (sys n).Reach Steady s) : Calls s := by
  refine h.inv (fun _ hi => hi ▸ .unshared fun _ => rfl) fun _ _ _ hc hk he => hc.move (step_move he) ?_
  rintro t ok rfl
  exact hk.2

theorem faithful (h : (sys n).Reach Steady s) : ∀ w ∈ s.sends, Faithful s w :=
  h.inv_of (J := fun s => Owners s ∧ Calls s) (I := fun s => ∀ w ∈ s.sends, Faithful s w)
    (fun _ hr => ⟨owners hr.reachable, calls hr⟩) (fun _ hi => hi ▸ nofun)
    fun _ _ _ hj _ hf hk he => faithful_move hj.1 hj.2 hf hk (step_move he)

/-- **Transmitted bytes are the packed bytes.** -/
theorem transmitted (h : (sys n).Reach Steady s) : ∀ w ∈ s.sends, Faithful s w := faithful h

/-- One client and one pass; the send has been transmitted and completed before the pass frees the buffer. -/
theorem transmitted_one : ∃ s : State 1, (sys 1).Reach Steady s ∧ s.pc 0 = .idle ∧
    s.sends.map (fun w => w.sent.map Cell.val) = [[6, 0, 0, 0, 7, 0]] ∧ ∀ w ∈ s.sends, w.sent = w.want :=
  have hr : (sys 1).Reach Steady _ := Sys.Reach.runK ([.addNewClient 1] ++ callRun 0 1 (headerCmd 7) ++
    [.sendThread 0] ++ runs 0 4 ++ [.newBuff 0 9 fun _ => ⟨0, none⟩] ++ runs 0 6 ++
    List.replicate 6 (.transmit 0 ⟨0, none⟩) ++ [.complete 0 true] ++ runs 0 2) (.init rfl) rfl
  ⟨_, hr, rfl, rfl, fun w hw => (transmitted hr w hw).done (by
    rw [List.mem_singleton.1 hw]
    rfl)⟩

/-- Two clients and one pass: while the first client's send is pending, the second one's command is packed
into the same buffer, and transmitted to the first. -/
theorem not_transmitted : ¬ ∀ s : State 4, (sys 4).Reachable s → ∀ w ∈ s.sends, w.status = .done → w.sent = w.want := by
  intro h
  have hr : (sys 4).Reachable _ := Sys.Reachable.run ([.addNewClient 1, .addNewClient 2] ++
    callRun 0 1 (headerCmd 7) ++ callRun 0 2 (headerCmd 8) ++ [.sendThread 0] ++ runs 0 7 ++
    [.newBuff 0 9 fun _ => ⟨0, none⟩] ++ runs 0 9 ++ List.replicate 6 (.transmit 0 ⟨0, none⟩) ++ [.complete 0 true])
    (.init rfl) rfl
  have hd := h _ hr _ List.mem_cons_self rfl
  exact absurd (congrArg (List.map Cell.val) hd) (by decide)

end P1Server.Send
