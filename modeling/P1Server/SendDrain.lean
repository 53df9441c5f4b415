import P1Server.SendPass

/-!
# Passes empty the queues

Passes that run alone, one after the other, and nobody adds commands: each sends at least one command of every
queue that has one, since a command alone fits into the buffer (`Entry.short`).

* `Passes.sent` — what passes have sent of a queue and what is left in it are its commands, each once;
* `pass_drains` — a pass returns and sends the packets; as many passes as the longest queue has commands
  empty every queue.
-/

namespace P1Server.Send
open Lib

variable {n : Nat} {s s' : State n} {t : Fin n} {b : Nat} {cells : Nat → Cell} {fails : Socket → Bool}

/-- `m` passes, one after the other. No send fails for a client that is not `down`. -/
inductive Passes (t : Fin n) (down : Socket → Bool) : Nat → State n → List Event → State n → Prop
  | none {s : State n} : Passes t down 0 s [] s
  | more {m b : Nat} {cells : Nat → Cell} {fails : Socket → Bool} {s s' s'' : State n} {l l' : List Event} :
      (s.buffs b).live = false → (∀ k, down k = false → fails k = false) → Pass t b cells fails s l s' →
      Passes t down m s' l' s'' → Passes t down (m + 1) s (l ++ l') s''

/-- There is one pass. -/
theorem Pass.unique {l l' : List Event} {u u' : State n} (h : Pass t b cells fails s l u)
    (h' : Pass t b cells fails s l' u') : l = l' ∧ u = u' := by
  obtain ⟨l₂, hl, hs⟩ := Begun.onward h h'.1
  cases hs with
  | refl => exact ⟨by rw [hl, List.append_nil], rfl⟩
  | step ho _ _ => exact absurd h'.2 ho.1

/-- What every pass does. -/
theorem Pass.sends {l : List Event} (h : Ready t s) (hb : (s.buffs b).live = false) (hp : Pass t b cells fails s l s') :
    Sends b fails s l s' ∧ Ready t s' := by
  obtain ⟨l₀, s₀, hp₀, hs, hr, -⟩ := pass b cells fails h hb
  obtain ⟨rfl, rfl⟩ := Pass.unique hp hp₀
  exact ⟨hs, hr⟩

/-- What was sent for a client, call by call. -/
def sentTo (k : Socket) (l : List Event) : List (List Cell) := ((reqs l).filter fun r => r.1 = k).map Prod.snd

theorem sentTo_append (k : Socket) (l l' : List Event) : sentTo k (l ++ l') = sentTo k l ++ sentTo k l' := by
  simp [sentTo]

/-- A pass sends a client the packet of its queue, unless the queue is empty. -/
theorem Sends.sentTo {l : List Event} (h : Sends b fails s l s') {k : Socket} {c : Client}
    (hc : s.clientCmd.find k = some c) :
    sentTo k l = ([packet c.sendQueue].filter (· ≠ [])).map fun p => p.flatMap Entry.cells := by
  have hkey : (s.clientCmd.entries.filter fun e => e.2.sendQueue ≠ []).filter (fun e => e.1 = k) =
      [(k, c)].filter fun e => e.2.sendQueue ≠ [] := by
    rw [← OrdMap.filter_key hc, List.filter_filter, List.filter_filter]
    congr 1
    funext e
    exact Bool.and_comm ..
  rw [Send.sentTo, h.reqs, List.filter_map, List.map_map]
  simp only [Function.comp_def, hkey]
  by_cases hq : c.sendQueue = []
  · simp [hq, packet_eq_nil.2]
  · simp [hq, packet_eq_nil]

/-- What is left in the queues after `m` passes. -/
theorem Passes.left {down : Socket → Bool} {m : Nat} {l : List Event} (h : Passes t down m s l s') (hr : Ready t s) :
    ∀ k c', s'.clientCmd.find k = some c' → ∃ c, s.clientCmd.find k = some c ∧
      c'.sendQueue.length ≤ c.sendQueue.length - m := by
  induction h with
  | none => exact fun k c' hc' => ⟨c', hc', Nat.le_refl _⟩
  | more hb _ hp _ ih =>
    intro k c' hc'
    obtain ⟨hs, hr'⟩ := hp.sends hr hb
    obtain ⟨c₁, hc₁, hle⟩ := ih hr' k c' hc'
    obtain ⟨c, hc, hl⟩ := hs.left k c₁ hc₁
    refine ⟨c, hc, ?_⟩
    have hlen := hl.length
    cases hq : c.sendQueue with
    | nil =>
      rw [hq, List.length_nil] at hlen
      rw [List.length_nil]
      omega
    | cons x q =>
      -- a pass takes at least one command
      have hpos : 0 < (packet c.sendQueue).length :=
        List.length_pos_iff.2 fun he => List.cons_ne_nil x q (hq.symm.trans (packet_eq_nil.1 he))
      rw [← hq]
      omega

/-- **Sent or left, and no command twice.** -/
theorem Passes.sent {down : Socket → Bool} {m : Nat} {l : List Event} (h : Passes t down m s l s') (hr : Ready t s)
    {k : Socket} {c : Client} (hc : s.clientCmd.find k = some c) (hk : down k = false) :
    ∃ (c' : Client) (packets : List (List Entry)), s'.clientCmd.find k = some c' ∧
      sentTo k l = packets.map (fun p => p.flatMap Entry.cells) ∧
      (packets.flatten ++ c'.sendQueue).Perm c.sendQueue := by
  induction h generalizing c with
  | none => exact ⟨c, [], hc, rfl, .refl _⟩
  | more hb hf hp _ ih =>
    obtain ⟨hs, hr'⟩ := hp.sends hr hb
    obtain ⟨c₁, hc₁, hl⟩ := hs.keeps k c hc (hf k hk)
    obtain ⟨c', packets, hc', hsent, hperm⟩ := ih hr' hc₁
    refine ⟨c', [packet c.sendQueue].filter (· ≠ []) ++ packets, hc', ?_, ?_⟩
    · rw [sentTo_append, hs.sentTo hc, hsent, List.map_append]
    · have hflat : (([packet c.sendQueue].filter (· ≠ [])) ++ packets).flatten =
          packet c.sendQueue ++ packets.flatten := by
        by_cases hq : packet c.sendQueue = [] <;> simp [hq]
      rw [hflat, List.append_assoc]
      exact (hperm.append_left _).trans hl.2

/-- Passes can go on. -/
theorem Passes.exist (down : Socket → Bool) (b : Nat) (cells : Nat → Cell) (m : Nat) {s : State n} (h : Ready t s)
    (hb : (s.buffs b).live = false) : ∃ l s', Passes t down m s l s' := by
  induction m generalizing s with
  | zero => exact ⟨[], s, .none⟩
  | succ m ih =>
    obtain ⟨l, s₁, hp, -, hr, hb₁⟩ := pass b cells down h hb
    obtain ⟨l', s₂, hps⟩ := ih hr hb₁
    exact ⟨l ++ l', s₂, .more hb (fun _ hk => hk) hp hps⟩

/-- **A pass that runs alone returns and sends every client the packet of its queue; passes empty the queues.**
However far a pass has got, it goes on to the same end. -/
theorem pass_drains (t : Fin n) (b : Nat) (cells : Nat → Cell) (fails : Socket → Bool) {s : State n}
    (h : Ready t s) (hb : (s.buffs b).live = false) :
    (∃ l s', Pass t b cells fails s l s' ∧ Sends b fails s l s' ∧ Ready t s' ∧
      ∀ l' u, Begun t b cells fails s l' u → ∃ l₂, l = l' ++ l₂ ∧ Steps t b cells fails u l₂ s') ∧
    ∀ m, (∀ k c, s.clientCmd.find k = some c → c.sendQueue.length ≤ m) →
      (∃ l s', Passes t fails m s l s') ∧ ∀ l s', Passes t fails m s l s' →
        (∀ k c', s'.clientCmd.find k = some c' → c'.sendQueue = []) ∧
        ∀ k c, s.clientCmd.find k = some c → fails k = false → ∃ packets : List (List Entry),
          sentTo k l = packets.map (fun p => p.flatMap Entry.cells) ∧ packets.flatten.Perm c.sendQueue := by
  refine ⟨?_, fun m hm => ⟨Passes.exist fails b cells m h hb, ?_⟩⟩
  · obtain ⟨l, s', hp, hs, hr, -⟩ := pass b cells fails h hb
    exact ⟨l, s', hp, hs, hr, fun l' u hu => Begun.onward hp hu⟩
  · intro l s' hp
    have hempty : ∀ k c', s'.clientCmd.find k = some c' → c'.sendQueue = [] := by
      intro k c' hc'
      obtain ⟨c, hc, hle⟩ := hp.left h k c' hc'
      have := hm k c hc
      exact List.length_eq_zero_iff.1 (by omega)
    refine ⟨hempty, ?_⟩
    intro k c hc hk
    obtain ⟨c', packets, hc', hsent, hperm⟩ := hp.sent h hc hk
    rw [hempty k c' hc', List.append_nil] at hperm
    exact ⟨packets, hsent, hperm⟩

/-- Two clients; two commands wait for one of them. -/
def waiting : State 1 :=
  ((sys 1).run (start 1) ([.addNewClient 7, .addNewClient 3] ++ callRun 0 7 (headerCmd 1) ++
    callRun 0 7 (headerCmd 2))).getD (start 1)

theorem waiting_queues : ∀ e ∈ waiting.clientCmd.entries,
    e.2.sendQueue.length ≤ 2 ∧ ∀ x ∈ e.2.sendQueue, 0 < x.cmd.length := by decide +kernel

theorem waiting_ready : Ready 0 waiting where
  idle := rfl
  alone u hu := absurd (Subsingleton.elim u 0) hu
  room k c hc := (waiting_queues (k, c) (OrdMap.mem_entries.2 hc)).1.trans (by decide)
  pos k c hc := (waiting_queues (k, c) (OrdMap.mem_entries.2 hc)).2

theorem pass_drains_waiting :
    (∃ l s', Pass 0 0 (fun _ => ⟨0, none⟩) (fun _ => false) waiting l s' ∧
      (reqs l).map (fun r => (r.1, r.2.length)) = [(7, 12)]) ∧
    ∃ l s', Passes 0 (fun _ => false) 2 waiting l s' ∧
      ∀ k c', s'.clientCmd.find k = some c' → c'.sendQueue = [] := by
  obtain ⟨⟨l, s', hp, hs, -, -⟩, hall⟩ :=
    pass_drains 0 0 (fun _ => ⟨0, none⟩) (fun _ => false) waiting_ready rfl
  obtain ⟨⟨l₂, s₂, hps⟩, hdrain⟩ := hall 2 fun k c hc => (waiting_queues (k, c) (OrdMap.mem_entries.2 hc)).1
  refine ⟨⟨l, s', hp, ?_⟩, l₂, s₂, hps, (hdrain l₂ s₂ hps).1⟩
  rw [hs.reqs]
  decide +kernel

end P1Server.Send
