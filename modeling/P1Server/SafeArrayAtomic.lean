import P1Server.Lib.Atomic
import P1Server.SafeArrayFifo
import P1Server.SafeArraySpsc

/-!
# `SafeArray` between two threads is an atomic queue

The producer's calls and the consumer's take several steps each, and the ones go on while the others are under way. Each
takes place at one of its steps:

| call | takes place |
| --- | --- |
| `HasSpace` | where it reads `m_PopIdx` (`SafeArray.h:56`) |
| `AddItem`  | where it writes `m_PushIdx` (`:61`) |
| `HasItem`  | where it reads `m_PushIdx` (`:32`) |
| `GetItem`  | where it writes `m_PopIdx` (`:48`), before it reads the slot |

* `Abstracts` — how the queue and the calls under way are seen in the array and the threads;
* **`atomic_queue`** — every history of the calls is one of the atomic queue.
-/

namespace P1Server.Spsc
open Lib Atomic SafeArray

variable {T : Type} {zero : T} {nSize : UInt32} {s s' : State T}

inductive Side
  | producer
  | consumer
  deriving DecidableEq

/-- The calls that begin and return with a step. -/
def events (zero : T) (s : State T) : Act T → List (Event Side (Call T) (Answer T))
  | .add _ => [.call .producer .hasSpace]
  | .get => [.call .consumer .hasItem]
  | .producer =>
    match s.prod with
    | .spacePop t push =>
      if s.q.next push ≠ s.q.m_PopIdx then [.ret .producer (.bool true), .call .producer (.addItem t)]
      else [.ret .producer (.bool false)]
    | .pushWrite _ _ => [.ret .producer .none]
    | _ => []
  | .consumer =>
    match s.cons with
    | .itemPop push =>
      if push ≠ s.q.m_PopIdx then [.ret .consumer (.bool true), .call .consumer .getItem]
      else [.ret .consumer (.bool false)]
    | .getPop push => if push ≠ s.q.m_PopIdx then [] else [.ret .consumer (.item zero)]
    | .slotRead idx => [.ret .consumer (.item (s.q.m_pData idx))]
    | _ => []

/-- The atomic queue: of one call less than the array has slots. -/
abbrev Queue (T : Type) (nSize : UInt32) :=
  Atomic.State Side (Fifo T ((arraySize nSize).toNat - 1)) (Call T) (Answer T)

/-- Its call, whoever calls. -/
abbrev queueCall (zero : T) {cap : Nat} (_ : Side) : Fifo T cap → Call T → Option (Answer T × Fifo T cap) :=
  fifoCall zero

/-! ## What is under way -/

def producerCall : Producer T → Status (Call T) (Answer T)
  | .idle => .idle
  | .spacePush _ | .spacePop _ _ => .called .hasSpace
  | .slotIdx t | .slotWrite t _ | .pushRead t | .pushWrite t _ => .called (.addItem t)

def consumerCall (q : SafeArray T) : Consumer → Status (Call T) (Answer T)
  | .idle => .idle
  | .itemPush => .called .hasItem
  | .itemPop push => .done (.bool (decide (push ≠ q.m_PopIdx)))
  | .getPush | .getPop _ | .idxRead | .popRead _ | .popWrite _ _ => .called .getItem
  | .slotRead idx => .done (.item (q.m_pData idx))

structure Abstracts (s : State T) (x : Queue T nSize) : Prop where
  items : x.obj.items = s.added.drop (popped s)
  producer : x.thread .producer = producerCall s.prod
  consumer : x.thread .consumer = consumerCall s.q s.cons

/-! ## What the indices say -/

/-- The index of the next value is not `m_PopIdx`, as long as there is room. -/
theorem Ring.hasSpace (h : Ring nSize s) : s.q.next s.q.m_PushIdx ≠ s.q.m_PopIdx ↔ Room nSize s := by
  refine ⟨h.room, ?_⟩
  intro hr he
  have hle := h.le
  rw [Room] at hr
  rw [h.push, SafeArray.next_slot h.mask, h.pop] at he
  have := slot_inj arraySize_pos' (i := popped s) (j := s.added.length + 1) (by omega) (by omega) he.symm
  omega

theorem Ring.hasItem (h : Ring nSize s) : s.q.m_PushIdx ≠ s.q.m_PopIdx ↔ popped s < s.added.length :=
  ⟨h.item (k := 0) ⟨_, h.le, Nat.le_refl _, h.push⟩, fun hlt => h.still ⟨_, hlt, Nat.le_refl _, h.push⟩⟩

/-- The slot that has still to be read has the value that has left the queue. -/
theorem Inv.slotRead (h : Inv nSize s) {idx : UInt32} (hc : s.cons = .slotRead idx) :
    s.added[s.got.length]? = some (s.q.m_pData idx) := by
  have hok := h.consumer
  rw [ConsumerOk, hc] at hok
  have hle : s.got.length + 1 ≤ s.added.length := by
    have hle := h.le
    rwa [popped, hc] at hle
  obtain ⟨t, ht⟩ : ∃ t, s.added[s.got.length]? = some t := ⟨_, List.getElem?_eq_getElem hle⟩
  rw [ht, hok, h.kept _ t (Nat.le_refl _) ht]

/-- The producer does not change what the consumer answers. -/
theorem consumerCall_eq (h : Inv nSize s) (h' : Inv nSize s') (hc : s'.cons = s.cons) (hg : s'.got = s.got)
    (hp : s'.q.m_PopIdx = s.q.m_PopIdx) (ha : s.added <+: s'.added) :
    consumerCall s'.q s'.cons = consumerCall s.q s.cons := by
  rw [hc]
  cases hcs : s.cons with
  | itemPop push => simp only [consumerCall, hp]
  | slotRead idx =>
    have ht := h'.slotRead (hc.trans hcs)
    have hr := h.slotRead hcs
    obtain ⟨hlt, -⟩ := List.getElem?_eq_some_iff.1 hr
    obtain ⟨r, hr'⟩ := ha
    rw [hg, ← hr', List.getElem?_append_left hlt, hr] at ht
    simp only [consumerCall, Option.some.inj ht]
  | _ => rfl

theorem Abstracts.room {x : Queue T nSize} (h : Abstracts s x) (hi : Ring nSize s) :
    x.obj.items.length < (arraySize nSize).toNat - 1 ↔ Room nSize s := by
  rw [Room, h.items, List.length_drop]
  have := hi.le
  omega

/-! ## The steps of the producer -/

/-- What a step of the producer does to the queue and to its call. -/
theorem Abstracts.produce {x : Queue T nSize} (h : Abstracts s x) (hi : Inv nSize s) (hi' : Inv nSize s')
    (hc : s'.cons = s.cons) (hg : s'.got = s.got) (hp : s'.q.m_PopIdx = s.q.m_PopIdx) (ha : s.added <+: s'.added)
    {f : Fifo T ((arraySize nSize).toNat - 1)} (hf : f.items = s'.added.drop (popped s')) :
    Abstracts s' ⟨f, Function.update x.thread .producer (producerCall s'.prod)⟩ where
  items := hf
  producer := by simp only [Function.update_self]
  consumer := by
    simp only [Function.update_of_ne (show Side.consumer ≠ .producer by simp), h.consumer,
      consumerCall_eq hi hi' hc hg hp ha]

theorem Abstracts.stepProducer {x : Queue T nSize} (h : Abstracts s x) (hi : Inv nSize s)
    (he : stepProducer s = some s') :
    ∃ y, History (queueCall zero) x (events zero s .producer) y ∧ Abstracts s' y := by
  have hi' := hi.stepProducer he
  have hp := hi.producer
  have hx := h.producer
  rw [ProducerOk] at hp
  -- the steps in which nothing takes place
  have hquiet : ∀ {p q}, s.prod = p → s' = { s with q := q, prod := s'.prod } → producerCall s'.prod = producerCall p →
      s'.q.m_PopIdx = s.q.m_PopIdx → ∃ y, History (queueCall zero) x [] y ∧ Abstracts s' y := by
    intro p q hc hs hcall hpop
    refine ⟨x, .refl, ?_⟩
    have hy := h.produce hi hi' (by rw [hs]) (by rw [hs]) hpop (by rw [hs]) (f := x.obj)
      (by rw [h.items, hs]; rfl)
    rwa [hcall, ← hc, ← hx, Function.update_eq_self] at hy
  simp only [Spsc.stepProducer] at he
  simp only [events]
  cases hc : s.prod with
  | idle =>
    rw [hc] at he
    cases he
  | spacePush t | slotIdx t | pushRead t =>
    rw [hc] at he
    cases he
    exact hquiet hc rfl rfl rfl
  | slotWrite t push =>
    rw [hc] at he
    cases he
    exact hquiet hc rfl rfl rfl
  | spacePop t push =>
    rw [hc] at he hp hx
    cases he
    -- `HasSpace` takes place here, and answers what the queue says
    obtain rfl : push = s.q.m_PushIdx := hp
    by_cases hn : s.q.next s.q.m_PushIdx ≠ s.q.m_PopIdx
    · have hcall : queueCall zero Side.producer x.obj .hasSpace = some (.bool true, x.obj) := by
        simp only [queueCall, fifoCall, (h.room hi.toRing).2 (hi.hasSpace.1 hn), decide_true]
      have hy := (History.take hx hcall).trans (History.next (Function.update_self ..) (.addItem t))
      rw [Function.update_idem] at hy
      simp only [if_pos hn] at hi' ⊢
      exact ⟨_, hy, h.produce hi hi' rfl rfl rfl (List.prefix_refl _) h.items⟩
    · have hcall : queueCall zero Side.producer x.obj .hasSpace = some (.bool false, x.obj) := by
        simp only [queueCall, fifoCall, (h.room hi.toRing).not.2 (hi.hasSpace.not.1 hn), decide_false]
      simp only [if_neg hn] at hi' ⊢
      exact ⟨_, History.answer hx hcall, h.produce hi hi' rfl rfl rfl (List.prefix_refl _) h.items⟩
  | pushWrite t push =>
    rw [hc] at he hp hx
    cases he
    -- and `AddItem` here
    refine ⟨_, History.answer hx (dif_pos ((h.room hi.toRing).2 hp.1)), h.produce hi hi' rfl rfl rfl (List.prefix_append ..) ?_⟩
    show x.obj.items ++ [t] = (s.added ++ [t]).drop (popped s)
    rw [h.items, List.drop_append_of_le_length hi.le]

/-! ## The steps of the consumer -/

/-- What a step of the consumer does to the queue and to its call. -/
theorem Abstracts.consume {x : Queue T nSize} (h : Abstracts s x) (s' : State T) (hp : s'.prod = s.prod)
    {f : Fifo T ((arraySize nSize).toNat - 1)} (hf : f.items = s'.added.drop (popped s')) :
    Abstracts s' ⟨f, Function.update x.thread .consumer (consumerCall s'.q s'.cons)⟩ where
  items := hf
  producer := by simp only [Function.update_of_ne (show Side.producer ≠ .consumer by simp), h.producer, hp]
  consumer := by simp only [Function.update_self]

theorem Abstracts.stepConsumer {x : Queue T nSize} (h : Abstracts s x) (hi : Inv nSize s)
    (he : stepConsumer zero s = some s') :
    ∃ y, History (queueCall zero) x (events zero s .consumer) y ∧ Abstracts s' y := by
  have hi' := hi.stepConsumer he
  have hok := hi.consumer
  have hx := h.consumer
  rw [ConsumerOk] at hok
  -- the steps in which nothing takes place
  have hquiet : ∀ {c c'}, s.cons = c → s' = { s with cons := c' } → popped s = popped { s with cons := c' } →
      consumerCall s.q c' = consumerCall s.q c → ∃ y, History (queueCall zero) x [] y ∧ Abstracts s' y := by
    rintro c c' hc rfl hpop hcall
    refine ⟨x, .refl, ?_⟩
    have hy := h.consume { s with cons := c' } rfl (f := x.obj) (by rw [h.items, hpop])
    rwa [hcall, ← hc, ← hx, Function.update_eq_self] at hy
  simp only [Spsc.stepConsumer] at he
  simp only [events]
  cases hc : s.cons with
  | idle =>
    rw [hc] at he
    cases he
  | getPush | idxRead | popRead idx =>
    rw [hc] at he
    cases he
    exact hquiet hc rfl (by rw [popped, hc]; rfl) rfl
  | getPop push =>
    rw [hc] at he hok
    have hn := hi.still hok
    dsimp only at he
    rw [if_pos hn] at he
    cases he
    simp only [if_pos hn]
    exact hquiet hc rfl (by rw [popped, hc]; rfl) rfl
  | itemPush =>
    rw [hc] at he hx
    cases he
    -- `HasItem` takes place here
    have hne : x.obj.items ≠ [] ↔ s.q.m_PushIdx ≠ s.q.m_PopIdx := by
      rw [hi.hasItem, h.items, ne_eq, List.drop_eq_nil_iff, Nat.not_le]
    have hcall : queueCall zero Side.consumer x.obj .hasItem =
        some (.bool (decide (s.q.m_PushIdx ≠ s.q.m_PopIdx)), x.obj) := by
      simp only [queueCall, fifoCall, hne]
    exact ⟨_, History.take hx hcall, h.consume _ (by rfl) (by rw [h.items, popped, hc]; rfl)⟩
  | itemPop push =>
    rw [hc] at he hx
    cases he
    by_cases hn : push ≠ s.q.m_PopIdx
    · simp only [if_pos hn]
      rw [consumerCall, decide_eq_true hn] at hx
      exact ⟨_, History.next hx .getItem, h.consume _ (by rfl) (by rw [h.items, popped, hc]; rfl)⟩
    · simp only [if_neg hn]
      rw [consumerCall, decide_eq_false hn] at hx
      exact ⟨_, History.ret hx, h.consume _ (by rfl) (by rw [h.items, popped, hc]; rfl)⟩
  | popWrite idx pop =>
    rw [hc] at he hx
    cases he
    -- and `GetItem` here: the value is still in the slot
    have hgot : popped s = s.got.length := by rw [popped, hc]
    have hread := hi'.slotRead rfl
    have hcall : queueCall zero Side.consumer x.obj .getItem = some (.item (s.q.m_pData idx), x.obj.pop) := by
      simp only [queueCall, fifoCall, List.headD_eq_head?_getD, h.items, hgot, List.head?_drop]
      rw [hread]
      rfl
    refine ⟨_, History.take hx hcall, h.consume _ (by rfl) ?_⟩
    show x.obj.items.tail = s.added.drop (s.got.length + 1)
    rw [h.items, hgot, List.tail_drop]
  | slotRead idx =>
    rw [hc] at he hx
    cases he
    refine ⟨_, History.ret hx, h.consume _ (by rfl) ?_⟩
    rw [h.items, popped, hc]
    simp only [popped, List.length_append, List.length_singleton]

/-! ## All runs -/

theorem Abstracts.step {x : Queue T nSize} (h : Abstracts s x) (hi : Inv nSize s) {a : Act T}
    (he : step zero s a = some s') : ∃ y, History (queueCall zero) x (events zero s a) y ∧ Abstracts s' y := by
  cases a with
  | producer => exact h.stepProducer hi he
  | consumer => exact h.stepConsumer hi he
  | add t =>
    simp only [Spsc.step] at he
    split at he
    case h_1 hc =>
      cases he
      have hx := h.producer
      rw [hc] at hx
      exact ⟨_, History.call hx .hasSpace,
        h.produce hi (hi.produce (p := .spacePush t) trivial) rfl rfl rfl (List.prefix_refl _) h.items⟩
    case h_2 => cases he
  | get =>
    simp only [Spsc.step] at he
    split at he
    case h_1 hc =>
      cases he
      have hx := h.consumer
      rw [hc] at hx
      exact ⟨_, History.call hx .hasItem, h.consume _ (by rfl) (by rw [h.items, popped, hc]; rfl)⟩
    case h_2 => cases he

/-- **`SafeArray` is linearizable** for one producer and one consumer: what they call and what they are answered, in any
interleaving of the reads and writes, is a history of the atomic queue of `m_ArraySize - 1` values. In the end it has the
values that were added and have not been taken. -/
theorem atomic_queue {s₀ : State T} (h0 : (sys zero nSize).init s₀) {l : List (Event Side (Call T) (Answer T))}
    (hr : (sys zero nSize).Shows (fun _ _ => True) (events zero) s₀ l s) :
    ∃ x : Queue T nSize, History (queueCall zero) (start .empty) l x ∧ x.obj.items = s.added.drop (popped s) := by
  have hstart : Inv nSize s₀ ∧ Abstracts s₀ (start .empty : Queue T nSize) := by
    refine ⟨inv (.init h0), ?_⟩
    obtain ⟨data, rfl⟩ := h0
    exact ⟨rfl, rfl, rfl⟩
  obtain ⟨x, hx, -, habs⟩ := hr.simulate (N := Atomic.sys (queueCall zero)) (L := fun _ _ => True) (g := seen)
    (R := fun s (x : Queue T nSize) => Inv nSize s ∧ Abstracts s x)
    (fun s x a s' ⟨hi, h⟩ _ he => (h.step hi he).imp fun y hy => ⟨hy.1, hi.step he, hy.2⟩) hstart
  exact ⟨x, hx, habs.items⟩

/-- `HasItem` has read `m_PushIdx`, and then a value is added: it still answers that there is none. -/
theorem atomic_queue_two : ∃ s l, (sys (0 : Nat) 8).Shows (fun _ _ => True) (events 0)
      (⟨.new 8 fun _ => 0, .idle, .idle, [], []⟩ : State Nat) l s ∧
    l = [.call .producer .hasSpace, .call .consumer .hasItem, .ret .producer (.bool true),
      .call .producer (.addItem 7), .ret .producer .none, .ret .consumer (.bool false)] ∧
    ∃ x : Queue Nat 8, History (queueCall 0) (start .empty) l x ∧ x.obj.items = [7] := by
  have hex : ∃ s, s.added.drop (popped s) = [7] ∧ (sys (0 : Nat) 8).Shows (fun _ _ => True) (events 0)
      (⟨.new 8 fun _ => 0, .idle, .idle, [], []⟩ : State Nat) _ s :=
    ⟨_, rfl, .run ([.add 7, .get, .consumer] ++ .replicate 6 .producer ++ [.consumer]) (fun _ _ _ => trivial) rfl⟩
  obtain ⟨s, hs, hr⟩ := hex
  obtain ⟨x, hx, hitems⟩ := atomic_queue ⟨_, rfl⟩ hr
  exact ⟨s, _, hr, rfl, x, hx, hitems.trans hs⟩

end P1Server.Spsc
