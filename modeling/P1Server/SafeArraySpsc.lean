import P1Server.Lib.Sys
import P1Server.SafeArray

/-!
# `SafeArray` between one producer and one consumer

| here | there |
| --- | --- |
| `Producer` | `HasSpace`, then `AddItem` (`SafeArray.h:54-62`), as `HttpClientBoost::ReqData` calls them |
| `Consumer` | `HasItem`, then `GetItem` with its own `HasItem` (`:34-50`), as `ExecuteThread` calls them |

Every read and write of an index or a slot is a step. `added` has the values whose `AddItem` has advanced
`m_PushIdx`, `got` those `GetItem` has returned.

* `got_prefix` — what the consumer gets is what the producer adds, in this order.
-/

namespace P1Server.Spsc
open Lib

variable {T : Type} {zero : T} {nSize : UInt32}

/-- Where the producer is. -/
inductive Producer (T : Type)
  | idle
  | spacePush (t : T)
  | spacePop (t : T) (push : UInt32)
  | slotIdx (t : T)
  | slotWrite (t : T) (push : UInt32)
  | pushRead (t : T)
  | pushWrite (t : T) (push : UInt32)

inductive Consumer
  | idle
  | itemPush
  | itemPop (push : UInt32)
  | getPush
  | getPop (push : UInt32)
  | idxRead
  | popRead (idx : UInt32)
  | popWrite (idx pop : UInt32)
  | slotRead (idx : UInt32)

structure State (T : Type) where
  q : SafeArray T
  prod : Producer T
  cons : Consumer
  added : List T
  got : List T

inductive Act (T : Type)
  | add (t : T)
  | get
  | producer
  | consumer

def stepProducer (s : State T) : Option (State T) :=
  match s.prod with
  | .idle => none
  -- HasSpace
  | .spacePush t => some { s with prod := .spacePop t s.q.m_PushIdx }
  | .spacePop t push => some { s with prod := if s.q.next push ≠ s.q.m_PopIdx then .slotIdx t else .idle }
  -- AddItem
  | .slotIdx t => some { s with prod := .slotWrite t s.q.m_PushIdx }
  | .slotWrite t push =>
    some { s with q := { s.q with m_pData := Function.update s.q.m_pData push t }, prod := .pushRead t }
  | .pushRead t => some { s with prod := .pushWrite t s.q.m_PushIdx }
  | .pushWrite t push =>
    some { s with q := { s.q with m_PushIdx := s.q.next push }, prod := .idle, added := s.added ++ [t] }

def stepConsumer (zero : T) (s : State T) : Option (State T) :=
  match s.cons with
  | .idle => none
  -- HasItem
  | .itemPush => some { s with cons := .itemPop s.q.m_PushIdx }
  | .itemPop push => some { s with cons := if push ≠ s.q.m_PopIdx then .getPush else .idle }
  -- GetItem
  | .getPush => some { s with cons := .getPop s.q.m_PushIdx }
  | .getPop push =>
    if push ≠ s.q.m_PopIdx then some { s with cons := .idxRead }
    else some { s with cons := .idle, got := s.got ++ [zero] }
  | .idxRead => some { s with cons := .popRead s.q.m_PopIdx }
  | .popRead idx => some { s with cons := .popWrite idx s.q.m_PopIdx }
  | .popWrite idx pop => some { s with q := { s.q with m_PopIdx := s.q.next pop }, cons := .slotRead idx }
  | .slotRead idx => some { s with cons := .idle, got := s.got ++ [s.q.m_pData idx] }

def step (zero : T) (s : State T) : Act T → Option (State T)
  | .add t =>
    match s.prod with
    | .idle => some { s with prod := .spacePush t }
    | _ => none
  | .get =>
    match s.cons with
    | .idle => some { s with cons := .itemPush }
    | _ => none
  | .producer => stepProducer s
  | .consumer => stepConsumer zero s

/-- Producer and consumer over a new array of the requested size; the slots hold anything. -/
def sys (zero : T) (nSize : UInt32) : Sys (State T) (Act T) where
  init s := ∃ data, s = ⟨.new nSize data, .idle, .idle, [], []⟩
  step := step zero

/-! ## The invariant -/

/-- How many values have left the array: one of them is still to be read while the consumer is at `slotRead`. -/
def popped (s : State T) : Nat :=
  match s.cons with
  | .slotRead _ => s.got.length + 1
  | _ => s.got.length

/-- The indices are where the counts of values say, and a value stays in its slot until it is read. -/
structure Ring (nSize : UInt32) (s : State T) : Prop where
  mask : s.q.m_ArraySizeInv = arraySize nSize - 1
  push : s.q.m_PushIdx = slot (arraySize nSize) s.added.length
  pop : s.q.m_PopIdx = slot (arraySize nSize) (popped s)
  le : popped s ≤ s.added.length
  lt : s.added.length - popped s < (arraySize nSize).toNat
  kept : ∀ j t, s.got.length ≤ j → s.added[j]? = some t → s.q.m_pData (slot (arraySize nSize) j) = t
  fifo : s.got <+: s.added

/-- There is a free slot beside the one that is always empty. -/
def Room (nSize : UInt32) (s : State T) : Prop := s.added.length + 1 - popped s < (arraySize nSize).toNat

def ProducerOk (nSize : UInt32) (s : State T) : Prop :=
  match s.prod with
  | .idle | .spacePush _ => True
  | .spacePop _ push => push = s.q.m_PushIdx
  | .slotIdx _ => Room nSize s
  | .slotWrite _ push => Room nSize s ∧ push = s.q.m_PushIdx
  | .pushRead t => Room nSize s ∧ s.q.m_pData s.q.m_PushIdx = t
  | .pushWrite t push => Room nSize s ∧ s.q.m_pData s.q.m_PushIdx = t ∧ push = s.q.m_PushIdx

/-- `push` is an index `m_PushIdx` has had since `m_PopIdx` is what it is, after `k` more values at least. -/
def Seen (nSize : UInt32) (s : State T) (k : Nat) (push : UInt32) : Prop :=
  ∃ j, popped s + k ≤ j ∧ j ≤ s.added.length ∧ push = slot (arraySize nSize) j

def ConsumerOk (nSize : UInt32) (s : State T) : Prop :=
  match s.cons with
  | .idle | .itemPush => True
  | .itemPop push => Seen nSize s 0 push
  | .getPush | .idxRead => popped s < s.added.length
  | .getPop push => Seen nSize s 1 push
  | .popRead idx => popped s < s.added.length ∧ idx = s.q.m_PopIdx
  | .popWrite idx pop => popped s < s.added.length ∧ idx = s.q.m_PopIdx ∧ pop = idx
  | .slotRead idx => idx = slot (arraySize nSize) s.got.length

structure Inv (nSize : UInt32) (s : State T) : Prop extends Ring nSize s where
  producer : ProducerOk nSize s
  consumer : ConsumerOk nSize s

variable {s s' : State T}

/-! ## What the other side does not disturb -/

theorem popped_congr (hc : s'.cons = s.cons) (hg : s'.got = s.got) : popped s' = popped s := by
  rw [popped, popped, hc, hg]

/-- The producer only adds. -/
theorem ConsumerOk.mono (h : ConsumerOk nSize s) (hc : s'.cons = s.cons) (hg : s'.got = s.got)
    (hp : s'.q.m_PopIdx = s.q.m_PopIdx) (ha : s.added.length ≤ s'.added.length) : ConsumerOk nSize s' := by
  have seen : ∀ {k push}, Seen nSize s k push → Seen nSize s' k push := fun ⟨j, hj, hle, he⟩ =>
    ⟨j, by rwa [popped_congr hc hg], hle.trans ha, he⟩
  rw [ConsumerOk, hc, popped_congr hc hg, hg, hp]
  rw [ConsumerOk] at h
  split <;> simp only [*] at h <;> first | exact trivial | exact seen h | exact ⟨h.1.trans_le ha, h.2⟩ | exact h |
    exact Nat.lt_of_lt_of_le h ha

/-- The consumer only makes room. -/
theorem ProducerOk.mono (h : ProducerOk nSize s) (hc : s'.prod = s.prod) (ha : s'.added = s.added)
    (hq : s'.q.m_PushIdx = s.q.m_PushIdx) (hd : s'.q.m_pData = s.q.m_pData) (hp : popped s ≤ popped s') :
    ProducerOk nSize s' := by
  have room : Room nSize s → Room nSize s' := fun hr => by
    rw [Room] at hr ⊢
    rw [ha]
    omega
  rw [ProducerOk, hc, hq, hd]
  rw [ProducerOk] at h
  split <;> simp only [*] at h <;> first | exact trivial | exact room h | exact ⟨room h.1, h.2⟩ | exact h

/-! ## The producer -/

/-- A step of the producer that leaves the array as it is. -/
theorem Inv.produce (h : Inv nSize s) {p : Producer T} (hp : ProducerOk nSize { s with prod := p }) :
    Inv nSize { s with prod := p } where
  toRing := ⟨h.mask, h.push, h.pop, h.le, h.lt, h.kept, h.fifo⟩
  producer := hp
  consumer := h.consumer.mono rfl rfl rfl (Nat.le_refl _)

theorem arraySize_pos' : 0 < (arraySize nSize).toNat := by
  have := arraySize_pos nSize
  omega

/-- `HasSpace`: another slot is free. -/
theorem Ring.room (h : Ring nSize s) (hn : s.q.next s.q.m_PushIdx ≠ s.q.m_PopIdx) : Room nSize s := by
  have hle := h.le
  have hlt := h.lt
  by_contra hr
  rw [Room] at hr
  apply hn
  rw [h.push, SafeArray.next_slot h.mask, h.pop, slot, slot]
  have he : s.added.length + 1 = popped s + (arraySize nSize).toNat := by omega
  rw [he, Nat.add_mod_right]

theorem popped_le (s : State T) : popped s ≤ s.got.length + 1 := by
  rw [popped]
  split <;> omega

theorem Inv.stepProducer (h : Inv nSize s) (he : stepProducer s = some s') : Inv nSize s' := by
  have hp := h.producer
  rw [ProducerOk] at hp
  simp only [Spsc.stepProducer] at he
  cases hc : s.prod with
  | idle =>
    rw [hc] at he
    cases he
  | spacePush t =>
    rw [hc] at he
    cases he
    exact h.produce rfl
  | spacePop t push =>
    rw [hc] at he hp
    cases he
    split
    case isTrue hn => exact h.produce (h.room (hp ▸ hn))
    case isFalse => exact h.produce trivial
  | slotIdx t =>
    rw [hc] at he hp
    cases he
    exact h.produce ⟨hp, rfl⟩
  | pushRead t =>
    rw [hc] at he hp
    cases he
    exact h.produce ⟨hp.1, hp.2, rfl⟩
  | slotWrite t push =>
    rw [hc] at he hp
    cases he
    obtain ⟨hroom, rfl⟩ := hp
    refine ⟨⟨h.mask, h.push, h.pop, h.le, h.lt, ?_, h.fifo⟩, ⟨hroom, Function.update_self ..⟩,
      h.consumer.mono rfl rfl rfl (Nat.le_refl _)⟩
    intro j x hj hx
    have hlt : j < s.added.length := (List.getElem?_eq_some_iff.1 hx).1
    have hne : slot (arraySize nSize) j ≠ s.q.m_PushIdx := by
      intro hs
      have hgot : popped s ≤ j + 1 := (popped_le s).trans (Nat.succ_le_succ hj)
      have := slot_inj arraySize_pos' hlt.le (by rw [Room] at hroom; omega) (hs.trans h.push)
      omega
    exact (Function.update_of_ne hne ..).trans (h.kept j x hj hx)
  | pushWrite t push =>
    rw [hc] at he hp
    cases he
    obtain ⟨hroom, ht, rfl⟩ := hp
    have hle := h.le
    refine ⟨⟨h.mask, ?_, h.pop, ?_, ?_, ?_, ?_⟩, trivial, h.consumer.mono rfl rfl rfl ?_⟩
    · simp only [h.push, SafeArray.next_slot h.mask, List.length_append, List.length_singleton]
    · rw [List.length_append]
      exact Nat.le_succ_of_le hle
    · rw [List.length_append]
      exact hroom
    · intro j x hj hx
      rcases Nat.lt_or_ge j s.added.length with hlt | hge
      · exact h.kept j x hj (by rwa [List.getElem?_append_left hlt] at hx)
      · have hj1 := (List.getElem?_eq_some_iff.1 hx).1
        simp only [List.length_append, List.length_singleton] at hj1
        obtain rfl : j = s.added.length := by omega
        rw [List.getElem?_concat_length] at hx
        rw [← h.push, ht]
        exact Option.some.inj hx
    · exact h.fifo.trans (List.prefix_append _ _)
    · simp

/-! ## The consumer -/

/-- A step of the consumer that leaves the array and the count as they are. -/
theorem Inv.consume (h : Inv nSize s) {c : Consumer} (hpop : popped { s with cons := c } = popped s)
    (hc : ConsumerOk nSize { s with cons := c }) : Inv nSize { s with cons := c } where
  toRing := ⟨h.mask, h.push, hpop ▸ h.pop, hpop ▸ h.le, hpop ▸ h.lt, h.kept, h.fifo⟩
  producer := h.producer.mono rfl rfl rfl rfl hpop.ge
  consumer := hc

/-- An index other than `m_PopIdx` has a value behind it. -/
theorem Ring.item (h : Ring nSize s) {k : Nat} {push : UInt32} (hs : Seen nSize s k push) (hn : push ≠ s.q.m_PopIdx) :
    popped s < s.added.length := by
  obtain ⟨j, hj, hle, rfl⟩ := hs
  rcases Nat.eq_or_lt_of_le (Nat.le_trans (Nat.le_add_right _ _) hj) with he | hlt
  · exact absurd (he ▸ h.pop).symm hn
  · exact hlt.trans_le hle

/-- `GetItem` finds what `HasItem` found. -/
theorem Ring.still (h : Ring nSize s) {push : UInt32} (hs : Seen nSize s 1 push) : push ≠ s.q.m_PopIdx := by
  obtain ⟨j, hj, hle, rfl⟩ := hs
  intro he
  have hlt := h.lt
  have := slot_inj arraySize_pos' (i := popped s) (j := j) (by omega) (by omega) (h.pop.symm.trans he.symm)
  omega

theorem prefix_snoc {l m : List T} {t : T} (h : l <+: m) (ht : m[l.length]? = some t) : l ++ [t] <+: m := by
  obtain ⟨r, rfl⟩ := h
  cases r with
  | nil => simp at ht
  | cons x r =>
    rw [List.getElem?_append_right (Nat.le_refl _), Nat.sub_self] at ht
    simp only [List.getElem?_cons_zero, Option.some.injEq] at ht
    exact ⟨r, by simp [ht]⟩

theorem Inv.stepConsumer (h : Inv nSize s) (he : stepConsumer zero s = some s') : Inv nSize s' := by
  have hc := h.consumer
  rw [ConsumerOk] at hc
  have hpop : ∀ {c}, s.cons = c → popped s = popped { s with cons := c } := fun hc => by rw [← hc]
  simp only [Spsc.stepConsumer] at he
  cases hp : s.cons with
  | idle =>
    rw [hp] at he
    cases he
  | itemPush =>
    rw [hp] at he
    cases he
    exact h.consume (hpop hp).symm ⟨_, (hpop hp).ge.trans h.le, Nat.le_refl _, h.push⟩
  | itemPop push =>
    rw [hp] at he hc
    cases he
    split
    case isTrue hn => exact h.consume (hpop hp).symm ((hpop hp).symm.trans_lt (h.item hc hn))
    case isFalse => exact h.consume (hpop hp).symm trivial
  | getPush =>
    rw [hp] at he hc
    cases he
    exact h.consume (hpop hp).symm ⟨_, (hpop hp).symm.trans_lt hc, Nat.le_refl _, h.push⟩
  | getPop push =>
    rw [hp] at he hc
    have hn := h.still hc
    dsimp only at he
    rw [if_pos hn] at he
    cases he
    exact h.consume (hpop hp).symm ((hpop hp).symm.trans_lt (h.item hc hn))
  | idxRead =>
    rw [hp] at he hc
    cases he
    exact h.consume (hpop hp).symm ⟨(hpop hp).symm.trans_lt hc, rfl⟩
  | popRead idx =>
    rw [hp] at he hc
    cases he
    exact h.consume (hpop hp).symm ⟨(hpop hp).symm.trans_lt hc.1, hc.2, hc.2.symm⟩
  | popWrite idx pop =>
    rw [hp] at he hc
    cases he
    obtain ⟨hlt, rfl, rfl⟩ := hc
    have hgot : popped s = s.got.length := by rw [popped, hp]
    have hlt' := h.lt
    have hnew : popped { s with
        q := { s.q with m_PopIdx := s.q.next s.q.m_PopIdx }, cons := .slotRead s.q.m_PopIdx } = popped s + 1 := by
      rw [hgot]
      rfl
    refine ⟨⟨h.mask, h.push, ?_, hnew ▸ hlt, ?_, h.kept, h.fifo⟩, h.producer.mono rfl rfl rfl rfl ?_, ?_⟩
    · rw [hnew]
      simp only [h.pop, SafeArray.next_slot h.mask]
    · rw [hnew]
      exact (Nat.sub_le_sub_left (Nat.le_succ _) _).trans_lt hlt'
    · rw [hnew]
      exact Nat.le_succ _
    · exact h.pop.trans (by rw [hgot])
  | slotRead idx =>
    rw [hp] at he hc
    cases he
    subst hc
    have hgot : popped s = s.got.length + 1 := by rw [popped, hp]
    have hle := h.le
    have hnew : popped { s with cons := .idle, got := s.got ++ [s.q.m_pData (slot (arraySize nSize) s.got.length)] } =
        popped s := by
      rw [hgot]
      exact List.length_append
    obtain ⟨t, ht⟩ : ∃ t, s.added[s.got.length]? = some t := ⟨_, List.getElem?_eq_getElem (by omega)⟩
    refine ⟨⟨h.mask, h.push, hnew ▸ h.pop, hnew ▸ h.le, hnew ▸ h.lt, fun j x hj hx => h.kept j x ?_ hx, ?_⟩,
      h.producer.mono rfl rfl rfl rfl hnew.ge, trivial⟩
    · rw [List.length_append] at hj
      omega
    · exact prefix_snoc h.fifo (by rw [h.kept _ t (Nat.le_refl _) ht, ht])

theorem Inv.step (h : Inv nSize s) {a : Act T} (he : step zero s a = some s') : Inv nSize s' := by
  cases a with
  | producer => exact h.stepProducer he
  | consumer => exact h.stepConsumer he
  | add t =>
    simp only [Spsc.step] at he
    split at he
    · cases he
      exact h.produce trivial
    · cases he
  | get =>
    simp only [Spsc.step] at he
    split at he
    case h_1 hc =>
      cases he
      exact h.consume (by simp only [popped, hc]) trivial
    case h_2 => cases he

theorem inv (h : (sys zero nSize).Reachable s) : Inv nSize s := by
  refine Sys.Reachable.inv ?_ (fun s a s' hi he => hi.step he) h
  intro s hs
  obtain ⟨data, rfl⟩ := hs
  have hpos : 0 < (arraySize nSize).toNat := arraySize_pos'
  refine ⟨⟨rfl, rfl, rfl, ?_, ?_, ?_, ?_⟩, trivial, trivial⟩
  · simp [popped]
  · simpa [popped] using hpos
  · intro j t _ hj
    simp at hj
  · simp

/-- **First in, first out.** For every requested size, what `GetItem` has returned is a prefix of what `AddItem` has
added. -/
theorem got_prefix (h : (sys zero nSize).Reachable s) : s.got <+: s.added :=
  (inv h).fifo

/-- The second value is added while the consumer has still to read the slot of the first one. -/
theorem got_prefix_two : ∃ s : State Nat, (sys 0 8).Reachable s ∧ s.got = [7] ∧ s.added = [7, 9] ∧ s.got <+: s.added :=
  have hr : (sys 0 8).Reachable _ := Sys.Reachable.run ([.add 7] ++ .replicate 6 .producer ++ [.get] ++
    .replicate 7 .consumer ++ [.add 9] ++ .replicate 6 .producer ++ [.consumer]) (.init ⟨fun _ => 0, rfl⟩) rfl
  ⟨_, hr, rfl, rfl, got_prefix hr⟩

end P1Server.Spsc
