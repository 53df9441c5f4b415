import P1Server.Recv

/-!
# Which bytes the receive parse touches

The peer chooses every byte of the buffer, so the offsets the loop visits are those of the chain of
length fields that starts at 0 (`FrameAt`), and each round of the loop is `recvRound` at one of them
(`mem_recvNetCmdData`). `InBounds` is memory safety of the parse; `WellFramed` says, on the chain
alone, when it holds (`inBounds_iff`). The loop checks neither that a header fits behind `offset`,
nor that a frame is as long as its header, nor that it ends inside the buffer, and it copies from
the start of the buffer whatever frame it is at.
-/

namespace P1Server
open Lib

/-- The offsets reached from 0 by adding length fields. -/
inductive FrameAt (buf : Mem) : Nat → Prop
  | start : FrameAt buf 0
  | next {o : Nat} : FrameAt buf o → o < SOCKET_BUFFER_SIZE → le16 buf o ≠ 0 →
      FrameAt buf (o + (le16 buf o).toNat)

/-- Memory safety of one parse. -/
structure InBounds (buf : Mem) (tick : UInt32) : Prop where
  /-- Header bytes are read inside the buffer. -/
  reads : ∀ r ∈ recvNetCmdData buf tick, ∀ i ∈ r.reads, i < SOCKET_BUFFER_SIZE
  /-- A command is a copy of the frame the loop is at, and that frame lies in the buffer. -/
  copies : ∀ r ∈ recvNetCmdData buf tick, ∀ src c, r.made? = some (src, c) →
    src = r.offset ∧ r.offset + r.declared ≤ SOCKET_BUFFER_SIZE
  /-- A frame shorter than a header, or one that runs past the end, yields nothing and is the last. -/
  ends : ∀ pre r post, recvNetCmdData buf tick = pre ++ r :: post →
    (r.declared < HEADER_SIZE ∨ SOCKET_BUFFER_SIZE < r.offset + r.declared) → r.made? = none ∧ post = []

/-- Every frame of the chain is at least a header long and starts where a whole header fits, the
zero that ends the chain fits, and no frame but the first is a `CMD_TEST` while the first frame has
the size of a `TestNetCmd`. -/
def WellFramed (buf : Mem) : Prop :=
  ∀ o, FrameAt buf o → o < SOCKET_BUFFER_SIZE →
    (le16 buf o = 0 ∧ o + 2 ≤ SOCKET_BUFFER_SIZE) ∨
    (HEADER_SIZE ≤ (le16 buf o).toNat ∧ o + HEADER_SIZE ≤ SOCKET_BUFFER_SIZE ∧
      (le16 buf (o + 2) = CMD_TEST → le16 buf 0 = TEST_SIZE → o = 0))

variable {buf : Mem} {tick : UInt32}

/-! ## The rounds are the chain -/

theorem recvFrom_cons (buf : Mem) (tick : UInt32) {o : Nat} (h : o < SOCKET_BUFFER_SIZE) :
    ∃ post, recvFrom buf tick o = recvRound buf tick o :: post ∧
      (le16 buf o = 0 → post = []) ∧
      (le16 buf o ≠ 0 → post = recvFrom buf tick (o + (le16 buf o).toNat)) := by
  by_cases hz : le16 buf o = 0
  · refine ⟨[], ?_, fun _ => rfl, fun hn => absurd hz hn⟩
    rw [recvFrom_stop h hz, recvRound_stop hz]
  · refine ⟨_, ?_, fun h0 => absurd h0 hz, fun _ => rfl⟩
    rw [recvFrom_frame h hz, recvRound_frame hz]

/-- The rounds from a chain offset on are a suffix of the parse. -/
theorem FrameAt.suffix (tick : UInt32) {o : Nat} (h : FrameAt buf o) :
    ∃ pre, recvNetCmdData buf tick = pre ++ recvFrom buf tick o := by
  induction h with
  | start => exact ⟨[], rfl⟩
  | @next o _ hlt hz ih =>
    obtain ⟨pre, hpre⟩ := ih
    refine ⟨pre ++ [recvRound buf tick o], ?_⟩
    rw [hpre, recvFrom_frame hlt hz, recvRound_frame hz]
    simp

/-- Wherever a round stands in the rounds from `o` on, it is `recvRound` at a chain offset, and what
comes behind it are the rounds from its end on. -/
theorem recvFrom_split : ∀ {o : Nat} {pre post : List Round} {r : Round}, FrameAt buf o →
    recvFrom buf tick o = pre ++ r :: post →
    ∃ a, FrameAt buf a ∧ a < SOCKET_BUFFER_SIZE ∧ r = recvRound buf tick a ∧
      (le16 buf a = 0 → post = []) ∧ (le16 buf a ≠ 0 → post = recvFrom buf tick (a + (le16 buf a).toNat))
  | o, pre, post, r, hc, he => by
    by_cases hlt : o < SOCKET_BUFFER_SIZE
    · obtain ⟨rest, hr, h0, h1⟩ := recvFrom_cons buf tick hlt
      rw [hr] at he
      cases pre with
      | nil =>
        simp only [List.nil_append, List.cons.injEq] at he
        obtain ⟨rfl, rfl⟩ := he
        exact ⟨o, hc, hlt, rfl, h0, h1⟩
      | cons p pre =>
        simp only [List.cons_append, List.cons.injEq] at he
        obtain ⟨rfl, he⟩ := he
        by_cases hz : le16 buf o = 0
        · rw [h0 hz] at he
          simp at he
        · rw [h1 hz] at he
          exact recvFrom_split (.next hc hlt hz) he
    · rw [recvFrom_done hlt] at he
      simp at he
termination_by _ pre => pre.length

theorem mem_recvNetCmdData {r : Round} : r ∈ recvNetCmdData buf tick ↔
    ∃ o, FrameAt buf o ∧ o < SOCKET_BUFFER_SIZE ∧ r = recvRound buf tick o := by
  constructor
  · intro hr
    obtain ⟨pre, post, he⟩ := List.append_of_mem hr
    obtain ⟨a, hc, hlt, ha, -, -⟩ := recvFrom_split .start he
    exact ⟨a, hc, hlt, ha⟩
  · rintro ⟨o, hc, hlt, rfl⟩
    obtain ⟨pre, hpre⟩ := hc.suffix tick
    obtain ⟨post, hr, -, -⟩ := recvFrom_cons buf tick hlt
    rw [hpre, hr]
    simp

/-! ## What one round does -/

theorem switchCmd_some {m : UInt16} {src : Nat} {c : TestNetCmd}
    (h : switchCmd buf tick m = some (src, c)) : m = CMD_TEST ∧ le16 buf 0 = TEST_SIZE ∧ src = 0 := by
  unfold switchCmd createNetCmd at h
  split at h
  case isTrue hm =>
    split at h
    · simp at h
    case isFalse hl =>
      simp only [Option.map_some, Option.some.injEq, Prod.mk.injEq] at h
      exact ⟨hm, not_not.1 hl, h.1.symm⟩
  case isFalse => simp at h

theorem switchCmd_test (h : le16 buf 0 = TEST_SIZE) :
    switchCmd buf tick CMD_TEST = some (0, { TestNetCmd.read buf 0 with recvTime := tick }) := by
  simp [switchCmd, createNetCmd, h]

theorem recvRound_made {o : Nat} {src : Nat} {c : TestNetCmd}
    (h : (recvRound buf tick o).made? = some (src, c)) :
    le16 buf o ≠ 0 ∧ le16 buf (o + 2) = CMD_TEST ∧ le16 buf 0 = TEST_SIZE ∧ src = 0 := by
  by_cases hz : le16 buf o = 0
  · rw [recvRound_stop hz] at h
    cases h
  · rw [recvRound_frame hz] at h
    exact ⟨hz, switchCmd_some h⟩

@[simp] theorem recvRound_offset (o : Nat) : (recvRound buf tick o).offset = o := by
  unfold recvRound
  split <;> rfl

@[simp] theorem recvRound_declared (o : Nat) : (recvRound buf tick o).declared = (le16 buf o).toNat := by
  by_cases hz : le16 buf o = 0
  · rw [recvRound_stop hz, hz]
    rfl
  · rw [recvRound_frame hz]
    rfl

theorem recvRound_reads {o i : Nat} (h : i ∈ (recvRound buf tick o).reads) :
    i < o + 2 ∨ (le16 buf o ≠ 0 ∧ i < o + HEADER_SIZE) := by
  by_cases hz : le16 buf o = 0
  · rw [recvRound_stop hz] at h
    simp only [Round.reads, List.mem_cons, List.not_mem_nil, or_false] at h
    omega
  · rw [recvRound_frame hz] at h
    simp only [Round.reads, List.mem_cons, List.not_mem_nil, or_false] at h
    simp only [HEADER_SIZE]
    exact Or.inr ⟨hz, by omega⟩

/-! ## Memory safety -/

theorem WellFramed.inBounds (hw : WellFramed buf) : InBounds buf tick where
  reads r hr i hi := by
    obtain ⟨o, hc, hlt, rfl⟩ := mem_recvNetCmdData.1 hr
    rcases hw o hc hlt with ⟨hz, h2⟩ | ⟨-, h6, -⟩
    · rcases recvRound_reads hi with h | ⟨hn, -⟩
      · omega
      · exact absurd hz hn
    · have h2 : 2 ≤ HEADER_SIZE := by decide
      rcases recvRound_reads hi with h | ⟨-, h⟩ <;> omega
  copies r hr src c hm := by
    obtain ⟨o, hc, hlt, rfl⟩ := mem_recvNetCmdData.1 hr
    obtain ⟨hz, ht, h0, rfl⟩ := recvRound_made hm
    rw [recvRound_offset, recvRound_declared]
    rcases hw o hc hlt with ⟨hn, -⟩ | ⟨-, -, hfirst⟩
    · exact absurd hn hz
    · obtain rfl := hfirst ht h0
      rw [h0]
      exact ⟨rfl, by decide⟩
  ends pre r post he hbad := by
    obtain ⟨o, hc, hlt, rfl, h0, h1⟩ := recvFrom_split .start he
    rw [recvRound_offset, recvRound_declared] at hbad
    by_cases hz : le16 buf o = 0
    · rw [recvRound_stop hz]
      exact ⟨rfl, h0 hz⟩
    · rcases hw o hc hlt with ⟨hn, -⟩ | ⟨h6, hfit, hfirst⟩
      · exact absurd hn hz
      have hpast : SOCKET_BUFFER_SIZE < o + (le16 buf o).toNat := by omega
      constructor
      · rw [Option.eq_none_iff_forall_not_mem]
        rintro ⟨src, c⟩ hm
        obtain ⟨-, ht, hlen, rfl⟩ := recvRound_made hm
        -- a command here means the first frame, which has the size of a `TestNetCmd`
        obtain rfl := hfirst ht hlen
        rw [hlen] at hpast
        exact absurd hpast (by decide)
      · rw [h1 hz]
        exact recvFrom_done (by omega)

theorem InBounds.wellFramed (hb : InBounds buf tick) : WellFramed buf := by
  intro o hc hlt
  have hr : recvRound buf tick o ∈ recvNetCmdData buf tick := mem_recvNetCmdData.2 ⟨o, hc, hlt, rfl⟩
  by_cases hz : le16 buf o = 0
  · refine Or.inl ⟨hz, ?_⟩
    have := hb.reads _ hr (o + 1) (by rw [recvRound_stop hz]; simp [Round.reads])
    omega
  · have h5 := hb.reads _ hr (o + 5) (by rw [recvRound_frame hz]; simp [Round.reads])
    refine Or.inr ⟨?_, by simp only [HEADER_SIZE]; omega, fun ht h0 => ?_⟩
    · -- a short frame would have to end the parse, but the loop goes on behind it
      refine Nat.le_of_not_lt ?_
      intro hshort
      obtain ⟨pre, hpre⟩ := hc.suffix tick
      obtain ⟨post, hcons, -, hpost⟩ := recvFrom_cons buf tick hlt
      obtain ⟨-, hnil⟩ := hb.ends pre (recvRound buf tick o) post (by rw [hpre, hcons])
        (Or.inl (by rwa [recvRound_declared]))
      simp only [HEADER_SIZE] at hshort
      obtain ⟨post', hcons', -, -⟩ :=
        recvFrom_cons buf tick (show o + (le16 buf o).toNat < SOCKET_BUFFER_SIZE by omega)
      rw [hpost hz, hcons'] at hnil
      cases hnil
    · have hm : (recvRound buf tick o).made? = some (0, { TestNetCmd.read buf 0 with recvTime := tick }) := by
        rw [recvRound_frame hz, ht, switchCmd_test h0]
        rfl
      have := (hb.copies _ hr _ _ hm).1
      rw [recvRound_offset] at this
      exact this.symm

/-- **Memory safety of the receive parse**, exactly when the chain of lengths is well framed. -/
theorem inBounds_iff (buf : Mem) (tick : UInt32) : InBounds buf tick ↔ WellFramed buf :=
  ⟨InBounds.wellFramed, WellFramed.inBounds⟩

/-- A peer's buffer whose only frame declares 8191 bytes. -/
def hugeFrame : Mem := memOf [0xFF, 0x1F]

/-- The loop goes on at offset 8191 and reads the next length from there: byte 8192 is outside. -/
theorem not_inBounds : ¬ ∀ (buf : Mem) (tick : UInt32), InBounds buf tick := by
  intro h
  have hnext : FrameAt hugeFrame 8191 := FrameAt.next .start (by decide) (by decide)
  have hr : recvRound hugeFrame 0 8191 ∈ recvNetCmdData hugeFrame 0 :=
    mem_recvNetCmdData.2 ⟨8191, hnext, by decide, rfl⟩
  exact absurd ((h hugeFrame 0).reads _ hr 8192 (by decide)) (by decide)

end P1Server
