import P1Server.RecvBounds

/-!
# The receive parse on a packet of frames

A packet as `SendThread` builds one: command objects back to back (`packet`), each as long as its
length field says (`Frame`), in a buffer that is zero behind them (`recvBuf`).

* `handed_packet` — what the parse hands over: for every `CMD_TEST` frame, whatever its length, a
  copy of the *first* frame, if that one has the size of a `TestNetCmd`; and once more for bytes
  behind the buffer when the packet ends one byte before it (`Phantom`);
* `decodes_iff` — that is one copy of each `TestNetCmd` frame exactly when the packet is `Uniform`.
-/

namespace P1Server
open Lib

/-- A command whose length field is its size in bytes. -/
structure Frame extends NetCmd where
  exact : toNetCmd.length = toNetCmd.bytes.length
  deriving DecidableEq

/-- The frames back to back. -/
def packet (fs : List Frame) : List UInt8 := fs.flatMap fun f => f.bytes

/-- The receive buffer holding `pkt` in front of zeros, and the memory `beyond` it. -/
def recvBuf (pkt : List UInt8) (beyond : Mem) : Mem := fun i =>
  if i < SOCKET_BUFFER_SIZE then memOf pkt i else beyond (i - SOCKET_BUFFER_SIZE)

/-- The frame's bytes read as a `TestNetCmd`. -/
def Frame.test (f : Frame) : TestNetCmd := .read (memOf f.bytes) 0

/-- The command with its receive time set. -/
def TestNetCmd.stamp (tick : UInt32) (c : TestNetCmd) : TestNetCmd := { c with recvTime := tick }

/-- The command a frame stands for: its own copy, if it is a `CMD_TEST` of that size. -/
def Frame.decode (tick : UInt32) (f : Frame) : Option TestNetCmd :=
  if f.mainCmd = CMD_TEST ∧ f.length = TEST_SIZE.toNat then some (f.test.stamp tick) else none

/-- The parse of the packet hands over one copy of each `TestNetCmd` frame, in order, and nothing
else. -/
def Decodes (fs : List Frame) (beyond : Mem) (tick : UInt32) : Prop :=
  handed (recvNetCmdData (recvBuf (packet fs) beyond) tick) = fs.filterMap (Frame.decode tick)

/-- The packet ends one byte before the buffer does, so that the loop takes another header from the
last byte and from the memory behind, and that header is a `CMD_TEST`. -/
def Phantom (pkt : List UInt8) (beyond : Mem) : Prop :=
  pkt.length + 1 = SOCKET_BUFFER_SIZE ∧ beyond 0 ≠ 0 ∧ le16 beyond 1 = CMD_TEST

instance (pkt : List UInt8) (beyond : Mem) : Decidable (Phantom pkt beyond) :=
  inferInstanceAs (Decidable (_ ∧ _ ∧ _))

/-- If the first frame has the size of a `TestNetCmd`, every `CMD_TEST` frame has the first one's
fields (the receive time apart) and no header is taken from behind the buffer; if it has another
size, no frame is a `TestNetCmd`. -/
def Uniform (beyond : Mem) : List Frame → Prop
  | [] => True
  | f :: fs =>
    if f.length = TEST_SIZE.toNat then
      (∀ g ∈ f :: fs, g.mainCmd = CMD_TEST → g.test.stamp 0 = f.test.stamp 0) ∧
        ¬ Phantom (packet (f :: fs)) beyond
    else ∀ g ∈ f :: fs, g.mainCmd = CMD_TEST → g.length ≠ TEST_SIZE.toNat

instance (beyond : Mem) : ∀ fs : List Frame, Decidable (Uniform beyond fs)
  | [] => inferInstanceAs (Decidable True)
  | f :: _ => inferInstanceAs (Decidable (if f.length = TEST_SIZE.toNat then _ ∧ ¬ Phantom _ _ else _))

/-! ## Frames -/

theorem Frame.length_pos (f : Frame) : HEADER_SIZE ≤ f.length := f.exact ▸ f.header

theorem Frame.test_length (f : Frame) : f.test.length.toNat = f.length := rfl

theorem Frame.length_eq_test {f : Frame} : f.length = TEST_SIZE.toNat ↔ f.test.length = TEST_SIZE := by
  rw [← f.test_length, UInt16.toNat_inj]

theorem stamp_eq_iff {a b : TestNetCmd} {t u : UInt32} : a.stamp t = b.stamp t ↔ a.stamp u = b.stamp u := by
  simp only [TestNetCmd.stamp, TestNetCmd.mk.injEq, and_true]

@[simp] theorem packet_nil : packet [] = [] := rfl

@[simp] theorem packet_cons (f : Frame) (fs : List Frame) : packet (f :: fs) = f.bytes ++ packet fs :=
  List.flatMap_cons

/-! ## The buffer at a frame boundary -/

section boundary
variable (beyond : Mem) {pre : List UInt8} {f : Frame} {post : List UInt8}

theorem recvBuf_at {i : Nat} (hi : i < f.bytes.length)
    (hfit : (pre ++ (f.bytes ++ post)).length ≤ SOCKET_BUFFER_SIZE) :
    recvBuf (pre ++ (f.bytes ++ post)) beyond (pre.length + i) = memOf f.bytes i := by
  simp only [List.length_append] at hfit
  rw [recvBuf, if_pos (by omega), memOf_append_right, memOf_append_left hi]

/-- At a frame boundary the parse sees the frame's own header. -/
theorem header_at (hfit : (pre ++ (f.bytes ++ post)).length ≤ SOCKET_BUFFER_SIZE) :
    (le16 (recvBuf (pre ++ (f.bytes ++ post)) beyond) pre.length).toNat = f.length ∧
    le16 (recvBuf (pre ++ (f.bytes ++ post)) beyond) (pre.length + 2) = f.mainCmd := by
  have hh : 6 ≤ f.bytes.length := f.header
  constructor
  · rw [NetCmd.length]
    refine congrArg UInt16.toNat (le16_congr ?_ ?_)
    · exact recvBuf_at beyond (i := 0) (by omega) hfit
    · exact recvBuf_at beyond (by omega) hfit
  · refine le16_congr ?_ ?_
    · exact recvBuf_at beyond (by omega) hfit
    · rw [Nat.add_assoc]
      exact recvBuf_at beyond (by omega) hfit

theorem test_at_start (hfit : (f.bytes ++ post).length ≤ SOCKET_BUFFER_SIZE)
    (hlen : f.length = TEST_SIZE.toNat) : TestNetCmd.read (recvBuf (f.bytes ++ post) beyond) 0 = f.test := by
  refine read_congr ?_
  intro k hk
  have hk' : k < f.bytes.length := by
    rw [← f.exact, hlen]
    exact hk
  have h := @recvBuf_at beyond [] f post k hk' hfit
  rw [List.nil_append, List.length_nil, Nat.zero_add] at h
  rwa [Nat.zero_add]

end boundary

/-- Behind the packet the buffer is zero. -/
theorem header_end {pkt : List UInt8} {beyond : Mem} (hfit : pkt.length + 2 ≤ SOCKET_BUFFER_SIZE) :
    le16 (recvBuf pkt beyond) pkt.length = 0 := by
  rw [le16_eq_zero, recvBuf, recvBuf, if_pos (by omega), if_pos (by omega)]
  exact ⟨memOf_of_le (Nat.le_refl _), memOf_of_le (by omega)⟩

/-- One byte before the end of the buffer, the header comes from behind it. -/
theorem header_last (beyond : Mem) {pkt : List UInt8} (hlast : pkt.length + 1 = SOCKET_BUFFER_SIZE) :
    (le16 (recvBuf pkt beyond) pkt.length = 0 ↔ beyond 0 = 0) ∧
    le16 (recvBuf pkt beyond) (pkt.length + 2) = le16 beyond 1 := by
  constructor
  · rw [le16_eq_zero, recvBuf, recvBuf, if_pos (by omega), if_neg (by omega), hlast, Nat.sub_self]
    exact and_iff_right (memOf_of_le (Nat.le_refl _))
  · refine le16_congr ?_ ?_
    · rw [recvBuf, if_neg (by omega)]
      exact congrArg beyond (by omega)
    · rw [recvBuf, if_neg (by omega)]
      exact congrArg beyond (by omega)

/-! ## The parse of a packet -/

section parse
variable {beyond : Mem} {tick : UInt32}

/-- What the `switch` hands over for a frame with this `mainCmd`. -/
def copyFirst (buf : Mem) (tick : UInt32) (m : UInt16) : Option TestNetCmd := (switchCmd buf tick m).map Prod.snd

theorem handed_cons (r : Round) (rs : List Round) :
    handed (r :: rs) = ((r.made?.map Prod.snd).toList) ++ handed rs := by
  unfold handed
  cases h : r.made? <;> simp [h]

/-- The loop behind the last frame. -/
theorem handed_tail (beyond : Mem) (tick : UInt32) {pkt : List UInt8} (hfit : pkt.length ≤ SOCKET_BUFFER_SIZE) :
    handed (recvFrom (recvBuf pkt beyond) tick pkt.length) =
      if Phantom pkt beyond then (copyFirst (recvBuf pkt beyond) tick CMD_TEST).toList else [] := by
  by_cases hend : pkt.length + 2 ≤ SOCKET_BUFFER_SIZE
  · rw [recvFrom_stop (by omega) (header_end hend), if_neg]
    · rfl
    · rintro ⟨h, -⟩
      omega
  by_cases hfull : pkt.length = SOCKET_BUFFER_SIZE
  · rw [recvFrom_done (by omega), if_neg]
    · rfl
    · rintro ⟨h, -⟩
      omega
  have hlast : pkt.length + 1 = SOCKET_BUFFER_SIZE := by omega
  obtain ⟨hzero, hmain⟩ := header_last beyond hlast
  by_cases hb : beyond 0 = 0
  · rw [recvFrom_stop (by omega) (hzero.2 hb), if_neg fun h => h.2.1 hb]
    rfl
  · have hz : le16 (recvBuf pkt beyond) pkt.length ≠ 0 := fun h => hb (hzero.1 h)
    have hpos := le16_pos hz
    rw [recvFrom_frame (by omega) hz, recvFrom_done (by omega), handed_cons, hmain]
    by_cases hm : le16 beyond 1 = CMD_TEST
    · rw [if_pos ⟨hlast, hb, hm⟩, hm]
      simp [handed, Round.made?, copyFirst]
    · rw [if_neg fun h => hm h.2.2]
      simp [handed, Round.made?, switchCmd, hm]

/-- The parse from a frame boundary: a copy of the first frame for each `CMD_TEST` frame. -/
theorem handed_frames (beyond : Mem) (tick : UInt32) : ∀ (fs : List Frame) (pre : List UInt8),
    (pre ++ packet fs).length ≤ SOCKET_BUFFER_SIZE →
    handed (recvFrom (recvBuf (pre ++ packet fs) beyond) tick pre.length) =
      (fs.filterMap fun f => copyFirst (recvBuf (pre ++ packet fs) beyond) tick f.mainCmd) ++
        if Phantom (pre ++ packet fs) beyond then
          (copyFirst (recvBuf (pre ++ packet fs) beyond) tick CMD_TEST).toList else []
  | [], pre, hfit => by
    simp only [packet_nil, List.append_nil] at hfit ⊢
    simpa using handed_tail beyond tick hfit
  | f :: fs, pre, hfit => by
    rw [packet_cons] at hfit ⊢
    obtain ⟨hlen, hmain⟩ := header_at beyond hfit
    have hpos := f.length_pos
    have hz : le16 (recvBuf (pre ++ (f.bytes ++ packet fs)) beyond) pre.length ≠ 0 := by
      intro h
      have h0 : f.length = 0 := by
        rw [← hlen, h]
        rfl
      rw [h0] at hpos
      exact absurd hpos (by decide)
    have ih := handed_frames beyond tick fs (pre ++ f.bytes) (by rw [List.append_assoc]; exact hfit)
    rw [List.append_assoc, List.length_append, ← f.exact] at ih
    have hlt : pre.length < SOCKET_BUFFER_SIZE := by
      rw [List.length_append, List.length_append, ← f.exact] at hfit
      simp only [HEADER_SIZE] at hpos
      omega
    rw [recvFrom_frame hlt hz, handed_cons, hlen, hmain, ih, List.filterMap_cons]
    unfold copyFirst
    cases switchCmd (recvBuf (pre ++ (f.bytes ++ packet fs)) beyond) tick f.mainCmd <;> simp [Round.made?]

theorem copyFirst_test {f : Frame} {post : List UInt8}
    (hfit : (f.bytes ++ post).length ≤ SOCKET_BUFFER_SIZE) (m : UInt16) :
    copyFirst (recvBuf (f.bytes ++ post) beyond) tick m =
      if m = CMD_TEST ∧ f.length = TEST_SIZE.toNat then some (f.test.stamp tick) else none := by
  have hlen := (@header_at beyond [] f post hfit).1
  rw [List.nil_append, List.length_nil, ← f.test_length, UInt16.toNat_inj] at hlen
  unfold copyFirst switchCmd createNetCmd
  rw [hlen]
  by_cases hm : m = CMD_TEST
  · by_cases ht : f.length = TEST_SIZE.toNat
    · rw [if_pos hm, if_neg (not_not.2 (Frame.length_eq_test.1 ht)), if_pos ⟨hm, ht⟩,
        test_at_start beyond hfit ht]
      rfl
    · rw [if_pos hm, if_pos fun h => ht (Frame.length_eq_test.2 h), if_neg fun h => ht h.2]
      rfl
  · rw [if_neg hm, if_neg fun h => hm h.1]
    rfl

/-- **What `RecvNetCmdData` hands over for a packet** whose first frame is `f`. -/
theorem handed_packet (f : Frame) (fs : List Frame) (hfit : (packet (f :: fs)).length ≤ SOCKET_BUFFER_SIZE) :
    handed (recvNetCmdData (recvBuf (packet (f :: fs)) beyond) tick) =
      if f.length = TEST_SIZE.toNat then
        (f :: fs).filterMap (fun g => if g.mainCmd = CMD_TEST then some (f.test.stamp tick) else none) ++
          if Phantom (packet (f :: fs)) beyond then [f.test.stamp tick] else []
      else [] := by
  have h := handed_frames beyond tick (f :: fs) [] hfit
  simp only [List.nil_append, List.length_nil] at h
  rw [recvNetCmdData, h]
  simp only [packet_cons] at hfit ⊢
  simp only [copyFirst_test hfit, true_and]
  by_cases ht : f.length = TEST_SIZE.toNat
  · simp [ht]
  · simp [ht]

/-- The packet of no frames hands over nothing. -/
theorem handed_nil : handed (recvNetCmdData (recvBuf (packet []) beyond) tick) = [] := by
  have h := handed_frames beyond tick [] [] (by decide)
  have hn : ¬ Phantom (packet []) beyond := fun hp => absurd hp.1 (by decide)
  simp only [List.nil_append, List.length_nil, List.filterMap_nil, if_neg hn] at h
  exact h

end parse

/-! ## When the parse decodes the packet -/

section uniform
variable {α β : Type} {p q : α → Prop} [DecidablePred p] [DecidablePred q] {a : β} {b : α → β}

theorem length_filterMap_and_le (l : List α) :
    (l.filterMap fun x => if p x ∧ q x then some (b x) else none).length ≤
      (l.filterMap fun x => if p x then some a else none).length := by
  induction l with
  | nil => exact Nat.le_refl _
  | cons x l ih =>
    rw [List.filterMap_cons, List.filterMap_cons]
    by_cases hp : p x <;> by_cases hq : q x <;> simp [hp, hq] <;> omega

/-- The constant list equals the list of own values only if it is everywhere the own value. -/
theorem filterMap_const_eq_iff (ext : List β) (l : List α) :
    (l.filterMap fun x => if p x then some a else none) ++ ext =
        (l.filterMap fun x => if p x ∧ q x then some (b x) else none) ↔
      ext = [] ∧ ∀ x ∈ l, p x → q x ∧ b x = a := by
  induction l with
  | nil => simp
  | cons x l ih =>
    rw [List.filterMap_cons, List.filterMap_cons]
    by_cases hp : p x
    · by_cases hq : q x
      · rw [if_pos hp, if_pos ⟨hp, hq⟩]
        simp only [List.cons_append, List.cons.injEq, ih, List.forall_mem_cons]
        constructor
        · rintro ⟨hab, he, hl⟩
          exact ⟨he, fun _ => ⟨hq, hab.symm⟩, hl⟩
        · rintro ⟨he, hx, hl⟩
          exact ⟨(hx hp).2.symm, he, hl⟩
      · -- the left list is longer by this element
        rw [if_pos hp, if_neg fun h => hq h.2]
        simp only [List.cons_append, List.forall_mem_cons]
        constructor
        · intro h
          have hl := congrArg List.length h
          have := length_filterMap_and_le (p := p) (q := q) (a := a) (b := b) l
          simp only [List.length_cons, List.length_append] at hl
          omega
        · rintro ⟨-, hx, -⟩
          exact absurd (hx hp).1 hq
    · simp [hp, ih]

end uniform

theorem decodes_iff_uniform (fs : List Frame) (beyond : Mem) (tick : UInt32)
    (hfit : (packet fs).length ≤ SOCKET_BUFFER_SIZE) : Decodes fs beyond tick ↔ Uniform beyond fs := by
  unfold Decodes
  cases fs with
  | nil =>
    rw [handed_nil]
    exact iff_of_true rfl trivial
  | cons f fs =>
    rw [handed_packet f fs hfit]
    unfold Uniform Frame.decode
    by_cases ht : f.length = TEST_SIZE.toNat
    · simp only [if_pos ht]
      rw [filterMap_const_eq_iff, and_comm]
      have hext : (if Phantom (packet (f :: fs)) beyond then [f.test.stamp tick] else []) = [] ↔
          ¬ Phantom (packet (f :: fs)) beyond := by
        split <;> simp_all
      refine and_congr (forall₂_congr fun g _ => imp_congr_right ?_) hext
      intro hm
      rw [stamp_eq_iff (u := 0)]
      refine and_iff_right_of_imp ?_
      intro he
      rw [Frame.length_eq_test] at ht ⊢
      rw [← ht]
      exact (TestNetCmd.mk.inj he).1
    · simp only [if_neg ht]
      rw [eq_comm, List.filterMap_eq_nil_iff]
      refine forall₂_congr ?_
      intro g _
      simp

/-- **Decode undoes encode**, for the packets `SendThread` builds (at most 8191 bytes), exactly on
the uniform ones. -/
theorem decodes_iff (fs : List Frame) (beyond : Mem) (tick : UInt32)
    (hfit : (packet fs).length < SOCKET_BUFFER_SIZE) : Decodes fs beyond tick ↔ Uniform beyond fs :=
  decodes_iff_uniform fs beyond tick (Nat.le_of_lt hfit)

/-- A `CMD_TEST` frame of 20 bytes with this `data` byte. -/
def testFrame (d : UInt8) : Frame where
  bytes := [20, 0, 0, 0, 1, 0, 0, 0, d, 0, 0, 0, 5, 0, 0, 0, 0, 0, 0, 0]
  header := Nat.le_of_ble_eq_true rfl
  fits := Nat.le_of_ble_eq_true rfl
  exact := rfl

theorem decodes_same_twice : Decodes [testFrame 7, testFrame 7] (fun _ => 0) 9 :=
  (decodes_iff [testFrame 7, testFrame 7] (fun _ => 0) 9 (by decide)).2 (by decide)

/-- Two different commands in one packet: the second arrives as another copy of the first. -/
theorem not_decodes : ¬ ∀ (fs : List Frame) (beyond : Mem) (tick : UInt32),
    (packet fs).length < SOCKET_BUFFER_SIZE → Decodes fs beyond tick := by
  intro h
  have h2 := h [testFrame 7, testFrame 8] (fun _ => 0) 9 (by decide)
  unfold Decodes at h2
  rw [handed_packet _ _ (by decide)] at h2
  exact absurd h2 (by decide)

end P1Server
