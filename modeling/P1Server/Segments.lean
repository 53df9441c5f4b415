import Mathlib.Data.List.Basic
import P1Server.RecvFrames

/-!
# A stream of frames over several receives

`NetServerCallBack` handles a receive completion on its own (`TCPServer.cpp:30-47`): the parse of
whatever the buffer holds, then `RecvReq`, which zero-fills the buffer before the next receive
(`:208-213`). Nothing is kept between two completions, so the commands of a stream are those of its
chunks, one after the other (`receiveAll`).

* `receiveAll_aligned` — for a cut at frame boundaries into uniform packets the commands are those
  of the stream's frames, whichever the cut;
* `not_segmentation` — a cut inside a frame changes them: the head of the frame is taken for a whole
  one, its missing bytes read as zero.
-/

namespace P1Server
open Lib

/-- One receive completion: the bytes received, the clock, and the memory behind the buffer. -/
structure Delivery where
  chunk : List UInt8
  tick : UInt32
  beyond : Mem

/-- The commands one completion hands to `SendCmdData`. -/
def Delivery.receive (d : Delivery) : List TestNetCmd :=
  handed (recvNetCmdData (recvBuf d.chunk d.beyond) d.tick)

def receiveAll (ds : List Delivery) : List TestNetCmd := ds.flatMap Delivery.receive

/-- The deliveries cut this stream of bytes. -/
def Cut (stream : List UInt8) (ds : List Delivery) : Prop :=
  ds.flatMap Delivery.chunk = stream ∧
    ∀ d ∈ ds, d.chunk ≠ [] ∧ d.chunk.length ≤ SOCKET_BUFFER_SIZE

/-- Any two cuts of a stream of frames hand over the same commands, receive times apart. -/
def Segmentation : Prop :=
  ∀ (fs : List Frame) (ds es : List Delivery), (∀ f ∈ fs, f.length < SOCKET_BUFFER_SIZE) →
    Cut (packet fs) ds → Cut (packet fs) es →
    (receiveAll ds).map (TestNetCmd.stamp 0) = (receiveAll es).map (TestNetCmd.stamp 0)

/-- A delivery of whole frames. -/
structure FrameDelivery where
  frames : List Frame
  tick : UInt32
  beyond : Mem
  fits : (packet frames).length ≤ SOCKET_BUFFER_SIZE

def FrameDelivery.toDelivery (p : FrameDelivery) : Delivery := ⟨packet p.frames, p.tick, p.beyond⟩

theorem map_stamp_decode (tick : UInt32) (fs : List Frame) :
    (fs.filterMap (Frame.decode tick)).map (TestNetCmd.stamp 0) = fs.filterMap (Frame.decode 0) := by
  rw [List.map_filterMap]
  refine List.filterMap_congr ?_
  intro f _
  unfold Frame.decode
  split <;> rfl

/-- The commands of a frame-aligned cut are those of the frames. -/
theorem receiveAll_aligned : ∀ ps : List FrameDelivery, (∀ p ∈ ps, Uniform p.beyond p.frames) →
    (receiveAll (ps.map FrameDelivery.toDelivery)).map (TestNetCmd.stamp 0) =
      (ps.flatMap FrameDelivery.frames).filterMap (Frame.decode 0)
  | [], _ => rfl
  | p :: ps, hu => by
    have ih := receiveAll_aligned ps fun q hq => hu q (List.mem_cons_of_mem _ hq)
    have hp : p.toDelivery.receive = p.frames.filterMap (Frame.decode p.tick) :=
      (decodes_iff_uniform p.frames p.beyond p.tick p.fits).2 (hu p List.mem_cons_self)
    simp only [receiveAll] at ih ⊢
    rw [List.map_cons, List.flatMap_cons, List.map_append, ih, hp, map_stamp_decode, List.flatMap_cons,
      List.filterMap_append]

/-- **Frame-aligned segmentation does not matter**: two cuts of one stream of frames at frame
boundaries, each chunk a uniform packet, hand over the same commands. -/
theorem segmentation_aligned (ps qs : List FrameDelivery)
    (hstream : ps.flatMap FrameDelivery.frames = qs.flatMap FrameDelivery.frames)
    (hp : ∀ p ∈ ps, Uniform p.beyond p.frames) (hq : ∀ q ∈ qs, Uniform q.beyond q.frames) :
    (receiveAll (ps.map FrameDelivery.toDelivery)).map (TestNetCmd.stamp 0) =
      (receiveAll (qs.map FrameDelivery.toDelivery)).map (TestNetCmd.stamp 0) := by
  rw [receiveAll_aligned ps hp, receiveAll_aligned qs hq, hstream]

/-- Two equal commands, in one packet and in two. -/
theorem segmentation_same_twice :
    (receiveAll ([⟨[testFrame 7, testFrame 7], 1, fun _ => 0, by decide⟩].map
        FrameDelivery.toDelivery)).map (TestNetCmd.stamp 0) =
      (receiveAll ([⟨[testFrame 7], 2, fun _ => 0, by decide⟩, ⟨[testFrame 7], 3, fun _ => 0, by decide⟩].map
        FrameDelivery.toDelivery)).map (TestNetCmd.stamp 0) :=
  segmentation_aligned _ _ rfl (by decide) (by decide)

/-- The two halves of one command, received one after the other. -/
def halves : List Delivery :=
  [⟨(testFrame 7).bytes.take 10, 1, fun _ => 0⟩, ⟨(testFrame 7).bytes.drop 10, 2, fun _ => 0⟩]

/-- A command cut in its body arrives with the bytes of its second half zero. -/
theorem not_segmentation : ¬ Segmentation := by
  intro h
  have h2 := h [testFrame 7] [⟨packet [testFrame 7], 1, fun _ => 0⟩] halves (by decide)
    ⟨by decide, by decide⟩ ⟨by decide, by decide⟩
  exact absurd h2 (by decide)

end P1Server
