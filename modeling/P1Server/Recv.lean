import P1Server.Cmd

/-!
# The receive parse: `TCPServer::RecvNetCmdData` (`TCPServer.cpp:359-394`)

The buffer is the memory that starts at `clientContext->buf`: addresses below
`SOCKET_BUFFER_SIZE` are the buffer, those behind it are whatever follows it in the `NET_CONTEXT`
(the socket handle first, `Interface.h:42-43`). The loop is recorded round by round, with what each
round reads, creates and hands to `SendCmdData`. Two details of the source are kept as they are:
the header is read before anything but `offset < SOCKET_BUFFER_SIZE` is checked, and the copy is
made from `buf`, not from `buf + offset` (`:378`).

The loop counter is a `UINT` that stays below 8192 + 65536, so a `Nat` is exact.
-/

namespace P1Server
open Lib

/-- One round of the loop at `offset`: it breaks on a zero length, or takes a frame of `len`
bytes; `made` is the command created there, with the address it was copied from. -/
inductive Round where
  | stop (offset : Nat)
  | frame (offset len : Nat) (mainCmd subCmd : UInt16) (made : Option (Nat × TestNetCmd))
  deriving DecidableEq, Repr

namespace Round

def offset : Round → Nat
  | .stop o | .frame o _ _ _ _ => o

/-- Addresses the round reads as a frame header: `length`, and `mainCmd` and `subCmd` unless the
length is zero. -/
def reads : Round → List Nat
  | .stop o => [o, o + 1]
  | .frame o _ _ _ _ => [o, o + 1, o + 2, o + 3, o + 4, o + 5]

def made? : Round → Option (Nat × TestNetCmd)
  | .stop _ => none
  | .frame _ _ _ _ c => c

/-- The declared length of the frame the round looks at. -/
def declared : Round → Nat
  | .stop _ => 0
  | .frame _ len _ _ _ => len

end Round

/-- The `switch (mainCmd)` (`:374-390`): the source of the copy is `buf`, the start of the buffer. -/
def switchCmd (buf : Mem) (tick : UInt32) (mainCmd : UInt16) : Option (Nat × TestNetCmd) :=
  if mainCmd = CMD_TEST then (createNetCmd buf 0).map fun c => (0, { c with recvTime := tick }) else none

/-- The body of the `while` at `offset` (`:365-391`). -/
def recvRound (buf : Mem) (tick : UInt32) (offset : Nat) : Round :=
  if le16 buf offset = 0 then .stop offset
  else .frame offset (le16 buf offset).toNat (le16 buf (offset + 2)) (le16 buf (offset + 4))
    (switchCmd buf tick (le16 buf (offset + 2)))

/-- The `while` loop, for at most `fuel` rounds. -/
def recvLoop (buf : Mem) (tick : UInt32) : Nat → Nat → List Round
  | 0, _ => []
  | fuel + 1, offset =>
    if offset < SOCKET_BUFFER_SIZE then
      match recvRound buf tick offset with
      | .stop o => [.stop o]
      | .frame o len m s c => .frame o len m s c :: recvLoop buf tick fuel (o + len)
    else []

/-- The rounds from `offset` on; every round advances, so one unit of fuel per byte is enough
(`recvLoop_fuel`). -/
def recvFrom (buf : Mem) (tick : UInt32) (offset : Nat) : List Round :=
  recvLoop buf tick (SOCKET_BUFFER_SIZE - offset) offset

/-- `TCPServer::RecvNetCmdData` (`TCPServer.cpp:359`). -/
def recvNetCmdData (buf : Mem) (tick : UInt32) : List Round := recvFrom buf tick 0

/-- The commands handed to `SendCmdData`, in order. -/
def handed (rounds : List Round) : List TestNetCmd := rounds.filterMap fun r => r.made?.map Prod.snd

variable {buf : Mem} {tick : UInt32}

theorem recvRound_stop {o : Nat} (h : le16 buf o = 0) : recvRound buf tick o = .stop o := if_pos h

theorem recvRound_frame {o : Nat} (h : le16 buf o ≠ 0) :
    recvRound buf tick o = .frame o (le16 buf o).toNat (le16 buf (o + 2)) (le16 buf (o + 4))
      (switchCmd buf tick (le16 buf (o + 2))) := if_neg h

theorem le16_pos {o : Nat} (h : le16 buf o ≠ 0) : 0 < (le16 buf o).toNat :=
  Nat.pos_of_ne_zero fun hz => h (UInt16.toNat_inj.1 hz)

/-! ## The loop equations -/

theorem recvLoop_done {fuel o : Nat} (h : ¬ o < SOCKET_BUFFER_SIZE) : recvLoop buf tick fuel o = [] := by
  cases fuel <;> simp [recvLoop, h]

/-- A frame's length is not zero, so more fuel than `SOCKET_BUFFER_SIZE - o` changes nothing. -/
theorem recvLoop_fuel : ∀ (f g o : Nat), SOCKET_BUFFER_SIZE - o ≤ f → SOCKET_BUFFER_SIZE - o ≤ g →
    recvLoop buf tick f o = recvLoop buf tick g o
  | f, g, o, hf, hg => by
    by_cases ho : o < SOCKET_BUFFER_SIZE
    · match f, g with
      | 0, _ => omega
      | _ + 1, 0 => omega
      | f + 1, g + 1 =>
        simp only [recvLoop, if_pos ho]
        by_cases hz : le16 buf o = 0
        · simp only [recvRound_stop hz]
        · have hpos := le16_pos hz
          simp only [recvRound_frame hz]
          rw [recvLoop_fuel f g _ (by omega) (by omega)]
    · rw [recvLoop_done ho, recvLoop_done ho]

theorem recvFrom_done {o : Nat} (h : ¬ o < SOCKET_BUFFER_SIZE) : recvFrom buf tick o = [] :=
  recvLoop_done h

theorem recvFrom_stop {o : Nat} (h : o < SOCKET_BUFFER_SIZE) (hz : le16 buf o = 0) :
    recvFrom buf tick o = [.stop o] := by
  rw [recvFrom, recvLoop_fuel _ (SOCKET_BUFFER_SIZE - o + 1) o (Nat.le_refl _) (by omega)]
  simp only [recvLoop, if_pos h, recvRound_stop hz]

theorem recvFrom_frame {o : Nat} (h : o < SOCKET_BUFFER_SIZE) (hz : le16 buf o ≠ 0) :
    recvFrom buf tick o = .frame o (le16 buf o).toNat (le16 buf (o + 2)) (le16 buf (o + 4))
      (switchCmd buf tick (le16 buf (o + 2))) :: recvFrom buf tick (o + (le16 buf o).toNat) := by
  have hpos := le16_pos hz
  conv => lhs; rw [recvFrom, recvLoop_fuel _ (SOCKET_BUFFER_SIZE - o + 1) o (Nat.le_refl _) (by omega)]
  simp only [recvLoop, if_pos h, recvRound_frame hz]
  rw [recvLoop_fuel _ (SOCKET_BUFFER_SIZE - (o + (le16 buf o).toNat)) _ (by omega) (by omega)]
  rfl

end P1Server
