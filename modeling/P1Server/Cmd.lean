import P1Server.Lib.Bytes

/-!
# Network commands (`Cmd.h`)

| here | there |
| --- | --- |
| `SOCKET_BUFFER_SIZE`     | `Interface.h:8` |
| `NetCmd`                 | a `NetCmd` object in memory (`Cmd.h:5-10`): 6 header bytes, then the body of the derived struct |
| `NetCmd.image`           | the bytes `memcpy_s(dst, pCmd->length, pCmd, pCmd->length)` copies (`TCPServer.cpp:153`) |
| `TestNetCmd`             | `struct TestNetCmd` (`Cmd.h:43-48`); 20 bytes, two padding bytes behind `subCmd` |
| `createNetCmd`           | `CreateNetCmd<TestNetCmd>(LPVOID)` (`Cmd.h:24-35`) |

The `length` field says how many bytes the object has, so a `NetCmd` carries the proof that those
bytes are there.
-/

namespace P1Server
open Lib

/-- A socket handle. -/
abbrev Socket := Nat

/-- `SOCKET_BUFFER_SIZE` (`Interface.h:8`). -/
def SOCKET_BUFFER_SIZE : Nat := 8 * 1024

/-- `sizeof(NetCmd)`. -/
def HEADER_SIZE : Nat := 6

/-- `MainCmds::CMD_TEST` (`Cmd.h:37-40`). -/
def CMD_TEST : UInt16 := 0

/-- `sizeof(TestNetCmd)`. -/
def TEST_SIZE : UInt16 := 20

/-- A command object: its bytes, at least a header and at least as many as its length field says. -/
structure NetCmd where
  bytes : List UInt8
  header : HEADER_SIZE ≤ bytes.length
  fits : (le16 (memOf bytes) 0).toNat ≤ bytes.length
  deriving DecidableEq

namespace NetCmd

def length (c : NetCmd) : Nat := (le16 (memOf c.bytes) 0).toNat
def mainCmd (c : NetCmd) : UInt16 := le16 (memOf c.bytes) 2
def subCmd (c : NetCmd) : UInt16 := le16 (memOf c.bytes) 4

/-- The bytes a `memcpy_s` of `length` bytes copies. -/
def image (c : NetCmd) : List UInt8 := c.bytes.take c.length

@[simp] theorem image_length (c : NetCmd) : c.image.length = c.length := by
  simp only [image, List.length_take]
  exact Nat.min_eq_left c.fits

end NetCmd

/-- `struct TestNetCmd : NetCmd` (`Cmd.h:43`). `data` is an `int`, kept as its 32 bits. -/
structure TestNetCmd where
  length : UInt16
  mainCmd : UInt16
  subCmd : UInt16
  data : UInt32
  sendTime : UInt32
  recvTime : UInt32
  deriving DecidableEq, Repr

/-- The object whose bytes start at `src`. -/
def TestNetCmd.read (m : Mem) (src : Nat) : TestNetCmd where
  length := le16 m src
  mainCmd := le16 m (src + 2)
  subCmd := le16 m (src + 4)
  data := le32 m (src + 8)
  sendTime := le32 m (src + 12)
  recvTime := le32 m (src + 16)

/-- `CreateNetCmd<TestNetCmd>(src)` (`Cmd.h:24`): a copy of `sizeof(TestNetCmd)` bytes, or `NULL`
when the length field at `src` is another size. -/
def createNetCmd (m : Mem) (src : Nat) : Option TestNetCmd :=
  if le16 m src ≠ TEST_SIZE then none else some (.read m src)

theorem read_congr {m m' : Mem} {i j : Nat} (h : ∀ k < 20, m (i + k) = m' (j + k)) :
    TestNetCmd.read m i = TestNetCmd.read m' j := by
  simp only [TestNetCmd.read, TestNetCmd.mk.injEq]
  refine ⟨le16_congr (h 0 (by omega)) (h 1 (by omega)), le16_congr (h 2 (by omega)) (h 3 (by omega)),
    le16_congr (h 4 (by omega)) (h 5 (by omega)), le32_congr ?_, le32_congr ?_,
    le32_congr ?_⟩
  · intro k hk
    rw [Nat.add_assoc, Nat.add_assoc]; exact h (8 + k) (by omega)
  · intro k hk
    rw [Nat.add_assoc, Nat.add_assoc]; exact h (12 + k) (by omega)
  · intro k hk
    rw [Nat.add_assoc, Nat.add_assoc]; exact h (16 + k) (by omega)

end P1Server
