/-
UbloxRead.UbxFrame — the UBX frame check of `ubx.c`.

A frame in memory is `B5 62`, a class byte, an id byte, a little-endian 16-bit
payload length, the payload, and two checksum bytes over everything between
the sync bytes and themselves. `parseUartInput4UbxMsg` decides whether one
starts at a pointer. `UbxFrame` is a frame as a value: its payload length fits
the length field by construction, and `UbxFrame.bytes` is its encoding.
-/
import UbloxRead.Memory
import UbloxRead.Lib.Fletcher

namespace UbloxRead

open Lib

/-! ## Constants of `ubx.h` -/

def UBX_SYNC0 : UInt8 := 0xb5
def UBX_SYNC1 : UInt8 := 0x62

def UBX_CLASS_NAV : UInt8 := 0x01
def UBX_CLASS_CFG : UInt8 := 0x06
def UBX_CLASS_AID : UInt8 := 0x0b

def UBX_NAV_POSLLH : UInt8 := 0x02
def UBX_CFG_MSG : UInt8 := 0x01
def UBX_AID_INI : UInt8 := 0x01
def UBX_AID_HUI : UInt8 := 0x02
def UBX_AID_ALM : UInt8 := 0x30
def UBX_AID_EPH : UInt8 := 0x31

/-- `sizeof(struct ubx_hdr)`: the struct is packed. -/
def UBX_HDR_SIZE : Nat := 6

/-! ## The header -/

/-- `hdr->payload_len`, two bytes little-endian. -/
def payloadLen (mem : Mem) (msg : Nat) : Nat :=
  (mem (msg + 4)).toNat + 256 * (mem (msg + 5)).toNat

/-- Assignment to `hdr->payload_len`. -/
def setPayloadLen (mem : Mem) (msg : Nat) (len : Nat) : Mem :=
  fun i =>
    if i = msg + 4 then UInt8.ofNat len
    else if i = msg + 5 then UInt8.ofNat (len / 256)
    else mem i

/-- `getUbx_MsgLength`; `none` is the NULL pointer. -/
def getUbxMsgLength (mem : Mem) : Option Nat → Nat
  | none => 0
  | some msg => payloadLen mem msg

/-- `getUbx_MsgClass`. -/
def getUbxMsgClass (mem : Mem) (msg : Nat) : UInt8 := mem (msg + 2)

/-- `getUbx_MsgId`. -/
def getUbxMsgId (mem : Mem) (msg : Nat) : UInt8 := mem (msg + 3)

/-! ## The frame check -/

/-- `ubx_checksum`: the loop over `data[0 .. len)`. -/
def ubxChecksum (mem : Mem) (data len : Nat) : UInt8 × UInt8 :=
  (List.range len).foldl (fun ck i =>
    let ck0 := ck.1 + mem (data + i)
    (ck0, ck.2 + ck0)) (0, 0)

/-- `parseUartInput_4_UbxMsg`: the return value and the memory afterwards (the
length field is written back). `bytesLeftInBuffer` is an `int` compared with a
`size_t`. -/
def parseUartInput4UbxMsg (mem : Mem) (msg : Nat) (bytesLeftInBuffer : Int) : Int × Mem :=
  if mem msg ≠ UBX_SYNC0 ∨ mem (msg + 1) ≠ UBX_SYNC1 then (-1, mem)
  else
    let mem := setPayloadLen mem msg (getUbxMsgLength mem (some msg))
    if sizeOfInt bytesLeftInBuffer < UBX_HDR_SIZE + payloadLen mem msg + 2 then (-2, mem)
    else
      let cksum := ubxChecksum mem (msg + 2) (UBX_HDR_SIZE + payloadLen mem msg - 2)
      let cksumPtr := msg + (UBX_HDR_SIZE + payloadLen mem msg)
      if mem cksumPtr ≠ cksum.1 ∨ mem (cksumPtr + 1) ≠ cksum.2 then (-3, mem)
      else ((UBX_HDR_SIZE + payloadLen mem msg + 2 : Nat), mem)

/-! ## Frames as values -/

/-- A UBX frame. -/
structure UbxFrame where
  msgClass : UInt8
  msgId : UInt8
  payload : List UInt8
  payload_lt : payload.length < 2 ^ 16
  deriving DecidableEq

/-- A payload may be empty. -/
theorem payload_nil_lt : ([] : List UInt8).length < 2 ^ 16 := by decide

/-- The bytes the checksum runs over. -/
def UbxFrame.body (f : UbxFrame) : List UInt8 :=
  f.msgClass :: f.msgId :: UInt8.ofNat f.payload.length :: UInt8.ofNat (f.payload.length / 256) ::
    f.payload

/-- The frame on the wire. -/
def UbxFrame.bytes (f : UbxFrame) : List UInt8 :=
  UBX_SYNC0 :: UBX_SYNC1 :: (f.body ++ [(fletcher f.body).1, (fletcher f.body).2])

/-- The two sync bytes stand at `p`. -/
def SyncAt (mem : Mem) (p : Nat) : Prop := mem p = UBX_SYNC0 ∧ mem (p + 1) = UBX_SYNC1

/-- The two bytes behind the payload of a header at `p` are the checksum of
class, id, length and payload. -/
def ChecksumAt (mem : Mem) (p : Nat) : Prop :=
  (mem (p + 6 + payloadLen mem p), mem (p + 7 + payloadLen mem p))
    = fletcher (slice mem (p + 2) (4 + payloadLen mem p))

instance (mem : Mem) (p : Nat) : Decidable (SyncAt mem p) := inferInstanceAs (Decidable (_ ∧ _))

instance (mem : Mem) (p : Nat) : Decidable (ChecksumAt mem p) := inferInstanceAs (Decidable (_ = _))

/-- A frame within the first `n` bytes starts at `p`: the sync bytes, a length
that ends inside, and the right checksum. -/
structure ValidAt (mem : Mem) (n p : Nat) : Prop where
  sync : SyncAt mem p
  inside : p + 8 + payloadLen mem p ≤ n
  checksum : ChecksumAt mem p

/-- The length of the frame that starts at `p`, if one does: nothing is asked
of where it ends. -/
def frameItem (mem : Mem) (p : Nat) : Option Nat :=
  if SyncAt mem p ∧ ChecksumAt mem p then some (8 + payloadLen mem p) else none

end UbloxRead
