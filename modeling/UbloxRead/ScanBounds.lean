/-
UbloxRead.ScanBounds — which bytes the frame check of `ubx.c` touches.

`parseUartInput4UbxMsgAccess` is `parseUartInput_4_UbxMsg` written with one
load or store for every byte the source reads or writes, in the source's
order and with its short circuits: the second sync byte is looked at only
behind a `B5`, the second checksum byte only behind a right first one. What it
computes is `parseUartInput4UbxMsg`; what it touches is its log. `scanTouched`
is the log of all the calls that the scan loop makes.
-/
import UbloxRead.ScanLoop
import UbloxRead.Control
import UbloxRead.Lib.Scan

namespace UbloxRead

open Lib

/-- `getUbx_MsgLength`, for a pointer that is not NULL. -/
def getUbxMsgLengthAccess (msg : Nat) : MemAccess Nat := do
  let lo ← Access.load (msg + 4)
  let hi ← Access.load (msg + 5)
  return lo.toNat + 256 * hi.toNat

/-- Assignment to `hdr->payload_len`. -/
def setPayloadLenAccess (msg len : Nat) : MemAccess Unit := do
  Access.store (msg + 4) (UInt8.ofNat len)
  Access.store (msg + 5) (UInt8.ofNat (len / 256))

/-- `ubx_checksum`: the loop over `data[0 .. len)`. -/
def ubxChecksumAccess (data len : Nat) : MemAccess (UInt8 × UInt8) :=
  (List.range len).foldlM (fun ck i => do
    let b ← Access.load (data + i)
    return (ck.1 + b, ck.2 + (ck.1 + b))) (0, 0)

/-- `parseUartInput_4_UbxMsg`, access by access. `hdr->payload_len` is the two
bytes that the length was just written back to. -/
def parseUartInput4UbxMsgAccess (msg : Nat) (bytesLeftInBuffer : Int) : MemAccess Int := do
  let sync0 ← Access.load msg
  if sync0 ≠ UBX_SYNC0 then return -1 else
  let sync1 ← Access.load (msg + 1)
  if sync1 ≠ UBX_SYNC1 then return -1 else
  let len ← getUbxMsgLengthAccess msg
  setPayloadLenAccess msg len
  let payloadLen ← getUbxMsgLengthAccess msg
  if sizeOfInt bytesLeftInBuffer < UBX_HDR_SIZE + payloadLen + 2 then return -2 else
  let cksum ← ubxChecksumAccess (msg + 2) (UBX_HDR_SIZE + payloadLen - 2)
  let cksumPtr := msg + (UBX_HDR_SIZE + payloadLen)
  let cksum0 ← Access.load cksumPtr
  if cksum0 ≠ cksum.1 then return -3 else
  let cksum1 ← Access.load (cksumPtr + 1)
  if cksum1 ≠ cksum.2 then return -3 else
  return ((UBX_HDR_SIZE + payloadLen + 2 : Nat) : Int)

/-- The offsets of the scratchpad that the check touches in the round of the
loop that starts in `s`. -/
def touchedAt (rbSize : Int) (s : ScanState) : List Nat :=
  ((parseUartInput4UbxMsgAccess s.i (rbSize - s.i)).run s.scratchpad).touched

/-- The offsets that the check touches in all the rounds of the loop. -/
def scanTouched (rbSize : Int) (fuel : Nat) (s : ScanState) : List Nat :=
  (whileStates (scanBody rbSize) fuel s).flatMap (touchedAt rbSize)

/-- The scan of the first `n` bytes stops at position `p`: no frame it takes
runs over it. -/
def ScanStopsAt (mem : Mem) (n p : Nat) : Prop :=
  p < n ∧ ∃ found, Scan (frameItem mem) n 0 found ∧ ∀ f ∈ found, ¬ (f.1 < p ∧ p < f.1 + f.2)

/-- What makes the check at `p` run over the end of a block of `cap` bytes: a
`B5` in the last byte, or the two sync bytes with less than a header behind
them. -/
def CutOffSync (mem : Mem) (cap p : Nat) : Prop :=
  cap < p + UBX_HDR_SIZE ∧ mem p = UBX_SYNC0 ∧ (p + 1 = cap ∨ mem (p + 1) = UBX_SYNC1)

instance (mem : Mem) (cap p : Nat) : Decidable (CutOffSync mem cap p) :=
  inferInstanceAs (Decidable (_ ∧ _))

end UbloxRead
