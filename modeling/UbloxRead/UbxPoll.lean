/-
UbloxRead.UbxPoll — the poll messages of `ubx.c`, and `prepAidMissingPollMsgs`,
which queues one for every item that is still missing.

The functions run on the heap of `control_f`: the transmit queue, the message
blocks, and what `malloc` answers. A block has the size that was asked for and
unknown contents; an assignment outside its block has no outcome.
-/
import UbloxRead.UbxAck
import UbloxRead.Serial

namespace UbloxRead

open Lib

/-! ## The heap of `control_f` -/

/-- `mallocs k size` is what the call of `malloc` with number `k` returns for
`size` bytes, `fill` what it leaves in a block. -/
structure TxHeap where
  ll : LList
  blocks : TxBlocks
  mallocs : Nat → Nat → Ptr
  calls : Nat
  fill : UInt8

namespace TxHeap

/-- `malloc`: the address alone. -/
def malloc (s : TxHeap) (size : Nat) : Ptr × TxHeap :=
  (s.mallocs s.calls size, { s with calls := s.calls + 1 })

def setBlock (s : TxHeap) (p : Ptr) (block : Option (List UInt8)) : TxHeap :=
  { s with blocks := fun q => if q = p then block else s.blocks q }

/-- `malloc` of a message: a block unless it failed. -/
def mallocBlock (s : TxHeap) (size : Nat) : Ptr × TxHeap :=
  let (p, s) := s.malloc size
  if p = NULL then (NULL, s) else (p, s.setBlock p (some (List.replicate size s.fill)))

/-- `p[i] = v`. -/
def store (s : TxHeap) (p : Ptr) (i : Nat) (v : UInt8) : Option TxHeap :=
  match s.blocks p with
  | none => none
  | some block => if i < block.length then some (s.setBlock p (some (block.set i v))) else none

/-- The memory at a block. -/
def mem (s : TxHeap) (p : Ptr) : Mem := memOfList ((s.blocks p).getD [])

end TxHeap

/-! ## Poll messages -/

/-- `genPollMessage`: a message without payload. -/
def genPollMessage (s : TxHeap) (msgClass msgId : UInt8) : Option (Ptr × TxHeap) := do
  let (message, s) := s.mallocBlock 8
  if message = NULL then some (NULL, s)
  else
    let s ← s.store message 0 UBX_SYNC0
    let s ← s.store message 1 UBX_SYNC1
    let s ← s.store message 2 msgClass
    let s ← s.store message 3 msgId
    let s ← s.store message 4 0
    let s ← s.store message 5 0
    let s ← s.store message 6 0
    let s ← s.store message 7 0
    let cksum := ubxChecksum (s.mem message) 2 (UBX_HDR_SIZE - 2)
    let s ← s.store message 6 cksum.1
    let s ← s.store message 7 cksum.2
    some (message, s)

/-- `genPollMessageIndSV`: a message with a satellite number as its payload. -/
def genPollMessageIndSV (s : TxHeap) (msgClass msgId svid : UInt8) : Option (Ptr × TxHeap) := do
  let (message, s) := s.mallocBlock 9
  if message = NULL then some (NULL, s)
  else
    let s ← s.store message 0 UBX_SYNC0
    let s ← s.store message 1 UBX_SYNC1
    let s ← s.store message 2 msgClass
    let s ← s.store message 3 msgId
    let s ← s.store message 4 1
    let s ← s.store message 5 0
    let s ← s.store message 6 svid
    let s ← s.store message 7 0
    let s ← s.store message 8 0
    let cksum := ubxChecksum (s.mem message) 2 (UBX_HDR_SIZE + 1 - 2)
    let s ← s.store message 7 cksum.1
    let s ← s.store message 8 cksum.2
    some (message, s)

/-- The `int` satellite number of `pollAlmanac` and `pollEphem`: -1 polls for
all, and a negative one besides that for nothing. The parameter it is passed on
to is a `uint8_t`. -/
def pollSat (s : TxHeap) (msgId : UInt8) (svid : Int) : Option (Ptr × TxHeap) :=
  if -1 = svid then genPollMessage s UBX_CLASS_AID msgId
  else if 0 ≤ svid then genPollMessageIndSV s UBX_CLASS_AID msgId (UInt8.ofNat svid.toNat)
  else some (NULL, s)

/-- `pollAlmanac`. -/
def pollAlmanac (s : TxHeap) (svid : Int) : Option (Ptr × TxHeap) := pollSat s UBX_AID_ALM svid

/-- `pollEphem`. -/
def pollEphem (s : TxHeap) (svid : Int) : Option (Ptr × TxHeap) := pollSat s UBX_AID_EPH svid

/-- `pollHui`. -/
def pollHui (s : TxHeap) : Option (Ptr × TxHeap) := genPollMessage s UBX_CLASS_AID UBX_AID_HUI

/-- `pollIni`. -/
def pollIni (s : TxHeap) : Option (Ptr × TxHeap) := genPollMessage s UBX_CLASS_AID UBX_AID_INI

/-- `pollPosllh`. -/
def pollPosllh (s : TxHeap) : Option (Ptr × TxHeap) :=
  genPollMessage s UBX_CLASS_NAV UBX_NAV_POSLLH

/-! ## Queueing what is missing -/

/-- `sizeof(node)`. -/
def NODE_SIZE : Nat := 24

/-- `push_back(ll, ubxMsg_p)`, with the `malloc` of its `create_node`. -/
def TxHeap.pushBack (s : TxHeap) (ubxMsg : Ptr) : Option TxHeap := do
  let (n, s) := s.malloc NODE_SIZE
  let ll ← UbloxRead.pushBack s.ll n ubxMsg
  some { s with ll := ll }

/-- One `if` of `prepAidMissingPollMsgs`: a NULL message is logged, and pushed
all the same. -/
def pushPollIfUnset (ack : UInt8) (poll : TxHeap → Option (Ptr × TxHeap)) (s : TxHeap) :
    Option TxHeap :=
  if 0 = ack then do
    let (ubxMsg, s) ← poll s
    s.pushBack ubxMsg
  else some s

/-- `prepAidMissingPollMsgs`, which always returns 0. -/
def prepAidMissingPollMsgs (s : TxHeap) (msgChk : MsgStrmCheck) : Option TxHeap := do
  let s ← pushPollIfUnset msgChk.iniAck pollIni s
  let s ← pushPollIfUnset msgChk.huiAck pollHui s
  let s ← pushPollIfUnset msgChk.posllhAck pollPosllh s
  let s ← forLoop 32 (fun i s => pushPollIfUnset (msgChk.almAck i) (pollAlmanac · i) s) s
  forLoop 32 (fun i s => pushPollIfUnset (msgChk.ephAck i) (pollEphem · i) s) s

/-! ## What polls are for -/

/-- `malloc` gives addresses where nothing lives, a new one every time. It may
fail for a message, but not for a node, which `create_node` does not check. -/
structure TxHeap.MallocOk (s : TxHeap) : Prop where
  node : ∀ k, s.calls ≤ k → s.mallocs k NODE_SIZE ≠ NULL
  dead : ∀ k size, s.calls ≤ k → s.mallocs k size ≠ NULL →
    s.ll.heap (s.mallocs k size) = none ∧ s.blocks (s.mallocs k size) = none
  apart : ∀ k k' size size', s.calls ≤ k → k < k' → s.mallocs k size ≠ NULL →
    s.mallocs k' size' ≠ s.mallocs k size
  null : s.blocks NULL = none

/-- A poll for an item: the frame check accepts it with the size of its block,
which is what `serial_f` writes, and it carries the item's class and id and, for
a satellite's item, the satellite's number. -/
structure PollFor (g : AckFlag) (msg : TxMsg) : Prop where
  accepted : (parseUartInput4UbxMsg (memOfList msg.bytes) 0 msg.bytes.length).1 = msg.bytes.length
  written : msg.writeLen = msg.bytes.length
  msgClass : getUbxMsgClass (memOfList msg.bytes) 0 = g.msgClass
  msgId : getUbxMsgId (memOfList msg.bytes) 0 = g.msgId
  payload : match g.sat with
    | none => msg.payloadLen = 0
    | some s => msg.payloadLen = 1 ∧ (memOfList msg.bytes 6).toNat = s

/-- What is pushed for an item from the heap `s` on: a block that `malloc`
returned, with the poll for the item in it; or NULL, when that is what it
returned. -/
structure PushedFor (s : TxHeap) (g : AckFlag) (msg : TxMsg) : Prop where
  fromMalloc : ∃ k size, s.calls ≤ k ∧ msg.ptr = s.mallocs k size ∧
    (msg.ptr ≠ NULL → msg.bytes.length = size)
  poll : msg.ptr ≠ NULL → PollFor g msg

/-- A frame of the same class and id as a poll and, when the poll has a payload,
with the same first payload byte. -/
def AcceptedFrame.Answers (f : AcceptedFrame) (msg : TxMsg) : Prop :=
  f.msgClass = getUbxMsgClass (memOfList msg.bytes) 0 ∧
    f.msgId = getUbxMsgId (memOfList msg.bytes) 0 ∧
    (0 < msg.payloadLen → 0 < f.payloadLen ∧ f.firstByte = memOfList msg.bytes 6)

end UbloxRead
