/-
UbloxRead.UbxCommands — all that `control_f` ever queues: the NMEA silencers of
`ubx.c`, and the functions that queue a batch of messages.

`genNmeaSilencer_msg_1` to `genNmeaSilencer_msg_7` are one text that differs in
a byte of the payload, the id of the NMEA message. A `MsgCall` is a call of one
of the generators of `ubx.c`; a batch is the list of the calls that the function
queueing it makes, one `push_back` after each.
-/
import UbloxRead.UbxPollTheorems

namespace UbloxRead

open Lib

/-! ## NMEA silencers -/

/-- The text of the seven silencers: set the rate of an NMEA message to 0. -/
def genNmeaSilencerMsg (nmeaId : UInt8) (s : TxHeap) : Option (Ptr × TxHeap) := do
  let (message, s) := s.mallocBlock 11
  if message = NULL then some (NULL, s)
  else
    let s ← s.store message 0 UBX_SYNC0
    let s ← s.store message 1 UBX_SYNC1
    let s ← s.store message 2 UBX_CLASS_CFG
    let s ← s.store message 3 UBX_CFG_MSG
    let s ← s.store message 4 3
    let s ← s.store message 5 0
    let s ← s.store message 6 0xF0
    let s ← s.store message 7 nmeaId
    let s ← s.store message 8 0x00
    let s ← s.store message 9 0
    let s ← s.store message 10 0
    let cksum := ubxChecksum (s.mem message) 2 (UBX_HDR_SIZE + 3 - 2)
    let s ← s.store message 9 cksum.1
    let s ← s.store message 10 cksum.2
    some (message, s)

/-- `genNmeaSilencer_msg_1`. -/
def genNmeaSilencerMsg1 : TxHeap → Option (Ptr × TxHeap) := genNmeaSilencerMsg 0x00

/-- `genNmeaSilencer_msg_2`. -/
def genNmeaSilencerMsg2 : TxHeap → Option (Ptr × TxHeap) := genNmeaSilencerMsg 0x01

/-- `genNmeaSilencer_msg_3`. -/
def genNmeaSilencerMsg3 : TxHeap → Option (Ptr × TxHeap) := genNmeaSilencerMsg 0x02

/-- `genNmeaSilencer_msg_4`. -/
def genNmeaSilencerMsg4 : TxHeap → Option (Ptr × TxHeap) := genNmeaSilencerMsg 0x03

/-- `genNmeaSilencer_msg_5`. -/
def genNmeaSilencerMsg5 : TxHeap → Option (Ptr × TxHeap) := genNmeaSilencerMsg 0x04

/-- `genNmeaSilencer_msg_6`. -/
def genNmeaSilencerMsg6 : TxHeap → Option (Ptr × TxHeap) := genNmeaSilencerMsg 0x05

/-- `genNmeaSilencer_msg_7`. -/
def genNmeaSilencerMsg7 : TxHeap → Option (Ptr × TxHeap) := genNmeaSilencerMsg 0x08

/-! ## Batches -/

/-- `prepNmeaSilencerMsgs`, with its return value. -/
def prepNmeaSilencerMsgs (s : TxHeap) : Option (TxHeap × Int) := do
  let (ubxMsg, s) ← genNmeaSilencerMsg1 s
  let s ← s.pushBack ubxMsg
  let (ubxMsg, s) ← genNmeaSilencerMsg2 s
  let s ← s.pushBack ubxMsg
  let (ubxMsg, s) ← genNmeaSilencerMsg3 s
  let s ← s.pushBack ubxMsg
  let (ubxMsg, s) ← genNmeaSilencerMsg4 s
  let s ← s.pushBack ubxMsg
  let (ubxMsg, s) ← genNmeaSilencerMsg5 s
  let s ← s.pushBack ubxMsg
  let (ubxMsg, s) ← genNmeaSilencerMsg6 s
  let s ← s.pushBack ubxMsg
  let (ubxMsg, s) ← genNmeaSilencerMsg7 s
  let s ← s.pushBack ubxMsg
  some (s, 7)

/-- `prepAidPollMsgs`, with its return value. -/
def prepAidPollMsgs (s : TxHeap) : Option (TxHeap × Int) := do
  let (ubxMsg, s) ← pollHui s
  let s ← s.pushBack ubxMsg
  let (ubxMsg, s) ← pollIni s
  let s ← s.pushBack ubxMsg
  let (ubxMsg, s) ← pollAlmanac s (-1)
  let s ← s.pushBack ubxMsg
  let (ubxMsg, s) ← pollEphem s (-1)
  let s ← s.pushBack ubxMsg
  let (ubxMsg, s) ← pollPosllh s
  let s ← s.pushBack ubxMsg
  some (s, 0)

/-! ## Calls of the generators -/

/-- A call of a generator as the batches make it. `pollAlmanac` and `pollEphem`
are called with -1, for all satellites, or with a satellite below 32. -/
inductive MsgCall where
  | nmeaSilencer (nmeaId : UInt8)
  | pollIni
  | pollHui
  | pollPosllh
  | pollAlmanac (svid : Option (Fin 32))
  | pollEphem (svid : Option (Fin 32))
  deriving DecidableEq, Repr

namespace MsgCall

/-- The `int` passed for a satellite, or for all of them. -/
def svidArg : Option (Fin 32) → Int
  | none => -1
  | some i => (i : Nat)

/-- The call. -/
def gen : MsgCall → TxHeap → Option (Ptr × TxHeap)
  | nmeaSilencer nmeaId, s => genNmeaSilencerMsg nmeaId s
  | pollIni, s => UbloxRead.pollIni s
  | pollHui, s => UbloxRead.pollHui s
  | pollPosllh, s => UbloxRead.pollPosllh s
  | pollAlmanac svid, s => UbloxRead.pollAlmanac s (svidArg svid)
  | pollEphem svid, s => UbloxRead.pollEphem s (svidArg svid)

/-- The call and the `push_back` of what it returns. -/
def push (s : TxHeap) (call : MsgCall) : Option TxHeap := do
  let (ubxMsg, s) ← call.gen s
  s.pushBack ubxMsg

end MsgCall

/-- The calls of `prepNmeaSilencerMsgs`. -/
def nmeaSilencers : List MsgCall :=
  [.nmeaSilencer 0x00, .nmeaSilencer 0x01, .nmeaSilencer 0x02, .nmeaSilencer 0x03,
    .nmeaSilencer 0x04, .nmeaSilencer 0x05, .nmeaSilencer 0x08]

/-- The calls of `prepAidPollMsgs`. -/
def aidPolls : List MsgCall :=
  [.pollHui, .pollIni, .pollAlmanac none, .pollEphem none, .pollPosllh]

/-- The call that polls for an item. -/
def AckFlag.call : AckFlag → MsgCall
  | .ini => .pollIni
  | .hui => .pollHui
  | .posllh => .pollPosllh
  | .alm s => .pollAlmanac (some s)
  | .eph s => .pollEphem (some s)

/-- The calls of `prepAidMissingPollMsgs`. -/
def missingPolls (msgChk : MsgStrmCheck) : List MsgCall :=
  (allItems.filter fun g => msgChk.flag g = 0).map AckFlag.call

/-! ## What the calls are for -/

/-- The frame of a silencer: class 0xF0, the NMEA message, rate 0. -/
def silencerFrame (nmeaId : UInt8) : UbxFrame where
  msgClass := UBX_CLASS_CFG
  msgId := UBX_CFG_MSG
  payload := [0xF0, nmeaId, 0x00]
  payload_lt := Nat.lt_of_le_of_lt (le_refl 3) (by decide)

/-- The frame that a call asks for. -/
def MsgCall.frame : MsgCall → UbxFrame
  | nmeaSilencer nmeaId => silencerFrame nmeaId
  | pollIni => pollFrame UBX_CLASS_AID UBX_AID_INI none
  | pollHui => pollFrame UBX_CLASS_AID UBX_AID_HUI none
  | pollPosllh => pollFrame UBX_CLASS_NAV UBX_NAV_POSLLH none
  | pollAlmanac svid => pollFrame UBX_CLASS_AID UBX_AID_ALM (svid.map fun i => UInt8.ofNat i)
  | pollEphem svid => pollFrame UBX_CLASS_AID UBX_AID_EPH (svid.map fun i => UInt8.ofNat i)

/-- The message that a call gives when its `malloc` returns `p`. -/
def MsgCall.msg (call : MsgCall) (p : Ptr) : TxMsg where
  ptr := p
  block := if p = NULL then none else some call.frame.bytes

end UbloxRead
