/-
UbloxRead.UbxAck — the acknowledgement flags of `ubx.h` and the functions of
`ubx.c` that set and count them.

`struct ubxAidAck_s` has `uint8_t` members only, so it is 69 consecutive
bytes, and indexing one of its arrays past the end reaches the members behind
it. The struct is therefore its block of memory, and a member is an offset in
it. The other members of `struct msgStrmCheck_s` are read by no function.
-/
import UbloxRead.UbxFrame

namespace UbloxRead

/-! ## Layout of `struct ubxAidAck_s` -/

def almAckOffset : Nat := 0
def almBufOffset : Nat := 32
def ephAckOffset : Nat := 33
def ephBufOffset : Nat := 65
def huiAckOffset : Nat := 66
def iniAckOffset : Nat := 67
def posllhAckOffset : Nat := 68

/-- `sizeof(struct ubxAidAck_s)`. -/
def UBX_AID_ACK_SIZE : Nat := 69

/-- `struct msgStrmCheck_s`, as far as it is used: the bytes of `ubxAidAck`. -/
structure MsgStrmCheck where
  ubxAidAck : Mem

namespace MsgStrmCheck

def almAck (chk : MsgStrmCheck) (i : Nat) : UInt8 := chk.ubxAidAck (almAckOffset + i)
def ephAck (chk : MsgStrmCheck) (i : Nat) : UInt8 := chk.ubxAidAck (ephAckOffset + i)
def huiAck (chk : MsgStrmCheck) : UInt8 := chk.ubxAidAck huiAckOffset
def iniAck (chk : MsgStrmCheck) : UInt8 := chk.ubxAidAck iniAckOffset
def posllhAck (chk : MsgStrmCheck) : UInt8 := chk.ubxAidAck posllhAckOffset

/-- Assignment of `1` to the byte at an offset. -/
def setOne (chk : MsgStrmCheck) (offset : Nat) : MsgStrmCheck :=
  { ubxAidAck := fun i => if i = offset then 1 else chk.ubxAidAck i }

/-- All flags zero, as `prep_monitoringStruct` leaves them. -/
def zero : MsgStrmCheck := { ubxAidAck := fun _ => 0 }

end MsgStrmCheck

/-! ## Setting and counting -/

/-- `getUbx_SVID`: satellite numbers above 32 become 33. -/
def getUbxSVID (mem : Mem) (msg : Nat) : Nat :=
  let svid := mem (msg + 6)
  if svid > 32 then 33 else svid.toNat

/-- `updateValidUbxMsgList`: `almAck[svid]` and `ephAck[svid]` are indexed with
up to 33, one past their overflow slots. -/
def updateValidUbxMsgList (mem : Mem) (ptr : Nat) (chk : MsgStrmCheck) : MsgStrmCheck :=
  let cls := getUbxMsgClass mem ptr
  let id := getUbxMsgId mem ptr
  let svid := getUbxSVID mem ptr
  if cls = UBX_CLASS_AID then
    if id = UBX_AID_INI then chk.setOne iniAckOffset
    else if id = UBX_AID_HUI then chk.setOne huiAckOffset
    else if id = UBX_AID_ALM then chk.setOne (almAckOffset + svid)
    else if id = UBX_AID_EPH then chk.setOne (ephAckOffset + svid)
    else chk
  else if cls = UBX_CLASS_NAV then
    if id = UBX_NAV_POSLLH then chk.setOne posllhAckOffset else chk
  else chk

/-- One `for` loop of `areThereMissingMessages`: count the zero entries of a
32-element flag array. -/
def countUnset (ack : Nat → UInt8) (m : Nat) : Nat :=
  (List.range 32).foldl (fun m i => if ack i = 0 then m + 1 else m) m

/-- `areThereMissingMessages`. -/
def areThereMissingMessages (chk : MsgStrmCheck) : Nat :=
  let m := 0
  let m := countUnset chk.almAck m
  let m := countUnset chk.ephAck m
  let m := if chk.iniAck = 0 then m + 1 else m
  let m := if chk.huiAck = 0 then m + 1 else m
  let m := if chk.posllhAck = 0 then m + 1 else m
  m

/-! ## What the flags are for -/

/-- An item the receiver is polled for: one flag each. -/
inductive AckFlag where
  | ini
  | hui
  | posllh
  | alm (s : Fin 32)
  | eph (s : Fin 32)
  deriving DecidableEq, Repr

/-- Where an item's flag is kept. -/
def AckFlag.offset : AckFlag → Nat
  | .ini => iniAckOffset
  | .hui => huiAckOffset
  | .posllh => posllhAckOffset
  | .alm s => almAckOffset + s
  | .eph s => ephAckOffset + s

def MsgStrmCheck.flag (chk : MsgStrmCheck) (g : AckFlag) : UInt8 := chk.ubxAidAck g.offset

/-- The class of the messages that carry an item. -/
def AckFlag.msgClass : AckFlag → UInt8
  | .posllh => UBX_CLASS_NAV
  | _ => UBX_CLASS_AID

/-- The id of the messages that carry an item. -/
def AckFlag.msgId : AckFlag → UInt8
  | .ini => UBX_AID_INI
  | .hui => UBX_AID_HUI
  | .posllh => UBX_NAV_POSLLH
  | .alm _ => UBX_AID_ALM
  | .eph _ => UBX_AID_EPH

/-- The satellite an item belongs to, if it belongs to one. -/
def AckFlag.sat : AckFlag → Option (Fin 32)
  | .alm s => some s
  | .eph s => some s
  | _ => none

/-- A frame that the check accepted, where it stands in memory. -/
structure AcceptedFrame where
  mem : Mem
  ptr : Nat
  left : Int
  accepted : 0 ≤ (parseUartInput4UbxMsg mem ptr left).1

namespace AcceptedFrame

def msgClass (f : AcceptedFrame) : UInt8 := getUbxMsgClass f.mem f.ptr
def msgId (f : AcceptedFrame) : UInt8 := getUbxMsgId f.mem f.ptr
def payloadLen (f : AcceptedFrame) : Nat := UbloxRead.payloadLen f.mem f.ptr

/-- The byte behind the header: the first payload byte when there is one. -/
def firstByte (f : AcceptedFrame) : UInt8 := f.mem (f.ptr + 6)

/-- The frame carries the item: its class and id, and for a satellite's item a
non-empty payload that starts with the satellite's number. -/
def Carries (f : AcceptedFrame) (g : AckFlag) : Prop :=
  f.msgClass = g.msgClass ∧ f.msgId = g.msgId ∧
    ∀ s ∈ g.sat, 0 < f.payloadLen ∧ f.firstByte.toNat = s

/-- The frame is an AID-ALM or AID-EPH frame that names no satellite up to 32:
an empty payload, or a first byte above 32. -/
def NamesNoSat (f : AcceptedFrame) : Prop :=
  f.msgClass = UBX_CLASS_AID ∧ (f.msgId = UBX_AID_ALM ∨ f.msgId = UBX_AID_EPH) ∧
    (f.payloadLen = 0 ∨ 32 < f.firstByte)

/-- Apply `updateValidUbxMsgList` to the frame. -/
def update (f : AcceptedFrame) (chk : MsgStrmCheck) : MsgStrmCheck :=
  updateValidUbxMsgList f.mem f.ptr chk

/-- The frame changes no flag but those of items it carries. -/
def SetsOnlyCarried (f : AcceptedFrame) : Prop :=
  ∀ chk g, (f.update chk).flag g ≠ chk.flag g → f.Carries g

end AcceptedFrame

/-- Apply `updateValidUbxMsgList` to one frame after the other. -/
def updateAll (frames : List AcceptedFrame) (chk : MsgStrmCheck) : MsgStrmCheck :=
  frames.foldl (fun chk f => f.update chk) chk

/-- Every flag tells whether a frame with its item occurred. -/
def AcksExact (frames : List AcceptedFrame) (chk : MsgStrmCheck) : Prop :=
  ∀ g, chk.flag g = 1 ↔ ∃ f ∈ frames, f.Carries g

end UbloxRead
