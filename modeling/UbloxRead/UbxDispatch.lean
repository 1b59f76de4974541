/-
UbloxRead.UbxDispatch — the dispatcher of `ubx.c`.

`ubx_msg_dispatch` checks a frame a second time, on its own, and hands it to the
handler the table has for its class and id. A handler is a value of any type
`H`; a call of it is recorded with its arguments, so that what was run is part
of the result.
-/
import UbloxRead.UbxFrame

namespace UbloxRead

universe u

variable {H : Type u}

/-- `struct ubx_dispatch_entry`; a handler `none` is NULL. -/
structure DispatchEntry (H : Type u) where
  msgClass : UInt8
  msgId : UInt8
  handler : Option H
  deriving DecidableEq

/-- A handler run with its arguments but `userdata`, which is passed on. -/
structure HandlerCall (H : Type u) where
  handler : H
  hdr : Nat
  payload : Nat
  payloadLen : Nat
  deriving DecidableEq

/-- `ubx_find_handler`: NULL when the walk meets a NULL handler, and no outcome
when it leaves the table. -/
def ubxFindHandler : List (DispatchEntry H) → UInt8 → UInt8 → Option (Option H)
  | [], _, _ => none
  | e :: dt, msgClass, msgId =>
    match e.handler with
    | none => some none
    | some h =>
      if e.msgClass = msgClass ∧ e.msgId = msgId then some (some h)
      else ubxFindHandler dt msgClass msgId

/-- `ubx_msg_dispatch`: the return value and the handler run. The number of
bytes `len` is never looked at. -/
def ubxMsgDispatch (dt : List (DispatchEntry H)) (mem : Mem) (msg : Nat) (_len : Int) :
    Option (Int × Option (HandlerCall H)) :=
  if mem msg ≠ UBX_SYNC0 ∨ mem (msg + 1) ≠ UBX_SYNC1 then some (-1, none)
  else
    let cksum := ubxChecksum mem (msg + 2) (UBX_HDR_SIZE + payloadLen mem msg - 2)
    let cksumPtr := msg + (UBX_HDR_SIZE + payloadLen mem msg)
    if mem cksumPtr ≠ cksum.1 ∨ mem (cksumPtr + 1) ≠ cksum.2 then some (-1, none)
    else do
      let h ← ubxFindHandler dt (getUbxMsgClass mem msg) (getUbxMsgId mem msg)
      return ((UBX_HDR_SIZE + payloadLen mem msg + 2 : Nat),
        h.map fun h => ⟨h, msg, msg + UBX_HDR_SIZE, payloadLen mem msg⟩)

/-! ## What a table says -/

/-- The first entry of a table for a class and an id, up to its NULL handler. -/
def entryFor (dt : List (DispatchEntry H)) (msgClass msgId : UInt8) : Option (DispatchEntry H) :=
  (dt.takeWhile (·.handler.isSome)).find? fun e => e.msgClass = msgClass ∧ e.msgId = msgId

/-- The call a frame at `msg` is due: the handler of the first entry for its
class and id, on its payload. -/
def callFor (dt : List (DispatchEntry H)) (mem : Mem) (msg : Nat) : Option (HandlerCall H) :=
  ((entryFor dt (getUbxMsgClass mem msg) (getUbxMsgId mem msg)).bind (·.handler)).map
    fun h => ⟨h, msg, msg + 6, payloadLen mem msg⟩

/-- The dispatcher and the parser agree on a frame: the same accepted lengths,
nothing run on what the parser rejects, and on acceptance the one call due. -/
structure FramingAgrees (dt : List (DispatchEntry H)) (mem : Mem) (msg : Nat) (len : Int) : Prop where
  lengths : ∀ k : Int, 0 < k →
    ((∃ call, ubxMsgDispatch dt mem msg len = some (k, call)) ↔
      (parseUartInput4UbxMsg mem msg len).1 = k)
  rejects : (parseUartInput4UbxMsg mem msg len).1 < 0 →
    ubxMsgDispatch dt mem msg len = some (-1, none)
  accepts : 0 < (parseUartInput4UbxMsg mem msg len).1 →
    ubxMsgDispatch dt mem msg len
      = some ((parseUartInput4UbxMsg mem msg len).1, callFor dt mem msg)

end UbloxRead
