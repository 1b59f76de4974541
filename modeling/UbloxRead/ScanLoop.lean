/-
UbloxRead.ScanLoop — the loop of `main.c` that looks for frames in the
scratchpad.

`getAidMessages` and `getMissingMessages` hold the same loop, so it is modelled
once. Where the frame check accepts, the loop copies the frame to `rbUbxMsg_p`,
updates the acknowledgement flags and moves behind the frame; elsewhere it
moves one byte. The return value of `ringbuffer_write` is not looked at by the
code; the model notes it beside the frame, so that what became of the frame can
be told.
-/
import UbloxRead.RingBuf
import UbloxRead.UbxAck
import UbloxRead.Lib.Loop

namespace UbloxRead

open Lib

/-- A frame the loop took: `len` bytes at `scratchpad + pos`, for which
`ringbuffer_write` returned `ret`. -/
structure TakenFrame where
  pos : Nat
  len : Nat
  ret : Nat
  deriving DecidableEq, Repr

/-- The range of the scratchpad that a frame was taken from. -/
def TakenFrame.span (f : TakenFrame) : Nat × Nat := (f.pos, f.len)

/-- What the loop works on, and the frames it took so far. -/
structure ScanState where
  scratchpad : Mem
  rbUbxMsg : Ringbuffer
  msgChk : MsgStrmCheck
  i : Nat
  taken : List TakenFrame

/-- The loop's state on entry. -/
def scanStart (scratchpad : Mem) (rbUbxMsg : Ringbuffer) (msgChk : MsgStrmCheck) : ScanState where
  scratchpad := scratchpad
  rbUbxMsg := rbUbxMsg
  msgChk := msgChk
  i := 0
  taken := []

/-- One round of `for (int i = 0; i < rb_size; )`; `none` leaves the loop. -/
def scanBody (rbSize : Int) (s : ScanState) : Option ScanState :=
  if (s.i : Int) < rbSize then
    let (rv, scratchpad) := parseUartInput4UbxMsg s.scratchpad s.i (rbSize - s.i)
    if rv < 0 then
      some { s with scratchpad := scratchpad, i := s.i + 1 }
    else
      let w := ringbufferWrite s.rbUbxMsg (fun k => scratchpad (s.i + k)) rv.toNat
      some { scratchpad := scratchpad
             rbUbxMsg := w.rb
             msgChk := updateValidUbxMsgList scratchpad s.i s.msgChk
             i := s.i + rv.toNat
             taken := s.taken ++ [{ pos := s.i, len := rv.toNat, ret := w.ret }] }
  else none

/-- The loop, for at most `fuel` tests of its condition. -/
def scanLoop (rbSize : Int) (fuel : Nat) (s : ScanState) : Option ScanState :=
  whileLoop (scanBody rbSize) fuel s

end UbloxRead
