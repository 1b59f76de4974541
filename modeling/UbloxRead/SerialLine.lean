/-
UbloxRead.SerialLine — the bytes that `serial_f` puts on the serial line.

`serial_f` hands `write` the front message from its first byte, and `write` puts
as many of the bytes on the line as it returns. Only a return value of the full
length makes `serial_f` remove the message; after a shorter one nothing is
remembered of what was sent, and the message is handed over whole again. In the
terms of `Lib.Attempts` the messages are the items and the writes the attempts.
-/
import UbloxRead.Serial
import UbloxRead.Lib.Attempts

namespace UbloxRead

open Lib

/-- The bytes that `serial_f` hands to `write`. -/
def TxMsg.wire (msg : TxMsg) : List UInt8 := msg.bytes.take msg.writeLen

/-- `write` returns -1, or how many of the bytes it was handed it sent. A NULL
message has none. -/
def WriteOk (c : TxState) : TxEvent → Prop
  | .serial t => ∀ p msg, c.pc = .write p → c.blocks.read p = some msg →
      t = -1 ∨ (0 ≤ t ∧ t ≤ msg.wire.length)
  | _ => True

/-- The calls of `write` in a run, with their results. -/
def writes (answers : List TxAnswer) : List (TxMsg × Int) :=
  answers.filterMap fun
    | .wrote msg t => some (msg, t)
    | _ => none

/-- The bytes that a run put on the serial line. -/
def lineBytes (answers : List TxAnswer) : List UInt8 :=
  (writes answers).flatMap fun w => w.1.wire.take w.2.toNat

/-- The bytes to send, message by message. -/
def wires (answers : List TxAnswer) : List (List UInt8) := (pushedMsgs answers).map TxMsg.wire

/-- A call of `write` as an attempt to send the front message. -/
def writeAttempt (w : TxMsg × Int) : Attempt := ⟨w.2.toNat, decide (FullWrite w.1 w.2)⟩

/-- The bytes on the line, each with the number of its message and its offset. -/
def linePlaces (answers : List TxAnswer) : List ((Nat × Nat) × UInt8) :=
  Attempt.line (Attempt.placed 0 (wires answers)) ((writes answers).map writeAttempt)

/-- The line carries the queued messages in order, no byte twice and none cut
out: a prefix of their bytes, also when equal bytes of different places are told
apart. -/
structure LineExact (answers : List TxAnswer) : Prop where
  bytes : lineBytes answers <+: (pushedMsgs answers).flatMap TxMsg.wire
  places : linePlaces answers <+: (Attempt.placed 0 (wires answers)).flatten

/-- Of the writes that sent anything, only the last one may be short. -/
def OnlyLastShort (answers : List TxAnswer) : Prop :=
  ((writes answers).filter fun w => 0 < w.2).Pairwise fun w _ => FullWrite w.1 w.2

instance (answers : List TxAnswer) : Decidable (OnlyLastShort answers) :=
  inferInstanceAs (Decidable (List.Pairwise ..))

end UbloxRead
