/-
UbloxRead.Receiver — what the receiving side is for.

Here there are no pointers and no memory. Bytes wait in a queue with room for
`RINGBUFFER_SIZE` of them; a round takes those that were there when it sampled;
the frames among them set the flags and are stored while there is room. This is
the purpose of `control_f` and of its ring buffers, to be compared with what the
code does.
-/
import UbloxRead.UbxFormat
import UbloxRead.Rounds
import UbloxRead.StoreTheorems

namespace UbloxRead

open Lib

/-- The receiving side. -/
structure Receiver where
  pc : ControlPc
  queue : List UInt8
  chk : MsgStrmCheck
  stored : List UbxFrame

/-- Nothing received, nothing acknowledged. -/
def receiverStart : Receiver where
  pc := .silence
  queue := []
  chk := .zero
  stored := []

namespace Receiver

/-- The chunk fits behind the bytes that wait. -/
def HasRoom (r : Receiver) (chunk : Chunk) : Prop :=
  chunk.bytes.length ≤ RINGBUFFER_SIZE - r.queue.length

instance (r : Receiver) (chunk : Chunk) : Decidable (r.HasRoom chunk) :=
  inferInstanceAs (Decidable (_ ≤ _))

/-- A chunk is queued whole, or dropped. -/
def receive (r : Receiver) (chunk : Chunk) : Receiver :=
  if r.HasRoom chunk then { r with queue := r.queue ++ chunk.bytes } else r

/-- A round takes the first `n` bytes. -/
def takeRound (r : Receiver) (kind : RoundKind) (n : Nat) : Receiver where
  pc := .check kind.next
  queue := r.queue.drop n
  chk := updateAll ((deframe (r.queue.take n)).map UbxFrame.alone) r.chk
  stored := (deframe (r.queue.take n)).foldl storeFrame r.stored

/-- The next step, with the bytes that a round took. -/
def step (r : Receiver) : Receiver × Option (List UInt8) :=
  match r.pc with
  | .silence => ({ r with pc := .poll .aid, queue := [] }, none)
  | .poll kind => ({ r with pc := .read kind r.queue.length }, none)
  | .read kind n => (r.takeRound kind n, some (r.queue.take n))
  | .check j => ({ r with pc := .poll (kindAt j r.chk) }, none)

end Receiver

/-- Steps and chunks, in any order. -/
def receiverMachine : Machine Receiver ControlEvent (Option (List UInt8))
  | r, .control => some r.step
  | r, .receive chunk => some (r.receive chunk, none)

/-- The chunks whose bytes are queued or read: one that has room is kept whole, and
`ringbuffer_clear` gives up those before it. -/
def keepChunk (c : Control) (kept : List Chunk) : ControlEvent → List Chunk
  | .receive chunk =>
      if chunk.bytes.length ≤ c.rbUartIn.size - c.rbUartIn.fill then kept ++ [chunk] else kept
  | .control => if c.pc = .silence then [] else kept

/-- The chunks received in a run. -/
def chunksOf (events : List ControlEvent) : List Chunk :=
  events.filterMap fun
    | .control => none
    | .receive chunk => some chunk

end UbloxRead
