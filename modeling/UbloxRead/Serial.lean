/-
UbloxRead.Serial — the transmit queue between `control_f` and the sending half
of `serial_f`.

`control_f` allocates messages and appends them with `push_back`, and waits
until `size` is 0. `serial_f` goes round `size`, `front`, `write` and, after a
complete write, `remove_front`. Each list operation is atomic under the list's
mutex, so a list of `TxEvent`s is one interleaving. The result of `write` is
an argument of the event, because it is the operating system's.

A message block is live from `malloc` to `freeNode`. A step that would read or
free a dead one has no outcome. The count of the queue has no bound here: the
program never queues more than 67 messages, and up to `INT_MAX` of them a count
of 32 bits is the same (`program_list_agrees`).
-/
import UbloxRead.LinkedList
import UbloxRead.UbxFrame

namespace UbloxRead

open Lib

/-- A message as `control_f` pushes it: the block's address and the bytes in it.
When `malloc` failed there is no block, and NULL is pushed. -/
structure TxMsg where
  ptr : Ptr
  block : Option (List UInt8)
  deriving DecidableEq, Repr

/-- The bytes of the live message blocks. -/
abbrev TxBlocks := Ptr → Option (List UInt8)

/-- The bytes of a message; NULL has none. -/
def TxMsg.bytes (msg : TxMsg) : List UInt8 := msg.block.getD []

/-- Where `serial_f` stands: before `size`, before `front`, before `write` with
`ubxMsg_p` in hand, or before `remove_front`. -/
inductive SerialPc where
  | size
  | front
  | write (ubxMsg : Ptr)
  | remove
  deriving DecidableEq, Repr

/-- The queue, the message blocks, and the sending half of `serial_f`. -/
structure TxState where
  ll : LList
  blocks : TxBlocks
  pc : SerialPc
  pauseBtwSend : UInt8

/-- The state in which `main` starts the threads. -/
def txStart (heap : Heap Ptr) : TxState where
  ll := createList heap
  blocks := fun _ => none
  pc := .size
  pauseBtwSend := 0

inductive TxEvent where
  | push (n : Ptr) (msg : TxMsg)
  | size
  | serial (t : Int)

/-- What a step shows. A write is reported with its result. -/
inductive TxAnswer where
  | quiet
  | pushed (msg : TxMsg)
  | saw (size : Nat)
  | wrote (msg : TxMsg) (t : Int)
  | removed (msgs : List TxMsg)
  deriving DecidableEq, Repr

/-! ## Messages -/

/-- The message at `ubxMsg_p`; only NULL and live blocks can be read. -/
def TxBlocks.read (blocks : TxBlocks) (p : Ptr) : Option TxMsg :=
  if p = NULL then some { ptr := NULL, block := none }
  else (blocks p).map fun bytes => { ptr := p, block := some bytes }

/-- `freeNode`: freeing NULL does nothing. -/
def freeNode (blocks : TxBlocks) (p : Ptr) : Option TxBlocks :=
  if p = NULL then some blocks
  else (blocks p).map fun _ q => if q = p then none else blocks q

/-- `getUbx_MsgLength(ubxMsg_p)`. -/
def TxMsg.payloadLen (msg : TxMsg) : Nat :=
  getUbxMsgLength (memOfList msg.bytes) (if msg.block = none then none else some 0)

/-- The number of bytes `serial_f` asks `write` to send. -/
def TxMsg.writeLen (msg : TxMsg) : Nat := UBX_HDR_SIZE + msg.payloadLen + 2

/-- `t == sizeof(struct ubx_hdr) + payloadLen + 2`. -/
def FullWrite (msg : TxMsg) (t : Int) : Prop := sizeOfInt t = msg.writeLen

instance (msg : TxMsg) (t : Int) : Decidable (FullWrite msg t) := inferInstanceAs (Decidable (_ = _))

/-! ## Steps -/

/-- The end of the `if` in `serial_f`: `pauseBtwSend = 0; … pauseBtwSend += 1`. -/
def TxState.afterSend (c : TxState) : TxState := { c with pc := .size, pauseBtwSend := 0 + 1 }

/-- The next step of the sending half of `serial_f`; `t` is what `write` returns
if that is the step. -/
def serialStep (c : TxState) (t : Int) : Option (TxState × TxAnswer) :=
  match c.pc with
  | .size =>
      if 0 < size c.ll ∧ c.pauseBtwSend ≥ 2 then some ({ c with pc := .front }, .quiet)
      else some ({ c with pauseBtwSend := c.pauseBtwSend + 1 }, .quiet)
  | .front => (front c.ll).map fun p => ({ c with pc := .write p }, .quiet)
  | .write p =>
      (c.blocks.read p).map fun msg =>
        if FullWrite msg t then ({ c with pc := .remove }, .wrote msg t)
        else (c.afterSend, .wrote msg t)
  | .remove => do
      let (ll, answer) ← removeFront c.ll
      let msgs ← answer.passed.mapM c.blocks.read
      let blocks ← answer.passed.foldlM freeNode c.blocks
      some (({ c with ll := ll, blocks := blocks } : TxState).afterSend, .removed msgs)

/-- `control_f` appends a message. -/
def controlPush (c : TxState) (n : Ptr) (msg : TxMsg) : Option (TxState × TxAnswer) :=
  (pushBack c.ll n msg.ptr).map fun ll =>
    ({ c with
        ll := ll
        blocks := fun p => if p = msg.ptr then msg.block else c.blocks p },
      .pushed msg)

/-- Both threads, one atomic step at a time. -/
def txMachine : Machine TxState TxEvent TxAnswer
  | c, .push n msg => controlPush c n msg
  | c, .size => some (c, .saw (size c.ll))
  | c, .serial t => serialStep c t

/-- `malloc` gives addresses where nothing lives: one for the node, and one for
the message unless it failed and NULL is pushed. -/
def TxMallocOk (c : TxState) : TxEvent → Prop
  | .push n msg => (n ≠ NULL ∧ c.ll.heap n = none) ∧ (msg.ptr = NULL ↔ msg.block = none) ∧
      c.blocks msg.ptr = none
  | _ => True

/-! ## What runs are about -/

def pushedMsgs (answers : List TxAnswer) : List TxMsg :=
  answers.filterMap fun
    | .pushed msg => some msg
    | _ => none

/-- The messages that the events push. -/
def pushEvents (events : List TxEvent) : List TxMsg :=
  events.filterMap fun
    | .push _ msg => some msg
    | _ => none

/-- The messages for which `write` returned the full length. -/
def writtenMsgs (answers : List TxAnswer) : List TxMsg :=
  answers.filterMap fun
    | .wrote msg t => if FullWrite msg t then some msg else none
    | _ => none

/-- The messages whose node was removed and freed. -/
def removedMsgs (answers : List TxAnswer) : List TxMsg :=
  answers.flatMap fun
    | .removed msgs => msgs
    | _ => []

/-- Whenever `control_f`'s `size` was 0, everything pushed until then had been
written. -/
def WrittenAtZero (answers : List TxAnswer) : Prop :=
  ∀ before after, answers = before ++ .saw 0 :: after → writtenMsgs before = pushedMsgs before

/-- The queue holds these messages, in order, and their blocks are live. -/
structure TxQueue (ll : LList) (blocks : TxBlocks) (queue : List TxMsg) : Prop where
  list : HoldsSequence ll (queue.map TxMsg.ptr)
  live : ∀ msg ∈ queue, blocks msg.ptr = msg.block ∧ (msg.ptr = NULL ↔ msg.block = none)

/-- How what is queued, removed, completely written and not yet written relate at
each place of `serial_f`. Only between a complete write and its
`remove_front` is a written message still queued, in front. -/
def TxPhase (queue removed written rest : List TxMsg) : SerialPc → Prop
  | .size => queue = rest ∧ removed = written
  | .front => queue = rest ∧ removed = written ∧ queue ≠ []
  | .write p => queue = rest ∧ removed = written ∧ ∃ msg ∈ queue.head?, msg.ptr = p
  | .remove => ∃ msg, queue = msg :: rest ∧ written = removed ++ [msg]

end UbloxRead
