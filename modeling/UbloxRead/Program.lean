/-
UbloxRead.Program — `main.c` as a whole: both threads, the transmit queue and
the receive buffer.

`controlMachine` has the accesses of `control_f` to the ring buffers, and lets
waiting take any time; `txMachine` has the transmit queue, and lets `control_f`
push what it likes. Here the two are one program. `control_f` queues a batch
of messages, one call of a generator and one `push_back` at a time, waits until
`size` is 0, and then makes its next access of the ring buffer. `serial_f` goes
round its sending half and its `read`.

A `ProgramEvent` is the next step of one of the threads, with what the
operating system answers in it: the two blocks that `malloc` returns for a
message, and the results of `write` and `read`. So a list of events is one
interleaving.
-/
import UbloxRead.Control
import UbloxRead.SerialLine
import UbloxRead.UbxCommands

namespace UbloxRead

open Lib

/-! ## States -/

/-- Where `control_f` stands on the way to its next access of the ring buffers:
with calls of generators still to make, in `while( size(llistTxCommands) )`, or
behind it. -/
inductive PrepPc where
  | push (calls : List MsgCall)
  | wait
  | ready
  deriving DecidableEq, Repr

/-- `struct monitor_s` and what the threads have in hand. `tx` is the transmit
queue and the sending half of `serial_f`, `control` the ring buffers and
`control_f`; `reading` says that `serial_f` is before its `read`. -/
structure Program where
  tx : TxState
  control : Control
  prep : PrepPc
  reading : Bool
  ticksBtwReceive : UInt8

/-- The messages queued before the next access: the silencers, the AID polls, or
the polls for what is missing. -/
def batch (c : Control) : List MsgCall :=
  match c.pc with
  | .silence => nmeaSilencers
  | .poll .aid => aidPolls
  | .poll (.missing _) => missingPolls c.msgChk
  | _ => []

/-- The call that queues them. -/
def prepMsgs (c : Control) (h : TxHeap) : Option TxHeap :=
  match c.pc with
  | .silence => (prepNmeaSilencerMsgs h).map Prod.fst
  | .poll .aid => (prepAidPollMsgs h).map Prod.fst
  | .poll (.missing _) => prepAidMissingPollMsgs h c.msgChk
  | _ => some h

/-- Before an access that a batch precedes, `control_f` queues it. -/
def prepFor (c : Control) : PrepPc :=
  match c.pc with
  | .silence => .push (batch c)
  | .poll _ => .push (batch c)
  | _ => .ready

/-- The state in which `main` starts the threads. -/
def programStart (heap : Heap Ptr) (heapIn heapMsg stack : Mem) : Program where
  tx := txStart heap
  control := prepMonitoringStruct heapIn heapMsg stack
  prep := prepFor (prepMonitoringStruct heapIn heapMsg stack)
  reading := false
  ticksBtwReceive := 0

/-! ## Steps -/

/-- What `malloc` returns for a message and for its node, and what it leaves in
the message's block. -/
structure Mallocs where
  message : Ptr
  node : Ptr
  fill : UInt8

inductive ProgramEvent where
  | control (mallocs : Mallocs)
  | serial (t : Int) (r : Option Chunk)

/-- What a step shows: what happened to the queue, the round that an access of
`control_f` ended, or what `read` returned. -/
inductive ProgramAnswer where
  | tx (answer : TxAnswer)
  | control (round : Option Round)
  | read (r : Option Chunk)

/-- The heap as a generator and `push_back` find it: the first `malloc` is for
the message. -/
def TxState.heap (c : TxState) (mallocs : Mallocs) : TxHeap where
  ll := c.ll
  blocks := c.blocks
  mallocs := fun k _ => if k = 0 then mallocs.message else mallocs.node
  calls := 0
  fill := mallocs.fill

/-- The next step of `control_f`. -/
def controlFStep (s : Program) (mallocs : Mallocs) : Option (Program × ProgramAnswer) :=
  match s.prep with
  | .push (call :: calls) => do
      let (ubxMsg, h) ← call.gen (s.tx.heap mallocs)
      let h ← h.pushBack ubxMsg
      some ({ s with tx := { s.tx with ll := h.ll, blocks := h.blocks }, prep := .push calls },
        .tx (.pushed { ptr := ubxMsg, block := h.blocks ubxMsg }))
  | .push [] => some ({ s with prep := .wait }, .control none)
  | .wait =>
      some ({ s with prep := if size s.tx.ll = 0 then .ready else .wait }, .tx (.saw (size s.tx.ll)))
  | .ready =>
      (controlStep s.control).map fun (c, round) =>
        ({ s with control := c, prep := prepFor c }, .control round)

/-- The next step of `serial_f`: of its sending half, which ends where it began,
or the `read` behind it. -/
def serialFStep (s : Program) (t : Int) (r : Option Chunk) : Option (Program × ProgramAnswer) :=
  if s.reading then
    match r with
    | some chunk =>
        some ({ s with control := serialReceive s.control chunk, reading := false,
                       ticksBtwReceive := 0 }, .read r)
    | none =>
        some ({ s with reading := false, ticksBtwReceive := s.ticksBtwReceive + 1 }, .read r)
  else
    (serialStep s.tx t).map fun (tx, answer) =>
      ({ s with tx := tx, reading := decide (tx.pc = .size) }, .tx answer)

/-- Both threads, one atomic step at a time. -/
def programMachine : Machine Program ProgramEvent ProgramAnswer
  | s, .control mallocs => controlFStep s mallocs
  | s, .serial t r => serialFStep s t r

/-- `malloc` gives addresses where nothing lives: one for the node, and one for
the message unless it failed. -/
def ProgramMallocOk (s : Program) : ProgramEvent → Prop
  | .control mallocs => ∀ call calls, s.prep = .push (call :: calls) →
      (mallocs.node ≠ NULL ∧ s.tx.ll.heap mallocs.node = none) ∧
        (mallocs.message ≠ NULL → s.tx.blocks mallocs.message = none)
  | .serial _ _ => True

/-- `write` returns -1, or how many of the bytes it was handed it sent. -/
def ProgramWriteOk (s : Program) : ProgramEvent → Prop
  | .serial t _ => s.reading = false → WriteOk s.tx (.serial t)
  | .control _ => True

/-- The steps of `control_f` for these calls when `malloc` has answered `k` times:
each call takes one answer for its message, and one for the node. -/
def callEvents (mallocs : Nat → Nat → Ptr) (fill : UInt8) (k : Nat) : List MsgCall → List ProgramEvent
  | [] => []
  | call :: calls =>
      .control { message := mallocs k call.frame.bytes.length
                 node := mallocs (k + 1) NODE_SIZE
                 fill := fill } :: callEvents mallocs fill (k + 2) calls

/-! ## What runs are about -/

/-- What happened to the queue. -/
def txAnswers (answers : List ProgramAnswer) : List TxAnswer :=
  answers.filterMap fun
    | .tx answer => some answer
    | _ => none

/-- The rounds of a run. -/
def programRounds (answers : List ProgramAnswer) : List Round :=
  answers.filterMap fun
    | .control round => round
    | _ => none

/-- The bytes received in a run. -/
def programReceived (answers : List ProgramAnswer) : List UInt8 :=
  answers.flatMap fun
    | .read (some chunk) => chunk.bytes
    | _ => []

end UbloxRead
