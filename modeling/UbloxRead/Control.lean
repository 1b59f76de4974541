/-
UbloxRead.Control — `control_f` of `main.c` and the bytes the serial thread
hands it.

`control_f` goes from one access of the shared ring buffer `rbUartIn_p` to the
next: it clears it once, and then in every round samples `ringbuffer_currentSize`
and reads that many bytes. Between any two of these the serial thread may put a
chunk in. A `ControlEvent` is one of the two threads' next access, so a list of
events is one interleaving.

`rbUbxMsg_p` and `msgChk` belong to `control_f` alone. What happens with the
transmit queue while `control_f` waits is not part of this machine: waiting
ends at some time, with any bytes received meanwhile.
-/
import UbloxRead.ScanLoop
import UbloxRead.Lib.Run

namespace UbloxRead

open Lib

def SCRATCHPAD_BUF_SIZE : Nat := 5000

/-- The most that `serial_f` asks `read` for. -/
def UART_READ_MAX : Nat := 100

/-! ## States -/

/-- `getAidMessages`, or `getMissingMessages` in round `j` of the `for` loop. -/
inductive RoundKind where
  | aid
  | missing (j : Nat)
  deriving DecidableEq, Repr

/-- The value of `j` at the loop's next test. -/
def RoundKind.next : RoundKind → Nat
  | .aid => 0
  | .missing j => j + 1

/-- Where `control_f` stands: before `ringbuffer_clear`, waiting for the polls
to be sent, between `ringbuffer_currentSize` and `ringbuffer_read`, or at the
test of the `for` loop. -/
inductive ControlPc where
  | silence
  | poll (kind : RoundKind)
  | read (kind : RoundKind) (rbSize : Nat)
  | check (j : Nat)
  deriving DecidableEq, Repr

/-- What `control_f` works on. -/
structure Control where
  pc : ControlPc
  scratchpad : Mem
  rbUartIn : Ringbuffer
  rbUbxMsg : Ringbuffer
  msgChk : MsgStrmCheck

/-- `prep_monitoringStruct` and the `memset` of the scratchpad; the arguments
are what `malloc` and the stack held. -/
def prepMonitoringStruct (heapIn heapMsg stack : Mem) : Control where
  pc := .silence
  scratchpad := memset stack 0 0 SCRATCHPAD_BUF_SIZE
  rbUartIn := ringbufferInit heapIn
  rbUbxMsg := ringbufferInit heapMsg
  msgChk := .zero

/-! ## Steps -/

/-- What one `read` of the serial port returned: at least one byte. -/
structure Chunk where
  bytes : List UInt8
  pos : 0 < bytes.length
  le : bytes.length ≤ UART_READ_MAX

inductive ControlEvent where
  | control
  | receive (chunk : Chunk)

/-- One round: how many bytes were read, the scratchpad they were read to, and
the frames taken from it. -/
structure Round where
  rbSize : Nat
  scratchpad : Mem
  taken : List TakenFrame

/-- `silenceNmea`, from its `ringbuffer_clear` on. -/
def silenceNmea (c : Control) : Control :=
  { c with pc := .poll .aid, rbUartIn := ringbufferClear c.rbUartIn }

/-- The part of `getAidMessages` and `getMissingMessages` from `ringbuffer_read`
on: read, scan, clear the scratchpad. -/
def readAndScan (kind : RoundKind) (rbSize : Nat) (c : Control) : Option (Control × Round) :=
  let r := ringbufferRead c.rbUartIn c.scratchpad rbSize
  (scanLoop rbSize (rbSize + 1) (scanStart r.buf c.rbUbxMsg c.msgChk)).map fun s =>
    ({ pc := .check kind.next
       scratchpad := memset s.scratchpad 0 0 SCRATCHPAD_BUF_SIZE
       rbUartIn := r.rb
       rbUbxMsg := s.rbUbxMsg
       msgChk := s.msgChk },
     { rbSize := rbSize, scratchpad := r.buf, taken := s.taken })

/-- The next access of `control_f`. -/
def controlStep (c : Control) : Option (Control × Option Round) :=
  match c.pc with
  | .silence => some (silenceNmea c, none)
  | .poll kind => some ({ c with pc := .read kind (ringbufferCurrentSize c.rbUartIn) }, none)
  | .read kind rbSize => (readAndScan kind rbSize c).map fun (c, round) => (c, some round)
  | .check j =>
      if j < 3 ∧ areThereMissingMessages c.msgChk ≠ 0 then
        -- `getMissingMessages` begins with the `memset`
        some ({ c with
          pc := .poll (.missing j)
          scratchpad := memset c.scratchpad 0 0 SCRATCHPAD_BUF_SIZE }, none)
      else some ({ c with pc := .poll .aid }, none)

/-- `serial_f` puts what it read into `rbUartIn_p`; the result of
`ringbuffer_write` is not looked at. -/
def serialReceive (c : Control) (chunk : Chunk) : Control :=
  { c with rbUartIn := (ringbufferWrite c.rbUartIn (memOfList chunk.bytes) chunk.bytes.length).rb }

/-- The two threads, one access at a time. A step that ends a round answers
with it. -/
def controlMachine : Machine Control ControlEvent (Option Round)
  | c, .control => controlStep c
  | c, .receive chunk => some (serialReceive c chunk, none)

/-! ## What runs are about -/

/-- The bytes received during a run. -/
def received (events : List ControlEvent) : List UInt8 :=
  events.flatMap fun
    | .control => []
    | .receive chunk => chunk.bytes

/-- The rounds of a run. -/
def roundsOf (answers : List (Option Round)) : List Round := answers.filterMap id

/-- A frame for which `updateValidUbxMsgList` was called: its bytes and what
`ringbuffer_write` returned for it. -/
structure AckedFrame where
  bytes : List UInt8
  ret : Nat
  deriving DecidableEq

/-- The frame went into `rbUbxMsg_p`, all of it. -/
def AckedFrame.StoredWhole (f : AckedFrame) : Prop := f.ret = f.bytes.length

instance (f : AckedFrame) : Decidable f.StoredWhole := inferInstanceAs (Decidable (_ = _))

def Round.acked (r : Round) : List AckedFrame :=
  r.taken.map fun f => { bytes := slice r.scratchpad f.pos f.len, ret := f.ret }

/-- All frames acknowledged in a run, in order. -/
def ackedFrames (answers : List (Option Round)) : List AckedFrame :=
  (roundsOf answers).flatMap Round.acked

/-- A frame recovered from the stream of received bytes: where it starts in the
stream, and its bytes. -/
structure StreamFrame where
  offset : Nat
  bytes : List UInt8
  deriving DecidableEq, Repr

def Round.bytes (r : Round) : List UInt8 := slice r.scratchpad 0 r.rbSize

/-- The frames of a round whose bytes begin at `offset` in the stream. -/
def Round.frames (offset : Nat) (r : Round) : List StreamFrame :=
  r.taken.map fun f => { offset := offset + f.pos, bytes := slice r.scratchpad f.pos f.len }

/-- The frames of successive rounds, one after the other. -/
def roundsFrames : Nat → List Round → List StreamFrame
  | _, [] => []
  | offset, r :: rounds => r.frames offset ++ roundsFrames (offset + r.rbSize) rounds

/-- Where in the stream successive rounds end. -/
def roundEnds : Nat → List Round → List Nat
  | _, [] => []
  | offset, r :: rounds => (offset + r.rbSize) :: roundEnds (offset + r.rbSize) rounds

/-- Where `control_f` stands after `silenceNmea`, as far as the order of its
accesses goes; `cut` is the number of bytes received when it sampled. -/
inductive RoundPhase where
  | sample
  | read (cut : Nat)
  | check
  deriving DecidableEq, Repr

/-- What the events alone tell: the number of bytes received, and for every
finished round how many there were at its `ringbuffer_currentSize`. -/
structure RoundClock where
  phase : RoundPhase
  received : Nat
  cuts : List Nat

def RoundClock.start : RoundClock := { phase := .sample, received := 0, cuts := [] }

def RoundClock.tick (clock : RoundClock) : ControlEvent → RoundClock
  | .receive chunk => { clock with received := clock.received + chunk.bytes.length }
  | .control =>
      match clock.phase with
      | .sample => { clock with phase := .read clock.received }
      | .read cut => { clock with phase := .check, cuts := clock.cuts ++ [cut] }
      | .check => { clock with phase := .sample }

/-- Where in the stream the finished rounds cut it. -/
def roundCuts (events : List ControlEvent) : List Nat :=
  (events.foldl RoundClock.tick RoundClock.start).cuts

/-- The frames of one scan loop. -/
def ScanState.frames (s : ScanState) : List StreamFrame :=
  s.taken.map fun f => { offset := f.pos, bytes := slice s.scratchpad f.pos f.len }

end UbloxRead
