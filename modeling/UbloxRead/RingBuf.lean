/-
UbloxRead.RingBuf — `ringBuf.c`: the byte ring buffer between the serial
thread and the control thread.

`rb->read` and `rb->write` are offsets from `rb->buffer`. Each operation runs
under the buffer's mutex, so it is one atomic step. Besides its result an
operation reports the ring side of every `memcpy` it performs, as a range of
offsets from `rb->buffer`: the copies are the only accesses to the buffer
whose bounds are not constant.
-/
import UbloxRead.Memory
import UbloxRead.Lib.Run

namespace UbloxRead

open Lib

def RINGBUFFER_SIZE : Nat := 5000

/-- `struct ringbuffer_s`, without its mutex. -/
structure Ringbuffer where
  buffer : Mem
  size : Nat
  fill : Nat
  read : Nat
  write : Nat

/-- The ring side of one `memcpy`: `len` bytes from `rb->buffer + start`. -/
structure RingRange where
  start : Nat
  len : Nat
  deriving DecidableEq, Repr

/-- What a call leaves behind: the buffer, the caller's block (written by a
read only), the return value and the ring ranges copied from or to. -/
structure RingResult where
  rb : Ringbuffer
  buf : Mem
  ret : Nat
  copied : List RingRange

/-- `ringbuffer_init`; `heap` is what `malloc` returned. -/
def ringbufferInit (heap : Mem) : Ringbuffer where
  buffer := memset heap 0 0 RINGBUFFER_SIZE
  size := RINGBUFFER_SIZE
  fill := 0
  read := 0
  write := 0

/-- `ringbuffer_empty`. -/
def ringbufferEmpty (rb : Ringbuffer) : Nat := if 0 = rb.fill then 1 else 0

/-- `ringbuffer_full`. -/
def ringbufferFull (rb : Ringbuffer) : Nat := if rb.size = rb.fill then 1 else 0

/-- `ringbuffer_currentSize`. -/
def ringbufferCurrentSize (rb : Ringbuffer) : Nat := rb.fill

/-- `ringbuffer_clear`. -/
def ringbufferClear (rb : Ringbuffer) : Ringbuffer where
  buffer := memset rb.buffer 0 0 RINGBUFFER_SIZE
  size := RINGBUFFER_SIZE
  fill := 0
  read := 0
  write := 0

/-- `ringbuffer_read`. When the two pointers coincide neither branch is taken:
nothing is copied and `read` stays, but `fill` is reduced all the same. -/
def ringbufferRead (rb : Ringbuffer) (buf : Mem) (len : Nat) : RingResult :=
  if rb.fill ≥ len then
    if rb.write > rb.read then
      { rb := { rb with read := rb.read + len, fill := rb.fill - len }
        buf := memcpy buf 0 rb.buffer rb.read len
        ret := len
        copied := [⟨rb.read, len⟩] }
    else if rb.write < rb.read then
      let len1 : Int := rb.size - 1 - rb.read + 1
      if uintOfInt len1 ≥ len then
        { rb := { rb with read := rb.read + len, fill := rb.fill - len }
          buf := memcpy buf 0 rb.buffer rb.read len
          ret := len
          copied := [⟨rb.read, len⟩] }
      else
        let len2 := len - len1.toNat
        { rb := { rb with read := len2, fill := rb.fill - len }
          buf := memcpy (memcpy buf 0 rb.buffer rb.read len1.toNat) len1.toNat rb.buffer 0 len2
          ret := len
          copied := [⟨rb.read, len1.toNat⟩, ⟨0, len2⟩] }
    else
      { rb := { rb with fill := rb.fill - len }, buf := buf, ret := len, copied := [] }
  else
    { rb := rb, buf := buf, ret := 0, copied := [] }

/-- `ringbuffer_write`. -/
def ringbufferWrite (rb : Ringbuffer) (buf : Mem) (len : Nat) : RingResult :=
  if rb.size - rb.fill < len then
    { rb := rb, buf := buf, ret := 0, copied := [] }
  else if rb.write ≥ rb.read then
    let len1 : Int := rb.size - rb.write
    if uintOfInt len1 ≥ len then
      { rb := { rb with
          buffer := memcpy rb.buffer rb.write buf 0 len
          write := rb.write + len
          fill := rb.fill + len }
        buf := buf
        ret := len
        copied := [⟨rb.write, len⟩] }
    else
      let len2 := len - len1.toNat
      { rb := { rb with
          buffer := memcpy (memcpy rb.buffer rb.write buf 0 len1.toNat) 0 buf len1.toNat len2
          write := len2
          fill := rb.fill + len }
        buf := buf
        ret := len
        copied := [⟨rb.write, len1.toNat⟩, ⟨0, len2⟩] }
  else
    { rb := { rb with
        buffer := memcpy rb.buffer rb.write buf 0 len
        write := rb.write + len
        fill := rb.fill + len }
      buf := buf
      ret := len
      copied := [⟨rb.write, len⟩] }

/-! ## The buffer as a machine -/

/-- A call on the ring buffer. `buf` is the block the caller passes. -/
inductive RingCall where
  | write (buf : Mem) (len : Nat)
  | read (buf : Mem) (len : Nat)
  | clear
  | currentSize
  | empty
  | full

/-- What the caller gets to see: the return value and its own block. -/
structure RingAnswer where
  ret : Nat
  buf : Option Mem := none

/-- One call, atomic under the mutex. Every call has an outcome. -/
def ringCall (rb : Ringbuffer) : RingCall → Ringbuffer × RingAnswer
  | .write buf len =>
      let r := ringbufferWrite rb buf len
      (r.rb, { ret := r.ret })
  | .read buf len =>
      let r := ringbufferRead rb buf len
      (r.rb, { ret := r.ret, buf := some r.buf })
  | .clear => (ringbufferClear rb, { ret := 0 })
  | .currentSize => (rb, { ret := ringbufferCurrentSize rb })
  | .empty => (rb, { ret := ringbufferEmpty rb })
  | .full => (rb, { ret := ringbufferFull rb })

def ringMachine : Machine Ringbuffer RingCall RingAnswer := fun rb c => some (ringCall rb c)

/-- The ring ranges a call copies from or to. -/
def ringCopies (rb : Ringbuffer) : RingCall → List RingRange
  | .write buf len => (ringbufferWrite rb buf len).copied
  | .read buf len => (ringbufferRead rb buf len).copied
  | _ => []

/-! ## What the buffer is for -/

/-- The stored bytes: `fill` of them, going round from `read`. -/
def Ringbuffer.contents (rb : Ringbuffer) : List UInt8 :=
  window rb.buffer rb.size rb.read rb.fill

/-- A first-in first-out queue of bytes with room for `cap` of them: the
purpose of the ring buffer, stated on the list of stored bytes. -/
def fifoCall (cap : Nat) (q : List UInt8) : RingCall → List UInt8 × RingAnswer
  | .write buf len =>
      if len ≤ cap - q.length then (q ++ slice buf 0 len, { ret := len }) else (q, { ret := 0 })
  | .read buf len =>
      if len ≤ q.length then
        (q.drop len, { ret := len, buf := some (memcpy buf 0 (memOfList q) 0 len) })
      else (q, { ret := 0, buf := some buf })
  | .clear => ([], { ret := 0 })
  | .currentSize => (q, { ret := q.length })
  | .empty => (q, { ret := if q = [] then 1 else 0 })
  | .full => (q, { ret := if q.length = cap then 1 else 0 })

def fifoMachine (cap : Nat) : Machine (List UInt8) RingCall RingAnswer :=
  fun q c => some (fifoCall cap q c)

end UbloxRead
