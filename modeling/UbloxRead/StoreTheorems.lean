/-
UbloxRead.StoreTheorems — what `rbUbxMsg_p` holds.

The scan loops write the frames they accept to `rbUbxMsg_p`, and nobody reads or
clears it. `ringbuffer_write` takes a frame whole or not at all, so what is
stored is a list of frames: `storedFrames` of the accepted ones, in which a frame
longer than the room left is left out and a shorter one behind it may still go
in. `HoldsFrames` ties the buffer to such a list; a write, every round of a scan
loop, a step of `control_f` and a run keep it, one after the other. The read
pointer never moves, so the stored bytes are the first `fill` of the buffer, and a
scan of them finds the stored frames again (`scan_frames`).
-/
import UbloxRead.ControlTheorems
import UbloxRead.UbxFormat

namespace UbloxRead

open Lib

/-! ## Frames in a buffer -/

/-- A frame offered to a buffer that holds `stored`. -/
def storeFrame (stored : List UbxFrame) (f : UbxFrame) : List UbxFrame :=
  if f.bytes.length ≤ RINGBUFFER_SIZE - (stored.flatMap UbxFrame.bytes).length then stored ++ [f]
  else stored

/-- The frames stored of those offered one after the other. -/
def storedFrames (offered : List UbxFrame) : List UbxFrame := offered.foldl storeFrame []

/-- The buffer holds these frames from its front on, and nothing else. -/
structure HoldsFrames (rb : Ringbuffer) (stored : List UbxFrame) : Prop where
  wf : rb.Wf
  read_eq : rb.read = 0
  contents_eq : rb.contents = stored.flatMap UbxFrame.bytes

/-- A frame offered to a buffer that holds the bytes `q`. -/
def offerBytes (q : List UInt8) (f : UbxFrame) : List UInt8 :=
  if f.bytes.length ≤ RINGBUFFER_SIZE - q.length then q ++ f.bytes else q

/-- Offering a frame, whatever the buffer holds. -/
theorem RingStores.offer {rb : Ringbuffer} {q : List UInt8} (h : RingStores rb q) {f : UbxFrame}
    {buf : Mem} (hbuf : slice buf 0 f.bytes.length = f.bytes) :
    RingStores (ringbufferWrite rb buf f.bytes.length).rb (offerBytes q f) := by
  have hfill : q.length = rb.fill := by
    rw [← h.contents_eq, length_contents]
  unfold offerBytes
  rw [hfill, ← h.wf.size_eq]
  split
  · next hfit =>
    obtain ⟨-, hwf, hcont⟩ := ringbufferWrite_spec h.wf buf _ hfit
    exact ⟨hwf, by rw [hcont, hbuf, h.contents_eq]⟩
  · next hfit =>
    rw [ringbufferWrite_refused buf (by omega)]
    exact h

theorem flatMap_storeFrame (stored : List UbxFrame) (f : UbxFrame) :
    (storeFrame stored f).flatMap UbxFrame.bytes
      = offerBytes (stored.flatMap UbxFrame.bytes) f := by
  unfold storeFrame offerBytes
  split
  · rw [List.flatMap_append, List.flatMap_singleton]
  · rfl

/-- A write leaves the read pointer. -/
theorem ringbufferWrite_read {rb : Ringbuffer} (hwf : rb.Wf) (buf : Mem) (len : Nat) :
    (ringbufferWrite rb buf len).rb.read = rb.read := by
  by_cases hfit : len ≤ rb.size - rb.fill
  · obtain ⟨-, -, hread, -⟩ := ringbufferWrite_laid hwf.cyclic buf hfit
    exact hread
  · rw [ringbufferWrite_refused buf (by omega)]

/-- Offering a frame to a buffer of frames. -/
theorem HoldsFrames.write {rb : Ringbuffer} {stored : List UbxFrame} (h : HoldsFrames rb stored)
    {f : UbxFrame} {buf : Mem} (hbuf : slice buf 0 f.bytes.length = f.bytes) :
    HoldsFrames (ringbufferWrite rb buf f.bytes.length).rb (storeFrame stored f) := by
  obtain ⟨hwf, hcont⟩ := RingStores.offer ⟨h.wf, h.contents_eq⟩ hbuf
  exact ⟨hwf, (ringbufferWrite_read h.wf buf _).trans h.read_eq,
    hcont.trans (flatMap_storeFrame stored f).symm⟩

/-- With the read pointer at the front, the stored bytes are the first ones. -/
theorem HoldsFrames.slice_eq {rb : Ringbuffer} {stored : List UbxFrame}
    (h : HoldsFrames rb stored) :
    slice rb.buffer 0 rb.fill = stored.flatMap UbxFrame.bytes := by
  have hle := h.wf.fill_le
  rw [← h.contents_eq, Ringbuffer.contents, h.read_eq]
  refine List.map_congr_left fun k hk => ?_
  have hlt : 0 + k < rb.size := by
    have := List.mem_range.mp hk
    omega
  rw [Nat.mod_eq_of_lt hlt]

/-- The first `fill` bytes of the buffer are these frames, and the scan loop takes
exactly these from any block that starts with those bytes. -/
structure ScannedBack (rb : Ringbuffer) (stored : List UbxFrame) : Prop where
  bytes : slice rb.buffer 0 rb.fill = stored.flatMap UbxFrame.bytes
  scanned : ∀ (scratchpad : Mem) (rb' : Ringbuffer) (chk : MsgStrmCheck),
    slice scratchpad 0 rb.fill = slice rb.buffer 0 rb.fill →
    ∃ s : ScanState, (∀ fuel, rb.fill < fuel →
        scanLoop rb.fill fuel (scanStart scratchpad rb' chk) = some s) ∧
      s.taken.map (fun t => slice scratchpad t.pos t.len) = stored.map UbxFrame.bytes

/-- **What is stored is found again.** -/
theorem HoldsFrames.scannedBack {rb : Ringbuffer} {stored : List UbxFrame}
    (h : HoldsFrames rb stored) : ScannedBack rb stored := by
  have hbytes := h.slice_eq
  refine ⟨hbytes, fun scratchpad rb' chk hpad => ?_⟩
  obtain ⟨s, hloop, -, hscan, -⟩ :=
    scanLoop_total scratchpad rb' chk rb.fill (fun _ _ _ => True) trivial
      (fun _ _ _ _ _ _ => trivial)
  rw [Int.toNat_natCast] at hloop hscan
  refine ⟨s, hloop, ?_⟩
  have hlen : (stored.flatMap UbxFrame.bytes).length = rb.fill := by
    rw [← hbytes, length_slice]
  rw [hbytes] at hpad
  rw [← hlen] at hpad hscan
  rw [← (scan_frames _ hpad hscan).2, List.map_map]
  rfl

/-! ## Loops, steps and runs -/

/-- The frames that a loop over this scratchpad has taken. -/
def takenFrames (scratchpad : Mem) (taken : List TakenFrame) : List UbxFrame :=
  taken.map fun t => frameAt scratchpad t.pos

theorem takenFrames_take (s : ScanState) (l : Nat) :
    takenFrames s.scratchpad (s.take l).taken
      = takenFrames s.scratchpad s.taken ++ [frameAt s.scratchpad s.i] := by
  simp [takenFrames, ScanState.take]

/-- What is taken are the bytes of a frame. -/
theorem takenBytes_take {s : ScanState} {l : Nat} (hl : frameItem s.scratchpad s.i = some l)
    (h : s.taken.map (fun t => slice s.scratchpad t.pos t.len)
      = (takenFrames s.scratchpad s.taken).map UbxFrame.bytes) :
    (s.take l).taken.map (fun t => slice s.scratchpad t.pos t.len)
      = (takenFrames s.scratchpad (s.take l).taken).map UbxFrame.bytes := by
  rw [takenFrames_take, List.map_append, ← h, List.map_singleton, ← bytes_frameAt hl]
  simp [ScanState.take]

/-- The source of the copy that a loop makes of a frame. -/
theorem copied_frame {mem : Mem} {p l : Nat} (hl : frameItem mem p = some l) :
    l = (frameAt mem p).bytes.length ∧ slice (fun k => mem (p + k)) 0 l = (frameAt mem p).bytes := by
  have hframe := bytes_frameAt hl
  refine ⟨by rw [← hframe, length_slice], ?_⟩
  rw [slice_shift, Nat.add_zero]
  exact hframe

theorem RingStores.take {s : ScanState} {q : List UInt8} (h : RingStores s.rbUbxMsg q) {l : Nat}
    (hl : frameItem s.scratchpad s.i = some l) :
    RingStores (s.take l).rbUbxMsg (offerBytes q (frameAt s.scratchpad s.i)) := by
  obtain ⟨hlen, hcopy⟩ := copied_frame hl
  show RingStores (ringbufferWrite s.rbUbxMsg _ l).rb _
  rw [hlen] at hcopy ⊢
  exact h.offer hcopy

theorem HoldsFrames.take {s : ScanState} {stored : List UbxFrame}
    (h : HoldsFrames s.rbUbxMsg stored) {l : Nat} (hl : frameItem s.scratchpad s.i = some l) :
    HoldsFrames (s.take l).rbUbxMsg (storeFrame stored (frameAt s.scratchpad s.i)) := by
  obtain ⟨hlen, hcopy⟩ := copied_frame hl
  show HoldsFrames (ringbufferWrite s.rbUbxMsg _ l).rb _
  rw [hlen] at hcopy ⊢
  exact h.write hcopy

/-- A loop has offered what it has taken, and what it has taken are frames. -/
structure Offered (scratchpad : Mem) (stored : List UbxFrame) (rb : Ringbuffer)
    (taken : List TakenFrame) : Prop where
  bytes : taken.map (fun t => slice scratchpad t.pos t.len)
    = (takenFrames scratchpad taken).map UbxFrame.bytes
  holds : HoldsFrames rb ((takenFrames scratchpad taken).foldl storeFrame stored)

/-- **Taking a frame offers it.** -/
theorem Offered.take {stored : List UbxFrame} {s : ScanState}
    (h : Offered s.scratchpad stored s.rbUbxMsg s.taken) {l : Nat}
    (hl : frameItem s.scratchpad s.i = some l) :
    Offered s.scratchpad stored (s.take l).rbUbxMsg (s.take l).taken := by
  refine ⟨takenBytes_take hl h.bytes, ?_⟩
  rw [takenFrames_take, List.foldl_append]
  exact h.holds.take hl

/-- **In every state of a scan loop** the buffer holds what was offered to it so far. -/
theorem scanLoop_offered (scratchpad : Mem) {rb : Ringbuffer} {stored : List UbxFrame}
    (h : HoldsFrames rb stored) (chk : MsgStrmCheck) (rbSize : Int) (fuel : Nat) :
    ∀ s ∈ whileStates (scanBody rbSize) fuel (scanStart scratchpad rb chk),
      s.scratchpad = scratchpad ∧ Offered s.scratchpad stored s.rbUbxMsg s.taken := by
  refine whileStates_inv (fun s : ScanState =>
    s.scratchpad = scratchpad ∧ Offered s.scratchpad stored s.rbUbxMsg s.taken)
    (fun s t hs hround => ?_) ⟨rfl, rfl, h⟩
  obtain ⟨hpad, hoffered⟩ := hs
  rcases scanBody_cases rbSize s with ⟨-, hb⟩ | ⟨-, -, hb⟩ | ⟨l, -, hl, -, hb⟩
  · rw [hb] at hround
    cases hround
  · rw [hb] at hround
    cases hround
    exact ⟨hpad, hoffered⟩
  · rw [hb] at hround
    cases hround
    exact ⟨hpad, hoffered.take hl⟩

/-- **A scan loop offers the frames in its bytes**, one after the other. -/
theorem scanLoop_holds (scratchpad : Mem) {rb : Ringbuffer} {stored : List UbxFrame}
    (h : HoldsFrames rb stored) (chk : MsgStrmCheck) (rbSize : Nat) :
    ∃ s : ScanState, scanLoop rbSize (rbSize + 1) (scanStart scratchpad rb chk) = some s ∧
      s.taken.map (fun t => slice scratchpad t.pos t.len)
        = (deframe (slice scratchpad 0 rbSize)).map UbxFrame.bytes ∧
      HoldsFrames s.rbUbxMsg ((deframe (slice scratchpad 0 rbSize)).foldl storeFrame stored) := by
  obtain ⟨s, hloop, -, hscan, hoffered⟩ := scanLoop_total scratchpad rb chk rbSize
    (fun rb _ taken => Offered scratchpad stored rb taken) ⟨rfl, h⟩
    (by rintro s rfl l hl - hoffered; exact hoffered.take hl)
  have hframes : deframe (slice scratchpad 0 rbSize) = takenFrames scratchpad s.taken := by
    have := deframe_of_scan hscan
    rwa [Int.toNat_natCast, Nat.sub_zero, List.map_map] at this
  rw [hframes]
  exact ⟨s, hloop _ (by simp), hoffered.bytes, hoffered.holds⟩

/-- The frames in the bytes of the rounds. -/
def deframedRounds (answers : List (Option Round)) : List UbxFrame :=
  (roundsOf answers).flatMap fun round => deframe round.bytes

theorem deframedRounds_none (answers : List (Option Round)) :
    deframedRounds (answers ++ [none]) = deframedRounds answers := by
  simp [deframedRounds, roundsOf]

theorem deframedRounds_round (answers : List (Option Round)) (round : Round) :
    deframedRounds (answers ++ [some round]) = deframedRounds answers ++ deframe round.bytes := by
  simp [deframedRounds, roundsOf]

/-- The frames accepted so far are those in the bytes of the rounds, and
`rbUbxMsg_p` holds what had room of them. -/
structure HoldsAccepted (c : Control) (answers : List (Option Round)) : Prop where
  acked : (ackedFrames answers).map AckedFrame.bytes = (deframedRounds answers).map UbxFrame.bytes
  holds : HoldsFrames c.rbUbxMsg (storedFrames (deframedRounds answers))

/-- A step that ends no round and leaves `rbUbxMsg_p` alone. -/
theorem HoldsAccepted.quiet {c c' : Control} {answers : List (Option Round)}
    (h : HoldsAccepted c answers) (hsame : c'.rbUbxMsg = c.rbUbxMsg) :
    HoldsAccepted c' (answers ++ [none]) := by
  refine ⟨?_, ?_⟩
  · rw [deframedRounds_none, ← h.acked, ackedFrames_append]
    exact congrArg _ (List.append_nil _)
  · rw [deframedRounds_none, hsame]
    exact h.holds

/-- A step offers what it accepts. -/
theorem holdsAccepted_step {c c' : Control} {e : ControlEvent} {answers : List (Option Round)}
    {answer : Option Round} (h : HoldsAccepted c answers)
    (hstep : controlMachine c e = some (c', answer)) : HoldsAccepted c' (answers ++ [answer]) := by
  cases controlMachine_inv hstep with
  | receive chunk => exact h.quiet rfl
  | silence hpc => exact h.quiet rfl
  | sample hpc => exact h.quiet rfl
  | check hpc => exact h.quiet rfl
  | @read kind rbSize _ round hpc hread =>
    obtain ⟨hacked, hholds⟩ := h
    obtain ⟨s, hloop, hframes, hholds'⟩ := scanLoop_holds
      (ringbufferRead c.rbUartIn c.scratchpad rbSize).buf hholds c.msgChk rbSize
    rw [readAndScan, hloop] at hread
    cases hread
    refine ⟨?_, ?_⟩
    · rw [deframedRounds_round, ackedFrames_append, List.map_append, List.map_append, hacked]
      refine congrArg _ (Eq.trans ?_ hframes)
      simp [ackedFrames, roundsOf, Round.acked]
    · rw [deframedRounds_round, storedFrames, List.foldl_append]
      exact hholds'

/-- **What `rbUbxMsg_p` holds in every run of the two threads.** Its first `fill`
bytes are the frames accepted by the scans so far, in order, without those that
were longer than the room left when they were offered; and the scan loop takes
exactly these frames from any block that starts with those bytes. The frames
accepted are those in the bytes of the rounds. Inside the scan loop that comes next
it is so whenever a round of the loop starts, with the frames taken by then. -/
theorem control_stores_frames (heapIn heapMsg stack : Mem) (events : List ControlEvent) :
    ∃ c answers, ∃ accepted : List UbxFrame,
      Machine.run controlMachine (prepMonitoringStruct heapIn heapMsg stack) events
        = some (c, answers) ∧
      (ackedFrames answers).map AckedFrame.bytes = accepted.map UbxFrame.bytes ∧
      accepted = (roundsOf answers).flatMap (fun round => deframe round.bytes) ∧
      ScannedBack c.rbUbxMsg (storedFrames accepted) ∧
      ∀ kind rbSize, c.pc = .read kind rbSize →
        ∀ s ∈ whileStates (scanBody rbSize) (rbSize + 1)
            (scanStart (ringbufferRead c.rbUartIn c.scratchpad rbSize).buf c.rbUbxMsg c.msgChk),
          ∃ taken : List UbxFrame,
            s.taken.map (fun t => slice s.scratchpad t.pos t.len) = taken.map UbxFrame.bytes ∧
            ScannedBack s.rbUbxMsg (storedFrames (accepted ++ taken)) := by
  have hinit : HoldsAccepted (prepMonitoringStruct heapIn heapMsg stack) [] :=
    ⟨rfl, ringbufferInit_wf heapMsg, rfl, contents_init heapMsg⟩
  obtain ⟨c, answers, hrun, -⟩ := Machine.run_total (m := controlMachine) (fun _ => True)
    (fun c e _ => by
      obtain ⟨c', answer, hstep⟩ := controlMachine_total c e
      exact ⟨c', answer, hstep, trivial⟩) trivial events
  obtain ⟨hacked, hholds⟩ := Machine.run_history
    (fun c _ answers => HoldsAccepted c answers)
    (fun _ _ _ _ _ _ h hstep => holdsAccepted_step h hstep) hinit hrun
  refine ⟨c, answers, deframedRounds answers, hrun, hacked, rfl, hholds.scannedBack, ?_⟩
  intro kind rbSize _ s hs
  obtain ⟨-, hoffered⟩ := scanLoop_offered _ hholds c.msgChk rbSize (rbSize + 1) s hs
  refine ⟨_, hoffered.bytes, ?_⟩
  rw [storedFrames, List.foldl_append]
  exact hoffered.holds.scannedBack

end UbloxRead
