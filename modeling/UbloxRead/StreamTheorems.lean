/-
UbloxRead.StreamTheorems — successive rounds over one stream of bytes.

After `silenceNmea` the ring buffer is empty with both pointers at the front.
While no more than a buffer of bytes arrives in all, its pointers never wrap
(`Unwrapped`), so every read is a proper one: what the rounds read, followed by
what is still stored, is the stream (`Streaming`). The rounds are then scans of
consecutive pieces of it, which end where the clock of the events says
(`OnTime`), and `rounds_eq_whole_iff` compares them with the scan of the whole.

A frame is told by where it starts in the stream: two rounds can recover equal
bytes from different places.
-/
import UbloxRead.ControlTheorems

namespace UbloxRead

open Lib

/-! ## The ring buffer before it wraps -/

/-- `write` is ahead of `read` by the number of stored bytes. -/
structure Unwrapped (rb : Ringbuffer) : Prop where
  wf : rb.Wf
  read_add_fill : rb.read + rb.fill = rb.write

theorem unwrapped_clear (rb : Ringbuffer) : Unwrapped (ringbufferClear rb) :=
  ⟨ringbufferClear_wf rb, rfl⟩

/-- A write that ends before the end of the buffer. -/
theorem Unwrapped.write {rb : Ringbuffer} (h : Unwrapped rb) (bytes : List UInt8)
    (hend : rb.write + bytes.length ≤ RINGBUFFER_SIZE) :
    let r := ringbufferWrite rb (memOfList bytes) bytes.length
    Unwrapped r.rb ∧ r.rb.write = rb.write + bytes.length ∧
      r.rb.contents = rb.contents ++ bytes := by
  have hsize := h.wf.size_eq
  have hdist := h.read_add_fill
  have hfit : bytes.length ≤ rb.size - rb.fill := by omega
  obtain ⟨-, hwf, hcont⟩ := ringbufferWrite_spec h.wf (memOfList bytes) _ hfit
  rw [slice_memOfList] at hcont
  have hstraight := ringbufferWrite_straight h.wf.cyclic (memOfList bytes) _ hfit (Or.inr (by omega))
  refine ⟨⟨hwf, ?_⟩, by rw [hstraight], hcont⟩
  rw [hstraight]
  simp only
  omega

/-- A read hands over the front of the contents. -/
theorem Unwrapped.read {rb : Ringbuffer} (h : Unwrapped rb) (buf : Mem) {n : Nat}
    (hn : n ≤ rb.fill) :
    let r := ringbufferRead rb buf n
    Unwrapped r.rb ∧ r.rb.write = rb.write ∧ r.rb.fill = rb.fill - n ∧
      slice r.buf 0 n ++ r.rb.contents = rb.contents := by
  have hdist := h.read_add_fill
  by_cases hempty : rb.fill = 0
  · obtain rfl : n = 0 := by omega
    rw [ringbufferRead_coinciding hn (by omega)]
    exact ⟨⟨h.wf, hdist⟩, rfl, rfl, rfl⟩
  · obtain ⟨-, hwf, hcont, hbuf, -⟩ := ringbufferRead_spec h.wf buf _ hn (by omega)
    have hstraight := ringbufferRead_straight h.wf buf _ hn (Or.inl (by omega))
    refine ⟨⟨hwf, ?_⟩, by rw [hstraight], by rw [hstraight], ?_⟩
    · rw [hstraight]
      simp only
      omega
    · rw [hcont, hbuf, slice_memcpy_front]
      have hlen := length_contents rb
      rw [← take_slice (memOfList rb.contents) 0 (hlen ▸ hn), slice_memOfList,
        List.take_append_drop]

/-! ## Rounds read the stream -/

/-- Between clearing and wrapping: what was read, followed by what is stored, is
what was received, and every round is a scan of what it read. -/
structure Streaming (c : Control) (stream : List UInt8) (rounds : List Round) : Prop where
  unwrapped : Unwrapped c.rbUartIn
  write_eq : c.rbUartIn.write = stream.length
  fifo : rounds.flatMap Round.bytes ++ c.rbUartIn.contents = stream
  sampled : ∀ kind n, c.pc = .read kind n → n ≤ c.rbUartIn.fill
  scans : ∀ r ∈ rounds, Scan (frameItem r.scratchpad) r.rbSize 0 (r.taken.map TakenFrame.span)
  cleared : c.pc ≠ .silence

theorem streaming_silenceNmea (c : Control) : Streaming (silenceNmea c) [] [] where
  unwrapped := unwrapped_clear _
  write_eq := rfl
  fifo := rfl
  sampled := by simp [silenceNmea]
  scans := by simp
  cleared := by simp [silenceNmea]

theorem received_append (events events' : List ControlEvent) :
    received (events ++ events') = received events ++ received events' := by
  simp [received]

/-- **A step keeps the stream**, while the bytes received fit in the buffer. -/
theorem streaming_step {c c' : Control} {e : ControlEvent} {answer : Option Round}
    {stream : List UInt8} {rounds : List Round} (h : Streaming c stream rounds)
    (hsize : (stream ++ received [e]).length ≤ RINGBUFFER_SIZE)
    (hstep : controlMachine c e = some (c', answer)) :
    Streaming c' (stream ++ received [e]) (rounds ++ roundsOf [answer]) := by
  obtain ⟨hun, hwrite, hfifo, hsampled, hscans, hcleared⟩ := h
  have hquiet : rounds ++ roundsOf [none] = rounds := List.append_nil _
  have hnone : stream ++ received [.control] = stream := List.append_nil _
  cases controlMachine_inv hstep with
  | receive chunk =>
    have hone : received [.receive chunk] = chunk.bytes := by simp [received]
    rw [hone, List.length_append] at hsize
    obtain ⟨hun', hwrite', hcont⟩ := hun.write chunk.bytes (by omega)
    rw [hquiet, hone]
    refine ⟨hun', ?_, ?_, ?_, hscans, hcleared⟩
    · rw [List.length_append, ← hwrite]
      exact hwrite'
    · show _ ++ (ringbufferWrite c.rbUartIn (memOfList chunk.bytes) chunk.bytes.length).rb.contents = _
      rw [hcont, ← List.append_assoc, hfifo]
    · intro kind n hpc
      have hle := hsampled kind n hpc
      have hlen : c.rbUartIn.fill ≤ (serialReceive c chunk).rbUartIn.fill := by
        rw [← length_contents, ← length_contents]
        show _ ≤ (ringbufferWrite c.rbUartIn (memOfList chunk.bytes)
          chunk.bytes.length).rb.contents.length
        rw [hcont, List.length_append]
        omega
      omega
  | silence hpc => exact absurd hpc hcleared
  | sample hpc =>
    rw [hquiet, hnone]
    refine ⟨hun, hwrite, hfifo, ?_, hscans, by simp⟩
    rintro _ n ⟨⟩
    exact le_rfl
  | check hpc =>
    rw [hquiet, hnone]
    exact ⟨hun, hwrite, hfifo, by simp, hscans, by simp⟩
  | @read kind rbSize _ round hpc hread =>
    obtain ⟨c'', round', hread', hrbSize, hpad, hscan, hpc', huart, -⟩ :=
      readAndScan_spec kind rbSize c
    rw [hread] at hread'
    cases hread'
    obtain ⟨hun', hwrite', -, hfront⟩ := hun.read c.scratchpad (hsampled kind rbSize hpc)
    have hone : roundsOf [some round] = [round] := by simp [roundsOf]
    have hbytes : round.bytes = slice (ringbufferRead c.rbUartIn c.scratchpad rbSize).buf 0 rbSize := by
      rw [Round.bytes, hpad, hrbSize]
    rw [hone, hnone]
    refine ⟨huart ▸ hun', by rw [huart, hwrite', hwrite], ?_, by simp [hpc'], ?_, by simp [hpc']⟩
    · rw [List.flatMap_append, List.flatMap_singleton, hbytes, huart, List.append_assoc, hfront,
        hfifo]
    · intro r hr
      rcases List.mem_append.mp hr with hr | hr
      · exact hscans r hr
      · rw [List.mem_singleton.mp hr, hrbSize]
        exact hscan

/-! ## Where the rounds end -/

/-- One more round ends where it stops reading. -/
theorem roundEnds_concat (rounds : List Round) (r : Round) : ∀ offset,
    roundEnds offset (rounds ++ [r])
      = roundEnds offset rounds ++ [offset + (rounds.flatMap Round.bytes).length + r.rbSize] := by
  induction rounds with
  | nil =>
    intro offset
    simp [roundEnds]
  | cons q rounds ih =>
    intro offset
    have hlen : q.bytes.length = q.rbSize := length_slice ..
    rw [List.cons_append, roundEnds, ih, roundEnds, List.flatMap_cons, List.length_append, hlen,
      Nat.add_assoc offset q.rbSize]
    rfl

/-- What the clock shows, when `bytesRead` bytes have been read. -/
def ControlPc.phase (bytesRead : Nat) : ControlPc → Option RoundPhase
  | .silence => none
  | .poll _ => some .sample
  | .read _ n => some (.read (bytesRead + n))
  | .check _ => some .check

/-- The clock of the events agrees with the run. -/
structure OnTime (c : Control) (clock : RoundClock) (stream : List UInt8) (rounds : List Round) :
    Prop where
  received_eq : clock.received = stream.length
  cuts_eq : clock.cuts = roundEnds 0 rounds
  phase_eq : c.pc.phase (rounds.flatMap Round.bytes).length = some clock.phase

theorem onTime_silenceNmea (c : Control) : OnTime (silenceNmea c) .start [] [] := ⟨rfl, rfl, rfl⟩

/-- **A step keeps the clock right**: what is stored when a round samples is all
that was received and not yet read. -/
theorem onTime_step {c c' : Control} {e : ControlEvent} {answer : Option Round}
    {clock : RoundClock} {stream : List UInt8} {rounds : List Round}
    (h : OnTime c clock stream rounds) (hstream : Streaming c stream rounds)
    (hstep : controlMachine c e = some (c', answer)) :
    OnTime c' (clock.tick e) (stream ++ received [e]) (rounds ++ roundsOf [answer]) := by
  obtain ⟨hreceived, hcuts, hphase⟩ := h
  have hclock : ∀ phase, c.pc.phase (rounds.flatMap Round.bytes).length = some phase →
      clock.phase = phase := fun phase h => Option.some.inj (hphase.symm.trans h)
  have hquiet : rounds ++ roundsOf [none] = rounds := List.append_nil _
  have hnone : stream ++ received [.control] = stream := List.append_nil _
  cases controlMachine_inv hstep with
  | receive chunk =>
    have hone : received [.receive chunk] = chunk.bytes := by simp [received]
    rw [hquiet, hone]
    refine ⟨?_, hcuts, hphase⟩
    rw [List.length_append, ← hreceived]
    rfl
  | silence hpc => exact absurd hpc hstream.cleared
  | sample hpc =>
    have hclock := hclock .sample (by rw [hpc]; rfl)
    have hall : (rounds.flatMap Round.bytes).length + c.rbUartIn.fill = stream.length := by
      rw [← length_contents, ← List.length_append, hstream.fifo]
    rw [hquiet, hnone]
    unfold RoundClock.tick
    simp only [hclock]
    exact ⟨hreceived, hcuts, by rw [ControlPc.phase, hall, hreceived]⟩
  | check hpc =>
    have hclock := hclock .check (by rw [hpc]; rfl)
    rw [hquiet, hnone]
    unfold RoundClock.tick
    simp only [hclock]
    exact ⟨hreceived, hcuts, rfl⟩
  | @read kind rbSize _ round hpc hread =>
    obtain ⟨c'', round', hread', hrbSize, -, -, hpc', -⟩ := readAndScan_spec kind rbSize c
    rw [hread] at hread'
    cases hread'
    have hclock := hclock (.read ((rounds.flatMap Round.bytes).length + rbSize)) (by rw [hpc]; rfl)
    have hone : roundsOf [some round] = [round] := by simp [roundsOf]
    rw [hone, hnone]
    unfold RoundClock.tick
    simp only [hclock]
    refine ⟨hreceived, ?_, by rw [hpc']; rfl⟩
    rw [roundEnds_concat, hcuts, hrbSize, Nat.zero_add]

/-- No finished round samples while, of a frame of the stream, some bytes have
been received and some have not. -/
def CutsNoFrame (events : List ControlEvent) : Prop :=
  ∀ cut ∈ roundCuts events, ∀ spans,
    Scan (frameItem (memOfList (received events))) (received events).length 0 spans →
      Scan.Uncut cut spans

/-! ## Rounds as pieces of one scan -/

/-- The frame at a span of the stream. -/
def frameOf (mem : Mem) (span : Nat × Nat) : StreamFrame :=
  { offset := span.1, bytes := slice mem span.1 span.2 }

theorem frameOf_injective (mem : Mem) : Function.Injective (frameOf mem) := by
  rintro ⟨p, l⟩ ⟨p', l'⟩ h
  have h1 := congrArg StreamFrame.offset h
  have h2 := congrArg (fun f => f.bytes.length) h
  simp only [frameOf, length_slice] at h1 h2
  rw [h1, h2]

/-- One round is a scan of its piece of the stream. -/
theorem round_scan {mem : Mem} {offset : Nat} {r : Round}
    (hscan : Scan (frameItem r.scratchpad) r.rbSize 0 (r.taken.map TakenFrame.span))
    (hmem : slice mem offset r.rbSize = r.bytes) :
    ∃ found, Scan (frameItem mem) (offset + r.rbSize) offset found ∧
      r.frames offset = found.map (frameOf mem) := by
  have hslice : ∀ p l, p + l ≤ r.rbSize → slice r.scratchpad p l = slice mem (offset + p) l := by
    intro p l hfit
    refine slice_congr fun k hk => ?_
    have := slice_inj hmem (show p + k < r.rbSize by omega)
    rw [Nat.zero_add, ← Nat.add_assoc] at this
    exact this.symm
  have hitem : ∀ p l, p + l ≤ r.rbSize →
      (frameItem r.scratchpad p = some l ↔ frameItem mem (offset + p) = some l) := fun p l hfit =>
    ⟨frameItem_congr (hslice p l hfit), frameItem_congr (hslice p l hfit).symm⟩
  refine ⟨_, (hscan.congr (fun p => frameItem mem (offset + p)) hitem).shift, ?_⟩
  rw [List.map_map, List.map_map]
  refine List.map_congr_left fun f hf => ?_
  obtain ⟨-, -, -, hfit⟩ := hscan.sound _ (List.mem_map_of_mem hf)
  simp only [Function.comp_apply, frameOf, TakenFrame.span, hslice f.pos f.len hfit]

/-- **Successive rounds are scans of consecutive pieces.** -/
theorem rounds_segScan (mem : Mem) (rounds : List Round) :
    ∀ offset,
      (∀ r ∈ rounds, Scan (frameItem r.scratchpad) r.rbSize 0 (r.taken.map TakenFrame.span)) →
      slice mem offset (rounds.flatMap Round.bytes).length = rounds.flatMap Round.bytes →
      ∃ found, SegScan (frameItem mem) offset (roundEnds offset rounds) found ∧
        roundsFrames offset rounds = found.map (frameOf mem) ∧
        (roundEnds offset rounds).getLastD offset
          = offset + (rounds.flatMap Round.bytes).length := by
  induction rounds with
  | nil => exact fun _ _ _ => ⟨[], .nil, rfl, rfl⟩
  | cons r rounds ih =>
    intro offset hscans hmem
    rw [List.flatMap_cons] at hmem ⊢
    obtain ⟨hhead, htail⟩ := slice_eq_append_iff.mp hmem
    have hlen : r.bytes.length = r.rbSize := length_slice ..
    rw [hlen] at hhead htail
    obtain ⟨found, hscan, hframes⟩ := round_scan (hscans r (List.mem_cons_self ..)) hhead
    obtain ⟨rest, hseg, hrest, hlast⟩ :=
      ih (offset + r.rbSize) (fun q hq => hscans q (List.mem_cons_of_mem _ hq)) htail
    refine ⟨found ++ rest, .cons (Nat.le_add_right ..) hscan hseg, ?_, ?_⟩
    · rw [roundsFrames, hframes, hrest, List.map_append]
    · rw [roundEnds, List.getLastD_cons, hlast, List.length_append, hlen]
      omega

/-- **The rounds recover the frames of the whole stream exactly when no round
ends inside one of them**, for every stream that fits the buffer and every
interleaving that drains it. -/
theorem rounds_eq_whole_iff (c : Control) (rb : Ringbuffer) (chk : MsgStrmCheck)
    (events : List ControlEvent) (hsize : (received events).length ≤ RINGBUFFER_SIZE) :
    ∃ c' answers whole,
      Machine.run controlMachine (silenceNmea c) events = some (c', answers) ∧
      (∀ fuel, (received events).length < fuel →
        scanLoop (received events).length fuel (scanStart (memOfList (received events)) rb chk)
          = some whole) ∧
      (c'.rbUartIn.fill = 0 →
        (roundsFrames 0 (roundsOf answers) = whole.frames ↔ CutsNoFrame events)) := by
  obtain ⟨c', answers, hrun, -⟩ := Machine.run_total (m := controlMachine) (fun _ => True)
    (fun c e _ => by
      obtain ⟨c', answer, hstep⟩ := controlMachine_total c e
      exact ⟨c', answer, hstep, trivial⟩) (s := silenceNmea c) trivial events
  obtain ⟨whole, hloop, hpad, hwhole, -⟩ :=
    scanLoop_total (memOfList (received events)) rb chk (received events).length
      (fun _ _ _ => True) trivial (fun _ _ _ _ _ _ => trivial)
  rw [Int.toNat_natCast] at hloop hwhole
  refine ⟨c', answers, whole, hrun, hloop, fun hdrained => ?_⟩
  obtain ⟨hstream, htime⟩ : Streaming c' (received events) (roundsOf answers) ∧
      OnTime c' (events.foldl RoundClock.tick .start) (received events) (roundsOf answers) := by
    refine Machine.run_history (fun c events answers =>
        (received events).length ≤ RINGBUFFER_SIZE →
          Streaming c (received events) (roundsOf answers) ∧
          OnTime c (events.foldl RoundClock.tick .start) (received events) (roundsOf answers))
      ?_ (fun _ => ⟨streaming_silenceNmea c, onTime_silenceNmea c⟩) hrun hsize
    intro c events answers e c' answer hinv hstep hsize
    rw [received_append] at hsize ⊢
    rw [roundsOf_append, List.foldl_append]
    obtain ⟨hstream, htime⟩ := hinv (by rw [List.length_append] at hsize; omega)
    exact ⟨streaming_step hstream hsize hstep, onTime_step htime hstream hstep⟩
  have hall : (roundsOf answers).flatMap Round.bytes = received events := by
    have hempty : c'.rbUartIn.contents = [] := by
      rw [← List.length_eq_zero_iff, length_contents, hdrained]
    have := hstream.fifo
    rwa [hempty, List.append_nil] at this
  obtain ⟨found, hseg, hframes, hlast⟩ :=
    rounds_segScan (memOfList (received events)) (roundsOf answers) 0 hstream.scans
      (by rw [hall, slice_memOfList])
  rw [hall, Nat.zero_add] at hlast
  have hwholeFrames : whole.frames
      = (whole.taken.map TakenFrame.span).map (frameOf (memOfList (received events))) := by
    rw [ScanState.frames, hpad, List.map_map]
    rfl
  rw [hframes, hwholeFrames, (List.map_injective_iff.mpr (frameOf_injective _)).eq_iff,
    hseg.eq_iff hwhole hlast, ← htime.cuts_eq]
  -- the scan of the stream is the one the loop made
  constructor
  · intro h cut hcut spans hspans
    rw [hspans.unique hwhole]
    exact h cut hcut
  · intro h cut hcut
    exact h cut hcut _ hwhole

/-- The poll message for AID-INI. -/
def aidIniPoll : UbxFrame where
  msgClass := UBX_CLASS_AID
  msgId := UBX_AID_INI
  payload := []
  payload_lt := by decide

/-- The frame arrives, and a round follows. -/
def pollInOneRound : List ControlEvent :=
  [.receive ⟨aidIniPoll.bytes, by decide, by decide⟩, .control, .control]

theorem rounds_eq_whole_iff_one_round :
    ∃ c' answers whole,
      Machine.run controlMachine (silenceNmea (prepMonitoringStruct sevens sevens sevens))
        pollInOneRound = some (c', answers) ∧
      (∀ fuel, (received pollInOneRound).length < fuel →
        scanLoop (received pollInOneRound).length fuel
          (scanStart (memOfList (received pollInOneRound)) (ringbufferInit sevens) .zero)
          = some whole) ∧
      (c'.rbUartIn.fill = 0 →
        (roundsFrames 0 (roundsOf answers) = whole.frames ↔ CutsNoFrame pollInOneRound)) :=
  rounds_eq_whole_iff _ _ _ pollInOneRound (by decide)

/-- Three bytes of the frame arrive before a round, the other five after it. -/
def pollCutByARound : List ControlEvent :=
  [.receive ⟨aidIniPoll.bytes.take 3, by decide, by decide⟩, .control, .control,
    .receive ⟨aidIniPoll.bytes.drop 3, by decide, by decide⟩, .control, .control, .control]

/-- **A frame that a round cuts is lost**: the rounds recover nothing from a
stream that is one frame. -/
theorem rounds_ne_whole :
    received pollCutByARound = aidIniPoll.bytes ∧
      ∃ c' answers whole,
        Machine.run controlMachine (silenceNmea (prepMonitoringStruct sevens sevens sevens))
          pollCutByARound = some (c', answers) ∧
        scanLoop (received pollCutByARound).length 9
          (scanStart (memOfList (received pollCutByARound)) (ringbufferInit sevens) .zero)
          = some whole ∧
        c'.rbUartIn.fill = 0 ∧
        (roundsFrames 0 (roundsOf answers)).map StreamFrame.bytes = [] ∧
        whole.frames.map StreamFrame.bytes = [aidIniPoll.bytes] := by
  have hrounds :
      (Machine.run controlMachine (silenceNmea (prepMonitoringStruct sevens sevens sevens))
        pollCutByARound).map (fun r =>
          (r.1.rbUartIn.fill, (roundsFrames 0 (roundsOf r.2)).map StreamFrame.bytes))
        = some (0, []) := by decide +kernel
  have hwhole :
      (scanLoop (received pollCutByARound).length 9
        (scanStart (memOfList (received pollCutByARound)) (ringbufferInit sevens) .zero)).map
          (fun s => s.frames.map StreamFrame.bytes) = some [aidIniPoll.bytes] := by decide +kernel
  obtain ⟨⟨c', answers⟩, hrun, hr⟩ := Option.map_eq_some_iff.mp hrounds
  obtain ⟨whole, hloop, hw⟩ := Option.map_eq_some_iff.mp hwhole
  simp only [Prod.mk.injEq] at hr
  exact ⟨by decide, c', answers, whole, hrun, hloop, hr.1, hr.2, hw⟩

end UbloxRead
