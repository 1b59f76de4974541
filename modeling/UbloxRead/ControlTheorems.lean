/-
UbloxRead.ControlTheorems — what the rounds of `control_f` recover and keep.

`readAndScan_spec` is what one round does: it always ends, takes a scan of what
it read, and leaves the frames in `rbUbxMsg_p` as far as they fit. Over whole
runs:

* `control_stores_acked_iff` — every acknowledged frame is stored exactly while
  each round's frames fit in the room left. Nothing empties `rbUbxMsg_p`, so in
  the end they do not.
* `rounds_eq_whole_iff` — the rounds recover the frames of the whole stream
  exactly when no round ends inside one of them: what a round does not finish
  is gone with the scratchpad.
-/
import UbloxRead.Control
import UbloxRead.ScanLoopTheorems

namespace UbloxRead

open Lib

/-! ## One round -/

/-- **What a round does.** -/
theorem readAndScan_spec (kind : RoundKind) (rbSize : Nat) (c : Control) :
    ∃ c' round, readAndScan kind rbSize c = some (c', round) ∧
      round.rbSize = rbSize ∧
      round.scratchpad = (ringbufferRead c.rbUartIn c.scratchpad rbSize).buf ∧
      Scan (frameItem round.scratchpad) rbSize 0 (round.taken.map TakenFrame.span) ∧
      c'.pc = .check kind.next ∧
      c'.rbUartIn = (ringbufferRead c.rbUartIn c.scratchpad rbSize).rb ∧
      (c.rbUbxMsg.Wf →
        KeptIn round.scratchpad c.rbUbxMsg.contents c'.rbUbxMsg round.taken) := by
  obtain ⟨s, hloop, hpad, hscan, hkept⟩ := scanLoop_kept
    (ringbufferRead c.rbUartIn c.scratchpad rbSize).buf c.rbUbxMsg c.msgChk rbSize
  rw [Int.toNat_natCast] at hloop hscan
  have hread : readAndScan kind rbSize c = _ :=
    congrArg (Option.map _) (hloop (rbSize + 1) (Nat.lt_succ_self _))
  exact ⟨_, _, hread, rfl, rfl, hscan, rfl, rfl, hkept⟩

/-- All that a step can do. -/
inductive ControlStep (c : Control) : ControlEvent → Control → Option Round → Prop
  | receive (chunk) : ControlStep c (.receive chunk) (serialReceive c chunk) none
  | silence : c.pc = .silence → ControlStep c .control (silenceNmea c) none
  | sample {kind} : c.pc = .poll kind →
      ControlStep c .control { c with pc := .read kind c.rbUartIn.fill } none
  | read {kind rbSize c' round} : c.pc = .read kind rbSize →
      readAndScan kind rbSize c = some (c', round) → ControlStep c .control c' (some round)
  | check {j kind scratchpad} : c.pc = .check j →
      ControlStep c .control { c with pc := .poll kind, scratchpad := scratchpad } none

/-- **Inversion of a step.** -/
theorem controlMachine_inv {c c' : Control} {e : ControlEvent} {answer : Option Round}
    (h : controlMachine c e = some (c', answer)) : ControlStep c e c' answer := by
  cases e with
  | receive chunk =>
    cases h
    exact .receive chunk
  | control =>
    rw [controlMachine, controlStep] at h
    split at h
    · next hpc =>
      cases h
      exact .silence hpc
    · next kind hpc =>
      cases h
      exact .sample hpc
    · next kind rbSize hpc =>
      obtain ⟨⟨d, round⟩, hread, heq⟩ := Option.map_eq_some_iff.mp h
      cases heq
      exact .read hpc hread
    · next j hpc =>
      split at h
      · cases h
        exact .check hpc
      · cases h
        exact @ControlStep.check c _ _ c.scratchpad hpc

/-- A step always has an outcome. -/
theorem controlMachine_total (c : Control) (e : ControlEvent) :
    ∃ c' answer, controlMachine c e = some (c', answer) := by
  cases e with
  | receive chunk => exact ⟨_, _, rfl⟩
  | control =>
    rw [controlMachine, controlStep]
    split
    · exact ⟨_, _, rfl⟩
    · exact ⟨_, _, rfl⟩
    · next kind rbSize hpc =>
      obtain ⟨c', round, hread, -⟩ := readAndScan_spec kind rbSize c
      exact ⟨c', some round, by rw [hread]; rfl⟩
    · split <;> exact ⟨_, _, rfl⟩

/-! ## Acknowledged and stored -/

/-- The frames that the round about to be made will find fit in the room left in
`rbUbxMsg_p`. -/
def RoomForFrames (c : Control) : ControlEvent → Prop
  | .control => ∀ kind rbSize, c.pc = .read kind rbSize →
      ∀ spans, Scan (frameItem (ringbufferRead c.rbUartIn c.scratchpad rbSize).buf) rbSize 0 spans →
        totalLen spans ≤ RINGBUFFER_SIZE - c.rbUbxMsg.fill
  | .receive _ => True

/-- Every acknowledged frame is in the ring buffer, and nothing else. -/
structure AckedStored (acked : List AckedFrame) (rb : Ringbuffer) : Prop where
  whole : ∀ f ∈ acked, f.StoredWhole
  contents_eq : rb.contents = acked.flatMap AckedFrame.bytes

/-- The frames of a round are stored exactly when there is room for them. -/
theorem round_stored_iff {c c' : Control} {e : ControlEvent} {answer : Option Round}
    (hwf : c.rbUbxMsg.Wf) (hstep : controlMachine c e = some (c', answer)) :
    c'.rbUbxMsg.Wf ∧
      (RoomForFrames c e ↔ ∀ round ∈ answer, ∀ f ∈ round.acked, f.StoredWhole) := by
  cases controlMachine_inv hstep with
  | receive chunk => exact ⟨hwf, by simp [RoomForFrames]⟩
  | silence hpc => exact ⟨hwf, by simp [RoomForFrames, hpc]⟩
  | sample hpc => exact ⟨hwf, by simp [RoomForFrames, hpc]⟩
  | check hpc => exact ⟨hwf, by simp [RoomForFrames, hpc]⟩
  | @read kind rbSize _ round hpc hread =>
    obtain ⟨c'', round', hread', -, hpad, hscan, -, -, hkept⟩ := readAndScan_spec kind rbSize c
    rw [hread] at hread'
    cases hread'
    replace hkept := hkept hwf
    refine ⟨hkept.wf, ?_⟩
    have hroom : RoomForFrames c .control ↔
        totalLen (round.taken.map TakenFrame.span) ≤ RINGBUFFER_SIZE - c.rbUbxMsg.fill := by
      rw [hpad] at hscan
      constructor
      · intro h
        exact h kind rbSize hpc _ hscan
      · intro h kind' rbSize' hpc' spans hspans
        rw [hpc] at hpc'
        cases hpc'
        rw [hspans.unique hscan]
        exact h
    have hfill := hwf.fill_le
    have hsize := hwf.size_eq
    have hall : (∀ f ∈ round.taken, f.Kept) ↔ ∀ f ∈ round.acked, f.StoredWhole := by
      simp [Round.acked, TakenFrame.Kept, AckedFrame.StoredWhole]
    rw [hroom]
    simp only [Option.mem_def, Option.some.injEq, forall_eq', ← hall, hkept.all_iff,
      length_contents]
    omega

/-- The bytes kept of a round are those of its stored frames. -/
theorem keptBytes_round (round : Round) :
    keptBytes round.scratchpad round.taken
      = (round.acked.filter fun f => f.StoredWhole).flatMap AckedFrame.bytes := by
  rw [keptBytes, Round.acked, List.filter_map, List.flatMap_map]
  congr 2
  funext f
  refine decide_eq_decide.mpr ?_
  rw [TakenFrame.Kept, AckedFrame.StoredWhole, length_slice]

theorem roundsOf_append (answers answers' : List (Option Round)) :
    roundsOf (answers ++ answers') = roundsOf answers ++ roundsOf answers' := by
  simp [roundsOf]

theorem ackedFrames_append (answers answers' : List (Option Round)) :
    ackedFrames (answers ++ answers') = ackedFrames answers ++ ackedFrames answers' := by
  simp [ackedFrames, roundsOf]

theorem mem_ackedFrames {answers : List (Option Round)} {f : AckedFrame} :
    f ∈ ackedFrames answers ↔ ∃ answer ∈ answers, ∃ round ∈ answer, f ∈ round.acked := by
  simp [ackedFrames, roundsOf]

/-- Only stored frames are in `rbUbxMsg_p`, and all of them, in order. -/
structure MsgStore (c : Control) (answers : List (Option Round)) : Prop where
  wf : c.rbUbxMsg.Wf
  contents_eq : c.rbUbxMsg.contents
    = ((ackedFrames answers).filter fun f => f.StoredWhole).flatMap AckedFrame.bytes

/-- **A step adds the stored ones of its frames.** -/
theorem msgStore_step {c c' : Control} {e : ControlEvent} {answers : List (Option Round)}
    {answer : Option Round} (h : MsgStore c answers)
    (hstep : controlMachine c e = some (c', answer)) : MsgStore c' (answers ++ [answer]) := by
  obtain ⟨hwf, hcont⟩ := h
  have hquiet : ackedFrames (answers ++ [none]) = ackedFrames answers := by
    rw [ackedFrames_append]
    exact List.append_nil _
  cases controlMachine_inv hstep with
  | receive chunk => exact ⟨hwf, by rw [hquiet]; exact hcont⟩
  | silence hpc => exact ⟨hwf, by rw [hquiet]; exact hcont⟩
  | sample hpc => exact ⟨hwf, by rw [hquiet]; exact hcont⟩
  | check hpc => exact ⟨hwf, by rw [hquiet]; exact hcont⟩
  | @read kind rbSize _ round hpc hread =>
    obtain ⟨c'', round', hread', -, -, -, -, -, hkept⟩ := readAndScan_spec kind rbSize c
    rw [hread] at hread'
    cases hread'
    replace hkept := hkept hwf
    have hround : ackedFrames [some round] = round.acked := by
      simp [ackedFrames, roundsOf]
    refine ⟨hkept.wf, ?_⟩
    rw [hkept.contents_eq, hcont, keptBytes_round, ackedFrames_append, hround, List.filter_append,
      List.flatMap_append]

/-- **Every acknowledged frame is stored whole exactly while every round's
frames fit in the room left**, in every run of the two threads. -/
theorem control_stores_acked_iff (heapIn heapMsg stack : Mem) (events : List ControlEvent) :
    ∃ c answers,
      Machine.run controlMachine (prepMonitoringStruct heapIn heapMsg stack) events
        = some (c, answers) ∧
      (AckedStored (ackedFrames answers) c.rbUbxMsg ↔
        Machine.Along controlMachine RoomForFrames (prepMonitoringStruct heapIn heapMsg stack)
          events) := by
  have hwf : (prepMonitoringStruct heapIn heapMsg stack).rbUbxMsg.Wf := ringbufferInit_wf heapMsg
  obtain ⟨c, answers, hrun, -⟩ := Machine.run_total (m := controlMachine)
    (fun c => c.rbUbxMsg.Wf) (fun c e hwf => by
      obtain ⟨c', answer, hstep⟩ := controlMachine_total c e
      exact ⟨c', answer, hstep, (round_stored_iff hwf hstep).1⟩) hwf events
  have halong := Machine.along_iff_answers (fun c => c.rbUbxMsg.Wf) RoomForFrames
    (fun answer => ∀ round ∈ answer, ∀ f ∈ round.acked, f.StoredWhole)
    (fun c e c' answer hwf hstep => round_stored_iff hwf hstep) hwf hrun
  have hstore : MsgStore c answers :=
    Machine.run_history (fun c _ answers => MsgStore c answers)
      (fun _ _ _ _ _ _ h hstep => msgStore_step h hstep) ⟨hwf, contents_init heapMsg⟩ hrun
  refine ⟨c, answers, hrun, ?_⟩
  rw [halong]
  constructor
  · rintro ⟨hwhole, -⟩ answer hanswer round hround f hf
    exact hwhole f (mem_ackedFrames.mpr ⟨answer, hanswer, round, hround, hf⟩)
  · intro h
    have hwhole : ∀ f ∈ ackedFrames answers, f.StoredWhole := by
      intro f hf
      obtain ⟨answer, hanswer, round, hround, hf⟩ := mem_ackedFrames.mp hf
      exact h answer hanswer round hround f hf
    refine ⟨hwhole, ?_⟩
    rw [hstore.contents_eq, List.filter_eq_self.mpr fun f hf => decide_eq_true (hwhole f hf)]

/-! ## A run on which a frame is lost -/

/-- Chunks received one after the other are appended, while they fit. -/
theorem run_receives (chunks : List Chunk) : ∀ (c : Control) (q : List UInt8),
    RingStores c.rbUartIn q →
    (q ++ chunks.flatMap Chunk.bytes).length ≤ RINGBUFFER_SIZE →
    ∃ rb, Machine.run controlMachine c (chunks.map .receive)
        = some ({ c with rbUartIn := rb }, chunks.map fun _ => none) ∧
      RingStores rb (q ++ chunks.flatMap Chunk.bytes) := by
  induction chunks with
  | nil => exact fun c q h _ => ⟨c.rbUartIn, rfl, by simpa using h⟩
  | cons chunk chunks ih =>
    intro c q h hlen
    rw [List.flatMap_cons, ← List.append_assoc] at hlen ⊢
    have hfill : c.rbUartIn.fill = q.length := by rw [← length_contents, h.contents_eq]
    have hsize := h.wf.size_eq
    have hfit : chunk.bytes.length ≤ c.rbUartIn.size - c.rbUartIn.fill := by
      rw [List.length_append, List.length_append] at hlen
      omega
    obtain ⟨-, hwf, hcont⟩ := ringbufferWrite_spec h.wf (memOfList chunk.bytes) _ hfit
    rw [slice_memOfList, h.contents_eq] at hcont
    obtain ⟨rb, hrun, hrb⟩ := ih (serialReceive c chunk) (q ++ chunk.bytes) ⟨hwf, hcont⟩ hlen
    exact ⟨rb, Machine.run_cons_eq_some.mpr ⟨_, _, _, rfl, hrun, rfl⟩, hrb⟩

/-- **A round reads what arrived since the one before**, unless that is
nothing or a full buffer. -/
theorem run_round {c : Control} {kind : RoundKind} (hpc : c.pc = .poll kind)
    (huart : RingStores c.rbUartIn []) (hmsg : c.rbUbxMsg.Wf) (chunks : List Chunk)
    (hpos : 0 < (chunks.flatMap Chunk.bytes).length)
    (hlt : (chunks.flatMap Chunk.bytes).length < RINGBUFFER_SIZE) :
    ∃ c' round, Machine.run controlMachine c (chunks.map .receive ++ [.control, .control])
        = some (c', chunks.map (fun _ => none) ++ [none, some round]) ∧
      c'.pc = .check kind.next ∧ RingStores c'.rbUartIn [] ∧
      slice round.scratchpad 0 (chunks.flatMap Chunk.bytes).length = chunks.flatMap Chunk.bytes ∧
      Scan (frameItem round.scratchpad) (chunks.flatMap Chunk.bytes).length 0
        (round.taken.map TakenFrame.span) ∧
      KeptIn round.scratchpad c.rbUbxMsg.contents c'.rbUbxMsg round.taken := by
  obtain ⟨rb, hrun, hrb⟩ := run_receives chunks c [] huart hlt.le
  rw [List.nil_append] at hrb
  have hfill : rb.fill = (chunks.flatMap Chunk.bytes).length := by
    rw [← length_contents, hrb.contents_eq]
  have hsize := hrb.wf.size_eq
  obtain ⟨-, hwf, hcont, hbuf, -⟩ := ringbufferRead_spec hrb.wf c.scratchpad _ le_rfl
    (hrb.wf.read_ne_write (by omega) (by omega))
  let d : Control := { c with rbUartIn := rb, pc := .read kind rb.fill }
  obtain ⟨c', round, hread, -, hpad, hscan, hpc', huart', hkept⟩ :=
    readAndScan_spec kind rb.fill d
  refine ⟨c', round, Machine.run_append hrun ?_, hpc', ?_, ?_, hfill ▸ hscan, hkept hmsg⟩
  · refine Machine.run_cons_eq_some.mpr ⟨d, none, [some round], ?_, ?_, rfl⟩
    · simp only [controlMachine, controlStep, hpc, ringbufferCurrentSize, d]
    · refine Machine.run_cons_eq_some.mpr ⟨c', some round, [], ?_, rfl, rfl⟩
      simp only [controlMachine, controlStep, d] at hread ⊢
      rw [hread]
      rfl
  · rw [huart']
    exact ⟨hwf, by rw [hcont, ← length_contents, List.drop_length]⟩
  · rw [hpad, hbuf, ← hfill, slice_memcpy_front, ← length_contents, slice_memOfList,
      hrb.contents_eq]

theorem ackedFrames_quiet {α : Type} (xs : List α) (round : Round) :
    ackedFrames (xs.map (fun _ => none) ++ [none, some round]) = round.acked := by
  simp [ackedFrames, roundsOf]

/-- A round that finds nothing but frames stores all of them exactly when they
fit. -/
theorem run_round_frames (c : Control) (kind : RoundKind) (hpc : c.pc = .poll kind)
    (huart : RingStores c.rbUartIn []) (hmsg : c.rbUbxMsg.Wf) (chunks : List Chunk)
    (frames : List UbxFrame)
    (hbytes : chunks.flatMap Chunk.bytes = frames.flatMap UbxFrame.bytes)
    (hpos : 0 < (frames.flatMap UbxFrame.bytes).length)
    (hlt : (frames.flatMap UbxFrame.bytes).length < RINGBUFFER_SIZE) :
    ∃ c' answers, Machine.run controlMachine c (chunks.map .receive ++ [.control, .control])
        = some (c', answers) ∧
      c'.pc = .check kind.next ∧ RingStores c'.rbUartIn [] ∧ c'.rbUbxMsg.Wf ∧
      ((∀ f ∈ ackedFrames answers, f.StoredWhole) ↔
        c.rbUbxMsg.fill + (frames.flatMap UbxFrame.bytes).length ≤ RINGBUFFER_SIZE) ∧
      (c.rbUbxMsg.fill + (frames.flatMap UbxFrame.bytes).length ≤ RINGBUFFER_SIZE →
        c'.rbUbxMsg.fill = c.rbUbxMsg.fill + (frames.flatMap UbxFrame.bytes).length) := by
  obtain ⟨c', round, hrun, hpc', huart', hslice, hscan, hkept⟩ :=
    run_round hpc huart hmsg chunks (by rw [hbytes]; exact hpos) (by rw [hbytes]; exact hlt)
  rw [hbytes] at hslice hscan
  have htotal := totalLen_of_frames frames hslice hscan
  have hall := hkept.all_iff
  rw [htotal, length_contents] at hall
  refine ⟨c', _, hrun, hpc', huart', hkept.wf, ?_, fun hfit => ?_⟩
  · rw [ackedFrames_quiet, ← hall]
    simp [Round.acked, TakenFrame.Kept, AckedFrame.StoredWhole]
  · rw [← length_contents c'.rbUbxMsg, hkept.contents_eq, List.length_append, length_contents,
      length_keptBytes_of_all (hall.mpr hfit), htotal]

/-- An almanac of satellite 1, with zeros for the orbit. -/
def almanacOf1 : UbxFrame where
  msgClass := UBX_CLASS_AID
  msgId := UBX_AID_ALM
  payload := 1 :: List.replicate 39 0
  payload_lt := by decide

/-- Health, UTC and ionosphere parameters, all zero. -/
def huiOfZeros : UbxFrame where
  msgClass := UBX_CLASS_AID
  msgId := UBX_AID_HUI
  payload := List.replicate 72 0
  payload_lt := by decide

/-- One frame, received in one piece. -/
def chunkOf (f : UbxFrame) (h : f.payload.length ≤ 92) : Chunk where
  bytes := f.bytes
  pos := by rw [length_bytes]; omega
  le := by rw [length_bytes, UART_READ_MAX]; omega

/-- 104 almanacs, 4992 bytes, in the first round, and one AID-HUI frame in the
second. -/
def overfull : List ControlEvent :=
  .control :: ((List.replicate 104 (chunkOf almanacOf1 (by decide))).map .receive
    ++ [.control, .control]
    ++ .control :: ([chunkOf huiOfZeros (by decide)].map .receive ++ [.control, .control]))

theorem flatMap_chunkOf (n : Nat) (f : UbxFrame) (h : f.payload.length ≤ 92) :
    (List.replicate n (chunkOf f h)).flatMap Chunk.bytes
      = (List.replicate n f).flatMap UbxFrame.bytes := by
  rw [List.flatMap_def, List.flatMap_def, List.map_replicate, List.map_replicate]
  rfl

/-- **An acknowledged frame is lost** when 8 bytes of room are left for it. -/
theorem acked_not_stored : ∃ c answers,
    Machine.run controlMachine (prepMonitoringStruct sevens sevens sevens) overfull
      = some (c, answers) ∧
      ¬ AckedStored (ackedFrames answers) c.rbUbxMsg := by
  have hS : RINGBUFFER_SIZE = 5000 := rfl
  have hlen1 : ((List.replicate 104 almanacOf1).flatMap UbxFrame.bytes).length = 4992 := by
    rw [List.length_flatMap, List.map_replicate, List.sum_replicate_nat]
    rfl
  have hlen2 : ([huiOfZeros].flatMap UbxFrame.bytes).length = 80 := rfl
  -- the first round stores its frames
  obtain ⟨c1, answers1, hrun1, hpc1, huart1, hwf1, -, hfill1⟩ := run_round_frames
    (silenceNmea (prepMonitoringStruct sevens sevens sevens)) .aid rfl
    ⟨ringbufferClear_wf _, rfl⟩ (ringbufferInit_wf sevens) _ (List.replicate 104 almanacOf1)
    (flatMap_chunkOf 104 almanacOf1 (by decide)) (by omega) (by omega)
  have hzero : (silenceNmea (prepMonitoringStruct sevens sevens sevens)).rbUbxMsg.fill = 0 := rfl
  rw [hzero, hlen1] at hfill1
  replace hfill1 := hfill1 (by omega)
  -- the test of the `for` loop leaves the buffers alone
  obtain ⟨c2, answer2, hstep2⟩ := controlMachine_total c1 .control
  obtain ⟨kind, pad, rfl, rfl⟩ : ∃ kind pad,
      c2 = { c1 with pc := .poll kind, scratchpad := pad } ∧ answer2 = none := by
    cases controlMachine_inv hstep2 with
    | silence hpc => rw [hpc1] at hpc; cases hpc
    | sample hpc => rw [hpc1] at hpc; cases hpc
    | read hpc _ => rw [hpc1] at hpc; cases hpc
    | check _ => exact ⟨_, _, rfl, rfl⟩
  -- the second round finds no room
  obtain ⟨c3, answers3, hrun3, -, -, -, hall3, -⟩ := run_round_frames
    { c1 with pc := .poll kind, scratchpad := pad } kind rfl huart1 hwf1
    [chunkOf huiOfZeros (by decide)] [huiOfZeros] rfl (by omega) (by omega)
  refine ⟨c3, none :: (answers1 ++ none :: answers3),
    Machine.run_cons_eq_some.mpr ⟨_, none, _, rfl, Machine.run_append hrun1
      (Machine.run_cons_eq_some.mpr ⟨_, none, _, hstep2, hrun3, rfl⟩), rfl⟩, ?_⟩
  rintro ⟨hwhole, -⟩
  have hlost : ∀ f ∈ ackedFrames answers3, f.StoredWhole := by
    intro f hf
    obtain ⟨answer, hanswer, hround⟩ := mem_ackedFrames.mp hf
    exact hwhole f (mem_ackedFrames.mpr ⟨answer, by simp [hanswer], hround⟩)
  have := hall3.mp hlost
  simp only [hfill1, hlen2] at this
  omega

end UbloxRead
