/-
UbloxRead.ReceiverTheorems — the receiving side refines `receiverMachine`.

`Receives` relates a state of the code to one of the abstract machine: the ring
buffer stores the queue, `rbUbxMsg_p` holds the stored frames, and the program
counters and the flags are the same. `receives_step` is the simulation.

The one thing in the way is `ringbuffer_read` with coinciding pointers, which takes
its length off `fill` and copies nothing; a full buffer that has wrapped is such a
case. Apart from it every run of the code, of any length and with any amount of
bytes, is a run of the abstract machine (`control_refines_receiver`), and what that
does to the bytes is plain: `control_reads_chunks`.

What such a round does is part of `control_rounds_fresh`, which holds in every run:
it finds zeros, takes no frame and changes nothing but `fill`. `Fresh` is the
invariant, `fresh_step` the step lemma.
-/
import UbloxRead.Receiver
import UbloxRead.RoundsTheorems

namespace UbloxRead

open Lib

/-- The code and the abstract machine are in the same state. -/
structure Receives (c : Control) (r : Receiver) : Prop where
  pc_eq : c.pc = r.pc
  queue : RingStores c.rbUartIn r.queue
  chk_eq : c.msgChk = r.chk
  stored : HoldsFrames c.rbUbxMsg r.stored
  sampled : ∀ kind n, r.pc = .read kind n → n ≤ r.queue.length

/-- No round reads with coinciding pointers. -/
def RoundCopies (c : Control) : ControlEvent → Prop
  | .control => ∀ kind n, c.pc = .read kind n → ReadCopies c.rbUartIn (.read c.scratchpad n)
  | .receive _ => True

/-- The queue is as long as the ring buffer is full. -/
theorem RingStores.fill_eq {rb : Ringbuffer} {q : List UInt8} (h : RingStores rb q) :
    rb.fill = q.length := by
  rw [← h.contents_eq, length_contents]

theorem receives_start (heapIn heapMsg stack : Mem) :
    Receives (prepMonitoringStruct heapIn heapMsg stack) receiverStart where
  pc_eq := rfl
  queue := ⟨ringbufferInit_wf heapIn, contents_init heapIn⟩
  chk_eq := rfl
  stored := ⟨ringbufferInit_wf heapMsg, rfl, contents_init heapMsg⟩
  sampled := nofun

/-- A chunk is queued where it has room. -/
theorem receives_receive {c : Control} {r : Receiver} (h : Receives c r) (chunk : Chunk) :
    Receives (serialReceive c chunk) (r.receive chunk) := by
  obtain ⟨hpc, hqueue, hchk, hstored, hsampled⟩ := h
  have hwrite := (ringCall_write_refines hqueue (memOfList chunk.bytes) chunk.bytes.length).2
  unfold Receiver.receive
  by_cases hroom : r.HasRoom chunk
  · rw [if_pos hroom]
    refine ⟨hpc, ?_, hchk, hstored, fun kind n hread => ?_⟩
    · simp only [fifoCall, if_pos (show chunk.bytes.length ≤ _ from hroom), slice_memOfList] at hwrite
      exact hwrite
    · have hle := hsampled kind n hread
      rw [List.length_append]
      omega
  · rw [if_neg hroom]
    simp only [fifoCall, if_neg (show ¬ chunk.bytes.length ≤ _ from hroom)] at hwrite
    exact ⟨hpc, hwrite, hchk, hstored, hsampled⟩

/-- The frames of a round are those in its bytes. -/
theorem accepted_of_read {c c' : Control} {kind : RoundKind} {n : Nat} {round : Round}
    (hread : readAndScan kind n c = some (c', round)) : round.accepted = deframe round.bytes := by
  obtain ⟨_, _, hread', hsize, -, hscan, -⟩ := readAndScan_spec kind n c
  rw [hread] at hread'
  cases hread'
  have hframes := deframe_of_scan hscan
  rw [Nat.sub_zero, ← hsize, List.map_map] at hframes
  exact hframes.symm

/-- **A round reads the front of the queue**, and takes its frames. -/
theorem receives_read {c c' : Control} {r : Receiver} {kind : RoundKind} {n : Nat} {round : Round}
    (h : Receives c r) (hpc : c.pc = .read kind n)
    (hcopies : ReadCopies c.rbUartIn (.read c.scratchpad n))
    (hread : readAndScan kind n c = some (c', round)) :
    round.bytes = r.queue.take n ∧ Receives c' (r.takeRound kind n) := by
  obtain ⟨hpceq, hqueue, hchk, hstored, hsampled⟩ := h
  have hle : n ≤ r.queue.length := hsampled kind n (hpceq.symm.trans hpc)
  obtain ⟨hbuf, hrest⟩ := ringCall_read_refines hqueue c.scratchpad hcopies
  simp only [ringCall, fifoCall, if_pos hle] at hbuf hrest
  have haccepted := accepted_of_read hread
  obtain ⟨c'', round', hread', hsize, hpad, -, hpc', huart, -⟩ := readAndScan_spec kind n c
  rw [hread] at hread'
  cases hread'
  obtain ⟨-, hchk', -, hstored'⟩ := readAndScan_accepted hread
  have hbytes : round.bytes = r.queue.take n := by
    simp only [RingAnswer.mk.injEq, Option.some.injEq] at hbuf
    rw [Round.bytes, hsize, hpad, hbuf.2, slice_memcpy_front, ← take_slice _ 0 hle, slice_memOfList]
  rw [hbytes] at haccepted
  refine ⟨hbytes, hpc', ?_, ?_, ?_, fun kind' n' hpc'' => ?_⟩
  · rw [huart]
    exact hrest
  · rw [hchk', hchk, Round.update, haccepted]
    rfl
  · show HoldsFrames c'.rbUbxMsg ((deframe (r.queue.take n)).foldl storeFrame r.stored)
    rw [← haccepted]
    exact hstored' _ hstored
  · cases hpc''

/-- **A step of the code is the step of the abstract machine.** -/
theorem receives_step {c : Control} {r : Receiver} {e : ControlEvent} (h : Receives c r)
    (hok : RoundCopies c e) :
    ∃ c' answer r', controlMachine c e = some (c', answer) ∧
      receiverMachine r e = some (r', answer.map Round.bytes) ∧ Receives c' r' := by
  cases e with
  | receive chunk => exact ⟨_, none, _, rfl, rfl, receives_receive h chunk⟩
  | control =>
    have hpceq := h.pc_eq
    cases hpc : c.pc with
    | silence =>
      refine ⟨silenceNmea c, none, { r with pc := .poll .aid, queue := [] },
        by rw [controlMachine, controlStep, hpc], ?_,
        ⟨rfl, ⟨ringbufferClear_wf _, rfl⟩, h.chk_eq, h.stored, by simp⟩⟩
      rw [receiverMachine, Receiver.step, ← hpceq, hpc]
      rfl
    | poll kind =>
      refine ⟨{ c with pc := .read kind c.rbUartIn.fill }, none,
        { r with pc := .read kind r.queue.length }, by rw [controlMachine, controlStep, hpc]; rfl, ?_,
        ⟨by rw [h.queue.fill_eq], h.queue, h.chk_eq, h.stored, ?_⟩⟩
      · rw [receiverMachine, Receiver.step, ← hpceq, hpc]
        rfl
      · intro kind' n hread
        cases hread
        exact Nat.le_refl _
    | read kind n =>
      obtain ⟨c', round, hread, -⟩ := readAndScan_spec kind n c
      obtain ⟨hbytes, hreceives⟩ := receives_read h hpc (hok kind n hpc) hread
      refine ⟨c', some round, r.takeRound kind n, ?_, ?_, hreceives⟩
      · rw [controlMachine, controlStep, hpc]
        simp only [hread, Option.map_some]
      · rw [receiverMachine, Receiver.step, ← hpceq, hpc, Option.map_some, hbytes]
    | check j =>
      obtain ⟨scratchpad, hcheck⟩ := controlStep_check hpc
      refine ⟨_, none, { r with pc := .poll (kindAt j r.chk) }, hcheck, ?_,
        ⟨by rw [h.chk_eq], h.queue, h.chk_eq, h.stored, by simp⟩⟩
      rw [receiverMachine, Receiver.step, ← hpceq, hpc]
      rfl

theorem receives_run {heapIn heapMsg stack : Mem} {events : List ControlEvent}
    (hok : Machine.Along controlMachine RoundCopies (prepMonitoringStruct heapIn heapMsg stack)
      events) :
    ∃ c answers,
      Machine.run controlMachine (prepMonitoringStruct heapIn heapMsg stack) events
        = some (c, answers) ∧
      ∃ r, Machine.run receiverMachine receiverStart events
        = some (r, answers.map (Option.map Round.bytes)) ∧ Receives c r :=
  Machine.run_history_along
    (fun c events answers => ∃ r, Machine.run receiverMachine receiverStart events
      = some (r, answers.map (Option.map Round.bytes)) ∧ Receives c r) RoundCopies
    (fun c events answers e h hok => by
      obtain ⟨r, hrun, hreceives⟩ := h
      obtain ⟨c', answer, r', hstep, hstep', hreceives'⟩ := receives_step hreceives hok
      refine ⟨c', answer, hstep, r', ?_, hreceives'⟩
      rw [List.map_append]
      exact Machine.run_append hrun (Machine.run_cons_eq_some.mpr ⟨_, _, [], hstep', rfl, rfl⟩))
    ⟨receiverStart, rfl, receives_start heapIn heapMsg stack⟩ hok

/-- **The code refines the abstract machine.** Every run in which no round reads with
coinciding pointers gives the rounds of the abstract machine, byte for byte, and
ends in the state it ends in. -/
theorem control_refines_receiver (heapIn heapMsg stack : Mem) (events : List ControlEvent)
    (hok : Machine.Along controlMachine RoundCopies (prepMonitoringStruct heapIn heapMsg stack)
      events) :
    ∃ c answers r,
      Machine.run controlMachine (prepMonitoringStruct heapIn heapMsg stack) events
        = some (c, answers) ∧
      Machine.run receiverMachine receiverStart events
        = some (r, answers.map (Option.map Round.bytes)) ∧
      Receives c r := by
  obtain ⟨c, answers, hrun, r, hreceiver, hreceives⟩ := receives_run hok
  exact ⟨c, answers, r, hrun, hreceiver, hreceives⟩

/-- A chunk arrives and is cleared away, another one goes into a round. -/
def twoChunks : List ControlEvent :=
  [.receive (chunkOf aidIniPoll (by decide)), .control, .receive (chunkOf aidIniPoll (by decide)),
    .control, .control]

theorem twoChunks_copies :
    Machine.Along controlMachine RoundCopies (prepMonitoringStruct sevens sevens sevens)
      twoChunks := by
  refine ⟨trivial, fun c o h => ?_⟩
  cases h
  refine ⟨nofun, fun c o h => ?_⟩
  cases h
  refine ⟨trivial, fun c o h => ?_⟩
  cases h
  refine ⟨nofun, fun c o h => ?_⟩
  cases h
  -- eight bytes lie between the pointers
  exact ⟨fun _ _ _ heq => absurd heq (by decide), fun _ _ _ => trivial⟩

theorem control_refines_receiver_two_chunks :
    ∃ c answers r,
      Machine.run controlMachine (prepMonitoringStruct sevens sevens sevens) twoChunks
        = some (c, answers) ∧
      Machine.run receiverMachine receiverStart twoChunks
        = some (r, answers.map (Option.map Round.bytes)) ∧
      Receives c r :=
  control_refines_receiver _ _ _ _ twoChunks_copies

/-! ## What happens to the bytes -/

/-- The bytes of the rounds and those still queued are those of chunks that
arrived. -/
structure Keeps (r : Receiver) (events : List ControlEvent) (rounds : List (List UInt8))
    (kept : List Chunk) : Prop where
  sublist : kept.Sublist (chunksOf events)
  bytes_eq : rounds.flatten ++ r.queue = kept.flatMap Chunk.bytes
  silent : r.pc = .silence → rounds = []

/-- Room in the queue is room in the ring buffer. -/
theorem Receives.hasRoom_iff {c : Control} {r : Receiver} (h : Receives c r) (chunk : Chunk) :
    r.HasRoom chunk ↔ chunk.bytes.length ≤ c.rbUartIn.size - c.rbUartIn.fill := by
  rw [Receiver.HasRoom, h.queue.fill_eq, h.queue.wf.size_eq]

/-- **A step keeps chunks whole**, and in order. -/
theorem keeps_step {c : Control} {r r' : Receiver} (hreceives : Receives c r) {e : ControlEvent}
    {events : List ControlEvent} {rounds : List (List UInt8)} {kept : List Chunk}
    {taken : Option (List UInt8)} (h : Keeps r events rounds kept)
    (hstep : receiverMachine r e = some (r', taken)) :
    Keeps r' (events ++ [e]) (rounds ++ taken.toList) (keepChunk c kept e) := by
  obtain ⟨hsublist, hbytes, hsilent⟩ := h
  have hchunks : chunksOf (events ++ [e]) = chunksOf events ++ chunksOf [e] :=
    List.filterMap_append ..
  cases e with
  | receive chunk =>
    cases hstep
    rw [Option.toList_none, List.append_nil, keepChunk, Receiver.receive]
    simp only [← hreceives.hasRoom_iff chunk]
    by_cases hroom : r.HasRoom chunk
    · rw [if_pos hroom, if_pos hroom]
      refine ⟨?_, ?_, hsilent⟩
      · rw [hchunks]
        exact hsublist.append (List.Sublist.refl _)
      · rw [← List.append_assoc, hbytes, List.flatMap_append, List.flatMap_singleton]
    · rw [if_neg hroom, if_neg hroom]
      exact ⟨hchunks ▸ hsublist.trans (List.sublist_append_left ..), hbytes, hsilent⟩
  | control =>
    have hnone : chunksOf events ++ chunksOf [.control] = chunksOf events := List.append_nil _
    rw [hnone] at hchunks
    rw [receiverMachine, Receiver.step] at hstep
    rw [keepChunk, hreceives.pc_eq]
    cases hpc : r.pc with
    | silence =>
      rw [hpc] at hstep
      cases hstep
      -- what has arrived is cleared away
      refine ⟨List.nil_sublist _, ?_, nofun⟩
      rw [hsilent hpc]
      rfl
    | poll kind =>
      rw [hpc] at hstep
      cases hstep
      refine ⟨hchunks ▸ hsublist, ?_, nofun⟩
      rw [Option.toList_none, List.append_nil]
      exact hbytes
    | read kind n =>
      rw [hpc] at hstep
      cases hstep
      refine ⟨hchunks ▸ hsublist, ?_, nofun⟩
      show (rounds ++ [r.queue.take n]).flatten ++ r.queue.drop n = _
      rw [List.flatten_concat, List.append_assoc, List.take_append_drop]
      exact hbytes
    | check j =>
      rw [hpc] at hstep
      cases hstep
      refine ⟨hchunks ▸ hsublist, ?_, nofun⟩
      rw [Option.toList_none, List.append_nil]
      exact hbytes

/-- Every run without coinciding pointers keeps the chunks that had room. -/
theorem keeps_run {start : Control} {events : List ControlEvent} (h0 : Receives start receiverStart)
    (hok : Machine.Along controlMachine RoundCopies start events) :
    ∃ c answers, Machine.run controlMachine start events = some (c, answers) ∧
      ∃ r, Receives c r ∧ Keeps r events ((roundsOf answers).map Round.bytes)
        (Machine.ghost controlMachine keepChunk start [] events) := by
  obtain ⟨c, answers, hrun, -, hkeeps⟩ := Machine.run_history_along
    (fun c events answers => Machine.run controlMachine start events = some (c, answers) ∧
      ∃ r, Receives c r ∧ Keeps r events ((roundsOf answers).map Round.bytes)
        (Machine.ghost controlMachine keepChunk start [] events)) RoundCopies
    (fun c events answers e h hok => by
      obtain ⟨hrun, r, hreceives, hkeeps⟩ := h
      obtain ⟨c', answer, r', hstep, hstep', hreceives'⟩ := receives_step hreceives hok
      refine ⟨c', answer, hstep, Machine.run_append hrun
        (Machine.run_cons_eq_some.mpr ⟨_, _, [], hstep, rfl, rfl⟩), r', hreceives', ?_⟩
      have hone : (roundsOf (answers ++ [answer])).map Round.bytes
          = (roundsOf answers).map Round.bytes ++ (answer.map Round.bytes).toList := by
        cases answer <;> simp [roundsOf]
      rw [Machine.ghost_concat hrun, hone]
      exact keeps_step hreceives hkeeps hstep')
    ⟨rfl, receiverStart, h0, List.Sublist.refl _, rfl, fun _ => rfl⟩ hok
  exact ⟨c, answers, hrun, hkeeps⟩

/-- In a run, the frames of every round are those in its bytes. -/
theorem accepted_run {c c' : Control} {events : List ControlEvent} {answers : List (Option Round)}
    (hrun : Machine.run controlMachine c events = some (c', answers)) :
    ∀ round ∈ roundsOf answers, round.accepted = deframe round.bytes := by
  refine rounds_run (fun _ _ rounds => ∀ round ∈ rounds, round.accepted = deframe round.bytes)
    (fun h hread => ?_) nofun hrun
  intro round hround
  rcases List.mem_append.mp hround with hround | hround
  · exact h round hround
  · rw [List.mem_singleton.mp hround]
    exact accepted_of_read hread

/-- **The rounds read the stream piece by piece.** As long as no round reads with
coinciding pointers, the bytes of the rounds, one after the other, and the bytes
still stored are the bytes of chunks that arrived, each of them whole, none twice
and all in their order. The chunks are those that had room when they arrived, but for
those that `ringbuffer_clear` gave up; and the frames of a round are those in its own
bytes. -/
theorem control_reads_chunks (heapIn heapMsg stack : Mem) (events : List ControlEvent)
    (hok : Machine.Along controlMachine RoundCopies (prepMonitoringStruct heapIn heapMsg stack)
      events) :
    ∃ c answers, ∃ kept : List Chunk,
      Machine.run controlMachine (prepMonitoringStruct heapIn heapMsg stack) events
        = some (c, answers) ∧
      kept = Machine.ghost controlMachine keepChunk (prepMonitoringStruct heapIn heapMsg stack) []
        events ∧
      kept.Sublist (chunksOf events) ∧
      (roundsOf answers).flatMap Round.bytes ++ c.rbUartIn.contents = kept.flatMap Chunk.bytes ∧
      ∀ round ∈ roundsOf answers, round.accepted = deframe round.bytes := by
  obtain ⟨c, answers, hrun, r, hreceives, hsublist, hbytes, -⟩ :=
    keeps_run (receives_start heapIn heapMsg stack) hok
  refine ⟨c, answers, _, hrun, rfl, hsublist, ?_, accepted_run hrun⟩
  rw [hreceives.queue.contents_eq, ← hbytes, List.flatMap_def]

theorem control_reads_chunks_two_chunks :
    ∃ c answers, ∃ kept : List Chunk,
      Machine.run controlMachine (prepMonitoringStruct sevens sevens sevens) twoChunks
        = some (c, answers) ∧
      kept = Machine.ghost controlMachine keepChunk (prepMonitoringStruct sevens sevens sevens) []
        twoChunks ∧
      kept.Sublist (chunksOf twoChunks) ∧
      (roundsOf answers).flatMap Round.bytes ++ c.rbUartIn.contents = kept.flatMap Chunk.bytes ∧
      ∀ round ∈ roundsOf answers, round.accepted = deframe round.bytes :=
  control_reads_chunks _ _ _ _ twoChunks_copies

/-! ## What a round sees -/

/-- A write leaves the size, and puts in no more than there is room for. -/
theorem ringbufferWrite_fill (rb : Ringbuffer) (buf : Mem) (len : Nat) :
    (ringbufferWrite rb buf len).rb.size = rb.size ∧
      rb.fill ≤ (ringbufferWrite rb buf len).rb.fill ∧
      (rb.fill ≤ rb.size → (ringbufferWrite rb buf len).rb.fill ≤ rb.size) := by
  by_cases hfull : rb.size - rb.fill < len
  · simp [ringbufferWrite, hfull]
  · have hroom : rb.fill ≤ rb.size → rb.fill + len ≤ rb.size := by omega
    unfold ringbufferWrite
    rw [if_neg hfull]
    split
    · simp only
      split <;> exact ⟨rfl, Nat.le_add_right _ _, hroom⟩
    · exact ⟨rfl, Nat.le_add_right _ _, hroom⟩

/-- A read leaves the size, and takes out no more than it was asked for. -/
theorem ringbufferRead_fill {rb : Ringbuffer} {len : Nat} (buf : Mem) (hle : len ≤ rb.fill) :
    (ringbufferRead rb buf len).rb.size = rb.size ∧
      (ringbufferRead rb buf len).rb.fill = rb.fill - len := by
  unfold ringbufferRead
  rw [if_pos hle]
  split
  · exact ⟨rfl, rfl⟩
  · split
    · simp only
      split <;> exact ⟨rfl, rfl⟩
    · exact ⟨rfl, rfl⟩

/-- A read writes the first `len` bytes of the block only. -/
theorem ringbufferRead_behind {rb : Ringbuffer} (buf : Mem) {len i : Nat}
    (hsize : rb.size = RINGBUFFER_SIZE) (hi : len ≤ i) :
    (ringbufferRead rb buf len).buf i = buf i := by
  unfold ringbufferRead
  split
  · split
    · exact memcpy_outside _ _ _ _ _ (by omega)
    · split
      · simp only
        split
        · exact memcpy_outside _ _ _ _ _ (by omega)
        · next hwrap =>
          -- two copies, the second from where the first ends
          have hlen1 : (rb.size - 1 - rb.read + 1 : Int).toNat ≤ len := by
            rw [uintOfInt, hsize, RINGBUFFER_SIZE] at hwrap
            rw [hsize, RINGBUFFER_SIZE]
            omega
          exact (memcpy_outside _ _ _ _ _ (by omega)).trans (memcpy_outside _ _ _ _ _ (by omega))
      · rfl
  · rfl

/-- Where no frame is, the loop does nothing. -/
theorem scanLoop_nothing {pad : Mem} (rb : Ringbuffer) (chk : MsgStrmCheck) {n : Nat}
    (hno : ∀ p < n, frameItem pad p = none) :
    ∃ s : ScanState, scanLoop n (n + 1) (scanStart pad rb chk) = some s ∧
      s.scratchpad = pad ∧ s.taken = [] ∧ s.rbUbxMsg = rb ∧ s.msgChk = chk := by
  obtain ⟨s, hloop, hpad, -, hnothing⟩ := scanLoop_total pad rb chk n
    (fun rb' chk' taken => taken = [] ∧ rb' = rb ∧ chk' = chk) ⟨rfl, rfl, rfl⟩
    (fun s _ l hl hfit _ => by
      have hpos := frameItem_pos hl
      rw [hno s.i (by omega)] at hl
      cases hl)
  exact ⟨s, hloop (n + 1) (Nat.lt_succ_self _), hpad, hnothing⟩

/-- A round clears the scratchpad it has read to. -/
theorem readAndScan_scratchpad {kind : RoundKind} {n : Nat} {c c' : Control} {round : Round}
    (h : readAndScan kind n c = some (c', round)) :
    round.rbSize = n ∧ round.scratchpad = (ringbufferRead c.rbUartIn c.scratchpad n).buf ∧
      c'.rbUartIn = (ringbufferRead c.rbUartIn c.scratchpad n).rb ∧
      c'.pc = .check kind.next ∧
      c'.scratchpad = memset round.scratchpad 0 0 SCRATCHPAD_BUF_SIZE := by
  obtain ⟨s, hloop, hpad, -⟩ := scanLoop_total (ringbufferRead c.rbUartIn c.scratchpad n).buf
    c.rbUbxMsg c.msgChk n (fun _ _ _ => True) trivial (fun _ _ _ _ _ _ => trivial)
  have hread : readAndScan kind n c = _ :=
    congrArg (Option.map _) (hloop (n + 1) (Nat.lt_succ_self _))
  rw [h] at hread
  cases hread
  exact ⟨rfl, rfl, rfl, rfl, congrArg (memset · 0 0 SCRATCHPAD_BUF_SIZE) hpad⟩

/-- Clearing wipes out what lies in front of the end. -/
theorem memset_of_behind {pad pad' : Mem} {n : Nat}
    (h : ∀ i, n ≤ i → pad i = memset pad' 0 0 n i) : memset pad 0 0 n = memset pad' 0 0 n := by
  funext i
  by_cases hi : i < n
  · simp [memset, hi]
  · rw [← h i (Nat.le_of_not_lt hi)]
    simp [memset, hi]

/-- Between rounds the scratchpad is cleared, and behind the bytes it had read every
round found it so. -/
structure Fresh (stack : Mem) (c : Control) (rounds : List Round) : Prop where
  size_eq : c.rbUartIn.size = RINGBUFFER_SIZE
  fill_le : c.rbUartIn.fill ≤ RINGBUFFER_SIZE
  sampled : ∀ kind n, c.pc = .read kind n → n ≤ c.rbUartIn.fill
  cleared : c.scratchpad = memset stack 0 0 SCRATCHPAD_BUF_SIZE
  seen : ∀ round ∈ rounds, round.rbSize ≤ SCRATCHPAD_BUF_SIZE ∧
    ∀ i, round.rbSize ≤ i → round.scratchpad i = memset stack 0 0 SCRATCHPAD_BUF_SIZE i

theorem fresh_start (heapIn heapMsg stack : Mem) :
    Fresh stack (prepMonitoringStruct heapIn heapMsg stack) [] where
  size_eq := rfl
  fill_le := Nat.zero_le _
  sampled := nofun
  cleared := rfl
  seen := nofun

/-- Clearing it again changes nothing. -/
theorem Fresh.memset_eq {stack : Mem} {c : Control} {rounds : List Round}
    (h : Fresh stack c rounds) : memset c.scratchpad 0 0 SCRATCHPAD_BUF_SIZE = c.scratchpad := by
  rw [h.cleared]
  exact memset_of_behind fun _ _ => rfl

/-- The test of the `for` loop clears the scratchpad, or leaves it. -/
theorem fresh_check {stack : Mem} {c : Control} {j : Nat} {rounds : List Round}
    (h : Fresh stack c rounds) (hpc : c.pc = .check j) :
    controlStep c = some ({ c with pc := .poll (kindAt j c.msgChk) }, none) := by
  rw [controlStep, hpc, kindAt, h.memset_eq]
  simp only
  split <;> rfl

/-- **A step leaves the scratchpad cleared.** -/
theorem fresh_step {stack : Mem} {c c' : Control} {e : ControlEvent} {answer : Option Round}
    {rounds : List Round} (h : Fresh stack c rounds)
    (hstep : controlMachine c e = some (c', answer)) :
    Fresh stack c' (rounds ++ roundsOf [answer]) := by
  have hquiet : rounds ++ roundsOf [none] = rounds := List.append_nil _
  cases controlMachine_inv hstep with
  | receive chunk =>
    obtain ⟨hsize, hgrow, hfill⟩ :=
      ringbufferWrite_fill c.rbUartIn (memOfList chunk.bytes) chunk.bytes.length
    rw [hquiet]
    exact ⟨hsize.trans h.size_eq, h.size_eq ▸ hfill (h.size_eq ▸ h.fill_le),
      fun kind n hread => (h.sampled kind n hread).trans hgrow, h.cleared, h.seen⟩
  | silence hpc =>
    rw [hquiet]
    exact ⟨rfl, Nat.zero_le _, by simp [silenceNmea], h.cleared, h.seen⟩
  | sample hpc =>
    rw [hquiet]
    refine ⟨h.size_eq, h.fill_le, fun kind' n hread => ?_, h.cleared, h.seen⟩
    cases hread
    exact Nat.le_refl _
  | @read kind n _ round hpc hread =>
    obtain ⟨hrb, hpad, huart, hpc', hclear⟩ := readAndScan_scratchpad hread
    have hle := h.sampled kind n hpc
    have hle' : n ≤ SCRATCHPAD_BUF_SIZE := hle.trans h.fill_le
    obtain ⟨hsize, hfill⟩ := ringbufferRead_fill c.scratchpad hle
    have hbehind : ∀ i, n ≤ i → round.scratchpad i = memset stack 0 0 SCRATCHPAD_BUF_SIZE i := by
      intro i hi
      rw [hpad, ringbufferRead_behind c.scratchpad h.size_eq hi, h.cleared]
    refine ⟨by rw [huart, hsize, h.size_eq], ?_, by simp [hpc'], ?_, ?_⟩
    · rw [huart, hfill]
      exact (Nat.sub_le _ _).trans h.fill_le
    · rw [hclear]
      exact memset_of_behind fun i hi => hbehind i (hle'.trans hi)
    · intro r hr
      rcases List.mem_append.mp hr with hr | hr
      · exact h.seen r hr
      · rw [List.mem_singleton.mp hr, hrb]
        exact ⟨hle', hbehind⟩
  | check hpc =>
    rw [controlMachine, fresh_check h hpc] at hstep
    cases hstep
    rw [hquiet]
    exact ⟨h.size_eq, h.fill_le, by simp, h.cleared, h.seen⟩

/-- Every run leaves the scratchpad cleared. -/
theorem fresh_run {heapIn heapMsg stack : Mem} {events : List ControlEvent} {c : Control}
    {answers : List (Option Round)}
    (hrun : Machine.run controlMachine (prepMonitoringStruct heapIn heapMsg stack) events
      = some (c, answers)) : Fresh stack c (roundsOf answers) :=
  Machine.run_history (fun c _ answers => Fresh stack c (roundsOf answers))
    (fun c events answers e c' answer h hstep => by
      rw [roundsOf_append]
      exact fresh_step h hstep)
    (fresh_start heapIn heapMsg stack) hrun

/-- Where the pointers coincide a round finds zeros. -/
theorem readAndScan_coinciding {stack : Mem} {c : Control} {kind : RoundKind} {n : Nat}
    {rounds : List Round} (h : Fresh stack c rounds) (hpc : c.pc = .read kind n)
    (heq : c.rbUartIn.read = c.rbUartIn.write) :
    readAndScan kind n c = some
      ({ c with pc := .check kind.next
                rbUartIn := { c.rbUartIn with fill := c.rbUartIn.fill - n } },
        { rbSize := n, scratchpad := c.scratchpad, taken := [] }) := by
  have hle := h.sampled kind n hpc
  have hle' : n ≤ SCRATCHPAD_BUF_SIZE := hle.trans h.fill_le
  have hread : ringbufferRead c.rbUartIn c.scratchpad n
      = { rb := { c.rbUartIn with fill := c.rbUartIn.fill - n }, buf := c.scratchpad
          ret := n, copied := [] } := by
    unfold ringbufferRead
    rw [if_pos hle, if_neg (by omega), if_neg (by omega)]
  have hno : ∀ p < n, frameItem c.scratchpad p = none := by
    intro p hp
    have hzero : c.scratchpad p = 0 := by
      rw [h.cleared]
      simp [memset, Nat.lt_of_lt_of_le hp hle']
    cases hitem : frameItem c.scratchpad p with
    | none => rfl
    | some l =>
      have hsync := (frameItem_eq_some.mp hitem).1.1
      rw [hzero] at hsync
      exact absurd hsync (by decide)
  obtain ⟨s, hloop, hpad, htaken, hrb, hchk⟩ := scanLoop_nothing c.rbUbxMsg c.msgChk hno
  simp only [readAndScan, hread, hloop, Option.map_some, hpad, htaken, hrb, hchk, h.memset_eq]

/-- **Every round starts afresh**, in every run. It reads no more bytes than the
scratchpad has, and behind them it finds what the first `memset` left there, so no
round sees a byte of an earlier one. Where the pointers of the ring buffer coincide
it finds zeros in front of them too: it takes no frame, sets no flag and stores
nothing, and only the count of the bytes that it gives up changes. -/
theorem control_rounds_fresh (heapIn heapMsg stack : Mem) (events : List ControlEvent) :
    ∃ c answers,
      Machine.run controlMachine (prepMonitoringStruct heapIn heapMsg stack) events
        = some (c, answers) ∧
      (∀ round ∈ roundsOf answers, round.rbSize ≤ SCRATCHPAD_BUF_SIZE ∧
        ∀ i, round.rbSize ≤ i → round.scratchpad i = memset stack 0 0 SCRATCHPAD_BUF_SIZE i) ∧
      ∀ kind n, c.pc = .read kind n → c.rbUartIn.read = c.rbUartIn.write →
        ∃ round, round.taken = [] ∧
          controlStep c = some
            ({ c with pc := .check kind.next
                      rbUartIn := { c.rbUartIn with fill := c.rbUartIn.fill - n } },
              some round) := by
  obtain ⟨c, answers, hrun⟩ :=
    run_control_total (prepMonitoringStruct heapIn heapMsg stack) events
  have hfresh := fresh_run hrun
  refine ⟨c, answers, hrun, hfresh.seen, fun kind n hpc heq => ?_⟩
  have hround := readAndScan_coinciding hfresh hpc heq
  refine ⟨{ rbSize := n, scratchpad := c.scratchpad, taken := [] }, rfl, ?_⟩
  rw [controlStep, hpc]
  simp only [hround, Option.map_some]

end UbloxRead
