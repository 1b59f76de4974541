/-
UbloxRead.RoundsTheorems — polling until nothing is missing.

The flags are those of all frames accepted so far (`after_chk`, `msgChk_run`),
because a frame updates them the same wherever it stands in the scratchpad
(`update_alone`), and the frames of a scan are those that the format finds in its
bytes (`scanLoop_deframes`). What that is worth, for every run of `controlMachine`:

* `control_acknowledged_is_stored`. An item that is not polled for any more has a
  frame in `rbUbxMsg_p`, as long as all accepted frames fit there. They need not:
  a frame without room is acknowledged and not stored.
* `onTurn_fullCycle`. The items number the satellites from 0. Until an almanac
  frame that names satellite 0 is accepted, every round for everything is followed
  by three for what is missing, and each polls for satellite 0 again
  (`count_polled_almZero`). `program_retries_forever` is what it means for the queue.
* `round_answered`. One round in which all polls are answered is enough, with noise
  between the frames and in any order; the next round asks for everything again.
-/
import UbloxRead.Rounds
import UbloxRead.UbxFormat
import UbloxRead.UbxCommandsTheorems
import UbloxRead.StoreTheorems
import UbloxRead.StreamTheorems
import UbloxRead.UbxCoverage

namespace UbloxRead

open Lib

/-! ## One frame, one round -/

/-- **A frame updates the flags wherever it stands.** The bytes looked at are in
every frame: the checksum is behind them even when the payload is empty. -/
theorem update_alone {mem : Mem} {p l : Nat} (h : frameItem mem p = some l) (chk : MsgStrmCheck) :
    (frameAt mem p).alone.update chk = updateValidUbxMsgList mem p chk := by
  have hbytes := bytes_frameAt h
  have hpos := frameItem_pos h
  have hlen : (frameAt mem p).bytes.length = l := by rw [← hbytes, length_slice]
  have hat : ∀ k, k < l → memOfList (frameAt mem p).bytes k = mem (p + k) := by
    intro k hk
    have hk' : k < (frameAt mem p).bytes.length := by omega
    have hget : (frameAt mem p).bytes[k]? = some (mem (p + k)) :=
      getElem?_of_slice (by rw [hlen, hbytes]) hk'
    rw [memOfList, List.getD_eq_getElem?_getD, hget, Option.getD_some]
  show updateValidUbxMsgList (memOfList (frameAt mem p).bytes) 0 chk = _
  have h2 := hat 2 (by omega)
  have h3 := hat 3 (by omega)
  have h6 := hat 6 (by omega)
  simp only [updateValidUbxMsgList, getUbxMsgClass, getUbxMsgId, getUbxSVID, Nat.zero_add, h2, h3,
    h6]
  rfl

theorem updateAll_append (frames frames' : List AcceptedFrame) (chk : MsgStrmCheck) :
    updateAll (frames ++ frames') chk = updateAll frames' (updateAll frames chk) :=
  List.foldl_append ..

/-- **The loop sets the flags of the frames it takes, and offers them to
`rbUbxMsg_p`.** -/
theorem scanLoop_accepted (pad : Mem) (rb : Ringbuffer) (chk : MsgStrmCheck) (rbSize : Int) :
    ∃ s : ScanState,
      (∀ fuel, rbSize.toNat < fuel → scanLoop rbSize fuel (scanStart pad rb chk) = some s) ∧
      Scan (frameItem pad) rbSize.toNat 0 (s.taken.map TakenFrame.span) ∧
      s.msgChk = updateAll ((takenFrames pad s.taken).map UbxFrame.alone) chk ∧
      s.taken.map (fun f => slice pad f.pos f.len)
        = (takenFrames pad s.taken).map UbxFrame.bytes ∧
      (∀ q, RingStores rb q →
        RingStores s.rbUbxMsg ((takenFrames pad s.taken).foldl offerBytes q)) ∧
      ∀ stored, HoldsFrames rb stored →
        HoldsFrames s.rbUbxMsg ((takenFrames pad s.taken).foldl storeFrame stored) := by
  obtain ⟨s, hloop, -, hscan, hchk, hbytes, hstores, hholds⟩ := scanLoop_total pad rb chk rbSize
    (fun rb' chk' taken =>
      chk' = updateAll ((takenFrames pad taken).map UbxFrame.alone) chk ∧
      taken.map (fun f => slice pad f.pos f.len) = (takenFrames pad taken).map UbxFrame.bytes ∧
      (∀ q, RingStores rb q → RingStores rb' ((takenFrames pad taken).foldl offerBytes q)) ∧
      ∀ stored, HoldsFrames rb stored →
        HoldsFrames rb' ((takenFrames pad taken).foldl storeFrame stored))
    ⟨rfl, rfl, fun _ hq => hq, fun _ hstored => hstored⟩ (by
      rintro s rfl l hl - ⟨hchk, hbytes, hstores, hholds⟩
      refine ⟨?_, takenBytes_take hl hbytes, fun q hq => ?_, fun stored hstored => ?_⟩
      · rw [takenFrames_take, List.map_append, updateAll_append, ← hchk, List.map_singleton]
        show updateValidUbxMsgList s.scratchpad s.i s.msgChk = _
        rw [← update_alone hl]
        rfl
      · rw [takenFrames_take, List.foldl_append]
        exact (hstores q hq).take hl
      · rw [takenFrames_take, List.foldl_append]
        exact (hholds stored hstored).take hl)
  exact ⟨s, hloop, hscan, hchk, hbytes, hstores, hholds⟩

/-- **The scan loop reads the frames**, whatever the scratchpad holds: those it
takes are `deframe` of its bytes, the flags become those of the frames, and the
frames are offered to `rbUbxMsg_p` in their order, each stored whole behind what is
there or not at all. -/
theorem scanLoop_deframes (scratchpad : Mem) (rb : Ringbuffer) (chk : MsgStrmCheck) (rbSize : Int) :
    ∃ s : ScanState,
      (∀ fuel, rbSize.toNat < fuel → scanLoop rbSize fuel (scanStart scratchpad rb chk) = some s) ∧
      s.taken.map (fun f => frameAt scratchpad f.pos) = deframe (slice scratchpad 0 rbSize.toNat) ∧
      s.msgChk = updateAll ((deframe (slice scratchpad 0 rbSize.toNat)).map UbxFrame.alone) chk ∧
      (∀ q, RingStores rb q →
        RingStores s.rbUbxMsg ((deframe (slice scratchpad 0 rbSize.toNat)).foldl offerBytes q)) ∧
      ∀ stored, HoldsFrames rb stored →
        HoldsFrames s.rbUbxMsg ((deframe (slice scratchpad 0 rbSize.toNat)).foldl storeFrame stored) := by
  obtain ⟨s, hloop, hscan, hchk, -, hstores, hholds⟩ := scanLoop_accepted scratchpad rb chk rbSize
  have hframes : deframe (slice scratchpad 0 rbSize.toNat) = takenFrames scratchpad s.taken := by
    have := deframe_of_scan hscan
    rwa [Nat.sub_zero, List.map_map] at this
  rw [hframes]
  exact ⟨s, hloop, rfl, hchk, hstores, hholds⟩

/-- **A round sets the flags of its frames, and offers them to `rbUbxMsg_p`.** -/
theorem readAndScan_accepted {kind : RoundKind} {rbSize : Nat} {c c' : Control} {round : Round}
    (h : readAndScan kind rbSize c = some (c', round)) :
    c'.pc = .check kind.next ∧ c'.msgChk = round.update c.msgChk ∧
      round.acked.map AckedFrame.bytes = round.accepted.map UbxFrame.bytes ∧
      ∀ stored, HoldsFrames c.rbUbxMsg stored →
        HoldsFrames c'.rbUbxMsg (round.accepted.foldl storeFrame stored) := by
  obtain ⟨s, hloop, -, hchk, hbytes, -, hholds⟩ := scanLoop_accepted
    (ringbufferRead c.rbUartIn c.scratchpad rbSize).buf c.rbUbxMsg c.msgChk rbSize
  have hread : readAndScan kind rbSize c = _ :=
    congrArg (Option.map _) (hloop (rbSize + 1) (Nat.lt_succ_self _))
  rw [h] at hread
  cases hread
  refine ⟨rfl, hchk, ?_, hholds⟩
  rw [Round.acked, List.map_map]
  exact hbytes

/-! ## Turns -/

/-- `control_f` is where the rounds have led it. -/
structure OnTurn (c : Control) (rounds : List Round) : Prop where
  turn : Turn.first.after rounds = { kind := c.pc.kind c.msgChk, chk := c.msgChk }
  silent : c.pc = .silence → rounds = []

theorem after_concat (turn : Turn) (rounds : List Round) (r : Round) :
    turn.after (rounds ++ [r]) = (turn.after rounds).next r := by
  rw [Turn.after, List.foldl_append]
  rfl

/-- The test of the `for` loop. -/
theorem controlStep_check {c : Control} {j : Nat} (hpc : c.pc = .check j) :
    ∃ scratchpad, controlStep c = some
      ({ c with pc := .poll (kindAt j c.msgChk), scratchpad := scratchpad }, none) := by
  rw [controlStep, hpc, kindAt]
  simp only
  split
  · exact ⟨_, rfl⟩
  · exact ⟨c.scratchpad, rfl⟩

/-- **A step stays on turn.** -/
theorem onTurn_step {c c' : Control} {e : ControlEvent} {answer : Option Round}
    {rounds : List Round} (h : OnTurn c rounds) (hstep : controlMachine c e = some (c', answer)) :
    OnTurn c' (rounds ++ roundsOf [answer]) := by
  obtain ⟨hturn, hsilent⟩ := h
  have hquiet : rounds ++ roundsOf [none] = rounds := List.append_nil _
  cases controlMachine_inv hstep with
  | receive chunk =>
    rw [hquiet]
    exact ⟨hturn, hsilent⟩
  | silence hpc =>
    rw [hquiet]
    refine ⟨?_, by simp [silenceNmea]⟩
    rw [hturn, hpc]
    rfl
  | sample hpc =>
    rw [hquiet]
    refine ⟨?_, by simp⟩
    rw [hturn, hpc]
    rfl
  | @read kind rbSize _ round hpc hread =>
    obtain ⟨hpc', hchk, -, -⟩ := readAndScan_accepted hread
    have hone : roundsOf [some round] = [round] := by simp [roundsOf]
    rw [hone]
    refine ⟨?_, by simp [hpc']⟩
    rw [after_concat, hturn, hpc, hpc', hchk]
    rfl
  | check hpc =>
    obtain ⟨scratchpad, hcheck⟩ := controlStep_check hpc
    rw [controlMachine, hcheck] at hstep
    cases hstep
    rw [hquiet]
    refine ⟨?_, by simp⟩
    rw [hturn, hpc]
    rfl

theorem onTurn_start (heapIn heapMsg stack : Mem) :
    OnTurn (prepMonitoringStruct heapIn heapMsg stack) [] := ⟨rfl, fun _ => rfl⟩

theorem polled_concat (turn : Turn) (rounds : List Round) (r : Round) :
    polled turn (rounds ++ [r]) = polled turn rounds ++ (turn.after rounds).polls := by
  induction rounds generalizing turn with
  | nil =>
    rw [List.nil_append, polled, polled, polled, List.append_nil, List.nil_append]
    rfl
  | cons q rounds ih =>
    rw [List.cons_append, polled, ih, polled, List.append_assoc]
    rfl

/-- A run always has an outcome. -/
theorem run_control_total (c : Control) (events : List ControlEvent) :
    ∃ c' answers, Machine.run controlMachine c events = some (c', answers) := by
  obtain ⟨c', answers, hrun, -⟩ := Machine.run_total (m := controlMachine) (fun _ => True)
    (fun c e _ => by
      obtain ⟨c', answer, hstep⟩ := controlMachine_total c e
      exact ⟨c', answer, hstep, trivial⟩) (s := c) trivial events
  exact ⟨c', answers, hrun⟩

/-- **The flags are those of all frames accepted so far.** -/
theorem after_chk (turn : Turn) (rounds : List Round) :
    (turn.after rounds).chk = updateAll ((acceptedFrames rounds).map UbxFrame.alone) turn.chk := by
  induction rounds generalizing turn with
  | nil => rfl
  | cons r rounds ih =>
    rw [Turn.after, List.foldl_cons, acceptedFrames, List.flatMap_cons, List.map_append,
      updateAll_append]
    exact ih (turn.next r)

/-- **Rule of rounds.** What every round keeps, of the flags, of `rbUbxMsg_p` and of the
rounds so far, every run keeps: no other step changes any of them. -/
theorem rounds_run (P : MsgStrmCheck → Ringbuffer → List Round → Prop) {c c' : Control}
    {events : List ControlEvent} {answers : List (Option Round)}
    (hround : ∀ {d d' : Control} {kind n round rounds}, P d.msgChk d.rbUbxMsg rounds →
      readAndScan kind n d = some (d', round) → P d'.msgChk d'.rbUbxMsg (rounds ++ [round]))
    (h0 : P c.msgChk c.rbUbxMsg [])
    (hrun : Machine.run controlMachine c events = some (c', answers)) :
    P c'.msgChk c'.rbUbxMsg (roundsOf answers) := by
  refine Machine.run_history (fun c' _ answers => P c'.msgChk c'.rbUbxMsg (roundsOf answers))
    (fun d events answers e d' answer h hstep => ?_) h0 hrun
  rw [roundsOf_append]
  have hquiet : roundsOf answers ++ roundsOf [none] = roundsOf answers := List.append_nil _
  cases controlMachine_inv hstep with
  | receive chunk => rw [hquiet]; exact h
  | silence hpc => rw [hquiet]; exact h
  | sample hpc => rw [hquiet]; exact h
  | check hpc => rw [hquiet]; exact h
  | read hpc hread => exact hround h hread

theorem acceptedFrames_concat (rounds : List Round) (round : Round) :
    acceptedFrames (rounds ++ [round]) = acceptedFrames rounds ++ round.accepted := by
  simp [acceptedFrames]

/-- **The flags after a run** are those before it and those of its frames. -/
theorem msgChk_run {c c' : Control} {events : List ControlEvent} {answers : List (Option Round)}
    (hrun : Machine.run controlMachine c events = some (c', answers)) :
    c'.msgChk = updateAll ((acceptedFrames (roundsOf answers)).map UbxFrame.alone) c.msgChk := by
  refine rounds_run (fun chk _ rounds =>
    chk = updateAll ((acceptedFrames rounds).map UbxFrame.alone) c.msgChk)
    (fun h hread => ?_) rfl hrun
  obtain ⟨-, hchk, -, -⟩ := readAndScan_accepted hread
  rw [acceptedFrames_concat, List.map_append, updateAll_append, ← h]
  exact hchk

/-! ## What is not polled for any more -/

/-- Frames that all fit are all stored. -/
theorem storedFrames_of_fit (frames : List UbxFrame)
    (hfit : (frames.flatMap UbxFrame.bytes).length ≤ RINGBUFFER_SIZE) :
    storedFrames frames = frames := by
  induction frames using List.reverseRecOn with
  | nil => rfl
  | append_singleton frames f ih =>
    rw [List.flatMap_append, List.length_append, List.flatMap_singleton] at hfit
    have hstore : storedFrames (frames ++ [f]) = storeFrame (storedFrames frames) f := by
      rw [storedFrames, List.foldl_append]
      rfl
    rw [hstore, ih (by omega), storeFrame, if_pos (by omega)]

/-- The frames stored after a run are those of its rounds that fit. -/
theorem holdsFrames_run {heapIn heapMsg stack : Mem} {events : List ControlEvent} {c : Control}
    {answers : List (Option Round)}
    (hrun : Machine.run controlMachine (prepMonitoringStruct heapIn heapMsg stack) events
      = some (c, answers)) :
    HoldsFrames c.rbUbxMsg (storedFrames (acceptedFrames (roundsOf answers))) := by
  refine rounds_run (fun _ rb rounds => HoldsFrames rb (storedFrames (acceptedFrames rounds)))
    (fun h hread => ?_) ⟨ringbufferInit_wf heapMsg, rfl, contents_init heapMsg⟩ hrun
  obtain ⟨-, -, -, hholds⟩ := readAndScan_accepted hread
  rw [acceptedFrames_concat, storedFrames, List.foldl_append]
  exact hholds _ h

/-- **What is not polled for any more is there.** In every run, as long as the
frames accepted fit in `rbUbxMsg_p` and those of AID-ALM and AID-EPH name a
satellite, every item whose flag is set has a frame that carries it among those
stored. -/
theorem control_acknowledged_is_stored (heapIn heapMsg stack : Mem) (events : List ControlEvent) :
    ∃ c answers, ∃ stored : List UbxFrame,
      Machine.run controlMachine (prepMonitoringStruct heapIn heapMsg stack) events
        = some (c, answers) ∧
      slice c.rbUbxMsg.buffer 0 c.rbUbxMsg.fill = stored.flatMap UbxFrame.bytes ∧
      (((acceptedFrames (roundsOf answers)).flatMap UbxFrame.bytes).length ≤ RINGBUFFER_SIZE →
        (∀ f ∈ acceptedFrames (roundsOf answers), ¬ f.alone.NamesNoSat) →
        ∀ g, c.msgChk.flag g ≠ 0 → ∃ f ∈ stored, f.alone.Carries g) := by
  obtain ⟨c, answers, hrun⟩ :=
    run_control_total (prepMonitoringStruct heapIn heapMsg stack) events
  have hholds := holdsFrames_run hrun
  have hchk : c.msgChk
      = updateAll ((acceptedFrames (roundsOf answers)).map UbxFrame.alone) .zero := msgChk_run hrun
  refine ⟨c, answers, _, hrun, hholds.slice_eq, fun hfit hnamed g hflag => ?_⟩
  rw [storedFrames_of_fit _ hfit]
  rw [hchk, updateAll_flag] at hflag
  split at hflag
  · next hset =>
    obtain ⟨_, hmem, htarget⟩ := hset
    obtain ⟨f, hf, rfl⟩ := List.mem_map.mp hmem
    exact ⟨f, hf, (target_eq_iff (hnamed f hf) g).mp htarget⟩
  · exact absurd rfl hflag

/-! ## Satellite 0 -/

/-- While something is missing, the test of the `for` loop leads on in the full
cycle. -/
theorem kindAt_fullCycle {i : Nat} {chk : MsgStrmCheck} (hmissing : areThereMissingMessages chk ≠ 0) :
    kindAt (fullCycle i).next chk = fullCycle (i + 1) := by
  have hmod : (i + 1) % 4 = if i % 4 = 3 then 0 else i % 4 + 1 := by split <;> omega
  unfold kindAt fullCycle
  rw [hmod]
  by_cases h0 : i % 4 = 0
  · simp [h0, RoundKind.next, hmissing]
  · by_cases h3 : i % 4 = 3
    · simp [h3, RoundKind.next]
    · have hlt : i % 4 - 1 + 1 < 3 := by omega
      have hsub : i % 4 - 1 + 1 = i % 4 := by omega
      simp [h0, h3, RoundKind.next, hmissing, hsub]
      omega

/-- The flag of satellite 0's almanac is set by its frame only. -/
theorem flag_almZero_iff (frames : List UbxFrame) :
    (updateAll (frames.map UbxFrame.alone) .zero).flag (.alm 0) ≠ 0 ↔
      ∃ f ∈ frames, f.alone.Carries (.alm 0) := by
  rw [flag_ne_zero_iff]
  simp [Occurs]

/-- No frame that carries this item was accepted. -/
def NoneCarries (g : AckFlag) (rounds : List Round) : Prop :=
  ∀ f ∈ acceptedFrames rounds, ¬ f.alone.Carries g

theorem NoneCarries.of_concat {g : AckFlag} {rounds : List Round} {r : Round}
    (h : NoneCarries g (rounds ++ [r])) : NoneCarries g rounds := by
  intro f hf
  refine h f ?_
  rw [acceptedFrames_concat]
  exact List.mem_append_left _ hf

/-- Without a frame for the almanac of satellite 0 its flag is unset, -/
theorem flag_of_noneCarries {rounds : List Round} (h : NoneCarries (.alm 0) rounds) :
    (Turn.first.after rounds).chk.flag (.alm 0) = 0 := by
  rw [after_chk]
  by_contra hne
  obtain ⟨f, hf, hcarries⟩ := (flag_almZero_iff _).mp hne
  exact h f hf hcarries

/-- and the rounds go through the full cycle. -/
theorem kind_after {rounds : List Round} (h : NoneCarries (.alm 0) rounds) :
    (Turn.first.after rounds).kind = fullCycle rounds.length := by
  induction rounds using List.reverseRecOn with
  | nil => rfl
  | append_singleton rounds r ih =>
    have hmissing : areThereMissingMessages (Turn.first.after (rounds ++ [r])).chk ≠ 0 :=
      fun hzero => (areThereMissingMessages_eq_zero_iff _).mp hzero (.alm 0) (flag_of_noneCarries h)
    rw [after_concat] at hmissing ⊢
    rw [List.length_append, List.length_singleton, ← kindAt_fullCycle hmissing, ← ih h.of_concat]
    rfl

/-- **`control_f` stays in the full cycle.** -/
theorem onTurn_fullCycle {c : Control} {rounds : List Round} (h : OnTurn c rounds)
    (hnone : NoneCarries (.alm 0) rounds) : c.pc.kind c.msgChk = fullCycle rounds.length := by
  rw [← kind_after hnone, h.turn]

theorem call_injective : Function.Injective AckFlag.call := by
  intro g g' h
  cases g <;> cases g' <;> cases h <;> rfl

/-- A round for what is missing polls for an item once, if it is missing. -/
theorem count_missingPolls (chk : MsgStrmCheck) {g : AckFlag} (hflag : chk.flag g = 0) :
    (missingPolls chk).count g.call = 1 := by
  refine List.count_eq_one_of_mem ((allItems_nodup.filter _).map call_injective) ?_
  exact List.mem_map_of_mem (List.mem_filter.mpr ⟨mem_allItems g, by simpa using hflag⟩)

/-- What a round of the full cycle polls for. -/
theorem count_polls_almZero {rounds : List Round} (h : NoneCarries (.alm 0) rounds) :
    (Turn.first.after rounds).polls.count (AckFlag.alm 0).call = if rounds.length % 4 = 0 then 0 else 1 := by
  have hflag := flag_of_noneCarries h
  have hkind := kind_after h
  unfold Turn.polls
  rw [hkind, fullCycle]
  split_ifs with h0
  · show aidPolls.count (AckFlag.alm 0).call = 0
    decide
  · exact count_missingPolls _ hflag

/-- **Every round for what is missing polls for it again.** -/
theorem count_polled_almZero {rounds : List Round} (h : NoneCarries (.alm 0) rounds) :
    (polled .first rounds ++ (Turn.first.after rounds).polls).count (AckFlag.alm 0).call
      = rounds.length - rounds.length / 4 := by
  induction rounds using List.reverseRecOn with
  | nil => decide
  | append_singleton rounds r ih =>
    have hone := count_polls_almZero h
    rw [polled_concat, List.count_append, ih h.of_concat, hone, List.length_append,
      List.length_singleton]
    split_ifs <;> omega

/-! ## A round that is answered -/

/-- A frame that answers the poll for an item carries it. -/
theorem carries_of_answersPoll {f : UbxFrame} {g : AckFlag} (h : f.Answers g.poll) :
    f.alone.Carries g := by
  obtain ⟨hcls, hid, hsat⟩ := h
  have hitem := frameItem_of_bytes f (slice_memOfList f.bytes)
  have hlen : f.alone.payloadLen = f.payload.length := by
    have h1 := (frameItem_eq_some.mp hitem).2.2
    have h2 := length_bytes f
    show payloadLen (memOfList f.bytes) 0 = _
    omega
  refine ⟨hcls, hid, fun s hs => ?_⟩
  have hbyte : (UInt8.ofNat s.val).toNat = s := UInt8.toNat_ofNat_of_lt' (s.isLt.trans (by decide))
  have hpoll : g.poll.payload.head? = some (UInt8.ofNat s.val) := by
    simp only [AckFlag.poll, pollFrame, Option.mem_def.mp hs]
    rfl
  obtain ⟨rest, hpayload⟩ := List.head?_eq_some_iff.mp (hsat _ hpoll)
  refine ⟨by rw [hlen, hpayload]; exact Nat.succ_pos _, ?_⟩
  have hfirst : f.alone.firstByte = UInt8.ofNat s.val := by
    show memOfList f.bytes 6 = _
    simp [memOfList, UbxFrame.bytes, UbxFrame.body, hpayload]
  rw [hfirst, hbyte]

/-- **One answered round is enough.** When `control_f` has polled for what is
missing, with nothing in the receive buffer, and what arrives until it samples is
any stream of frames, with noise between them, in which every poll is answered, then
nothing is missing after the round, and the next one asks for everything again. -/
theorem round_answered {c : Control} {j : Nat} (hpc : c.pc = .poll (.missing j))
    (huart : RingStores c.rbUartIn []) (hmsg : c.rbUbxMsg.Wf) (chunks : List Chunk)
    (gap : List UInt8) (parts : List (UbxFrame × List UInt8))
    (hgap : SyncFree gap) (hgaps : ∀ part ∈ parts, SyncFree part.2)
    (hbytes : chunks.flatMap Chunk.bytes = gap ++ partsBytes parts)
    (hpos : 0 < (gap ++ partsBytes parts).length)
    (hlt : (gap ++ partsBytes parts).length < RINGBUFFER_SIZE)
    (hanswered : ∀ call ∈ missingPolls c.msgChk, ∃ part ∈ parts, part.1.Answers call.frame) :
    ∃ c' answers scratchpad,
      Machine.run controlMachine c (chunks.map .receive ++ [.control, .control])
        = some (c', answers) ∧
      areThereMissingMessages c'.msgChk = 0 ∧
      controlStep c' = some ({ c' with pc := .poll .aid, scratchpad := scratchpad }, none) := by
  rw [← hbytes] at hpos hlt
  obtain ⟨c', round, hrun, hpc', -, hslice, hscan, -⟩ := run_round hpc huart hmsg chunks hpos hlt
  rw [hbytes] at hslice hscan
  have haccepted : round.accepted = parts.map Prod.fst := by
    have hframes := deframe_of_scan hscan
    rw [Nat.sub_zero, hslice, deframe_parts parts gap hgap hgaps, List.map_map] at hframes
    exact hframes.symm
  -- the flags are those of the round's frames
  have hchk : c'.msgChk = round.update c.msgChk := by
    have hone : roundsOf (chunks.map (fun _ => none) ++ [none, some round]) = [round] := by
      simp [roundsOf]
    rw [msgChk_run hrun, hone, acceptedFrames, List.flatMap_singleton]
    rfl
  have hzero : areThereMissingMessages c'.msgChk = 0 := by
    rw [hchk]
    refine updateAll_complete fun g hflag => ?_
    obtain ⟨part, hpart, hanswer⟩ := hanswered g.call
      (List.mem_map_of_mem (List.mem_filter.mpr ⟨mem_allItems g, by simpa using hflag⟩))
    rw [frame_call] at hanswer
    have hmem : part.1 ∈ round.accepted := by
      rw [haccepted]
      exact List.mem_map_of_mem hpart
    exact ⟨_, List.mem_map_of_mem hmem, carries_of_answersPoll hanswer⟩
  obtain ⟨scratchpad, hcheck⟩ := controlStep_check hpc'
  refine ⟨c', _, scratchpad, hrun, hzero, ?_⟩
  rw [hcheck, kindAt, if_neg (fun h => h.2 hzero)]

/-- Only AID-HUI is missing. -/
def missingHui : Control where
  __ := prepMonitoringStruct sevens sevens sevens
  pc := .poll (.missing 0)
  msgChk := ⟨fun i => if i = AckFlag.hui.offset then 0 else 1⟩

theorem round_answered_hui :
    ∃ c' answers scratchpad,
      Machine.run controlMachine missingHui
          ([chunkOf huiOfZeros (by decide)].map .receive ++ [.control, .control])
        = some (c', answers) ∧
      areThereMissingMessages c'.msgChk = 0 ∧
      controlStep c' = some ({ c' with pc := .poll .aid, scratchpad := scratchpad }, none) := by
  have hmissing : missingPolls missingHui.msgChk = [.pollHui] := by decide
  refine round_answered (j := 0) rfl ⟨ringbufferInit_wf _, rfl⟩ (ringbufferInit_wf _)
    [chunkOf huiOfZeros (by decide)] [] [(huiOfZeros, [])] (by decide) (by simp [SyncFree]) rfl
    (by decide) (by decide) fun call hcall => ?_
  rw [hmissing, List.mem_singleton] at hcall
  exact ⟨_, List.mem_singleton_self _, by rw [hcall]; exact ⟨rfl, rfl, nofun⟩⟩

end UbloxRead
