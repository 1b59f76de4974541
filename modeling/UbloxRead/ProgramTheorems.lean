/-
UbloxRead.ProgramTheorems — the two threads together.

`programMachine_inv` says once what a step of `control_f` or of `serial_f` can do;
`controlF_push` is the step in which a generator allocates a message and
`push_back` queues it. `prepMsgs_refined` is what justifies to queue a batch in
steps: the steps together are the call of the source. Two results follow for every
interleaving:

* `program_refines`. The ring buffers, the flags and the rounds are those of a run
  of `controlMachine`, and the queue is that of a run of `txMachine`, so what is
  proved of the two machines alone holds of the program. `shows_control` and
  `shows_tx` are its two step lemmas.
* `program_safe`. Every step has an outcome, so neither thread uses a freed node
  or message; the live message blocks are those of the queued messages, so none
  is leaked; and no more than `ITEM_COUNT` messages are ever queued, because
  `control_f` queues nothing before it has seen an empty queue. `Sound` is the
  invariant, `sound_step` the step lemma. So a queue that is counted in 32 bits
  does the same (`program_list_agrees`).
-/
import UbloxRead.ListCounters
import UbloxRead.Program
import UbloxRead.UbxCommandsTheorems
import UbloxRead.StoreTheorems
import UbloxRead.StreamTheorems
import UbloxRead.UbxCoverage
import UbloxRead.Lib.Simulation

namespace UbloxRead

open Lib

/-! ## Steps -/

/-- **A call of a generator and its `push_back`** are a push of the call's
message. -/
theorem controlF_push {s : Program} {call : MsgCall} {calls : List MsgCall} (mallocs : Mallocs)
    (hprep : s.prep = .push (call :: calls)) (hnull : s.tx.blocks NULL = none) :
    controlFStep s mallocs
      = (controlPush s.tx mallocs.node (call.msg mallocs.message)).map fun (tx, answer) =>
          ({ s with tx := tx, prep := .push calls }, .tx answer) := by
  have hgen : call.gen (s.tx.heap mallocs) = _ :=
    (call.gen_eq _).trans (congrArg some (TxHeap.allocated_eq hnull _))
  rw [controlFStep, hprep]
  simp only [hgen, Option.bind_eq_bind, Option.bind_some]
  cases hpush : pushBack s.tx.ll mallocs.node mallocs.message with
  | none =>
    simp [controlPush, TxHeap.pushBack, TxHeap.malloc, TxHeap.setBlock, TxState.heap, MsgCall.msg,
      hpush]
  | some ll =>
    simp [controlPush, TxHeap.pushBack, TxHeap.malloc, TxHeap.setBlock, TxState.heap, MsgCall.msg,
      hpush]
    rfl

/-- A call of a generator and its `push_back`, with the answers of `malloc` that
are next. -/
theorem push_eq {h : TxHeap} (hnull : h.blocks NULL = none) (call : MsgCall) :
    call.push h
      = (pushBack h.ll (h.mallocs (h.calls + 1) NODE_SIZE)
          (h.mallocs h.calls call.frame.bytes.length)).map fun ll =>
        { h with
          ll := ll
          blocks := fun p =>
            if p = h.mallocs h.calls call.frame.bytes.length
            then (call.msg (h.mallocs h.calls call.frame.bytes.length)).block else h.blocks p
          calls := h.calls + 2 } := by
  have hgen : call.gen h = _ :=
    (call.gen_eq _).trans (congrArg some (TxHeap.allocated_eq hnull _))
  rw [MsgCall.push, hgen, Option.map_eq_bind]
  rfl

/-- **A batch that nothing interrupts is the call that queues it.** -/
theorem run_calls {mallocs : Nat → Nat → Ptr} {fill : UInt8} (calls : List MsgCall) :
    ∀ {s : Program} {h : TxHeap}, s.prep = .push calls → h.ll = s.tx.ll → h.blocks = s.tx.blocks →
      h.mallocs = mallocs → h.fill = fill → s.tx.blocks NULL = none →
      (Machine.run programMachine s (callEvents mallocs fill h.calls calls)).map Prod.fst
        = (calls.foldlM MsgCall.push h).map fun h' =>
            { s with tx := { s.tx with ll := h'.ll, blocks := h'.blocks }, prep := .push [] } := by
  induction calls with
  | nil =>
    intro s h hprep hll hblocks _ _ _
    obtain ⟨⟨ll, blocks, pc, pause⟩, control, prep, reading, ticks⟩ := s
    cases hprep
    cases hll
    cases hblocks
    rfl
  | cons call calls ih =>
    intro s h hprep hll hblocks hmallocs hfill hnull
    let p := mallocs h.calls call.frame.bytes.length
    let n := mallocs (h.calls + 1) NODE_SIZE
    let blocks : TxBlocks := fun q => if q = p then (call.msg p).block else s.tx.blocks q
    have hstep : programMachine s (.control { message := p, node := n, fill := fill })
        = (pushBack s.tx.ll n p).map fun ll =>
            ({ s with tx := { s.tx with ll := ll, blocks := blocks }, prep := .push calls },
              .tx (.pushed (call.msg p))) := by
      rw [programMachine, controlF_push _ hprep hnull, controlPush, Option.map_map]
      rfl
    have hpush : call.push h = (pushBack s.tx.ll n p).map fun ll =>
        { h with ll := ll, blocks := blocks, calls := h.calls + 2 } := by
      rw [push_eq (by rw [hblocks, hnull]), hll, hblocks, hmallocs]
    rw [callEvents, Machine.run_cons_map_fst, hstep, List.foldlM_cons, hpush]
    cases hnode : pushBack s.tx.ll n p with
    | none => rfl
    | some ll =>
      have hdead : blocks NULL = none := by
        show (if NULL = p then (call.msg p).block else s.tx.blocks NULL) = none
        by_cases hp : NULL = p
        · rw [if_pos hp]
          exact if_pos hp.symm
        · rw [if_neg hp, hnull]
      exact ih (s := { s with tx := { s.tx with ll := ll, blocks := blocks }, prep := .push calls })
        (h := { h with ll := ll, blocks := blocks, calls := h.calls + 2 }) rfl rfl rfl hmallocs hfill
        hdead

/-- **The batches are those of the source.** From any state in which `control_f`
is about to queue a batch, its steps for it, when `serial_f` takes none between
them, end where the call of `prepNmeaSilencerMsgs`, `prepAidPollMsgs` or
`prepAidMissingPollMsgs` does; and the one is stuck where the other is. -/
theorem prepMsgs_refined {s : Program} {h : TxHeap} {c : Control} (hprep : s.prep = .push (batch c))
    (hll : h.ll = s.tx.ll) (hblocks : h.blocks = s.tx.blocks) (hnull : s.tx.blocks NULL = none) :
    (Machine.run programMachine s (callEvents h.mallocs h.fill h.calls (batch c))).map Prod.fst
      = (prepMsgs c h).map fun h' =>
          { s with tx := { s.tx with ll := h'.ll, blocks := h'.blocks }, prep := .push [] } := by
  rw [run_calls (batch c) hprep hll hblocks rfl rfl hnull]
  congr 1
  unfold batch prepMsgs
  cases c.pc with
  | silence =>
    show _ = (prepNmeaSilencerMsgs h).map Prod.fst
    rw [prepNmeaSilencerMsgs_eq, Option.map_map]
    exact Option.map_id_apply.symm
  | poll kind =>
    cases kind with
    | aid =>
      show _ = (prepAidPollMsgs h).map Prod.fst
      rw [prepAidPollMsgs_eq, Option.map_map]
      exact Option.map_id_apply.symm
    | missing j => exact (prepAidMissingPollMsgs_eq h c.msgChk).symm
  | read kind n => rfl
  | check j => rfl

/-- An empty heap, and blocks that hold what was in them before. -/
def plainStart : Program := programStart (fun _ => none) sevens sevens sevens

theorem prepMsgs_refined_silencers :
    (Machine.run programMachine plainStart
        (callEvents freshHeap.mallocs freshHeap.fill freshHeap.calls
          (batch plainStart.control))).map Prod.fst
      = (prepMsgs plainStart.control freshHeap).map fun h' =>
          { plainStart with
            tx := { plainStart.tx with ll := h'.ll, blocks := h'.blocks }
            prep := .push [] } :=
  prepMsgs_refined rfl rfl rfl rfl

/-- All that a step can do. -/
inductive ProgramStep (s : Program) : ProgramEvent → Program → ProgramAnswer → Prop
  | push {call calls mallocs tx answer} : s.prep = .push (call :: calls) →
      controlPush s.tx mallocs.node (call.msg mallocs.message) = some (tx, answer) →
      ProgramStep s (.control mallocs) { s with tx := tx, prep := .push calls } (.tx answer)
  | pushed {mallocs} : s.prep = .push [] →
      ProgramStep s (.control mallocs) { s with prep := .wait } (.control none)
  | wait {mallocs} : s.prep = .wait → size s.tx.ll ≠ 0 →
      ProgramStep s (.control mallocs) { s with prep := .wait } (.tx (.saw (size s.tx.ll)))
  | sent {mallocs} : s.prep = .wait → size s.tx.ll = 0 →
      ProgramStep s (.control mallocs) { s with prep := .ready } (.tx (.saw (size s.tx.ll)))
  | access {mallocs c round} : s.prep = .ready → controlStep s.control = some (c, round) →
      ProgramStep s (.control mallocs) { s with control := c, prep := prepFor c } (.control round)
  | send {t r tx answer} : s.reading = false → serialStep s.tx t = some (tx, answer) →
      ProgramStep s (.serial t r) { s with tx := tx, reading := decide (tx.pc = .size) }
        (.tx answer)
  | received {t chunk} : s.reading = true →
      ProgramStep s (.serial t (some chunk))
        { s with control := serialReceive s.control chunk, reading := false, ticksBtwReceive := 0 }
        (.read (some chunk))
  | silent {t} : s.reading = true →
      ProgramStep s (.serial t none)
        { s with reading := false, ticksBtwReceive := s.ticksBtwReceive + 1 } (.read none)

/-- **Inversion of a step.** -/
theorem programMachine_inv {s s' : Program} {e : ProgramEvent} {answer : ProgramAnswer}
    (hnull : s.tx.blocks NULL = none) (h : programMachine s e = some (s', answer)) :
    ProgramStep s e s' answer := by
  cases e with
  | control mallocs =>
    rw [programMachine] at h
    cases hprep : s.prep with
    | push calls =>
      cases calls with
      | nil =>
        simp only [controlFStep, hprep] at h
        cases h
        exact .pushed hprep
      | cons call calls =>
        rw [controlF_push mallocs hprep hnull] at h
        obtain ⟨⟨tx, answer⟩, hpush, heq⟩ := Option.map_eq_some_iff.mp h
        cases heq
        exact .push hprep hpush
    | wait =>
      simp only [controlFStep, hprep] at h
      cases h
      by_cases hzero : size s.tx.ll = 0
      · rw [if_pos hzero]
        exact .sent hprep hzero
      · rw [if_neg hzero]
        exact .wait hprep hzero
    | ready =>
      simp only [controlFStep, hprep] at h
      obtain ⟨⟨c, round⟩, hstep, heq⟩ := Option.map_eq_some_iff.mp h
      cases heq
      exact .access hprep hstep
  | serial t r =>
    rw [programMachine] at h
    unfold serialFStep at h
    cases hreading : s.reading with
    | true =>
      rw [hreading, if_pos rfl] at h
      cases r with
      | none =>
        cases h
        exact .silent hreading
      | some chunk =>
        cases h
        exact .received hreading
    | false =>
      rw [hreading, if_neg Bool.false_ne_true] at h
      obtain ⟨⟨tx, answer⟩, hsend, heq⟩ := Option.map_eq_some_iff.mp h
      cases heq
      exact .send hreading hsend

/-! ## The two parts -/

/-- NULL is no block, and stays none. -/
theorem null_controlPush {c c' : TxState} {n p : Ptr} {call : MsgCall} {answer : TxAnswer}
    (hnull : c.blocks NULL = none) (h : controlPush c n (call.msg p) = some (c', answer)) :
    c'.blocks NULL = none := by
  obtain ⟨ll, -, heq⟩ := Option.map_eq_some_iff.mp h
  cases heq
  show (if NULL = p then if p = NULL then none else some call.frame.bytes else c.blocks NULL) = none
  by_cases hp : NULL = p
  · rw [if_pos hp, if_pos hp.symm]
  · rw [if_neg hp, hnull]

/-- Freeing only takes blocks away. -/
theorem freeNode_none {blocks blocks' : TxBlocks} {p q : Ptr} (h : freeNode blocks p = some blocks')
    (hq : blocks q = none) : blocks' q = none := by
  unfold freeNode at h
  split at h
  · cases h
    exact hq
  · obtain ⟨bytes, -, rfl⟩ := Option.map_eq_some_iff.mp h
    show (if q = p then none else blocks q) = none
    split
    · rfl
    · exact hq

theorem foldlM_freeNode_none {ps : List Ptr} {blocks blocks' : TxBlocks} {q : Ptr}
    (h : ps.foldlM freeNode blocks = some blocks') (hq : blocks q = none) : blocks' q = none := by
  induction ps generalizing blocks with
  | nil =>
    cases h
    exact hq
  | cons p ps ih =>
    obtain ⟨mid, hfree, hrest⟩ := Option.bind_eq_some_iff.mp h
    exact ih hrest (freeNode_none hfree hq)

/-- `serial_f` makes no block live. -/
theorem serialStep_none {c c' : TxState} {t : Int} {answer : TxAnswer} {q : Ptr}
    (h : serialStep c t = some (c', answer)) (hq : c.blocks q = none) : c'.blocks q = none := by
  cases serialStep_inv h with
  | idle _ _ => exact hq
  | next _ _ => exact hq
  | front _ _ => exact hq
  | wrote _ _ _ => exact hq
  | short _ _ _ => exact hq
  | removed _ _ _ hfree => exact foldlM_freeNode_none hfree hq

theorem null_step {s s' : Program} {e : ProgramEvent} {answer : ProgramAnswer}
    (hnull : s.tx.blocks NULL = none) (hstep : ProgramStep s e s' answer) :
    s'.tx.blocks NULL = none := by
  cases hstep with
  | push _ hpush => exact null_controlPush hnull hpush
  | pushed _ => exact hnull
  | wait _ _ => exact hnull
  | sent _ _ => exact hnull
  | access _ _ => exact hnull
  | send _ hsend => exact serialStep_none hsend hnull
  | received _ => exact hnull
  | silent _ => exact hnull

/-- What `malloc` may return for a call. -/
theorem ProgramMallocOk.tx {s : Program} {mallocs : Mallocs} (h : ProgramMallocOk s (.control mallocs))
    (hnull : s.tx.blocks NULL = none) {call : MsgCall} {calls : List MsgCall}
    (hprep : s.prep = .push (call :: calls)) :
    TxMallocOk s.tx (.push mallocs.node (call.msg mallocs.message)) := by
  obtain ⟨hnode, hmessage⟩ := h call calls hprep
  refine ⟨hnode, ?_, ?_⟩
  · show mallocs.message = NULL ↔ (if mallocs.message = NULL then none
      else some call.frame.bytes) = none
    by_cases hp : mallocs.message = NULL <;> simp [hp]
  · show s.tx.blocks mallocs.message = none
    by_cases hp : mallocs.message = NULL
    · rw [hp, hnull]
    · exact hmessage hp

/-- What a run of the program and one of `controlMachine` have in common. -/
def SeesRounds (answers : List ProgramAnswer) (events : List ControlEvent)
    (rounds : List (Option Round)) : Prop :=
  received events = programReceived answers ∧ roundsOf rounds = programRounds answers

theorem seesRounds_showing : Machine.Showing SeesRounds where
  nil := ⟨rfl, rfl⟩
  append := by
    rintro os os' ks ks' cs cs' ⟨hreceived, hrounds⟩ ⟨hreceived', hrounds'⟩
    refine ⟨?_, ?_⟩
    · rw [received_append, hreceived, hreceived', programReceived, programReceived, programReceived,
        List.flatMap_append]
    · rw [roundsOf_append, hrounds, hrounds', programRounds, programRounds, programRounds,
        List.filterMap_append]

/-- What a run of the program and one of `txMachine` have in common. -/
def SeesQueue (answers : List ProgramAnswer) (_events : List TxEvent) (queue : List TxAnswer) :
    Prop :=
  queue = txAnswers answers

theorem seesQueue_showing : Machine.Showing SeesQueue where
  nil := rfl
  append := by
    rintro os os' ks ks' cs cs' rfl rfl
    exact (List.filterMap_append ..).symm

/-- A step is a step of `controlMachine`, or none of its. -/
theorem shows_control {s s' : Program} {e : ProgramEvent} {answer : ProgramAnswer}
    (hstep : ProgramStep s e s' answer) :
    ∃ ks cs, Machine.run controlMachine s.control ks = some (s'.control, cs) ∧
      SeesRounds [answer] ks cs := by
  cases hstep with
  | push _ _ => exact ⟨[], [], rfl, rfl, rfl⟩
  | pushed _ => exact ⟨[], [], rfl, rfl, rfl⟩
  | wait _ _ => exact ⟨[], [], rfl, rfl, rfl⟩
  | sent _ _ => exact ⟨[], [], rfl, rfl, rfl⟩
  | @access _ c round _ hcontrol =>
    refine ⟨[.control], [round], Machine.run_cons_eq_some.mpr ⟨c, round, [], hcontrol, rfl, rfl⟩,
      rfl, ?_⟩
    cases round <;> rfl
  | send _ _ => exact ⟨[], [], rfl, rfl, rfl⟩
  | @received _ chunk _ => exact ⟨[.receive chunk], [none], rfl, rfl, rfl⟩
  | silent _ => exact ⟨[], [], rfl, rfl, rfl⟩

/-- What `malloc` and `write` may answer, in the program and to `txMachine`. -/
def txConditions : List ((Program → ProgramEvent → Prop) × (TxState → TxEvent → Prop)) :=
  [(ProgramMallocOk, TxMallocOk), (ProgramWriteOk, WriteOk)]

/-- A step is a step of `txMachine`, or none of its, under the same answers of
`malloc` and `write`. -/
theorem shows_tx {s s' : Program} {e : ProgramEvent} {answer : ProgramAnswer}
    (hnull : s.tx.blocks NULL = none) (hstep : ProgramStep s e s' answer) :
    ∃ ks cs, Machine.run txMachine s.tx ks = some (s'.tx, cs) ∧ SeesQueue [answer] ks cs ∧
      ∀ ok ∈ txConditions, ok.1 s e → Machine.Along txMachine ok.2 s.tx ks := by
  simp only [txConditions, List.mem_cons, List.not_mem_nil, or_false, forall_eq_or_imp, forall_eq]
  -- a step that makes no call of `txMachine`, or one of `size`, asks nothing
  have hnone : ∀ ok : TxState → TxEvent → Prop, Machine.Along txMachine ok s.tx [] :=
    fun ok => Machine.along_nil ..
  have hsize : ∀ ok : TxState → TxEvent → Prop, ok s.tx .size →
      Machine.Along txMachine ok s.tx [.size] := fun ok h => ⟨h, fun _ _ _ => Machine.along_nil ..⟩
  cases hstep with
  | @push call calls mallocs tx answer hprep hpush =>
    exact ⟨[.push mallocs.node (call.msg mallocs.message)], [answer],
      Machine.run_cons_eq_some.mpr ⟨tx, answer, [], hpush, rfl, rfl⟩, rfl,
      fun hok => ⟨hok.tx hnull hprep, fun _ _ _ => Machine.along_nil ..⟩,
      fun _ => ⟨trivial, fun _ _ _ => Machine.along_nil ..⟩⟩
  | pushed _ => exact ⟨[], [], rfl, rfl, fun _ => hnone _, fun _ => hnone _⟩
  | wait _ _ =>
    exact ⟨[.size], [.saw (size s.tx.ll)], rfl, rfl, fun _ => hsize _ trivial,
      fun _ => hsize _ trivial⟩
  | sent _ _ =>
    exact ⟨[.size], [.saw (size s.tx.ll)], rfl, rfl, fun _ => hsize _ trivial,
      fun _ => hsize _ trivial⟩
  | access _ _ => exact ⟨[], [], rfl, rfl, fun _ => hnone _, fun _ => hnone _⟩
  | @send t _ tx answer hreading hsend =>
    exact ⟨[.serial t], [answer], Machine.run_cons_eq_some.mpr ⟨tx, answer, [], hsend, rfl, rfl⟩,
      rfl, fun _ => ⟨trivial, fun _ _ _ => Machine.along_nil ..⟩,
      fun hok => ⟨hok hreading, fun _ _ _ => Machine.along_nil ..⟩⟩
  | received _ => exact ⟨[], [], rfl, rfl, fun _ => hnone _, fun _ => hnone _⟩
  | silent _ => exact ⟨[], [], rfl, rfl, fun _ => hnone _, fun _ => hnone _⟩

/-- **The program refines both machines.** Whatever the two threads do together,
the ring buffers, the flags and the rounds are those of a run of `controlMachine`
that receives the same bytes, and the queue is that of a run of `txMachine`
with the same answers. That run meets what is asked of `malloc` and of `write`
if the program's does. -/
theorem program_refines (heap : Heap Ptr) (heapIn heapMsg stack : Mem) (events : List ProgramEvent)
    {s : Program} {answers : List ProgramAnswer}
    (hrun : Machine.run programMachine (programStart heap heapIn heapMsg stack) events
      = some (s, answers)) :
    (∃ events' rounds, Machine.run controlMachine (prepMonitoringStruct heapIn heapMsg stack) events'
        = some (s.control, rounds) ∧
      received events' = programReceived answers ∧ roundsOf rounds = programRounds answers) ∧
    ∃ events', Machine.run txMachine (txStart heap) events' = some (s.tx, txAnswers answers) ∧
      (Machine.Along programMachine ProgramMallocOk (programStart heap heapIn heapMsg stack) events →
        Machine.Along txMachine TxMallocOk (txStart heap) events') ∧
      (Machine.Along programMachine ProgramWriteOk (programStart heap heapIn heapMsg stack) events →
        Machine.Along txMachine WriteOk (txStart heap) events') := by
  have hnull : (programStart heap heapIn heapMsg stack).tx.blocks NULL = none := rfl
  obtain ⟨-, ks, cs, hcontrol, ⟨hreceived, hrounds⟩, -⟩ := Machine.run_shows Program.control
    seesRounds_showing (fun s => s.tx.blocks NULL = none) []
    (fun s e s' answer hnull hstep => by
      have hinv := programMachine_inv hnull hstep
      obtain ⟨ks, cs, hrun, hsees⟩ := shows_control hinv
      exact ⟨null_step hnull hinv, ks, cs, hrun, hsees, by simp⟩) hnull hrun
  obtain ⟨-, ks', cs', htx, hqueue, hoks⟩ := Machine.run_shows Program.tx
    seesQueue_showing (fun s => s.tx.blocks NULL = none) txConditions
    (fun s e s' answer hnull hstep =>
      ⟨null_step hnull (programMachine_inv hnull hstep),
        shows_tx hnull (programMachine_inv hnull hstep)⟩) hnull hrun
  refine ⟨⟨ks, cs, hcontrol, hreceived, hrounds⟩, ks', by rw [← hqueue]; exact htx, ?_, ?_⟩
  · exact hoks (ProgramMallocOk, TxMallocOk) (by simp [txConditions])
  · exact hoks (ProgramWriteOk, WriteOk) (by simp [txConditions])

/-! ## Accounting for messages and their blocks -/

/-- Pushed is what was removed, followed by what is queued. -/
theorem TxProgress.accounts {c : TxState} {answers : List TxAnswer} (h : TxProgress c answers) :
    ∃ queue, TxInv c.ll c.blocks queue ∧ pushedMsgs answers = removedMsgs answers ++ queue := by
  obtain ⟨queue, rest, hinv, hphase, hpushed⟩ := h
  refine ⟨queue, hinv, ?_⟩
  rw [hpushed]
  cases hpc : c.pc with
  | size =>
    rw [hpc] at hphase
    rw [hphase.2, hphase.1]
  | front =>
    rw [hpc] at hphase
    rw [hphase.2.1, hphase.1]
  | write p =>
    rw [hpc] at hphase
    rw [hphase.2.1, hphase.1]
  | remove =>
    rw [hpc] at hphase
    obtain ⟨msg, hqueue, hwritten⟩ := hphase
    rw [hwritten, hqueue, List.append_assoc]
    rfl

/-- Every live block is that of a queued message. -/
def NoLeak (ll : LList) (blocks : TxBlocks) : Prop :=
  ∃ queue, TxQueue ll blocks queue ∧ ∀ p, blocks p ≠ none → ∃ msg ∈ queue, msg.ptr = p

theorem noLeak_push {c c' : TxState} {n : Ptr} {msg : TxMsg} {answer : TxAnswer}
    {queue : List TxMsg} (hinv : TxInv c.ll c.blocks queue) (hok : TxMallocOk c (.push n msg))
    (hleak : NoLeak c.ll c.blocks) (h : controlPush c n msg = some (c', answer)) :
    NoLeak c'.ll c'.blocks := by
  obtain ⟨queue', hqueue', howned⟩ := hleak
  cases hinv.queue.unique hqueue'
  obtain ⟨c'', hpush, -, hinv'⟩ := controlPush_spec hinv hok
  rw [h] at hpush
  obtain ⟨ll, -, heq⟩ := Option.map_eq_some_iff.mp h
  cases heq
  cases hpush
  refine ⟨_, hinv'.queue, fun p hp => ?_⟩
  by_cases heq : p = msg.ptr
  · exact ⟨msg, by simp, heq.symm⟩
  · obtain ⟨m, hm, hptr⟩ := howned p (by simpa [heq] using hp)
    exact ⟨m, List.mem_append_left _ hm, hptr⟩

/-- What `freeNode` frees is dead. -/
theorem freeNode_self {blocks blocks' : TxBlocks} {p : Ptr} (hnull : blocks NULL = none)
    (h : freeNode blocks p = some blocks') : blocks' p = none := by
  unfold freeNode at h
  split at h
  · next hp =>
    cases h
    rw [hp, hnull]
  · obtain ⟨bytes, -, rfl⟩ := Option.map_eq_some_iff.mp h
    exact if_pos rfl

/-- The block of the message that is removed is freed. -/
theorem removed_freed {ll ll' : LList} {blocks blocks' : TxBlocks} {removed : ListAnswer}
    {msg : TxMsg} {rest : List TxMsg} (hinv : TxInv ll blocks (msg :: rest))
    (hnull : blocks NULL = none) (hremove : removeFront ll = some (ll', removed))
    (hfree : removed.passed.foldlM freeNode blocks = some blocks') : blocks' msg.ptr = none := by
  obtain ⟨⟨cells, hrepr, hcells⟩, -, -⟩ := hinv
  cases cells with
  | nil => cases hcells
  | cons cell cells =>
    rw [List.map_cons, List.map_cons, List.cons.injEq] at hcells
    obtain ⟨_, hremove', -, -⟩ := removeFront_spec hrepr
    rw [hremove] at hremove'
    cases hremove'
    obtain ⟨_, hone, hlast⟩ := Option.bind_eq_some_iff.mp hfree
    cases hlast
    rw [← hcells.1]
    exact freeNode_self hnull hone

theorem noLeak_serial {c c' : TxState} {t : Int} {answer : TxAnswer} {answers : List TxAnswer}
    (hprogress : TxProgress c answers) (hnull : c.blocks NULL = none)
    (hleak : NoLeak c.ll c.blocks) (h : serialStep c t = some (c', answer)) :
    NoLeak c'.ll c'.blocks := by
  obtain ⟨queue, rest, hinv, hphase, -⟩ := hprogress
  cases serialStep_inv h with
  | idle _ _ => exact hleak
  | next _ _ => exact hleak
  | front _ _ => exact hleak
  | wrote _ _ _ => exact hleak
  | short _ _ _ => exact hleak
  | removed hpc hremove hread hfree =>
    rw [hpc] at hphase
    obtain ⟨msg, rfl, -⟩ := hphase
    obtain ⟨queue', hqueue', howned⟩ := hleak
    cases hinv.queue.unique hqueue'
    obtain ⟨c'', hstep, -, hinv'⟩ := serialRemove_spec hinv hpc t
    rw [h] at hstep
    cases hstep
    refine ⟨rest, hinv'.queue, fun p hp => ?_⟩
    have hbefore : c.blocks p ≠ none := fun hnone => hp (serialStep_none h hnone)
    obtain ⟨m, hm, rfl⟩ := howned p hbefore
    rcases List.mem_cons.mp hm with rfl | hm
    · exact absurd (removed_freed hinv hnull hremove hfree) hp
    · exact ⟨m, hm, rfl⟩

/-! ## Whole runs -/

/-- The items there are. -/
def ITEM_COUNT : Nat := 67

/-- How much may be queued: what is still to be pushed adds to it, and behind the
wait there is nothing left. -/
def Owed (answers : List TxAnswer) : PrepPc → Prop
  | .push calls =>
      (pushedMsgs answers).length + calls.length ≤ (removedMsgs answers).length + ITEM_COUNT
  | .wait => (pushedMsgs answers).length ≤ (removedMsgs answers).length + ITEM_COUNT
  | .ready => removedMsgs answers = pushedMsgs answers

/-- What every step of the program keeps. -/
structure Sound (s : Program) (answers : List TxAnswer) : Prop where
  null : s.tx.blocks NULL = none
  progress : TxProgress s.tx answers
  leak : NoLeak s.tx.ll s.tx.blocks
  owed : Owed answers s.prep

theorem length_batch_le (c : Control) : (batch c).length ≤ ITEM_COUNT := by
  have hitems : allItems.length = ITEM_COUNT := by decide
  unfold batch
  split
  · decide
  · decide
  · rw [missingPolls, List.length_map, ← hitems]
    exact List.length_filter_le ..
  · decide

/-- With everything removed, there is room for a batch. -/
theorem owed_prepFor {answers : List TxAnswer} (h : removedMsgs answers = pushedMsgs answers)
    (c : Control) : Owed answers (prepFor c) := by
  have hlen := length_batch_le c
  unfold prepFor
  split
  · show _ ≤ _
    rw [h]
    omega
  · show _ ≤ _
    rw [h]
    omega
  · exact h

theorem txAnswers_concat_tx (answers : List ProgramAnswer) (answer : TxAnswer) :
    txAnswers (answers ++ [.tx answer]) = txAnswers answers ++ [answer] := by
  simp [txAnswers]

theorem txAnswers_concat_control (answers : List ProgramAnswer) (round : Option Round) :
    txAnswers (answers ++ [.control round]) = txAnswers answers := by
  simp [txAnswers]

/-- The next message is queued. -/
theorem sound_push {s : Program} {answers : List ProgramAnswer} (h : Sound s (txAnswers answers))
    {mallocs : Mallocs} (hok : ProgramMallocOk s (.control mallocs)) {call : MsgCall}
    {calls : List MsgCall} (hprep : s.prep = .push (call :: calls)) :
    ∃ s' answer, controlFStep s mallocs = some (s', answer) ∧
      Sound s' (txAnswers (answers ++ [answer])) := by
  obtain ⟨hnull, hprogress, hleak, howed⟩ := h
  have htx := hok.tx hnull hprep
  obtain ⟨tx, answer, hpush, hprogress'⟩ := tx_step hprogress htx
  obtain ⟨queue, hinv, -⟩ := hprogress.accounts
  obtain ⟨tx', hpushed, -, -⟩ := controlPush_spec hinv htx
  rw [show controlPush s.tx _ _ = _ from hpush] at hpushed
  cases hpushed
  refine ⟨{ s with tx := tx, prep := .push calls }, .tx (.pushed (call.msg mallocs.message)), ?_, ?_⟩
  · rw [controlF_push mallocs hprep hnull, show controlPush s.tx _ _ = _ from hpush]
    rfl
  · rw [txAnswers_concat_tx]
    refine ⟨null_controlPush hnull hpush, hprogress', noLeak_push hinv htx hleak hpush, ?_⟩
    rw [hprep] at howed
    have hone : pushedMsgs [.pushed (call.msg mallocs.message)] = [call.msg mallocs.message] := rfl
    have hnone : removedMsgs [.pushed (call.msg mallocs.message)] = [] := rfl
    simp only [Owed, pushedMsgs_append, removedMsgs_append, List.length_append, List.length_cons,
      hone, hnone, List.length_nil] at howed ⊢
    omega

/-- `control_f` looks at the queue. -/
theorem sound_wait {s : Program} {answers : List ProgramAnswer} (h : Sound s (txAnswers answers))
    (mallocs : Mallocs) (hprep : s.prep = .wait) :
    ∃ s' answer, controlFStep s mallocs = some (s', answer) ∧
      Sound s' (txAnswers (answers ++ [answer])) := by
  obtain ⟨hnull, hprogress, hleak, howed⟩ := h
  rw [hprep] at howed
  refine ⟨{ s with prep := if size s.tx.ll = 0 then .ready else .wait },
    .tx (.saw (size s.tx.ll)), by simp only [controlFStep, hprep], ?_⟩
  obtain ⟨c', answer, hstep, hprogress'⟩ := tx_step hprogress (e := .size) trivial
  cases hstep
  have hpushed : pushedMsgs (txAnswers answers ++ [.saw (size s.tx.ll)])
      = pushedMsgs (txAnswers answers) := by simp [pushedMsgs]
  have hremoved : removedMsgs (txAnswers answers ++ [.saw (size s.tx.ll)])
      = removedMsgs (txAnswers answers) := by simp [removedMsgs]
  rw [txAnswers_concat_tx]
  refine ⟨hnull, hprogress', hleak, ?_⟩
  by_cases hzero : size s.tx.ll = 0
  · obtain ⟨queue, hinv, hqueue⟩ := hprogress.accounts
    rw [hinv.size_eq, List.length_eq_zero_iff] at hzero
    simp only [hinv.size_eq, hzero, List.length_nil, if_true, Owed] at hpushed hremoved ⊢
    rw [hpushed, hremoved, hqueue, hzero, List.append_nil]
  · simp only [if_neg hzero, Owed, hpushed, hremoved]
    exact howed

/-- **A step of `control_f`** has an outcome, and keeps the program sound. -/
theorem sound_controlF {s : Program} {answers : List ProgramAnswer} (h : Sound s (txAnswers answers))
    {mallocs : Mallocs} (hok : ProgramMallocOk s (.control mallocs)) :
    ∃ s' answer, controlFStep s mallocs = some (s', answer) ∧
      Sound s' (txAnswers (answers ++ [answer])) := by
  cases hprep : s.prep with
  | push calls =>
    cases calls with
    | nil =>
      have howed := h.owed
      rw [hprep] at howed
      refine ⟨{ s with prep := .wait }, .control none, by simp only [controlFStep, hprep], ?_⟩
      rw [txAnswers_concat_control]
      exact ⟨h.null, h.progress, h.leak, howed⟩
    | cons call calls => exact sound_push h hok hprep
  | wait => exact sound_wait h mallocs hprep
  | ready =>
    have howed := h.owed
    rw [hprep] at howed
    obtain ⟨c, round, hstep⟩ := controlMachine_total s.control .control
    refine ⟨{ s with control := c, prep := prepFor c }, .control round, ?_, ?_⟩
    · simp only [controlFStep, hprep]
      rw [show controlStep s.control = _ from hstep]
      rfl
    · rw [txAnswers_concat_control]
      exact ⟨h.null, h.progress, h.leak, owed_prepFor howed c⟩

/-- What `serial_f` removes leaves less to do. -/
theorem owed_serial {tx tx' : TxState} {answers : List TxAnswer} {answer : TxAnswer} {t : Int}
    (hprogress : TxProgress tx' (answers ++ [answer])) (h : serialStep tx t = some (tx', answer))
    {prep : PrepPc} (howed : Owed answers prep) : Owed (answers ++ [answer]) prep := by
  have hnone := pushedMsgs_serialStep h
  cases prep with
  | push calls =>
    simp only [Owed, pushedMsgs_append, removedMsgs_append, List.length_append, hnone,
      List.length_nil] at howed ⊢
    omega
  | wait =>
    simp only [Owed, pushedMsgs_append, removedMsgs_append, List.length_append, hnone,
      List.length_nil] at howed ⊢
    omega
  | ready =>
    -- everything is removed already
    obtain ⟨queue, -, hqueue⟩ := hprogress.accounts
    simp only [Owed, pushedMsgs_append, removedMsgs_append, hnone, List.append_nil] at howed hqueue ⊢
    rw [← howed] at hqueue
    have hempty : removedMsgs [answer] ++ queue = [] := by
      rw [List.append_assoc] at hqueue
      exact (List.append_right_eq_self.mp hqueue.symm)
    rw [(List.append_eq_nil_iff.mp hempty).1, List.append_nil, howed]

/-- **A step of `serial_f`** has an outcome, and keeps the program sound. -/
theorem sound_serialF {s : Program} {answers : List ProgramAnswer} (h : Sound s (txAnswers answers))
    (t : Int) (r : Option Chunk) :
    ∃ s' answer, serialFStep s t r = some (s', answer) ∧
      Sound s' (txAnswers (answers ++ [answer])) := by
  obtain ⟨hnull, hprogress, hleak, howed⟩ := h
  have hsame : txAnswers (answers ++ [.read r]) = txAnswers answers := by simp [txAnswers]
  unfold serialFStep
  cases hreading : s.reading with
  | true =>
    rw [if_pos rfl]
    cases r with
    | some chunk => exact ⟨_, _, rfl, by rw [hsame]; exact ⟨hnull, hprogress, hleak, howed⟩⟩
    | none => exact ⟨_, _, rfl, by rw [hsame]; exact ⟨hnull, hprogress, hleak, howed⟩⟩
  | false =>
    rw [if_neg Bool.false_ne_true]
    obtain ⟨tx, answer, hstep, hprogress'⟩ := serial_step hprogress t
    refine ⟨_, .tx answer, by rw [hstep]; rfl, ?_⟩
    rw [txAnswers_concat_tx]
    exact ⟨serialStep_none hstep hnull, hprogress', noLeak_serial hprogress hnull hleak hstep,
      owed_serial hprogress' hstep howed⟩

/-- **A step of either thread keeps the program sound.** -/
theorem sound_step {s : Program} {answers : List ProgramAnswer} (h : Sound s (txAnswers answers))
    {e : ProgramEvent} (hok : ProgramMallocOk s e) :
    ∃ s' answer, programMachine s e = some (s', answer) ∧
      Sound s' (txAnswers (answers ++ [answer])) := by
  cases e with
  | control mallocs => exact sound_controlF h hok
  | serial t r => exact sound_serialF h t r

theorem sound_start (heap : Heap Ptr) (heapIn heapMsg stack : Mem) :
    Sound (programStart heap heapIn heapMsg stack) [] where
  null := rfl
  progress := ⟨[], [], ⟨⟨[], createList_repr heap, rfl⟩, by simp, List.Pairwise.nil⟩, ⟨rfl, rfl⟩, rfl⟩
  leak := ⟨[], (show TxInv (createList heap) (fun _ => none) [] from
    ⟨⟨[], createList_repr heap, rfl⟩, by simp, List.Pairwise.nil⟩).queue, fun _ hp => absurd rfl hp⟩
  owed := owed_prepFor rfl (prepMonitoringStruct heapIn heapMsg stack)

/-- **Every run is sound.** -/
theorem sound_run {heap : Heap Ptr} {heapIn heapMsg stack : Mem} {events : List ProgramEvent}
    (hok : Machine.Along programMachine ProgramMallocOk (programStart heap heapIn heapMsg stack)
      events) :
    ∃ s answers,
      Machine.run programMachine (programStart heap heapIn heapMsg stack) events = some (s, answers) ∧
      Sound s (txAnswers answers) :=
  Machine.run_history_along (fun s _ answers => Sound s (txAnswers answers)) ProgramMallocOk
    (fun _ _ _ _ h hok => sound_step h hok) (sound_start heap heapIn heapMsg stack) hok

/-- With everything removed, everything was written. -/
theorem TxProgress.written_eq {c : TxState} {answers : List TxAnswer} (h : TxProgress c answers)
    (hall : removedMsgs answers = pushedMsgs answers) : writtenMsgs answers = pushedMsgs answers := by
  obtain ⟨queue, hinv, haccounts⟩ := h.accounts
  have hempty : queue = [] := by
    rw [hall] at haccounts
    exact List.append_right_eq_self.mp haccounts.symm
  exact h.written_of_empty (by rw [hinv.size_eq, hempty, List.length_nil])

/-- No more messages are queued than there are items. -/
theorem Sound.size_le {s : Program} {answers : List TxAnswer} (h : Sound s answers) :
    size s.tx.ll ≤ ITEM_COUNT := by
  obtain ⟨-, hprogress, -, howed⟩ := h
  obtain ⟨queue, hinv, haccounts⟩ := hprogress.accounts
  have hlen := congrArg List.length haccounts
  rw [List.length_append] at hlen
  rw [hinv.size_eq]
  cases hprep : s.prep with
  | push calls =>
    rw [hprep] at howed
    simp only [Owed] at howed
    omega
  | wait =>
    rw [hprep] at howed
    simp only [Owed] at howed
    omega
  | ready =>
    rw [hprep] at howed
    simp only [Owed] at howed
    rw [howed] at hlen
    omega

/-- `control_f` queues the silencers, and finds that there are no more. -/
def allSilencers : List ProgramEvent :=
  [.control ⟨100, 1, 0⟩, .control ⟨200, 2, 0⟩, .control ⟨300, 3, 0⟩, .control ⟨400, 4, 0⟩,
    .control ⟨500, 5, 0⟩, .control ⟨600, 6, 0⟩, .control ⟨700, 7, 0⟩, .control ⟨NULL, NULL, 0⟩]

theorem allSilencers_mallocOk :
    Machine.Along programMachine ProgramMallocOk plainStart allSilencers := by
  refine ⟨fun _ _ _ => ⟨⟨by decide, rfl⟩, fun _ => rfl⟩, fun s o h => ?_⟩
  cases h
  refine ⟨fun _ _ _ => ⟨⟨by decide, rfl⟩, fun _ => rfl⟩, fun s o h => ?_⟩
  cases h
  refine ⟨fun _ _ _ => ⟨⟨by decide, rfl⟩, fun _ => rfl⟩, fun s o h => ?_⟩
  cases h
  refine ⟨fun _ _ _ => ⟨⟨by decide, rfl⟩, fun _ => rfl⟩, fun s o h => ?_⟩
  cases h
  refine ⟨fun _ _ _ => ⟨⟨by decide, rfl⟩, fun _ => rfl⟩, fun s o h => ?_⟩
  cases h
  refine ⟨fun _ _ _ => ⟨⟨by decide, rfl⟩, fun _ => rfl⟩, fun s o h => ?_⟩
  cases h
  refine ⟨fun _ _ _ => ⟨⟨by decide, rfl⟩, fun _ => rfl⟩, fun s o h => ?_⟩
  cases h
  -- nothing is left to push
  refine ⟨fun _ _ h => ?_, fun _ _ _ => Machine.along_nil ..⟩
  cases h

theorem program_refines_silencers :
    ∃ s answers, Machine.run programMachine plainStart allSilencers = some (s, answers) ∧
      (∃ events' rounds,
        Machine.run controlMachine (prepMonitoringStruct sevens sevens sevens) events'
          = some (s.control, rounds) ∧
        received events' = programReceived answers ∧ roundsOf rounds = programRounds answers) ∧
      ∃ events', Machine.run txMachine (txStart fun _ => none) events'
          = some (s.tx, txAnswers answers) ∧
        (Machine.Along programMachine ProgramMallocOk plainStart allSilencers →
          Machine.Along txMachine TxMallocOk (txStart fun _ => none) events') ∧
        (Machine.Along programMachine ProgramWriteOk plainStart allSilencers →
          Machine.Along txMachine WriteOk (txStart fun _ => none) events') := by
  obtain ⟨s, answers, hrun, -⟩ := sound_run allSilencers_mallocOk
  exact ⟨s, answers, hrun, program_refines _ _ _ _ _ hrun⟩

/-- **The queue never needs more than 32 bits.** In every state the program comes to,
the list counted in an `unsigned int` answers every call as the one counted without
end, and stays the same list. -/
theorem program_list_agrees (heap : Heap Ptr) (heapIn heapMsg stack : Mem)
    (events : List ProgramEvent)
    (hok : Machine.Along programMachine ProgramMallocOk (programStart heap heapIn heapMsg stack)
      events) :
    ∃ s answers, ∃ l : LList UInt32,
      Machine.run programMachine (programStart heap heapIn heapMsg stack) events = some (s, answers) ∧
      l.counted = s.tx.ll ∧
      ∀ c, (listMachine l c).map (Prod.map LList.counted id) = listMachine s.tx.ll c := by
  obtain ⟨s, answers, hrun, hsound⟩ := sound_run hok
  have hsize : s.tx.ll.size ≤ 67 := hsound.size_le
  have hcount : (UInt32.ofNat s.tx.ll.size).toNat = s.tx.ll.size :=
    UInt32.toNat_ofNat_of_lt' (Nat.lt_of_le_of_lt hsize (by decide))
  obtain ⟨l, hl, hlsize⟩ : ∃ l : LList UInt32, l.counted = s.tx.ll ∧ l.size.toNat ≤ 67 := by
    refine ⟨⟨s.tx.ll.heap, s.tx.ll.head, UInt32.ofNat s.tx.ll.size⟩, ?_, by rwa [hcount]⟩
    rw [LList.counted]
    simp only [hcount]
  refine ⟨s, answers, l, hrun, hl, fun c => ?_⟩
  rw [← hl]
  refine listMachine_counted ?_
  have huint : (67 : Nat) < UINT_MAX := by decide
  have hint : ((67 : Nat) : Int) ≤ INT_MAX := by decide
  cases c <;> simp only [CountOk] <;> omega

end UbloxRead
